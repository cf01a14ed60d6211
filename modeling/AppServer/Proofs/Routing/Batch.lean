import AppServer.Proofs.Routing.Order
import Mathlib.Data.List.Induction

/-!
# Registrations in batches

Registrations that belong together are performed up to the first that is refused; what is left of the
batch is not tried, the batches behind it are. Nothing is refused just when nothing is refused of all
registrations performed one after the other. What is reported is what these report, as long as
nothing but the last registration of a batch is refused.
-/

namespace AppServer.Routing.Router

variable {σ : Type} {r : Router σ}

/-- Performs registrations up to the first that is refused. -/
def registerUntil (r : Router σ) : List (Route σ) → Router σ × List RouteError
  | [] => (r, [])
  | route :: rest =>
    match r.handle route.method route.pattern route.service with
    | (next, .ok ()) => next.registerUntil rest
    | (left, .error e) => (left, [e])

/-- Performs batches of registrations. -/
def registerBatches (r : Router σ) : List (List (Route σ)) → Router σ × List RouteError
  | [] => (r, [])
  | batch :: rest =>
    let (next, errors) := r.registerUntil batch
    let (last, more) := next.registerBatches rest
    (last, errors ++ more)

/-- The router, or all errors if there are any. -/
def outcome : Router σ × List RouteError → Except (List RouteError) (Router σ)
  | (router, []) => .ok router
  | (_, errors) => .error errors

theorem outcome_eq_ok_iff {result : Router σ × List RouteError} :
    (∃ router, outcome result = .ok router) ↔ result.2 = [] := by
  obtain ⟨router, errors⟩ := result
  cases errors with
  | nil => simp [outcome]
  | cons e es => simp [outcome]

theorem outcome_eq_ok {result : Router σ × List RouteError} {router : Router σ}
    (h : outcome result = .ok router) : result.1 = router ∧ result.2 = [] := by
  obtain ⟨last, errors⟩ := result
  cases errors with
  | nil => exact ⟨Except.ok.inj h, rfl⟩
  | cons e es => cases h

theorem outcome_cases (result : Router σ × List RouteError) :
    (∃ router, outcome result = .ok router) ∨ ∃ e es, outcome result = .error (e :: es) := by
  obtain ⟨router, errors⟩ := result
  cases errors with
  | nil => exact .inl ⟨router, rfl⟩
  | cons e es => exact .inr ⟨e, es, rfl⟩

/-! ## One after the other -/

theorem registerAll_append (r : Router σ) (front back : List (Route σ)) :
    r.registerAll (front ++ back) =
      (((r.registerAll front).1.registerAll back).1,
        (r.registerAll front).2 ++ ((r.registerAll front).1.registerAll back).2) := by
  induction front generalizing r with
  | nil => rfl
  | cons route rest ih =>
      cases h : r.register route.method route.pattern route.service with
      | ok next => simp only [List.cons_append, registerAll_cons, h, ih]
      | error e => simp only [List.cons_append, registerAll_cons, h, ih]

theorem registerBatches_cons (r : Router σ) (batch : List (Route σ))
    (rest : List (List (Route σ))) :
    r.registerBatches (batch :: rest) =
      (((r.registerUntil batch).1.registerBatches rest).1,
        (r.registerUntil batch).2 ++ ((r.registerUntil batch).1.registerBatches rest).2) := rfl

theorem registerBatches_append (r : Router σ) (front back : List (List (Route σ))) :
    r.registerBatches (front ++ back) =
      (((r.registerBatches front).1.registerBatches back).1,
        (r.registerBatches front).2 ++ ((r.registerBatches front).1.registerBatches back).2) := by
  induction front generalizing r with
  | nil => rfl
  | cons batch rest ih =>
      rw [List.cons_append, registerBatches_cons, registerBatches_cons, ih, List.append_assoc]

/-! ## One batch -/

theorem registerUntil_cons (r : Router σ) (route : Route σ) (rest : List (Route σ)) :
    r.registerUntil (route :: rest) =
      match r.register route.method route.pattern route.service with
      | .ok next => next.registerUntil rest
      | .error e => (r, [e]) := by
  rw [registerUntil]
  cases h : r.register route.method route.pattern route.service with
  | ok next => rw [handle_of_ok h]
  | error e => rw [handle_of_error h]

/-- A batch of which nothing but the last registration is refused is tried completely. -/
theorem registerUntil_eq_registerAll {batch : List (Route σ)}
    (h : (r.registerAll batch.dropLast).2 = []) : r.registerUntil batch = r.registerAll batch := by
  induction batch generalizing r with
  | nil => rfl
  | cons route rest ih =>
      cases rest with
      | nil =>
          rw [registerUntil_cons, registerAll_cons]
          cases r.register route.method route.pattern route.service with
          | ok next => rfl
          | error e => rfl
      | cons second rest =>
          rw [List.dropLast_cons_of_ne_nil (List.cons_ne_nil second rest),
            registerAll_cons_errors_eq_nil_iff] at h
          obtain ⟨next, hroute, hrest⟩ := h
          have hlater := ih hrest
          rw [registerUntil_cons, registerAll_cons]
          simp only [hroute]
          exact hlater

theorem registerAll_dropLast_errors {batch : List (Route σ)} (h : (r.registerAll batch).2 = []) :
    (r.registerAll batch.dropLast).2 = [] := by
  cases batch using List.reverseRecOn with
  | nil => rfl
  | append_singleton front last =>
      rw [registerAll_append] at h
      rw [List.dropLast_concat]
      exact (List.append_eq_nil_iff.mp h).1

/-- A batch that reports nothing was accepted as a whole. -/
theorem registerAll_eq_registerUntil {batch : List (Route σ)}
    (h : (r.registerUntil batch).2 = []) : r.registerAll batch = r.registerUntil batch := by
  induction batch generalizing r with
  | nil => rfl
  | cons route rest ih =>
      cases hroute : r.register route.method route.pattern route.service with
      | ok next =>
          simp only [registerUntil_cons, hroute] at h
          simp only [registerUntil_cons, registerAll_cons, hroute]
          exact ih h
      | error e =>
          simp only [registerUntil_cons, hroute] at h
          cases h

/-! ## All batches -/

/-- Of the registrations of a batch none but the last is refused, those of all batches being performed
one after the other. -/
def RefusesLastOnly (r : Router σ) : List (List (Route σ)) → Prop
  | [] => True
  | batch :: rest =>
    (r.registerAll batch.dropLast).2 = [] ∧ (r.registerAll batch).1.RefusesLastOnly rest

theorem RefusesLastOnly.registerBatches_eq {batches : List (List (Route σ))}
    (h : r.RefusesLastOnly batches) : r.registerBatches batches = r.registerAll batches.flatten := by
  induction batches generalizing r with
  | nil => rfl
  | cons batch rest ih =>
      obtain ⟨hbatch, hrest⟩ := h
      rw [List.flatten_cons, registerAll_append, registerBatches_cons,
        registerUntil_eq_registerAll hbatch, ih hrest]

theorem refusesLastOnly_of_errors {batches : List (List (Route σ))}
    (h : (r.registerAll batches.flatten).2 = []) : r.RefusesLastOnly batches := by
  induction batches generalizing r with
  | nil => trivial
  | cons batch rest ih =>
      rw [List.flatten_cons, registerAll_append] at h
      obtain ⟨hbatch, hrest⟩ := List.append_eq_nil_iff.mp h
      exact ⟨registerAll_dropLast_errors hbatch, ih hrest⟩

theorem registerAll_eq_registerBatches {batches : List (List (Route σ))}
    (h : (r.registerBatches batches).2 = []) :
    r.registerAll batches.flatten = r.registerBatches batches := by
  induction batches generalizing r with
  | nil => rfl
  | cons batch rest ih =>
      rw [registerBatches_cons] at h
      obtain ⟨hbatch, hrest⟩ := List.append_eq_nil_iff.mp h
      rw [List.flatten_cons, registerAll_append, registerBatches_cons,
        registerAll_eq_registerUntil hbatch, ih hrest]

/-- Batches hide no refusal completely. -/
theorem registerBatches_errors_eq_nil_iff {batches : List (List (Route σ))} :
    (r.registerBatches batches).2 = [] ↔ (r.registerAll batches.flatten).2 = [] := by
  constructor
  · intro h
    rw [registerAll_eq_registerBatches h]
    exact h
  · intro h
    rw [(refusesLastOnly_of_errors h).registerBatches_eq]
    exact h

end AppServer.Routing.Router
