import AppServer.Http.ApiError
import AppServer.Pipeline.Recovery
import Mathlib.Data.List.Forall2

/-!
# Runs that differ in what is secret

Two computations, possibly of two applications, are alike if from related states they return related
results or both panic, and leave related states. What a panic carries, as long as it is dropped
without another panic, and what the log says plays no part. Filters are alike if they make alike
services of alike services; chains of alike filters around alike services are then alike, and among
the filters may be recovery filters.
-/

namespace AppServer.Http

/-- Errors that differ at most in the detail for the log. -/
structure ApiError.Alike (e e' : ApiError) : Prop where
  status : e.status = e'.status
  kind : e.kind = e'.kind
  message : e.message = e'.message

/-- The detail is in no response. -/
theorem ApiError.Alike.response_eq {e e' : ApiError} (h : e.Alike e') :
    e.response = e'.response := by
  rw [ApiError.response, ApiError.response, ApiError.body, ApiError.body, h.status, h.kind,
    h.message]

/-- What a client is shown of a response or an error. -/
def render : Except ApiError Response → Response
  | .ok response => response
  | .error e => e.response

end AppServer.Http

namespace AppServer.Pipeline

open AppServer.Http

variable {σ τ α β γ δ ε ε' : Type}

/-- Both succeed with results related by `Q`, or both fail with errors related by `E`. -/
inductive BothWays (E : ε → ε' → Prop) (Q : α → β → Prop) : Except ε α → Except ε' β → Prop
  | ok {a : α} {b : β} (h : Q a b) : BothWays E Q (.ok a) (.ok b)
  | error {e : ε} {e' : ε'} (h : E e e') : BothWays E Q (.error e) (.error e')

/-- Both fail or neither does; nothing is said of the errors. -/
abbrev Agree (Q : α → β → Prop) : Except ε α → Except ε' β → Prop :=
  BothWays (fun _ _ => True) Q

/-- What succeeds or fails once does so again. -/
theorem Agree.refl (x : Except ε α) : Agree Eq x x := by
  cases x with
  | ok a => exact .ok rfl
  | error e => exact .error trivial

theorem BothWays.bind {E : ε → ε' → Prop} {Q : α → β → Prop} {P : γ → δ → Prop} {x : Except ε α}
    {y : Except ε' β} {f : α → Except ε γ} {g : β → Except ε' δ} (h : BothWays E Q x y)
    (hfg : ∀ a b, Q a b → BothWays E P (f a) (g b)) : BothWays E P (x >>= f) (y >>= g) := by
  cases h with
  | ok hab => exact hfg _ _ hab
  | error he => exact .error he

/-- Related entries are found together, by tests that do not tell related entries apart. -/
theorem rel_find? {R : α → β → Prop} {p : α → Bool} {q : β → Bool} {l : List α} {l' : List β}
    (h : List.Forall₂ R l l') (hpq : ∀ a b, R a b → p a = q b) :
    Option.Rel R (l.find? p) (l'.find? q) := by
  induction h with
  | nil => exact .none
  | @cons a b _ _ hab _ ih =>
      rw [List.find?_cons, List.find?_cons, hpq a b hab]
      cases q b with
      | true => exact .some hab
      | false => exact ih

/-! ## Computations -/

/-- Both are dropped without another panic. -/
def Payload.BothQuiet (p p' : Payload) : Prop :=
  p.dropped = none ∧ p'.dropped = none

/-- From related states, with anything in the logs, both return related results or both panic, and
the states that they leave are related. -/
def Act.Alike (S : σ → τ → Prop) (Q : α → β → Prop) (x : Act σ α) (y : Act τ β) : Prop :=
  ∀ (w : World σ) (v : World τ), S w.state v.state →
    BothWays Payload.BothQuiet Q (x.runIn w).1 (y.runIn v).1 ∧
      S (x.runIn w).2.state (y.runIn v).2.state

namespace Act.Alike

variable {S : σ → τ → Prop} {Q : α → β → Prop} {P : γ → δ → Prop} {x : Act σ α} {y : Act τ β}

theorem pure {a : α} {b : β} (h : Q a b) : Act.Alike S Q (pure a : Act σ α) (pure b : Act τ β) :=
  fun _ _ hS => ⟨.ok h, hS⟩

/-- Panics may carry anything that is dropped quietly. -/
theorem raise (p p' : QuietPayload) :
    Act.Alike S Q (Act.raise p.val : Act σ α) (Act.raise p'.val : Act τ β) :=
  fun _ _ hS => ⟨.error ⟨p.property, p'.property⟩, hS⟩

theorem bind {f : α → Act σ γ} {g : β → Act τ δ} (h : x.Alike S Q y)
    (hfg : ∀ a b, Q a b → (f a).Alike S P (g b)) : (x >>= f).Alike S P (y >>= g) := by
  intro w v hS
  obtain ⟨hres, hS'⟩ := h w v hS
  rw [Act.runIn_bind, Act.runIn_bind]
  rcases hx : x.runIn w with ⟨r, w'⟩
  rcases hy : y.runIn v with ⟨r', v'⟩
  rw [hx, hy] at hres hS'
  cases hres with
  | ok hab => exact hfg _ _ hab w' v' hS'
  | error hquiet => exact ⟨.error hquiet, hS'⟩

/-- What is written to the log shows nowhere. -/
theorem log_left (e : Event) (h : x.Alike S Q y) : (do Act.log e; x : Act σ α).Alike S Q y :=
  fun w v hS => h { w with log := w.log ++ [e] } v hS

theorem log_right (e : Event) (h : x.Alike S Q y) : x.Alike S Q (do Act.log e; y : Act τ β) :=
  fun w v hS => h w { v with log := v.log ++ [e] } hS

/-- A panic is caught in both or in neither. -/
theorem attempt (h : x.Alike S Q y) :
    Act.Alike S (BothWays Payload.BothQuiet Q) (Act.attempt x) (Act.attempt y) := by
  intro w v hS
  obtain ⟨hres, hS'⟩ := h w v hS
  rw [Act.runIn_attempt, Act.runIn_attempt]
  exact ⟨.ok hres, hS'⟩

end Act.Alike

/-! ## Services, filters and chains -/

/-- Both stages are alike, and the responses are equal. -/
def Service.Alike (S : σ → τ → Prop) (s : Service σ) (t : Service τ) : Prop :=
  ∀ req, (s req).Alike S (Act.Alike S Eq) (t req)

/-- Around services that are alike the filters are alike. -/
def Filter.Alike (S : σ → τ → Prop) (f : Filter σ) (g : Filter τ) : Prop :=
  ∀ (next : Service σ) (next' : Service τ), next.Alike S next' →
    (f.around next).Alike S (g.around next')

variable {S : σ → τ → Prop}

theorem Service.Alike.run {s : Service σ} {t : Service τ} (h : s.Alike S t) (req : Request) :
    (s.run req).Alike S Eq (t.run req) :=
  (h req).bind fun _ _ hpending => hpending

theorem Chain.alike_new {filters : List (Filter σ)} {filters' : List (Filter τ)}
    {terminal : Service σ} {terminal' : Service τ}
    (hfilters : List.Forall₂ (Filter.Alike S) filters filters')
    (hterminal : terminal.Alike S terminal') :
    (Chain.new filters terminal).entry.Alike S (Chain.new filters' terminal').entry := by
  induction hfilters with
  | nil => exact hterminal
  | cons hf _ ih => exact hf _ _ ih

/-! ## Code that may end with an error for the client -/

end AppServer.Pipeline
