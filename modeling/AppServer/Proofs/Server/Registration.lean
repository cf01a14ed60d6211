import AppServer.Admin.Basic
import AppServer.Application.Basic
import AppServer.Proofs.Routing.Batch

/-!
# What the surfaces report of their registrations

The admin surface performs its registrations one after the other. An application performs batches: a
plain route is a batch of its own, the verbs of a resource are one. Every plain route and every
resource is tried, but of a resource the verbs behind a refused one are not. So a surface starts just
when all of its registrations are accepted one after the other. If it does not, it reports all that
are refused, unless a resource has verbs left behind a refused one.
-/

namespace AppServer

open Negotiation Pipeline Routing

variable {σ : Type}

/-- The routes that a resource stands for, one for each verb that it has. -/
def Resource.routes (registry : Registry) (res : Resource σ) : List (Route σ) :=
  ([res.get, res.post, res.put, res.patch, res.delete].filterMap id).map fun verb =>
    ⟨verb.method.name, res.path, Resource.bind registry verb⟩

theorem Resource.routes_eq (registry : Registry) (res : Resource σ) :
    res.routes registry =
      res.verbs.map fun verb => ⟨verb.method.name, res.path, Resource.bind registry verb⟩ := rfl

/-- The error of what went wrong, if anything did. -/
def refusal {α : Type} : Except RouteError α → List RouteError
  | .ok _ => []
  | .error e => [e]

theorem Resource.registerVerbs_eq (registry : Registry) (res : Resource σ)
    (verbs : List (Resource.Verb σ)) (r : Router σ) (endpoints : List Resource.Endpoint) :
    let result := Resource.registerVerbs registry res r endpoints verbs
    (result.1, refusal result.2) = r.registerUntil
      (verbs.map fun verb => ⟨verb.method.name, res.path, Resource.bind registry verb⟩) := by
  induction verbs generalizing r endpoints with
  | nil => rfl
  | cons verb verbs ih =>
      simp only [Resource.registerVerbs, List.map_cons, Router.registerUntil]
      rcases r.handle verb.method.name res.path (Resource.bind registry verb) with
        ⟨left, e | ⟨⟩⟩
      · rfl
      · exact ih left _

/-- A resource is a batch. -/
theorem Resource.register_eq (registry : Registry) (r : Router σ) (res : Resource σ) :
    ((Resource.register registry r res).1, refusal (Resource.register registry r res).2.1) =
      r.registerUntil (res.routes registry) := by
  have hverbs := Resource.registerVerbs_eq registry res res.verbs r []
  rw [Resource.routes_eq, ← hverbs, Resource.register]
  cases hempty : res.verbs.isEmpty with
  | true =>
      rw [List.isEmpty_iff] at hempty
      simp [hempty, Resource.registerVerbs, refusal]
  | false =>
      rcases Resource.registerVerbs registry res r [] res.verbs with ⟨next, result⟩
      cases result <;> rfl

theorem Admin.start_eq_outcome (a : Admin σ) (mount : String) :
    (a.start mount).1 = Router.outcome
      ((Router.withFilters mount (a.filters.prepend cacheFilter)).registerAll
        (a.routes (normalizeMount mount))) := by
  unfold start
  simp only [Router.mount_withFilters]
  rcases (Router.withFilters mount (a.filters.prepend cacheFilter)).registerAll
    (a.routes (normalizeMount mount)) with ⟨router, errors⟩
  cases errors <;> rfl

namespace Application

/-- Everything that is registered, in batches. -/
def batches (a : Application σ) : List (List (Route σ)) :=
  a.routes.map (fun route => [route]) ++ a.resources.map (·.routes a.registry)

/-- Everything that is registered: the plain routes and then the verbs of every resource. -/
def registrations (a : Application σ) : List (Route σ) :=
  a.routes ++ a.resources.flatMap (·.routes a.registry)

theorem flatten_batches (a : Application σ) : a.batches.flatten = a.registrations := by
  have hroutes : (a.routes.map fun route => [route]).flatten = a.routes := by
    rw [← List.flatMap_def, List.flatMap_singleton']
  rw [batches, List.flatten_append, hroutes, registrations, List.flatMap_def]

/-- The router and the errors so far. -/
def Progress.state (p : Progress σ) : Router σ × List RouteError :=
  (p.router, p.errors)

/-- Errors so far, and what a further step makes of the router. -/
def Progress.after (p : Progress σ) (step : Router σ × List RouteError) :
    Router σ × List RouteError :=
  (step.1, p.errors ++ step.2)

theorem Progress.state_addRoute (p : Progress σ) (route : Route σ) :
    (p.addRoute route).state = p.after (p.router.registerUntil [route]) := by
  unfold addRoute
  simp only [Router.registerUntil]
  rcases p.router.handle route.method route.pattern route.service with ⟨left, e | ⟨⟩⟩
  · rfl
  · simp [state, after]

theorem Progress.state_addResource (registry : Registry) (p : Progress σ) (res : Resource σ) :
    (p.addResource registry res).state =
      p.after (p.router.registerUntil (res.routes registry)) := by
  rw [← Resource.register_eq, addResource]
  rcases Resource.register registry p.router res with ⟨next, result, events⟩
  cases result with
  | error e => rfl
  | ok endpoints => simp [state, after, refusal]

/-- Steps that perform a batch each perform all batches. -/
theorem Progress.state_foldl {ι : Type} {step : Progress σ → ι → Progress σ}
    {batch : ι → List (Route σ)}
    (hstep : ∀ p x, (step p x).state = p.after (p.router.registerUntil (batch x)))
    (xs : List ι) (p : Progress σ) :
    (xs.foldl step p).state = p.after (p.router.registerBatches (xs.map batch)) := by
  induction xs generalizing p with
  | nil => simp [state, after, Router.registerBatches]
  | cons x xs ih =>
      have hfirst := hstep p x
      have hrouter : (step p x).router = (p.router.registerUntil (batch x)).1 :=
        congrArg Prod.fst hfirst
      have herrors : (step p x).errors = p.errors ++ (p.router.registerUntil (batch x)).2 :=
        congrArg Prod.snd hfirst
      rw [List.foldl_cons, ih, List.map_cons, Router.registerBatches_cons, after, after, hrouter,
        herrors, List.append_assoc]

theorem state_progress (a : Application σ) (mount : String) :
    (a.progress mount).state = (Router.withFilters mount a.filters).registerBatches a.batches := by
  have hroutes := Progress.state_foldl Progress.state_addRoute a.routes
    ⟨.withFilters mount a.filters, [], [], []⟩
  have hresources := Progress.state_foldl (Progress.state_addResource a.registry) a.resources
    (a.routes.foldl Progress.addRoute ⟨.withFilters mount a.filters, [], [], []⟩)
  rw [batches, Router.registerBatches_append]
  refine hresources.trans ?_
  have hrouter := congrArg Prod.fst hroutes
  have herrors := congrArg Prod.snd hroutes
  simp only [Progress.state, Progress.after, List.nil_append] at hrouter herrors
  rw [Progress.after, hrouter, herrors]

theorem start_eq_outcome (a : Application σ) (mount : String) :
    (a.start mount).1 =
      Router.outcome ((Router.withFilters mount a.filters).registerBatches a.batches) := by
  rw [← state_progress, start, Progress.state]
  cases h : (a.progress mount).errors with
  | nil => simp [Router.outcome]
  | cons e es => simp [Router.outcome]

/-- The router of an application that has started: nothing was refused. -/
theorem registerAll_of_start {a : Application σ} {mount : String} {r : Router σ}
    (h : (a.start mount).1 = .ok r) :
    (Router.withFilters mount a.filters).registerAll a.registrations = (r, []) := by
  rw [a.start_eq_outcome] at h
  obtain ⟨hrouter, herrors⟩ := Router.outcome_eq_ok h
  rw [← a.flatten_batches, Router.registerAll_eq_registerBatches herrors]
  exact Prod.ext hrouter herrors

/-- An application starts just when all of its registrations are accepted, performed one after the
other on a fresh router. Otherwise it reports what its batches report; these are all refusals if of
no resource any verb but the last is refused. -/
theorem start_reports_refusals (a : Application σ) (mount : String) :
    let fresh := Router.withFilters mount a.filters
    ((∃ router, (a.start mount).1 = .ok router) ↔ (fresh.registerAll a.registrations).2 = []) ∧
    (a.start mount).1 = Router.outcome (fresh.registerBatches a.batches) ∧
    (fresh.RefusesLastOnly a.batches →
      (a.start mount).1 = Router.outcome (fresh.registerAll a.registrations)) := by
  intro fresh
  have hstart := a.start_eq_outcome mount
  refine ⟨?_, hstart, ?_⟩
  · rw [hstart, Router.outcome_eq_ok_iff, Router.registerBatches_errors_eq_nil_iff,
      flatten_batches]
  · intro h
    rw [hstart, h.registerBatches_eq, flatten_batches]

/-- A verb that fails. -/
def failing (m : Http.Method) : Resource.Verb Unit :=
  .withoutBody m fun _ => return .error (.other "")

/-- Two verbs on `/a`. -/
def items : Resource Unit :=
  ⟨"/a", "Items", some (failing .get), some (failing .post), none, none, none⟩

/-- A plain route for the second verb of the resource, and one that cannot be read. -/
def secondTaken : Application Unit :=
  { Application.empty with
    routes := [⟨"POST", "/a", .deferred fun _ => return .empty⟩,
      ⟨"GET", "no-slash", .deferred fun _ => return .empty⟩]
    resources := [items] }

/-- Both refusals are reported. -/
theorem start_secondTaken :
    (Router.withFilters "/" secondTaken.filters).RefusesLastOnly secondTaken.batches ∧
    (secondTaken.start "/").1 = .error
      [.malformedPattern "no-slash" .noLeadingSlash, .duplicate "POST" "/a"] := by
  have hlast : (Router.withFilters "/" secondTaken.filters).RefusesLastOnly
      secondTaken.batches := ⟨rfl, rfl, rfl, trivial⟩
  obtain ⟨-, -, hall⟩ := start_reports_refusals secondTaken "/"
  exact ⟨hlast, hall hlast⟩

/-- Plain routes for both verbs of the resource. -/
def bothTaken : Application Unit :=
  { Application.empty with
    routes := [⟨"GET", "/a", .deferred fun _ => return .empty⟩,
      ⟨"POST", "/a", .deferred fun _ => return .empty⟩]
    resources := [items] }

/-- The second refusal is not reported. -/
theorem not_start_bothTaken :
    ¬ ∀ (a : Application Unit) (mount : String), (a.start mount).1 =
      Router.outcome ((Router.withFilters mount a.filters).registerAll a.registrations) := by
  intro hclaim
  have hreported : (bothTaken.start "/").1 = .error [.duplicate "GET" "/a"] := by rfl
  have hrefused : Router.outcome ((Router.withFilters "/" bothTaken.filters).registerAll
      bothTaken.registrations) = .error [.duplicate "GET" "/a", .duplicate "POST" "/a"] := by rfl
  have hsame := hclaim bothTaken "/"
  rw [hreported, hrefused] at hsame
  cases hsame

end Application

end AppServer
