import AppServer.Proofs.Routing.Isolation
import AppServer.Proofs.Server.Registration

/-!
# Panics of an application of resources

The events of recovery come from recovery filters alone: what is done around the methods of a resource
writes none. So an application of resources logs one event for every panic that reaches a recovery
filter, whatever its methods do, as long as they write no such event themselves.
-/

namespace AppServer

open AppServer.Http AppServer.Pipeline

variable {σ : Type}

namespace Resource

open AppServer.Data AppServer.Negotiation

/-- A verb that is quiet in all it does. -/
def Verb.Discreet (verb : Verb (Watched σ)) : Prop :=
  ∀ R, Lawful R → ∀ ctx input, (verb.call ctx input).Keeps R fun _ => True

section

variable {R : World (Watched σ) → World (Watched σ) → Prop}

theorem keeps_logged (hR : Lawful R) {e : Event} (h : e.target = "melon::rest")
    (response : Response) :
    (do Act.log e; return response : Act (Watched σ) Response).Keeps R fun _ => True := by
  have hother : e.target ≠ "melon::recovery" := by
    rw [h]
    decide
  exact (Act.keeps_log hR hother).bind hR fun _ _ => Act.keeps_pure hR trivial

theorem keeps_domainError (hR : Lawful R) (d : DomainError) :
    (domainError d : Act (Watched σ) Response).Keeps R fun _ => True := by
  cases d with
  | other text => exact keeps_logged hR (e := .methodFailed text) rfl _
  | api e =>
      cases hdetail : e.internal with
      | none =>
          simp only [domainError, hdetail]
          exact Act.keeps_pure hR trivial
      | some detail =>
          simp only [domainError, hdetail]
          exact keeps_logged hR (e := .resourceError e.status detail) rfl _

theorem keeps_respond (hR : Lawful R) (registry : Registry) (accept : Option String)
    (entity : Value) :
    (respond registry accept entity : Act (Watched σ) Response).Keeps R fun _ => True := by
  unfold respond
  cases registry.selectWriter accept with
  | error p => exact Act.keeps_raise hR p
  | ok selection =>
      cases selection with
      | error e => exact Act.keeps_pure hR trivial
      | ok chosen =>
          cases hencode : chosen.provider.encode entity with
          | ok bytes =>
              simp only [hencode, entityResponse]
              split
              · exact Act.keeps_pure hR trivial
              · exact Act.keeps_raise hR _
          | error e =>
              simp only [hencode]
              exact keeps_logged hR (e := .encodingFailed chosen.provider.name e.message) rfl _

end

/-- What is done around the method of a verb is no business of recovery. -/
theorem Verb.Discreet.bind (registry : Registry) {verb : Verb (Watched σ)} (h : verb.Discreet) :
    (bind registry verb).Discreet := by
  intro R hR req
  apply Act.keeps_pure hR
  unfold dispatch
  cases bodyInput registry verb req with
  | error e => exact Act.keeps_pure hR trivial
  | ok input =>
      refine (h R hR _ input).bind hR fun result _ => ?_
      match result with
      | .error (.decode e) => exact keeps_logged hR rfl _
      | .error (.domain d) => exact keeps_domainError hR d
      | .ok entity => exact keeps_respond hR registry _ entity

/-- A verb that writes no event of recovery. -/
def Verb.Reticent (verb : Verb σ) : Prop :=
  ∀ ctx input w, ∃ events : List Event, ((verb.call ctx input).runIn w).2.log = w.log ++ events ∧
    ∀ e ∈ events, e.target ≠ "melon::recovery"

/-- A verb run beside notes that it does not see. -/
def Verb.beside (verb : Verb σ) : Verb (Watched σ) where
  method := verb.method
  takesBody := verb.takesBody
  call ctx input := Act.beside (verb.call ctx input)

theorem Verb.Reticent.beside {verb : Verb σ} (h : verb.Reticent) : verb.beside.Discreet :=
  fun _ hR ctx input => Act.keeps_beside hR (h ctx input)

/-- A resource all of whose methods run beside notes. -/
def beside (res : Resource σ) : Resource (Watched σ) where
  path := res.path
  name := res.name
  get := res.get.map Verb.beside
  post := res.post.map Verb.beside
  put := res.put.map Verb.beside
  patch := res.patch.map Verb.beside
  delete := res.delete.map Verb.beside

theorem verbs_beside (res : Resource σ) : res.beside.verbs = res.verbs.map Verb.beside := by
  unfold verbs beside
  cases res.get <;> cases res.post <;> cases res.put <;> cases res.patch <;> cases res.delete <;> rfl

/-- Every route of such a resource is discreet. -/
theorem discreet_routes_beside (registry : Registry) {res : Resource σ}
    (h : ∀ verb ∈ res.verbs, verb.Reticent) :
    ∀ route ∈ res.beside.routes registry, route.service.Discreet := by
  intro route hroute
  rw [routes_eq, verbs_beside, List.map_map] at hroute
  obtain ⟨verb, hverb, rfl⟩ := List.mem_map.mp hroute
  exact (h verb hverb).beside.bind registry

end Resource

/-- An application of such resources and of discreet routes, with each panic noted just inside the
recovery filters around it, logs one event for every note. -/
theorem Application.counted_start {a : Application (Watched σ)} {resources : List (Resource σ)}
    {layers : List (Layer (Watched σ))} {mount : String} {r : Routing.Router (Watched σ)}
    (hfilters : a.filters = ⟨noticeFilter :: layers.flatMap Layer.watched⟩)
    (hlayers : ∀ f, .own f ∈ layers → f.Discreet)
    (hroutes : ∀ route ∈ a.routes, route.service.Discreet)
    (hresources : a.resources = resources.map Resource.beside)
    (hreticent : ∀ res ∈ resources, ∀ verb ∈ res.verbs, verb.Reticent)
    (h : (a.start mount).1 = .ok r) (req : Request) (w : World (Watched σ)) :
    Counted w ((r.serve req).runIn w).2 := by
  have hdiscreet : ∀ route ∈ a.registrations, route.service.Discreet := by
    intro route hroute
    rw [registrations, hresources, List.flatMap_map] at hroute
    rcases List.mem_append.mp hroute with hroute | hroute
    · exact hroutes route hroute
    · obtain ⟨res, hres, hroute⟩ := List.mem_flatMap.mp hroute
      exact Resource.discreet_routes_beside a.registry (hreticent res hres) route hroute
  have hcounted : Counted w ((((Routing.Router.withFilters mount
      ⟨noticeFilter :: layers.flatMap Layer.watched⟩).registerAll a.registrations).1.serve
        req).runIn w).2 :=
    Routing.Router.counted_serve mount hlayers hdiscreet req w
  rwa [← hfilters, registerAll_of_start h] at hcounted

end AppServer
