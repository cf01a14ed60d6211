import AppServer.Proofs.Routing.Prefix
import AppServer.Proofs.Server.Registration
import Mathlib.Data.List.Infix

/-!
# The table of endpoints

An application shows a line for every route that its router accepts: the method and the full path.
Each registration keeps the lines true that are there, and the line it adds is that of the route which
the router then lists last. Mounting is only a prefix, so the full path is what a request has to fit.
-/

namespace AppServer

open Http Negotiation Pipeline Routing Text

variable {σ : Type}

/-- A router under a mount point, as registrations have left it, and lines that show some of its
routes. -/
structure Tabled (mount : String) (r : Router σ) (endpoints : List Resource.Endpoint) : Prop where
  mounted : r.mount = normalizeMount mount
  lists : ∃ regs, r.Lists regs
  lines : ∀ endpoint ∈ endpoints, ∃ info ∈ r.routes,
    endpoint.method = info.method ∧ endpoint.path = joinPath r.mount info.pattern

namespace Tabled

variable {mount : String} {r r' : Router σ} {endpoints shown : List Resource.Endpoint}

theorem of_subset (h : Tabled mount r endpoints) (hsubset : shown ⊆ endpoints) :
    Tabled mount r shown where
  mounted := h.mounted
  lists := h.lists
  lines endpoint hmem := h.lines endpoint (hsubset hmem)

/-- A route that is accepted may be shown from then on. -/
theorem register (h : Tabled mount r endpoints) (route : Route σ)
    (hregister : r.register route.method route.pattern route.service = .ok r')
    (component : String) :
    Tabled mount r' (endpoints ++
      [⟨route.method, joinPath r.mount (Resource.shownPattern route.pattern), component⟩]) := by
  have hmount := (Router.mount_of_register hregister).1
  obtain ⟨regs, hr⟩ := h.lists
  obtain ⟨reg, entries, hread, -, rfl⟩ := Router.read_of_register hregister
  obtain ⟨-, hparse, -⟩ := Route.read_eq_ok_iff.mp hread
  have hroutes : (r.place reg entries).routes = r.routes ++ [reg.info] := rfl
  refine ⟨hmount.trans h.mounted, ⟨_, hr.register hread hregister⟩, ?_⟩
  intro endpoint hmem
  rw [hroutes, hmount]
  rcases List.mem_append.mp hmem with hold | hnew
  · obtain ⟨info, hinfo, hline⟩ := h.lines endpoint hold
    exact ⟨info, List.mem_append_left _ hinfo, hline⟩
  · rw [List.mem_singleton.mp hnew]
    refine ⟨reg.info, List.mem_append_right _ (List.mem_singleton_self _), ?_, ?_⟩
    · exact (Registration.methodLabel_of_read hread).symm
    · show joinPath r.mount (Resource.shownPattern route.pattern) = _
      rw [Resource.shownPattern, hparse]
      rfl

theorem registerVerbs (h : Tabled mount r (shown ++ endpoints)) (registry : Registry)
    (res : Resource σ) (verbs : List (Resource.Verb σ)) :
    Tabled mount (Resource.registerVerbs registry res r endpoints verbs).1
      (shown ++ (Resource.registerVerbs registry res r endpoints verbs).2.toOption.getD []) := by
  induction verbs generalizing r endpoints with
  | nil => exact h
  | cons verb verbs ih =>
      rw [Resource.registerVerbs]
      cases hregister : r.register verb.method.name res.path (Resource.bind registry verb) with
      | error e =>
          rw [Router.handle_of_error hregister]
          exact h.of_subset (by simp [Except.toOption])
      | ok next =>
          rw [Router.handle_of_ok hregister]
          have hnext := h.register ⟨verb.method.name, res.path, Resource.bind registry verb⟩
            hregister res.name
          rw [List.append_assoc] at hnext
          exact ih hnext

end Tabled

namespace Application

/-- The progress of an application shows routes of its router. -/
def Progress.IsTabled (mount : String) (p : Progress σ) : Prop :=
  Tabled mount p.router p.endpoints

variable {mount : String} {p : Progress σ}

theorem Progress.IsTabled.addRoute (h : p.IsTabled mount) (route : Route σ) :
    (p.addRoute route).IsTabled mount := by
  unfold Progress.addRoute
  cases hregister : p.router.register route.method route.pattern route.service with
  | error e =>
      rw [Router.handle_of_error hregister]
      exact h
  | ok next =>
      rw [Router.handle_of_ok hregister]
      have hnext := Tabled.register h route hregister plainComponent
      rw [← (Router.mount_of_register hregister).1] at hnext
      exact hnext

theorem Progress.IsTabled.addResource (h : p.IsTabled mount) (registry : Registry)
    (res : Resource σ) : (p.addResource registry res).IsTabled mount := by
  have hstart : Tabled mount p.router (p.endpoints ++ []) := by
    rw [List.append_nil]
    exact h
  have hverbs := hstart.registerVerbs registry res res.verbs
  unfold Progress.addResource Resource.register
  cases res.verbs.isEmpty with
  | true => exact hstart
  | false =>
      generalize Resource.registerVerbs registry res p.router [] res.verbs = result at hverbs
      obtain ⟨next, result⟩ := result
      cases result with
      | error e => exact hverbs.of_subset (List.subset_append_left _ _)
      | ok endpoints => exact hverbs

theorem isTabled_progress (a : Application σ) (mount : String) :
    (a.progress mount).IsTabled mount := by
  have hfresh : Progress.IsTabled mount ⟨Router.withFilters mount a.filters, [], [], []⟩ :=
    ⟨rfl, ⟨_, Router.lists_withFilters mount a.filters⟩, by simp⟩
  apply List.foldlRecOn
  · apply List.foldlRecOn
    · exact hfresh
    · intro p hp route _
      exact hp.addRoute route
  · intro p hp res _
    exact hp.addResource a.registry res

/-- What fits a line of the table is served. -/
theorem lookup_of_endpoint {mount : String} (hmount : ∀ s ∈ segments mount, IsLiteral s)
    (a : Application σ) {endpoint : Resource.Endpoint}
    (hmem : endpoint ∈ (a.progress mount).endpoints) :
    ∃ q, Pattern.parse endpoint.path = .ok q ∧
      ∀ m path, ¬ ['/', '/'] <:+: ("/" ++ path).toList →
        q.accepts (segments ("/" ++ path)) = true →
        endpoint.method = anyMethod ∨ endpoint.method = m.name →
        ∃ c params p, (a.progress mount).router.lookup m ("/" ++ path) = .found c params p := by
  have h := a.isTabled_progress mount
  obtain ⟨regs, hr⟩ := h.lists
  obtain ⟨info, hinfo, hmethod, hpath⟩ := h.lines endpoint hmem
  obtain ⟨q, hq⟩ : ∃ q, Pattern.parse (joinPath (a.progress mount).router.mount info.pattern) =
      .ok q := by
    rw [hr.routes] at hinfo
    obtain ⟨reg, hreg, rfl⟩ := List.mem_map.mp hinfo
    exact ⟨_, hr.parse_full h.mounted hmount hreg⟩
  rw [hpath]
  refine ⟨q, hq, ?_⟩
  intro m path hplain haccepts hoffered
  rw [hmethod] at hoffered
  exact (hr.found_iff_listed h.mounted hmount m hplain).mpr ⟨info, hinfo, hoffered, q, hq, haccepts⟩

end Application

/-- Under a mount point of literal text, a router accepts and refuses what one at the root does with
the full paths, for the same reasons, and finds the same for every path in which no two slashes
follow each other. So what fits a line of the table of endpoints is served. -/
theorem mount_is_prefix {mount : String} (hmount : ∀ s ∈ segments mount, IsLiteral s) :
    (∀ (filters : FilterStack σ) (routes : List (Route σ)),
      let mounted := ((Router.withFilters mount filters).registerAll routes).1
      let flat := ((Router.withFilters "/" filters).registerAll (routes.map (Route.below mount))).1
      (∀ route : Route σ, Alongside mount (Router.Relocated mount)
        (mounted.register route.method route.pattern route.service)
        (flat.register (route.below mount).method (route.below mount).pattern
          (route.below mount).service)) ∧
      flat.routes = mounted.routes.map (RouteInfo.below mount) ∧
      ∀ m path, ¬ ['/', '/'] <:+: ("/" ++ path).toList →
        Match.Relocates mount (mounted.lookup m ("/" ++ path)) (flat.lookup m ("/" ++ path))) ∧
    ∀ (a : Application σ), ∀ endpoint ∈ (a.progress mount).endpoints,
      ∃ q, Pattern.parse endpoint.path = .ok q ∧
        ∀ m path, ¬ ['/', '/'] <:+: ("/" ++ path).toList →
          q.accepts (segments ("/" ++ path)) = true →
          endpoint.method = anyMethod ∨ endpoint.method = m.name →
          ∃ c params p, (a.progress mount).router.lookup m ("/" ++ path) = .found c params p := by
  constructor
  · intro filters routes mounted flat
    have hmounted : mounted.Lists _ := Router.lists_registerAll mount filters routes
    obtain ⟨hrelocated, -⟩ := (Router.relocated_withFilters mount filters).registerAll hmount
      (Router.lists_withFilters mount filters) routes
    refine ⟨?_, hrelocated.routes, ?_⟩
    · intro route
      exact hrelocated.register hmount hmounted route
    · intro m path hpath
      exact hrelocated.lookup hmounted m hpath
  · intro a endpoint hmem
    exact a.lookup_of_endpoint hmount hmem

/-- An application of one route. -/
def shop : Application Unit :=
  { Application.empty with routes := Router.apiRoutes }

/-- Under a mount point of two segments. -/
theorem mount_is_prefix_shop :
    (∀ s ∈ segments "/api/v1/", IsLiteral s) ∧
    Match.Relocates "/api/v1/"
      (((Router.withFilters "/api/v1/" .empty).registerAll Router.apiRoutes).1.lookup .get
        ("/" ++ "api/v1/items"))
      (((Router.withFilters "/" .empty).registerAll
        (Router.apiRoutes.map (Route.below "/api/v1/"))).1.lookup .get ("/" ++ "api/v1/items")) ∧
    (shop.progress "/api/v1/").endpoints = [⟨"GET", "/api/v1/items", "handler"⟩] ∧
    ∃ c params p, (shop.progress "/api/v1/").router.lookup .get ("/" ++ "api/v1/items") =
      .found c params p := by
  have hsegments : segments "/api/v1/" = ["api", "v1"] := by rfl
  have hliteral : ∀ s ∈ segments "/api/v1/", IsLiteral s := by
    intro s hs
    rw [hsegments] at hs
    rcases List.mem_pair.mp hs with rfl | rfl
    · exact ⟨by decide, by decide⟩
    · exact ⟨by decide, by decide⟩
  have hpath : ¬ ['/', '/'] <:+: ("/" ++ "api/v1/items").toList := by decide
  have hendpoints : (shop.progress "/api/v1/").endpoints =
      [⟨"GET", "/api/v1/items", "handler"⟩] := by rfl
  obtain ⟨hrouters, htable⟩ := mount_is_prefix (σ := Unit) hliteral
  obtain ⟨-, -, hlookup⟩ := hrouters .empty Router.apiRoutes
  obtain ⟨q, hq, hserved⟩ := htable shop ⟨"GET", "/api/v1/items", "handler"⟩
    (hendpoints ▸ List.mem_singleton_self _)
  have haccepts : q.accepts (segments ("/" ++ "api/v1/items")) = true := by
    have hread : Pattern.parse "/api/v1/items" =
        .ok ⟨[.literal "api", .literal "v1", .literal "items"]⟩ := by rfl
    rw [show Pattern.parse "/api/v1/items" = .ok q from hq] at hread
    rw [Except.ok.inj hread]
    rfl
  exact ⟨hliteral, hlookup .get _ hpath, hendpoints, hserved .get _ hpath haccepts (.inr rfl)⟩

end AppServer
