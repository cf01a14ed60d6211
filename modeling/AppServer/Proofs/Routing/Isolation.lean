import AppServer.Proofs.Pipeline.Recovery
import AppServer.Proofs.Routing.Dispatch

/-!
# Which panics leave a router

A router puts a recovery filter around every chain, outside the filters of the application. So a
request is answered as the filters and the service that the router finds answer it, or with the fixed
response if these panic. The one panic that leaves the router is that of dropping what a panic of
theirs carried, since no filter is outside the recovery filter. Further recovery filters among the
filters act in the same way on what is inside them, and the log tells of every panic that reached one
of them exactly once.
-/

namespace AppServer

open AppServer.Http AppServer.Pipeline

variable {σ : Type}

namespace Routing.Router

open Registration

/-- What a router does with a request for which it found a chain. -/
theorem Holds.runIn_serve_of_found {r : Router σ} {regs : List (Registration σ)}
    {filters : FilterStack σ} (hr : r.Holds regs)
    (hfilters : r.filters = filters.prepend recoveryFilter) {req : Request} {c : Chain σ}
    {params : Params} {p : Pattern} (h : r.lookup req.method req.uri.path = .found c params p) :
    ∃ reg, Serves regs req.method reg ∧ reg.pattern = p ∧ ∀ w, (r.serve req).runIn w =
      recovered { req with params }
        (((filters.chain reg.service).serve { req with params }).runIn w) := by
  obtain ⟨rest, -, -, -, ⟨reg, hserves, hp⟩, hchain⟩ := hr.mostSpecific_of_found h
  refine ⟨reg, hserves, hp, fun w => ?_⟩
  have hc := hchain reg hserves hp
  rw [hfilters] at hc
  rw [serve, h, hc]
  exact runIn_run_recoveryFilter _ _ w

/-- Without a chain the answer does nothing. -/
theorem serve_of_not_found {r : Router σ} {req : Request}
    (h : ∀ c params p, r.lookup req.method req.uri.path ≠ .found c params p) :
    ∃ response, r.serve req = pure response := by
  rw [serve]
  split
  · rename_i c params p heq
    exact absurd heq (h c params p)
  · exact ⟨_, rfl⟩
  · exact ⟨_, rfl⟩

theorem service_read {route : Route σ} {reg : Registration σ} (h : route.read = .ok reg) :
    reg.service = route.service := by
  unfold Route.read at h
  cases hm : readMethod route.method with
  | error e => simp [hm, bind, Except.bind] at h
  | ok m =>
      cases hp : (Pattern.parse route.pattern).mapError (RouteError.malformedPattern route.pattern) with
      | error e => simp [hm, hp, bind, Except.bind] at h
      | ok p =>
          simp only [hm, hp, bind, Except.bind, pure, Except.pure, Except.ok.injEq] at h
          rw [← h]

theorem exists_route_of_mem_accepted {r : Router σ} {routes : List (Route σ)}
    {reg : Registration σ} (h : reg ∈ r.accepted routes) :
    ∃ route ∈ routes, reg.service = route.service := by
  induction routes generalizing r with
  | nil => cases h
  | cons route rest ih =>
      have hrest : ∀ {r : Router σ}, reg ∈ r.accepted rest →
          ∃ other ∈ route :: rest, reg.service = other.service := by
        intro r hmem
        obtain ⟨other, hother, hservice⟩ := ih hmem
        exact ⟨other, List.mem_cons_of_mem _ hother, hservice⟩
      unfold accepted at h
      split at h
      · rename_i first next hread _
        rcases List.mem_cons.mp h with rfl | h
        · exact ⟨route, List.mem_cons_self, service_read hread⟩
        · exact hrest h
      · exact hrest h

/-- A router whose application is discreet logs one event for every panic noted. -/
theorem counted_serve (mount : String) {layers : List (Layer (Watched σ))}
    {routes : List (Route (Watched σ))} (hlayers : ∀ f, .own f ∈ layers → f.Discreet)
    (hroutes : ∀ route ∈ routes, route.service.Discreet) (req : Request) (w : World (Watched σ)) :
    let filters : FilterStack (Watched σ) := ⟨noticeFilter :: layers.flatMap Layer.watched⟩
    Counted w ((((withFilters mount filters).registerAll routes).1.serve req).runIn w).2 := by
  intro filters
  have hr : (((withFilters mount filters).registerAll routes).1).Holds
      ((withFilters mount filters).accepted routes) := by
    simpa using (holds_withFilters mount filters).registerAll routes
  have hfilters := (mount_registerAll (withFilters mount filters) routes).2
  generalize ((withFilters mount filters).registerAll routes).1 = r at hr hfilters ⊢
  by_cases hfound : ∃ c params p, r.lookup req.method req.uri.path = .found c params p
  · obtain ⟨c, params, p, h⟩ := hfound
    obtain ⟨rest, -, -, -, ⟨reg, hserves, hp⟩, hchain⟩ := hr.mostSpecific_of_found h
    obtain ⟨route, hroute, hservice⟩ := exists_route_of_mem_accepted hserves.1
    have hdiscreet : reg.service.Discreet := by
      rw [hservice]
      exact hroutes route hroute
    -- the filter that the router itself adds is one more layer
    have hall : ∀ f, Layer.own f ∈ .recovery :: layers → f.Discreet := by
      simpa using hlayers
    have hkeeps := hdiscreet.counted_chain hall
    have hc : c = r.filters.chain reg.service := hchain reg hserves hp
    rw [serve, h, hc, hfilters]
    exact ((hkeeps.run lawful_counted _) w).1
  · obtain ⟨response, hserve⟩ : ∃ response, r.serve req = pure response :=
      serve_of_not_found fun c params p h => hfound ⟨c, params, p, h⟩
    rw [hserve]
    exact lawful_counted.refl w

/-- After any routes have been tried, a request is answered as the filters around the service that was
found answer it, or with the fixed response and one event if they panic. No panic of theirs leaves the
router but the one with which what they panicked with is dropped. Every further recovery filter does
the same with what is inside it, and through all of them the log has one event for every panic that
reached one. -/
theorem serve_isolates_panics (mount : String) (filters : FilterStack σ) (routes : List (Route σ))
    (req : Request) (w : World σ) :
    let fresh := withFilters mount filters
    let r := (fresh.registerAll routes).1
    (∀ c params p, r.lookup req.method req.uri.path = .found c params p →
      ∃ reg, Serves (fresh.accepted routes) req.method reg ∧ reg.pattern = p ∧
        let run := ((filters.chain reg.service).serve { req with params }).runIn w
        (r.serve req).runIn w = recovered { req with params } run ∧
        ((∃ response, ((r.serve req).runIn w).1 = .ok response) ↔
          ∀ payload, run.1 = .error payload → payload.dropped = none)) ∧
    ((∀ c params p, r.lookup req.method req.uri.path ≠ .found c params p) →
      ∃ response, r.serve req = pure response) ∧
    (∀ (next : Service σ) (req : Request) (w : World σ),
      ((recoveryFilter.around next).run req).runIn w = recovered req ((next.run req).runIn w)) ∧
    (∀ payload : Payload, payload.dropped = none → aftermath payload = .ok recoveryResponse) ∧
    (recoveryResponse.status = 500 ∧
      recoveryResponse.headers.entries = [("content-type", "text/plain; charset=utf-8".toUTF8)] ∧
      recoveryResponse.body = recoveryBody.toUTF8) ∧
    (∀ req p, (panicEvent req p).level = .error ∧
      (panicEvent req p).target = "melon::recovery") ∧
    ∀ (layers : List (Layer (Watched σ))) (routes : List (Route (Watched σ))),
      (∀ f, .own f ∈ layers → f.Discreet) → (∀ route ∈ routes, route.service.Discreet) →
      let watched := withFilters mount ⟨noticeFilter :: layers.flatMap Layer.watched⟩
      ∀ w, Counted w (((watched.registerAll routes).1.serve req).runIn w).2 := by
  intro fresh r
  have hr : r.Holds (fresh.accepted routes) := by
    simpa using (holds_withFilters mount filters).registerAll routes
  have hfilters : r.filters = filters.prepend recoveryFilter := (mount_registerAll fresh routes).2
  refine ⟨?_, serve_of_not_found, runIn_run_recoveryFilter, fun _ => aftermath_of_quiet,
    ⟨rfl, rfl, rfl⟩, fun _ _ => ⟨rfl, rfl⟩, ?_⟩
  · intro c params p h
    obtain ⟨reg, hserves, hp, hrun⟩ := hr.runIn_serve_of_found hfilters h
    refine ⟨reg, hserves, hp, hrun w, ?_⟩
    rw [hrun w]
    exact recovered_fst_iff _ _
  · intro layers routes hlayers hroutes watched w
    exact counted_serve mount hlayers hroutes req w

/-- A filter that panics with the response already in its hands. -/
def spoil : Pipeline.Filter (Watched Unit) :=
  .deferred "spoil" fun req next => do
    let _ ← next.run req
    Act.raise (.text "after")

/-- A service that panics before there is anything to run. -/
def broken : Service (Watched Unit) :=
  fun _ => Act.raise .other

theorem discreet_spoil : spoil.Discreet := by
  intro R hR next hnext req
  apply Act.keeps_pure hR
  exact (hnext.run hR req).bind hR fun _ _ => Act.keeps_raise hR _

theorem discreet_broken : broken.Discreet :=
  fun _ hR _ => Act.keeps_raise hR _

/-- A request to the root path. -/
def rootRequest : Request :=
  .new .get ⟨none, none, "/", none⟩ ∅ .empty .http11

/-- Two panics on the way, the first of them recovered on the inside, are two events. -/
theorem counted_spoil_broken :
    let layers := [.own spoil, .recovery]
    let watched := withFilters "/" ⟨noticeFilter :: layers.flatMap Layer.watched⟩
    let before : World (Watched Unit) := ⟨⟨(), []⟩, []⟩
    let run := ((watched.registerAll [⟨"GET", "/", broken⟩]).1.serve rootRequest).runIn before
    (∀ f, .own f ∈ layers → f.Discreet) ∧ broken.Discreet ∧ run.1 = .ok recoveryResponse ∧
      run.2.state.notes = [(rootRequest, .other), (rootRequest, .text "after")] ∧
      Counted before run.2 := by
  intro layers watched before run
  have hlayers : ∀ f, Layer.own f ∈ layers → f.Discreet := by
    intro f hf
    have hspoil : f = spoil := by simpa [layers] using hf
    rw [hspoil]
    exact discreet_spoil
  have hroutes : ∀ route ∈ [(⟨"GET", "/", broken⟩ : Route (Watched Unit))],
      route.service.Discreet := by
    intro route hroute
    rw [List.mem_singleton.mp hroute]
    exact discreet_broken
  obtain ⟨-, -, -, -, -, -, hcounted⟩ :=
    serve_isolates_panics "/" (.empty : FilterStack Unit) [] rootRequest ⟨(), []⟩
  exact ⟨hlayers, discreet_broken, rfl, rfl, hcounted layers _ hlayers hroutes before⟩

/-- A service that panics with what panics once more when it is dropped. -/
def brittle : Service Unit :=
  fun _ => Act.raise (.fragile (.text "dropped"))

/-- The second panic leaves the router. -/
theorem not_serve_isolates_panics_brittle :
    ¬ ∀ (mount : String) (filters : FilterStack Unit) (routes : List (Route Unit)) (req : Request)
      (w : World Unit), ∃ response,
        ((((withFilters mount filters).registerAll routes).1.serve req).runIn w).1 =
          .ok response := by
  intro hclaim
  obtain ⟨response, hresponse⟩ := hclaim "/" .empty [⟨"GET", "/", brittle⟩] rootRequest ⟨(), []⟩
  have hescapes : ((((withFilters "/" .empty).registerAll [⟨"GET", "/", brittle⟩]).1.serve
      rootRequest).runIn ⟨(), []⟩).1 = .error (.text "dropped") := by rfl
  rw [hescapes] at hresponse
  cases hresponse

end Routing.Router

end AppServer
