import AppServer.Proofs.Routing.Isolation
import AppServer.Proofs.Server.Registration

/-!
# Which admin responses forbid caching

The filter that forbids caching stands outside the filters of the admin surface and inside the
recovery filter of its router. So it marks whatever the filters and the service for a request answer.
What the router answers in their place is not marked: the fixed response to a panic, and the responses
to a path or a method without a route. There is no response at all to a panic with a payload that
panics in turn when the recovery filter drops it.
-/

namespace AppServer.Admin

open Http Pipeline Routing Routing.Registration Text

variable {σ : Type}

/-- A run as it leaves the filter that forbids caching. -/
def marked : Except Payload Response × World σ → Except Payload Response × World σ
  | (.ok response, w) => (.ok (response.setHeader "cache-control" cacheControl), w)
  | (.error p, w) => (.error p, w)

theorem runIn_run_cacheFilter (next : Service σ) (req : Request) (w : World σ) :
    ((cacheFilter.around next).run req).runIn w = marked ((next.run req).runIn w) := by
  show (next.run req >>= fun response =>
    pure (response.setHeader "cache-control" cacheControl)).runIn w = _
  rw [Act.runIn_bind]
  rcases (next.run req).runIn w with ⟨result, w'⟩
  cases result <;> rfl

theorem state_marked (run : Except Payload Response × World σ) :
    (marked run).2.state = run.2.state := by
  rcases run with ⟨r, w⟩
  cases r <;> rfl

def registrations (a : Admin σ) (mount : String) : List (Registration σ) :=
  Routing.registrations (a.routes (normalizeMount mount))

/-- A registration of the surface serves a request, and is handed it with the captured parameters. -/
def Reaches (a : Admin σ) (mount : String) (req : Request) (reg : Registration σ)
    (handed : Request) : Prop :=
  ∃ rest, Under (normalizeMount mount) req.uri.path rest ∧
    MostSpecific (a.registrations mount) req.method (segments rest) reg.pattern ∧
    Serves (a.registrations mount) req.method reg ∧
    handed = { req with params := reg.pattern.capture (segments rest) }

/-- The filters of the surface and the service for a request answer, none of them panics. -/
def Answers (a : Admin σ) (mount : String) (req : Request) (w : World σ) (answer : Response) :
    Prop :=
  ∃ reg handed, a.Reaches mount req reg handed ∧
    (((a.filters.chain reg.service).serve handed).runIn w).1 = .ok answer

/-- The filters of the surface or the service for a request panic. -/
def Panics (a : Admin σ) (mount : String) (req : Request) (w : World σ) (p : Payload) : Prop :=
  ∃ reg handed, a.Reaches mount req reg handed ∧
    (((a.filters.chain reg.service).serve handed).runIn w).1 = .error p

/-- What the router answers in place of the surface. -/
inductive Own (req : Request) : Response → Prop
  | recovered : Own req recoveryResponse
  | notFound : Own req (Router.notFoundResponse req.uri.path)
  | methodNotAllowed (allowed : List Method) :
      Own req (Router.notAllowedResponse req.method req.uri.path allowed)

theorem Own.unmarked {req : Request} {response : Response} (h : Own req response) :
    response.headers.all "cache-control" = [] := by
  cases h with
  | recovered => rfl
  | notFound => rfl
  | methodNotAllowed allowed =>
      rw [Router.notAllowedResponse]
      split
      · rfl
      · rfl

theorem Own.status_mem {req : Request} {response : Response} (h : Own req response) :
    response.status ∈ [404, 405, 500] := by
  cases h with
  | recovered => decide
  | notFound => exact List.mem_cons_self
  | methodNotAllowed allowed =>
      rw [(Router.notAllowedResponse_eq _ _ allowed).1]
      decide

/-- The router of a surface that has started. -/
structure Started (a : Admin σ) (mount : String) (r : Router σ) : Prop where
  holds : r.Holds (a.registrations mount)
  mount : r.mount = normalizeMount mount
  filters : r.filters = (a.filters.prepend cacheFilter).prepend recoveryFilter

theorem started_of_start {a : Admin σ} {mount : String} {r : Router σ}
    (h : (a.start mount).1 = .ok r) : a.Started mount r := by
  rw [start_eq_outcome] at h
  obtain ⟨hrouter, hall⟩ := Router.outcome_eq_ok h
  obtain ⟨hmount, hfilters⟩ := Router.mount_registerAll
    (Router.withFilters mount (a.filters.prepend cacheFilter)) (a.routes (normalizeMount mount))
  have hholds := (Router.holds_withFilters mount (a.filters.prepend cacheFilter)).registerAll
    (a.routes (normalizeMount mount))
  rw [List.nil_append, Router.accepted_eq_registrations hall] at hholds
  rw [hrouter] at hmount hfilters hholds
  exact ⟨hholds, hmount, hfilters⟩

variable {a : Admin σ} {mount : String} {r : Router σ} {req : Request}

namespace Started

theorem runIn_serve_of_reaches (h : a.Started mount r) {reg : Registration σ} {handed : Request}
    (hreaches : a.Reaches mount req reg handed) (w : World σ) :
    (r.serve req).runIn w = recovered handed
      (marked (((a.filters.chain reg.service).serve handed).runIn w)) := by
  obtain ⟨rest, hunder, hp, hserves, rfl⟩ := hreaches
  rw [← h.mount] at hunder
  rw [Router.serve, h.holds.lookup_of_mostSpecific hunder hp hserves, h.filters]
  show ((recoveryFilter.around (cacheFilter.around (a.filters.chain reg.service).entry)).run
    _).runIn w = _
  rw [runIn_run_recoveryFilter, runIn_run_cacheFilter]
  rfl

theorem serve_of_not_reaches (h : a.Started mount r)
    (hnot : ∀ reg handed, ¬ a.Reaches mount req reg handed) :
    ∃ response, r.serve req = pure response ∧ Own req response := by
  rw [Router.serve]
  cases hlookup : r.lookup req.method req.uri.path with
  | found c params p =>
      obtain ⟨rest, hunder, -, hp, ⟨reg, hserves, rfl⟩, -⟩ := h.holds.mostSpecific_of_found hlookup
      rw [h.mount] at hunder
      exact absurd ⟨rest, hunder, hp, hserves, rfl⟩ (hnot reg _)
  | notFound => exact ⟨_, rfl, .notFound⟩
  | methodNotAllowed allowed => exact ⟨_, rfl, .methodNotAllowed allowed⟩

/-- What the filters and the service for a request come to is marked, and then recovered. -/
theorem fst_serve_of_reaches (h : a.Started mount r) {reg : Registration σ} {handed : Request}
    (hreaches : a.Reaches mount req reg handed) {w : World σ} {result : Except Payload Response}
    (hrun : (((a.filters.chain reg.service).serve handed).runIn w).1 = result) :
    ((r.serve req).runIn w).1 = (recovered handed (marked (result, w))).1 := by
  rw [h.runIn_serve_of_reaches hreaches]
  rcases hinner : ((a.filters.chain reg.service).serve handed).runIn w with ⟨inner, w'⟩
  rw [hinner] at hrun
  obtain rfl : inner = result := hrun
  cases inner with
  | ok answer => rfl
  | error p => rfl

theorem serve_of_answers (h : a.Started mount r) {w : World σ} {answer : Response}
    (hanswers : a.Answers mount req w answer) :
    ((r.serve req).runIn w).1 = .ok (answer.setHeader "cache-control" cacheControl) := by
  obtain ⟨reg, handed, hreaches, hrun⟩ := hanswers
  exact h.fst_serve_of_reaches hreaches hrun

theorem serve_of_panics (h : a.Started mount r) {w : World σ} {p : Payload}
    (hpanics : a.Panics mount req w p) : ((r.serve req).runIn w).1 = aftermath p := by
  obtain ⟨reg, handed, hreaches, hrun⟩ := hpanics
  exact h.fst_serve_of_reaches hreaches hrun

/-- A request is answered by the surface, or something there panics, or nothing there is asked. -/
theorem serve_cases (h : a.Started mount r) (req : Request) (w : World σ) :
    (∃ answer, a.Answers mount req w answer) ∨ (∃ p, a.Panics mount req w p) ∨
      ∃ response, r.serve req = pure response ∧ Own req response := by
  by_cases hreached : ∃ reg handed, a.Reaches mount req reg handed
  · obtain ⟨reg, handed, hreaches⟩ := hreached
    cases hinner : (((a.filters.chain reg.service).serve handed).runIn w).1 with
    | ok answer => exact .inl ⟨answer, reg, handed, hreaches, hinner⟩
    | error p => exact .inr (.inl ⟨p, reg, handed, hreaches, hinner⟩)
  · refine .inr (.inr (h.serve_of_not_reaches fun reg handed hreaches => ?_))
    exact hreached ⟨reg, handed, hreaches⟩

/-- What is not answered by the surface is answered by its router. -/
theorem own_of_not_answers (h : a.Started mount r) {w : World σ} {response : Response}
    (hserve : ((r.serve req).runIn w).1 = .ok response)
    (hnot : ∀ answer, ¬ a.Answers mount req w answer) : Own req response := by
  rcases h.serve_cases req w with ⟨answer, hanswers⟩ | ⟨p, hpanics⟩ | ⟨own, hpure, hown⟩
  · exact absurd hanswers (hnot answer)
  · rw [h.serve_of_panics hpanics] at hserve
    obtain ⟨-, rfl⟩ := aftermath_eq_ok_iff.mp hserve
    exact .recovered
  · rw [hpure] at hserve
    obtain rfl := Except.ok.inj hserve
    exact hown

/-- A response is missing only for a panic that cannot be dropped quietly. -/
theorem exists_response_iff (h : a.Started mount r) (req : Request) (w : World σ) :
    (∃ response, ((r.serve req).runIn w).1 = .ok response) ↔
      ∀ p, a.Panics mount req w p → p.dropped = none := by
  constructor
  · rintro ⟨response, hserve⟩ p hpanics
    rw [h.serve_of_panics hpanics] at hserve
    exact (aftermath_eq_ok_iff.mp hserve).1
  · intro hquiet
    rcases h.serve_cases req w with ⟨answer, hanswers⟩ | ⟨p, hpanics⟩ | ⟨own, hpure, -⟩
    · exact ⟨_, h.serve_of_answers hanswers⟩
    · exact ⟨_, (h.serve_of_panics hpanics).trans (aftermath_of_quiet (hquiet p hpanics))⟩
    · rw [hpure]
      exact ⟨own, rfl⟩

end Started

/-- A surface that has started forbids caching of just the responses that its filters and services
give; of these it does so whatever they have set. The fixed response to a panic and the responses to
a path or a method without a route have no such field. There always is a response, unless a panic
comes with what panics when it is dropped. -/
theorem start_marks_answers (h : (a.start mount).1 = .ok r) (req : Request) (w : World σ) :
    let forbidden := "must-revalidate,no-cache,no-store"
    let run := (r.serve req).runIn w
    ((∃ response, run.1 = .ok response) ↔ ∀ p, a.Panics mount req w p → p.dropped = none) ∧
    (∀ answer, a.Answers mount req w answer →
      run.1 = .ok (answer.setHeader "cache-control" forbidden)) ∧
    ∀ response, run.1 = .ok response →
      (response.headers.all "cache-control" = [forbidden.toUTF8] ↔
        ∃ answer, a.Answers mount req w answer) ∧
      ((∀ answer, ¬ a.Answers mount req w answer) →
        Own req response ∧ response.status ∈ [404, 405, 500] ∧
          response.headers.all "cache-control" = []) := by
  intro forbidden run
  have hstarted := started_of_start h
  refine ⟨hstarted.exists_response_iff req w, fun answer => hstarted.serve_of_answers,
    fun response hserve => ⟨?_, fun hnot => ?_⟩⟩
  · constructor
    · intro hmarked
      by_contra hnone
      have hown := hstarted.own_of_not_answers hserve (not_exists.mp hnone)
      rw [hown.unmarked] at hmarked
      cases hmarked
    · rintro ⟨answer, hanswers⟩
      obtain rfl := Except.ok.inj (hserve.symm.trans (hstarted.serve_of_answers hanswers))
      exact Headers.all_insert_self _ _ _
  · have hown := hstarted.own_of_not_answers hserve hnot
    exact ⟨hown, hown.status_mem, hown.unmarked⟩

/-- A menu entry that panics. -/
def fragile : Admin Unit :=
  (empty ⟨"", "", "", 1, 1, 0⟩).addHandler ⟨"/boom", "Boom", fun _ => Act.raise (.text "boom")⟩

def fragileRouter : Router Unit :=
  ((Router.withFilters "/" (fragile.filters.prepend cacheFilter)).registerAll
    (fragile.routes "/")).1

theorem start_fragile : (fragile.start "/").1 = .ok fragileRouter := by
  rfl

def get (path : String) : Request :=
  .new .get ⟨none, none, path, none⟩ ∅ .empty .http11

theorem runIn_serve_fragile {req : Request} {service : Service Unit} {params : Params}
    {p : Pattern} (h : fragileRouter.lookup req.method req.uri.path =
      .found (.new [recoveryFilter, cacheFilter] service) params p) (w : World Unit) :
    (fragileRouter.serve req).runIn w = recovered { req with params }
      (marked ((service.run { req with params }).runIn w)) := by
  rw [Router.serve, h]
  show ((recoveryFilter.around (cacheFilter.around service)).run _).runIn w = _
  rw [runIn_run_recoveryFilter, runIn_run_cacheFilter]

/-- The response to `/ping` is given by the surface. -/
theorem start_marks_ping :
    (fragile.start "/").1 = .ok fragileRouter ∧
    ∃ answer, fragile.Answers "/" (get "/ping") ⟨(), []⟩ answer := by
  have hlookup : fragileRouter.lookup (get "/ping").method (get "/ping").uri.path =
      .found (.new [recoveryFilter, cacheFilter] ping.service) ⟨[]⟩ ⟨[.literal "ping"]⟩ := by rfl
  have hpong : ((fragileRouter.serve (get "/ping")).runIn ⟨(), []⟩).1 =
      .ok ((Response.text "pong\n").setHeader "cache-control" cacheControl) := by
    rw [runIn_serve_fragile hlookup]
    rfl
  obtain ⟨-, -, hmarks⟩ := start_marks_answers start_fragile (get "/ping") ⟨(), []⟩
  obtain ⟨hmarked, -⟩ := hmarks _ hpong
  exact ⟨start_fragile, hmarked.mp (Headers.all_insert_self _ _ _)⟩

/-- The response to the panic does not forbid caching. -/
theorem not_start_marks_boom :
    ¬ ∀ (a : Admin Unit) (mount : String) (r : Router Unit), (a.start mount).1 = .ok r →
      ∀ (req : Request) (w : World Unit) (response : Response),
        ((r.serve req).runIn w).1 = .ok response →
        response.headers.all "cache-control" =
          ["must-revalidate,no-cache,no-store".toUTF8] := by
  intro hclaim
  have hlookup : fragileRouter.lookup (get "/boom").method (get "/boom").uri.path =
      .found (.new [recoveryFilter, cacheFilter] fun _ => Act.raise (.text "boom")) ⟨[]⟩
        ⟨[.literal "boom"]⟩ := by rfl
  have hserve : ((fragileRouter.serve (get "/boom")).runIn ⟨(), []⟩).1 = .ok recoveryResponse := by
    rw [runIn_serve_fragile hlookup]
    rfl
  have hmarked := hclaim fragile "/" fragileRouter start_fragile _ _ _ hserve
  have hunmarked : recoveryResponse.headers.all "cache-control" = [] := by rfl
  rw [hunmarked] at hmarked
  cases hmarked

end AppServer.Admin
