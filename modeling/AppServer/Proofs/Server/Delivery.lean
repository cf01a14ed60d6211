import AppServer.Proofs.Routing.Isolation
import AppServer.Proofs.Server.Surfaces
import AppServer.Server.Listener

/-!
# Requests on a listener and without one

A listener hands a request to the router for its path once the body is complete, and refuses a body
that is longer than the limit of the configuration. A request that is handed to the server itself is
not held to the limit. Either way a server that was built gives a response, since both of its routers
run every chain inside a recovery filter; only what that filter drops can get past it.
-/

namespace AppServer

open Http Pipeline Routing

variable {σ : Type}

/-! ## Routers that recover -/

namespace Routing.Router

/-- A router that runs every chain inside a recovery filter. -/
structure Recovers (r : Router σ) : Prop where
  holds : ∃ regs, r.Holds regs
  filters : ∃ filters : FilterStack σ, r.filters = filters.prepend recoveryFilter

theorem recovers_registerAll (mount : String) (filters : FilterStack σ) (routes : List (Route σ)) :
    ((withFilters mount filters).registerAll routes).1.Recovers where
  holds := ⟨_, (holds_withFilters mount filters).registerAll routes⟩
  filters := ⟨filters, (mount_registerAll (withFilters mount filters) routes).2⟩

/-- What gets past such a router is the panic of dropping what another panic carried, which it has
logged. -/
theorem Recovers.escapes {r : Router σ} (h : r.Recovers) {req : Request} {w : World σ}
    {next : Payload} (hserve : ((r.serve req).runIn w).1 = .error next) :
    ∃ p, p.dropped = some next ∧
      ((r.serve req).runIn w).2.log.getLast? = some (panicEvent req p) := by
  obtain ⟨regs, hr⟩ := h.holds
  obtain ⟨filters, hfilters⟩ := h.filters
  by_cases hfound : ∃ c params p, r.lookup req.method req.uri.path = .found c params p
  · obtain ⟨c, params, p, hlookup⟩ := hfound
    obtain ⟨reg, -, -, hrun⟩ := hr.runIn_serve_of_found hfilters hlookup
    rw [hrun] at hserve ⊢
    obtain ⟨q, hdropped, hlast⟩ := exists_dropped_of_recovered hserve
    exact ⟨q, hdropped, hlast⟩
  · obtain ⟨response, hpure⟩ : ∃ response, r.serve req = pure response := by
      apply serve_of_not_found
      intro c params p hlookup
      exact hfound ⟨c, params, p, hlookup⟩
    rw [hpure] at hserve
    cases hserve

end Routing.Router

theorem Application.recovers_start {a : Application σ} {mount : String} {r : Router σ}
    (h : (a.start mount).1 = .ok r) : r.Recovers := by
  have hrecovers := Router.recovers_registerAll mount a.filters a.registrations
  rwa [Application.registerAll_of_start h] at hrecovers

theorem Admin.recovers_start {a : Admin σ} {mount : String} {r : Router σ}
    (h : (a.start mount).1 = .ok r) : r.Recovers := by
  rw [a.start_eq_outcome] at h
  obtain ⟨hrouter, -⟩ := Router.outcome_eq_ok h
  rw [← hrouter]
  exact Router.recovers_registerAll mount _ _

/-! ## Servers -/

theorem Config.maxBodySize_of_validate {c valid : Config} (h : c.validate = .ok valid) :
    valid.maxBodySize = c.maxBodySize := by
  obtain ⟨-, -, -, -, -, rfl⟩ := Config.validate_eq_ok_iff.mp h
  rfl

/-- A run as it leaves a listener, which logs the response if there is one. -/
def Arrival.logged (a : Arrival) :
    Except Payload Response × World σ → Except Payload Response × World σ
  | (.ok response, w) => (.ok response, { w with log := w.log ++ [answered a response.status] })
  | (.error p, w) => (.error p, w)

theorem Arrival.fst_logged (a : Arrival) (run : Except Payload Response × World σ) :
    (a.logged run).1 = run.1 := by
  rcases run with ⟨result, w⟩
  cases result <;> rfl

namespace Server

variable {s : Server σ} {c : Connector} {a : Arrival}

/-- A body that is not too long is handed on, and the response is logged. -/
theorem receive_of_le (hfault : a.fault = none) (hsize : a.received.size ≤ s.config.maxBodySize) :
    s.receive c a = do
      let response ← s.handle c a.complete
      Act.log (answered a response.status)
      return response := by
  have haccept : a.accept s.config.maxBodySize = .ok a.complete := by
    rw [Arrival.accept, if_neg (Nat.not_lt.mpr hsize), hfault]
  rw [receive, haccept]

/-- One that is too long is refused before there is a router to ask. -/
theorem receive_of_lt (hsize : s.config.maxBodySize < a.received.size) :
    s.receive c a = do
      Act.log (answered a Status.payloadTooLarge)
      return (bodyTooLarge s.config.maxBodySize).response := by
  have haccept : a.accept s.config.maxBodySize = .error (bodyTooLarge s.config.maxBodySize) := by
    rw [Arrival.accept, if_pos hsize]
  rw [receive, haccept]
  rfl

/-- What a listener does with a complete body, told by what is done without one. -/
theorem runIn_receive (hfault : a.fault = none) (w : World σ) :
    (s.receive c a).runIn w =
      if s.config.maxBodySize < a.received.size then
        (.ok (bodyTooLarge s.config.maxBodySize).response,
          { w with log := w.log ++ [answered a 413] })
      else a.logged ((s.handle c a.complete).runIn w) := by
  by_cases hsize : s.config.maxBodySize < a.received.size
  · rw [receive_of_lt hsize, if_pos hsize]
    rfl
  · rw [receive_of_le hfault (Nat.le_of_not_lt hsize), if_neg hsize, Act.runIn_bind]
    rcases (s.handle c a.complete).runIn w with ⟨result, w'⟩
    cases result <;> rfl

end Server

theorem Blueprint.recovers_routerFor {b : Blueprint σ} {s : Server σ} (h : b.build.1 = .ok s)
    (c : Connector) (path : String) : (s.routerFor c path).Recovers := by
  obtain ⟨-, happ, hadmin⟩ := Blueprint.build_eq_ok_iff.mp h
  cases c with
  | application => exact Application.recovers_start happ
  | admin => exact Admin.recovers_start hadmin
  | shared =>
      by_cases hcovers : s.admin.covers path = true
      · rw [Server.routerFor_of_covers hcovers]
        exact Admin.recovers_start hadmin
      · rw [Server.routerFor_of_not_covers hcovers]
        exact Application.recovers_start happ

/-- A server that was built responds to every request with a complete body, whether it came in on a
listener or not, unless a panic carries what panics again when the recovery filter drops it. The
responses are the same, and the listener only logs its own, as long as the body is no longer than the
limit. Beyond that the listener answers 413 and nothing else is run, so the responses are the same
only if the other one happens to be that. -/
theorem Blueprint.receive_handles_within_limit {b : Blueprint σ} {s : Server σ}
    (h : b.build.1 = .ok s) (c : Connector) {a : Arrival} (hfault : a.fault = none)
    (w : World σ) :
    let run := (s.handle c a.complete).runIn w
    (∀ next, run.1 = .error next → ∃ p, p.dropped = some next ∧
      run.2.log.getLast? = some (panicEvent a.complete p)) ∧
    (a.received.size ≤ b.config.maxBodySize → (s.receive c a).runIn w = a.logged run) ∧
    (b.config.maxBodySize < a.received.size → (s.receive c a).runIn w =
      (.ok (bodyTooLarge b.config.maxBodySize).response,
        { w with log := w.log ++ [answered a 413] })) ∧
    (((s.receive c a).runIn w).1 = run.1 ↔
      a.received.size ≤ b.config.maxBodySize ∨
        run.1 = .ok (bodyTooLarge b.config.maxBodySize).response) := by
  intro run
  obtain ⟨hvalid, -⟩ := Blueprint.build_eq_ok_iff.mp h
  have hreceive : (s.receive c a).runIn w = _ := Server.runIn_receive hfault w
  rw [Config.maxBodySize_of_validate hvalid] at hreceive
  have hwithin : a.received.size ≤ b.config.maxBodySize →
      (s.receive c a).runIn w = a.logged run := by
    intro hsize
    rw [hreceive, if_neg (Nat.not_lt.mpr hsize)]
  have hbeyond : b.config.maxBodySize < a.received.size → (s.receive c a).runIn w =
      (.ok (bodyTooLarge b.config.maxBodySize).response,
        { w with log := w.log ++ [answered a 413] }) := by
    intro hsize
    rw [hreceive, if_pos hsize]
  refine ⟨fun next hnext => ?_, hwithin, hbeyond, ?_⟩
  · exact (Blueprint.recovers_routerFor h c a.complete.uri.path).escapes hnext
  · by_cases hsize : a.received.size ≤ b.config.maxBodySize
    · rw [hwithin hsize, a.fst_logged]
      exact iff_of_true rfl (.inl hsize)
    · rw [hbeyond (Nat.lt_of_not_le hsize), eq_comm]
      exact (or_iff_right hsize).symm

/-- A server for bodies of up to four bytes. -/
def frugal : Blueprint Unit :=
  (Blueprint.new { layout := .shared, maxBodySize := 4 } ⟨"", "", "", 1, 1, 0⟩).route "POST" "/echo"
    (.deferred fun _ => return Response.text "ok")

def frugalServer : Server Unit :=
  ⟨frugal.config.normalized,
    ((Router.withFilters "/application" .empty).registerAll frugal.application.routes).1,
    ((Router.withFilters "/admin" (frugal.admin.filters.prepend Admin.cacheFilter)).registerAll
      (frugal.admin.routes "/admin")).1⟩

theorem build_frugal : frugal.build.1 = .ok frugalServer := by
  have hvalid : frugal.config.validate = .ok frugal.config.normalized := by rfl
  have happ : (frugal.application.start "/application").1 = .ok frugalServer.application := by rfl
  have hadmin : (frugal.admin.start "/admin").1 = .ok frugalServer.admin := by rfl
  exact Blueprint.build_eq_ok_iff.mpr ⟨hvalid, happ, hadmin⟩

/-- A request on its way in, all of whose body arrives. -/
def posting (body : String) : Arrival :=
  ⟨⟨.post, ⟨none, none, "/application/echo", none⟩, .http11, ∅, []⟩, body.toUTF8, none⟩

theorem handle_posting (body : String) (w : World Unit) :
    ((frugalServer.handle .shared (posting body).complete).runIn w).1 =
      .ok (Response.text "ok") := by
  have hrouter : frugalServer.routerFor .shared "/application/echo" = frugalServer.application := by
    rfl
  have hlookup : frugalServer.application.lookup .post "/application/echo" =
      .found (.new [recoveryFilter] (.deferred fun _ => return Response.text "ok")) ⟨[]⟩
        ⟨[.literal "echo"]⟩ := by rfl
  show (((frugalServer.routerFor .shared "/application/echo").serve _).runIn w).1 = _
  rw [hrouter, Router.serve, show frugalServer.application.lookup (posting body).complete.method
    (posting body).complete.uri.path = _ from hlookup]
  show (((recoveryFilter.around _).run _).runIn w).1 = _
  rw [runIn_run_recoveryFilter]
  rfl

/-- A body of four bytes makes no difference. -/
theorem receive_posting_four :
    frugal.build.1 = .ok frugalServer ∧ (posting "four").fault = none ∧
    ((frugalServer.receive .shared (posting "four")).runIn ⟨(), []⟩).1 =
      ((frugalServer.handle .shared (posting "four").complete).runIn ⟨(), []⟩).1 := by
  obtain ⟨-, -, -, hsame⟩ := Blueprint.receive_handles_within_limit build_frugal .shared
    (a := posting "four") rfl ⟨(), []⟩
  exact ⟨build_frugal, rfl, hsame.mpr (.inl (by decide))⟩

/-- One of five bytes does. -/
theorem not_receive_posting_fifth :
    ¬ ∀ (b : Blueprint Unit) (s : Server Unit), b.build.1 = .ok s →
      ∀ (c : Connector) (a : Arrival), a.fault = none → ∀ w,
        ((s.receive c a).runIn w).1 = ((s.handle c a.complete).runIn w).1 := by
  intro hclaim
  have hsame := hclaim frugal frugalServer build_frugal .shared (posting "fifth") rfl ⟨(), []⟩
  rw [handle_posting, Server.receive_of_lt (by decide)] at hsame
  have hstatus := congrArg Response.status (Except.ok.inj hsame)
  cases hstatus

end AppServer
