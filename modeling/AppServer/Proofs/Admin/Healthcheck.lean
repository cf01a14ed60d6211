import AppServer.Proofs.Admin.Registered
import AppServer.Proofs.Health.Report

/-!
# The health check of an admin surface

Whatever its menu and its tasks are, a surface that has started answers every method on `/healthcheck`
with the report of a run. The run calls, in the order in which names were first registered, the check
that was registered last under each, and the answer tells of each what it found.
-/

namespace AppServer.Admin

open Data Http Pipeline Routing Routing.Registration Text

variable {σ : Type}

def healthcheckPattern : Pattern :=
  ⟨[.literal "healthcheck"]⟩

theorem parse_healthcheck : Pattern.parse "/healthcheck" = .ok healthcheckPattern := by
  rfl

/-- No task takes a method from the health check. -/
theorem serves_healthcheck (a : Admin σ) (mount : String) (m : Method) :
    Serves (a.registrations mount) m
      ⟨none, healthcheckPattern, (healthcheck a.health).service⟩ := by
  have hmem : healthcheck a.health ∈ a.entries := by simp [entries]
  apply serves_entry hmem parse_healthcheck
  · intro _
    exact List.cons_ne_nil _ _
  · intro _ t _ hparse
    obtain ⟨more, hmore⟩ := segments_of_parse_task hparse
    have htext := Segment.literal.inj (List.cons.inj hmore).1
    exact absurd htext (by decide)

theorem under_healthcheck (mount : String) :
    Under mount (joinPath mount "/healthcheck") "/healthcheck" := by
  rw [joinPath_eq_linkTarget mount (by decide)]
  exact under_linkTarget mount rfl

theorem writtenAs_healthcheck : healthcheckPattern.WrittenAs (segments "/healthcheck") :=
  Pattern.writtenAs_of_parse parse_healthcheck

section Started

variable {a : Admin σ} {mount : String} {r : Router σ} (h : (a.start mount).1 = .ok r)
include h

/-- Every method on the path of the health check is dispatched to it. -/
theorem lookup_healthcheck (m : Method) :
    r.lookup m (joinPath r.mount "/healthcheck") =
      .found (r.filters.chain (healthcheck a.health).service) ⟨[]⟩ healthcheckPattern := by
  rw [(registered_of_start h).1.lookup_of_writtenAs (under_healthcheck r.mount)
    (serves_healthcheck a mount m) writtenAs_healthcheck]
  rfl

theorem reaches_healthcheck {req : Request}
    (hpath : req.uri.path = joinPath r.mount "/healthcheck") :
    a.Reaches mount req ⟨none, healthcheckPattern, (healthcheck a.health).service⟩
      { req with params := ⟨[]⟩ } := by
  have hunder := under_healthcheck r.mount
  rw [← hpath, (started_of_start h).mount] at hunder
  have hserves := serves_healthcheck a mount req.method
  refine ⟨_, hunder, ?_, hserves, rfl⟩
  exact (registered_of_start h).1.mostSpecific_of_writtenAs hserves.1 (.inr rfl)
    writtenAs_healthcheck

/-- Without filters of its own, the surface adds to the answer that it must not be kept. -/
theorem runIn_serve_healthcheck (hfilters : a.filters = .empty) {req : Request}
    (hpath : req.uri.path = joinPath r.mount "/healthcheck") {response : Response} {w w' : World σ}
    (hrun : (healthResponse a.health).runIn w = (.ok response, w')) :
    (r.serve req).runIn w = (.ok (response.setHeader "cache-control" cacheControl), w') := by
  rw [(started_of_start h).runIn_serve_of_reaches (reaches_healthcheck h hpath), hfilters]
  show recovered _ (marked ((healthResponse a.health).runIn w)) = _
  rw [hrun]
  rfl

end Started

/-- What a surface with some checks makes of the answer that they give. -/
theorem healthcheck_of_runIn {checks : HealthRegistry σ} {response : Response} {w w' : World σ}
    (hrun : (healthResponse checks).runIn w = (.ok response, w')) {a : Admin σ} {mount : String}
    {r : Router σ} (hchecks : a.health = checks) (h : (a.start mount).1 = .ok r) :
    (∀ m, r.lookup m (joinPath r.mount "/healthcheck") =
      .found (r.filters.chain (.deferred fun _ => healthResponse checks)) ⟨[]⟩
        healthcheckPattern) ∧
    ∀ req : Request, a.filters = .empty → req.uri.path = joinPath r.mount "/healthcheck" →
      (r.serve req).runIn w = (.ok (response.setHeader "cache-control" cacheControl), w') := by
  subst hchecks
  exact ⟨lookup_healthcheck h, fun req hfilters hpath =>
    runIn_serve_healthcheck h hfilters hpath hrun⟩

/-- Registrations of checks that do not panic, whatever their names are. Each name is listed where it
first occurs, and a run calls, once and in this order, the check registered last under each. What an
admin surface with these checks answers on `/healthcheck` is a 501 if there are none. Otherwise it is a
500 if anything is unhealthy, else a 200, with an object that tells of each name, in the order of the
names, what its check has found. -/
theorem healthcheck_answers_last_registered (regs : List (String × Act σ HealthStatus))
    (hcalm : ∀ reg ∈ regs, ∀ w, ∃ status w', reg.2.runIn w = (.ok status, w')) (w : World σ) :
    let registry := HealthRegistry.ofList regs
    let names := (regs.map Prod.fst).eraseDups
    ∃ results response w', registry.names = names ∧
      HealthRegistry.Runs regs names w results w' ∧
      (healthResponse registry).runIn w = (.ok response, w') ∧
      (∀ (a : Admin σ) mount r, a.health = registry → (a.start mount).1 = .ok r →
        (∀ m, r.lookup m (joinPath r.mount "/healthcheck") =
          .found (r.filters.chain (.deferred fun _ => healthResponse registry)) ⟨[]⟩
            healthcheckPattern) ∧
        ∀ req : Request, a.filters = .empty → req.uri.path = joinPath r.mount "/healthcheck" →
          (r.serve req).runIn w = (.ok (response.setHeader "cache-control" cacheControl), w')) ∧
      (response.status = 501 ↔ regs = []) ∧
      (regs = [] → response = (Response.text "No health checks registered.").withStatus 501) ∧
      (response.status = 500 ↔ ∃ name reason, (name, .unhealthy reason) ∈ results) ∧
      (response.status = 200 ↔
        regs ≠ [] ∧ ∀ name reason, (name, .unhealthy reason) ∉ results) ∧
      (regs ≠ [] → ∃ reports, HealthReport.read? response.body = some reports ∧
        Ascending reports ∧ (∀ name, name ∈ reports.map Prod.fst ↔ name ∈ regs.map Prod.fst) ∧
        ∀ name said, (name, said) ∈ reports ↔
          ∃ status, (name, status) ∈ results ∧ Tells status said) := by
  intro registry names
  have hnames : registry.names = names := HealthRegistry.names_ofList regs
  obtain ⟨results, w', hruns⟩ := HealthRegistry.exists_runs hcalm
    (fun name hname => List.mem_eraseDups.mp hname) w
  have hkeys : (results.map Prod.fst).Nodup := by
    rw [hruns.names_eq, ← HealthRegistry.names_ofList]
    exact HealthRegistry.nodup_names_ofList regs
  by_cases hnone : regs = []
  · subst hnone
    cases hruns
    have hrun : (healthResponse registry).runIn w =
        (.ok ((Response.text noHealthChecks).withStatus 501), w) := by
      rw [healthResponse_of_isEmpty (HealthRegistry.isEmpty_ofList.mpr rfl)]
      rfl
    have hstatus : ((Response.text noHealthChecks).withStatus 501).status = 501 := rfl
    refine ⟨[], _, w, hnames, .nil, hrun, fun a mount r => healthcheck_of_runIn hrun,
      iff_of_true hstatus rfl, fun _ => rfl, ?_, ?_, fun hne => absurd rfl hne⟩
    · simp [hstatus]
    · simp [hstatus]
  · have hrun := runIn_healthResponse hnone hruns
    have hother : (healthAnswer results).status ≠ 501 := by
      rw [status_healthAnswer]
      split <;> decide
    refine ⟨results, _, w', hnames, hruns, hrun, fun a mount r => healthcheck_of_runIn hrun,
      iff_of_false hother hnone, fun h => absurd h hnone, status_healthAnswer_eq_500_iff hkeys,
      ?_, fun _ => ?_⟩
    · rw [status_healthAnswer_eq_200_iff hkeys]
      exact (and_iff_right hnone).symm
    · obtain ⟨reports, hread, hascending, hreported, htold⟩ := read?_healthAnswer hkeys
      refine ⟨reports, hread, hascending, fun name => ?_, htold⟩
      rw [hreported, hruns.names_eq, List.mem_eraseDups]

/-- Checks of which the one registered first is replaced later. -/
def replacedCheck : List (String × Act Unit HealthStatus) :=
  [("db", return .unhealthy "down"), ("cache", return .degraded "slow"), ("db", return .healthy)]

/-- Only what was registered last counts. -/
theorem healthcheck_replacedCheck :
    (∀ reg ∈ replacedCheck, ∀ w, ∃ status w', reg.2.runIn w = (.ok status, w')) ∧
    ∃ response, ((healthResponse (.ofList replacedCheck)).runIn ⟨(), []⟩).1 = .ok response ∧
      response.status = 200 := by
  have hcalm : ∀ reg ∈ replacedCheck, ∀ w, ∃ status w', reg.2.runIn w = (.ok status, w') := by
    intro reg hreg w
    simp only [replacedCheck, List.mem_cons, List.not_mem_nil, or_false] at hreg
    rcases hreg with rfl | rfl | rfl
    · exact ⟨_, _, rfl⟩
    · exact ⟨_, _, rfl⟩
    · exact ⟨_, _, rfl⟩
  obtain ⟨results, response, w', -, hruns, hrun, -, -, -, -, hok, -⟩ :=
    healthcheck_answers_last_registered replacedCheck hcalm ⟨(), []⟩
  have hcalled : HealthRegistry.Runs replacedCheck (replacedCheck.map Prod.fst).eraseDups ⟨(), []⟩
      [("db", .healthy), ("cache", .degraded "slow")]
      ⟨(), [.checkNotHealthy "cache" "slow"]⟩ := by
    have hnames : (replacedCheck.map Prod.fst).eraseDups = ["db", "cache"] := by rfl
    rw [hnames]
    exact .call rfl rfl (.call rfl rfl .nil)
  obtain ⟨rfl, -⟩ := hruns.unique hcalled
  refine ⟨hcalm, response, congrArg Prod.fst hrun, hok.mpr ⟨List.cons_ne_nil _ _, ?_⟩⟩
  intro name reason hmem
  simp at hmem

end AppServer.Admin
