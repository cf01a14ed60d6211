import AppServer.Proofs.Server.Registration
import AppServer.Server.Basic

/-!
# What a build reports

A build starts the application and then the admin surface, and is a server just when both accept all
of their registrations. The admin surface is not started if the application is refused: what would
have been refused of it is not reported then.
-/

namespace AppServer.Blueprint

open Http Pipeline Routing

variable {σ : Type}

/-- The errors of a start, none if it went well. -/
def reported {α : Type} : Except (List RouteError) α → List RouteError
  | .ok _ => []
  | .error errors => errors

theorem reported_outcome (result : Router σ × List RouteError) :
    reported (Router.outcome result) = result.2 := by
  rcases result with ⟨router, errors⟩
  cases errors <;> rfl

/-- What the application would report under a configuration. -/
def applicationErrors (b : Blueprint σ) (config : Config) : List RouteError :=
  reported (b.application.start config.mountPoints.1).1

/-- What the admin surface would report under a configuration. -/
def adminErrors (b : Blueprint σ) (config : Config) : List RouteError :=
  reported (b.admin.start config.mountPoints.2).1

/-- The registrations of both surfaces are accepted, performed one after the other on fresh
routers. -/
structure Accepted (b : Blueprint σ) (config : Config) : Prop where
  application : ((Router.withFilters config.mountPoints.1 b.application.filters).registerAll
    b.application.registrations).2 = []
  admin : ((Router.withFilters config.mountPoints.2
    (b.admin.filters.prepend Admin.cacheFilter)).registerAll
      (b.admin.routes (normalizeMount config.mountPoints.2))).2 = []

variable {b : Blueprint σ} {config : Config}

theorem accepted_iff :
    b.Accepted config ↔ b.applicationErrors config = [] ∧ b.adminErrors config = [] := by
  have happ : b.applicationErrors config = [] ↔
      ((Router.withFilters config.mountPoints.1 b.application.filters).registerAll
        b.application.registrations).2 = [] := by
    rw [applicationErrors, Application.start_eq_outcome, reported_outcome,
      Router.registerBatches_errors_eq_nil_iff, Application.flatten_batches]
  rw [happ, adminErrors, Admin.start_eq_outcome, reported_outcome]
  exact ⟨fun h => ⟨h.application, h.admin⟩, fun h => ⟨h.1, h.2⟩⟩

/-- The surfaces are started in turn, the admin surface only if the application has been. -/
theorem build_cases (h : b.config.validate = .ok config) :
    ((∃ s, b.build.1 = .ok s) ∧ b.applicationErrors config = [] ∧ b.adminErrors config = []) ∨
    (b.build.1 = .error (.routes (b.applicationErrors config)) ∧
      b.applicationErrors config ≠ []) ∨
    (b.build.1 = .error (.routes (b.adminErrors config)) ∧
      b.applicationErrors config = [] ∧ b.adminErrors config ≠ []) := by
  -- a start that fails has an error to report, so an empty list means that it went well
  have happ := Router.outcome_cases ((Router.withFilters config.mountPoints.1
    b.application.filters).registerBatches b.application.batches)
  rw [← Application.start_eq_outcome] at happ
  have hadmin := Router.outcome_cases ((Router.withFilters config.mountPoints.2
    (b.admin.filters.prepend Admin.cacheFilter)).registerAll
      (b.admin.routes (normalizeMount config.mountPoints.2)))
  rw [← Admin.start_eq_outcome] at hadmin
  unfold build applicationErrors adminErrors
  rw [h]
  simp only
  rcases hstart : b.application.start config.mountPoints.1 with ⟨result, log⟩
  rcases hstart' : b.admin.start config.mountPoints.2 with ⟨result', more⟩
  rw [hstart] at happ
  rw [hstart'] at hadmin
  rcases happ with ⟨application, rfl⟩ | ⟨e, es, rfl⟩
  · rcases hadmin with ⟨admin, rfl⟩ | ⟨e, es, rfl⟩
    · exact .inl ⟨⟨_, rfl⟩, rfl, rfl⟩
    · exact .inr (.inr ⟨rfl, rfl, List.cons_ne_nil e es⟩)
  · exact .inr (.inl ⟨rfl, List.cons_ne_nil e es⟩)

/-- A build is a server just when both surfaces accept all of their registrations. Otherwise it
reports the errors of the application, those of the admin surface if the application has none; this
is everything unless both surfaces are refused. -/
theorem build_reports_first_surface (h : b.config.validate = .ok config) :
    ((∃ s, b.build.1 = .ok s) ↔ b.Accepted config) ∧
    (¬ b.Accepted config → ∃ errors, b.build.1 = .error (.routes errors) ∧ errors ≠ [] ∧
      (b.applicationErrors config ≠ [] → errors = b.applicationErrors config) ∧
      (b.applicationErrors config = [] → errors = b.adminErrors config) ∧
      (errors = b.applicationErrors config ++ b.adminErrors config ↔
        b.applicationErrors config = [] ∨ b.adminErrors config = [])) := by
  rw [accepted_iff]
  rcases build_cases h with ⟨hserver, happ, hadmin⟩ | ⟨hbuild, happ⟩ | ⟨hbuild, happ, hadmin⟩
  · exact ⟨iff_of_true hserver ⟨happ, hadmin⟩, fun hnot => absurd ⟨happ, hadmin⟩ hnot⟩
  · refine ⟨iff_of_false ?_ fun hall => happ hall.1, fun _ => ⟨_, hbuild, happ, ?_, ?_, ?_⟩⟩
    · rintro ⟨s, hserver⟩
      rw [hbuild] at hserver
      cases hserver
    · exact fun _ => rfl
    · exact fun hnil => absurd hnil happ
    · simp [happ]
  · refine ⟨iff_of_false ?_ fun hall => hadmin hall.2, fun _ => ⟨_, hbuild, hadmin, ?_, ?_, ?_⟩⟩
    · rintro ⟨s, hserver⟩
      rw [hbuild] at hserver
      cases hserver
    · exact fun hne => absurd happ hne
    · exact fun _ => rfl
    · simp [happ]

def idle : Service Unit :=
  .deferred fun _ => return .empty

def host : Host :=
  ⟨"", "", "", 1, 1, 0⟩

/-- Two tasks of one name. -/
def tasksTwice : Blueprint Unit :=
  ((new { layout := .shared } host).task "t" idle).task "t" idle

/-- The application has no errors, so those of the admin surface are reported. -/
theorem build_tasksTwice :
    tasksTwice.config.validate = .ok tasksTwice.config.normalized ∧
    tasksTwice.build.1 = .error (.routes [.duplicate "POST" "/tasks/t"]) := by
  have hvalid : tasksTwice.config.validate = .ok tasksTwice.config.normalized := by rfl
  have happ : tasksTwice.applicationErrors tasksTwice.config.normalized = [] := by rfl
  have hadmin : tasksTwice.adminErrors tasksTwice.config.normalized =
      [.duplicate "POST" "/tasks/t"] := by rfl
  have hnot : ¬ tasksTwice.Accepted tasksTwice.config.normalized := by
    rw [accepted_iff, hadmin]
    rintro ⟨-, hnil⟩
    cases hnil
  obtain ⟨errors, hbuild, -, -, hreported, -⟩ := (build_reports_first_surface hvalid).2 hnot
  refine ⟨hvalid, ?_⟩
  rw [hbuild, hreported happ, hadmin]

/-- Two tasks of one name, and a route that cannot be read. -/
def bothRefused : Blueprint Unit :=
  tasksTwice.route "GET" "no-slash" idle

/-- Nothing is said of the tasks. -/
theorem not_build_bothRefused :
    ¬ ∀ (b : Blueprint Unit) (config : Config), b.config.validate = .ok config →
      ¬ b.Accepted config → b.build.1 =
        .error (.routes (b.applicationErrors config ++ b.adminErrors config)) := by
  intro hclaim
  have hvalid : bothRefused.config.validate = .ok bothRefused.config.normalized := by rfl
  have happ : bothRefused.applicationErrors bothRefused.config.normalized =
      [.malformedPattern "no-slash" .noLeadingSlash] := by rfl
  have hadmin : bothRefused.adminErrors bothRefused.config.normalized =
      [.duplicate "POST" "/tasks/t"] := by rfl
  have hbuild : bothRefused.build.1 =
      .error (.routes [.malformedPattern "no-slash" .noLeadingSlash]) := by rfl
  have hnot : ¬ bothRefused.Accepted bothRefused.config.normalized := by
    rw [accepted_iff, happ]
    rintro ⟨hnil, -⟩
    cases hnil
  have hall := hclaim bothRefused _ hvalid hnot
  rw [hbuild, happ, hadmin] at hall
  cases hall

end AppServer.Blueprint
