import AppServer.Admin.Basic
import AppServer.Proofs.Health.Registry
import AppServer.Proofs.Json.Objects

/-!
# The report on the health of an application

The report of a run holds what each check found, in the order of the names, and is answered as a JSON
object from which it can be read back. The status tells whether anything is unhealthy. Without any
checks there is no report, and the answer says so.
-/

namespace AppServer

open Data Http Json Pipeline Text

variable {σ : Type}

/-! ## What is said of one check -/

/-- `Tells status said`: what a report says of a check that found `status`. -/
inductive Tells : HealthStatus → CheckReport → Prop
  | healthy : Tells .healthy ⟨true, none⟩
  | degraded (reason : String) : Tells (.degraded reason) ⟨true, some reason⟩
  | unhealthy (reason : String) : Tells (.unhealthy reason) ⟨false, some reason⟩

theorem tells_iff {status : HealthStatus} {said : CheckReport} :
    Tells status said ↔ said = .ofStatus status := by
  constructor
  · intro h
    cases h <;> rfl
  · rintro rfl
    cases status with
    | healthy => exact .healthy
    | unhealthy reason => exact .unhealthy reason
    | degraded reason => exact .degraded reason

namespace CheckReport

/-- Reads an object with a flag, and with a message if there is one. -/
def read? : Tree → Option CheckReport
  | .object members =>
    match named? members with
    | some [("healthy", .bool healthy)] => some ⟨healthy, none⟩
    | some [("healthy", .bool healthy), ("message", .string raw)] =>
      (textOf? raw).map fun message => ⟨healthy, some message⟩
    | _ => none
  | _ => none

def members (r : CheckReport) : List Member :=
  ⟨"healthy", _, .bool r.healthy, reads_bool r.healthy⟩ ::
    (r.message.map (Member.ofText "message")).toList

theorem json_eq (r : CheckReport) : r.json = object (r.members.map Member.written) := by
  rcases r with ⟨healthy, _ | message⟩ <;> rfl

theorem reads_json (r : CheckReport) : Reads r.json (.object (r.members.map Member.read)) := by
  rw [json_eq]
  exact Member.reads_object r.members

theorem read?_members (r : CheckReport) :
    read? (.object (r.members.map Member.read)) = some r := by
  unfold read?
  simp only [Member.named?_map]
  rcases r with ⟨healthy, _ | message⟩
  · rfl
  · simp [members, Member.ofText]

/-- What is said of a check, under its name. -/
def named (e : String × CheckReport) : Member :=
  ⟨e.1, e.2.json, .object (e.2.members.map Member.read), e.2.reads_json⟩

end CheckReport

/-! ## The whole report -/

namespace HealthReport

/-- Reads an object with a member for every check. -/
def read? (body : ByteArray) : Option (List (String × CheckReport)) :=
  match Tree.ofBytes? body.toList with
  | some (.object members) =>
    (named? members).bind fun checks =>
      checks.mapM fun (name, tree) => (CheckReport.read? tree).map fun said => (name, said)
  | _ => none

theorem json_eq (r : HealthReport) :
    r.json = object ((r.checks.map CheckReport.named).map Member.written) := by
  rw [json, List.map_map]
  rfl

/-- The text of a report is read as what it says of the checks. -/
theorem read?_json (r : HealthReport) :
    read? (String.ofList r.json).toUTF8 = some r.checks := by
  have hbytes : (String.ofList r.json).toUTF8.toList = utf8 r.json := by
    rw [toList_toUTF8, String.toList_ofList]
  have htree := (Member.reads_object (r.checks.map CheckReport.named)).ofBytes?
  rw [← json_eq] at htree
  unfold read?
  rw [hbytes, htree]
  simp only [Member.named?_map, Option.bind_some]
  generalize r.checks = checks
  induction checks with
  | nil => rfl
  | cons check checks ih =>
      rw [List.map_cons, List.map_cons, List.mapM_cons, ih]
      simp [CheckReport.named, CheckReport.read?_members]

theorem foldl_insert (results : List (String × HealthStatus)) :
    results.foldl (fun r (name, status) => r.insert name status) empty = ⟨sortEntries results⟩ := by
  induction results using List.reverseRecOn with
  | nil => rfl
  | append_singleton results e ih =>
      rw [List.foldl_append, ih, sortEntries_append_singleton]
      rfl

section Sorted

variable {results : List (String × HealthStatus)} (hnames : (results.map Prod.fst).Nodup)
include hnames

theorem isHealthy_sortEntries :
    (⟨sortEntries results⟩ : HealthReport).isHealthy = true ↔
      ∀ name reason, (name, .unhealthy reason) ∉ results := by
  simp only [isHealthy, Bool.not_eq_true', List.any_eq_false, mem_sortEntries_iff hnames]
  constructor
  · intro h name reason hmem
    exact h _ hmem rfl
  · rintro h ⟨name, status⟩ hmem hunhealthy
    cases status with
    | healthy => cases hunhealthy
    | unhealthy reason => exact h name reason hmem
    | degraded reason => cases hunhealthy

/-- Every finding is told under its name, and nothing else. -/
theorem mem_checks_sortEntries {name : String} {said : CheckReport} :
    (name, said) ∈ (⟨sortEntries results⟩ : HealthReport).checks ↔
      ∃ status, (name, status) ∈ results ∧ Tells status said := by
  simp only [checks, List.mem_map, mem_sortEntries_iff hnames, tells_iff]
  constructor
  · rintro ⟨⟨name, status⟩, hmem, heq⟩
    cases heq
    exact ⟨status, hmem, rfl⟩
  · rintro ⟨status, hmem, rfl⟩
    exact ⟨(name, status), hmem, rfl⟩

end Sorted

theorem ascending_checks_sortEntries (results : List (String × HealthStatus)) :
    Ascending (⟨sortEntries results⟩ : HealthReport).checks :=
  (ascending_sortEntries results).map _ fun _ _ h => h

end HealthReport

/-! ## The answer -/

namespace Admin

theorem healthResponse_of_isEmpty {checks : HealthRegistry σ} (h : checks.isEmpty = true) :
    healthResponse checks = return (Response.text noHealthChecks).withStatus 501 :=
  if_pos h

/-- The answer to what a run has found. -/
def healthAnswer (results : List (String × HealthStatus)) : Response :=
  let report : HealthReport := ⟨sortEntries results⟩
  (Response.ofTyped applicationJson (String.ofList report.json).toUTF8).withStatus
    (if report.isHealthy then 200 else 500)

theorem status_healthAnswer (results : List (String × HealthStatus)) :
    (healthAnswer results).status =
      if (⟨sortEntries results⟩ : HealthReport).isHealthy then 200 else 500 := rfl

section Answer

variable {results : List (String × HealthStatus)} (hnames : (results.map Prod.fst).Nodup)
include hnames

theorem status_healthAnswer_eq_200_iff :
    (healthAnswer results).status = 200 ↔ ∀ name reason, (name, .unhealthy reason) ∉ results := by
  rw [← HealthReport.isHealthy_sortEntries hnames, status_healthAnswer]
  split <;> simp [*]

theorem status_healthAnswer_eq_500_iff :
    (healthAnswer results).status = 500 ↔ ∃ name reason, (name, .unhealthy reason) ∈ results := by
  have hhealthy := status_healthAnswer_eq_200_iff hnames
  have hstatus := status_healthAnswer results
  constructor
  · intro h
    by_contra hnone
    simp only [not_exists] at hnone
    rw [hhealthy.mpr hnone] at h
    cases h
  · rintro ⟨name, reason, hmem⟩
    split at hstatus
    · exact absurd hmem (hhealthy.mp hstatus name reason)
    · exact hstatus

/-- The body of the answer is read as what was found, in the order of the names. -/
theorem read?_healthAnswer :
    ∃ reports, HealthReport.read? (healthAnswer results).body = some reports ∧
      Ascending reports ∧ (∀ name, name ∈ reports.map Prod.fst ↔ name ∈ results.map Prod.fst) ∧
      ∀ name said, (name, said) ∈ reports ↔
        ∃ status, (name, status) ∈ results ∧ Tells status said := by
  have htold (name : String) (said : CheckReport) :
      (name, said) ∈ (⟨sortEntries results⟩ : HealthReport).checks ↔
        ∃ status, (name, status) ∈ results ∧ Tells status said :=
    HealthReport.mem_checks_sortEntries hnames
  refine ⟨_, HealthReport.read?_json _, HealthReport.ascending_checks_sortEntries results, ?_, htold⟩
  intro name
  simp only [List.mem_map, Prod.exists, exists_and_right, exists_eq_right, htold]
  constructor
  · rintro ⟨said, status, hmem, -⟩
    exact ⟨status, hmem⟩
  · rintro ⟨status, hmem⟩
    exact ⟨_, status, hmem, tells_iff.mpr rfl⟩

end Answer

theorem runIn_healthResponse {regs : List (String × Act σ HealthStatus)} (hne : regs ≠ [])
    {results : List (String × HealthStatus)} {w w' : World σ}
    (h : HealthRegistry.Runs regs (regs.map Prod.fst).eraseDups w results w') :
    (healthResponse (.ofList regs)).runIn w = (.ok (healthAnswer results), w') := by
  have hchecks : ¬ (HealthRegistry.ofList regs).isEmpty = true :=
    mt HealthRegistry.isEmpty_ofList.mp hne
  rw [← HealthRegistry.names_ofList] at h
  have hrun : (HealthRegistry.ofList regs).run.runIn w = (.ok ⟨sortEntries results⟩, w') := by
    rw [← HealthReport.foldl_insert]
    exact HealthRegistry.Runs.runFrom_eq (fun c hc => HealthRegistry.last_of_mem hc) h .empty
  rw [healthResponse, if_neg hchecks, Act.runIn_bind, hrun]
  rfl

end Admin

end AppServer
