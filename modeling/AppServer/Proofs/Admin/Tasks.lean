import AppServer.Proofs.Admin.Registered
import AppServer.Proofs.Http.Target
import AppServer.Proofs.Text.Percent

/-!
# Running a task

The name of a task becomes a literal of its pattern, and a literal is compared with a path as it was
sent. So a task runs under its name as it stands. A path in which the name is percent-encoded leads
to it only if the encoding changes nothing; otherwise it is the name of another task, if of any.
-/

namespace AppServer.Admin

open Http Pipeline Routing Routing.Registration Text

variable {σ : Type}

/-- A name that is one literal of a pattern. -/
structure IsPlain (name : String) : Prop where
  ne_empty : name ≠ ""
  no_slash : '/' ∉ name.toList
  no_marker : name.toList.any Segment.isMarker = false

def taskPattern (name : String) : Pattern :=
  ⟨[.literal "tasks", .literal name]⟩

namespace IsPlain

variable {name : String}

theorem isSegment (h : IsPlain name) : IsSegment name :=
  ⟨h.ne_empty, h.no_slash⟩

theorem isRead_literal (h : IsPlain name) : Segment.IsRead (.literal name) := by
  have hmarker := List.any_eq_false.mp h.no_marker
  refine .literal h.isSegment ?_ ?_
  · intro hcolon
    obtain ⟨tail, htail⟩ := List.head?_eq_some_iff.mp hcolon
    have hmem : ':' ∈ name.toList := by
      rw [htail]
      exact List.mem_cons_self
    exact hmarker ':' hmem rfl
  · rw [List.any_eq_false]
    intro c hc hbrace
    apply hmarker c hc
    unfold Segment.isMarker
    rw [show (c == '\x7b' || c == '\x7d') = true from hbrace, Bool.true_or]

theorem isRead_taskPattern (h : IsPlain name) : (taskPattern name).IsRead where
  segments s hs := by
    simp only [taskPattern, List.mem_cons, List.not_mem_nil, or_false] at hs
    rcases hs with rfl | rfl
    · exact .literal ⟨by decide, by decide⟩ (by decide) (by decide)
    · exact h.isRead_literal
  distinct := List.nodup_nil

theorem parse_taskPath (h : IsPlain name) :
    Pattern.parse (taskPath name) = .ok (taskPattern name) := by
  have hrender : (taskPattern name).render = taskPath name := by
    show "" ++ "/tasks" ++ ("/" ++ name) = "/tasks/" ++ name
    rw [String.empty_append, ← String.append_assoc]
    rfl
  rw [← hrender]
  exact h.isRead_taskPattern.parse_render

/-- An encoding has no character that is special in a path or in a pattern. -/
theorem encode (hne : name ≠ "") : IsPlain (Percent.encode name) := by
  have hsegment := (Percent.encodes_encode name).isSegment hne
  refine ⟨hsegment.ne_empty, hsegment.no_slash, ?_⟩
  rw [List.any_eq_false]
  intro c hc hmarker
  simp only [Segment.isMarker, Bool.or_eq_true, beq_iff_eq] at hmarker
  rcases Percent.of_mem_encode hc with rfl | ⟨-, hunreserved⟩
  · simp at hmarker
  · rcases hmarker with (rfl | rfl) | rfl
    · cases hunreserved
    · cases hunreserved
    · cases hunreserved

end IsPlain

/-! ## Paths of tasks -/

theorem exists_taskPath_eq (value : String) : ∃ cs, (taskPath value).toList = '/' :: cs := by
  unfold taskPath
  rw [String.toList_append]
  exact ⟨_, rfl⟩

theorem joinPath_taskPath (mount value : String) :
    joinPath mount (taskPath value) = linkTarget mount (taskPath value) := by
  apply joinPath_eq_linkTarget
  intro hroot
  have hsegments := congrArg segments hroot
  rw [segments_taskPath] at hsegments
  cases hsegments

theorem under_taskPath (mount value : String) :
    Under mount (joinPath mount (taskPath value)) (taskPath value) := by
  obtain ⟨cs, hslash⟩ := exists_taskPath_eq value
  rw [joinPath_taskPath]
  exact under_linkTarget mount hslash

theorem isPathChar_of_mem_encode {name : String} {c : Char}
    (h : c ∈ (Percent.encode name).toList) : Uri.isPathChar c = true := by
  have hall : ∀ n < 256, Percent.isUnreserved (UInt8.ofNat n) = true →
      Uri.isPathByte (UInt8.ofNat n) = true := by decide +kernel
  rcases Percent.of_mem_encode h with rfl | ⟨hascii, hunreserved⟩
  · decide
  · rw [Uri.isPathChar, Uri.charOf_of_ascii hascii]
    exact hall c.toNat (by omega) hunreserved

/-- As a target, the path of an encoded name is read to its end. -/
theorem ofString?_taskPath_encode {mount name : String} (hmount : IsMount mount)
    (hchars : ∀ c ∈ mount.toList, Uri.isPathChar c = true)
    (hlength : (utf8 (joinPath mount (taskPath (Percent.encode name))).toList).length ≤
      Uri.maxLength) :
    Uri.ofString? (joinPath mount (taskPath (Percent.encode name))) =
      some ⟨none, none, joinPath mount (taskPath (Percent.encode name)), none⟩ := by
  have hnormal : normalizeMount mount = mount := hmount
  obtain ⟨cs, htask⟩ := exists_taskPath_eq (Percent.encode name)
  obtain ⟨ds, hslash⟩ := exists_linkTarget_eq mount htask
  rw [hnormal, ← joinPath_taskPath] at hslash
  apply Uri.ofString?_path hslash hlength
  intro c hc
  rw [joinPath_taskPath, linkTarget, taskPath, String.toList_append, String.toList_append,
    List.mem_append, List.mem_append] at hc
  have htasks : "/tasks/".toList.all Uri.isPathChar = true := by decide
  rcases hc with hc | hc | hc
  · split at hc
    · cases hc
    · exact hchars c hc
  · exact List.all_eq_true.mp htasks c hc
  · exact isPathChar_of_mem_encode hc

section Started

variable {a : Admin σ} {mount : String} {r : Router σ} (h : (a.start mount).1 = .ok r)
include h

/-- A path that ends in a name as it stands runs the task of that name and no other one. -/
theorem lookup_taskPath_iff {t : Task σ} (ht : t ∈ a.tasks) (hplain : IsPlain t.name)
    {value : String} (hvalue : IsSegment value) {c : Chain σ} {params : Params} :
    r.lookup .post (joinPath r.mount (taskPath value)) = .found c params (taskPattern t.name) ↔
      value = t.name ∧ c = r.filters.chain t.service ∧ params = ⟨[]⟩ := by
  have hunder := under_taskPath r.mount value
  have hserves : Serves (a.registrations mount) .post _ := serves_task ht hplain.parse_taskPath
  constructor
  · intro hfound
    obtain ⟨rest, hunder', hparams, hspecific, -, hchain⟩ :=
      (started_of_start h).holds.mostSpecific_of_found hfound
    obtain rfl := hunder.unique hunder'
    have haccepts := hspecific.accepts
    rw [segments_taskPath, hvalue.segments_eq] at hparams haccepts
    rw [Pattern.accepts_iff] at haccepts
    cases haccepts with
    | cons _ hmore =>
        cases hmore with
        | cons hname _ => exact ⟨(beq_iff_eq.mp hname).symm, hchain _ hserves rfl, hparams⟩
  · rintro ⟨rfl, rfl, rfl⟩
    have hwritten := Pattern.writtenAs_of_parse hplain.parse_taskPath
    rw [(registered_of_start h).1.lookup_of_writtenAs hunder hserves hwritten, segments_taskPath,
      hvalue.segments_eq]
    rfl

/-- A task whose name is plain runs under the name as it stands. The path in which the name is encoded
can be the target of a request, as far as the mount point can. It runs the task iff all bytes of the
name are unreserved, so that nothing is encoded; it runs whatever task has the encoding as its name. -/
theorem task_runs_encoded_iff_unreserved {t : Task σ} (ht : t ∈ a.tasks)
    (hplain : IsPlain t.name) :
    let encoded := Percent.encode t.name
    let path := joinPath r.mount (taskPath encoded)
    Percent.Encodes encoded t.name ∧
    r.lookup .post (joinPath r.mount (taskPath t.name)) =
      .found (r.filters.chain t.service) ⟨[]⟩ ⟨[.literal "tasks", .literal t.name]⟩ ∧
    ((∀ c ∈ r.mount.toList, Uri.isPathChar c = true) →
      (utf8 path.toList).length ≤ Uri.maxLength →
        Uri.ofString? path = some ⟨none, none, path, none⟩) ∧
    (∀ c params, r.lookup .post path =
        .found c params ⟨[.literal "tasks", .literal t.name]⟩ ↔
      (∀ b ∈ utf8 t.name.toList, Percent.isUnreserved b = true) ∧
        c = r.filters.chain t.service ∧ params = ⟨[]⟩) ∧
    ∀ other ∈ a.tasks, other.name = encoded →
      r.lookup .post path =
        .found (r.filters.chain other.service) ⟨[]⟩ ⟨[.literal "tasks", .literal encoded]⟩ := by
  intro encoded path
  have hencoded : IsPlain encoded := .encode hplain.ne_empty
  have hmount : IsMount r.mount := by
    rw [(started_of_start h).mount]
    exact isMount_normalizeMount mount
  refine ⟨Percent.encodes_encode t.name, ?_, ofString?_taskPath_encode hmount, ?_, ?_⟩
  · exact (lookup_taskPath_iff h ht hplain hplain.isSegment).mpr ⟨rfl, rfl, rfl⟩
  · intro c params
    rw [← Percent.encode_eq_self_iff]
    exact lookup_taskPath_iff h ht hplain hencoded.isSegment
  · rintro other hother hname
    rw [← hname] at hencoded ⊢
    rw [show path = joinPath r.mount (taskPath other.name) by rw [hname]]
    exact (lookup_taskPath_iff h hother hencoded hencoded.isSegment).mpr ⟨rfl, rfl, rfl⟩

end Started

def reindex : Task Unit :=
  ⟨"re-index_v1.2~", .deferred fun _ => return .text "ok"⟩

def clearCache : Task Unit :=
  ⟨"clear cache", .deferred fun _ => return .text "ok"⟩

/-- Two tasks, of which one has a name with a blank. -/
def chores : Admin Unit :=
  ((empty ⟨"", "", "", 1, 1, 0⟩).addTask reindex).addTask clearCache

def choresRouter : Router Unit :=
  ((Router.withFilters "/admin" (chores.filters.prepend cacheFilter)).registerAll
    (chores.routes "/admin")).1

theorem start_chores : (chores.start "/admin").1 = .ok choresRouter := by
  rfl

theorem mem_tasks_chores : reindex ∈ chores.tasks ∧ clearCache ∈ chores.tasks := by
  simp [chores, addTask]

/-- Marks that need no encoding do no harm. -/
theorem task_runs_reindex :
    (chores.start "/admin").1 = .ok choresRouter ∧ reindex ∈ chores.tasks ∧
    IsPlain reindex.name ∧
    choresRouter.lookup .post (joinPath "/admin" (taskPath (Percent.encode "re-index_v1.2~"))) =
      .found (choresRouter.filters.chain reindex.service) ⟨[]⟩
        ⟨[.literal "tasks", .literal "re-index_v1.2~"]⟩ := by
  have hplain : IsPlain reindex.name := ⟨by decide, by decide, by decide⟩
  have hunreserved : (utf8 reindex.name.toList).all Percent.isUnreserved = true := by decide
  obtain ⟨-, -, -, hencoded, -⟩ :=
    task_runs_encoded_iff_unreserved start_chores mem_tasks_chores.1 hplain
  exact ⟨start_chores, mem_tasks_chores.1, hplain,
    (hencoded _ _).mpr ⟨List.all_eq_true.mp hunreserved, rfl, rfl⟩⟩

/-- A blank does. -/
theorem not_task_runs_clearCache :
    ¬ ∀ (a : Admin Unit) (mount : String) (r : Router Unit), (a.start mount).1 = .ok r →
      ∀ t ∈ a.tasks, IsPlain t.name →
        ∃ params p, r.lookup .post (joinPath r.mount (taskPath (Percent.encode t.name))) =
          .found (r.filters.chain t.service) params p := by
  intro hclaim
  have hplain : IsPlain clearCache.name := ⟨by decide, by decide, by decide⟩
  have hencoded : Percent.encode clearCache.name = "clear%20cache" := by
    rw [Percent.encode_eq]
    rfl
  have hnone : choresRouter.lookup .post (joinPath choresRouter.mount (taskPath "clear%20cache")) =
      .notFound := by rfl
  obtain ⟨params, p, hfound⟩ :=
    hclaim chores "/admin" choresRouter start_chores clearCache mem_tasks_chores.2 hplain
  rw [hencoded] at hfound
  cases hnone.symm.trans hfound

end AppServer.Admin
