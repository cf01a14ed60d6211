import AppServer.Proofs.Routing.Written
import AppServer.Proofs.Server.Caching

/-!
# What an admin surface has registered

A surface that has started has registered its index for `GET` on the root, every entry of its menu for
every method on the pattern that its path is, and every task for `POST`. There is nothing else, so an
entry serves whatever method neither the index nor a task takes from it.
-/

namespace AppServer.Admin

open Http Pipeline Routing Routing.Registration Text

variable {σ : Type}

/-- The page that links the entries of the menu. -/
def page (a : Admin σ) (mount : String) : String :=
  indexPage mount (a.entries.map fun e => (e.path, e.name))

/-- The service that answers with the page. -/
def index (a : Admin σ) (mount : String) : Service σ :=
  .deferred fun _ => return .html (a.page mount)

theorem routes_eq (a : Admin σ) (mount : String) :
    a.routes mount = ⟨"GET", "/", a.index mount⟩ ::
      ((a.entries.map fun e => ⟨anyMethod, e.path, e.service⟩) ++
        a.tasks.map fun t => ⟨"POST", taskPath t.name, t.service⟩) := rfl

/-- `Registers a mount reg`: why the surface registers `reg`. -/
inductive Registers (a : Admin σ) (mount : String) : Registration σ → Prop
  | index : Registers a mount ⟨some .get, ⟨[]⟩, a.index mount⟩
  | entry {e : MenuEntry σ} {p : Pattern} (mem : e ∈ a.entries) (parse : Pattern.parse e.path = .ok p) :
      Registers a mount ⟨none, p, e.service⟩
  | task {t : Task σ} {p : Pattern} (mem : t ∈ a.tasks)
      (parse : Pattern.parse (taskPath t.name) = .ok p) :
      Registers a mount ⟨some .post, p, t.service⟩

theorem readMethod_get : Router.readMethod "GET" = .ok (some .get) := by
  rfl

theorem readMethod_post : Router.readMethod "POST" = .ok (some .post) := by
  rfl

theorem parse_root : Pattern.parse "/" = .ok ⟨[]⟩ := by
  rfl

theorem mem_registrations_iff {a : Admin σ} {mount : String} {reg : Registration σ} :
    reg ∈ a.registrations mount ↔ a.Registers (normalizeMount mount) reg := by
  unfold registrations
  rw [mem_registrations, routes_eq]
  simp only [Route.read_eq_ok_iff]
  constructor
  · rintro ⟨route, hroute, hmethod, hpattern, hservice⟩
    rcases reg with ⟨method, p, service⟩
    rcases List.mem_cons.mp hroute with rfl | hroute
    · obtain rfl := Except.ok.inj (readMethod_get.symm.trans hmethod)
      obtain rfl := Except.ok.inj (parse_root.symm.trans hpattern)
      obtain rfl := hservice
      exact .index
    · rcases List.mem_append.mp hroute with hroute | hroute
      · obtain ⟨e, he, rfl⟩ := List.mem_map.mp hroute
        obtain rfl : none = method := Except.ok.inj hmethod
        obtain rfl := hservice
        exact .entry he hpattern
      · obtain ⟨t, ht, rfl⟩ := List.mem_map.mp hroute
        obtain rfl := Except.ok.inj (readMethod_post.symm.trans hmethod)
        obtain rfl := hservice
        exact .task ht hpattern
  · rintro (_ | ⟨he, hparse⟩ | ⟨ht, hparse⟩)
    · exact ⟨_, List.mem_cons_self, readMethod_get, parse_root, rfl⟩
    · refine ⟨_, List.mem_cons_of_mem _ (List.mem_append_left _ (List.mem_map_of_mem he)), rfl,
        hparse, rfl⟩
    · refine ⟨_, List.mem_cons_of_mem _ (List.mem_append_right _ (List.mem_map_of_mem ht)),
        readMethod_post, hparse, rfl⟩

/-! ## Paths under the mount point -/

theorem under_linkTarget (mount : String) {path : String} {cs : List Char}
    (h : path.toList = '/' :: cs) : Under mount (linkTarget mount path) path := by
  unfold linkTarget
  by_cases hroot : mount = "/"
  · rw [if_pos hroot, String.empty_append, hroot]
    exact .root path
  · have hpath : path = "/" ++ String.ofList cs := by
      rw [← String.toList_inj, h]
      simp
    rw [if_neg hroot, hpath, ← String.append_assoc]
    exact .below hroot _

theorem exists_linkTarget_eq (mount : String) {path : String} {cs : List Char}
    (h : path.toList = '/' :: cs) :
    ∃ ds, (linkTarget (normalizeMount mount) path).toList = '/' :: ds := by
  unfold linkTarget
  split
  · rw [String.empty_append]
    exact ⟨cs, h⟩
  · obtain ⟨ds, hds⟩ := exists_normalizeMount_eq mount
    rw [String.toList_append, hds]
    exact ⟨_, rfl⟩

/-- Below the root of a mount point, full paths and addresses are the same. -/
theorem joinPath_eq_linkTarget (mount : String) {path : String} (h : path ≠ "/") :
    joinPath mount path = linkTarget mount path := by
  unfold joinPath linkTarget
  rw [if_neg h]
  split
  · rw [String.empty_append]
  · rfl

theorem segments_taskPath (name : String) :
    segments (taskPath name) = "tasks" :: segments name := by
  have hshape : taskPath name = "/tasks" ++ "/" ++ name := rfl
  rw [hshape, segments_append_slash]
  rfl

section Started

variable {a : Admin σ} {mount : String} {r : Router σ} (h : (a.start mount).1 = .ok r)
include h

/-- Nothing of a surface that has started was refused. -/
theorem registered_of_start :
    r.Lists (a.registrations mount) ∧
      ∀ route ∈ a.routes (normalizeMount mount), ∃ reg, route.read = .ok reg := by
  rw [start_eq_outcome] at h
  obtain ⟨hrouter, hall⟩ := Router.outcome_eq_ok h
  have hlists := Router.lists_registerAll mount (a.filters.prepend cacheFilter)
    (a.routes (normalizeMount mount))
  rw [Router.accepted_eq_registrations hall, hrouter] at hlists
  have hfresh := Router.holds_withFilters mount (a.filters.prepend cacheFilter)
  exact ⟨hlists, (hfresh.registerAll_errors_eq_nil_iff _).mp hall |>.1⟩

theorem parse_entry_of_start {e : MenuEntry σ} (he : e ∈ a.entries) :
    ∃ p, Pattern.parse e.path = .ok p := by
  obtain ⟨reg, hread⟩ := (registered_of_start h).2 ⟨anyMethod, e.path, e.service⟩
    (List.mem_cons_of_mem _ (List.mem_append_left _ (List.mem_map_of_mem he)))
  exact ⟨reg.pattern, (Route.read_eq_ok_iff.mp hread).2.1⟩

end Started

section Serves

variable {a : Admin σ} {mount : String} {m : Method} {p : Pattern}

theorem serves_index : Serves (a.registrations mount) .get
    ⟨some .get, ⟨[]⟩, a.index (normalizeMount mount)⟩ :=
  ⟨mem_registrations_iff.mpr .index, .inl rfl⟩

theorem serves_task {t : Task σ} (ht : t ∈ a.tasks)
    (hparse : Pattern.parse (taskPath t.name) = .ok p) :
    Serves (a.registrations mount) .post ⟨some .post, p, t.service⟩ :=
  ⟨mem_registrations_iff.mpr (.task ht hparse), .inl rfl⟩

/-- An entry serves a method unless the index or a task on its pattern takes it. -/
theorem serves_entry {e : MenuEntry σ} (he : e ∈ a.entries) (hparse : Pattern.parse e.path = .ok p)
    (hindex : m = .get → p.segments ≠ [])
    (htask : m = .post → ∀ t ∈ a.tasks, Pattern.parse (taskPath t.name) ≠ .ok p) :
    Serves (a.registrations mount) m ⟨none, p, e.service⟩ := by
  refine ⟨mem_registrations_iff.mpr (.entry he hparse), .inr ⟨rfl, ?_⟩⟩
  rintro other hother rfl hmethod
  cases mem_registrations_iff.mp hother with
  | index =>
      cases hmethod
      exact hindex rfl rfl
  | entry _ _ => cases hmethod
  | task ht htaskParse =>
      cases hmethod
      exact htask rfl _ ht htaskParse

/-- The pattern of every task begins with the same literal. -/
theorem segments_of_parse_task {name : String} (hparse : Pattern.parse (taskPath name) = .ok p) :
    ∃ more, p.segments = .literal "tasks" :: more := by
  have hwritten := Pattern.writtenAs_of_parse hparse
  rw [segments_taskPath] at hwritten
  obtain ⟨segs⟩ := p
  cases hwritten with
  | @cons s _ more _ hs _ =>
      obtain ⟨haccepts, hlooks⟩ := hs
      cases s with
      | literal text =>
          obtain rfl : text = "tasks" := by simpa [Segment.accepts] using haccepts
          exact ⟨more, rfl⟩
      | param name =>
          rcases hlooks rfl with hcolon | hbrace
          · cases hcolon
          · cases hbrace

end Serves

end AppServer.Admin
