import AppServer.Proofs.Text.Segments
import AppServer.Routing.Mount
import Mathlib.Data.List.Basic

/-!
# Paths under a mount point

Every path lies under the root. Under another mount point lie the mount point itself and what
continues it with a slash. A mount point is determined by its segments; those of a path under it
begin with them.
-/

namespace AppServer.Routing

open AppServer.Text

/-- A path lies under a mount point, with what follows the mount point. -/
inductive Under : String → String → String → Prop
  | root (path : String) : Under "/" path path
  | whole {mount : String} (h : mount ≠ "/") : Under mount mount ""
  | below {mount : String} (h : mount ≠ "/") (more : String) :
      Under mount (mount ++ "/" ++ more) ("/" ++ more)

theorem under_of_stripMount? {mount path rest : String}
    (h : stripMount? mount path = some rest) : Under mount path rest := by
  unfold stripMount? at h
  by_cases hroot : mount = "/"
  · rw [if_pos hroot, Option.some.injEq] at h
    subst hroot h
    exact .root path
  · rw [if_neg hroot] at h
    split at h
    · rename_i hstrip
      rw [List.isPrefixOf?_eq_some_iff_append_eq, List.append_nil, String.toList_inj] at hstrip
      obtain rfl : "" = rest := Option.some.inj h
      subst hstrip
      exact .whole hroot
    · rename_i more hstrip
      rw [List.isPrefixOf?_eq_some_iff_append_eq] at hstrip
      obtain rfl : String.ofList ('/' :: more) = rest := Option.some.inj h
      have hpath : path = mount ++ "/" ++ String.ofList more := by
        rw [← String.toList_inj, ← hstrip]
        simp
      have hrest : String.ofList ('/' :: more) = "/" ++ String.ofList more := by
        rw [← String.toList_inj]
        simp
      rw [hpath, hrest]
      exact .below hroot _
    · cases h

theorem stripMount?_of_under {mount path rest : String} (h : Under mount path rest) :
    stripMount? mount path = some rest := by
  cases h with
  | root => exact if_pos rfl
  | whole hroot =>
      have hstrip : mount.toList.isPrefixOf? mount.toList = some [] := by
        rw [List.isPrefixOf?_eq_some_iff_append_eq, List.append_nil]
      rw [stripMount?, if_neg hroot, hstrip]
  | below hroot more =>
      have hstrip : mount.toList.isPrefixOf? (mount ++ "/" ++ more).toList =
          some ('/' :: more.toList) := by
        rw [List.isPrefixOf?_eq_some_iff_append_eq]
        simp
      have hrest : String.ofList ('/' :: more.toList) = "/" ++ more := by
        rw [← String.toList_inj]
        simp
      rw [stripMount?, if_neg hroot, hstrip, ← hrest]
      rfl

theorem stripMount?_eq_some_iff {mount path rest : String} :
    stripMount? mount path = some rest ↔ Under mount path rest :=
  ⟨under_of_stripMount?, stripMount?_of_under⟩

/-- What follows the mount point is determined. -/
theorem Under.unique {mount path rest rest' : String} (h : Under mount path rest)
    (h' : Under mount path rest') : rest = rest' := by
  rw [← stripMount?_eq_some_iff] at h h'
  rw [h] at h'
  exact Option.some.inj h'

/-- A path under a mount point has its segments and then those of the rest. -/
theorem Under.segments_eq {mount path rest : String} (h : Under mount path rest) :
    segments path = segments mount ++ segments rest := by
  cases h with
  | root => rfl
  | whole => rw [segments_empty, List.append_nil]
  | below _ more => rw [segments_append_slash, segments_slash_append]

/-- Of paths under one mount point, if one begins the other then so does what follows. -/
theorem Under.prefix_rest {mount a b resta restb : String} (ha : Under mount a resta)
    (hb : Under mount b restb) (h : a.toList <+: b.toList) : resta.toList <+: restb.toList := by
  cases ha with
  | root =>
      cases hb with
      | root => exact h
      | whole hroot => exact absurd rfl hroot
      | below hroot => exact absurd rfl hroot
  | whole => exact List.nil_prefix
  | below hroot more =>
      cases hb with
      | root => exact absurd rfl hroot
      | whole =>
          have hlength := h.length_le
          simp only [String.toList_append, List.length_append, String.length_toList] at hlength
          have hslash : "/".length = 1 := rfl
          omega
      | below _ more' =>
          simp only [String.append_assoc, String.toList_append] at h ⊢
          exact List.prefix_append_right_inj _ |>.mp h

/-! ## Mount points by their segments -/

theorem normalizeMount_eq (path : String) :
    normalizeMount path = if segments path = [] then "/" else slashed (segments path) := by
  unfold normalizeMount
  split
  · rename_i hnil
    rw [if_pos hnil]
  · rename_i hne
    rw [if_neg hne]
    rfl

theorem exists_normalizeMount_eq (path : String) : ∃ cs, (normalizeMount path).toList = '/' :: cs := by
  rw [normalizeMount_eq]
  split
  · exact ⟨[], rfl⟩
  · rename_i hne
    obtain ⟨s, parts, hparts⟩ := List.exists_cons_of_ne_nil hne
    refine ⟨(s ++ slashed parts).toList, ?_⟩
    rw [hparts, slashed_cons, String.append_assoc, String.toList_append]
    rfl

theorem segments_normalizeMount (path : String) :
    segments (normalizeMount path) = segments path := by
  rw [normalizeMount_eq]
  split
  · rename_i hnil
    rw [hnil]
    rfl
  · exact segments_slashed fun s hs => isSegment_of_mem_segments hs

/-- A path is a mount point if it is in normal form. -/
def IsMount (mount : String) : Prop :=
  normalizeMount mount = mount

theorem isMount_normalizeMount (path : String) : IsMount (normalizeMount path) := by
  unfold IsMount
  rw [normalizeMount_eq (normalizeMount path), segments_normalizeMount, ← normalizeMount_eq]

namespace IsMount

variable {m n : String}

theorem eq_slashed (h : IsMount m) (hne : m ≠ "/") : m = slashed (segments m) := by
  have hm : normalizeMount m = m := h
  rw [normalizeMount_eq] at hm
  split at hm
  · exact absurd hm.symm hne
  · exact hm.symm

theorem eq_of_segments (hm : IsMount m) (hn : IsMount n) (h : segments m = segments n) :
    m = n := by
  have hsame : normalizeMount m = normalizeMount n := by
    rw [normalizeMount_eq, normalizeMount_eq, h]
  rw [IsMount] at hm hn
  rw [← hm, ← hn, hsame]

theorem eq_root_iff (h : IsMount m) : m = "/" ↔ segments m = [] := by
  constructor
  · rintro rfl
    rfl
  · intro hnil
    have hm : normalizeMount m = m := h
    rw [normalizeMount_eq, if_pos hnil] at hm
    exact hm.symm

/-- Mount points joined have the segments of both. -/
theorem segments_joinPath (hm : IsMount m) (hn : IsMount n) :
    segments (joinPath m n) = segments m ++ segments n := by
  unfold joinPath
  split
  · rename_i hroot
    rw [hm.eq_root_iff.mp hroot, List.nil_append]
  · split
    · rename_i hroot
      rw [hn.eq_root_iff.mp hroot, List.append_nil]
    · rename_i hne
      have hslashed := hn.eq_slashed hne
      rw [hslashed, segments_append_slashed m fun s hs => isSegment_of_mem_segments hs,
        ← hslashed]

theorem joinPath (hm : IsMount m) (hn : IsMount n) : IsMount (joinPath m n) := by
  have hsegments := hm.segments_joinPath hn
  unfold Routing.joinPath at hsegments ⊢
  split
  · exact hn
  · rename_i hmne
    rw [if_neg hmne] at hsegments
    split
    · exact hm
    · rename_i hnne
      rw [if_neg hnne] at hsegments
      have hparts : segments (m ++ n) ≠ [] := by
        rw [hsegments]
        intro hnil
        exact hmne (hm.eq_root_iff.mpr (List.append_eq_nil_iff.mp hnil).1)
      unfold IsMount
      rw [normalizeMount_eq, if_neg hparts, hsegments, slashed_append, ← hm.eq_slashed hmne,
        ← hn.eq_slashed hnne]

end IsMount

/-! ## Mount points above and below each other -/

/-- The inner mount point lies strictly below the outer one. -/
def Encloses (outer inner : String) : Prop :=
  ∃ parts, parts ≠ [] ∧ segments inner = segments outer ++ parts

namespace Encloses

variable {outer inner : String}

theorem inner_ne_root (h : Encloses outer inner) : inner ≠ "/" := by
  obtain ⟨parts, hne, hsegments⟩ := h
  rintro rfl
  exact hne (List.append_eq_nil_iff.mp hsegments.symm).2

/-- A mount point is the one above it and what leads there. -/
theorem eq_append (h : Encloses outer inner) (ho : IsMount outer) (hi : IsMount inner)
    (hne : outer ≠ "/") : ∃ more, inner = outer ++ "/" ++ more := by
  have hinner := hi.eq_slashed h.inner_ne_root
  obtain ⟨parts, hparts, hsegments⟩ := h
  obtain ⟨s, more, rfl⟩ := List.exists_cons_of_ne_nil hparts
  refine ⟨s ++ slashed more, ?_⟩
  rw [hsegments, slashed_append, ← ho.eq_slashed hne, slashed_cons] at hinner
  simpa only [String.append_assoc] using hinner

/-- A mount point is longer than one above it. -/
theorem length_lt (h : Encloses outer inner) (ho : IsMount outer) (hi : IsMount inner) :
    outer.length < inner.length := by
  by_cases hroot : outer = "/"
  · -- below the root, a slash is followed by at least one segment
    have hinner := hi.eq_slashed h.inner_ne_root
    obtain ⟨parts, hparts, hsegments⟩ := h
    obtain ⟨s, more, rfl⟩ := List.exists_cons_of_ne_nil hparts
    subst hroot
    have hs : s ∈ segments inner := by
      rw [hsegments]
      exact List.mem_append_right _ List.mem_cons_self
    have hlen : s.length ≠ 0 := by
      rw [Ne, String.length_eq_zero_iff]
      exact (isSegment_of_mem_segments hs).ne_empty
    have hshape : inner = "/" ++ s ++ slashed more := by
      rw [hsegments] at hinner
      exact hinner.trans (slashed_cons s more)
    rw [hshape, String.length_append, String.length_append]
    show 1 < 1 + s.length + (slashed more).length
    omega
  · obtain ⟨more, rfl⟩ := h.eq_append ho hi hroot
    rw [String.length_append, String.length_append]
    show outer.length < outer.length + 1 + more.length
    omega

/-- What lies under a mount point lies under every one above it. -/
theorem under (h : Encloses outer inner) (ho : IsMount outer) (hi : IsMount inner)
    {path rest : String} (hunder : Under inner path rest) : ∃ rest', Under outer path rest' := by
  by_cases hroot : outer = "/"
  · subst hroot
    exact ⟨path, .root path⟩
  · obtain ⟨more, hmore⟩ := h.eq_append ho hi hroot
    cases hunder with
    | root => exact absurd rfl h.inner_ne_root
    | whole =>
        rw [hmore]
        exact ⟨_, .below hroot more⟩
    | below _ tail =>
        have hpath : inner ++ "/" ++ tail = outer ++ "/" ++ (more ++ "/" ++ tail) := by
          rw [hmore]
          simp only [String.append_assoc]
        rw [hpath]
        exact ⟨_, .below hroot _⟩

end Encloses

/-- Of two mount points over one path, one is above the other unless they have the same segments. -/
theorem Under.encloses_or {a b path rest rest' : String} (h : Under a path rest)
    (h' : Under b path rest') :
    segments a = segments b ∨ Encloses a b ∨ Encloses b a := by
  have hsplit : segments a ++ segments rest = segments b ++ segments rest' := by
    rw [← h.segments_eq, ← h'.segments_eq]
  rcases List.append_eq_append_iff.mp hsplit with ⟨parts, hb, -⟩ | ⟨parts, ha, -⟩
  · cases parts with
    | nil => exact .inl (by rw [hb, List.append_nil])
    | cons s more => exact .inr (.inl ⟨s :: more, List.cons_ne_nil _ _, hb⟩)
  · cases parts with
    | nil => exact .inl (by rw [ha, List.append_nil])
    | cons s more => exact .inr (.inr ⟨s :: more, List.cons_ne_nil _ _, ha⟩)

/-! ## Paths made of segments -/

/-- Below a mount point lies a path with any segments. -/
theorem under_joinPath_rooted (mount : String) {parts : List String}
    (h : ∀ s ∈ parts, IsSegment s) :
    ∃ rest, Under mount (joinPath mount (rooted parts)) rest ∧ segments rest = parts := by
  unfold joinPath
  by_cases hroot : mount = "/"
  · subst hroot
    exact ⟨rooted parts, .root _, segments_rooted h⟩
  · rw [if_neg hroot]
    cases parts with
    | nil => exact ⟨"", .whole hroot, rfl⟩
    | cons s more =>
        have hne : rooted (s :: more) ≠ "/" := by
          intro heq
          have hsegments := segments_rooted h
          rw [heq] at hsegments
          cases hsegments
        have hslash : rooted (s :: more) = "/" ++ (s ++ slashed more) := by
          rw [rooted_of_ne_nil (List.cons_ne_nil s more), slashed_cons, String.append_assoc]
        refine ⟨rooted (s :: more), ?_, segments_rooted h⟩
        rw [if_neg hne, hslash, ← String.append_assoc]
        exact .below hroot _

end AppServer.Routing
