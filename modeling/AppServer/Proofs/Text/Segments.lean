import AppServer.Text.Split
import Mathlib.Data.List.Basic

/-!
# Segments of a path

A segment is a text that is not empty and has no slash. The segments of a path are its pieces between
slashes as far as they are segments, and a path with one slash before each of some segments has just
these. So two paths with a slash between them have the segments of the first and then those of the
second.
-/

namespace AppServer.Text

variable {sep : Char}

/-- Cutting at one place and then everywhere else is cutting everywhere. -/
theorem splitOn_append_cons (as bs : List Char) :
    splitOn sep (as ++ sep :: bs) = splitOn sep as ++ splitOn sep bs := by
  induction as with
  | nil => exact splitOn_cons_self sep bs
  | cons a as ih =>
      rw [List.cons_append]
      by_cases ha : a = sep
      · subst ha
        rw [splitOn_cons_self, splitOn_cons_self, ih, List.cons_append]
      · rw [splitOn_cons_of_ne ha, splitOn_cons_of_ne ha]
        have hne := splitOn_ne_nil sep as
        simp only [ih, List.head_append_of_ne_nil hne, List.tail_append_of_ne_nil hne,
          List.cons_append]

theorem splitOn_eq_singleton {cs : List Char} (h : sep ∉ cs) : splitOn sep cs = [cs] := by
  induction cs with
  | nil => rfl
  | cons c cs ih =>
      rw [List.mem_cons, not_or] at h
      rw [splitOn_cons_of_ne (Ne.symm h.1)]
      simp only [ih h.2, List.head_cons, List.tail_cons]

/-- A text that can stand between two slashes of a path. -/
structure IsSegment (s : String) : Prop where
  ne_empty : s ≠ ""
  no_slash : '/' ∉ s.toList

theorem isSegment_of_mem_segments {path s : String} (h : s ∈ segments path) : IsSegment s := by
  rw [segments, List.mem_map] at h
  obtain ⟨piece, hpiece, rfl⟩ := h
  obtain ⟨hcut, hne⟩ := List.mem_filter.mp hpiece
  constructor
  · intro hempty
    have hnil : piece = [] := by
      have := congrArg String.toList hempty
      simpa using this
    rw [hnil] at hne
    cases hne
  · rw [String.toList_ofList]
    exact sep_notMem_of_mem_splitOn hcut

theorem segments_empty : segments "" = [] := rfl

/-- Segments do not reach across a slash. -/
theorem segments_append_slash (a b : String) :
    segments (a ++ "/" ++ b) = segments a ++ segments b := by
  have hchars : (a ++ "/" ++ b).toList = a.toList ++ '/' :: b.toList := by
    simp
  rw [segments, hchars, splitOn_append_cons, List.filter_append, List.map_append]
  rfl

theorem segments_slash_append (b : String) : segments ("/" ++ b) = segments b := by
  have h := segments_append_slash "" b
  rwa [String.empty_append, segments_empty, List.nil_append] at h

theorem IsSegment.segments_eq {s : String} (h : IsSegment s) : segments s = [s] := by
  have hchars : s.toList.isEmpty = false := by
    rw [List.isEmpty_eq_false_iff]
    intro hnil
    exact h.ne_empty (String.toList_inj.mp hnil)
  rw [segments, splitOn_eq_singleton h.no_slash]
  simp [hchars]

/-- A segment ends where the text ends or goes on with a slash. -/
theorem IsSegment.segments_append {s after : String} (h : IsSegment s)
    (hafter : after = "" ∨ after.toList.head? = some '/') :
    segments (s ++ after) = s :: segments after := by
  rcases hafter with rfl | hslash
  · rw [String.append_empty, h.segments_eq, segments_empty]
  · obtain ⟨cs, hcs⟩ := List.head?_eq_some_iff.mp hslash
    have hrest : after = "/" ++ String.ofList cs := by
      rw [← String.toList_inj, hcs]
      simp
    rw [hrest, ← String.append_assoc, segments_append_slash, h.segments_eq, segments_slash_append]
    rfl

/-- One slash before each of some texts. -/
def slashed (parts : List String) : String :=
  String.join (parts.map ("/" ++ ·))

theorem slashed_nil : slashed [] = "" := rfl

theorem slashed_cons (s : String) (parts : List String) :
    slashed (s :: parts) = "/" ++ s ++ slashed parts := by
  rw [slashed, List.map_cons, String.join_cons]
  rfl

theorem slashed_append (parts more : List String) :
    slashed (parts ++ more) = slashed parts ++ slashed more := by
  induction parts with
  | nil => rw [List.nil_append, slashed_nil, String.empty_append]
  | cons s parts ih =>
      rw [List.cons_append, slashed_cons, slashed_cons, ih]
      simp only [String.append_assoc]

/-- What follows a text with a slash before each part begins after the text's own segments. -/
theorem segments_append_slashed (a : String) {parts : List String}
    (h : ∀ s ∈ parts, IsSegment s) : segments (a ++ slashed parts) = segments a ++ parts := by
  induction parts generalizing a with
  | nil => rw [slashed_nil, String.append_empty, List.append_nil]
  | cons s parts ih =>
      obtain ⟨hs, hparts⟩ := List.forall_mem_cons.mp h
      have hshape : a ++ slashed (s :: parts) = a ++ "/" ++ s ++ slashed parts := by
        rw [slashed_cons]
        simp only [String.append_assoc]
      rw [hshape, ih _ hparts, segments_append_slash, hs.segments_eq, List.append_assoc]
      rfl

theorem segments_slashed {parts : List String} (h : ∀ s ∈ parts, IsSegment s) :
    segments (slashed parts) = parts := by
  have := segments_append_slashed "" h
  rwa [String.empty_append, segments_empty, List.nil_append] at this

/-- The path with some segments: one slash before each, or the root alone. -/
def rooted (parts : List String) : String :=
  if parts = [] then "/" else slashed parts

theorem rooted_of_ne_nil {parts : List String} (h : parts ≠ []) : rooted parts = slashed parts :=
  if_neg h

theorem segments_rooted {parts : List String} (h : ∀ s ∈ parts, IsSegment s) :
    segments (rooted parts) = parts := by
  unfold rooted
  split
  · rename_i hnil
    rw [hnil]
    rfl
  · exact segments_slashed h

end AppServer.Text
