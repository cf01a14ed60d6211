import AppServer.Proofs.Text.Segments
import Mathlib.Data.List.Forall2

/-!
# Pieces of a path

The pieces of a path between slashes include the empty ones, which its segments leave out. So the
pieces tell where a path has two slashes in a row, and a path is determined by them. As long as no
piece is empty, the first pieces are the first segments.
-/

namespace AppServer.Text

variable {sep : Char}

theorem splitOn_eq (cs : List Char) : splitOn sep cs = cs.splitOn sep := by
  induction cs with
  | nil => rfl
  | cons c cs ih =>
      have hcons := List.splitOnP_cons_eq_if_modifyHead (p := (· == sep)) c cs
      rw [List.splitOn, hcons, ← List.splitOn, ← ih]
      by_cases hc : c = sep
      · subst hc
        rw [splitOn_cons_self, if_pos (beq_self_eq_true c)]
      · rw [splitOn_cons_of_ne hc, if_neg (by simpa using hc)]
        obtain ⟨piece, rest, hpieces⟩ := List.exists_cons_of_ne_nil (splitOn_ne_nil sep cs)
        simp only [hpieces, List.head_cons, List.tail_cons, List.modifyHead_cons]

theorem splitOn_injective {as bs : List Char} (h : splitOn sep as = splitOn sep bs) : as = bs := by
  rw [splitOn_eq, splitOn_eq] at h
  have hjoin := congrArg (List.intercalate [sep]) h
  rwa [List.intercalate_splitOn, List.intercalate_splitOn] at hjoin

/-- Where a list of pieces is cut, there is a separator in the text. -/
theorem exists_of_splitOn_eq_append {cs : List Char} {before after : List (List Char)}
    (h : splitOn sep cs = before ++ after) (hbefore : before ≠ []) (hafter : after ≠ []) :
    ∃ as bs, cs = as ++ sep :: bs ∧ splitOn sep as = before ∧ splitOn sep bs = after := by
  induction cs generalizing before with
  | nil =>
      have hlen := congrArg List.length h
      have hb := List.length_pos_of_ne_nil hbefore
      have ha := List.length_pos_of_ne_nil hafter
      rw [splitOn_nil, List.length_append, List.length_singleton] at hlen
      omega
  | cons c cs ih =>
      obtain ⟨piece, before, rfl⟩ := List.exists_cons_of_ne_nil hbefore
      by_cases hc : c = sep
      · subst hc
        rw [splitOn_cons_self, List.cons_append, List.cons.injEq] at h
        obtain ⟨rfl, hrest⟩ := h
        by_cases hmore : before = []
        · subst hmore
          exact ⟨[], cs, rfl, rfl, hrest⟩
        · obtain ⟨as, bs, rfl, has, hbs⟩ := ih hrest hmore
          refine ⟨c :: as, bs, rfl, ?_, hbs⟩
          rw [splitOn_cons_self, has]
      · rw [splitOn_cons_of_ne hc, List.cons_append, List.cons.injEq] at h
        obtain ⟨rfl, htail⟩ := h
        have hne := splitOn_ne_nil sep cs
        have hsplit : splitOn sep cs = ((splitOn sep cs).head hne :: before) ++ after := by
          rw [List.cons_append, ← htail, List.cons_head_tail]
        obtain ⟨as, bs, hcs, has, hbs⟩ := ih hsplit (List.cons_ne_nil _ _)
        refine ⟨c :: as, bs, by rw [hcs, List.cons_append], ?_, hbs⟩
        rw [splitOn_cons_of_ne hc]
        simp only [has, List.head_cons, List.tail_cons]

/-- The pieces of a path between slashes, one of them more than there are slashes. -/
def pieces (path : String) : List String :=
  (splitOn '/' path.toList).map String.ofList

theorem pieces_ne_nil (path : String) : pieces path ≠ [] := by
  rw [pieces, ne_eq, List.map_eq_nil_iff]
  exact splitOn_ne_nil '/' path.toList

theorem pieces_append_slash (a b : String) : pieces (a ++ "/" ++ b) = pieces a ++ pieces b := by
  have hchars : (a ++ "/" ++ b).toList = a.toList ++ '/' :: b.toList := by
    simp
  rw [pieces, hchars, splitOn_append_cons, List.map_append]
  rfl

theorem pieces_slash_append (b : String) : pieces ("/" ++ b) = "" :: pieces b := by
  have h := pieces_append_slash "" b
  rwa [String.empty_append] at h

theorem pieces_injective {a b : String} (h : pieces a = pieces b) : a = b := by
  have hofList : Function.Injective String.ofList := by
    intro as bs hsame
    simpa using congrArg String.toList hsame
  exact String.toList_inj.mp (splitOn_injective (List.map_injective_iff.mpr hofList h))

theorem exists_of_pieces_eq_append {path : String} {before after : List String}
    (h : pieces path = before ++ after) (hbefore : before ≠ []) (hafter : after ≠ []) :
    ∃ a b, path = a ++ "/" ++ b ∧ pieces a = before ∧ pieces b = after := by
  obtain ⟨xs, ys, hsplit, rfl, rfl⟩ := List.map_eq_append_iff.mp h
  obtain ⟨as, bs, hcs, has, hbs⟩ := exists_of_splitOn_eq_append hsplit
    (mt List.map_eq_nil_iff.mpr hbefore) (mt List.map_eq_nil_iff.mpr hafter)
  refine ⟨String.ofList as, String.ofList bs, ?_, ?_, ?_⟩
  · rw [← String.toList_inj, hcs]
    simp
  · rw [pieces, String.toList_ofList, has]
  · rw [pieces, String.toList_ofList, hbs]

theorem pieces_slashed {parts : List String} (h : ∀ s ∈ parts, IsSegment s) :
    pieces (slashed parts) = "" :: parts := by
  induction parts with
  | nil => rfl
  | cons s parts ih =>
      obtain ⟨hs, hparts⟩ := List.forall_mem_cons.mp h
      have hpiece : pieces s = [s] := by
        rw [pieces, splitOn_eq_singleton hs.no_slash, List.map_singleton, String.ofList_toList]
      have hrest := ih hparts
      rw [slashed_cons, String.append_assoc, pieces_slash_append]
      cases parts with
      | nil => rw [slashed_nil, String.append_empty, hpiece]
      | cons t parts =>
          rw [slashed_cons, String.append_assoc, pieces_slash_append] at hrest
          rw [slashed_cons, String.append_assoc, ← String.append_assoc, pieces_append_slash, hpiece,
            (List.cons.inj hrest).2]
          rfl

theorem segments_eq_filter (path : String) :
    segments path = (pieces path).filter fun piece => !piece.isEmpty := by
  rw [segments, pieces, List.filter_map]
  congr 1
  apply List.filter_congr
  intro cs _
  rw [Function.comp, Bool.eq_iff_iff]
  simp

/-- As long as no piece is empty, pieces are segments. -/
theorem take_pieces {path : String} {n : Nat} (h : "" ∉ (pieces path).take n) :
    (pieces path).take n = (segments path).take n := by
  rw [segments_eq_filter]
  generalize pieces path = ps at h ⊢
  induction ps generalizing n with
  | nil => rfl
  | cons piece ps ih =>
      cases n with
      | zero => rfl
      | succ n =>
          rw [List.take_succ_cons, List.mem_cons, not_or] at h
          have hfilter : (piece :: ps).filter (fun piece => !piece.isEmpty) =
              piece :: ps.filter fun piece => !piece.isEmpty :=
            List.filter_cons_of_pos (by simpa using Ne.symm h.1)
          rw [hfilter, List.take_succ_cons, List.take_succ_cons, ih h.2]

/-! ## Paths without two slashes in a row -/

/-- A path that ends in a slash has an empty piece behind the first. -/
theorem getLast?_ne_of_pieces {path : String} (h : "" ∉ (pieces path).tail) :
    path.toList.getLast? ≠ some '/' := by
  intro hlast
  obtain ⟨cs, hcs⟩ := List.getLast?_eq_some_iff.mp hlast
  have hpath : path = String.ofList cs ++ "/" ++ "" := by
    rw [← String.toList_inj, hcs]
    simp
  obtain ⟨piece, rest, hpieces⟩ := List.exists_cons_of_ne_nil (pieces_ne_nil (String.ofList cs))
  apply h
  rw [hpath, pieces_append_slash, hpieces, List.cons_append, List.tail_cons]
  exact List.mem_append_right _ List.mem_cons_self

/-- Two slashes in a row have an empty piece between them. -/
theorem not_infix_of_pieces {path : String} (h : "" ∉ (pieces path).tail) :
    ¬ ['/', '/'] <:+: path.toList := by
  rintro ⟨as, bs, hcs⟩
  have hpath : path = String.ofList as ++ "/" ++ ("/" ++ String.ofList bs) := by
    rw [← String.toList_inj, ← hcs]
    simp
  obtain ⟨piece, rest, hpieces⟩ := List.exists_cons_of_ne_nil (pieces_ne_nil (String.ofList as))
  apply h
  rw [hpath, pieces_append_slash, pieces_slash_append, hpieces, List.cons_append, List.tail_cons]
  exact List.mem_append_right _ List.mem_cons_self

/-- Such a path has an empty piece at its ends only. -/
theorem empty_notMem_dropLast_tail {cs : List Char} (h : ¬ ['/', '/'] <:+: cs) :
    [] ∉ (splitOn '/' cs).tail.dropLast := by
  induction cs with
  | nil => simp
  | cons c cs ih =>
      rw [List.infix_cons_iff, not_or] at h
      have htail := ih h.2
      by_cases hc : c = '/'
      · subst hc
        rw [splitOn_cons_self, List.tail_cons]
        cases cs with
        | nil => simp
        | cons d ds =>
            -- the next character is no slash, so the piece that it begins is not empty
            have hd : d ≠ '/' := by
              rintro rfl
              exact h.1 ⟨ds, rfl⟩
            rw [splitOn_cons_of_ne hd] at htail ⊢
            rw [List.tail_cons] at htail
            cases hrest : (splitOn '/' ds).tail with
            | nil => simp
            | cons piece rest =>
                rw [hrest] at htail
                rw [List.dropLast_cons_of_ne_nil (List.cons_ne_nil piece rest), List.mem_cons,
                  not_or]
                exact ⟨(List.cons_ne_nil _ _).symm, htail⟩
      · rw [splitOn_cons_of_ne hc, List.tail_cons]
        exact htail

theorem empty_notMem_dropLast_pieces {path : String}
    (h : ¬ ['/', '/'] <:+: ("/" ++ path).toList) : "" ∉ (pieces path).dropLast := by
  have hchars : ("/" ++ path).toList = '/' :: path.toList := by simp
  have hpieces := empty_notMem_dropLast_tail h
  rw [hchars, splitOn_cons_self, List.tail_cons] at hpieces
  rw [pieces, ← List.map_dropLast, List.mem_map]
  rintro ⟨piece, hpiece, hempty⟩
  have hnil : piece = [] := by simpa using congrArg String.toList hempty
  exact hpieces (hnil ▸ hpiece)

/-- Without two slashes in a row, the segments begin with what the pieces begin with. -/
theorem take_pieces_eq_iff {path : String} {parts : List String}
    (h : ¬ ['/', '/'] <:+: ("/" ++ path).toList) (hparts : ∀ s ∈ parts, IsSegment s) :
    (pieces path).take parts.length = parts ↔ parts <+: segments path := by
  have hinner := empty_notMem_dropLast_pieces h
  have hempty : "" ∉ parts := by
    intro hmem
    exact (hparts "" hmem).ne_empty rfl
  rw [List.prefix_iff_eq_take, eq_comm (a := parts)]
  by_cases hlead : "" ∈ (pieces path).take parts.length
  · -- then it is the last piece, and fewer pieces than `parts` are segments
    refine iff_of_false (fun heq => hempty (heq ▸ hlead)) ?_
    intro heq
    obtain ⟨front, last, hsplit⟩ : ∃ front last, pieces path = front ++ [last] := by
      rcases List.eq_nil_or_concat' (pieces path) with hnil | hsplit
      · rw [hnil] at hlead
        simp at hlead
      · exact hsplit
    rw [hsplit, List.dropLast_concat] at hinner
    have hlong : front.length < parts.length := by
      by_contra hle
      rw [hsplit, List.take_append_of_le_length (by omega)] at hlead
      exact hinner (List.mem_of_mem_take hlead)
    have hlast : last = "" := by
      have hmem := List.mem_of_mem_take hlead
      rw [hsplit, List.mem_append, List.mem_singleton] at hmem
      exact (hmem.resolve_left hinner).symm
    have hshort : (segments path).length ≤ front.length := by
      rw [segments_eq_filter, hsplit, hlast, List.filter_append]
      simpa using List.length_filter_le (fun piece => !piece.isEmpty) front
    have hlen := congrArg List.length heq
    rw [List.length_take] at hlen
    omega
  · rw [take_pieces hlead]

/-! ## Paths that break off -/

/-- Where a text breaks off, only its last piece may be shorter than in the whole text. -/
theorem splitOn_append (as bs : List Char) :
    ∃ front last more back, splitOn sep as = front ++ [last] ∧
      splitOn sep (as ++ bs) = front ++ (last ++ more) :: back := by
  induction as with
  | nil =>
      obtain ⟨piece, back, hpieces⟩ := List.exists_cons_of_ne_nil (splitOn_ne_nil sep bs)
      exact ⟨[], [], piece, back, rfl, hpieces⟩
  | cons c as ih =>
      obtain ⟨front, last, more, back, has, hall⟩ := ih
      by_cases hc : c = sep
      · subst hc
        refine ⟨[] :: front, last, more, back, ?_, ?_⟩
        · rw [splitOn_cons_self, has, List.cons_append]
        · rw [List.cons_append, splitOn_cons_self, hall, List.cons_append]
      · rw [List.cons_append, splitOn_cons_of_ne hc, splitOn_cons_of_ne hc]
        simp only [has, hall]
        cases front with
        | nil => exact ⟨[], c :: last, more, back, rfl, rfl⟩
        | cons piece front => exact ⟨(c :: piece) :: front, last, more, back, rfl, rfl⟩

/-- The segments of a path that breaks off begin what the segments of the whole path are. -/
theorem segments_of_prefix {a b : String} (h : a.toList <+: b.toList) :
    ∃ front back, segments b = front ++ back ∧
      List.Forall₂ (fun x y : String => x.toList <+: y.toList) (segments a) front := by
  obtain ⟨tail, htail⟩ := h
  obtain ⟨front, last, more, back, ha, hb⟩ := @splitOn_append '/' a.toList tail
  rw [htail] at hb
  have hsame (parts : List String) :
      List.Forall₂ (fun x y : String => x.toList <+: y.toList) parts parts :=
    List.forall₂_same.mpr fun x _ => List.prefix_rfl
  unfold segments
  rw [ha, hb, List.filter_append, List.filter_append, List.map_append, List.map_append]
  cases last with
  | nil =>
      refine ⟨_, _, rfl, ?_⟩
      rw [show [([] : List Char)].filter (!·.isEmpty) = [] from rfl, List.map_nil, List.append_nil]
      exact hsame _
  | cons c last =>
      refine ⟨(front.filter (!·.isEmpty)).map String.ofList ++ [String.ofList (c :: last ++ more)],
        (back.filter (!·.isEmpty)).map String.ofList, ?_, ?_⟩
      · rw [List.append_assoc]
        rfl
      · have hlast : (String.ofList (c :: last)).toList <+:
            (String.ofList (c :: last ++ more)).toList := by
          rw [String.toList_ofList, String.toList_ofList]
          exact List.prefix_append _ _
        exact List.rel_append (hsame _) (.cons hlast .nil)

end AppServer.Text
