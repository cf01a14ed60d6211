import AppServer.Text.Blank
import Mathlib.Data.List.Induction

/-!
# Trimming and cutting

Blank characters at the ends of a text that is cut into pieces belong to its first and its last
piece. Where the pieces are trimmed themselves it makes no difference to trim the text before.
-/

namespace AppServer.Text

variable {p : Char → Bool} {sep c : Char}

theorem trimBy_cons (h : p c = true) (cs : List Char) : trimBy p (c :: cs) = trimBy p cs := by
  simp [trimBy, h]

theorem trimBy_append_singleton (h : p c = true) (cs : List Char) :
    trimBy p (cs ++ [c]) = trimBy p cs := by
  rw [trimBy, trimBy, List.dropWhile_append]
  split
  · rename_i hnil
    rw [List.isEmpty_iff] at hnil
    simp [hnil, h]
  · simp [h]

theorem trimBy_append_left {front : List Char} (h : ∀ c ∈ front, p c = true) (cs : List Char) :
    trimBy p (front ++ cs) = trimBy p cs := by
  rw [trimBy, trimBy, List.dropWhile_append_of_pos h]

theorem trimBy_append_right {back : List Char} (h : ∀ c ∈ back, p c = true) (cs : List Char) :
    trimBy p (cs ++ back) = trimBy p cs := by
  induction back using List.reverseRecOn with
  | nil => rw [List.append_nil]
  | append_singleton back c ih =>
      rw [← List.append_assoc, trimBy_append_singleton (h c (by simp)),
        ih fun d hd => h d (List.mem_append_left _ hd)]

/-- What does not change which characters are trimmed can be done before trimming. -/
theorem trimBy_map {f : Char → Char} (h : ∀ c, p (f c) = p c) (cs : List Char) :
    trimBy p (cs.map f) = (trimBy p cs).map f := by
  have hp : p ∘ f = p := funext h
  rw [trimBy, trimBy, List.dropWhile_map, hp, ← List.map_reverse, List.dropWhile_map, hp,
    ← List.map_reverse]

theorem before_append_left {front : List Char} (h : sep ∉ front) (cs : List Char) :
    before sep (front ++ cs) = front ++ before sep cs := by
  apply List.takeWhile_append_of_pos
  intro c hc
  rw [bne_iff_ne]
  rintro rfl
  exact h hc

theorem before_eq_self {cs : List Char} (h : sep ∉ cs) : before sep cs = cs := by
  have happend := before_append_left h []
  rwa [List.append_nil, show before sep [] = [] from rfl, List.append_nil] at happend

/-- What follows a separator is not before the first one. -/
theorem before_append_cons (cs more : List Char) : before sep (cs ++ sep :: more) = before sep cs := by
  induction cs with
  | nil => simp [before]
  | cons c cs ih =>
      by_cases hc : c = sep
      · simp [before, hc]
      · have hcons (rest : List Char) : before sep (c :: rest) = c :: before sep rest :=
          List.takeWhile_cons_of_pos (p := (· != sep)) (bne_iff_ne.mpr hc)
        rw [List.cons_append, hcons, hcons, ih]

/-- A character that is no separator goes to the last piece. -/
theorem splitOn_append_singleton (h : c ≠ sep) (cs : List Char) :
    ∃ front last, splitOn sep cs = front ++ [last] ∧
      splitOn sep (cs ++ [c]) = front ++ [last ++ [c]] := by
  induction cs with
  | nil => exact ⟨[], [], rfl, by simp [splitOn, h]⟩
  | cons x xs ih =>
      obtain ⟨front, last, hpieces, hlonger⟩ := ih
      by_cases hx : x = sep
      · subst hx
        refine ⟨[] :: front, last, ?_, ?_⟩
        · rw [splitOn_cons_self, hpieces, List.cons_append]
        · rw [List.cons_append, splitOn_cons_self, hlonger, List.cons_append]
      · rw [List.cons_append, splitOn_cons_of_ne hx, splitOn_cons_of_ne hx]
        cases front with
        | nil => exact ⟨[], x :: last, by simp [hpieces], by simp [hlonger]⟩
        | cons first rest => exact ⟨(x :: first) :: rest, last, by simp [hpieces], by simp [hlonger]⟩

theorem map_trimBy_splitOn_cons (hblank : p c = true) (hsep : c ≠ sep) (cs : List Char) :
    (splitOn sep (c :: cs)).map (trimBy p) = (splitOn sep cs).map (trimBy p) := by
  rw [splitOn_cons_of_ne hsep, List.map_cons, trimBy_cons hblank, ← List.map_cons,
    List.cons_head_tail]

theorem map_trimBy_splitOn_append_singleton (hblank : p c = true) (hsep : c ≠ sep)
    (cs : List Char) :
    (splitOn sep (cs ++ [c])).map (trimBy p) = (splitOn sep cs).map (trimBy p) := by
  obtain ⟨front, last, hpieces, hlonger⟩ := splitOn_append_singleton hsep cs
  rw [hpieces, hlonger]
  simp [trimBy_append_singleton hblank]

theorem map_trimBy_splitOn_dropWhile (hsep : p sep = false) (cs : List Char) :
    (splitOn sep (cs.dropWhile p)).map (trimBy p) = (splitOn sep cs).map (trimBy p) := by
  induction cs with
  | nil => rfl
  | cons c cs ih =>
      cases hc : p c with
      | false => rw [List.dropWhile_cons_of_neg (by simp [hc])]
      | true =>
          have hne : c ≠ sep := by
            rintro rfl
            simp [hc] at hsep
          rw [List.dropWhile_cons_of_pos hc, ih, map_trimBy_splitOn_cons hc hne]

theorem map_trimBy_splitOn_dropEnd (hsep : p sep = false) (cs : List Char) :
    (splitOn sep (cs.reverse.dropWhile p).reverse).map (trimBy p) =
      (splitOn sep cs).map (trimBy p) := by
  induction cs using List.reverseRecOn with
  | nil => rfl
  | append_singleton cs c ih =>
      rw [List.reverse_append, List.reverse_singleton, List.singleton_append]
      cases hc : p c with
      | false =>
          rw [List.dropWhile_cons_of_neg (by simp [hc])]
          simp
      | true =>
          have hne : c ≠ sep := by
            rintro rfl
            simp [hc] at hsep
          rw [List.dropWhile_cons_of_pos hc, ih, map_trimBy_splitOn_append_singleton hc hne]

/-- The trimmed pieces of a text are those of the trimmed text. -/
theorem map_trimBy_splitOn_trimBy (hsep : p sep = false) (cs : List Char) :
    (splitOn sep (trimBy p cs)).map (trimBy p) = (splitOn sep cs).map (trimBy p) := by
  rw [trimBy, map_trimBy_splitOn_dropEnd hsep, map_trimBy_splitOn_dropWhile hsep]

end AppServer.Text
