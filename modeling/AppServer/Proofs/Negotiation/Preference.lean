import AppServer.Negotiation.Accept
import AppServer.Proofs.Sorting.Runs
import Mathlib.Data.List.Induction

/-!
# The order of preference

A client lists ranges; one outranks another by its quality, then by its specificity, then by its
place in the header. Among qualities that are numbers this is a strict total order of the listed
ranges, and sorting them arranges them in it. Where a quality is not a number sorting still finds
what insertion would, but of many ranges it may find another order, or give up.
-/

namespace AppServer.Negotiation

namespace Quality

/-- The same number. -/
def Same (a b : Quality) : Prop :=
  a.compare? b = some .eq

/-- A number between 0 and 1. -/
def InUnit (q : Quality) : Prop :=
  (zero.less q = true ∨ zero.Same q) ∧ (q.less one = true ∨ q.Same one)

instance (a b : Quality) : Decidable (a.Same b) :=
  inferInstanceAs (Decidable (_ = _))

instance (q : Quality) : Decidable q.InUnit :=
  inferInstanceAs (Decidable (_ ∧ _))

variable {a b : Quality}

/-- Only numbers compare. -/
theorem isNaN_of_less (h : a.less b = true) : a.isNaN = false ∧ b.isNaN = false := by
  simp only [less, Bool.and_eq_true, Bool.not_eq_true'] at h
  exact h.1

theorem Same.isNaN_eq_false (h : a.Same b) : a.isNaN = false ∧ b.isNaN = false := by
  simp only [Same, compare?] at h
  split at h
  · cases h
  · rename_i hnan
    rw [Bool.or_eq_true, not_or] at hnan
    exact ⟨Bool.eq_false_iff.mpr hnan.1, Bool.eq_false_iff.mpr hnan.2⟩

theorem InUnit.isNaN_eq_false (h : a.InUnit) : a.isNaN = false := by
  rcases h.1 with h | h
  · exact (isNaN_of_less h).2
  · exact h.isNaN_eq_false.2

theorem less_iff (ha : a.isNaN = false) (hb : b.isNaN = false) :
    a.less b = true ↔ a.rank < b.rank := by
  simp [less, ha, hb]

theorem compare?_eq (ha : a.isNaN = false) (hb : b.isNaN = false) :
    a.compare? b = some (compare a.rank b.rank) := by
  simp [compare?, ha, hb]

theorem same_iff (ha : a.isNaN = false) (hb : b.isNaN = false) :
    a.Same b ↔ a.rank = b.rank := by
  rw [Same, compare?_eq ha hb, Option.some.injEq, Int.compare_eq_eq]

end Quality

/-- A range with its place among the ranges of a header. -/
abbrev Listed := MediaRange × Nat

/-- Preferred by the client: of a higher quality, or of the same and more specific, or listed first
among ranges that are alike in both. -/
def Outranks (a b : Listed) : Prop :=
  b.1.quality.less a.1.quality = true ∨
    (b.1.quality.Same a.1.quality ∧
      (b.1.specificity < a.1.specificity ∨
        (b.1.specificity = a.1.specificity ∧ a.2 < b.2)))

/-- The quality of the range is a number. -/
def Listed.Numeric (a : Listed) : Prop :=
  a.1.quality.isNaN = false

namespace Outranks

variable {a b c : Listed}

theorem iff_lex (ha : a.Numeric) (hb : b.Numeric) :
    Outranks a b ↔ b.1.quality.rank < a.1.quality.rank ∨
      (b.1.quality.rank = a.1.quality.rank ∧
        (b.1.specificity < a.1.specificity ∨
          (b.1.specificity = a.1.specificity ∧ a.2 < b.2))) := by
  rw [Outranks, Quality.less_iff hb ha, Quality.same_iff hb ha]

/-- Only ranges of a quality that is a number are preferred to others, and others to them. -/
theorem numeric (h : Outranks a b) : a.Numeric ∧ b.Numeric := by
  rcases h with hless | ⟨hsame, -⟩
  · exact (Quality.isNaN_of_less hless).symm
  · exact hsame.isNaN_eq_false.symm

theorem asymm (ha : a.Numeric) (hb : b.Numeric) (h : Outranks a b) : ¬ Outranks b a := by
  rw [iff_lex ha hb] at h
  rw [iff_lex hb ha]
  omega

theorem trans (ha : a.Numeric) (hb : b.Numeric) (hc : c.Numeric) (hab : Outranks a b)
    (hbc : Outranks b c) : Outranks a c := by
  rw [iff_lex ha hb] at hab
  rw [iff_lex hb hc] at hbc
  rw [iff_lex ha hc]
  omega

/-- Ranges in different places are never tied. -/
theorem total (ha : a.Numeric) (hb : b.Numeric) (hne : a.2 ≠ b.2) (h : ¬ Outranks a b) :
    Outranks b a := by
  rw [iff_lex ha hb] at h
  rw [iff_lex hb ha]
  omega

end Outranks

/-! ## Sorting -/

/-- Qualities that are numbers. -/
def AllNumeric (elements : List MediaRange) : Prop :=
  ∀ r ∈ elements, r.quality.isNaN = false

instance (elements : List MediaRange) : Decidable (AllNumeric elements) :=
  inferInstanceAs (Decidable (∀ r ∈ elements, _))

namespace MediaRange

open AppServer.Pipeline AppServer.Sorting

/-- The ranges in order, as insertion finds it. -/
def arrange (rs : List MediaRange) : List MediaRange :=
  insertionSort ahead rs

theorem ahead_iff_lex {a b : MediaRange} (ha : a.quality.isNaN = false)
    (hb : b.quality.isNaN = false) :
    a.ahead b = true ↔ b.quality.rank < a.quality.rank ∨
      (b.quality.rank = a.quality.rank ∧ b.specificity < a.specificity) := by
  rw [ahead, beq_iff_eq, order, Quality.compare?_eq hb ha, Option.getD_some,
    Ordering.then_eq_lt, Int.compare_eq_lt, Int.compare_eq_eq, Nat.compare_eq_lt]

/-- Quality and specificity as one number, less for what is preferred. -/
def sortKey (r : MediaRange) : Int :=
  -(3 * r.quality.rank + r.specificity)

theorem specificity_le (r : MediaRange) : r.specificity ≤ 2 := by
  unfold specificity
  split
  · omega
  · split
    · omega
    · omega

/-- Ranges of a quality that is a number are compared by one number each. -/
theorem keyed_ahead : Keyed ahead (fun r => r.quality.isNaN = false) sortKey := by
  intro a b ha hb
  have hsa := a.specificity_le
  have hsb := b.specificity_le
  rw [ahead_iff_lex ha hb, sortKey, sortKey]
  omega

/-- Sorting finds the order that insertion finds unless a quality is not a number and the ranges are
many. -/
theorem sort_eq_arrange {rs : List MediaRange} (h : AllNumeric rs ∨ rs.length ≤ 20) :
    sort rs = .ok (arrange rs) := by
  have hsort : Sorting.sort ahead rs = some (arrange rs) := by
    rcases h with hnum | hshort
    · exact sort_eq_insertionSort keyed_ahead hnum
    · exact sort_eq_insertionSort_of_length_le hshort
  rw [sort, hsort]

/-- If sorting comes to an end it loses and adds nothing, whatever the qualities are. -/
theorem sort_perm {rs sorted : List MediaRange} (h : sort rs = .ok sorted) : sorted.Perm rs := by
  unfold sort at h
  split at h
  · rename_i s hs
    cases h
    exact Sorting.sort_perm hs
  · cases h

theorem sort_eq_error {rs : List MediaRange} {p : Payload} (h : sort rs = .error p) :
    p = .text unorderedMessage ∧ ¬ AllNumeric rs ∧ 20 < rs.length := by
  have hnot : ¬ (AllNumeric rs ∨ rs.length ≤ 20) := by
    intro hor
    rw [sort_eq_arrange hor] at h
    cases h
  rw [not_or, Nat.not_le] at hnot
  refine ⟨?_, hnot⟩
  unfold sort at h
  split at h
  · cases h
  · cases h
    rfl

/-- A range comes before one listed earlier just when it outranks it. -/
theorem ahead_iff_outranks {r : MediaRange} {n : Nat} {x : Listed} (hr : Listed.Numeric (r, n))
    (hx : x.Numeric) (hlater : x.2 < n) : r.ahead x.1 = true ↔ Outranks (r, n) x := by
  rw [Outranks.iff_lex hr hx, ahead_iff_lex hr hx]
  have : ¬ n < x.2 := by omega
  simp [this]

/-- One more range finds its place behind all that outrank it. -/
theorem exists_insertBack (r : MediaRange) (n : Nat) (hr : Listed.Numeric (r, n))
    (done : List Listed) (hdone : ∀ x ∈ done, x.Numeric ∧ x.2 < n)
    (hord : done.Pairwise fun a b => Outranks b a) :
    ∃ next : List Listed, next.map Prod.fst = insertBack ahead r (done.map Prod.fst) ∧
      next.Perm ((r, n) :: done) ∧ next.Pairwise fun a b => Outranks b a := by
  induction done with
  | nil => exact ⟨[(r, n)], rfl, .refl _, List.pairwise_singleton _ _⟩
  | cons x xs ih =>
      obtain ⟨hx, hlater⟩ := hdone x List.mem_cons_self
      obtain ⟨hfirst, hrest⟩ := List.pairwise_cons.mp hord
      have hiff := ahead_iff_outranks hr hx hlater
      rw [List.map_cons, insertBack]
      -- the list is in reverse: whatever is passed is outranked
      split
      · rename_i hlt
        obtain ⟨next, hmap, hperm, hpair⟩ :=
          ih (fun y hy => hdone y (List.mem_cons_of_mem _ hy)) hrest
        refine ⟨x :: next, by rw [List.map_cons, hmap], ?_, List.pairwise_cons.mpr ⟨?_, hpair⟩⟩
        · exact (hperm.cons x).trans (.swap _ _ _)
        · intro y hy
          rcases List.mem_cons.mp (hperm.mem_iff.mp hy) with rfl | hy
          · exact hiff.mp hlt
          · exact hfirst y hy
      · rename_i hnlt
        have hbehind : Outranks x (r, n) :=
          Outranks.total hr hx (show n ≠ x.2 by omega) (mt hiff.mpr hnlt)
        refine ⟨(r, n) :: x :: xs, rfl, .refl _, List.pairwise_cons.mpr ⟨?_, hord⟩⟩
        intro y hy
        rcases List.mem_cons.mp hy with rfl | hy
        · exact hbehind
        · have hy' := (hdone y (List.mem_cons_of_mem _ hy)).1
          exact (hfirst y hy).trans hy' hx hr hbehind

theorem arrange_append_singleton (rs : List MediaRange) (r : MediaRange) :
    arrange (rs ++ [r]) = (insertBack ahead r (arrange rs).reverse).reverse :=
  insertAll_concat [] rs r

theorem arrange_perm (rs : List MediaRange) : (arrange rs).Perm rs :=
  insertionSort_perm rs

/-- Of the same quality as `a`, and as specific. -/
def ties (a x : MediaRange) : Bool :=
  decide (x.quality.Same a.quality ∧ x.specificity = a.specificity)

theorem ties_iff {a x : MediaRange} :
    a.ties x = true ↔ x.quality.Same a.quality ∧ x.specificity = a.specificity :=
  decide_eq_true_iff

/-- Of ranges that tie with the same one, neither precedes the other. -/
theorem not_ahead_of_ties {a r x : MediaRange} (hr : a.ties r = true) (hx : a.ties x = true) :
    ¬ r.ahead x = true := by
  obtain ⟨hrq, hrs⟩ := ties_iff.mp hr
  obtain ⟨hxq, hxs⟩ := ties_iff.mp hx
  obtain ⟨hrnum, hanum⟩ := hrq.isNaN_eq_false
  obtain ⟨hxnum, -⟩ := hxq.isNaN_eq_false
  rw [Quality.same_iff hrnum hanum] at hrq
  rw [Quality.same_iff hxnum hanum] at hxq
  rw [ahead_iff_lex hrnum hxnum]
  omega

theorem filter_insertBack (a r : MediaRange) (xs : List MediaRange) :
    (insertBack ahead r xs).filter a.ties = (r :: xs).filter a.ties := by
  induction xs with
  | nil => rfl
  | cons x xs ih =>
      rw [insertBack]
      split
      · rename_i hlt
        by_cases hr : a.ties r = true
        · have hx : ¬ a.ties x = true := fun hx => not_ahead_of_ties hr hx hlt
          rw [List.filter_cons_of_neg hx, ih, List.filter_cons_of_pos hr,
            List.filter_cons_of_pos hr, List.filter_cons_of_neg hx]
        · rw [List.filter_cons, ih, List.filter_cons_of_neg hr, List.filter_cons_of_neg hr,
            List.filter_cons]
      · rfl

/-- Ranges that tie keep their order. -/
theorem filter_arrange (a : MediaRange) (rs : List MediaRange) :
    (arrange rs).filter a.ties = rs.filter a.ties := by
  induction rs using List.reverseRecOn with
  | nil => rfl
  | append_singleton rs r ih =>
      rw [arrange_append_singleton, List.filter_reverse, filter_insertBack, List.filter_cons,
        List.filter_reverse, ih, List.filter_append]
      by_cases hr : a.ties r = true <;> simp [hr]

theorem idxOf_filter_lt_iff {alike : MediaRange → Bool} {a b : MediaRange} (ha : alike a = true)
    (hb : alike b = true) (l : List MediaRange) :
    (l.filter alike).idxOf a < (l.filter alike).idxOf b ↔ l.idxOf a < l.idxOf b := by
  induction l with
  | nil => simp
  | cons x xs ih =>
      by_cases hx : alike x = true
      · rw [List.filter_cons_of_pos hx, List.idxOf_cons, List.idxOf_cons, List.idxOf_cons,
          List.idxOf_cons]
        cases x == a <;> cases x == b <;> simp [ih]
      · have hxa : (x == a) = false := beq_eq_false_iff_ne.mpr fun h => hx (h ▸ ha)
        have hxb : (x == b) = false := beq_eq_false_iff_ne.mpr fun h => hx (h ▸ hb)
        rw [List.filter_cons_of_neg hx, ih, List.idxOf_cons, List.idxOf_cons, hxa, hxb]
        simp

/-- Whichever of two tied ranges comes first in the header comes first when they are arranged. -/
theorem idxOf_arrange_lt_iff {a b : MediaRange} (h : a.ties b = true) (rs : List MediaRange) :
    (arrange rs).idxOf a < (arrange rs).idxOf b ↔ rs.idxOf a < rs.idxOf b := by
  have hitself : a.ties a = true := by
    obtain ⟨-, hnum⟩ := (ties_iff.mp h).1.isNaN_eq_false
    exact ties_iff.mpr ⟨(Quality.same_iff hnum hnum).mpr rfl, rfl⟩
  rw [← idxOf_filter_lt_iff hitself h (arrange rs), filter_arrange, idxOf_filter_lt_iff hitself h]

end MediaRange

/-- The listed ranges in order of preference. -/
structure Arranged (elements : List MediaRange) (s : List Listed) : Prop where
  perm : s.Perm elements.zipIdx
  ordered : s.Pairwise Outranks

/-- Insertion arranges the ranges of a header. -/
theorem exists_arranged (elements : List MediaRange) (hnum : AllNumeric elements) :
    ∃ s, s.map Prod.fst = MediaRange.arrange elements ∧ Arranged elements s := by
  induction elements using List.reverseRecOn with
  | nil => exact ⟨[], rfl, .refl _, .nil⟩
  | append_singleton rs r ih =>
      obtain ⟨s, hmap, hperm, hord⟩ := ih fun x hx => hnum x (List.mem_append_left _ hx)
      -- `r` is listed behind all that are arranged, so ties leave it where it is
      have hdone : ∀ x ∈ s.reverse, x.Numeric ∧ x.2 < rs.length := by
        intro x hx
        have hmem := hperm.mem_iff.mp (List.mem_reverse.mp hx)
        obtain ⟨-, hlt, heq⟩ := List.mem_zipIdx hmem
        refine ⟨hnum x.1 (List.mem_append_left _ ?_), by omega⟩
        rw [heq]
        exact List.getElem_mem _
      obtain ⟨next, hnext, hperm', hord'⟩ := MediaRange.exists_insertBack r rs.length
        (hnum r (by simp)) s.reverse hdone (List.pairwise_reverse.mpr hord)
      refine ⟨next.reverse, ?_, ?_, List.pairwise_reverse.mpr hord'⟩
      · rw [List.map_reverse, hnext, List.map_reverse, hmap, MediaRange.arrange_append_singleton]
      · rw [List.zipIdx_append]
        have hback := (hperm'.trans ((s.reverse_perm.trans hperm).cons _))
        simpa using (next.reverse_perm.trans hback).trans (List.perm_append_singleton _ _).symm

end AppServer.Negotiation
