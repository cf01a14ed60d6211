import AppServer.Proofs.Sorting.Permutation

/-!
# Stable sorting

Where elements are compared by a key, one list alone is sorted and keeps the order of elements that
have the same key. Insertion finds it, and so does merging what was sorted before: from the front,
from the back, and from both ends at once, which then meet.
-/

namespace AppServer.Sorting

variable {α : Type} {less : α → α → Bool} {P : α → Prop} {key : α → Int}

/-- The elements with `P` are compared by their keys. -/
def Keyed (less : α → α → Bool) (P : α → Prop) (key : α → Int) : Prop :=
  ∀ a b, P a → P b → (less a b = true ↔ key a < key b)

/-- In the order of the keys, and elements of the same key in the order of `l`. -/
structure Stable (key : α → Int) (l s : List α) : Prop where
  ordered : s.Pairwise fun a b => key a ≤ key b
  alike : ∀ k, s.filter (key · == k) = l.filter (key · == k)

theorem Keyed.flip (h : Keyed less P key) : Keyed (fun a b => less b a) P (fun a => -key a) := by
  intro a b ha hb
  exact (h b a hb ha).trans Int.neg_lt_neg_iff.symm

theorem Keyed.not_less (h : Keyed less P key) {a b : α} (ha : P a) (hb : P b) :
    less a b = false ↔ key b ≤ key a := by
  rw [← Bool.not_eq_true, h a b ha hb, Int.not_lt]

namespace Stable

variable {l m s t : List α}

theorem of_ordered (h : l.Pairwise fun a b => key a ≤ key b) : Stable key l l :=
  ⟨h, fun _ => rfl⟩

theorem mem_iff (h : Stable key l s) (a : α) : a ∈ s ↔ a ∈ l := by
  have hself : ∀ l : List α, a ∈ l ↔ a ∈ l.filter (key · == key a) := by
    intro l
    simp
  rw [hself s, hself l, h.alike]

/-- The elements of each key, and their order, tell the whole list. -/
theorem unique (h : Stable key l s) (h' : Stable key l t) : s = t := by
  induction s generalizing l t with
  | nil =>
      cases t with
      | nil => rfl
      | cons b t => exact absurd ((h.mem_iff b).mpr ((h'.mem_iff b).mp List.mem_cons_self)) (by simp)
  | cons a s ih =>
      cases t with
      | nil => exact absurd ((h'.mem_iff a).mpr ((h.mem_iff a).mp List.mem_cons_self)) (by simp)
      | cons b t =>
          obtain ⟨hafter, hs⟩ := List.pairwise_cons.mp h.ordered
          obtain ⟨hafter', ht⟩ := List.pairwise_cons.mp h'.ordered
          have hba : key a = key b := by
            rcases List.mem_cons.mp ((h.mem_iff b).mpr ((h'.mem_iff b).mp List.mem_cons_self)) with
              rfl | hb
            · rfl
            · rcases List.mem_cons.mp ((h'.mem_iff a).mpr ((h.mem_iff a).mp List.mem_cons_self)) with
                rfl | ha
              · rfl
              · exact Int.le_antisymm (hafter b hb) (hafter' a ha)
          have hfirst := (h.alike (key a)).trans (h'.alike (key a)).symm
          rw [List.filter_cons_of_pos (by simp), List.filter_cons_of_pos (by simp [hba])] at hfirst
          obtain ⟨rfl, -⟩ := List.cons.inj hfirst
          have halike : ∀ k, s.filter (key · == k) = t.filter (key · == k) := by
            intro k
            have hk := (h.alike k).trans (h'.alike k).symm
            rw [List.filter_cons, List.filter_cons] at hk
            split at hk
            · exact (List.cons.inj hk).2
            · exact hk
          rw [ih (l := t) ⟨hs, halike⟩ (of_ordered ht)]

theorem reverse (h : Stable key l s) : Stable (fun a => -key a) l.reverse s.reverse := by
  refine ⟨List.pairwise_reverse.mpr (h.ordered.imp fun h => Int.neg_le_neg h), fun k => ?_⟩
  have hkey : (fun a => -key a == k) = fun a => key a == -k := by
    funext a
    rw [Bool.eq_iff_iff, beq_iff_eq, beq_iff_eq]
    omega
  rw [hkey, List.filter_reverse, List.filter_reverse, h.alike]

/-- A list that is split by what its elements have in their keys is sorted part by part. -/
theorem append_split {q : α → Bool} (hq : ∀ a ∈ l, ∀ b ∈ l, key a = key b → q a = q b)
    (h : Stable key (l.filter q) s) (h' : Stable key (l.filter fun a => !q a) t)
    (hle : ∀ a ∈ s, ∀ b ∈ t, key a ≤ key b) : Stable key l (s ++ t) := by
  refine ⟨List.pairwise_append.mpr ⟨h.ordered, h'.ordered, hle⟩, fun k => ?_⟩
  rw [List.filter_append, h.alike, h'.alike, List.filter_filter, List.filter_filter]
  -- the elements of key `k` all lie in the same part
  by_cases hk : ∃ a ∈ l, key a = k ∧ q a = true
  · obtain ⟨a, ha, rfl, hqa⟩ := hk
    have hall : ∀ b ∈ l, (key b == key a) = true → q b = true := by
      intro b hb hkey
      rw [hq b hb a ha (beq_iff_eq.mp hkey), hqa]
    have hsecond : l.filter (fun b => key b == key a && !q b) = [] := by
      refine List.filter_eq_nil_iff.mpr fun b hb => ?_
      cases hkey : key b == key a
      · simp
      · simp [hall b hb hkey]
    rw [hsecond, List.append_nil]
    refine List.filter_congr fun b hb => ?_
    cases hkey : key b == key a
    · rfl
    · rw [hall b hb hkey]
      rfl
  · have hnone : ∀ b ∈ l, (key b == k) = true → q b = false := by
      intro b hb hkey
      exact Bool.eq_false_iff.mpr fun hqb => hk ⟨b, hb, beq_iff_eq.mp hkey, hqb⟩
    have hfirst : l.filter (fun b => key b == k && q b) = [] := by
      refine List.filter_eq_nil_iff.mpr fun b hb => ?_
      cases hkey : key b == k
      · simp
      · simp [hnone b hb hkey]
    rw [hfirst, List.nil_append]
    refine List.filter_congr fun b hb => ?_
    cases hkey : key b == k
    · rfl
    · rw [hnone b hb hkey]
      rfl

end Stable

variable {l m s t : List α}

/-! ## Insertion -/

theorem insertBack_ordered (hless : Keyed less P key) {x : α} (hx : P x) (hs : ∀ a ∈ s, P a)
    (h : s.Pairwise fun a b => key b ≤ key a) :
    (insertBack less x s).Pairwise fun a b => key b ≤ key a := by
  induction s with
  | nil => exact List.pairwise_singleton _ x
  | cons y s ih =>
      obtain ⟨hbefore, hrest⟩ := List.pairwise_cons.mp h
      have hy := hs y List.mem_cons_self
      rw [insertBack]
      split
      · rename_i hlt
        refine List.pairwise_cons.mpr
          ⟨?_, ih (fun a ha => hs a (List.mem_cons_of_mem y ha)) hrest⟩
        intro a ha
        rcases List.mem_cons.mp ((insertBack_perm less x s).mem_iff.mp ha) with rfl | ha
        · exact Int.le_of_lt ((hless _ _ hx hy).mp hlt)
        · exact hbefore a ha
      · rename_i hnlt
        have hyx : key y ≤ key x := (hless.not_less hx hy).mp (Bool.eq_false_iff.mpr hnlt)
        refine List.pairwise_cons.mpr ⟨?_, h⟩
        intro a ha
        rcases List.mem_cons.mp ha with rfl | ha
        · exact hyx
        · exact Int.le_trans (hbefore a ha) hyx

/-- An element passes none of its own key. -/
theorem insertBack_alike (hless : Keyed less P key) {x : α} (hx : P x) (hs : ∀ a ∈ s, P a) (k : Int) :
    (insertBack less x s).filter (key · == k) = (x :: s).filter (key · == k) := by
  induction s with
  | nil => rfl
  | cons y s ih =>
      rw [insertBack]
      split
      · rename_i hlt
        have hkeys := (hless _ _ hx (hs y List.mem_cons_self)).mp hlt
        rw [List.filter_cons, ih fun a ha => hs a (List.mem_cons_of_mem y ha)]
        by_cases hxk : key x = k
        · have hyk : key y ≠ k := by omega
          simp [hxk, hyk]
        · rw [List.filter_cons_of_neg (by simp [hxk]), List.filter_cons_of_neg (by simp [hxk]),
            List.filter_cons]
      · rfl

theorem Stable.insertAll (hless : Keyed less P key) (hs : ∀ a ∈ l ++ m, P a) (h : Stable key l s) :
    Stable key (l ++ m) (insertAll less s m) := by
  induction m using List.reverseRecOn with
  | nil => simpa using h
  | append_singleton m x ih =>
      rw [← List.append_assoc] at hs ⊢
      have hdone := ih fun a ha => hs a (List.mem_append_left _ ha)
      have hP : ∀ a ∈ (Sorting.insertAll less s m).reverse, P a := by
        intro a ha
        rw [List.mem_reverse, hdone.mem_iff] at ha
        exact hs a (List.mem_append_left _ ha)
      have hx : P x := hs x (by simp)
      rw [insertAll_concat]
      refine ⟨List.pairwise_reverse.mpr
        (insertBack_ordered hless hx hP (List.pairwise_reverse.mpr hdone.ordered)), fun k => ?_⟩
      rw [List.filter_reverse, insertBack_alike hless hx hP, List.filter_append, ← hdone.alike,
        List.filter_cons, List.filter_reverse]
      by_cases hk : key x = k <;> simp [hk]

theorem stable_insertionSort (hless : Keyed less P key) (hl : ∀ a ∈ l, P a) :
    Stable key l (insertionSort less l) :=
  Stable.insertAll hless hl (Stable.of_ordered .nil)

/-! ## Merging -/

theorem merge_cons_cons (x y : α) (s t : List α) : merge less (x :: s) (y :: t) =
    if less y x then y :: merge less (x :: s) t else x :: merge less s (y :: t) := by
  rw [merge, List.cons_merge_cons]
  cases less y x <;> rfl

@[simp] theorem merge_nil_left (t : List α) : merge less [] t = t :=
  List.nil_merge t

@[simp] theorem merge_nil_right (s : List α) : merge less s [] = s :=
  List.merge_right s

theorem merge_ordered (hless : Keyed less P key) (hs : ∀ a ∈ s, P a) (ht : ∀ a ∈ t, P a)
    (h : s.Pairwise fun a b => key a ≤ key b) (h' : t.Pairwise fun a b => key a ≤ key b) :
    (merge less s t).Pairwise fun a b => key a ≤ key b := by
  induction s generalizing t with
  | nil => simpa using h'
  | cons x s ihs =>
      induction t with
      | nil => simpa using h
      | cons y t iht =>
          obtain ⟨hafter, hrest⟩ := List.pairwise_cons.mp h
          obtain ⟨hafter', hrest'⟩ := List.pairwise_cons.mp h'
          have hx := hs x List.mem_cons_self
          have hy := ht y List.mem_cons_self
          have htail : ∀ a ∈ t, P a := fun a ha => ht a (List.mem_cons_of_mem y ha)
          rw [merge_cons_cons]
          split
          · rename_i hlt
            have hyx := (hless _ _ hy hx).mp hlt
            refine List.pairwise_cons.mpr ⟨?_, iht htail hrest'⟩
            intro a ha
            rcases List.mem_append.mp ((merge_perm _ _).mem_iff.mp ha) with ha | ha
            · rcases List.mem_cons.mp ha with rfl | ha
              · exact Int.le_of_lt hyx
              · exact Int.le_trans (Int.le_of_lt hyx) (hafter a ha)
            · exact hafter' a ha
          · rename_i hnlt
            have hxy := (hless.not_less hy hx).mp (Bool.eq_false_iff.mpr hnlt)
            refine List.pairwise_cons.mpr
              ⟨?_, ihs (fun a ha => hs a (List.mem_cons_of_mem x ha)) ht hrest h'⟩
            intro a ha
            rcases List.mem_append.mp ((merge_perm _ _).mem_iff.mp ha) with ha | ha
            · exact hafter a ha
            · rcases List.mem_cons.mp ha with rfl | ha
              · exact hxy
              · exact Int.le_trans hxy (hafter' a ha)

/-- Of elements of one key those on the left come first. -/
theorem merge_alike (hless : Keyed less P key) (hs : ∀ a ∈ s, P a) (ht : ∀ a ∈ t, P a)
    (h : s.Pairwise fun a b => key a ≤ key b) (k : Int) :
    (merge less s t).filter (key · == k) = s.filter (key · == k) ++ t.filter (key · == k) := by
  induction s generalizing t with
  | nil => simp
  | cons x s ihs =>
      induction t with
      | nil => simp
      | cons y t iht =>
          obtain ⟨hafter, hrest⟩ := List.pairwise_cons.mp h
          rw [merge_cons_cons]
          split
          · rename_i hlt
            have hyx := (hless _ _ (ht y List.mem_cons_self) (hs x List.mem_cons_self)).mp hlt
            rw [List.filter_cons, iht fun a ha => ht a (List.mem_cons_of_mem y ha)]
            by_cases hyk : key y = k
            · -- all of `x :: s` have greater keys
              have hnone : (x :: s).filter (key · == k) = [] := by
                refine List.filter_eq_nil_iff.mpr fun a ha => ?_
                rw [beq_iff_eq]
                rcases List.mem_cons.mp ha with rfl | ha
                · omega
                · have := hafter a ha
                  omega
              simp [hnone, hyk]
            · simp [hyk]
          · rw [List.filter_cons, ihs (fun a ha => hs a (List.mem_cons_of_mem x ha)) ht hrest]
            by_cases hxk : key x = k <;> simp [hxk]

theorem Stable.merge (hless : Keyed less P key) (hl : ∀ a ∈ l, P a) (hm : ∀ a ∈ m, P a)
    (h : Stable key l s) (h' : Stable key m t) : Stable key (l ++ m) (merge less s t) := by
  have hs : ∀ a ∈ s, P a := fun a ha => hl a ((h.mem_iff a).mp ha)
  have ht : ∀ a ∈ t, P a := fun a ha => hm a ((h'.mem_iff a).mp ha)
  refine ⟨merge_ordered hless hs ht h.ordered h'.ordered, fun k => ?_⟩
  rw [merge_alike hless hs ht h.ordered, h.alike, h'.alike, List.filter_append]

theorem Stable.mergeBack (hless : Keyed less P key) (hl : ∀ a ∈ l, P a) (hm : ∀ a ∈ m, P a)
    (h : Stable key l s) (h' : Stable key m t) : Stable key (l ++ m) (mergeBack less s t) := by
  have hback := Stable.merge hless.flip (fun a ha => hm a (List.mem_reverse.mp ha))
    (fun a ha => hl a (List.mem_reverse.mp ha)) h'.reverse h.reverse
  rw [← List.reverse_append] at hback
  simpa [Sorting.mergeBack] using hback.reverse

theorem Stable.mergeSorted (hless : Keyed less P key) (hl : ∀ a ∈ l, P a) (hm : ∀ a ∈ m, P a)
    (h : Stable key l s) (h' : Stable key m t) : Stable key (l ++ m) (mergeSorted less s t) := by
  unfold Sorting.mergeSorted
  split
  · exact h.merge hless hl hm h'
  · exact h.mergeBack hless hl hm h'

end AppServer.Sorting
