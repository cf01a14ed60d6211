import AppServer.Proofs.Sorting.Stable

/-!
# Merging from both ends

A merge of two sorted lists cuts either of them at every step: what is taken goes before what is
left. Where elements are compared by their keys the cuts that are made from the front and from the
back lie in one order, so that the two ends of a merge of halves meet.
-/

namespace AppServer.Sorting

variable {α : Type} {less : α → α → Bool} {P : α → Prop} {key : α → Int} {l xs ys : List α}

/-! ## Cuts -/

/-- Cut after `a` elements of `xs` and `b` of `ys`: what is in front of either cut goes before what
is behind the other. -/
structure Cut (less : α → α → Bool) (xs ys : List α) (a b : Nat) : Prop where
  left : ∀ x ∈ xs.take a, ∀ y ∈ ys.drop b, less y x = false
  right : ∀ y ∈ ys.take b, ∀ x ∈ xs.drop a, less y x = true

/-- Of two cuts the one that takes no more in all takes no more of either list. -/
theorem Cut.le {a b c d : Nat} (h : Cut less xs ys a b) (h' : Cut less xs ys c d)
    (ha : a ≤ xs.length) (hb : b ≤ ys.length) (hc : c ≤ xs.length) (hd : d ≤ ys.length)
    (hle : a + b ≤ c + d) : a ≤ c ∧ b ≤ d := by
  constructor
  · by_contra hlt
    have hx : xs[c] ∈ xs.take a := List.mem_take_iff_getElem.mpr ⟨c, by omega, rfl⟩
    have hx' : xs[c] ∈ xs.drop c := List.mem_drop_iff_getElem.mpr ⟨0, by omega, rfl⟩
    have hy : ys[b] ∈ ys.drop b := List.mem_drop_iff_getElem.mpr ⟨0, by omega, rfl⟩
    have hy' : ys[b] ∈ ys.take d := List.mem_take_iff_getElem.mpr ⟨b, by omega, rfl⟩
    have hfalse := h.left _ hx _ hy
    rw [h'.right _ hy' _ hx'] at hfalse
    cases hfalse
  · by_contra hlt
    have hx : xs[a] ∈ xs.drop a := List.mem_drop_iff_getElem.mpr ⟨0, by omega, rfl⟩
    have hx' : xs[a] ∈ xs.take c := List.mem_take_iff_getElem.mpr ⟨a, by omega, rfl⟩
    have hy : ys[d] ∈ ys.take b := List.mem_take_iff_getElem.mpr ⟨d, by omega, rfl⟩
    have hy' : ys[d] ∈ ys.drop d := List.mem_drop_iff_getElem.mpr ⟨0, by omega, rfl⟩
    have hfalse := h'.left _ hx' _ hy'
    rw [h.right _ hy _ hx] at hfalse
    cases hfalse

/-- The first steps of a merge cut both lists. -/
theorem cut_mergeSteps (hless : Keyed less P key) (n : Nat) (hxs : ∀ a ∈ xs, P a)
    (hys : ∀ a ∈ ys, P a) (hx : xs.Pairwise fun a b => key a ≤ key b)
    (hy : ys.Pairwise fun a b => key a ≤ key b) (hn : n ≤ xs.length) (hn' : n ≤ ys.length) :
    Cut less xs ys (mergeSteps less n xs ys).2 (n - (mergeSteps less n xs ys).2) := by
  fun_induction mergeSteps less n xs ys with
  | case1 n x xs y ys hlt out k hsteps ih =>
      obtain ⟨hafter, hrest⟩ := List.pairwise_cons.mp hy
      have hk := (mergeSteps_perm less n (x :: xs) ys (Nat.le_of_succ_le hn)
        (Nat.le_of_succ_le_succ hn')).1
      have hcut := ih hxs (fun a ha => hys a (List.mem_cons_of_mem y ha)) hx hrest
        (Nat.le_of_succ_le hn) (Nat.le_of_succ_le_succ hn')
      rw [hsteps] at hk hcut
      simp only [Nat.succ_sub hk]
      refine ⟨hcut.left, fun b hb a ha => ?_⟩
      rw [List.take_succ_cons] at hb
      rcases List.mem_cons.mp hb with rfl | hb
      · -- `b` goes before the head of `x :: xs`, and so before all of it
        have ha := List.mem_of_mem_drop ha
        have hbP := hys b List.mem_cons_self
        have hbx := (hless _ _ hbP (hxs x List.mem_cons_self)).mp hlt
        rw [hless _ _ hbP (hxs a ha)]
        rcases List.mem_cons.mp ha with rfl | ha
        · exact hbx
        · exact Int.lt_of_lt_of_le hbx (List.rel_of_pairwise_cons hx ha)
      · exact hcut.right b hb a ha
  | case2 n x xs y ys hnlt out k hsteps ih =>
      obtain ⟨hafter, hrest⟩ := List.pairwise_cons.mp hx
      have hcut := ih (fun a ha => hxs a (List.mem_cons_of_mem x ha)) hys hrest hy
        (Nat.le_of_succ_le_succ hn) (Nat.le_of_succ_le hn')
      rw [hsteps] at hcut
      simp only [Nat.succ_eq_add_one, Nat.add_sub_add_right]
      refine ⟨fun a ha b hb => ?_, hcut.right⟩
      rw [List.take_succ_cons] at ha
      rcases List.mem_cons.mp ha with rfl | ha
      · have hb := List.mem_of_mem_drop hb
        have haP := hxs a List.mem_cons_self
        have hay := (hless.not_less (hys y List.mem_cons_self) haP).mp (Bool.eq_false_iff.mpr hnlt)
        rw [hless.not_less (hys b hb) haP]
        rcases List.mem_cons.mp hb with rfl | hb
        · exact hay
        · exact Int.le_trans hay (List.rel_of_pairwise_cons hy hb)
      · exact hcut.left a ha b hb
  | case3 n xs ys hend =>
      obtain rfl := eq_zero_of_end hn hn' hend
      exact ⟨by simp, by simp⟩

variable (less) in
/-- A merge goes on after its first steps with what they leave. -/
theorem merge_eq_mergeSteps (n : Nat) (hn : n ≤ xs.length) (hn' : n ≤ ys.length) :
    merge less xs ys = (mergeSteps less n xs ys).1 ++
      merge less (xs.drop (mergeSteps less n xs ys).2)
        (ys.drop (n - (mergeSteps less n xs ys).2)) := by
  fun_induction mergeSteps less n xs ys with
  | case1 n x xs y ys hlt out k hsteps ih =>
      have hk := (mergeSteps_perm less n (x :: xs) ys (Nat.le_of_succ_le hn)
        (Nat.le_of_succ_le_succ hn')).1
      have hrest := ih (Nat.le_of_succ_le hn) (Nat.le_of_succ_le_succ hn')
      rw [hsteps] at hk hrest
      rw [merge_cons_cons, if_pos hlt, hrest]
      simp only [Nat.succ_sub hk, List.drop_succ_cons, List.cons_append]
  | case2 n x xs y ys hnlt out k hsteps ih =>
      have hrest := ih (Nat.le_of_succ_le_succ hn) (Nat.le_of_succ_le hn')
      rw [hsteps] at hrest
      rw [merge_cons_cons, if_neg hnlt, hrest]
      simp only [Nat.succ_eq_add_one, Nat.add_sub_add_right, List.drop_succ_cons, List.cons_append]
  | case3 n xs ys hend =>
      obtain rfl := eq_zero_of_end hn hn' hend
      rfl

variable (less) in
theorem length_mergeSteps (n : Nat) (hn : n ≤ xs.length) (hn' : n ≤ ys.length) :
    (mergeSteps less n xs ys).1.length = n := by
  obtain ⟨hk, hperm⟩ := mergeSteps_perm less n xs ys hn hn'
  rw [hperm.length_eq, List.length_append, List.length_take, List.length_take]
  omega

section FromTheBack

variable (hless : Keyed less P key) (hxs : ∀ a ∈ xs, P a) (hys : ∀ a ∈ ys, P a)
  (hx : xs.Pairwise fun a b => key a ≤ key b) (hy : ys.Pairwise fun a b => key a ≤ key b)
include hless hxs hys hx hy

/-- Merging from the back makes no difference. -/
theorem mergeBack_eq_merge : mergeBack less xs ys = merge less xs ys :=
  (Stable.mergeBack hless hxs hys (.of_ordered hx) (.of_ordered hy)).unique
    (Stable.merge hless hxs hys (.of_ordered hx) (.of_ordered hy))

variable (n : Nat) (hn : n ≤ xs.length) (hn' : n ≤ ys.length)
include hn hn'

/-- The first steps from the back cut both lists as well. -/
theorem cut_mergeSteps_reverse :
    Cut less xs ys (xs.length - (n - (mergeSteps (fun a b => less b a) n ys.reverse xs.reverse).2))
      (ys.length - (mergeSteps (fun a b => less b a) n ys.reverse xs.reverse).2) := by
  have hcut := cut_mergeSteps hless.flip n (fun a ha => hys a (List.mem_reverse.mp ha))
    (fun a ha => hxs a (List.mem_reverse.mp ha)) (Stable.of_ordered hy).reverse.ordered
    (Stable.of_ordered hx).reverse.ordered (by simpa using hn') (by simpa using hn)
  constructor
  · intro x hx y hy
    refine hcut.left y ?_ x ?_
    · simpa [List.take_reverse] using hy
    · simpa [List.drop_reverse] using hx
  · intro y hy x hx
    refine hcut.right x ?_ y ?_
    · simpa [List.take_reverse] using hx
    · simpa [List.drop_reverse] using hy

/-- They give the end of the merge. -/
theorem reverse_mergeSteps_reverse :
    (mergeSteps (fun a b => less b a) n ys.reverse xs.reverse).1.reverse =
      (merge less xs ys).drop (xs.length + ys.length - n) := by
  have hyr : n ≤ ys.reverse.length := by simpa using hn'
  have hxr : n ≤ xs.reverse.length := by simpa using hn
  have hback := mergeBack_eq_merge hless hxs hys hx hy
  have hlength := length_mergeSteps (fun a b => less b a) n hyr hxr
  rw [mergeBack, merge_eq_mergeSteps _ n hyr hxr, List.reverse_append] at hback
  have htotal := congrArg List.length hback
  rw [(merge_perm xs ys).length_eq, List.length_append, List.length_reverse, List.length_reverse,
    hlength, List.length_append] at htotal
  rw [← hback, List.drop_left']
  rw [List.length_reverse]
  omega

end FromTheBack

/-- What goes before all of the other list is merged first. -/
theorem take_one_merge_left {s t : List α} (hs : s ≠ [])
    (h : ∀ x ∈ s.take 1, ∀ y ∈ t, less y x = false) : (merge less s t).take 1 = s.take 1 := by
  match s, t, hs with
  | x :: s, [], _ => rw [merge_nil_right]
  | x :: s, y :: t, _ =>
      have hxy : less y x = false := h x (by simp) y List.mem_cons_self
      simp [merge_cons_cons, hxy]

theorem take_one_merge_right {s t : List α} (ht : t ≠ [])
    (h : ∀ y ∈ t.take 1, ∀ x ∈ s, less y x = true) : (merge less s t).take 1 = t.take 1 := by
  match s, t, ht with
  | [], y :: t, _ => rw [merge_nil_left]
  | x :: s, y :: t, _ =>
      have hyx : less y x = true := h y (by simp) x List.mem_cons_self
      simp [merge_cons_cons, hyx]

/-! ## Halves -/

/-- The two ends meet, and what they give is the merge. -/
theorem mergeHalves_eq_merge (hless : Keyed less P key) (hxs : ∀ a ∈ xs, P a) (hys : ∀ a ∈ ys, P a)
    (hx : xs.Pairwise fun a b => key a ≤ key b) (hy : ys.Pairwise fun a b => key a ≤ key b)
    (hle : xs.length ≤ ys.length) (hge : ys.length ≤ xs.length + 1) :
    mergeHalves less xs ys = some (merge less xs ys) := by
  have hrefl := Nat.le_refl xs.length
  have hk := (mergeSteps_perm less xs.length xs ys hrefl hle).1
  have hj := (mergeSteps_perm (fun a b => less b a) xs.length ys.reverse xs.reverse
    (by simpa using hle) (by simp)).1
  have hcut := cut_mergeSteps hless xs.length hxs hys hx hy hrefl hle
  have hcut' := cut_mergeSteps_reverse hless hxs hys hx hy xs.length hrefl hle
  have hlength := length_mergeSteps less xs.length hrefl hle
  have hfront := merge_eq_mergeSteps less xs.length hrefl hle
  have hback := reverse_mergeSteps_reverse hless hxs hys hx hy xs.length hrefl hle
  dsimp only [mergeHalves]
  generalize mergeSteps less xs.length xs ys = up at *
  generalize mergeSteps (fun a b => less b a) xs.length ys.reverse xs.reverse = down at *
  obtain ⟨front, k⟩ := up
  obtain ⟨back, j⟩ := down
  dsimp only at *
  rw [show xs.length - (xs.length - j) = j by omega] at hcut'
  obtain ⟨hkj, hkj'⟩ := hcut.le hcut' (by omega) (by omega) (by omega) (by omega) (by omega)
  -- between the two ends the merge has one element if the halves differ in length, or else none
  have hbetween : ∀ middle, (merge less (xs.drop k) (ys.drop (xs.length - k))).take
      (ys.length - xs.length) = middle →
        some (front ++ middle ++ back.reverse) = some (merge less xs ys) := by
    rintro middle rfl
    have hend : back.reverse = (merge less (xs.drop k) (ys.drop (xs.length - k))).drop
        (ys.length - xs.length) := by
      rw [hback, hfront, List.drop_append, hlength, List.drop_eq_nil_of_le (by omega),
        List.nil_append]
      congr 1
      omega
    rw [hend, List.append_assoc, List.take_append_drop, ← hfront]
  by_cases hmeet : k = j
  · rw [if_pos hmeet]
    refine hbetween _ ?_
    rcases Nat.eq_or_lt_of_le hle with heven | hodd
    · simp [heven]
    · rw [show ys.length - xs.length = 1 by omega]
      refine take_one_merge_right (List.ne_nil_of_length_pos ?_) fun y hy x hx => ?_
      · rw [List.length_drop]
        omega
      · rw [List.take_drop, show xs.length - k + 1 = ys.length - j by omega] at hy
        exact hcut'.right y (List.mem_of_mem_drop hy) x (hmeet ▸ hx)
  · rw [if_neg hmeet, if_pos (by omega)]
    refine hbetween _ ?_
    rw [show ys.length - xs.length = 1 by omega]
    refine take_one_merge_left (List.ne_nil_of_length_pos ?_) fun x hx y hy => ?_
    · rw [List.length_drop]
      omega
    · rw [List.take_drop, show k + 1 = j by omega] at hx
      rw [show xs.length - k = ys.length - j by omega] at hy
      exact hcut'.left x (List.mem_of_mem_drop hx) y hy

theorem Stable.pair (hless : Keyed less P key) {a b : α} (ha : P a) (hb : P b) :
    Stable key [a, b] [(pair less a b).1, (pair less a b).2] := by
  unfold Sorting.pair
  split
  · rename_i hlt
    have hba := (hless _ _ hb ha).mp hlt
    refine ⟨by simpa using Int.le_of_lt hba, fun k => ?_⟩
    by_cases hak : key a = k
    · have hbk : key b ≠ k := by omega
      simp [hak, hbk]
    · by_cases hbk : key b = k <;> simp [hak, hbk]
  · rename_i hnlt
    have hab := (hless.not_less hb ha).mp (Bool.eq_false_iff.mpr hnlt)
    exact .of_ordered (by simpa using hab)

/-- Four elements are sorted as two pairs are merged. -/
theorem sortFour_eq_merge (hless : Keyed less P key) {w x y z : α} (hw : P w) (hx : P x) (hy : P y)
    (hz : P z) : sortFour less w x y z =
      merge less [(pair less w x).1, (pair less w x).2] [(pair less y z).1, (pair less y z).2] := by
  have hwx := Stable.pair hless hw hx
  have hyz := Stable.pair hless hy hz
  unfold sortFour
  generalize pair less w x = p at *
  generalize pair less y z = q at *
  obtain ⟨a, b⟩ := p
  obtain ⟨c, d⟩ := q
  have hP : ∀ e, e ∈ [a, b] ∨ e ∈ [c, d] → P e := by
    intro e he
    rw [hwx.mem_iff, hyz.mem_iff] at he
    grind
  have hab : key a ≤ key b := by simpa using hwx.ordered
  have hcd : key c ≤ key d := by simpa using hyz.ordered
  have hless' : ∀ e f, (e ∈ [a, b] ∨ e ∈ [c, d]) → (f ∈ [a, b] ∨ f ∈ [c, d]) →
      less f e = decide (key f < key e) := by
    intro e f he hf
    rw [Bool.eq_iff_iff, decide_eq_true_eq, hless _ _ (hP f hf) (hP e he)]
  have hba : less b a = false := by simp [hless' a b, Int.not_lt.mpr hab]
  have hdc : less d c = false := by simp [hless' c d, Int.not_lt.mpr hcd]
  have hca := hless' a c (by simp) (by simp)
  have hda := hless' a d (by simp) (by simp)
  have hcb := hless' b c (by simp) (by simp)
  have hdb := hless' b d (by simp) (by simp)
  simp only [merge_cons_cons, merge_nil_left, merge_nil_right, pair, hca, hda, hcb, hdb,
    decide_eq_true_eq]
  by_cases hcrossed : key c < key a
  · by_cases henclosed : key d < key b
    · by_cases hda' : key d < key a <;> simp [hcrossed, henclosed, hda, hda']
    · have hda : ¬ key d < key a := by omega
      simp [hcrossed, henclosed, hda, hba]
  · by_cases henclosed : key d < key b
    · have hcb : key c < key b := by omega
      simp [hcrossed, henclosed, hcb, hdc]
    · by_cases hcb' : key c < key b <;> simp [hcrossed, henclosed, hcb, hcb']

theorem stable_sortFour (hless : Keyed less P key) {w x y z : α} (hw : P w) (hx : P x) (hy : P y)
    (hz : P z) : Stable key [w, x, y, z] (sortFour less w x y z) := by
  rw [sortFour_eq_merge hless hw hx hy hz]
  refine Stable.merge hless ?_ ?_ (.pair hless hw hx) (.pair hless hy hz)
  · simp [hw, hx]
  · simp [hy, hz]

theorem stable_sortHalf (hless : Keyed less P key) (hl : ∀ a ∈ l, P a) :
    Stable key l (sortHalf less l) := by
  unfold sortHalf
  split
  · rename_i w x y z rest
    have hfour := stable_sortFour hless (hl w (by simp)) (hl x (by simp)) (hl y (by simp))
      (hl z (by simp))
    exact hfour.insertAll hless hl
  · exact stable_insertionSort hless hl

/-- A short list whose elements are compared by their keys is sorted. -/
theorem exists_sortHalves (hless : Keyed less P key) (hl : ∀ a ∈ l, P a) :
    ∃ s, sortHalves less l = some s ∧ Stable key l s := by
  have hfirst : ∀ a ∈ l.take (l.length / 2), P a := fun a ha => hl a (List.mem_of_mem_take ha)
  have hsecond : ∀ a ∈ l.drop (l.length / 2), P a := fun a ha => hl a (List.mem_of_mem_drop ha)
  have hhalves : ∀ {xs ys : List α}, Stable key (l.take (l.length / 2)) xs →
      Stable key (l.drop (l.length / 2)) ys → xs.length = l.length / 2 →
        ys.length = l.length - l.length / 2 →
          ∃ s, mergeHalves less xs ys = some s ∧ Stable key l s := by
    intro xs ys hxs hys hxlen hylen
    refine ⟨merge less xs ys, ?_, ?_⟩
    · exact mergeHalves_eq_merge hless (fun a ha => hfirst a ((hxs.mem_iff a).mp ha))
        (fun a ha => hsecond a ((hys.mem_iff a).mp ha)) hxs.ordered hys.ordered (by omega) (by omega)
    · have hmerge := hxs.merge hless hfirst hsecond hys
      rwa [List.take_append_drop] at hmerge
  have hlength : (l.take (l.length / 2)).length = l.length / 2 := by
    rw [List.length_take]
    omega
  unfold sortHalves
  dsimp only
  split
  · rename_i hshort
    refine ⟨l, rfl, .of_ordered ?_⟩
    match l, hshort with
    | [], _ => exact .nil
    | [a], _ => exact List.pairwise_singleton _ a
  · split
    · exact hhalves (stable_insertionSort hless hfirst) (stable_insertionSort hless hsecond)
        ((insertionSort_perm _).length_eq.trans hlength)
        ((insertionSort_perm _).length_eq.trans List.length_drop)
    · exact hhalves (stable_sortHalf hless hfirst) (stable_sortHalf hless hsecond)
        ((sortHalf_perm _).length_eq.trans hlength)
        ((sortHalf_perm _).length_eq.trans List.length_drop)

end AppServer.Sorting
