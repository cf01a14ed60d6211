import AppServer.Sorting.Basic
import Mathlib.Data.List.Induction

/-!
# Sorting rearranges

Whatever elements are compared by, a sort that does not give up loses none and adds none.
-/

namespace AppServer.Sorting

variable {α : Type} {less : α → α → Bool}

/-! ## Short lists -/

variable (less) in
theorem insertBack_perm (x : α) (l : List α) : (insertBack less x l).Perm (x :: l) := by
  induction l with
  | nil => exact .refl _
  | cons y ys ih =>
      rw [insertBack]
      split
      · exact (ih.cons y).trans (.swap x y ys)
      · exact .refl _

theorem insertAll_concat (s l : List α) (x : α) :
    insertAll less s (l ++ [x]) = (insertBack less x (insertAll less s l).reverse).reverse := by
  simp [insertAll]

@[simp] theorem insertAll_nil (s : List α) : insertAll less s [] = s := by
  simp [insertAll]

theorem insertAll_perm (s l : List α) : (insertAll less s l).Perm (s ++ l) := by
  induction l using List.reverseRecOn with
  | nil => simp
  | append_singleton l x ih =>
      rw [insertAll_concat, ← List.append_assoc]
      have hback := (insertBack_perm less x _).trans
        (((insertAll less s l).reverse_perm.trans ih).cons x)
      exact ((List.reverse_perm _).trans hback).trans (List.perm_append_singleton x _).symm

theorem insertionSort_perm (l : List α) : (insertionSort less l).Perm l :=
  insertAll_perm [] l

variable (less) in
theorem pair_perm (a b : α) : [(pair less a b).1, (pair less a b).2].Perm [a, b] := by
  unfold pair
  split
  · exact .swap a b []
  · exact .refl _

theorem sortFour_perm (w x y z : α) : (sortFour less w x y z).Perm [w, x, y, z] := by
  have hpairs := (pair_perm less w x).append (pair_perm less y z)
  refine List.Perm.trans ?_ hpairs
  unfold sortFour
  obtain ⟨a, b⟩ := pair less w x
  obtain ⟨c, d⟩ := pair less y z
  dsimp only
  -- the outer two stay where they are, and the inner two only change places
  refine (((pair_perm less _ _).append_right _).cons _).trans ?_
  have hlate : ([c, d] ++ [b]).Perm ([b] ++ [c, d]) := List.perm_append_comm
  have hearly : ([c] ++ [a, b]).Perm ([a, b] ++ [c]) := List.perm_append_comm
  cases less c a <;> cases less d b
  · exact .refl _
  · exact hlate.cons a
  · exact hearly.append_right [d]
  · exact (List.Perm.swap a c [d, b]).trans (hlate.cons a)

theorem sortHalf_perm (l : List α) : (sortHalf less l).Perm l := by
  unfold sortHalf
  split
  · exact (insertAll_perm _ _).trans ((sortFour_perm _ _ _ _).append_right _)
  · exact insertionSort_perm l

/-! ## Merging -/

theorem merge_perm (xs ys : List α) : (merge less xs ys).Perm (xs ++ ys) :=
  List.merge_perm_append _

theorem mergeBack_perm (xs ys : List α) : (mergeBack less xs ys).Perm (xs ++ ys) := by
  refine (List.reverse_perm _).trans ((merge_perm _ _).trans ?_)
  rw [← List.reverse_append]
  exact List.reverse_perm _

theorem mergeSorted_perm (xs ys : List α) : (mergeSorted less xs ys).Perm (xs ++ ys) := by
  unfold mergeSorted
  split
  · exact merge_perm xs ys
  · exact mergeBack_perm xs ys

/-- Two lists that are long enough only end where no step is left. -/
theorem eq_zero_of_end {n : Nat} {xs ys : List α} (hxs : n ≤ xs.length) (hys : n ≤ ys.length)
    (hend : ∀ m x xs' y ys', n = Nat.succ m → xs = x :: xs' → ys = y :: ys' → False) : n = 0 := by
  cases n with
  | zero => rfl
  | succ n =>
      obtain ⟨x, xs, rfl⟩ := List.exists_cons_of_length_pos (Nat.lt_of_lt_of_le n.succ_pos hxs)
      obtain ⟨y, ys, rfl⟩ := List.exists_cons_of_length_pos (Nat.lt_of_lt_of_le n.succ_pos hys)
      exact (hend n x xs y ys rfl rfl rfl).elim

variable (less) in
/-- Every step of a merge takes the next element of one list. -/
theorem mergeSteps_perm (n : Nat) (xs ys : List α) (hxs : n ≤ xs.length) (hys : n ≤ ys.length) :
    (mergeSteps less n xs ys).2 ≤ n ∧ (mergeSteps less n xs ys).1.Perm
      (xs.take (mergeSteps less n xs ys).2 ++ ys.take (n - (mergeSteps less n xs ys).2)) := by
  fun_induction mergeSteps less n xs ys with
  | case1 n x xs y ys hless out k hsteps ih =>
      rw [hsteps] at ih
      obtain ⟨hk, hperm⟩ := ih (Nat.le_of_succ_le hxs) (Nat.le_of_succ_le_succ hys)
      refine ⟨Nat.le_succ_of_le hk, ?_⟩
      simp only [Nat.succ_sub hk, List.take_succ_cons]
      exact (hperm.cons y).trans List.perm_middle.symm
  | case2 n x xs y ys hless out k hsteps ih =>
      rw [hsteps] at ih
      obtain ⟨hk, hperm⟩ := ih (Nat.le_of_succ_le_succ hxs) (Nat.le_of_succ_le hys)
      refine ⟨Nat.succ_le_succ hk, ?_⟩
      simp only [Nat.succ_eq_add_one, Nat.add_sub_add_right, List.take_succ_cons]
      exact hperm.cons x
  | case3 n xs ys hend =>
      obtain rfl := eq_zero_of_end hxs hys hend
      exact ⟨Nat.le_refl 0, .refl _⟩

/-- A list in three stretches, the last from `b` on. -/
theorem take_append_take_drop_append_drop {a b : Nat} (l : List α) (n : Nat) (h : a + n = b) :
    l.take a ++ ((l.drop a).take n ++ l.drop b) = l := by
  rw [← h, ← List.drop_drop, List.take_append_drop, List.take_append_drop]

/-- Two ends that meet have taken every element of both halves. -/
theorem mergeHalves_perm {xs ys s : List α} (hle : xs.length ≤ ys.length)
    (hge : ys.length ≤ xs.length + 1) (h : mergeHalves less xs ys = some s) :
    s.Perm (xs ++ ys) := by
  dsimp only [mergeHalves] at h
  have hfront := mergeSteps_perm less xs.length xs ys (Nat.le_refl _) hle
  have hback := mergeSteps_perm (fun a b => less b a) xs.length ys.reverse xs.reverse
    (by simpa only [List.length_reverse] using hle) (Nat.le_of_eq List.length_reverse.symm)
  generalize mergeSteps less xs.length xs ys = up at h hfront
  generalize mergeSteps (fun a b => less b a) xs.length ys.reverse xs.reverse = down at h hback
  obtain ⟨front, k⟩ := up
  obtain ⟨back, j⟩ := down
  obtain ⟨hk, hfront⟩ := hfront
  obtain ⟨hj, hback⟩ := hback
  dsimp only at h hk hfront hj hback
  have hback : back.reverse.Perm (xs.drop j ++ ys.drop (ys.length - j)) := by
    refine (List.reverse_perm _).trans (hback.trans ?_)
    rw [List.take_reverse, List.take_reverse, ← List.reverse_append,
      show xs.length - (xs.length - j) = j by omega]
    exact List.reverse_perm _
  split at h
  · rename_i hmeet
    obtain rfl := Option.some.inj h
    have hys := take_append_take_drop_append_drop ys (ys.length - xs.length)
      (show xs.length - k + (ys.length - xs.length) = ys.length - j by omega)
    refine (((hfront.append_right _).append hback).trans ?_)
    conv_rhs => rw [← List.take_append_drop k xs, ← hys]
    rw [hmeet]
    simp only [List.append_assoc]
    refine List.Perm.append_left _ ?_
    simp only [← List.append_assoc (List.take _ ys)]
    exact List.perm_append_comm_assoc _ _ _
  · split at h
    · rename_i hmeet
      obtain ⟨hmeet, hodd⟩ := hmeet
      obtain rfl := Option.some.inj h
      have hxs := take_append_take_drop_append_drop xs 1 hmeet
      have hys : ys.take (xs.length - k) ++ ys.drop (ys.length - j) = ys := by
        rw [show ys.length - j = xs.length - k by omega, List.take_append_drop]
      refine (((hfront.append_right _).append hback).trans ?_)
      conv_rhs => rw [← hxs, ← hys]
      simp only [List.append_assoc]
      refine List.Perm.append_left _ ?_
      simp only [← List.append_assoc (List.take 1 _)]
      exact List.perm_append_comm_assoc _ _ _
    · cases h

theorem sortHalves_perm {l s : List α} (h : sortHalves less l = some s) : s.Perm l := by
  have hle : (l.take (l.length / 2)).length ≤ (l.drop (l.length / 2)).length := by
    rw [List.length_take, List.length_drop]
    omega
  have hge : (l.drop (l.length / 2)).length ≤ (l.take (l.length / 2)).length + 1 := by
    rw [List.length_take, List.length_drop]
    omega
  have hhalves : ∀ {xs ys : List α}, xs.Perm (l.take (l.length / 2)) →
      ys.Perm (l.drop (l.length / 2)) → mergeHalves less xs ys = some s → s.Perm l := by
    intro xs ys hxs hys hmerge
    have hmerged := mergeHalves_perm (hxs.length_eq ▸ hys.length_eq ▸ hle)
      (hxs.length_eq ▸ hys.length_eq ▸ hge) hmerge
    exact hmerged.trans ((hxs.append hys).trans (.of_eq (List.take_append_drop _ _)))
  unfold sortHalves at h
  split at h
  · exact .of_eq (Option.some.inj h).symm
  · split at h
    · exact hhalves (insertionSort_perm _) (insertionSort_perm _) h
    · exact hhalves (sortHalf_perm _) (sortHalf_perm _) h

/-! ## Runs -/

/-- A run takes elements off the front. -/
theorem nextRun_perm {eager : Bool} {good n : Nat} {run : Run α} {l : List α} (hgood : 0 < good)
    (h : nextRun less eager good l = (n, some run)) : 0 < n ∧ run.items.Perm (l.take n) := by
  dsimp only [nextRun] at h
  generalize existingRun less l = existing at h
  obtain ⟨m, falling⟩ := existing
  split at h
  · rename_i hlong
    obtain ⟨rfl, rfl⟩ := by simpa using h
    refine ⟨by omega, ?_⟩
    cases falling
    · exact .refl _
    · exact List.reverse_perm _
  · split at h
    · obtain ⟨rfl, s, hsort, rfl⟩ := by simpa using h
      exact ⟨by decide, sortHalves_perm hsort⟩
    · obtain ⟨rfl, rfl⟩ := by simpa using h
      exact ⟨hgood, .refl _⟩

theorem runs_perm {eager : Bool} {good : Nat} (hgood : 0 < good) {l : List α} {rs : List (Run α)}
    (h : runs less eager good l = some rs) : (rs.flatMap Run.items).Perm l := by
  induction l using runs.induct less eager good generalizing rs with
  | case1 =>
      rw [runs] at h
      obtain rfl := Option.some.inj h
      exact .refl _
  | case2 x xs n run hnext ih =>
      rw [runs, hnext] at h
      obtain ⟨first, rfl, hbind⟩ := Option.bind_eq_some_iff.mp h
      obtain ⟨rest, hrest, hcons⟩ := Option.bind_eq_some_iff.mp hbind
      obtain rfl := Option.some.inj hcons
      obtain ⟨hpos, hfirst⟩ := nextRun_perm hgood hnext
      obtain ⟨m, rfl⟩ := Nat.exists_eq_add_of_lt hpos
      refine (hfirst.append (ih hrest)).trans (.of_eq ?_)
      rw [show 0 + m + 1 - 1 = m by omega, show 0 + m + 1 = m + 1 by omega, List.take_succ_cons,
        List.cons_append, List.take_append_drop]

section Merging

variable {room : Nat} {quick : List α → Option (List α)}

theorem settle_perm (hquick : ∀ {l s}, quick l = some s → s.Perm l) {r : Run α} {s : List α}
    (h : r.settle quick = some s) : s.Perm r.items := by
  unfold Run.settle at h
  split at h
  · exact .of_eq (Option.some.inj h).symm
  · exact hquick h

theorem join_perm (hquick : ∀ {l s}, quick l = some s → s.Perm l) {left right joined : Run α}
    (h : join less room quick left right = some joined) :
    joined.items.Perm (left.items ++ right.items) := by
  unfold join at h
  split at h
  · obtain rfl := Option.some.inj h
    exact .refl _
  · obtain ⟨xs, hxs, h⟩ := Option.bind_eq_some_iff.mp h
    obtain ⟨ys, hys, h⟩ := Option.bind_eq_some_iff.mp h
    obtain rfl := Option.some.inj h
    exact (mergeSorted_perm xs ys).trans ((settle_perm hquick hxs).append (settle_perm hquick hys))

/-- The elements of the runs that wait, the last run first. -/
def waitingItems (waiting : List (Run α × Nat)) : List α :=
  waiting.reverse.flatMap fun w => w.1.items

@[simp] theorem waitingItems_cons (w : Run α × Nat) (waiting : List (Run α × Nat)) :
    waitingItems (w :: waiting) = waitingItems waiting ++ w.1.items := by
  simp [waitingItems]

theorem collapse_perm (hquick : ∀ {l s}, quick l = some s → s.Perm l) {depth : Nat}
    {waiting left : List (Run α × Nat)} {run joined : Run α}
    (h : collapse less room quick depth run waiting = some (joined, left)) :
    (waitingItems left ++ joined.items).Perm (waitingItems waiting ++ run.items) := by
  induction waiting generalizing run with
  | nil =>
      obtain ⟨rfl, rfl⟩ := Prod.mk.inj (Option.some.inj h)
      exact .refl _
  | cons w waiting ih =>
      rw [collapse] at h
      split at h
      · obtain ⟨both, hboth, h⟩ := Option.bind_eq_some_iff.mp h
        refine (ih h).trans (((join_perm hquick hboth).append_left _).trans ?_)
        rw [waitingItems_cons, List.append_assoc]
      · obtain ⟨rfl, rfl⟩ := Prod.mk.inj (Option.some.inj h)
        exact .refl _

/-- Nothing waits above the whole. -/
theorem collapse_zero {waiting left : List (Run α × Nat)} {run joined : Run α}
    (h : collapse less room quick 0 run waiting = some (joined, left)) : left = [] := by
  induction waiting generalizing run with
  | nil => exact (Prod.mk.inj (Option.some.inj h)).2.symm
  | cons w waiting ih =>
      rw [collapse, if_pos (Nat.zero_le _)] at h
      obtain ⟨both, -, h⟩ := Option.bind_eq_some_iff.mp h
      exact ih h

theorem joinAll_perm (hquick : ∀ {l s}, quick l = some s → s.Perm l) {len start : Nat}
    {waiting : List (Run α × Nat)} {last whole : Run α} {rs : List (Run α)}
    (h : joinAll less room quick len waiting start last rs = some whole) :
    whole.items.Perm (waitingItems waiting ++ last.items ++ rs.flatMap Run.items) := by
  induction rs generalizing waiting start last with
  | nil =>
      obtain ⟨⟨joined, left⟩, hcollapse, rfl⟩ := Option.map_eq_some_iff.mp h
      obtain rfl := collapse_zero hcollapse
      simpa [waitingItems] using collapse_perm hquick hcollapse
  | cons next rest ih =>
      rw [joinAll] at h
      obtain ⟨⟨joined, left⟩, hcollapse, h⟩ := Option.bind_eq_some_iff.mp h
      have hrest := (collapse_perm hquick hcollapse).append_right (next.items ++ rest.flatMap Run.items)
      refine (ih h).trans ?_
      simpa using hrest

theorem goodLength_pos {len : Nat} (h : 0 < len) : 0 < goodLength len := by
  unfold goodLength
  split
  · omega
  · rename_i hlong
    dsimp only
    generalize (1 + (len ||| 1).log2) / 2 = shift
    rw [Nat.one_shiftLeft, Nat.shiftRight_eq_div_pow]
    have hpos : 0 < 2 ^ shift := Nat.two_pow_pos shift
    by_cases hone : 2 ^ shift = 1
    · rw [hone, Nat.div_one]
      omega
    · generalize len / 2 ^ shift = quotient
      omega

theorem sortRuns_perm (hquick : ∀ {l s}, quick l = some s → s.Perm l) {eager : Bool}
    {l s : List α} (h : sortRuns less room quick eager l = some s) : s.Perm l := by
  cases hl : l with
  | nil =>
      subst hl
      rw [sortRuns, runs] at h
      exact .of_eq (Option.some.inj h).symm
  | cons x xs =>
      rw [← hl]
      have hgood : 0 < goodLength l.length := goodLength_pos (by simp [hl])
      obtain ⟨rs, hruns, h⟩ := Option.bind_eq_some_iff.mp h
      have hperm := runs_perm hgood hruns
      split at h
      · obtain rfl := Option.some.inj h
        exact hperm
      · obtain ⟨whole, hwhole, h⟩ := Option.bind_eq_some_iff.mp h
        exact ((settle_perm hquick h).trans (joinAll_perm hquick hwhole)).trans hperm

end Merging

/-! ## Partitioning -/

theorem sortEagerly_perm {l s : List α} (h : sortEagerly less l = some s) : s.Perm l := by
  refine sortRuns_perm ?_ h
  intro l s h
  obtain rfl := Option.some.inj h
  exact insertionSort_perm l

theorem quicksort_perm {limit : Nat} {before : Option α} {l s : List α}
    (h : quicksort less limit before l = some s) : s.Perm l := by
  revert s
  fun_induction quicksort less limit before l with
  | case1 =>
      intro s h
      exact .of_eq (Option.some.inj h).symm
  | case2 | case4 =>
      intro s h
      exact sortHalves_perm h
  | case3 =>
      intro s h
      exact sortEagerly_perm h
  | case5 limit before first rest l hlong p lower hequal =>
      rename_i ih
      intro s h
      obtain ⟨greater, hgreater, h⟩ := Option.bind_eq_some_iff.mp h
      obtain rfl := Option.some.inj h
      have hsplit := List.filter_append_perm (fun x => !less p x) l
      simp only [Bool.not_not] at hsplit
      exact ((ih hgreater).append_left _).trans hsplit
  | case6 limit before first rest l hlong p lower hequal ihGreater =>
      rename_i ihLower
      intro s h
      obtain ⟨greater, hgreater, h⟩ := Option.bind_eq_some_iff.mp h
      obtain ⟨least, hlower, h⟩ := Option.bind_eq_some_iff.mp h
      obtain rfl := Option.some.inj h
      exact ((ihLower hlower).append (ihGreater hgreater)).trans (List.filter_append_perm _ l)

theorem quick_perm {l s : List α} (h : quick less l = some s) : s.Perm l :=
  quicksort_perm h

/-- A sort that does not give up rearranges the list. -/
theorem sort_perm {l s : List α} (h : sort less l = some s) : s.Perm l := by
  unfold sort at h
  split at h
  · obtain rfl := Option.some.inj h
    exact insertionSort_perm l
  · exact sortRuns_perm quick_perm h

end AppServer.Sorting
