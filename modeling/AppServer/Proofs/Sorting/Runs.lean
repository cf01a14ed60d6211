import AppServer.Proofs.Sorting.Halves
import Mathlib.Data.List.Chain

/-!
# Sorting by runs

Where elements are compared by their keys no sort gives up: every run stands for the stretch of the
list that it was cut from, sorted or as it was, and so does what runs are joined to. What is found
is the list that insertion would have found.
-/

namespace AppServer.Sorting

variable {α : Type} {less : α → α → Bool} {P : α → Prop} {key : α → Int} {l m : List α}

/-- The run stands for `l`, whose elements are compared by their keys. -/
structure Run.Covers (P : α → Prop) (key : α → Int) (l : List α) (r : Run α) : Prop where
  members : ∀ a ∈ l, P a
  sorted : r.sorted = true → Stable key l r.items
  unsorted : r.sorted = false → r.items = l

/-- Runs one after the other. -/
inductive Covered (P : α → Prop) (key : α → Int) : List α → List (Run α) → Prop
  | nil : Covered P key [] []
  | cons {l m : List α} {r : Run α} {rs : List (Run α)} (first : r.Covers P key l)
      (rest : Covered P key m rs) : Covered P key (l ++ m) (r :: rs)

/-- Runs that wait, the last one first. -/
inductive Waiting (P : α → Prop) (key : α → Int) : List α → List (Run α × Nat) → Prop
  | nil : Waiting P key [] []
  | cons {l m : List α} {r : Run α} {depth : Nat} {rs : List (Run α × Nat)} (last : r.Covers P key m)
      (before : Waiting P key l rs) : Waiting P key (l ++ m) ((r, depth) :: rs)

/-! ## Cutting into runs -/

/-- Elements that go on in one direction fall from each to the next, or else never fall. -/
theorem chain_take_streak (falling : Bool) (x : α) (l : List α) :
    ((x :: l).take (streak less falling x l + 1)).IsChain fun a b => less b a = falling := by
  induction l generalizing x with
  | nil => simp
  | cons y ys ih =>
      rw [streak]
      split
      · rename_i hstep
        rw [List.take_succ_cons, List.take_succ_cons, List.isChain_cons_cons]
        exact ⟨beq_iff_eq.mp hstep, by simpa using ih y⟩
      · simp

variable (less) in
theorem chain_take_existingRun (l : List α) :
    (l.take (existingRun less l).1).IsChain fun a b => less b a = (existingRun less l).2 := by
  match l with
  | [] => exact .nil
  | [x] => exact .singleton x
  | x :: y :: ys => exact chain_take_streak _ x (y :: ys)

variable (less) in
theorem existingRun_pos (h : l ≠ []) : 0 < (existingRun less l).1 := by
  match l, h with
  | [x], _ => exact Nat.one_pos
  | x :: y :: ys, _ => exact Nat.succ_pos _

/-- A list that falls is sorted in reverse. -/
theorem Stable.reverse_of_falling (h : l.Pairwise fun a b => key b < key a) :
    Stable key l l.reverse := by
  refine ⟨List.pairwise_reverse.mpr (h.imp Int.le_of_lt), fun k => ?_⟩
  -- no two elements have the same key
  rw [List.filter_reverse]
  have hkeys := h.filter (key · == k)
  match hf : l.filter (key · == k) with
  | [] => rfl
  | [a] => rfl
  | a :: b :: rest =>
      rw [hf] at hkeys
      have hmem : ∀ c ∈ a :: b :: rest, key c = k := by
        intro c hc
        rw [← hf] at hc
        exact beq_iff_eq.mp (List.mem_filter.mp hc).2
      have hlt := List.rel_of_pairwise_cons hkeys List.mem_cons_self
      rw [hmem a (by simp), hmem b (by simp)] at hlt
      exact absurd hlt (Int.lt_irrefl k)

/-- A run that is there already is sorted, once it is turned round if it falls. -/
theorem stable_existingRun (hless : Keyed less P key) (hl : ∀ a ∈ l, P a) :
    Stable key (l.take (existingRun less l).1)
      (if (existingRun less l).2 then (l.take (existingRun less l).1).reverse
        else l.take (existingRun less l).1) := by
  have hchain := chain_take_existingRun less l
  have hP : ∀ a ∈ l.take (existingRun less l).1, P a := fun a ha => hl a (List.mem_of_mem_take ha)
  split
  · rename_i hfalling
    have hkeys : (l.take (existingRun less l).1).IsChain fun a b => key b < key a :=
      hchain.imp_of_mem_imp fun a b ha hb h => (hless _ _ (hP b hb) (hP a ha)).mp (h.trans hfalling)
    have : Trans (fun a b : α => key b < key a) (fun a b => key b < key a)
        (fun a b => key b < key a) := ⟨fun h h' => Int.lt_trans h' h⟩
    exact .reverse_of_falling (List.isChain_iff_pairwise.mp hkeys)
  · rename_i hfalling
    have hkeys : (l.take (existingRun less l).1).IsChain fun a b => key a ≤ key b :=
      hchain.imp_of_mem_imp fun a b ha hb h =>
        (hless.not_less (hP b hb) (hP a ha)).mp (h.trans (Bool.eq_false_iff.mpr hfalling))
    have : Trans (fun a b : α => key a ≤ key b) (fun a b => key a ≤ key b)
        (fun a b => key a ≤ key b) := ⟨Int.le_trans⟩
    exact .of_ordered (List.isChain_iff_pairwise.mp hkeys)

theorem exists_nextRun (hless : Keyed less P key) (eager : Bool) {good : Nat} (hgood : 0 < good)
    (hl : ∀ a ∈ l, P a) (hne : l ≠ []) :
    ∃ n r, nextRun less eager good l = (n, some r) ∧ 0 < n ∧ r.Covers P key (l.take n) := by
  have htake : ∀ n, ∀ a ∈ l.take n, P a := fun n a ha => hl a (List.mem_of_mem_take ha)
  have hpos := existingRun_pos less hne
  have hrun := stable_existingRun hless hl
  dsimp only [nextRun]
  generalize existingRun less l = existing at *
  obtain ⟨n, falling⟩ := existing
  dsimp only at *
  split
  · exact ⟨n, _, rfl, hpos, ⟨htake n, fun _ => hrun, (nomatch ·)⟩⟩
  · split
    · obtain ⟨s, hs, hstable⟩ := exists_sortHalves hless (htake 32)
      rw [hs]
      exact ⟨32, _, rfl, by decide, ⟨htake 32, fun _ => hstable, (nomatch ·)⟩⟩
    · exact ⟨good, _, rfl, hgood, ⟨htake good, (nomatch ·), fun _ => rfl⟩⟩

theorem exists_runs (hless : Keyed less P key) (eager : Bool) {good : Nat} (hgood : 0 < good)
    (hl : ∀ a ∈ l, P a) : ∃ rs, runs less eager good l = some rs ∧ Covered P key l rs := by
  induction l using runs.induct less eager good with
  | case1 => exact ⟨[], by rw [runs], .nil⟩
  | case2 x xs n run hnext ih =>
      obtain ⟨m, first, hfirst, hpos, hcovers⟩ := exists_nextRun hless eager hgood hl
        (List.cons_ne_nil x xs)
      rw [hnext] at hfirst
      obtain ⟨rfl, rfl⟩ := Prod.mk.inj hfirst
      obtain ⟨rest, hrest, hcovered⟩ :=
        ih fun a ha => hl a (List.mem_cons_of_mem x (List.mem_of_mem_drop ha))
      refine ⟨first :: rest, ?_, ?_⟩
      · rw [runs, hnext]
        simp [hrest]
      · have hboth := Covered.cons hcovers hcovered
        obtain ⟨k, rfl⟩ := Nat.exists_eq_add_of_lt hpos
        rwa [show 0 + k + 1 - 1 = k by omega, show 0 + k + 1 = k + 1 by omega, List.take_succ_cons,
          List.cons_append, List.take_append_drop] at hboth

/-! ## Joining runs -/

/-- Whatever is compared by its key is sorted. -/
def Sorts (P : α → Prop) (key : α → Int) (quick : List α → Option (List α)) : Prop :=
  ∀ l, (∀ a ∈ l, P a) → ∃ s, quick l = some s ∧ Stable key l s

section Joining

variable (room : Nat) {quick : List α → Option (List α)} (hless : Keyed less P key)
  (hquick : Sorts P key quick)
include hquick

theorem Run.Covers.exists_settle {r : Run α} (h : r.Covers P key l) :
    ∃ s, r.settle quick = some s ∧ Stable key l s := by
  unfold Run.settle
  cases hsorted : r.sorted
  · obtain ⟨s, hs, hstable⟩ := hquick l h.members
    exact ⟨s, by simpa [h.unsorted hsorted] using hs, hstable⟩
  · exact ⟨r.items, rfl, h.sorted hsorted⟩

include hless

theorem exists_join {left right : Run α} (h : left.Covers P key l) (h' : right.Covers P key m) :
    ∃ joined, join less room quick left right = some joined ∧ joined.Covers P key (l ++ m) := by
  have hmembers : ∀ a ∈ l ++ m, P a := by
    intro a ha
    exact (List.mem_append.mp ha).elim (h.members a) (h'.members a)
  unfold join
  split
  · rename_i hlazy
    simp only [Bool.and_eq_true, Bool.not_eq_true'] at hlazy
    refine ⟨_, rfl, ⟨hmembers, (nomatch ·), fun _ => ?_⟩⟩
    rw [h.unsorted hlazy.1.2, h'.unsorted hlazy.2]
  · obtain ⟨s, hs, hstable⟩ := h.exists_settle hquick
    obtain ⟨t, ht, hstable'⟩ := h'.exists_settle hquick
    refine ⟨⟨mergeSorted less s t, true⟩, by simp [hs, ht], ⟨hmembers, fun _ => ?_, (nomatch ·)⟩⟩
    exact hstable.mergeSorted hless h.members h'.members hstable'

theorem exists_collapse (depth : Nat) {run : Run α} {waiting : List (Run α × Nat)}
    (hwaiting : Waiting P key l waiting) (hrun : run.Covers P key m) :
    ∃ joined left, collapse less room quick depth run waiting = some (joined, left) ∧
      ∃ l' m', Waiting P key l' left ∧ joined.Covers P key m' ∧ l' ++ m' = l ++ m := by
  induction hwaiting generalizing run m with
  | nil => exact ⟨run, [], rfl, [], m, .nil, hrun, rfl⟩
  | @cons l n last d before hlast hbefore ih =>
      rw [collapse]
      split
      · obtain ⟨both, hboth, hcovers⟩ := exists_join room hless hquick hlast hrun
        obtain ⟨joined, left, hcollapse, l', m', hl', hm', hall⟩ := ih hcovers
        refine ⟨joined, left, by simp [hboth, hcollapse], l', m', hl', hm', ?_⟩
        rw [hall, List.append_assoc]
      · exact ⟨run, _, rfl, l ++ n, m, .cons hlast hbefore, hrun, rfl⟩

theorem exists_joinAll (len start : Nat) {last : Run α} {waiting : List (Run α × Nat)}
    {rs : List (Run α)} {k : List α} (hwaiting : Waiting P key l waiting)
    (hlast : last.Covers P key m) (hrs : Covered P key k rs) :
    ∃ whole, joinAll less room quick len waiting start last rs = some whole ∧
      whole.Covers P key (l ++ m ++ k) := by
  induction hrs generalizing l m start last waiting with
  | nil =>
      obtain ⟨joined, left, hcollapse, l', m', hl', hm', hall⟩ :=
        exists_collapse room hless hquick 0 hwaiting hlast
      obtain rfl := collapse_zero hcollapse
      cases hl'
      refine ⟨joined, by simp [joinAll, hcollapse], ?_⟩
      rwa [List.append_nil, ← hall]
  | cons hnext hrest ih =>
      rw [joinAll]
      obtain ⟨joined, left, hcollapse, l', m', hl', hm', hall⟩ :=
        exists_collapse room hless hquick _ hwaiting hlast
      obtain ⟨whole, hwhole, hcovers⟩ := ih _ (.cons hm' hl') hnext
      refine ⟨whole, Option.bind_eq_some_iff.mpr ⟨(joined, left), hcollapse, hwhole⟩, ?_⟩
      rwa [hall, List.append_assoc] at hcovers

/-- Sorting by runs finds the sorted list. -/
theorem sorts_sortRuns (eager : Bool) : Sorts P key (sortRuns less room quick eager) := by
  intro l hl
  unfold sortRuns
  cases hempty : l with
  | nil => exact ⟨[], by simp [runs], .of_ordered .nil⟩
  | cons x xs =>
      rw [← hempty]
      have hgood : 0 < goodLength l.length := goodLength_pos (by simp [hempty])
      obtain ⟨rs, hruns, hcovered⟩ := exists_runs hless eager hgood hl
      cases hcovered with
      | nil => exact absurd hempty (by simp)
      | cons hfirst hrest =>
          obtain ⟨whole, hwhole, hcovers⟩ := exists_joinAll room hless hquick _ 0 .nil hfirst hrest
          obtain ⟨s, hs, hstable⟩ := hcovers.exists_settle hquick
          refine ⟨s, Option.bind_eq_some_iff.mpr ⟨_, hruns, ?_⟩, hstable⟩
          exact Option.bind_eq_some_iff.mpr ⟨whole, hwhole, hs⟩

end Joining

/-! ## Partitioning -/

theorem median_mem {a b c : α} (ha : a ∈ l) (hb : b ∈ l) (hc : c ∈ l) : median less a b c ∈ l := by
  dsimp only [median]
  split
  · split
    · exact hc
    · exact hb
  · exact ha

theorem medianOf_mem {nth : Nat → α} (hnth : ∀ i, nth i ∈ l) (n i : Nat) :
    medianOf less nth n i ∈ l := by
  fun_induction medianOf less nth n i with
  | case1 n i => exact median_mem (hnth _) (hnth _) (hnth _)
  | case2 n i hlong ih₁ ih₂ ih₃ => exact median_mem ih₁ ih₂ ih₃

theorem pivot_mem {first : α} (hfirst : first ∈ l) : pivot less first l ∈ l := by
  refine medianOf_mem (fun i => ?_) _ _
  rw [List.getD_eq_getElem?_getD]
  cases hi : l[i]? with
  | none => exact hfirst
  | some a => exact List.mem_of_getElem? hi

theorem sorts_sortEagerly (hless : Keyed less P key) : Sorts P key (sortEagerly less) :=
  fun l hl => sorts_sortRuns l.length hless
    (fun _ hm => ⟨_, rfl, stable_insertionSort hless hm⟩) true l hl

/-- The elements equal to a pivot that none is less than are in place. -/
theorem stable_partition_equal (hless : Keyed less P key) (hl : ∀ a ∈ l, P a) {p : α} (hp : P p)
    (hleast : ∀ a ∈ l, key p ≤ key a) {greater : List α}
    (h : Stable key (l.filter (less p ·)) greater) :
    Stable key l (l.filter (!less p ·) ++ greater) := by
  have hkeys : ∀ a ∈ l.filter (!less p ·), key a = key p := by
    intro a ha
    obtain ⟨ha, hnot⟩ := List.mem_filter.mp ha
    rw [Bool.not_eq_true'] at hnot
    exact Int.le_antisymm ((hless.not_less hp (hl a ha)).mp hnot) (hleast a ha)
  refine Stable.append_split ?_ (.of_ordered ?_) (by simpa only [Bool.not_not] using h) ?_
  · intro a ha b hb hkey
    rw [Bool.not_inj_iff, Bool.eq_iff_iff, hless _ _ hp (hl a ha), hless _ _ hp (hl b hb), hkey]
  · exact List.pairwise_of_forall_mem_list fun a ha b hb =>
      Int.le_of_eq ((hkeys a ha).trans (hkeys b hb).symm)
  · intro a ha b hb
    rw [hkeys a ha]
    exact hleast b (List.mem_filter.mp ((h.mem_iff b).mp hb)).1

theorem stable_partition (hless : Keyed less P key) (hl : ∀ a ∈ l, P a) {p : α} (hp : P p)
    {lower greater : List α} (h : Stable key (l.filter (less · p)) lower)
    (h' : Stable key (l.filter (!less · p)) greater) : Stable key l (lower ++ greater) := by
  refine Stable.append_split ?_ h h' ?_
  · intro a ha b hb hkey
    rw [Bool.eq_iff_iff, hless _ _ (hl a ha) hp, hless _ _ (hl b hb) hp, hkey]
  · intro a ha b hb
    obtain ⟨ha, hlt⟩ := List.mem_filter.mp ((h.mem_iff a).mp ha)
    obtain ⟨hb, hnot⟩ := List.mem_filter.mp ((h'.mem_iff b).mp hb)
    rw [Bool.not_eq_true'] at hnot
    exact Int.le_trans (Int.le_of_lt ((hless _ _ (hl a ha) hp).mp hlt))
      ((hless.not_less (hl b hb) hp).mp hnot)

/-- Partitioning sorts, if no element is less than the pivot to the left of the list. -/
theorem exists_quicksort (hless : Keyed less P key) (limit : Nat) (before : Option α)
    (hl : ∀ a ∈ l, P a) (hbefore : ∀ p ∈ before, P p ∧ ∀ a ∈ l, key p ≤ key a) :
    ∃ s, quicksort less limit before l = some s ∧ Stable key l s := by
  fun_induction quicksort less limit before l with
  | case1 => exact ⟨[], rfl, .of_ordered .nil⟩
  | case2 | case4 => exact exists_sortHalves hless hl
  | case3 => exact sorts_sortEagerly hless _ hl
  | case5 limit before first rest l hlong p lower hequal =>
      rename_i ih
      have hp : P p := hl p (pivot_mem List.mem_cons_self)
      have hleast : ∀ a ∈ l, key p ≤ key a := by
        intro a ha
        rcases Bool.or_eq_true_iff.mp hequal with hany | hnone
        · obtain ⟨q, rfl, hqp⟩ := (Option.any_eq_true _ _).mp hany
          obtain ⟨hq, hleast⟩ := hbefore q rfl
          have hpq := (hless.not_less hq hp).mp (by simpa using hqp)
          exact Int.le_trans hpq (hleast a ha)
        · have hnot := List.filter_eq_nil_iff.mp (List.isEmpty_iff.mp hnone) a ha
          exact (hless.not_less (hl a ha) hp).mp (Bool.eq_false_iff.mpr hnot)
      obtain ⟨greater, hgreater, hstable⟩ := ih
        (fun a ha => hl a (List.mem_filter.mp ha).1) (by simp)
      refine ⟨_, Option.bind_eq_some_iff.mpr ⟨greater, hgreater, rfl⟩, ?_⟩
      exact stable_partition_equal hless hl hp hleast hstable
  | case6 limit before first rest l hlong p lower hdistinct ihGreater =>
      rename_i ihLower
      have hp : P p := hl p (pivot_mem List.mem_cons_self)
      obtain ⟨greater, hgreater, hstable⟩ := ihGreater
        (fun a ha => hl a (List.mem_filter.mp ha).1) (by
          rintro q hq
          obtain rfl := Option.some.inj hq
          refine ⟨hp, fun a ha => ?_⟩
          obtain ⟨ha, hnot⟩ := List.mem_filter.mp ha
          exact (hless.not_less (hl a ha) hp).mp (by simpa using hnot))
      obtain ⟨least, hleast, hstable'⟩ := ihLower
        (fun a ha => hl a (List.mem_filter.mp ha).1) fun q hq =>
          ⟨(hbefore q hq).1, fun a ha => (hbefore q hq).2 a (List.mem_filter.mp ha).1⟩
      refine ⟨_, Option.bind_eq_some_iff.mpr
        ⟨greater, hgreater, Option.bind_eq_some_iff.mpr ⟨least, hleast, rfl⟩⟩, ?_⟩
      exact stable_partition hless hl hp hstable' hstable

theorem sorts_quick (hless : Keyed less P key) : Sorts P key (quick less) :=
  fun _ hl => exists_quicksort hless _ none hl (by simp)

/-- A list whose elements are compared by their keys is sorted as by insertion. -/
theorem sort_eq_insertionSort (hless : Keyed less P key) (hl : ∀ a ∈ l, P a) :
    sort less l = some (insertionSort less l) := by
  unfold sort
  split
  · rfl
  · obtain ⟨s, hs, hstable⟩ := sorts_sortRuns
      (max (l.length - l.length / 2) (min l.length fullBuffer)) hless (sorts_quick hless)
      (decide (l.length ≤ 64)) l hl
    rw [hs, hstable.unique (stable_insertionSort hless hl)]

/-- A short list is sorted by insertion, whatever its elements are compared by. -/
theorem sort_eq_insertionSort_of_length_le (h : l.length ≤ 20) :
    sort less l = some (insertionSort less l) :=
  if_pos h

/-! ## Lists of middling length -/

theorem runs_of_short {good : Nat} (h0 : l ≠ []) (h32 : l.length ≤ 32)
    (hrun : (existingRun less l).1 < good) :
    runs less true good l = (sortHalves less l).map fun s => [⟨s, true⟩] := by
  obtain ⟨x, xs, rfl⟩ := List.exists_cons_of_ne_nil h0
  have hnext : nextRun less true good (x :: xs) =
      (32, (sortHalves less (x :: xs)).map fun s => ⟨s, true⟩) := by
    unfold nextRun
    rcases hexisting : existingRun less (x :: xs) with ⟨n, falling⟩
    rw [hexisting] at hrun
    rw [List.take_of_length_le h32]
    exact (if_neg (Nat.not_le.mpr hrun)).trans (if_pos rfl)
  have hdrop : xs.drop (32 - 1) = [] := by
    rw [List.drop_eq_nil_iff]
    rw [List.length_cons] at h32
    omega
  rw [runs, hnext]
  simp only [hdrop]
  cases sortHalves less (x :: xs) with
  | none => rfl
  | some s => simp [runs]

/-- A list of middling length that does not begin with a long run is cut in half. -/
theorem sort_eq_sortHalves (h20 : 20 < l.length) (h32 : l.length ≤ 32)
    (hrun : (existingRun less l).1 < goodLength l.length) : sort less l = sortHalves less l := by
  have h0 : l ≠ [] := List.ne_nil_of_length_pos (by omega)
  have h64 : decide (l.length ≤ 64) = true := by
    rw [decide_eq_true_eq]
    omega
  unfold sort sortRuns
  rw [if_neg (by omega), h64, runs_of_short h0 h32 hrun]
  cases sortHalves less l with
  | none => rfl
  | some s => rfl

end AppServer.Sorting
