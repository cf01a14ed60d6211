import AppServer.Sorting.Small

/-!
# Sorting

A long list is cut into runs: stretches that are in order already, and stretches that are left
unsorted. Runs are merged in the order of a tree that is nearly balanced. What is unsorted is
partitioned around pivots until it is short.

Every list whose elements are compared by a total order is sorted, and elements that tie keep their
order. Where the comparison is no such order the sort may give up, or else leave the elements in any
order, those that tie included.
-/

namespace AppServer.Sorting

variable {α : Type} (less : α → α → Bool)

/-! ## Runs -/

/-- A stretch of a list, in order or left unsorted. -/
structure Run (α : Type) where
  items : List α
  sorted : Bool

/-- How many elements behind `x` go on in the same direction. -/
def streak (falling : Bool) : α → List α → Nat
  | x, y :: ys => if less y x == falling then streak falling y ys + 1 else 0
  | _, [] => 0

/-- How many elements at the head of a list fall from each to the next, or else never fall. -/
def existingRun : List α → Nat × Bool
  | x :: y :: ys =>
    let falling := less y x
    (streak less falling x (y :: ys) + 1, falling)
  | l => (l.length, false)

/-- The next run and how many elements it takes: those in order if they are `good` many, or else a
short stretch, which an eager sort sorts at once. -/
def nextRun (eager : Bool) (good : Nat) (l : List α) : Nat × Option (Run α) :=
  let (n, falling) := existingRun less l
  if good ≤ n then (n, some ⟨if falling then (l.take n).reverse else l.take n, true⟩)
  else if eager then (32, (sortHalves less (l.take 32)).map fun s => ⟨s, true⟩)
  else (good, some ⟨l.take good, false⟩)

/-- Cuts a list into runs. -/
def runs (eager : Bool) (good : Nat) : List α → Option (List (Run α))
  | [] => some []
  | x :: xs => do
    let (n, run) := nextRun less eager good (x :: xs)
    let first ← run
    let rest ← runs eager good (xs.drop (n - 1))
    return first :: rest
termination_by l => l.length
decreasing_by
  simp only [List.length_drop, List.length_cons]
  omega

/-! ## Merging runs -/

section Merging

variable (room : Nat) (quick : List α → Option (List α))

/-- Sorts a run if it was left unsorted. -/
def Run.settle (r : Run α) : Option (List α) :=
  if r.sorted then some r.items else quick r.items

/-- Merges two sorted lists; the shorter one is moved out of the way. -/
def mergeSorted (xs ys : List α) : List α :=
  if xs.length ≤ ys.length then merge less xs ys else mergeBack less xs ys

/-- Joins two runs. Unsorted ones stay unsorted as long as there is room to sort them together. -/
def join (left right : Run α) : Option (Run α) :=
  if left.items.length + right.items.length ≤ room && !left.sorted && !right.sorted then
    some ⟨left.items ++ right.items, false⟩
  else do
    let xs ← left.settle quick
    let ys ← right.settle quick
    return ⟨mergeSorted less xs ys, true⟩

/-- Joins a run with the runs that wait before it, the last of them first, as long as these lie at
least as deep in the tree. -/
def collapse (depth : Nat) (run : Run α) :
    List (Run α × Nat) → Option (Run α × List (Run α × Nat))
  | [] => some (run, [])
  | (left, d) :: waiting =>
    if depth ≤ d then do
      let joined ← join less room quick left run
      collapse depth joined waiting
    else some (run, (left, d) :: waiting)

/-- The number of leading zeros of a word. -/
def leadingZeros (n : Nat) : Nat :=
  64 - (if n = 0 then 0 else n.log2 + 1)

/-- How deep in the tree a list of `len` elements is cut at `mid`, between stretches that begin at
`start` and end at `stop`. -/
def cutDepth (len start mid stop : Nat) : Nat :=
  let scale := ((1 <<< 62) + len - 1) / len
  leadingZeros (scale * (start + mid) ^^^ scale * (mid + stop))

/-- Joins all runs. -/
def joinAll (len : Nat) (waiting : List (Run α × Nat)) (start : Nat) (last : Run α) :
    List (Run α) → Option (Run α)
  | [] => (collapse less room quick 0 last waiting).map (·.1)
  | next :: rest => do
    let mid := start + last.items.length
    let depth := cutDepth len start mid (mid + next.items.length)
    let (joined, waiting) ← collapse less room quick depth last waiting
    joinAll len ((joined, depth) :: waiting) mid next rest

/-- How long a run must be to be taken as it is. -/
def goodLength (len : Nat) : Nat :=
  if len ≤ 64 * 64 then min (len - len / 2) 64
  else
    let shift := (1 + (len ||| 1).log2) / 2
    ((1 <<< shift) + (len >>> shift)) / 2

/-- Sorts by runs. -/
def sortRuns (eager : Bool) (l : List α) : Option (List α) := do
  match ← runs less eager (goodLength l.length) l with
  | [] => return []
  | first :: rest =>
    let whole ← joinAll less room quick l.length [] 0 first rest
    whole.settle quick

end Merging

/-! ## Partitioning -/

/-- The one of three elements that lies between the others. -/
def median (a b c : α) : α :=
  let below := less a b
  if below == less a c then
    if less b c ^^ below then c else b
  else a

/-- The median of the first, the fifth and the eighth of eight stretches of `n` elements from `i`
on; each stands for itself by its first element, or if it is long by such a median of its own. -/
def medianOf (nth : Nat → α) (n i : Nat) : α :=
  if n < 8 then median less (nth i) (nth (i + 4 * n)) (nth (i + 7 * n))
  else
    median less (medianOf nth (n / 8) i) (medianOf nth (n / 8) (i + 4 * n))
      (medianOf nth (n / 8) (i + 7 * n))

/-- The element that a list is partitioned around. -/
def pivot (first : α) (l : List α) : α :=
  medianOf less (fun i => l.getD i first) (l.length / 8) 0

/-- Sorts by runs that are all sorted at once, so that none is left to be sorted later. -/
def sortEagerly (l : List α) : Option (List α) :=
  sortRuns less l.length (fun l => some (insertionSort less l)) true l

/-- Partitions a list until it is short, or `limit` times. If the pivot is no greater than the one to
the left of the list, or than any element, those that equal it are in place. -/
def quicksort : Nat → Option α → List α → Option (List α)
  | _, _, [] => some []
  | 0, _, l => if l.length ≤ 32 then sortHalves less l else sortEagerly less l
  | limit + 1, before, first :: rest =>
    let l := first :: rest
    if l.length ≤ 32 then sortHalves less l
    else
      let p := pivot less first l
      let lower := l.filter (less · p)
      if before.any (!less · p) || lower.isEmpty then do
        let greater ← quicksort limit none (l.filter (less p ·))
        return l.filter (!less p ·) ++ greater
      else do
        let greater ← quicksort limit (some p) (l.filter (!less · p))
        let lower ← quicksort limit before lower
        return lower ++ greater

/-- Sorts what is unsorted, with a limit on partitions that are out of balance. -/
def quick (l : List α) : Option (List α) :=
  quicksort less (2 * (l.length ||| 1).log2) none l

/-- How many elements of 56 bytes a buffer of 8 MB holds. -/
def fullBuffer : Nat := 8000000 / 56

/-- Sorts a list, or gives up. -/
def sort (l : List α) : Option (List α) :=
  if l.length ≤ 20 then some (insertionSort less l)
  else
    let room := max (l.length - l.length / 2) (min l.length fullBuffer)
    sortRuns less room (quick less) (l.length ≤ 64) l

end AppServer.Sorting
