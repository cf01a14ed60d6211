/-!
# Sorting short lists

A short list is sorted by insertion. A list of middling length is cut in half, the halves are
sorted, and they are merged from both ends at once, as many steps from either end. The two ends
meet when the order is total; where they do not, the sort gives up.

Elements are compared by `less`, and none is less than itself.
-/

namespace AppServer.Sorting

variable {α : Type} (less : α → α → Bool)

/-- Moves `x` forward past the elements that it is less than; the list is in reverse. -/
def insertBack (x : α) : List α → List α
  | [] => [x]
  | y :: ys => if less x y then y :: insertBack x ys else x :: y :: ys

/-- Inserts elements into what is sorted, one after the other, each no further forward than it
must. -/
def insertAll (sorted l : List α) : List α :=
  (l.foldl (fun done x => insertBack less x done) sorted.reverse).reverse

def insertionSort (l : List α) : List α :=
  insertAll less [] l

/-- Two elements in order. -/
def pair (a b : α) : α × α :=
  if less b a then (b, a) else (a, b)

/-- Four elements in order: two pairs, the least and the greatest of these, and the two that
remain. -/
def sortFour (w x y z : α) : List α :=
  let (a, b) := pair less w x
  let (c, d) := pair less y z
  let crossed := less c a
  let enclosed := less d b
  let least := if crossed then c else a
  let greatest := if enclosed then b else d
  let (lower, upper) := pair less
    (if crossed then a else if enclosed then c else b)
    (if enclosed then d else if crossed then b else c)
  [least, lower, upper, greatest]

/-- A half is sorted by insertion, from its fifth element on if there are as many. -/
def sortHalf : List α → List α
  | w :: x :: y :: z :: rest => insertAll less (sortFour less w x y z) rest
  | l => insertionSort less l

/-- Merges two sorted lists from the front. Of two that tie the one on the left goes first. -/
def merge (xs ys : List α) : List α :=
  List.merge xs ys fun x y => !less y x

/-- Merges two sorted lists from the back. Of two that tie the one on the right goes last. -/
def mergeBack (xs ys : List α) : List α :=
  (merge (fun a b => less b a) ys.reverse xs.reverse).reverse

/-- What the first steps of a merge give, and how many of them take from the first list. -/
def mergeSteps : Nat → List α → List α → List α × Nat
  | n + 1, x :: xs, y :: ys =>
    if less y x then
      let (out, k) := mergeSteps n (x :: xs) ys
      (y :: out, k)
    else
      let (out, k) := mergeSteps n xs (y :: ys)
      (x :: out, k + 1)
  | _, _, _ => ([], 0)

/-- Merges two halves from both ends, of which the second may be longer by one. From either end as
many elements are taken as the first half has; an element between them is then left in one half. The
ends meet if `k` elements of the first half are taken from the front and the others from the back. -/
def mergeHalves (xs ys : List α) : Option (List α) :=
  let half := xs.length
  let (front, k) := mergeSteps less half xs ys
  let (back, j) := mergeSteps (fun a b => less b a) half ys.reverse xs.reverse
  -- `half - j` elements of the first half are taken from the back
  if k = j then
    some (front ++ (ys.drop (half - k)).take (ys.length - half) ++ back.reverse)
  else if k + 1 = j ∧ half < ys.length then
    some (front ++ (xs.drop k).take 1 ++ back.reverse)
  else none

/-- Sorts a list that is cut in half. -/
def sortHalves (l : List α) : Option (List α) :=
  let xs := l.take (l.length / 2)
  let ys := l.drop (l.length / 2)
  if l.length < 2 then some l
  else if l.length < 8 then mergeHalves less (insertionSort less xs) (insertionSort less ys)
  else mergeHalves less (sortHalf less xs) (sortHalf less ys)

end AppServer.Sorting
