/-!
# Cutting and comparing text

The pieces of a text between separators, the non-empty segments of a path, trimming, and
comparison that ignores the case of ASCII letters. Everything is defined on characters; the
`String` versions wrap it.
-/

namespace AppServer.Text

/-- The pieces of `cs` between occurrences of `sep`, at least one of them. -/
def splitOn (sep : Char) (cs : List Char) : List (List Char) :=
  cs.foldr (fun c pieces =>
    if c = sep then [] :: pieces
    else match pieces with
      | [] => [[c]]
      | piece :: rest => (c :: piece) :: rest) [[]]

/-- What stands before and after the first `sep`, if there is one. -/
def splitOnce (sep : Char) (cs : List Char) : Option (List Char × List Char) :=
  match cs.dropWhile (· != sep) with
  | [] => none
  | _ :: rest => some (cs.takeWhile (· != sep), rest)

/-- The text before the first `sep`, or all of it. -/
def before (sep : Char) (cs : List Char) : List Char :=
  cs.takeWhile (· != sep)

/-- `cs` without the characters satisfying `p` at either end. -/
def trimBy (p : Char → Bool) (cs : List Char) : List Char :=
  ((cs.dropWhile p).reverse.dropWhile p).reverse

/-- The non-empty pieces of a path between slashes. -/
def segments (path : String) : List String :=
  ((splitOn '/' path.toList).filter (!·.isEmpty)).map String.ofList

/-- ASCII letters in lower case, everything else as it is. -/
def lower (s : String) : String :=
  String.ofList (s.toList.map Char.toLower)

/-- Equality up to the case of ASCII letters. -/
def sameLetters (a b : String) : Bool :=
  a.toList.map Char.toLower == b.toList.map Char.toLower

@[simp] theorem splitOn_nil (sep : Char) : splitOn sep [] = [[]] := rfl

theorem splitOn_ne_nil (sep : Char) (cs : List Char) : splitOn sep cs ≠ [] := by
  cases cs with
  | nil => simp
  | cons c cs =>
    simp only [splitOn, List.foldr_cons]
    split
    · simp
    · split <;> simp

theorem splitOn_cons_self (sep : Char) (cs : List Char) :
    splitOn sep (sep :: cs) = [] :: splitOn sep cs := by
  simp [splitOn]

theorem splitOn_cons_of_ne {sep c : Char} (h : c ≠ sep) (cs : List Char) :
    splitOn sep (c :: cs) =
      (c :: (splitOn sep cs).head (splitOn_ne_nil sep cs)) :: (splitOn sep cs).tail := by
  have hne := splitOn_ne_nil sep cs
  simp only [splitOn, List.foldr_cons, h, if_false] at hne ⊢
  split
  · rename_i heq
    exact absurd heq hne
  · rename_i heq
    simp [heq]

/-- No piece contains the separator. -/
theorem sep_notMem_of_mem_splitOn {sep : Char} {cs piece : List Char}
    (h : piece ∈ splitOn sep cs) : sep ∉ piece := by
  induction cs generalizing piece with
  | nil => simp_all
  | cons c cs ih =>
    by_cases hc : c = sep
    · subst hc
      rw [splitOn_cons_self] at h
      rcases List.mem_cons.1 h with rfl | h
      · simp
      · exact ih h
    · rw [splitOn_cons_of_ne hc] at h
      rcases List.mem_cons.1 h with rfl | h
      · have := ih (List.head_mem (splitOn_ne_nil sep cs))
        simp [this, Ne.symm hc]
      · exact ih (List.mem_of_mem_tail h)

end AppServer.Text
