import AppServer.Number.Decimal

/-!
# Which literals are not numbers

Every literal has a magnitude; it is past infinity for the word `nan` and for no other literal,
however large. So a text that can be read spells no number just if it is that word, in any case of
letters and with or without a sign.
-/

namespace AppServer.Number

namespace Format

/-- Rounding ends at infinity. -/
theorem round_le_infinity (f : Format) (num den : Nat) : f.round num den ≤ f.infinity := by
  unfold round
  split
  · exact Nat.zero_le _
  · exact Nat.min_le_right _ _

theorem roundDecimal_le_infinity (f : Format) (digits : Nat) (exponent : Int) :
    f.roundDecimal digits exponent ≤ f.infinity := by
  unfold roundDecimal
  split
  · exact Nat.zero_le _
  · dsimp only
    split
    · exact Nat.le_refl _
    · split
      · exact Nat.zero_le _
      · split
        · exact f.round_le_infinity _ _
        · exact f.round_le_infinity _ _

/-- The bits of a literal without those of its sign. -/
def magnitudeOf (f : Format) (l : Literal) : Nat :=
  f.ofLiteral false l

theorem ofLiteral_eq (f : Format) (negative : Bool) (l : Literal) :
    f.ofLiteral negative l = (if negative then f.signBit else 0) + f.magnitudeOf l := by
  cases negative with
  | true => rfl
  | false => exact (Nat.zero_add _).symm

theorem infinity_lt_magnitudeOf_iff (f : Format) (l : Literal) :
    f.infinity < f.magnitudeOf l ↔ l = .nan := by
  cases l with
  | nan =>
      refine iff_of_true ?_ rfl
      show f.infinity < f.infinity + Nat.pow 2 (f.fractionBits - 1)
      exact Nat.lt_add_of_pos_right (Nat.pow_pos (by decide))
  | infinite => exact iff_of_false (Nat.lt_irrefl _) (by simp)
  | decimal digits exponent =>
      exact iff_of_false (Nat.not_lt.mpr (f.roundDecimal_le_infinity digits exponent)) (by simp)

end Format

/-- The word `nan`, in any case of letters and with or without a sign. -/
inductive SpellsNaN : List Char → Prop
  | bare {word : List Char} (h : word.map Char.toLower = ['n', 'a', 'n']) : SpellsNaN word
  | signed {sign : Char} {word : List Char} (hsign : sign = '+' ∨ sign = '-')
      (h : word.map Char.toLower = ['n', 'a', 'n']) : SpellsNaN (sign :: word)

/-- Behind a sign stands a word, and such a word has no sign. -/
theorem spellsNaN_cons_iff {sign : Char} {word : List Char} (hsign : sign = '+' ∨ sign = '-') :
    SpellsNaN (sign :: word) ↔ word.map Char.toLower = ['n', 'a', 'n'] := by
  constructor
  · rintro (h | ⟨-, h⟩)
    · rcases hsign with rfl | rfl
      · cases h
      · cases h
    · exact h
  · exact .signed hsign

theorem spellsNaN_iff_of_unsigned {cs : List Char} (hplus : ∀ rest, cs ≠ '+' :: rest)
    (hminus : ∀ rest, cs ≠ '-' :: rest) :
    SpellsNaN cs ↔ cs.map Char.toLower = ['n', 'a', 'n'] := by
  constructor
  · rintro (h | ⟨rfl | rfl, h⟩)
    · exact h
    · exact absurd rfl (hplus _)
    · exact absurd rfl (hminus _)
  · exact .bare

/-- Digits, however many, are never read as `nan`. -/
theorem readDecimal_ne_nan (body : List Char) : readDecimal body ≠ some .nan := by
  have hparts : ∀ fraction rest : List Char,
      (if (body.takeWhile isDigit).isEmpty && fraction.isEmpty then none
      else (readExponent rest).map fun e => Literal.decimal
        (digitsValue (body.takeWhile isDigit ++ fraction)) (e - fraction.length)) ≠ some .nan := by
    intro fraction rest
    split
    · simp
    · simp
  unfold readDecimal
  dsimp only
  split
  · exact hparts _ _
  · exact hparts _ _

/-- Reads a literal that has no sign. -/
def readUnsigned (body : List Char) : Option Literal :=
  let word := body.map Char.toLower
  if word = "inf".toList ∨ word = "infinity".toList then some .infinite
  else if word = "nan".toList then some .nan
  else readDecimal body

theorem readUnsigned_eq_nan_iff {body : List Char} :
    readUnsigned body = some .nan ↔ body.map Char.toLower = ['n', 'a', 'n'] := by
  unfold readUnsigned
  dsimp only
  split
  · rename_i hinfinite
    refine iff_of_false (by simp) fun hnan => ?_
    rw [hnan] at hinfinite
    revert hinfinite
    decide
  · split
    · rename_i hnan
      exact iff_of_true rfl hnan
    · rename_i hnan
      exact iff_of_false (readDecimal_ne_nan body) hnan

theorem readLiteral_eq (cs : List Char) : readLiteral cs =
    match cs with
    | '-' :: rest => (readUnsigned rest).map fun l => (true, l)
    | '+' :: rest => (readUnsigned rest).map fun l => (false, l)
    | _ => (readUnsigned cs).map fun l => (false, l) := by
  have hbody : ∀ (negative : Bool) (body : List Char),
      (if body.map Char.toLower = "inf".toList ∨ body.map Char.toLower = "infinity".toList then
        some (negative, Literal.infinite)
      else if body.map Char.toLower = "nan".toList then some (negative, .nan)
      else (readDecimal body).map fun l => (negative, l)) =
        (readUnsigned body).map fun l => (negative, l) := by
    intro negative body
    unfold readUnsigned
    dsimp only
    split
    · rfl
    · split
      · rfl
      · rfl
  cases cs with
  | nil => exact hbody false []
  | cons c rest =>
      by_cases hminus : c = '-'
      · subst hminus
        exact hbody true rest
      · by_cases hplus : c = '+'
        · subst hplus
          exact hbody false rest
        · simpa [readLiteral, hminus, hplus] using hbody false (c :: rest)

theorem readLiteral_eq_nan_iff {cs : List Char} :
    (∃ negative, readLiteral cs = some (negative, .nan)) ↔ SpellsNaN cs := by
  have hsigned : ∀ (negative : Bool) (body : List Char),
      (∃ sign, ((readUnsigned body).map fun l => (negative, l)) = some (sign, .nan)) ↔
        body.map Char.toLower = ['n', 'a', 'n'] := by
    intro negative body
    rw [← readUnsigned_eq_nan_iff]
    cases readUnsigned body with
    | none => simp
    | some l => simp
  rw [readLiteral_eq]
  split
  · rw [hsigned, spellsNaN_cons_iff (.inr rfl)]
  · rw [hsigned, spellsNaN_cons_iff (.inl rfl)]
  · rename_i hminus hplus
    rw [hsigned, spellsNaN_iff_of_unsigned hplus hminus]

end AppServer.Number
