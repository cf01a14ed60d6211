import AppServer.Number.Decimal

/-!
# The digits of a number

The digits of a number spell it, and no number but zero is written with a zero in front. So a number
within the bound is read back from its digits.
-/

namespace AppServer.Number

theorem digitsOf_ne_nil (n : Nat) : digitsOf n ≠ [] :=
  Nat.toDigits_ne_nil

theorem isDigit_of_mem_digitsOf {n : Nat} {c : Char} (h : c ∈ digitsOf n) : isDigit c = true := by
  have hdigit : c.isDigit = true := Nat.isDigit_of_mem_toDigits (by decide) (by decide) h
  simpa [isDigit, Char.isDigit, Char.le_def] using hdigit

@[simp] theorem digitsValue_digitsOf (n : Nat) : digitsValue (digitsOf n) = n :=
  Nat.ofDigitChars_toDigits (by decide) (by decide)

/-- A zero in front is the whole number. -/
theorem digitsOf_eq_zero_cons {n : Nat} {ds : List Char} (h : digitsOf n = '0' :: ds) :
    ds = [] := by
  induction n using Nat.strongRecOn generalizing ds with
  | ind n ih =>
      unfold digitsOf at h ih
      by_cases hsmall : n < 10
      · rw [Nat.toDigits_of_lt_base hsmall] at h
        exact (List.cons.inj h).2.symm
      · have hpos : 0 < n / 10 := Nat.div_pos (Nat.le_of_not_lt hsmall) (by decide)
        rw [Nat.toDigits_of_base_le (by decide) (Nat.le_of_not_lt hsmall)] at h
        cases hfront : Nat.toDigits 10 (n / 10) with
        | nil => exact absurd hfront Nat.toDigits_ne_nil
        | cons d front =>
            rw [hfront] at h
            obtain rfl : d = '0' := (List.cons.inj h).1
            obtain rfl := ih (n / 10) (Nat.div_lt_self (by omega) (by decide)) hfront
            have hvalue : digitsValue (digitsOf (n / 10)) = digitsValue ['0'] := by
              rw [digitsOf, hfront]
            rw [digitsValue_digitsOf] at hvalue
            exact absurd hvalue (Nat.ne_of_gt hpos)

theorem toString_injective : Function.Injective (toString : Nat → String) := by
  have hdigits (n : Nat) : (toString n).toList = digitsOf n := String.toList_ofList
  intro m n h
  rw [← digitsValue_digitsOf m, ← hdigits, h, hdigits, digitsValue_digitsOf]

theorem readNat_digitsOf {n max : Nat} (h : n ≤ max) : readNat max (digitsOf n) = .ok n := by
  have hall : (digitsOf n).all isDigit = true :=
    List.all_eq_true.mpr fun _ hc => isDigit_of_mem_digitsOf hc
  have hvalue := digitsValue_digitsOf n
  cases hds : digitsOf n with
  | nil => exact absurd hds (digitsOf_ne_nil n)
  | cons d ds =>
      have hd : d ≠ '+' := by
        rintro rfl
        have hplus : isDigit '+' = true := isDigit_of_mem_digitsOf (hds ▸ List.mem_cons_self)
        exact absurd hplus (by decide)
      rw [hds] at hall hvalue
      simp [readNat, hd, hall, hvalue, h]

end AppServer.Number
