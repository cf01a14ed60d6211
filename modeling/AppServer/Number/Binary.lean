/-!
# Binary floating-point formats

A format is given by the widths of its fraction and exponent fields. A magnitude is a number
without sign, held as its bits; bits order magnitudes as their values do. Rounding takes an exact
ratio to the nearest magnitude, a tie to the even one, and past the largest to infinity.
-/

namespace AppServer.Number

/-- Field widths of a binary format. -/
structure Format where
  fractionBits : Nat
  exponentBits : Nat

namespace Format

def binary32 : Format := ⟨23, 8⟩
def binary64 : Format := ⟨52, 11⟩

/-- The power of two that a unit in the last place of the smallest magnitudes stands for. -/
def leastUnit (f : Format) : Int :=
  2 - (Nat.pow 2 (f.exponentBits - 1) : Nat) - f.fractionBits

/-- The bits of infinity; larger magnitudes are not numbers. -/
def infinity (f : Format) : Nat :=
  (Nat.pow 2 f.exponentBits - 1) * Nat.pow 2 f.fractionBits

/-- The value of a sign bit in front of a magnitude. -/
def signBit (f : Format) : Nat :=
  Nat.pow 2 (f.exponentBits + f.fractionBits)

/-- A finite magnitude as `m * 2 ^ q`. -/
def parts (f : Format) (magnitude : Nat) : Nat × Int :=
  let unit := Nat.pow 2 f.fractionBits
  if magnitude < unit then (magnitude, f.leastUnit)
  else (magnitude % unit + unit, f.leastUnit + (magnitude / unit : Nat) - 1)

/-- `n / d` rounded to the nearest whole number, a tie to the even one. -/
def roundQuotient (n d : Nat) : Nat :=
  let q := n / d
  let r := n % d
  if 2 * r < d then q
  else if d < 2 * r then q + 1
  else if q % 2 = 0 then q else q + 1

/-- The magnitude nearest to `num / den`. -/
def round (f : Format) (num den : Nat) : Nat :=
  if num = 0 then 0
  else
    let estimate : Int := (num.log2 : Int) - den.log2
    let below :=
      if 0 ≤ estimate then num < den * Nat.pow 2 estimate.toNat
      else num * Nat.pow 2 (-estimate).toNat < den
    let exponent := if below then estimate - 1 else estimate
    let unit := max (exponent - f.fractionBits) f.leastUnit
    let m :=
      if 0 ≤ unit then roundQuotient num (den * Nat.pow 2 unit.toNat)
      else roundQuotient (num * Nat.pow 2 (-unit).toNat) den
    min ((unit - f.leastUnit).toNat * Nat.pow 2 f.fractionBits + m) f.infinity

/-- The magnitude nearest to `digits * 10 ^ exponent`. Exponents far outside every format are
decided without computing the power. -/
def roundDecimal (f : Format) (digits : Nat) (exponent : Int) : Nat :=
  if digits = 0 then 0
  else
    let size : Int := (digits.log2 : Int) / 4 + exponent
    if size > (Nat.pow 2 f.exponentBits : Nat) then f.infinity
    else if (digits.log2 : Int) + 1 + exponent < -(Nat.pow 2 f.exponentBits : Nat) then 0
    else if 0 ≤ exponent then f.round (digits * Nat.pow 10 exponent.toNat) 1
    else f.round digits (Nat.pow 10 (-exponent).toNat)

/-- The product of two finite magnitudes, rounded. -/
def mul (f : Format) (a b : Nat) : Nat :=
  let (m, p) := f.parts a
  let (n, q) := f.parts b
  let e := p + q
  if 0 ≤ e then f.round (m * n * Nat.pow 2 e.toNat) 1 else f.round (m * n) (Nat.pow 2 (-e).toNat)

/-- The quotient of two finite magnitudes, rounded; the second is not zero. -/
def div (f : Format) (a b : Nat) : Nat :=
  let (m, p) := f.parts a
  let (n, q) := f.parts b
  let e := p - q
  if 0 ≤ e then f.round (m * Nat.pow 2 e.toNat) n else f.round m (n * Nat.pow 2 (-e).toNat)

end Format

end AppServer.Number
