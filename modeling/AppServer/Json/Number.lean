import AppServer.Json.Tree
import AppServer.Number.Binary

/-!
# The value of a JSON number

A number without point and exponent that fits 64 bits is whole. Any other number is floating-point:
its leading digits, as many as fit 64 bits, are rounded to double precision and scaled by powers of
ten, and it must come out finite. The zero with a sign is floating-point too.
-/

namespace AppServer.Json

open AppServer.Number

/-- A number as kept: a whole number, or the bits of a double. -/
inductive Amount
  | whole (n : Int)
  | double (bits : Nat)
deriving DecidableEq, Repr

namespace Amount

/-- The largest significand. -/
def maxSignificand : Nat := UInt64.size - 1

/-- The largest power of ten with a double of its own, as a step of scaling. -/
def maxPower : Nat := 308

/-- Reads digits into a significand while it fits; the number of digits left over. -/
def takeWhole (significand : Nat) : List UInt8 → Nat × Nat
  | [] => (significand, 0)
  | d :: ds =>
    let next := significand * 10 + (d.toNat - 48)
    if maxSignificand < next then (significand, ds.length + 1) else takeWhole next ds

/-- Reads digits after the point while they fit, lowering the exponent; the rest are ignored. -/
def takeFraction (significand : Nat) (exponent : Int) : List UInt8 → Nat × Int
  | [] => (significand, exponent)
  | d :: ds =>
    let next := significand * 10 + (d.toNat - 48)
    if maxSignificand < next then (significand, exponent) else takeFraction next (exponent - 1) ds

/-- The double nearest to a power of ten. -/
def power (n : Nat) : Nat :=
  Format.binary64.roundDecimal 1 n

/-- Scales a magnitude by a power of ten, unless it becomes infinite. -/
def scale : Nat → Nat → Int → Option Nat
  | 0, m, _ => some m
  | steps + 1, m, exponent =>
    if exponent.natAbs ≤ maxPower then
      if 0 ≤ exponent then
        let scaled := Format.binary64.mul m (power exponent.toNat)
        if scaled < Format.binary64.infinity then some scaled else none
      else some (Format.binary64.div m (power exponent.natAbs))
    else if m = 0 then some 0
    else if 0 ≤ exponent then none
    else scale steps (Format.binary64.div m (power maxPower)) (exponent + maxPower)

def signed (negative : Bool) (m : Nat) : Nat :=
  if negative then Format.binary64.signBit + m else m

/-- A double from a significand and an exponent. -/
def ofParts (negative : Bool) (significand : Nat) (exponent : Int) : Option Amount :=
  (scale 8 (Format.binary64.round significand 1) exponent).map fun m => .double (signed negative m)

def digitsOfBytes (bs : List UInt8) : Nat :=
  bs.foldl (fun n d => 10 * n + (d.toNat - 48)) 0

/-- The largest exponent that is read as a number. -/
def maxExponent : Nat := UInt32.size / 2 - 1

/-- The value of a written number, if it is in range. -/
def ofNumeral? (n : Numeral) : Option Amount :=
  let (significand, left) := takeWhole 0 n.whole
  if n.fraction.isEmpty && n.exponent.isNone && left == 0 then
    if !n.negative then some (.whole significand)
    else if significand = 0 ∨ UInt64.size / 2 < significand then
      some (.double (signed true (Format.binary64.round significand 1)))
    else some (.whole (-(significand : Int)))
  else
    let (significand, exponent) := takeFraction significand left n.fraction
    match n.exponent with
    | none => ofParts n.negative significand exponent
    | some (negative, digits) =>
      let e := digitsOfBytes digits
      if maxExponent < e then
        if significand ≠ 0 && !negative then none
        else some (.double (signed n.negative 0))
      else ofParts n.negative significand (if negative then exponent - e else exponent + e)

end Amount

end AppServer.Json
