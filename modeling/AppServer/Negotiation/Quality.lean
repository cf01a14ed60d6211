import AppServer.Number.Decimal
import AppServer.Text.Blank

/-!
# Quality values

A quality is a single-precision number. The order is that of the numbers: the two zeros are equal,
and a quality that is not a number is neither above, below nor equal to any.
-/

namespace AppServer.Negotiation

open AppServer.Number

/-- A quality, held as the bits of a single-precision number. -/
structure Quality where
  bits : UInt32
deriving DecidableEq, Repr, Inhabited

namespace Quality

def zero : Quality := ⟨0⟩
def one : Quality := ⟨0x3F800000⟩

/-- The bits without the sign. -/
def magnitude (q : Quality) : Nat :=
  q.bits.toNat % Format.binary32.signBit

def isNaN (q : Quality) : Bool :=
  Format.binary32.infinity < q.magnitude

/-- A whole number that orders qualities as their values do. -/
def rank (q : Quality) : Int :=
  if Format.binary32.signBit ≤ q.bits.toNat then -q.magnitude else q.magnitude

/-- Strictly less, as numbers. -/
def less (a b : Quality) : Bool :=
  !a.isNaN && !b.isNaN && a.rank < b.rank

/-- The order of two qualities, if both are numbers. -/
def compare? (a b : Quality) : Option Ordering :=
  if a.isNaN || b.isNaN then none else some (compare a.rank b.rank)

/-- The nearest quality between 0 and 1; what is not a number stays so. -/
def clamp (q : Quality) : Quality :=
  if q.less zero then zero else if one.less q then one else q

/-- Reads a quality; text that is not a number counts as 1. -/
def read (cs : List Char) : Quality :=
  match Format.binary32.read? cs with
  | some bits => ⟨UInt32.ofNat bits⟩
  | none => one

end Quality

end AppServer.Negotiation
