import AppServer.Number.Binary
import AppServer.Text.Split

/-!
# Numbers written in decimal

Whole numbers with a bound, and floating-point literals: an optional sign, then `inf`, `infinity`
or `nan` in any case, or digits with at most one point and an optional exponent.
-/

namespace AppServer.Number

/-- ASCII decimal digits. -/
def isDigit (c : Char) : Bool :=
  '0' ≤ c && c ≤ '9'

/-- The number that some digits spell. -/
def digitsValue (cs : List Char) : Nat :=
  cs.foldl (fun n c => 10 * n + (c.toNat - 48)) 0

/-- The decimal digits of a number. -/
def digitsOf (n : Nat) : List Char :=
  Nat.toDigits 10 n

/-- Why a text is not a whole number within its bounds. -/
inductive WholeError
  | empty
  | invalidDigit
  | tooLarge
  | tooSmall
deriving DecidableEq, Repr

namespace WholeError

def message : WholeError → String
  | empty => "cannot parse integer from empty string"
  | invalidDigit => "invalid digit found in string"
  | tooLarge => "number too large to fit in target type"
  | tooSmall => "number too small to fit in target type"

end WholeError

/-- Reads a whole number of at most `max`; a leading `+` is allowed. -/
def readNat (max : Nat) (cs : List Char) : Except WholeError Nat :=
  match cs with
  | [] => .error .empty
  | ['+'] => .error .invalidDigit
  | _ =>
    let digits := match cs with
      | '+' :: rest => rest
      | _ => cs
    if digits.all isDigit then
      let n := digitsValue digits
      if n ≤ max then .ok n else .error .tooLarge
    else
      -- the digits before the offending character may already be too large
      if max < digitsValue (digits.takeWhile isDigit) then .error .tooLarge
      else .error .invalidDigit

/-- Reads a whole number between `-min` and `max`; a leading sign is allowed. -/
def readInt (min max : Nat) (cs : List Char) : Except WholeError Int :=
  match cs with
  | '-' :: rest =>
    if rest.isEmpty then .error .invalidDigit
    else if rest.all isDigit then
      let n := digitsValue rest
      if n ≤ min then .ok (-(n : Int)) else .error .tooSmall
    else .error .invalidDigit
  | _ => (readNat max cs).map Int.ofNat

/-- A floating-point literal without its sign. -/
inductive Literal
  | nan
  | infinite
  | decimal (digits : Nat) (exponent : Int)
deriving DecidableEq, Repr

/-- Reads an exponent, which may be absent. -/
def readExponent (cs : List Char) : Option Int :=
  match cs with
  | [] => some 0
  | mark :: rest =>
    if mark = 'e' ∨ mark = 'E' then
      let (negative, digits) := match rest with
        | '-' :: ds => (true, ds)
        | '+' :: ds => (false, ds)
        | ds => (false, ds)
      if digits.isEmpty || !digits.all isDigit then none
      else
        let n : Int := digitsValue digits
        some (if negative then -n else n)
    else none

/-- Reads digits with at most one point, at least one digit, and an exponent. -/
def readDecimal (cs : List Char) : Option Literal :=
  let whole := cs.takeWhile isDigit
  let afterWhole := cs.dropWhile isDigit
  let (fraction, rest) := match afterWhole with
    | '.' :: tail => (tail.takeWhile isDigit, tail.dropWhile isDigit)
    | _ => ([], afterWhole)
  if whole.isEmpty && fraction.isEmpty then none
  else
    (readExponent rest).map fun e =>
      .decimal (digitsValue (whole ++ fraction)) (e - fraction.length)

/-- Reads a floating-point literal: its sign and the rest. -/
def readLiteral (cs : List Char) : Option (Bool × Literal) :=
  let (negative, body) := match cs with
    | '-' :: rest => (true, rest)
    | '+' :: rest => (false, rest)
    | _ => (false, cs)
  let word := body.map Char.toLower
  if word = "inf".toList ∨ word = "infinity".toList then some (negative, .infinite)
  else if word = "nan".toList then some (negative, .nan)
  else (readDecimal body).map fun l => (negative, l)

/-- The bits of a literal in a format. -/
def Format.ofLiteral (f : Format) (negative : Bool) (l : Literal) : Nat :=
  let magnitude := match l with
    | .nan => f.infinity + Nat.pow 2 (f.fractionBits - 1)
    | .infinite => f.infinity
    | .decimal digits exponent => f.roundDecimal digits exponent
  if negative then f.signBit + magnitude else magnitude

/-- The bits that a text spells in a format. -/
def Format.read? (f : Format) (cs : List Char) : Option Nat :=
  (readLiteral cs).map fun (negative, l) => f.ofLiteral negative l

end AppServer.Number
