import AppServer.Number.Decimal

/-!
# The fewest digits that read back

Every finite magnitude is nearest to all reals of an interval around it, ends included when its
significand is even. Its shortest text has the fewest digits of any decimal in that interval, and
is the nearest of those.
-/

namespace AppServer.Number

/-- `digits * 10 ^ exponent`. -/
structure Scientific where
  digits : Nat
  exponent : Int
deriving DecidableEq, Repr

namespace Scientific

/-- Moves trailing zeros of the digits into the exponent. -/
def trim (s : Scientific) : Scientific :=
  go (s.digits.log2 + 1) s
where
  go : Nat → Scientific → Scientific
    | 0, s => s
    | fuel + 1, s =>
      if s.digits ≠ 0 ∧ s.digits % 10 = 0 then go fuel ⟨s.digits / 10, s.exponent + 1⟩ else s

end Scientific

/-- The decimal with at most `n` digits nearest to `value`, if one lies in the interval. All three
numbers count the same unit. -/
def nearestWithin (low value high : Nat) (inclusive : Bool) (n : Nat) : Option Scientific :=
  let size := (digitsOf value).length
  let dropped := size - n
  let unit := Nat.pow 10 dropped
  let below := value / unit * unit
  let above := below + unit
  let fits (x : Nat) := if inclusive then low ≤ x && x ≤ high else low < x && x < high
  let down : Scientific := ⟨below / unit, dropped⟩
  let up : Scientific := ⟨above / unit, dropped⟩
  if fits below then
    if fits above then
      if value - below < above - value then some down
      else if above - value < value - below then some up
      else if down.digits % 2 = 0 then some down else some up
    else some down
  else if fits above then some up else none

/-- The first length from `n` on at which a decimal lies in the interval. -/
def firstWithin (low value high : Nat) (inclusive : Bool) : Nat → Nat → Scientific
  | 0, _ => ⟨value, 0⟩
  | fuel + 1, n =>
    match nearestWithin low value high inclusive n with
    | some s => s
    | none => firstWithin low value high inclusive fuel (n + 1)

/-- The shortest decimal of a finite magnitude. -/
def Format.shortest (f : Format) (magnitude : Nat) : Scientific :=
  if magnitude = 0 then ⟨0, 0⟩
  else
    let (m, q) := f.parts magnitude
    -- the gap below a power of two is half as wide
    let gap := if m = Nat.pow 2 f.fractionBits ∧ q ≠ f.leastUnit then 1 else 2
    let unit := q - 2
    let (factor, exponent) : Nat × Int :=
      if 0 ≤ unit then (Nat.pow 2 unit.toNat, 0) else (Nat.pow 5 (-unit).toNat, unit)
    let s := firstWithin ((4 * m - gap) * factor) (4 * m * factor) ((4 * m + 2) * factor)
      (m % 2 = 0) 20 1
    Scientific.trim ⟨s.digits, s.exponent + exponent⟩

/-- A decimal without exponent; a whole number has no point. -/
def Scientific.positional (s : Scientific) : List Char :=
  let ds := digitsOf s.digits
  if 0 ≤ s.exponent then
    if s.digits = 0 then ['0'] else ds ++ List.replicate s.exponent.toNat '0'
  else
    let places := (-s.exponent).toNat
    if places < ds.length then
      ds.take (ds.length - places) ++ '.' :: ds.drop (ds.length - places)
    else '0' :: '.' :: (List.replicate (places - ds.length) '0' ++ ds)

/-- One digit before the point, then an exponent with its sign. -/
def Scientific.exponential (s : Scientific) : List Char :=
  let ds := digitsOf s.digits
  let e : Int := s.exponent + ds.length - 1
  let mantissa := match ds with
    | d :: d' :: rest => d :: '.' :: d' :: rest
    | _ => ds
  mantissa ++ 'e' :: (if e < 0 then '-' else '+') :: digitsOf e.natAbs

/-- The power of ten of the leading digit. -/
def Scientific.leading (s : Scientific) : Int :=
  s.exponent + (digitsOf s.digits).length - 1

end AppServer.Number
