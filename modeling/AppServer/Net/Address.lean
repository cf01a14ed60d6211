import AppServer.Number.Decimal
import AppServer.Text.Quoted

/-!
# Socket addresses

A host of four bytes or eight groups, and a port. A host of groups stands in brackets; its longest
run of zero groups may be written `::`, and a decimal scope may follow it. Parts of an address are
read from the front of a text and leave the rest.
-/

namespace AppServer.Net

open AppServer.Number

/-- A host of four bytes. -/
structure Ipv4 where
  a : UInt8
  b : UInt8
  c : UInt8
  d : UInt8
deriving DecidableEq, Repr

/-- Where to listen. -/
inductive Address
  | v4 (host : Ipv4) (port : UInt16)
  | v6 (groups : Vector UInt16 8) (scope : UInt32) (port : UInt16)
deriving DecidableEq, Repr

/-- The value of a hexadecimal digit. -/
def hexValue? (c : Char) : Option Nat :=
  if isDigit c then some (c.toNat - 48)
  else if 'a' ≤ c ∧ c ≤ 'f' then some (c.toNat - 87)
  else if 'A' ≤ c ∧ c ≤ 'F' then some (c.toNat - 55)
  else none

/-- Reads a decimal number of at most `max`. -/
def decimal? (max : Nat) (cs : List Char) : Option (Nat × List Char) :=
  let digits := cs.takeWhile isDigit
  if digits.isEmpty || max < digitsValue digits then none
  else some (digitsValue digits, cs.dropWhile isDigit)

/-- Reads one of the four bytes: up to three digits, no zero before another digit. -/
def byte? (cs : List Char) : Option (UInt8 × List Char) := do
  let digits := cs.takeWhile isDigit
  if 3 < digits.length || (1 < digits.length && digits.head? == some '0') then none
  else
    let (n, rest) ← decimal? 255 cs
    some (UInt8.ofNat n, rest)

/-- Reads a character. -/
def char? (c : Char) : List Char → Option (List Char)
  | d :: rest => if d = c then some rest else none
  | [] => none

/-- Reads four bytes with points between them. -/
def ipv4? (cs : List Char) : Option (Ipv4 × List Char) := do
  let (a, cs) ← byte? cs
  let (b, cs) ← byte? (← char? '.' cs)
  let (c, cs) ← byte? (← char? '.' cs)
  let (d, cs) ← byte? (← char? '.' cs)
  some (⟨a, b, c, d⟩, cs)

/-- Reads a group of one to four hexadecimal digits. -/
def group? (cs : List Char) : Option (UInt16 × List Char) :=
  let isHex c := (hexValue? c).isSome
  let digits := (cs.takeWhile isHex).filterMap hexValue?
  if digits.isEmpty || 4 < digits.length then none
  else some (UInt16.ofNat (digits.foldl (fun n d => 16 * n + d) 0), cs.dropWhile isHex)

/-- Passes the colon before every group but the first. -/
def separator? (first : Bool) (cs : List Char) : Option (List Char) :=
  if first then some cs else char? ':' cs

/-- Reads groups while there are any, `room` of them at most. The last two may be written as four
bytes; the flag says whether they are. -/
def groups : (room : Nat) → (first : Bool) → List Char → List UInt16 × Bool × List Char
  | 0, _, cs => ([], false, cs)
  | room + 1, first, cs =>
    match (if 1 ≤ room then (separator? first cs).bind ipv4? else none) with
    | some (host, rest) =>
      ([host.a.toUInt16 * 256 + host.b.toUInt16, host.c.toUInt16 * 256 + host.d.toUInt16],
        true, rest)
    | none =>
      match (separator? first cs).bind group? with
      | none => ([], false, cs)
      | some (g, rest) =>
        let (gs, dotted, rest) := groups room false rest
        (g :: gs, dotted, rest)

/-- Exactly eight groups. -/
def eight? (gs : List UInt16) : Option (Vector UInt16 8) :=
  if h : gs.length = 8 then some ⟨gs.toArray, by simp [h]⟩ else none

/-- Reads eight groups, or fewer with one `::` that stands for at least one zero group. -/
def ipv6? (cs : List Char) : Option (Vector UInt16 8 × List Char) := do
  let (front, dotted, cs) := groups 8 true cs
  if front.length = 8 then
    some (← eight? front, cs)
  else if dotted then none
  else
    let cs ← char? ':' (← char? ':' cs)
    let (back, _, cs) := groups (7 - front.length) true cs
    let zeros := List.replicate (8 - front.length - back.length) 0
    some (← eight? (front ++ zeros ++ back), cs)

/-- Reads a colon and a port. -/
def port? (cs : List Char) : Option (UInt16 × List Char) := do
  let (n, rest) ← decimal? 65535 (← char? ':' cs)
  some (UInt16.ofNat n, rest)

/-- Reads a percent sign and a scope. -/
def scope? (cs : List Char) : Option (UInt32 × List Char) := do
  let (n, rest) ← decimal? (UInt32.size - 1) (← char? '%' cs)
  some (UInt32.ofNat n, rest)

namespace Address

def readV4? (cs : List Char) : Option (Address × List Char) := do
  let (host, cs) ← ipv4? cs
  let (port, cs) ← port? cs
  some (v4 host port, cs)

def readV6? (cs : List Char) : Option (Address × List Char) := do
  let (gs, cs) ← ipv6? (← char? '[' cs)
  let (scope, cs) := (scope? cs).getD (0, cs)
  let (port, cs) ← port? (← char? ']' cs)
  some (v6 gs scope port, cs)

/-- Reads an address. -/
def parse? (s : String) : Option Address :=
  match (readV4? s.toList).or (readV6? s.toList) with
  | some (a, []) => some a
  | _ => none

/-- Where the first of the longest runs of zeros begins, and how long it is. -/
def longestZeros (gs : List UInt16) : Nat × Nat :=
  let step (state : (Nat × Nat) × (Nat × Nat)) (g : UInt16 × Nat) :=
    let (current, best) := state
    if g.1 = 0 then
      let current := if current.2 = 0 then (g.2, 1) else (current.1, current.2 + 1)
      (current, if best.2 < current.2 then current else best)
    else ((0, 0), best)
  (gs.zipIdx.foldl step ((0, 0), (0, 0))).2

/-- Groups with colons between them. -/
def renderGroups (gs : List UInt16) : String :=
  ":".intercalate (gs.map fun g => Text.hexDigits g.toNat)

def renderBytes (bytes : List Nat) : String :=
  ".".intercalate (bytes.map toString)

/-- The text of a host of groups. One that stands for four bytes shows them. -/
def renderHost (gs : List UInt16) : String :=
  if gs.take 6 = [0, 0, 0, 0, 0, 0xFFFF] then
    let low := (gs.drop 6).flatMap fun g => [g.toNat / 256, g.toNat % 256]
    "::ffff:" ++ renderBytes low
  else
    let (start, length) := longestZeros gs
    if 1 < length then
      renderGroups (gs.take start) ++ "::" ++ renderGroups (gs.drop (start + length))
    else renderGroups gs

/-- The text of an address. A scope of zero is not shown. -/
def render : Address → String
  | v4 host port =>
    renderBytes [host.a.toNat, host.b.toNat, host.c.toNat, host.d.toNat] ++ ":" ++
      toString port.toNat
  | v6 gs scope port =>
    let mark := if scope = 0 then "" else "%" ++ toString scope.toNat
    "[" ++ renderHost gs.toList ++ mark ++ "]:" ++ toString port.toNat

instance : ToString Address := ⟨render⟩

end Address

end AppServer.Net
