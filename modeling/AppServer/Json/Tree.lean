/-!
# JSON trees

A JSON text as a tree whose strings are still escaped and whose numbers are still digits. Reading a
tree checks the grammar alone: that strings are UTF-8, that surrogates come in pairs, that numbers
are in range and that the nesting is not too deep matters only for what is kept of it.
-/

namespace AppServer.Json

/-- The parts of a written number. -/
structure Numeral where
  negative : Bool
  /-- Digits before the point, at least one. -/
  whole : List UInt8
  /-- Digits after the point; empty if there is no point. -/
  fraction : List UInt8
  /-- Whether the exponent is negative, and its digits. -/
  exponent : Option (Bool × List UInt8)
deriving DecidableEq, Repr

/-- A JSON text, read but not interpreted. -/
inductive Tree
  | null
  | bool (b : Bool)
  | number (n : Numeral)
  /-- The bytes between the quotes. -/
  | string (raw : List UInt8)
  | array (items : List Tree)
  | object (members : List (List UInt8 × Tree))
deriving Inhabited

namespace Tree

def isBlankByte (b : UInt8) : Bool :=
  b == 0x20 || b == 0x0A || b == 0x0D || b == 0x09

def isDigitByte (b : UInt8) : Bool :=
  0x30 ≤ b && b ≤ 0x39

def isHexByte (b : UInt8) : Bool :=
  isDigitByte b || (0x41 ≤ b && b ≤ 0x46) || (0x61 ≤ b && b ≤ 0x66)

/-- Bytes that follow a backslash, other than `u`. -/
def isEscapeByte (b : UInt8) : Bool :=
  b == 0x22 || b == 0x5C || b == 0x2F || b == 0x62 || b == 0x66 || b == 0x6E || b == 0x72 ||
    b == 0x74

def skipBlank (bs : List UInt8) : List UInt8 :=
  bs.dropWhile isBlankByte

/-- Reads to the closing quote; `done` holds what has been read, in reverse. -/
def readString (done : List UInt8) : List UInt8 → Option (List UInt8 × List UInt8)
  | [] => none
  | b :: rest =>
    if b = 0x22 then some (done.reverse, rest)
    else if b = 0x5C then
      match rest with
      | [] => none
      | e :: rest =>
        if e = 0x75 then
          match rest with
          | h1 :: h2 :: h3 :: h4 :: rest =>
            if isHexByte h1 && isHexByte h2 && isHexByte h3 && isHexByte h4 then
              readString (h4 :: h3 :: h2 :: h1 :: e :: b :: done) rest
            else none
          | _ => none
        else if isEscapeByte e then readString (e :: b :: done) rest
        else none
    else if b < 0x20 then none
    else readString (b :: done) rest

/-- Reads the digits of an exponent after its mark. -/
def readExponent (bs : List UInt8) : Option (Option (Bool × List UInt8) × List UInt8) :=
  match bs with
  | [] => some (none, [])
  | e :: rest =>
    if e = 0x65 ∨ e = 0x45 then
      let (negative, rest) := match rest with
        | 0x2D :: r => (true, r)
        | 0x2B :: r => (false, r)
        | r => (false, r)
      let digits := rest.takeWhile isDigitByte
      if digits.isEmpty then none
      else some (some (negative, digits), rest.dropWhile isDigitByte)
    else some (none, bs)

/-- Reads a number without its sign: no leading zero, digits after a point. -/
def readUnsigned (negative : Bool) (bs : List UInt8) : Option (Numeral × List UInt8) := do
  let whole := match bs with
    | 0x30 :: _ => [0x30]
    | _ => bs.takeWhile isDigitByte
  if whole.isEmpty then none
  else
    let rest := bs.drop whole.length
    let (fraction, rest) ← match rest with
      | 0x2E :: tail =>
        let digits := tail.takeWhile isDigitByte
        if digits.isEmpty then none else some (digits, tail.dropWhile isDigitByte)
      | _ => some ([], rest)
    let (exponent, rest) ← readExponent rest
    some (⟨negative, whole, fraction, exponent⟩, rest)

def readNumber : List UInt8 → Option (Numeral × List UInt8)
  | 0x2D :: rest => readUnsigned true rest
  | bs => readUnsigned false bs

mutual

/-- Reads one value; `fuel` bounds the nesting and the number of items. -/
def readValue : Nat → List UInt8 → Option (Tree × List UInt8)
  | 0, _ => none
  | fuel + 1, bs =>
    match skipBlank bs with
    | 0x6E :: 0x75 :: 0x6C :: 0x6C :: rest => some (.null, rest)
    | 0x74 :: 0x72 :: 0x75 :: 0x65 :: rest => some (.bool true, rest)
    | 0x66 :: 0x61 :: 0x6C :: 0x73 :: 0x65 :: rest => some (.bool false, rest)
    | 0x22 :: rest => (readString [] rest).map fun (raw, rest) => (.string raw, rest)
    | 0x5B :: rest =>
      match skipBlank rest with
      | 0x5D :: rest => some (.array [], rest)
      | rest => (readItems fuel [] rest).map fun (items, rest) => (.array items, rest)
    | 0x7B :: rest =>
      match skipBlank rest with
      | 0x7D :: rest => some (.object [], rest)
      | rest => (readMembers fuel [] rest).map fun (members, rest) => (.object members, rest)
    | rest => (readNumber rest).map fun (n, rest) => (.number n, rest)

/-- Reads the items of an array up to its bracket. -/
def readItems : Nat → List Tree → List UInt8 → Option (List Tree × List UInt8)
  | 0, _, _ => none
  | fuel + 1, done, bs => do
    let (item, rest) ← readValue fuel bs
    match skipBlank rest with
    | 0x2C :: rest => readItems fuel (item :: done) rest
    | 0x5D :: rest => some ((item :: done).reverse, rest)
    | _ => none

/-- Reads the members of an object up to its brace. -/
def readMembers : Nat → List (List UInt8 × Tree) → List UInt8 →
    Option (List (List UInt8 × Tree) × List UInt8)
  | 0, _, _ => none
  | fuel + 1, done, bs =>
    match skipBlank bs with
    | 0x22 :: rest => do
      let (name, rest) ← readString [] rest
      match skipBlank rest with
      | 0x3A :: rest => do
        let (value, rest) ← readValue fuel rest
        match skipBlank rest with
        | 0x2C :: rest => readMembers fuel ((name, value) :: done) rest
        | 0x7D :: rest => some (((name, value) :: done).reverse, rest)
        | _ => none
      | _ => none
    | _ => none

end

/-- Reads a JSON text: one value, and only blanks after it. -/
def ofBytes? (bs : List UInt8) : Option Tree := do
  let (tree, rest) ← readValue (bs.length + 1) bs
  if (skipBlank rest).isEmpty then some tree else none

end Tree

end AppServer.Json
