import AppServer.Data.Value
import AppServer.Number.Shortest

/-!
# Compact JSON text

Values without a JSON counterpart are `null`: absent ones, units, and floating-point numbers that
are not finite. A variant is an object with its name as the only key, or just its name if it holds
nothing. A map key must be a text or read as one; no other value can be written.
-/

namespace AppServer.Json

open AppServer.Number AppServer.Data

/-- One character inside a JSON string. -/
def escapeChar (c : Char) : List Char :=
  match c with
  | '"' => ['\\', '"']
  | '\\' => ['\\', '\\']
  | '\x08' => ['\\', 'b']
  | '\x0c' => ['\\', 'f']
  | '\n' => ['\\', 'n']
  | '\r' => ['\\', 'r']
  | '\t' => ['\\', 't']
  | c =>
    if c.toNat < 0x20 then
      ['\\', 'u', '0', '0', Nat.digitChar (c.toNat / 16), Nat.digitChar (c.toNat % 16)]
    else [c]

/-- A text as a JSON string. -/
def string (s : String) : List Char :=
  '"' :: (s.toList.flatMap escapeChar ++ ['"'])

/-- A whole number. -/
def int (n : Int) : List Char :=
  if n < 0 then '-' :: digitsOf n.natAbs else digitsOf n.natAbs

/-- A finite magnitude: positional from `1e-5` up to `1e16`, with a point, and with an exponent
outside. -/
def magnitude (f : Format) (m : Nat) : List Char :=
  let s := f.shortest m
  if -5 ≤ s.leading ∧ s.leading < 16 then
    if 0 ≤ s.exponent then s.positional ++ ['.', '0'] else s.positional
  else s.exponential

/-- A floating-point number given by its bits. -/
def float (f : Format) (bits : Nat) : List Char :=
  let m := bits % f.signBit
  if f.infinity ≤ m then "null".toList
  else if f.signBit ≤ bits then '-' :: magnitude f m
  else magnitude f m

/-- The text of a map key. -/
def key? : Value → Option String
  | .text s => some s
  | .char c => some (String.singleton c)
  | .bool b => some (if b then "true" else "false")
  | .int n => some (String.ofList (int n))
  | .unitVariant _ variant => some variant
  | .newtypeStruct _ v => key? v
  | _ => none

/-- Pieces with a comma between them. -/
def commaSeparated : List (List Char) → List Char
  | [] => []
  | [piece] => piece
  | piece :: pieces => piece ++ ',' :: commaSeparated pieces

def array (items : List (List Char)) : List Char :=
  '[' :: (commaSeparated items ++ [']'])

def object (members : List (List Char)) : List Char :=
  '\x7b' :: (commaSeparated members ++ ['\x7d'])

def member (name : String) (value : List Char) : List Char :=
  string name ++ ':' :: value

mutual

/-- The compact JSON text of a value, if it has one. -/
def print? : Value → Option (List Char)
  | .text s => some (string s)
  | .char c => some (string (String.singleton c))
  | .bool b => some (if b then "true" else "false").toList
  | .int n => some (int n)
  | .float32 bits => some (float .binary32 bits.toNat)
  | .float64 bits => some (float .binary64 bits.toNat)
  | .none => some "null".toList
  | .some v => print? v
  | .unit => some "null".toList
  | .unitStruct _ => some "null".toList
  | .unitVariant _ variant => some (string variant)
  | .newtypeStruct _ v => print? v
  | .newtypeVariant _ variant v => (print? v).map fun t => object [member variant t]
  | .seq vs => (printItems? vs).map array
  | .tuple vs => (printItems? vs).map array
  | .tupleStruct _ vs => (printItems? vs).map array
  | .tupleVariant _ variant vs =>
    (printItems? vs).map fun ts => object [member variant (array ts)]
  | .map entries => (printEntries? entries).map object
  | .struct _ fields => (printFields? fields).map object
  | .structVariant _ variant fields =>
    (printFields? fields).map fun ts => object [member variant (object ts)]

def printItems? : List Value → Option (List (List Char))
  | [] => some []
  | v :: vs => do
    let t ← print? v
    let ts ← printItems? vs
    some (t :: ts)

def printEntries? : List (Value × Value) → Option (List (List Char))
  | [] => some []
  | (k, v) :: rest => do
    let name ← key? k
    let t ← print? v
    let ts ← printEntries? rest
    some (member name t :: ts)

def printFields? : List (String × Value) → Option (List (List Char))
  | [] => some []
  | (name, v) :: rest => do
    let t ← print? v
    let ts ← printFields? rest
    some (member name t :: ts)

end

/-- The JSON text of a value as a string. -/
def render? (v : Value) : Option String :=
  (print? v).map String.ofList

end AppServer.Json
