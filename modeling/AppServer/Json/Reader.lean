import AppServer.Data.Shape
import AppServer.Json.Number
import AppServer.Json.Text

/-!
# Reading JSON bodies

A body is read into a tree and the tree against a shape. A struct may be written as an object or as
an array of its fields in order; a named variant as its name or as an object that maps the name to
`null`. What is kept may be nested 127 deep.
-/

namespace AppServer.Json

open AppServer.Data

/-- One more than the depth to which kept arrays and objects may nest. -/
def depthLimit : Nat := 128

/-- A whole number between bounds. -/
def wholeBetween? (low high : Int) : Tree → Option Value
  | .number n =>
    match Amount.ofNumeral? n with
    | some (.whole v) => if low ≤ v ∧ v ≤ high then some (.int v) else none
    | _ => none
  | _ => none

mutual

/-- Whatever a tree holds. -/
def anyValue? : Nat → Tree → Option Value
  | _, .null => some .none
  | _, .bool b => some (.bool b)
  | _, .number n =>
    match Amount.ofNumeral? n with
    | some (.whole v) => some (.int v)
    | some (.double bits) => some (.float64 (UInt64.ofNat bits))
    | none => none
  | _, .string raw => (textOf? raw).map .text
  | depth, .array items =>
    if depth ≤ 1 then none else (anyItems? (depth - 1) items).map .seq
  | depth, .object members =>
    if depth ≤ 1 then none
    else (anyMembers? (depth - 1) members).map fun entries =>
      .map ((sortEntries entries).map fun (k, v) => (.text k, v))

def anyItems? : Nat → List Tree → Option (List Value)
  | _, [] => some []
  | depth, t :: ts => do
    let v ← anyValue? depth t
    let vs ← anyItems? depth ts
    some (v :: vs)

def anyMembers? : Nat → List (List UInt8 × Tree) → Option (List (String × Value))
  | _, [] => some []
  | depth, (raw, t) :: rest => do
    let name ← textOf? raw
    let v ← anyValue? depth t
    let vs ← anyMembers? depth rest
    some ((name, v) :: vs)

end

/-- The members of an object with their names as text. -/
def named? (members : List (List UInt8 × Tree)) : Option (List (String × Tree)) :=
  members.mapM fun (raw, t) => (textOf? raw).map fun name => (name, t)

def textMember? : String × Tree → Option (String × String)
  | (name, .string raw) => (textOf? raw).map fun s => (name, s)
  | _ => none

/-- The variant that a tree names. -/
def variant? (depth : Nat) : Tree → Option String
  | .string raw => textOf? raw
  | .object [(raw, .null)] => if depth ≤ 1 then none else textOf? raw
  | _ => none

mutual

/-- Reads a tree against a shape. -/
def ofTree? (depth : Nat) : Shape → Tree → Option Value
  | .text, .string raw => (textOf? raw).map .text
  | .nat32, t => wholeBetween? 0 Shape.greatestNat32 t
  | .int64, t => wholeBetween? (-Shape.greatestInt64 - 1) Shape.greatestInt64 t
  | .bool, .bool b => some (.bool b)
  | .option _, .null => some .none
  | .option item, t => (ofTree? depth item t).map .some
  | .list item, .array items =>
    if depth ≤ 1 then none else (items.mapM (ofTree? (depth - 1) item)).map .seq
  | .textMap, .object members =>
    if depth ≤ 1 then none
    else do
      let entries ← (← named? members).mapM textMember?
      some (.map ((sortEntries entries).map fun (k, v) => (.text k, .text v)))
  | .any, t => anyValue? depth t
  | .oneOf name variants, t => do
    let v ← variant? depth t
    if variants.contains v then some (.unitVariant name v) else none
  | .struct name fields, .object members =>
    if depth ≤ 1 then none
    else do
      let members ← named? members
      (ofMembers? (depth - 1) fields members).map (.struct name)
  | .struct name fields, .array items =>
    if depth ≤ 1 then none else (ofItems? (depth - 1) fields items).map (.struct name)
  | _, _ => none

/-- Reads the fields of a struct from the members of an object; none may occur twice. -/
def ofMembers? (depth : Nat) : List (String × Shape × Presence) → List (String × Tree) →
    Option (List (String × Value))
  | [], _ => some []
  | (name, item, presence) :: fields, members => do
    let v ← match members.filter (·.1 == name), presence with
      | [], .absent default => some default
      | [(_, t)], _ => ofTree? depth item t
      | _, _ => none
    let vs ← ofMembers? depth fields members
    some ((name, v) :: vs)

/-- Reads the fields of a struct from the items of an array. -/
def ofItems? (depth : Nat) : List (String × Shape × Presence) → List Tree →
    Option (List (String × Value))
  | [], [] => some []
  | [], _ :: _ => none
  | (name, item, presence) :: fields, items => do
    let (v, items) ← match items, presence with
      | t :: ts, _ => (ofTree? depth item t).map fun v => (v, ts)
      | [], .absent default => some (default, [])
      | [], .required => none
    let vs ← ofItems? depth fields items
    some ((name, v) :: vs)

end

/-- Reads a body against a shape. -/
def read? (s : Shape) (body : ByteArray) : Option Value := do
  ofTree? depthLimit s (← Tree.ofBytes? body.toList)

end AppServer.Json
