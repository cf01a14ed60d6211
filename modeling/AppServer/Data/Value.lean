import AppServer.Data.Sorted

/-!
# Structured values

What a resource returns and what a body is read into, before any format is chosen: scalars,
optional values, records, variants, sequences and maps. Floating-point numbers are held as the
bits of their format.
-/

namespace AppServer.Data

/-- A structured value. Structs, variants and their fields carry their declared names. -/
inductive Value
  | text (s : String)
  | char (c : Char)
  | bool (b : Bool)
  | int (n : Int)
  | float32 (bits : UInt32)
  | float64 (bits : UInt64)
  | none
  | some (v : Value)
  | unit
  | unitStruct (name : String)
  | unitVariant (name variant : String)
  | newtypeStruct (name : String) (v : Value)
  | newtypeVariant (name variant : String) (v : Value)
  | seq (vs : List Value)
  | tuple (vs : List Value)
  | tupleStruct (name : String) (vs : List Value)
  | tupleVariant (name variant : String) (vs : List Value)
  | map (entries : List (Value × Value))
  | struct (name : String) (fields : List (String × Value))
  | structVariant (name variant : String) (fields : List (String × Value))
deriving Inhabited

namespace Value

/-- The field of a struct called `name`. -/
def field? (name : String) : Value → Option Value
  | .struct _ fields => lookup? name fields
  | _ => Option.none

def text? : Value → Option String
  | .text s => Option.some s
  | _ => Option.none

def bool? : Value → Option Bool
  | .bool b => Option.some b
  | _ => Option.none

/-- A whole number that is not negative. -/
def nat? : Value → Option Nat
  | .int (.ofNat n) => Option.some n
  | _ => Option.none

/-- An optional value seen through `read`. -/
def option? {α : Type} (read : Value → Option α) : Value → Option (Option α)
  | .none => Option.some Option.none
  | .some v => (read v).map Option.some
  | _ => Option.none

/-- The items of a sequence, each seen through `read`. -/
def list? {α : Type} (read : Value → Option α) : Value → Option (List α)
  | .seq vs => vs.mapM read
  | _ => Option.none

/-- An optional value, written. -/
def ofOption (v : Option Value) : Value :=
  match v with
  | Option.none => .none
  | Option.some v => .some v

end Value

/-- Types whose members have a structured form. -/
class ToValue (α : Type) where
  toValue : α → Value

export ToValue (toValue)

instance : ToValue Value := ⟨id⟩
instance : ToValue String := ⟨.text⟩
instance {α : Type} [ToValue α] : ToValue (Option α) := ⟨fun x => .ofOption (x.map toValue)⟩

end AppServer.Data
