import AppServer.Data.Value

/-!
# Shapes of values to be read

A shape says what a body has to hold. A reader of a format takes a shape and a body and yields a
value of that shape; fields of a body that a struct does not name are passed over.
-/

namespace AppServer.Data

/-- What becomes of a field that the body lacks. -/
inductive Presence
  | required
  | absent (default : Value)
deriving Inhabited

/-- The form of a value to be read. -/
inductive Shape
  | text
  /-- Whole numbers from 0 that fit in 32 bits. -/
  | nat32
  /-- Whole numbers that fit in 64 bits with their sign. -/
  | int64
  | bool
  | option (item : Shape)
  | list (item : Shape)
  /-- Texts keyed by texts, in the order of the keys; the last value of a key counts. -/
  | textMap
  /-- Whatever the body holds. -/
  | any
  /-- One of several names. -/
  | oneOf (name : String) (variants : List String)
  | struct (name : String) (fields : List (String × Shape × Presence))
deriving Inhabited

/-- The greatest number of shape `nat32`. -/
def Shape.greatestNat32 : Nat := UInt32.size - 1

/-- The greatest number of shape `int64`; the least is one further from zero. -/
def Shape.greatestInt64 : Nat := UInt64.size / 2 - 1

/-- Types whose members can be read from a body. -/
class OfValue (α : Type) where
  shape : Shape
  ofValue? : Value → Option α

export OfValue (shape ofValue?)

end AppServer.Data
