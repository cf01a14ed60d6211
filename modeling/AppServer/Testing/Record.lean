import AppServer.Data.Shape

/-!
# Sample entities

Small types of body for exercising providers and resources, with their structured forms.
-/

namespace AppServer.Testing

open AppServer.Data

/-- Reads a 32-bit number. -/
def word? (v : Value) : Option UInt32 :=
  v.nat?.map UInt32.ofNat

/-- A record with a field of every common kind. -/
structure Record where
  id : String
  count : UInt32
  active : Bool
  tags : List String
  note : Option String
deriving DecidableEq, Repr, Inhabited

namespace Record

instance : ToValue Record where
  toValue r := .struct "Record" [
    ("id", .text r.id),
    ("count", .int r.count.toNat),
    ("active", .bool r.active),
    ("tags", .seq (r.tags.map .text)),
    ("note", toValue r.note)]

instance : OfValue Record where
  shape := .struct "Record" [
    ("id", .text, .required),
    ("count", .nat32, .required),
    ("active", .bool, .absent (.bool false)),
    ("tags", .list .text, .absent (.seq [])),
    ("note", .option .text, .absent .none)]
  ofValue? v := do
    some {
      id := ← (← v.field? "id").text?
      count := ← word? (← v.field? "count")
      active := ← (← v.field? "active").bool?
      tags := ← (← v.field? "tags").list? Value.text?
      note := ← (← v.field? "note").option? Value.text? }

end Record

/-- A value to be read, by the name of its type. -/
def shapeCalled? : String → Option Shape
  | "record" => some (shape Record)
  | "item" => some item
  | "strict" => some (.struct "Strict" [("name", .text, .required), ("@kind", .text, .required)])
  | "nested" => some (.struct "Nested" [
      ("item", item, .required), ("level", .oneOf "Level" ["low", "high"], .required)])
  | "string" => some .text
  | "u32" => some .nat32
  | "i64" => some .int64
  | "bool" => some .bool
  | "opt_u32" => some (.option .nat32)
  | "strings" => some (.list .text)
  | "map" => some .textMap
  | "value" => some .any
  | _ => none
where
  item : Shape := .struct "Item" [("id", .text, .required), ("count", .nat32, .required)]

end AppServer.Testing
