import AppServer.Text.Quoted

/-!
# Diagnostic text

A one-line form of a value for people who look into a running server: texts quoted, records with
their fields named, variants by name.
-/

namespace AppServer

/-- Types whose members have a diagnostic text. -/
class Inspect (α : Type) where
  inspect : α → String

export Inspect (inspect)

namespace Diagnostics

/-- Items in brackets. -/
def list (items : List String) : String :=
  "[" ++ ", ".intercalate items ++ "]"

/-- Something with one part. -/
def wrapped (name part : String) : String :=
  name ++ "(" ++ part ++ ")"

/-- Something with named fields. -/
def record (name : String) (fields : List (String × String)) : String :=
  name ++ " \x7b " ++ ", ".intercalate (fields.map fun (k, v) => k ++ ": " ++ v) ++ " \x7d"

end Diagnostics

instance : Inspect String := ⟨Text.quoted⟩
instance : Inspect Nat := ⟨toString⟩
instance : Inspect Bool := ⟨toString⟩

instance {α : Type} [Inspect α] : Inspect (List α) :=
  ⟨fun l => Diagnostics.list (l.map inspect)⟩

instance {α : Type} [Inspect α] : Inspect (Option α) :=
  ⟨fun o =>
    match o with
    | some a => Diagnostics.wrapped "Some" (inspect a)
    | none => "None"⟩

end AppServer
