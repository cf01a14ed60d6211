import AppServer.Data.Value
import AppServer.Number.Shortest
import AppServer.Xml.Name
import AppServer.Xml.Whitespace

/-!
# Writing XML

A struct or variant is an element of its own name; every other value is an element `response`, and
so is a struct whose name no element can have. Fields and map entries are child elements, or
attributes if their key starts with `@`, or text if it is `$text`, or content without an element of
their own if it is `$value`. A sequence repeats its element. An absent value on its own writes nothing.
-/

namespace AppServer.Xml

open AppServer.Data AppServer.Number

/-- The element around values without a name. -/
def rootName : String := "response"

/-- Where a text stands. -/
inductive Place
  | content
  | attributeValue
deriving DecidableEq, Repr

/-- One character of a text. -/
def escapeChar (place : Place) (c : Char) : List Char :=
  match c with
  | '&' => "&amp;".toList
  | '<' => "&lt;".toList
  | '>' => "&gt;".toList
  | '"' => if place = .attributeValue then "&quot;".toList else ['"']
  | c => [c]

/-- One character of an item in a list, which spaces separate. -/
def escapeItemChar (place : Place) (c : Char) : List Char :=
  if isSpace c then reference c else escapeChar place c

def escape (place : Place) (s : String) : List Char :=
  s.toList.flatMap (escapeChar place)

/-- A finite magnitude without exponent. -/
def magnitude (f : Format) (m : Nat) : List Char :=
  (f.shortest m).positional

/-- A floating-point number given by its bits. -/
def float (f : Format) (bits : Nat) : List Char :=
  let m := bits % f.signBit
  if f.infinity < m then "NaN".toList
  else
    let text := if m = f.infinity then "inf".toList else magnitude f m
    if f.signBit ≤ bits then '-' :: text else text

def int (n : Int) : List Char :=
  if n < 0 then '-' :: digitsOf n.natAbs else digitsOf n.natAbs

/-- The text of a scalar that is neither a text nor a variant. -/
def scalar? : Value → Option (List Char)
  | .bool b => some (if b then "true" else "false").toList
  | .int n => some (int n)
  | .float32 bits => some (float .binary32 bits.toNat)
  | .float64 bits => some (float .binary64 bits.toNat)
  | _ => none

/-- An item of a list in an attribute or text. -/
def item? (place : Place) : Value → Option (List Char)
  | .text s => some (s.toList.flatMap (escapeItemChar place))
  | .char c => some (escapeItemChar place c)
  | .none => some []
  | .some v => item? place v
  | .unit => some []
  | .unitStruct _ => some []
  | .unitVariant _ variant => some (variant.toList.flatMap (escapeItemChar place))
  | .newtypeStruct _ v => item? place v
  | v => scalar? v

/-- Items separated by spaces; empty ones are left out. -/
def spaceSeparated (items : List (List Char)) : List Char :=
  [' '].intercalate (items.filter (!·.isEmpty))

/-- A value without elements, for an attribute or a text. -/
def simple? (place : Place) : Value → Option (List Char)
  | .text s => some (escape place s)
  | .char c => some (escapeChar place c)
  | .none => some []
  | .some v => simple? place v
  | .unit => some []
  | .unitStruct _ => some []
  | .unitVariant _ variant => some (escape place variant)
  | .newtypeStruct _ v => simple? place v
  | .seq vs => (vs.mapM (item? place)).map spaceSeparated
  | .tuple vs => (vs.mapM (item? place)).map spaceSeparated
  | .tupleStruct _ vs => (vs.mapM (item? place)).map spaceSeparated
  | v => scalar? v

/-- The name that a map key gives to its element. -/
def key? : Value → Option (List Char)
  | .text s => some s.toList
  | .char c => some [c]
  | .some v => key? v
  | .unitVariant _ variant => some variant.toList
  | .newtypeStruct _ v => key? v
  | v => scalar? v

def emptyElement (name : List Char) : List Char :=
  '<' :: (name ++ ['/', '>'])

def wrap (name content : List Char) : List Char :=
  '<' :: (name ++ '>' :: (content ++ '<' :: '/' :: (name ++ ['>'])))

/-- What the fields of an element come to. -/
structure Inner where
  attributes : List Char
  children : List Char

def element (name : List Char) (inner : Inner) : List Char :=
  if inner.children.isEmpty then '<' :: (name ++ inner.attributes ++ ['/', '>'])
  else '<' :: (name ++ inner.attributes ++ '>' :: (inner.children ++ '<' :: '/' :: (name ++ ['>'])))

/-- An attribute after a space. -/
def attributeText (name value : List Char) : List Char :=
  ' ' :: (name ++ '=' :: '"' :: (value ++ ['"']))

/-- One field: an attribute, text, the content that its value makes, or its child element. -/
def field? (key : List Char) (v : Value) (content child : Option (List Char)) : Option Inner :=
  match key with
  | '@' :: name =>
    if isName name then (simple? .attributeValue v).map fun t => ⟨attributeText name t, []⟩
    else none
  | _ =>
    if key = "$text".toList then (simple? .content v).map fun t => ⟨[], t⟩
    else if key = "$value".toList then content.map fun t => ⟨[], t⟩
    else if isName key then child.map fun t => ⟨[], t⟩
    else none

/-- A variant as content: text if it is called `$text`, or the element that has its name. -/
def variant? (variant : String) (text child : Option (List Char)) : Option (List Char) :=
  if variant = "$text" then text
  else if isName variant.toList then child
  else none

mutual

/-- A value as an element, or several of one name. -/
def element? (name : List Char) : Value → Option (List Char)
  | .text s => some (if s.isEmpty then emptyElement name else wrap name (escape .content s))
  | .char c => some (wrap name (escapeChar .content c))
  | .none => some (emptyElement name)
  | .some v => element? name v
  | .unit => some (emptyElement name)
  | .unitStruct _ => some (emptyElement name)
  | .unitVariant _ variant =>
    some (if variant = "$text" then emptyElement name else wrap name (escape .content variant))
  | .newtypeStruct _ v => element? name v
  | .newtypeVariant _ _ _ => none
  | .seq vs => elements? name vs
  | .tuple vs => elements? name vs
  | .tupleStruct _ vs => elements? name vs
  | .tupleVariant _ _ _ => none
  | .map entries => (entries? entries).map (element name)
  | .struct _ fields => (fields? fields).map (element name)
  | .structVariant _ _ _ => none
  | .bool b => (scalar? (.bool b)).map (wrap name)
  | .int n => (scalar? (.int n)).map (wrap name)
  | .float32 bits => (scalar? (.float32 bits)).map (wrap name)
  | .float64 bits => (scalar? (.float64 bits)).map (wrap name)

def elements? (name : List Char) : List Value → Option (List Char)
  | [] => some []
  | v :: vs => do
    let t ← element? name v
    let ts ← elements? name vs
    some (t ++ ts)

/-- A value as content. Only variants make elements there, and structs and maps cannot stand there. -/
def content? : Value → Option (List Char)
  | .text s => some (escape .content s)
  | .char c => some (escapeChar .content c)
  | .none => some []
  | .some v => content? v
  | .unit => some []
  | .unitStruct _ => some []
  | .unitVariant _ variant => variant? variant (some []) (some (emptyElement variant.toList))
  | .newtypeStruct _ v => content? v
  | .newtypeVariant _ variant v =>
    variant? variant (simple? .content v) (element? variant.toList v)
  | .seq vs => contents? vs
  | .tuple vs => contents? vs
  | .tupleStruct _ vs => contents? vs
  | .tupleVariant _ variant vs =>
    variant? variant (simple? .content (.tuple vs)) (elements? variant.toList vs)
  | .map _ => none
  | .struct _ _ => none
  | .structVariant _ variant fields =>
    variant? variant none ((fields? fields).map (element variant.toList))
  | .bool b => scalar? (.bool b)
  | .int n => scalar? (.int n)
  | .float32 bits => scalar? (.float32 bits)
  | .float64 bits => scalar? (.float64 bits)

def contents? : List Value → Option (List Char)
  | [] => some []
  | v :: vs => do
    let t ← content? v
    let ts ← contents? vs
    some (t ++ ts)

def fields? : List (String × Value) → Option Inner
  | [] => some ⟨[], []⟩
  | (name, v) :: rest => do
    let first ← field? name.toList v (content? v) (element? name.toList v)
    let inner ← fields? rest
    some ⟨first.attributes ++ inner.attributes, first.children ++ inner.children⟩

def entries? : List (Value × Value) → Option Inner
  | [] => some ⟨[], []⟩
  | (k, v) :: rest => do
    let key ← key? k
    let first ← field? key v (content? v) (element? key v)
    let inner ← entries? rest
    some ⟨first.attributes ++ inner.attributes, first.children ++ inner.children⟩

end

/-- A value under the name it has itself, or nothing for an absent one. -/
def named? : Value → Option (List Char)
  | .none => some []
  | .some v => named? v
  | .unitStruct name => under name .unit
  | .unitVariant _ variant => under variant .unit
  | .newtypeStruct name v => under name v
  | .newtypeVariant _ variant v => under variant v
  | .tupleStruct name vs => under name (.tuple vs)
  | .tupleVariant _ variant vs => under variant (.tuple vs)
  | .struct name fields => under name (.struct name fields)
  | .structVariant _ variant fields => under variant (.struct variant fields)
  | _ => none
where
  under (name : String) (v : Value) : Option (List Char) :=
    if isName name.toList then element? name.toList v else none

/-- A value under the root name, whatever name it has. -/
def unnamed? : Value → Option (List Char)
  | .none => some []
  | .some v => unnamed? v
  | .unitVariant _ _ => some (emptyElement rootName.toList)
  | .newtypeVariant _ _ v => element? rootName.toList v
  | .tupleVariant _ _ vs => element? rootName.toList (.tuple vs)
  | .structVariant _ variant fields => element? rootName.toList (.struct variant fields)
  | v => element? rootName.toList v

/-- The XML text of a value, if it can be written. -/
def print? (v : Value) : Option (List Char) :=
  ((named? v).or (unnamed? v)).map protectEdges

/-- The XML text of a value as a string. -/
def render? (v : Value) : Option String :=
  (print? v).map String.ofList

end AppServer.Xml
