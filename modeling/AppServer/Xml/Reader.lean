import AppServer.Data.Shape
import AppServer.Xml.Node

/-!
# Reading XML bodies

A body is read as its first element, whatever its name; what follows is not looked at. A struct
takes its fields from child elements by local name and from attributes by `@` and name. A list
takes neighbouring elements of one name. An element that holds an element has no text.
-/

namespace AppServer.Xml

open AppServer.Data AppServer.Number

/-- Truth values as they may be written. -/
def readBool? (s : String) : Option Bool :=
  if ["1", "true", "True", "TRUE", "t", "Yes", "yes", "YES", "y"].contains s then some true
  else if ["0", "false", "False", "FALSE", "f", "No", "no", "NO", "n"].contains s then some false
  else none

/-- Reads the text of a scalar. -/
def ofText? : Shape → String → Option Value
  | .text, s => some (.text s)
  | .nat32, s => (readNat Shape.greatestNat32 s.toList).toOption.map fun n => .int n
  | .int64, s => (readInt (Shape.greatestInt64 + 1) Shape.greatestInt64 s.toList).toOption.map .int
  | .bool, s => (readBool? s).map .bool
  | .option item, s => if s.isEmpty then some .none else (ofText? item s).map .some
  | .oneOf name variants, s => if variants.contains s then some (.unitVariant name s) else none
  | .any, s => some (.text s)
  | _, _ => none

/-- The text of an element that holds no element. -/
def contentText? : List Node → Option String
  | [] => some ""
  | [.text pieces] => runText? pieces
  | _ => none

/-- A part of an element under its key. -/
inductive Entry
  /-- An attribute value, unresolved. -/
  | attr (raw : List Char)
  /-- A run of character data, resolved. -/
  | run (s : String)
  /-- Neighbouring elements, and text between them, that make up one field. -/
  | nodes (ns : List Node)

/-- Whether a node continues a list of elements called `name`. -/
def continuesList (name : List Char) : Node → Bool
  | .text _ => true
  | .element n _ _ => n == name

/-- Cuts children into entries by local name; a list takes its neighbours along. -/
def entriesOf (isList : String → Bool) : Nat → List Node → Option (List (String × Entry))
  | 0, _ => none
  | _, [] => some []
  | fuel + 1, .text pieces :: rest => do
    let s ← runText? pieces
    let entries ← entriesOf isList fuel rest
    some (("$text", .run s) :: entries)
  | fuel + 1, .element name attributes children :: rest => do
    let key := String.ofList (localName name)
    let taken := if isList key then rest.takeWhile (continuesList name) else []
    let entries ← entriesOf isList fuel (rest.drop taken.length)
    some ((key, .nodes (.element name attributes children :: taken)) :: entries)

/-- The attributes of an element as entries. -/
def attributeEntries? (attributes : List Char) : Option (List (String × Entry)) := do
  let found ← readAttributes (attributes.length + 1) [] attributes
  some (found.map fun (name, raw) => (attributeKey name, .attr raw))

/-- Whether an element that no field takes can be passed over: text at its start has to be
readable. -/
def skippable : Entry → Bool
  | .nodes [.element _ _ (.text pieces :: _)] => (runText? pieces).isSome
  | _ => true

mutual

/-- Whatever an element holds. -/
def anyValue? : Node → Option Value
  | .text pieces => (runText? pieces).map .text
  | .element _ attributes children => do
    let found ← readAttributes (attributes.length + 1) [] attributes
    let attrs ← found.mapM fun (name, raw) =>
      (resolve? raw).map fun cs => (attributeKey name, Value.text (String.ofList cs))
    let kids ← anyChildren? children
    some (.map ((sortEntries (attrs ++ kids)).map fun (k, v) => (.text k, v)))

def anyChildren? : List Node → Option (List (String × Value))
  | [] => some []
  | n :: ns => do
    let key := match n with
      | .text _ => "$text"
      | .element name _ _ => String.ofList (localName name)
    let v ← anyValue? n
    let rest ← anyChildren? ns
    some ((key, v) :: rest)

end

/-- The text of an entry that is a single text. -/
def entryText? : Entry → Option String
  | .attr raw => (resolve? raw).map String.ofList
  | .run s => some s
  | .nodes [.element _ _ children] => contentText? children
  | .nodes _ => none

def isListShape : Shape → Bool
  | .list _ => true
  | _ => false

/-- Whether the field called `key` is a list. -/
def isListField (fields : List (String × Shape × Presence)) (key : String) : Bool :=
  fields.any fun (name, shape, _) => name == key && isListShape shape

/-- Reads an entry against the shape of its field: a single element by `whole`, those of a list by
`item`. -/
def ofEntry? (shape : Shape) (whole : Node → Option Value) (item : Option (Node → Option Value)) :
    Entry → Option Value
  | .nodes ns =>
    match item, ns with
    | some read, ns => (ns.mapM read).map .seq
    | none, [n] => whole n
    | none, _ => none
  | .run s => ofText? shape s
  | .attr raw => do ofText? shape (String.ofList (← resolve? raw))

mutual

/-- Reads a node against a shape. -/
def ofNode? : Shape → Node → Option Value
  | .any, n => anyValue? n
  | .option item, .element name attributes children =>
    (ofNode? item (.element name attributes children)).map .some
  | .textMap, .element _ attributes children => do
    let attrs ← attributeEntries? attributes
    let kids ← entriesOf (fun _ => false) (children.length + 1) children
    let entries ← (attrs ++ kids).mapM fun (key, entry) =>
      (entryText? entry).map fun s => (key, s)
    some (.map ((sortEntries entries).map fun (k, v) => (.text k, .text v)))
  | .struct name fields, .element _ attributes children => do
    let attrs ← attributeEntries? attributes
    let kids ← entriesOf (isListField fields) (children.length + 1) children
    let entries := attrs ++ kids
    if entries.all fun (key, entry) => fields.any (·.1 == key) || skippable entry then
      (ofEntries? fields entries).map (.struct name)
    else none
  | .list _, _ => none
  | shape, .text pieces => do ofText? shape (← runText? pieces)
  | shape, .element _ _ children => do ofText? shape (← contentText? children)

/-- Reads the fields of a struct; none may occur twice. -/
def ofEntries? : List (String × Shape × Presence) → List (String × Entry) →
    Option (List (String × Value))
  | [], _ => some []
  | (name, shape, presence) :: fields, entries => do
    let v ← match entries.filter (·.1 == name), presence with
      | [], .absent default => some default
      | [(_, entry)], _ =>
        let item := match shape with
          | .list item => some (ofNode? item)
          | _ => none
        ofEntry? shape (ofNode? shape) item entry
      | _, _ => none
    let vs ← ofEntries? fields entries
    some ((name, v) :: vs)

end

/-- Reads a document against a shape. A list at the top takes every node, and an absent document is
an absent value. -/
def ofDocument? (shape : Shape) (cs : List Char) : Option Value :=
  let evs := events cs
  match shape with
  | .list item => do
    let nodes ← Node.all? (evs.length + 1) [] evs
    (nodes.mapM (ofNode? item)).map .seq
  | .option item =>
    match Node.next (evs.length + 1) evs with
    | .node n _ => (ofNode? (.option item) n)
    | .endOfInput => some .none
    | .malformed => none
  | shape => do ofNode? shape (← Node.first? evs)

/-- Reads a body against a shape. -/
def read? (shape : Shape) (body : ByteArray) : Option Value := do
  ofDocument? shape (← String.fromUTF8? body).toList

end AppServer.Xml
