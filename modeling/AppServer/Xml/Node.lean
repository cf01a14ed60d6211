import AppServer.Xml.Text

/-!
# XML trees

Events nest into elements. Runs of character data between tags are trimmed, and what is blank is
left out. An element without its end, or with something malformed inside, is no tree.
-/

namespace AppServer.Xml

/-- An element with its attributes unread, or a run of character data. -/
inductive Node
  | text (pieces : List Piece)
  | element (name attributes : List Char) (children : List Node)
deriving Inhabited

namespace Node

/-- The pieces of character data at the start of some events, and the events after them. -/
def takeRun : List Event → List Piece × List Event
  | .text raw :: rest =>
    let (pieces, rest) := takeRun rest
    (.raw raw :: pieces, rest)
  | .cdata cs :: rest =>
    let (pieces, rest) := takeRun rest
    (.literal cs :: pieces, rest)
  | rest => ([], rest)

/-- A run as a node, unless nothing is left of it. -/
def ofRun? (pieces : List Piece) : Option Node :=
  match trimRun pieces with
  | [] => none
  | pieces => some (.text pieces)

/-- Reads the children of an element up to its end; `done` holds those read, in reverse. -/
def readChildren : Nat → List Node → List Event → Option (List Node × List Event)
  | 0, _, _ => none
  | fuel + 1, done, events =>
    let (pieces, events) := takeRun events
    let done := match ofRun? pieces with
      | some node => node :: done
      | none => done
    match events with
    | .finish :: rest => some (done.reverse, rest)
    | .doctype :: rest => readChildren fuel done rest
    | .start name attributes :: rest =>
      match readChildren fuel [] rest with
      | some (children, rest) => readChildren fuel (.element name attributes children :: done) rest
      | none => none
    | _ => none

/-- What comes next at the top of a document. -/
inductive Next
  | node (n : Node) (rest : List Event)
  | endOfInput
  | malformed

/-- Reads the next node at the top of a document. -/
def next : Nat → List Event → Next
  | 0, _ => .malformed
  | fuel + 1, events =>
    let (pieces, rest) := takeRun events
    match ofRun? pieces with
    | some node => .node node rest
    | none =>
      match rest with
      | [] => .endOfInput
      | .doctype :: rest => next fuel rest
      | .start name attributes :: rest =>
        match readChildren (rest.length + 1) [] rest with
        | some (children, rest) => .node (.element name attributes children) rest
        | none => .malformed
      | _ => .malformed

/-- The first node of a document, if it has one. -/
def first? (events : List Event) : Option Node :=
  match next (events.length + 1) events with
  | .node n _ => some n
  | _ => none

/-- All nodes at the top of a document. -/
def all? : Nat → List Node → List Event → Option (List Node)
  | 0, _, _ => none
  | fuel + 1, done, events =>
    match next (events.length + 1) events with
    | .node n rest => all? fuel (n :: done) rest
    | .endOfInput => some done.reverse
    | .malformed => none

end Node

/-- The attributes of a tag: names with unresolved values. No name may occur twice. -/
def readAttributes : Nat → List (List Char × List Char) → List Char →
    Option (List (List Char × List Char))
  | 0, _, _ => none
  | fuel + 1, done, cs =>
    match cs.dropWhile isSpace with
    | [] => some done.reverse
    | c :: rest =>
      let name := c :: rest.takeWhile fun c => c != '=' && !isSpace c
      match (rest.dropWhile fun c => c != '=' && !isSpace c).dropWhile isSpace with
      | '=' :: rest =>
        match rest.dropWhile isSpace with
        | q :: rest =>
          if q = '"' ∨ q = '\'' then
            match rest.dropWhile (· != q) with
            | [] => none
            | _ :: after =>
              if done.any (·.1 == name) then none
              else readAttributes fuel ((name, rest.takeWhile (· != q)) :: done) after
          else none
        | [] => none
      | _ => none

/-- A name without its prefix. -/
def localName (name : List Char) : List Char :=
  match name.dropWhile (· != ':') with
  | [] => name
  | _ :: rest => rest

/-- The key of an attribute: its name without prefix after `@`. A namespace declaration keeps its
whole name. -/
def attributeKey (name : List Char) : String :=
  let declaration := name = "xmlns".toList ∨ name.take 6 = "xmlns:".toList
  String.ofList ('@' :: if declaration then name else localName name)

end AppServer.Xml
