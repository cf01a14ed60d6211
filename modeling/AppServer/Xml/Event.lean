import AppServer.Xml.Whitespace

/-!
# XML events

A document is read from left to right into tags, text and CDATA sections. Comments, processing
instructions and declarations leave no event. An end tag has to name the last open element. What is
not well-formed ends the events with a mark, so that what stands before it can still be used.
-/

namespace AppServer.Xml

/-- A part of a document. -/
inductive Event
  /-- A start tag: the name, and what follows it unread. -/
  | start (name attributes : List Char)
  | finish
  /-- Characters between tags, references unresolved. -/
  | text (raw : List Char)
  | cdata (cs : List Char)
  | doctype
  /-- What follows is not well-formed. -/
  | malformed
deriving DecidableEq, Repr

/-- What stands before and after the first occurrence of `mark`. -/
def splitAtMark (mark : List Char) : List Char → Option (List Char × List Char)
  | [] => if mark.isEmpty then some ([], []) else none
  | c :: cs =>
    match mark.isPrefixOf? (c :: cs) with
    | some rest => some ([], rest)
    | none => (splitAtMark mark cs).map fun (before, rest) => (c :: before, rest)

/-- The inside of a tag up to its `>`; quotes hide it. -/
def takeTag (quote : Option Char) : List Char → Option (List Char × List Char)
  | [] => none
  | c :: cs =>
    match quote with
    | some q =>
      (takeTag (if c = q then none else quote) cs).map fun (tag, rest) => (c :: tag, rest)
    | none =>
      if c = '>' then some ([], cs)
      else
        let quote := if c = '"' ∨ c = '\'' then some c else none
        (takeTag quote cs).map fun (tag, rest) => (c :: tag, rest)

/-- The rest after the `>` that closes a document type, past the pairs inside. -/
def afterDoctype (depth : Nat) : List Char → Option (List Char)
  | [] => none
  | c :: cs =>
    if c = '<' then afterDoctype (depth + 1) cs
    else if c = '>' then
      match depth with
      | 0 => some cs
      | depth + 1 => afterDoctype depth cs
    else afterDoctype depth cs

/-- One piece of markup after its `<`: the events it makes, the elements open after it, and the
rest of the document. -/
structure Step where
  events : List Event
  opened : List (List Char)
  rest : List Char

/-- A start tag or an empty element. -/
def openTag (opened : List (List Char)) (tag rest : List Char) : Step :=
  let closed := tag.getLast? = some '/'
  let inside := if closed then tag.dropLast else tag
  let name := inside.takeWhile (!isSpace ·)
  let start := Event.start name (inside.dropWhile (!isSpace ·))
  if closed then ⟨[start, .finish], opened, rest⟩ else ⟨[start], name :: opened, rest⟩

/-- An end tag; blanks may follow its name. -/
def closeTag? (opened : List (List Char)) (tag rest : List Char) : Option Step :=
  let trimmed := (tag.reverse.dropWhile isSpace).reverse
  let name := if trimmed.isEmpty then tag else trimmed
  match opened with
  | top :: opened => if top = name then some ⟨[.finish], opened, rest⟩ else none
  | [] => none

/-- Markup after `<!`. -/
def bang? (opened : List (List Char)) (cs : List Char) : Option Step :=
  match cs with
  | '-' :: '-' :: body => (splitAtMark ['-', '-', '>'] body).map fun (_, rest) => ⟨[], opened, rest⟩
  | '[' :: body =>
    match "CDATA[".toList.isPrefixOf? body with
    | some body =>
      (splitAtMark [']', ']', '>'] body).map fun (inside, rest) =>
        ⟨[.cdata inside], opened, rest⟩
    | none => none
  | _ =>
    let word := (cs.take 7).map Char.toUpper
    if word = "DOCTYPE".toList then
      let body := cs.drop 7
      match (body.dropWhile isSpace).head? with
      | some '>' => none
      | _ => (afterDoctype 0 body).map fun rest => ⟨[.doctype], opened, rest⟩
    else none

/-- Markup after `<`. -/
def markup? (opened : List (List Char)) (cs : List Char) : Option Step :=
  match cs with
  | [] => none
  | '!' :: cs => bang? opened cs
  | '?' :: '>' :: _ => none
  | '?' :: cs => (splitAtMark ['?', '>'] cs).map fun (_, rest) => ⟨[], opened, rest⟩
  | '/' :: cs =>
    match cs.dropWhile (· != '>') with
    | [] => none
    | _ :: rest => closeTag? opened (cs.takeWhile (· != '>')) rest
  | _ => (takeTag none cs).map fun (tag, rest) => openTag opened tag rest

/-- Reads at most `fuel` pieces of markup and the text around them. -/
def readEvents : Nat → List (List Char) → List Char → List Event
  | 0, _, _ => [.malformed]
  | fuel + 1, opened, cs =>
    let text := cs.takeWhile (· != '<')
    let before := if text.isEmpty then [] else [Event.text text]
    match cs.dropWhile (· != '<') with
    | [] => before
    | _ :: rest =>
      match markup? opened rest with
      | none => before ++ [.malformed]
      | some step => before ++ step.events ++ readEvents fuel step.opened step.rest

/-- The events of a document. A byte order mark at its start is passed over. -/
def events (cs : List Char) : List Event :=
  let cs := if cs.head? = some '\ufeff' then cs.tail else cs
  readEvents (cs.length + 1) [] cs

end AppServer.Xml
