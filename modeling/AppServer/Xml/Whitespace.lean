import AppServer.Number.Decimal

/-!
# Whitespace at the edges of text

Readers of XML trim the text between tags. So that nothing is lost, a space, tab or line feed at
either edge of such a text is written as a character reference, and a carriage return is wherever
it stands. Markup, from `<` to the next `>`, is left as it is.
-/

namespace AppServer.Xml

/-- The characters that a reader trims. -/
def isSpace (c : Char) : Bool :=
  c == ' ' || c == '\t' || c == '\n' || c == '\r'

/-- A part of a document: markup, or the text between. -/
inductive Run
  | markup (cs : List Char)
  | text (cs : List Char)
deriving DecidableEq, Repr

/-- Puts a character in front of the first run. -/
def consRun (c : Char) : List Run → List Run
  | .markup cs :: rest => .markup (c :: cs) :: rest
  | .text cs :: rest => .text (c :: cs) :: rest
  | [] => []

/-- The alternating runs of a document, beginning inside markup or between tags. -/
def runsFrom : (inside : Bool) → List Char → List Run
  | false, [] => [.text []]
  | true, [] => [.markup [], .text []]
  | false, c :: cs =>
    if c = '<' then .text [] :: consRun c (runsFrom true cs) else consRun c (runsFrom false cs)
  | true, c :: cs =>
    if c = '>' then .markup [c] :: runsFrom false cs else consRun c (runsFrom true cs)

/-- The alternating text and markup runs of a document; it starts and ends with a text, which may
be empty. -/
def runs (cs : List Char) : List Run :=
  runsFrom false cs

/-- A character by its number. -/
def reference (c : Char) : List Char :=
  '&' :: '#' :: (Number.digitsOf c.toNat ++ [';'])

/-- A character that does not stand at an edge. -/
def protectInner (c : Char) : List Char :=
  if c = '\r' then reference c else [c]

/-- A text whose edges are safe from trimming. -/
def protectText (cs : List Char) : List Char :=
  let lead := cs.takeWhile isSpace
  let rest := cs.dropWhile isSpace
  let trail := (rest.reverse.takeWhile isSpace).reverse
  let inner := (rest.reverse.dropWhile isSpace).reverse
  lead.flatMap reference ++ inner.flatMap protectInner ++ trail.flatMap reference

def Run.protect : Run → List Char
  | .markup cs => cs
  | .text cs => protectText cs

/-- A document in which no text between tags has whitespace to lose. -/
def protectEdges (cs : List Char) : List Char :=
  (runs cs).flatMap Run.protect

end AppServer.Xml
