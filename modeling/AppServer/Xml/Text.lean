import AppServer.Xml.Event

/-!
# Character data

The five named references and numeric references are resolved; any other reference is refused. A
run of text and CDATA is trimmed at its outer edges where it is text, before its references are
resolved.
-/

namespace AppServer.Xml

open AppServer.Number

/-- The value of a hexadecimal digit. -/
def hexDigit? (c : Char) : Option Nat :=
  if '0' ≤ c && c ≤ '9' then some (c.toNat - 48)
  else if 'a' ≤ c && c ≤ 'f' then some (c.toNat - 87)
  else if 'A' ≤ c && c ≤ 'F' then some (c.toNat - 55)
  else none

/-- The number that hexadecimal digits spell, at least one. -/
def hexNumber? : List Char → Option Nat
  | [] => none
  | cs => cs.foldlM (fun n c => (hexDigit? c).map (16 * n + ·)) 0

def decimalNumber? : List Char → Option Nat
  | [] => none
  | cs => if cs.all isDigit then some (digitsValue cs) else none

/-- The character with a number; zero and the surrogates have none. -/
def characterOf? (n : Nat) : Option Char :=
  if n = 0 then none
  else if h : n.isValidChar then some (Char.ofNatAux n h)
  else none

/-- The character that a reference between `&` and `;` stands for. -/
def resolveName? (name : List Char) : Option Char :=
  match name with
  | '#' :: 'x' :: digits => (hexNumber? digits).bind characterOf?
  | '#' :: digits => (decimalNumber? digits).bind characterOf?
  | _ =>
    if name = "lt".toList then some '<'
    else if name = "gt".toList then some '>'
    else if name = "amp".toList then some '&'
    else if name = "apos".toList then some '\''
    else if name = "quot".toList then some '"'
    else none

/-- Resolves references; `name` is the one being read, in reverse, if any. -/
def resolveFrom (name : Option (List Char)) (done : List Char) : List Char → Option (List Char)
  | [] => if name.isSome then none else some done.reverse
  | c :: cs =>
    match name with
    | some n =>
      if c = ';' then
        match resolveName? n.reverse with
        | some r => resolveFrom none (r :: done) cs
        | none => none
      else if c = '&' then none
      else resolveFrom (some (c :: n)) done cs
    | none => if c = '&' then resolveFrom (some []) done cs else resolveFrom none (c :: done) cs

/-- A text with its references resolved. -/
def resolve? (raw : List Char) : Option (List Char) :=
  resolveFrom none [] raw

/-- One part of a run of character data. -/
inductive Piece
  | raw (cs : List Char)
  | literal (cs : List Char)
deriving DecidableEq, Repr

namespace Piece

def isBlank : Piece → Bool
  | raw cs => cs.all isSpace
  | literal _ => false

def trimStart : Piece → Piece
  | raw cs => raw (cs.dropWhile isSpace)
  | literal cs => literal cs

def trimEnd : Piece → Piece
  | raw cs => raw (cs.reverse.dropWhile isSpace).reverse
  | literal cs => literal cs

def text? : Piece → Option (List Char)
  | raw cs => resolve? cs
  | literal cs => some cs

end Piece

/-- A run trimmed at its edges. Blank text at its start does not count as part of it. -/
def trimRun (pieces : List Piece) : List Piece :=
  match pieces.dropWhile Piece.isBlank with
  | [] => []
  | first :: rest =>
    match (first.trimStart :: rest).reverse with
    | [] => []
    | last :: before => (last.trimEnd :: before).reverse

/-- The text of a run. -/
def runText? (pieces : List Piece) : Option String := do
  let parts ← pieces.mapM Piece.text?
  some (String.ofList parts.flatten)

end AppServer.Xml
