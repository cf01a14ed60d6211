import AppServer.Text.Blank

/-!
# Variables from a file

One assignment a line, `name=value`, possibly after the word `export`. Blank lines and lines that
begin with `#` are passed over. A value may be quoted; outside quotes a blank ends it and only a
comment may follow. Reading stops at the first line that is none of this.
-/

namespace AppServer.EnvFile

open AppServer.Text

/-- How the characters of a value are being read. -/
inductive Mode
  | plain
  /-- Between single quotes, where every character stands for itself. -/
  | single
  /-- Between double quotes, where a backslash escapes. -/
  | double
  /-- Behind the value. -/
  | done
deriving DecidableEq, Repr

/-- The character that an escape stands for. -/
def escaped? (c : Char) : Option Char :=
  if c = 'n' then some '\n'
  else if ['\\', '\x27', '"', '$', ' '].contains c then some c
  else none

/-- Reads a value to the end of the line. -/
def value? : Mode → List Char → Option (List Char)
  | .plain, [] | .done, [] => some []
  | .single, [] | .double, [] => none
  | .done, c :: cs =>
    if c = ' ' ∨ c = '\t' then value? .done cs else if c = '#' then some [] else none
  | .single, c :: cs =>
    if c = '\x27' then value? .plain cs else (value? .single cs).map (c :: ·)
  | .double, '\\' :: c :: cs => do
    let d ← escaped? c
    (value? .double cs).map (d :: ·)
  | .plain, '\\' :: c :: cs => do
    let d ← escaped? c
    (value? .plain cs).map (d :: ·)
  | .double, c :: cs =>
    if c = '"' then value? .plain cs else (value? .double cs).map (c :: ·)
  | .plain, c :: cs =>
    if c = '\x27' then value? .single cs
    else if c = '"' then value? .double cs
    else if c = ' ' ∨ c = '\t' then value? .done cs
    else (value? .plain cs).map (c :: ·)

def isNameStart (c : Char) : Bool :=
  c.isAlpha || c == '_'

def isNameChar (c : Char) : Bool :=
  c.isAlphanum || c == '_' || c == '.'

/-- Reads a name and the blanks after it. -/
def name? (cs : List Char) : Option (List Char × List Char) :=
  match cs with
  | c :: _ =>
    if isNameStart c then
      some (cs.takeWhile isNameChar, (cs.dropWhile isNameChar).dropWhile isBlank)
    else none
  | [] => none

/-- Reads the value behind the sign of equality. -/
def assigned? (name cs : List Char) : Option (String × String) :=
  match cs with
  | '=' :: cs =>
    let cs := cs.dropWhile isBlank
    let value := if cs.head? = some '#' then some [] else value? .plain cs
    value.map fun v => (String.ofList name, String.ofList v)
  | _ => none

/-- Reads a line that is neither blank nor a comment. -/
def assignment? (cs : List Char) : Option (String × String) := do
  let (name, rest) ← name? cs
  if name = "export".toList ∧ rest.head? ≠ some '=' then
    let (name, rest) ← name? rest
    assigned? name rest
  else assigned? name rest

/-- The assignments of some lines, up to the first line that cannot be read. -/
def ofLines : List (List Char) → List (String × String)
  | [] => []
  | line :: lines =>
    let cs := line.dropWhile isBlank
    if cs.isEmpty || cs.head? == some '#' then ofLines lines
    else
      match assignment? cs with
      | some a => a :: ofLines lines
      | none => []

/-- The assignments in a file. -/
def read (text : String) : List (String × String) :=
  ofLines ((splitOn '\n' text.toList).map fun line =>
    if line.getLast? = some '\r' then line.dropLast else line)

/-- The variables of an environment, and those assigned in a file that it lacks; of several
assignments to one name the first counts. -/
def extend (environment assignments : List (String × String)) : List (String × String) :=
  assignments.foldl (fun vars (name, value) =>
    if vars.any (·.1 == name) then vars else vars ++ [(name, value)]) environment

end AppServer.EnvFile
