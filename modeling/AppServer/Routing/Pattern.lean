import AppServer.Http.Request
import AppServer.Text.Percent
import AppServer.Text.Split

/-!
# Path patterns

A pattern is a sequence of literal segments and named parameters. It is written as a path in which
`:name` or `{name}` stands for a parameter; empty segments are skipped. The normal form writes every
parameter as `:name`.
-/

namespace AppServer.Routing

open AppServer.Http AppServer.Text

/-- Why a text is not a pattern. -/
inductive PatternFault
  | noLeadingSlash
  | unbalancedBraces
  | emptyName
  | markerInName
  | repeatedName
deriving DecidableEq, Repr

def PatternFault.reason : PatternFault → String
  | noLeadingSlash => "pattern must start with '/'"
  | unbalancedBraces => "unbalanced braces in segment"
  | emptyName => "parameter name must not be empty"
  | markerInName => "parameter name contains a marker character"
  | repeatedName => "parameter names must be unique"

/-- One segment of a pattern. -/
inductive Segment
  | literal (text : String)
  | param (name : String)
deriving DecidableEq, Repr

namespace Segment

/-- The characters that mark a parameter. -/
def isMarker (c : Char) : Bool :=
  c == '\x7b' || c == '\x7d' || c == ':'

/-- A parameter called `name`, unless that is empty or holds a marker. -/
def ofName (name : List Char) : Except PatternFault Segment :=
  if name.isEmpty then .error .emptyName
  else if name.any isMarker then .error .markerInName
  else .ok (.param (String.ofList name))

/-- Reads one non-empty segment. -/
def read : List Char → Except PatternFault Segment
  | ':' :: name => ofName name
  | '\x7b' :: rest =>
    if rest.getLast? = some '\x7d' then ofName rest.dropLast else .error .unbalancedBraces
  | cs =>
    if cs.any (fun c => c == '\x7b' || c == '\x7d') then .error .unbalancedBraces
    else .ok (.literal (String.ofList cs))

def isParam : Segment → Bool
  | .param _ => true
  | .literal _ => false

/-- The segment in normal form, after a slash. -/
def render : Segment → String
  | .literal text => "/" ++ text
  | .param name => "/:" ++ name

/-- Whether a segment of a path fits. -/
def accepts : Segment → String → Bool
  | .literal text, value => text == value
  | .param _, value => !value.isEmpty

/-- Whether some non-empty text fits both segments. -/
def overlaps : Segment → Segment → Bool
  | .literal a, .literal b => a == b
  | _, _ => true

/-- The capture that a segment makes of a path segment. Text that is not percent-encoded UTF-8 is
captured as it stands. -/
def capture? : Segment → String → Option (String × String)
  | .literal _, _ => none
  | .param name, value => some (name, Percent.decodeOrKeep value)

end Segment

/-- A pattern as its segments. -/
structure Pattern where
  segments : List Segment
deriving DecidableEq, Repr, Inhabited

namespace Pattern

/-- Adds a segment after those already read, unless it repeats a parameter. -/
def push (done : List Segment) (s : Segment) : Except PatternFault (List Segment) :=
  if s.isParam && done.contains s then .error .repeatedName else .ok (done ++ [s])

/-- Reads segments one after the other. -/
def readSegments (done : List Segment) : List String → Except PatternFault (List Segment)
  | [] => .ok done
  | part :: parts => do
    let s ← Segment.read part.toList
    let done ← push done s
    readSegments done parts

/-- Reads a pattern. -/
def parse (text : String) : Except PatternFault Pattern :=
  if text.toList.head? = some '/' then
    (readSegments [] (Text.segments text)).map Pattern.mk
  else .error .noLeadingSlash

/-- The normal form. -/
def render (p : Pattern) : String :=
  if p.segments.isEmpty then "/" else String.join (p.segments.map Segment.render)

instance : ToString Pattern := ⟨render⟩

/-- The number of segments. -/
def length (p : Pattern) : Nat :=
  p.segments.length

/-- The number of parameters; of two patterns the one with fewer is the more specific. -/
def paramCount (p : Pattern) : Nat :=
  p.segments.countP Segment.isParam

/-- Whether the segments of a path fit the pattern one by one. -/
def accepts (p : Pattern) (path : List String) : Bool :=
  p.segments.length == path.length &&
    (p.segments.zip path).all fun (s, value) => s.accepts value

/-- Whether some path fits both patterns. -/
def overlaps (p q : Pattern) : Bool :=
  p.segments.length == q.segments.length &&
    (p.segments.zip q.segments).all fun (a, b) => a.overlaps b

/-- The captures that the pattern makes of a path it accepts. -/
def capture (p : Pattern) (path : List String) : Params :=
  ⟨(p.segments.zip path).filterMap fun (s, value) => s.capture? value⟩

end Pattern

end AppServer.Routing
