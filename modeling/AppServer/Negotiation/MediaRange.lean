import AppServer.Negotiation.Quality

/-!
# Media ranges

One element of an `Accept` value: a type and a subtype, either of which may be `*`, and the
quality the client gives to what falls within. A range is read from the text before the first
semicolon; of its parameters only the first `q` counts.
-/

namespace AppServer.Negotiation

open AppServer.Text

/-- A range of media types with a quality. -/
structure MediaRange where
  /-- The main type in lower case, `*` for any. -/
  main : String
  /-- The subtype in lower case, `*` for any. -/
  sub : String
  quality : Quality
deriving DecidableEq, Repr, Inhabited

/-- The main type and subtype of a media type. -/
def splitMediaType? (mediaType : String) : Option (String × String) :=
  (splitOnce '/' mediaType.toList).map fun (m, s) => (String.ofList m, String.ofList s)

/-- The text before the first semicolon, trimmed and in lower case. -/
def essenceOf (cs : List Char) : List Char :=
  (trim (before ';' cs)).map Char.toLower

/-- A content type without its parameters. -/
def essence (contentType : String) : String :=
  String.ofList (essenceOf contentType.toList)

namespace MediaRange

/-- The quality that the parameters of a range state. -/
def qualityOf (params : List (List Char)) : Quality :=
  let stated := (params.filterMap (splitOnce '=')).find? fun (k, _) =>
    (trim k).map Char.toLower == ['q']
  match stated with
  | some (_, v) => (Quality.read (trim v)).clamp
  | none => .one

/-- Reads one element of an `Accept` value. -/
def parse? (element : List Char) : Option MediaRange := do
  let (m, s) ← splitOnce '/' (essenceOf element)
  let m := trim m
  let s := trim s
  if m.isEmpty || s.isEmpty || (m == ['*'] && s != ['*']) then none
  else
    some ⟨String.ofList m, String.ofList s, qualityOf (splitOn ';' element).tail⟩

/-- 0 for `*/*`, 1 for a main type with any subtype, 2 for a concrete type. -/
def specificity (r : MediaRange) : Nat :=
  if r.main = "*" then 0 else if r.sub = "*" then 1 else 2

/-- Whether a media type falls within the range. -/
def covers (r : MediaRange) (mediaType : String) : Bool :=
  match splitMediaType? mediaType with
  | none => false
  | some (m, s) =>
    (r.main == "*" || sameLetters r.main m) && (r.sub == "*" || sameLetters r.sub s)

end MediaRange

end AppServer.Negotiation
