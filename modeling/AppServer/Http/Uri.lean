/-!
# Request targets

A target is a path with an optional query, `*`, an absolute URI, or a bare authority. A fragment
is read and dropped. Bytes outside ASCII must form UTF-8.
-/

namespace AppServer.Http

/-- A request target taken apart. -/
structure Uri where
  scheme : Option String
  authority : Option String
  /-- The path as written; empty if nothing was. -/
  rawPath : String
  query : Option String
deriving DecidableEq, Repr, Inhabited

namespace Uri

/-- The path, which reads as `/` when a scheme or a query stands without one. -/
def path (u : Uri) : String :=
  if u.rawPath.isEmpty && (u.scheme.isSome || u.query.isSome) then "/" else u.rawPath

/-- The target as text. -/
def render (u : Uri) : String :=
  (match u.scheme with | some s => s ++ "://" | none => "") ++
    u.authority.getD "" ++ u.path ++
    (match u.query with | some q => "?" ++ q | none => "")

instance : ToString Uri := ⟨render⟩

/-- The target `/`. -/
def root : Uri := ⟨none, none, "/", none⟩

/-- Bytes of a path. -/
def isPathByte (b : UInt8) : Bool :=
  0x20 < b && b != 0x7F && b != 0x3C && b != 0x3E && b != 0x60 && b != 0x3F && b != 0x23

/-- Bytes of a query. -/
def isQueryByte (b : UInt8) : Bool :=
  0x20 < b && b != 0x7F && b != 0x3C && b != 0x3E && b != 0x22 && b != 0x23

/-- Letters, digits, and the marks a scheme may hold. -/
def isSchemeByte (b : UInt8) : Bool :=
  (0x30 ≤ b && b ≤ 0x39) || (0x41 ≤ b && b ≤ 0x5A) || (0x61 ≤ b && b ≤ 0x7A) ||
    b == 0x2B || b == 0x2D || b == 0x2E

/-- Bytes of an authority other than `%`. -/
def isAuthorityByte (b : UInt8) : Bool :=
  (0x30 ≤ b && b ≤ 0x39) || (0x41 ≤ b && b ≤ 0x5A) || (0x61 ≤ b && b ≤ 0x7A) ||
    "!$&'()*+,-.:;=@[]_~".toUTF8.toList.contains b

/-- The bytes that end an authority. -/
def endsAuthority (b : UInt8) : Bool :=
  b == 0x2F || b == 0x3F || b == 0x23

/-- What has been seen of an authority. -/
structure AuthorityScan where
  colons : Nat := 0
  opened : Bool := false
  closed : Bool := false
  percent : Bool := false
  /-- The last byte read was `@`. -/
  atEnd : Bool := false

namespace AuthorityScan

/-- Reads one byte. A user part before `@` and an address in brackets may hold colons and percent
signs that do not count afterwards. -/
def step (s : AuthorityScan) (b : UInt8) : Option AuthorityScan :=
  let s := { s with atEnd := false }
  if b == 0x3A then
    if s.colons ≥ 8 then none else some { s with colons := s.colons + 1 }
  else if b == 0x5B then
    if s.percent || s.opened then none else some { s with opened := true }
  else if b == 0x5D then
    if !s.opened || s.closed then none
    else some { s with closed := true, colons := 0, percent := false }
  else if b == 0x40 then some { s with colons := 0, percent := false, atEnd := true }
  else if b == 0x25 then some { s with percent := true }
  else if isAuthorityByte b then some s
  else none

/-- Whether an authority may end here. -/
def accepts (s : AuthorityScan) : Bool :=
  s.opened == s.closed && s.colons ≤ 1 && !s.atEnd && !s.percent

end AuthorityScan

/-- An authority as far as a slash, question mark or number sign, and the rest. -/
def takeAuthority? (bytes : List UInt8) : Option (List UInt8 × List UInt8) :=
  let name := bytes.takeWhile (!endsAuthority ·)
  match name.foldlM AuthorityScan.step {} with
  | some s => if s.accepts then some (name, bytes.dropWhile (!endsAuthority ·)) else none
  | none => none

/-- The text of some bytes, if they are UTF-8. -/
def text? (bytes : List UInt8) : Option String :=
  String.fromUTF8? bytes.toByteArray

/-- Reads a path, a query and a fragment. -/
def pathAndQuery? (bytes : List UInt8) : Option (String × Option String) := do
  let path := bytes.takeWhile isPathByte
  match bytes.dropWhile isPathByte with
  | [] => some (← text? path, none)
  | 0x23 :: _ => some (← text? path, none)
  | 0x3F :: rest =>
    let query := rest.takeWhile isQueryByte
    match rest.dropWhile isQueryByte with
    | [] => some (← text? path, some (← text? query))
    | 0x23 :: _ => some (← text? path, some (← text? query))
    | _ => none
  | _ => none

/-- The scheme before `://` and what follows; the two web schemes in lower case. -/
def takeScheme? (bytes : List UInt8) : Option (String × List UInt8) :=
  let name := bytes.takeWhile isSchemeByte
  match bytes.dropWhile isSchemeByte with
  | 0x3A :: 0x2F :: 0x2F :: rest => do
    let s ← text? name
    let low := String.ofList (s.toList.map Char.toLower)
    some (if low = "http" ∨ low = "https" then low else s, rest)
  | _ => none

/-- The longest target that is read, in bytes. -/
def maxLength : Nat := 65534

/-- The longest scheme that is read. -/
def maxSchemeLength : Nat := 64

/-- Reads a request target. -/
def ofBytes? (bytes : List UInt8) : Option Uri :=
  if bytes.length > maxLength then none
  else match bytes with
  | [] => none
  | [0x2A] => some ⟨none, none, "*", none⟩
  | 0x2F :: _ => do
    let (path, query) ← pathAndQuery? bytes
    some ⟨none, none, path, query⟩
  | _ =>
    match (if bytes.length > 3 then takeScheme? bytes else none) with
    | some (scheme, rest) =>
      if scheme.length > maxSchemeLength then none
      else do
        let (authority, rest) ← takeAuthority? rest
        if authority.isEmpty then none
        else
          let (path, query) ← pathAndQuery? rest
          some ⟨some scheme, some (← text? authority), path, query⟩
    | none => do
      let (authority, rest) ← takeAuthority? bytes
      if rest.isEmpty then some ⟨none, some (← text? authority), "", none⟩ else none

/-- Reads a request target from text. -/
def ofString? (s : String) : Option Uri :=
  ofBytes? s.toUTF8.toList

end Uri

end AppServer.Http
