import AppServer.Http.Method

/-!
# Header fields

Fields are kept in the order in which they were added. Names are tokens in lower case; a value is
a string of bytes without controls other than the tab. One name may occur several times.
-/

namespace AppServer.Http

/-- The bytes a header value may hold. -/
def isValueByte (b : UInt8) : Bool :=
  (0x20 ≤ b && b != 0x7F) || b == 0x09

/-- Printable ASCII, the space and the tab. -/
def isVisibleByte (b : UInt8) : Bool :=
  (0x20 ≤ b && b < 0x7F) || b == 0x09

/-- The name a header is stored under, if `bytes` spell a token. -/
def headerName? (bytes : ByteArray) : Option String := do
  let s ← String.fromUTF8? bytes
  if isToken s then some (String.ofList (s.toList.map Char.toLower)) else none

/-- `bytes` as a header value, if they may stand in one. -/
def headerValue? (bytes : ByteArray) : Option ByteArray :=
  if bytes.toList.all isValueByte then some bytes else none

/-- The text of a value all of whose bytes are visible. -/
def visibleText? (value : ByteArray) : Option String :=
  if value.toList.all isVisibleByte then String.fromUTF8? value else none

/-- Header fields in the order added, names in lower case. -/
structure Headers where
  entries : List (String × ByteArray)
deriving Inhabited

namespace Headers

def empty : Headers := ⟨[]⟩

instance : EmptyCollection Headers := ⟨empty⟩

/-- The first value of `name`. -/
def first? (h : Headers) (name : String) : Option ByteArray :=
  (h.entries.find? (·.1 == name)).map (·.2)

/-- All values of `name`. -/
def all (h : Headers) (name : String) : List ByteArray :=
  (h.entries.filter (·.1 == name)).map (·.2)

def contains (h : Headers) (name : String) : Bool :=
  h.entries.any (·.1 == name)

/-- Adds a value after those already there. -/
def append (h : Headers) (name : String) (value : ByteArray) : Headers :=
  ⟨h.entries ++ [(name, value)]⟩

/-- Removes every value of `name`. -/
def erase (h : Headers) (name : String) : Headers :=
  ⟨h.entries.filter (·.1 != name)⟩

/-- Gives `name` exactly one value. -/
def insert (h : Headers) (name : String) (value : ByteArray) : Headers :=
  (h.erase name).append name value

/-- Gives `name` one value, written as text. -/
def set (h : Headers) (name : String) (value : String) : Headers :=
  h.insert name value.toUTF8

/-- The fields of `h` whose names `other` lacks, then all of `other`. -/
def extend (h other : Headers) : Headers :=
  ⟨h.entries.filter (fun e => !other.contains e.1) ++ other.entries⟩

/-- The first value of `name`, if it is visible text. -/
def text? (h : Headers) (name : String) : Option String :=
  (h.first? name).bind visibleText?

/-- The fields ordered by name; values of one name keep their order. -/
def sorted (h : Headers) : List (String × ByteArray) :=
  h.entries.mergeSort fun a b => !(b.1 < a.1)

@[simp] theorem first?_empty (name : String) : first? ∅ name = none := rfl

theorem first?_insert_self (h : Headers) (name : String) (value : ByteArray) :
    (h.insert name value).first? name = some value := by
  have : (h.entries.filter (·.1 != name)).find? (·.1 == name) = none := by
    simp
  simp [insert, erase, append, first?, this]

theorem first?_insert_of_ne (h : Headers) {name other : String} (value : ByteArray)
    (hne : other ≠ name) : (h.insert name value).first? other = h.first? other := by
  have hb : (name == other) = false := by simpa using Ne.symm hne
  simp only [insert, erase, append, first?, List.find?_append, List.find?_cons, hb,
    List.find?_nil, Option.or_none, List.find?_filter]
  congr 2
  funext e
  by_cases h : e.1 = other
  · simp [h, hne]
  · simp [h]

end Headers

end AppServer.Http
