/-!
# Request methods

A method is a token: at least one letter, digit or one of a few punctuation marks. Methods differ
when their letters differ in case.
-/

namespace AppServer.Http

/-- Characters of a token. -/
def isTokenChar (c : Char) : Bool :=
  c.isAlphanum || "!#$%&'*+-.^_`|~".toList.contains c

/-- A non-empty text of token characters. -/
def isToken (s : String) : Bool :=
  !s.toList.isEmpty && s.toList.all isTokenChar

/-- A request method. -/
structure Method where
  name : String
  isToken_name : isToken name = true
deriving DecidableEq

namespace Method

/-- The method called `name`, if that is a token. -/
def ofName? (name : String) : Option Method :=
  if h : isToken name = true then some ⟨name, h⟩ else none

def get : Method := ⟨"GET", by decide⟩
def post : Method := ⟨"POST", by decide⟩
def put : Method := ⟨"PUT", by decide⟩
def patch : Method := ⟨"PATCH", by decide⟩
def delete : Method := ⟨"DELETE", by decide⟩

instance : Inhabited Method := ⟨get⟩
instance : ToString Method := ⟨name⟩

theorem ofName?_name (m : Method) : ofName? m.name = some m := by
  simp [ofName?, m.isToken_name]

theorem ofName?_eq_some_iff {s : String} {m : Method} : ofName? s = some m ↔ m.name = s := by
  constructor
  · intro h
    unfold ofName? at h
    split at h
    · cases h; rfl
    · cases h
  · rintro rfl
    exact ofName?_name m

theorem ofName?_eq_none_iff {s : String} : ofName? s = none ↔ isToken s = false := by
  simp [ofName?]

end Method

end AppServer.Http
