import AppServer.Data.Shape

/-!
# A directory of users

Users ordered by name, at most one of a name.
-/

namespace AppServer.Demo

open AppServer.Data

structure User where
  name : String
  email : String
deriving DecidableEq, Repr

instance : ToValue User where
  toValue u := .struct "User" [("name", .text u.name), ("email", .text u.email)]

/-- What a client sends to create a user. -/
structure NewUser where
  email : String
deriving DecidableEq, Repr

instance : OfValue NewUser where
  shape := .struct "NewUser" [("email", .text, .required)]
  ofValue? v := do some ⟨← (← v.field? "email").text?⟩

/-- What a client gets for a removed user. -/
structure Removed where
  removed : String
deriving DecidableEq, Repr

instance : ToValue Removed where
  toValue r := .struct "Removed" [("removed", .text r.removed)]

/-- The users by name. -/
structure Directory where
  users : List (String × User)
deriving DecidableEq, Repr

namespace Directory

def empty : Directory := ⟨[]⟩

def get? (d : Directory) (name : String) : Option User :=
  lookup? name d.users

/-- Stores a user under its name, in place of an earlier one. -/
def put (d : Directory) (u : User) : Directory :=
  ⟨insertSorted u.name u d.users⟩

/-- The user of a name, and the directory without it. -/
def remove (d : Directory) (name : String) : Option User × Directory :=
  (d.get? name, ⟨d.users.filter (·.1 != name)⟩)

@[simp] theorem get?_put_self (d : Directory) (u : User) : (d.put u).get? u.name = some u :=
  lookup?_insertSorted_self u.name u d.users

theorem get?_put_of_ne (d : Directory) (u : User) {name : String} (h : name ≠ u.name) :
    (d.put u).get? name = d.get? name :=
  lookup?_insertSorted_of_ne h u d.users

theorem get?_remove (d : Directory) (name other : String) :
    (d.remove name).2.get? other = if other = name then none else d.get? other := by
  simp only [remove, get?, lookup?, List.find?_filter]
  split
  · rename_i h
    subst h
    simp
  · rename_i h
    congr 2
    funext e
    by_cases he : e.1 = other
    · simp [he, h]
    · simp [he]

/-- The number of users, and a directory without any. -/
def clear (d : Directory) : Nat × Directory :=
  (d.users.length, empty)

end Directory

end AppServer.Demo
