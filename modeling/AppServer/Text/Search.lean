/-!
# Finding text
-/

namespace AppServer.Text

/-- Whether `part` occurs in `cs`. -/
def occursIn (part : List Char) : List Char → Bool
  | [] => part.isEmpty
  | c :: cs => part.isPrefixOf (c :: cs) || occursIn part cs

/-- Whether a text occurs in another. -/
def includes (s part : String) : Bool :=
  occursIn part.toList s.toList

end AppServer.Text
