/-!
# The index page

A fixed head and tail, and between them one list item with one link for every entry of the menu.
Characters with a meaning in markup are written as references.
-/

namespace AppServer.Admin

/-- The written form of a character. -/
def escapeChar (c : Char) : List Char :=
  match c with
  | '&' => "&amp;".toList
  | '<' => "&lt;".toList
  | '>' => "&gt;".toList
  | '"' => "&quot;".toList
  | '\x27' => "&#x27;".toList
  | c => [c]

/-- The written form of a text, in an attribute as well as between tags. -/
def escape (s : String) : List Char :=
  s.toList.flatMap escapeChar

def pageHead : List Char :=
  ("<!DOCTYPE html>\n<html>\n<head>\n\t<title>Operational Menu</title>\n</head>\n<body>\n" ++
    "\t<h1>Operational Menu</h1>\n\t<ul>").toList

def pageTail : List Char :=
  "</ul>\n</body>\n</html>\n".toList

/-- One link. -/
def pageItem (target name : String) : List Char :=
  "<li><a href=\"".toList ++ escape target ++ "\">".toList ++ escape name ++ "</a></li>".toList

/-- The address of an entry under a mount point. -/
def linkTarget (mount path : String) : String :=
  (if mount = "/" then "" else mount) ++ path

/-- The page that links every entry, given by path and name. -/
def indexPage (mount : String) (entries : List (String × String)) : String :=
  String.ofList (pageHead ++
    entries.flatMap (fun (path, name) => pageItem (linkTarget mount path) name) ++ pageTail)

end AppServer.Admin
