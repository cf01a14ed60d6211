import AppServer.Text.Split

/-!
# Mount points

A mount point is a path with one slash before each segment and none after the last; the root is
`/`. Patterns are relative to a mount point, request paths include it.
-/

namespace AppServer.Routing

open AppServer.Text

/-- The mount point with the non-empty segments of `path`. -/
def normalizeMount (path : String) : String :=
  match segments path with
  | [] => "/"
  | parts => String.join (parts.map ("/" ++ ·))

/-- The full path of a pattern under a mount point. -/
def joinPath (mount pattern : String) : String :=
  if mount = "/" then pattern
  else if pattern = "/" then mount
  else mount ++ pattern

/-- The rest of a path that lies under a mount point. -/
def stripMount? (mount path : String) : Option String :=
  if mount = "/" then some path
  else
    match mount.toList.isPrefixOf? path.toList with
    | some [] => some ""
    | some ('/' :: rest) => some (String.ofList ('/' :: rest))
    | _ => none

end AppServer.Routing
