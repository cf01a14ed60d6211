import AppServer.Demo.Program
import AppServer.Text.Lossy

/-!
# Requests by hand

Without a network a running server can be tried line by line. A line names a listener, a method and
a target, and may go on with a body.
-/

namespace AppServer.Demo

open AppServer.Http AppServer.Pipeline

/-- A request and the listener it comes in on. -/
structure Command where
  listener : Listener
  arrival : Arrival

namespace Command

/-- Reads a line. -/
def parse? (listeners : List Listener) (line : String) : Option Command := do
  match Text.splitOn ' ' line.toList with
  | name :: method :: target :: body =>
    let listener ← listeners.find? (·.connector.name == String.ofList name)
    let method ← Method.ofName? (String.ofList method)
    let uri ← Uri.ofString? (String.ofList target)
    let body := (String.ofList ([' '].intercalate body)).toUTF8
    some ⟨listener, .ofRequest (.new method uri ∅ body .http11)⟩
  | _ => none

end Command

/-- A header field on a line of its own. -/
def headerLine (field : String × ByteArray) : String :=
  field.1 ++ ": " ++ Text.lossy field.2 ++ "\n"

/-- A response as text. -/
def responseText (r : Response) : String :=
  toString r.status ++ "\n" ++ String.join (r.headers.entries.map headerLine) ++ "\n" ++
    Text.lossy r.body ++ "\n"

/-- The variables that can configure the program. -/
def variableNames : List String :=
  Setting.all.map fun s => String.ofList (variableMark ++ s.name.toList.map Char.toUpper)

/-- What is written in answer to a line, the lines of the log, and the directory afterwards. -/
def answerLine (server : Server Directory) (listeners : List Listener) (d : Directory)
    (line : String) : String × List String × Directory :=
  match Command.parse? listeners line with
  | none => ("expected: LISTENER METHOD TARGET [BODY]\n", [], d)
  | some c =>
    let (result, world) := (server.receive c.listener.connector c.arrival).runIn ⟨d, []⟩
    let text := match result with
      | .ok response => responseText response
      | .error p => "panic: " ++ p.message ++ "\n"
    (text, world.log.map (·.line), world.state)

end AppServer.Demo
