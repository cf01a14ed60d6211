import AppServer.Demo.Console

/-!
# The demo program

Takes its configuration from the environment and from a file `.env`, and answers the requests that
it reads from standard input. The log goes to standard error.
-/

namespace AppServer.Demo

/-- Where the program runs; nothing is known about it. -/
def anywhere : Host := ⟨"unknown", "unknown", "unknown", 1, 0, 0⟩

/-- The variables of the environment that count. -/
def readEnvironment : IO (List (String × String)) := do
  let mut found := []
  for name in variableNames do
    if let some value ← IO.getEnv name then
      found := found ++ [(name, value)]
  return found

/-- The file of variables, if there is one. -/
def readEnvFile : IO (Option String) :=
  try
    return some (← IO.FS.readFile ".env")
  catch _ =>
    return none

/-- Answers lines until the input ends. -/
partial def answerLines (server : Server Directory) (listeners : List Listener) (d : Directory) :
    IO Unit := do
  let line ← (← IO.getStdin).getLine
  if line.isEmpty then return
  let line := String.ofList (line.toList.filter (· != '\n'))
  let (text, log, d) := answerLine server listeners d line
  for entry in log do
    IO.eprintln entry
  IO.println text
  answerLines server listeners d

/-- Runs the program to its exit code. -/
def run : IO UInt32 := do
  match launch (← readEnvironment) (← readEnvFile) anywhere (fun _ => none) with
  | .error f =>
    IO.eprintln f.line
    return UInt32.ofNat f.exitCode
  | .ok (server, listeners) =>
    for e in listeningEvents listeners do
      IO.eprintln e.line
    answerLines server listeners .empty
    IO.eprintln Pipeline.Event.shuttingDown.line
    return 0

end AppServer.Demo

def main : IO UInt32 :=
  AppServer.Demo.run
