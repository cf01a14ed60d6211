import AppServer.Config.EnvFile
import AppServer.Config.Variables
import AppServer.Demo.Blueprint
import AppServer.Diagnostics.Server
import AppServer.Server.Listener

/-!
# The demo as a program

The program is configured by its environment and by a file of variables, of which those that the
environment lacks count. It either listens or says why it cannot.
-/

namespace AppServer.Demo

open AppServer.Net

/-- Why the program ends before it listens. -/
inductive Failure
  | config (e : ConfigError)
  | startup (e : StartupError)
deriving DecidableEq, Repr

/-- The diagnostic text of what went wrong. -/
def Failure.detail : Failure → String
  | config e => inspect e
  | startup e => inspect e

/-- What the program writes before it ends. -/
def Failure.line (f : Failure) : String :=
  "Error: " ++ f.detail

/-- The status the program ends with. -/
def Failure.exitCode (_ : Failure) : Nat := 1

/-- The server and its listeners, given the environment, the file of variables and the addresses
that cannot be bound. -/
def launch (environment : List (String × String)) (file : Option String) (p : Host)
    (refuse : Address → Option BindFault) :
    Except Failure (Server Directory × List Listener) := do
  let settings := EnvFile.extend environment ((file.map EnvFile.read).getD [])
  let config ← (Config.ofVariables settings).mapError .config
  let server ← (blueprint config p).build.1.mapError .startup
  let listeners ← (server.bind refuse).mapError .startup
  return (server, listeners)

end AppServer.Demo
