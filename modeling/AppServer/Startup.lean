import AppServer.Config.Basic
import AppServer.Routing.Error

/-!
# Startup errors

Why a server does not start. Routes are refused all at once, a configuration or an address by its
first fault.
-/

namespace AppServer

open Routing

/-- Why the operating system refused an address. -/
structure BindFault where
  code : Nat
  kind : String
  text : String
deriving DecidableEq, Repr

namespace BindFault

/-- Another listener has the address. -/
def addressInUse : BindFault := ⟨98, "AddrInUse", "Address already in use"⟩

def message (f : BindFault) : String :=
  f.text ++ " (os error " ++ toString f.code ++ ")"

end BindFault

/-- Why a server does not start. -/
inductive StartupError
  | routes (errors : List RouteError)
  | config (e : ConfigError)
  | bind (address : String) (fault : BindFault)
deriving DecidableEq, Repr

namespace StartupError

def message : StartupError → String
  | routes errors => "route registration failed: " ++ "; ".intercalate (errors.map (·.message))
  | config e => e.message
  | bind address fault => "could not bind " ++ address ++ ": " ++ fault.message

end StartupError

end AppServer
