import AppServer.Routing.Pattern
import AppServer.Text.Quoted

/-!
# Registration errors

The reasons for which a route is not registered.
-/

namespace AppServer.Routing

/-- Why a route was refused. -/
inductive RouteError
  /-- The pattern already has a route for the method. -/
  | duplicate (method pattern : String)
  /-- Another pattern with as many parameters accepts a common path. -/
  | ambiguous (existing new : String)
  | malformedPattern (pattern : String) (fault : PatternFault)
  /-- The method is neither `*` nor a token. -/
  | invalidMethod (method : String)
deriving DecidableEq, Repr

def RouteError.message : RouteError → String
  | duplicate method pattern =>
    "duplicate route: " ++ method ++ " " ++ pattern ++ " is already registered"
  | ambiguous existing new =>
    "ambiguous route: " ++ new ++ " overlaps " ++ existing ++
      " with the same number of parameters; " ++
      "use distinct literal segments or differing segment counts"
  | malformedPattern pattern fault =>
    "malformed route pattern " ++ Text.quoted pattern ++ ": " ++ fault.reason
  | invalidMethod method => "invalid route method " ++ Text.quoted method

end AppServer.Routing
