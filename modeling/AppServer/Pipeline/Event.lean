/-!
# Log events

Every line the server writes to its log, by cause. The message is what an operator reads; the other
fields of an event go with it as structured data.
-/

namespace AppServer.Pipeline

inductive Level
  | error
  | warn
  | info
  | debug
deriving DecidableEq, Repr

def Level.name : Level → String
  | error => "ERROR"
  | warn => "WARN"
  | info => "INFO"
  | debug => "DEBUG"

/-- The banner shown when nothing watches over the application. -/
def noChecksBanner : String :=
  let rule := String.ofList (List.replicate 47 '!')
  "\n" ++ rule ++ "\n!    THIS APPLICATION HAS NO HEALTHCHECKS.    !\n" ++ rule ++ "\n"

/-- Something worth a line in the log. -/
inductive Event
  | resourceWithoutVerbs (resource path : String)
  | resourceRegistered (resource path : String) (verbs : Nat)
  | bodyRejected (detail : String)
  | encodingFailed (provider detail : String)
  | resourceError (status : Nat) (detail : String)
  | methodFailed (detail : String)
  | registrationFailed (detail : String)
  | resources (names : List String)
  | endpoints (lines : List String)
  | tasks (lines : List String)
  | healthChecks (names : List String)
  | noHealthChecks
  | checkNotHealthy (name reason : String)
  | starting (application admin : String)
  | listening (connector address : String)
  | shuttingDown
  | connectionError (detail : String)
  | requestCompleted (method path : String) (status : Nat)
  | requestFailed (method path : String) (status : Nat)
  /-- A panic that a recovery filter turned into a response. -/
  | panicRecovered (method path message : String)
deriving DecidableEq, Repr

namespace Event

/-- The lines of a table, indented. -/
def table (lines : List String) : String :=
  String.join (lines.map fun line => "    " ++ line ++ "\n")

def level : Event → Level
  | bodyRejected _ | resourceRegistered .. | resources _ | healthChecks _
  | checkNotHealthy .. => .debug
  | resourceWithoutVerbs .. | resourceError .. | noHealthChecks | requestFailed .. => .warn
  | encodingFailed .. | methodFailed _ | registrationFailed _ | connectionError _
  | panicRecovered .. => .error
  | endpoints _ | tasks _ | starting .. | listening .. | shuttingDown | requestCompleted .. => .info

/-- The part of the server that speaks. -/
def target : Event → String
  | resourceWithoutVerbs .. | resourceRegistered .. | bodyRejected _ | encodingFailed ..
  | resourceError .. | methodFailed _ => "melon::rest"
  | tasks _ | healthChecks _ | noHealthChecks | checkNotHealthy .. => "melon::admin"
  | panicRecovered .. => "melon::recovery"
  | _ => "melon::server"

def message : Event → String
  | resourceWithoutVerbs .. => "Resource has no verb methods, nothing registered"
  | resourceRegistered .. => "Resource registered"
  | bodyRejected _ => "Request body rejected"
  | encodingFailed .. => "Failed to encode response entity"
  | resourceError .. => "Resource error"
  | methodFailed _ => "Resource method failed"
  | registrationFailed _ => "Route registration failed"
  | resources names => "resources = [" ++ ",".intercalate names ++ "]"
  | endpoints lines => "endpoints =\n\n" ++ table lines
  | tasks lines => "tasks =\n\n" ++ table lines
  | healthChecks _ => "health checks"
  | noHealthChecks => noChecksBanner
  | checkNotHealthy .. => "health check not healthy"
  | starting .. => "Starting"
  | listening _ address => "Listening on http://" ++ address
  | shuttingDown => "Shutting down"
  | connectionError _ => "Connection error"
  | requestCompleted .. => "Request completed"
  | requestFailed .. => "Request failed"
  | panicRecovered .. => "Handler panicked, responding with 500"

/-- The event as a line of the log. -/
def line (e : Event) : String :=
  let text := e.level.name ++ " " ++ e.target ++ " " ++ e.message
  match e with
  | panicRecovered _ _ message => text ++ " [" ++ message ++ "]"
  | _ => text

end Event

end AppServer.Pipeline
