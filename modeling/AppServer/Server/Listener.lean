import AppServer.Server.Basic

/-!
# Listeners

A bound server has a listener for every connector of its layout. A request that comes in on one is
received up to the limit on bodies and then answered by the router for its path; either way it is
logged.
-/

namespace AppServer

open Http Net Pipeline

variable {σ : Type}

/-- A connector bound to an address. -/
structure Listener where
  connector : Connector
  address : Address
deriving DecidableEq, Repr

/-- A request on its way in: what arrived of the body, and the fault that ended it early. -/
structure Arrival extends Head where
  received : ByteArray
  fault : Option String

namespace Arrival

/-- A request all of whose body arrives. -/
def ofRequest (r : Request) : Arrival :=
  ⟨r.toHead, r.body.getD .empty, none⟩

/-- The request, once its body is complete. -/
def complete (a : Arrival) : Request :=
  ⟨a.toHead, some a.received, .empty⟩

end Arrival

/-- The error for a body that is longer than allowed. -/
def bodyTooLarge (limit : Nat) : ApiError :=
  .payloadTooLarge ("Request body exceeds " ++ toString limit ++ " bytes")

/-- The error for a body that broke off. -/
def bodyUnreadable (fault : String) : ApiError :=
  (ApiError.badRequest "Could not read request body").withInternal fault

/-- A complete request, unless its body is too long or broke off. -/
def Arrival.accept (a : Arrival) (limit : Nat) : Except ApiError Request :=
  if limit < a.received.size then .error (bodyTooLarge limit)
  else
    match a.fault with
    | some fault => .error (bodyUnreadable fault)
    | none => .ok a.complete

/-- The log line for an answered request. -/
def answered (a : Arrival) (status : Nat) : Event :=
  if Status.isSuccess status then .requestCompleted a.method.name a.uri.path status
  else .requestFailed a.method.name a.uri.path status

namespace Server

/-- Answers a request on a listener. -/
def receive (s : Server σ) (c : Connector) (a : Arrival) : Act σ Response := do
  let response ← (match a.accept s.config.maxBodySize with
    | .error e => return e.response
    | .ok req => s.handle c req : Act σ Response)
  Act.log (answered a response.status)
  return response

/-- Binds an address, unless it is refused. -/
def bindOne (refuse : Address → Option BindFault) (c : Connector) (a : Address) :
    Except StartupError Listener :=
  match refuse a with
  | some fault => .error (.bind a.render fault)
  | none => .ok ⟨c, a⟩

/-- The listeners of the layout, or the first reason against one. -/
def bind (s : Server σ) (refuse : Address → Option BindFault) :
    Except StartupError (List Listener) := do
  let application ← s.config.applicationSocket.mapError .config
  match s.config.layout with
  | .shared => return [← bindOne refuse .shared application]
  | .separate =>
    let admin ← s.config.adminSocket.mapError .config
    return [← bindOne refuse .application application, ← bindOne refuse .admin admin]

end Server

/-- What is logged when listeners begin to serve. -/
def listeningEvents (ls : List Listener) : List Event :=
  ls.map fun l => .listening l.connector.name l.address.render

end AppServer
