import AppServer.Resource.Basic
import AppServer.Routing.Router
import AppServer.Text.Lossy

/-!
# Serving resources

Every verb of a resource is a route. A request to it goes through five steps, and the first that
fails answers: choosing a reader for the body, reading the body, calling the method, choosing a
writer for the entity, writing it.
-/

namespace AppServer.Resource

open AppServer.Data AppServer.Http AppServer.Negotiation AppServer.Pipeline AppServer.Routing

variable {σ : Type}

/-- One line of the table of endpoints. -/
structure Endpoint where
  method : String
  /-- The full path, mount point included. -/
  path : String
  /-- What registered the route. -/
  component : String
deriving DecidableEq, Repr

/-- The method in a column of seven, the path, the component. -/
def Endpoint.line (e : Endpoint) : String :=
  let pad := String.ofList (List.replicate (7 - e.method.length) ' ')
  e.method ++ pad ++ " " ++ e.path ++ " (" ++ e.component ++ ")"

/-- The content type of a request. One that is not visible text names no media type. -/
def contentType? (h : Headers) : Except NegotiationError (Option String) :=
  match h.first? contentType with
  | none => .ok none
  | some value =>
    match visibleText? value with
    | some text => .ok (some text)
    | none => .error (.unsupportedMediaType (Text.lossy value))

/-- The body of a request with its reader, for a verb that takes one. -/
def bodyInput (registry : Registry) (verb : Verb σ) (req : Request) :
    Except NegotiationError (Option BodyInput) :=
  if verb.takesBody then do
    let reader ← registry.selectReader (← contentType? req.headers)
    return some ⟨reader, req.body.getD .empty⟩
  else .ok none

/-- The response to a domain error. What the client must not see is logged. -/
def domainError : DomainError → Act σ Response
  | .api e => do
    match e.internal with
    | some detail => Act.log (.resourceError e.status detail)
    | none => pure ()
    return e.response
  | .other text => do
    Act.log (.methodFailed text)
    return ((ApiError.internalError "Internal Server Error").withInternal text).response

/-- What a panic says of a media type that cannot stand in a header field. -/
def invalidField : String := "HeaderValue::from_static with invalid bytes"

/-- A written entity. The media type of a provider is trusted to be visible text. -/
def entityResponse (mediaType : String) (bytes : ByteArray) : Act σ Response :=
  if mediaType.toUTF8.toList.all isVisibleByte then return Response.ofTyped mediaType bytes
  else Act.raise (.text invalidField)

/-- Writes an entity for a client. -/
def respond (registry : Registry) (accept : Option String) (entity : Value) : Act σ Response :=
  match registry.selectWriter accept with
  | .error p => Act.raise p
  | .ok (.error e) => return e.apiError.response
  | .ok (.ok chosen) =>
    match chosen.provider.encode entity with
    | .ok bytes => entityResponse chosen.mediaType bytes
    | .error e => do
      Act.log (.encodingFailed chosen.provider.name e.message)
      return ((ApiError.internalError "Internal Server Error").withInternal e.message).response

/-- Answers a request to a verb. -/
def dispatch (registry : Registry) (verb : Verb σ) (req : Request) : Act σ Response :=
  match bodyInput registry verb req with
  | .error e => return e.apiError.response
  | .ok input => do
    match ← verb.call ⟨req.toHead, req.params⟩ input with
    | .error (.decode e) => do
      Act.log (.bodyRejected e.message)
      return (ApiError.badRequest "Malformed request body").response
    | .error (.domain e) => domainError e
    | .ok entity => respond registry (req.headers.text? "accept") entity

/-- The terminal service of a verb. -/
def bind (registry : Registry) (verb : Verb σ) : Service σ :=
  .deferred (dispatch registry verb)

/-- A pattern in normal form; a text that is none stays as it is. -/
def shownPattern (pattern : String) : String :=
  match Pattern.parse pattern with
  | .ok p => p.render
  | .error _ => pattern

/-- Registers verbs one after the other until one is refused. -/
def registerVerbs (registry : Registry) (r : Resource σ) (router : Router σ)
    (endpoints : List Endpoint) : List (Verb σ) → Router σ × Except RouteError (List Endpoint)
  | [] => (router, .ok endpoints)
  | verb :: verbs =>
    match router.handle verb.method.name r.path (bind registry verb) with
    | (left, .error e) => (left, .error e)
    | (next, .ok ()) =>
      let path := joinPath router.mount (shownPattern r.path)
      let endpoint := ⟨verb.method.name, path, r.name⟩
      registerVerbs registry r next (endpoints ++ [endpoint]) verbs

/-- Registers a route for every verb of a resource. The routes before a refused one stay. -/
def register (registry : Registry) (router : Router σ) (r : Resource σ) :
    Router σ × Except RouteError (List Endpoint) × List Event :=
  if r.verbs.isEmpty then (router, .ok [], [.resourceWithoutVerbs r.name r.path])
  else
    match registerVerbs registry r router [] r.verbs with
    | (router, .ok endpoints) =>
      (router, .ok endpoints, [.resourceRegistered r.name r.path endpoints.length])
    | (router, .error e) => (router, .error e, [])

end AppServer.Resource
