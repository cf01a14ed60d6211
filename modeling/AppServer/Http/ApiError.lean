import AppServer.Http.Response
import AppServer.Json.Printer

/-!
# Errors shown to a client

An error has a status, a machine-readable kind and a message; these make up its response. The
internal detail is for the log and is in no response.
-/

namespace AppServer.Http

open AppServer.Data

/-- An error rendered as a response. -/
structure ApiError where
  status : Nat
  kind : String
  message : String
  /-- Logged, never rendered. -/
  internal : Option String := none
deriving DecidableEq, Repr, Inhabited

namespace ApiError

def badRequest (message : String) : ApiError := ⟨Status.badRequest, "bad_request", message, none⟩
def unauthorized (message : String) : ApiError :=
  ⟨Status.unauthorized, "unauthorized", message, none⟩
def forbidden (message : String) : ApiError := ⟨Status.forbidden, "forbidden", message, none⟩
def notFound (message : String) : ApiError := ⟨Status.notFound, "not_found", message, none⟩
def methodNotAllowed (message : String) : ApiError :=
  ⟨Status.methodNotAllowed, "method_not_allowed", message, none⟩
def notAcceptable (message : String) : ApiError :=
  ⟨Status.notAcceptable, "not_acceptable", message, none⟩
def conflict (message : String) : ApiError := ⟨Status.conflict, "conflict", message, none⟩
def payloadTooLarge (message : String) : ApiError :=
  ⟨Status.payloadTooLarge, "payload_too_large", message, none⟩
def unsupportedMediaType (message : String) : ApiError :=
  ⟨Status.unsupportedMediaType, "unsupported_media_type", message, none⟩
def internalError (message : String) : ApiError :=
  ⟨Status.internalServerError, "internal_error", message, none⟩

/-- Attaches a detail for the log. -/
def withInternal (e : ApiError) (detail : String) : ApiError :=
  { e with internal := some detail }

/-- One line for people. -/
def describe (e : ApiError) : String :=
  toString e.status ++ " (" ++ e.kind ++ "): " ++ e.message

/-- The body: an object `error` with members `type` and `message`. -/
def body (e : ApiError) : List Char :=
  Json.object [Json.member "error" (Json.object [
    Json.member "type" (Json.string e.kind), Json.member "message" (Json.string e.message)])]

/-- The response that reports the error. -/
def response (e : ApiError) : Response :=
  (Response.ofTyped applicationJson (String.ofList e.body).toUTF8).withStatus e.status

@[simp] theorem response_withInternal (e : ApiError) (detail : String) :
    (e.withInternal detail).response = e.response := rfl

end ApiError

end AppServer.Http
