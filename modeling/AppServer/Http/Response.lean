import AppServer.Http.Headers

/-!
# Responses

A status, header fields and a complete body. Text and HTML carry their content type; the other
responses carry what was put into them.
-/

namespace AppServer.Http

namespace Status

def ok : Nat := 200
def badRequest : Nat := 400
def unauthorized : Nat := 401
def forbidden : Nat := 403
def notFound : Nat := 404
def methodNotAllowed : Nat := 405
def notAcceptable : Nat := 406
def conflict : Nat := 409
def payloadTooLarge : Nat := 413
def unsupportedMediaType : Nat := 415
def internalServerError : Nat := 500
def notImplemented : Nat := 501

/-- Statuses that report success. -/
def isSuccess (code : Nat) : Bool :=
  200 ≤ code && code < 300

end Status

def contentType : String := "content-type"
def textPlain : String := "text/plain; charset=utf-8"
def textHtml : String := "text/html; charset=utf-8"
def applicationJson : String := "application/json"
def applicationXml : String := "application/xml"

/-- A complete response. -/
structure Response where
  status : Nat
  headers : Headers
  body : ByteArray
deriving Inhabited

namespace Response

/-- Status 200 and a body, without headers. -/
def ofBytes (body : ByteArray) : Response :=
  ⟨Status.ok, ∅, body⟩

/-- Status 200, nothing else. -/
def empty : Response :=
  ofBytes .empty

/-- A body of the given content type. -/
def ofTyped (type : String) (body : ByteArray) : Response :=
  { ofBytes body with headers := Headers.empty.set contentType type }

/-- Plain text. -/
def text (s : String) : Response :=
  ofTyped textPlain s.toUTF8

/-- An HTML page. -/
def html (s : String) : Response :=
  ofTyped textHtml s.toUTF8

/-- A bare status. -/
def ofStatus (code : Nat) : Response :=
  { empty with status := code }

def withStatus (r : Response) (code : Nat) : Response :=
  { r with status := code }

/-- Sets header fields, replacing those of the same names. -/
def withHeaders (r : Response) (h : Headers) : Response :=
  { r with headers := r.headers.extend h }

def setHeader (r : Response) (name value : String) : Response :=
  { r with headers := r.headers.set name value }

end Response

end AppServer.Http
