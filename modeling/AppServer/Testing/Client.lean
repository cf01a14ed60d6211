import AppServer.Json.Printer
import AppServer.Json.Reader
import AppServer.Server.Listener
import AppServer.Text.Search

/-!
# The in-process client

Sends requests straight into a router, with the same limit on bodies as a listener. A target that
cannot be read is requested as `/`, and header fields that are not HTTP are left out.
-/

namespace AppServer.Testing

open AppServer.Data AppServer.Http AppServer.Pipeline AppServer.Routing

variable {σ : Type}

/-- A client of one router. -/
structure Client (σ : Type) where
  router : Router σ
  bodyLimit : Nat

/-- A request under construction. -/
structure Draft where
  method : Method
  target : String
  headers : Headers
  body : Option ByteArray

namespace Draft

def new (method : Method) (target : String) : Draft :=
  ⟨method, target, ∅, none⟩

/-- Sets a header field, if its name and value are HTTP. -/
def header (d : Draft) (name value : String) : Draft :=
  match headerName? name.toUTF8, headerValue? value.toUTF8 with
  | some name, some value => { d with headers := d.headers.insert name value }
  | _, _ => d

/-- Gives the request a JSON body and the content type of one. -/
def json (d : Draft) (v : Value) : Draft :=
  match Json.render? v with
  | some text =>
    { d with
      headers := d.headers.set contentType applicationJson
      body := some text.toUTF8 }
  | none => d

def withBody (d : Draft) (body : ByteArray) : Draft :=
  { d with body := some body }

/-- The request as a router gets it. -/
def request (d : Draft) : Request :=
  .new d.method ((Uri.ofString? d.target).getD .root) d.headers (d.body.getD .empty) .http11

end Draft

namespace Client

/-- The limit of a client that sets none. -/
def defaultLimit : Nat := 1048576

def new (router : Router σ) : Client σ :=
  ⟨router, defaultLimit⟩

/-- A client of the application surface. -/
def application (s : Server σ) : Client σ :=
  new s.application

/-- A client of the admin surface. -/
def admin (s : Server σ) : Client σ :=
  new s.admin

def withBodyLimit (c : Client σ) (limit : Nat) : Client σ :=
  { c with bodyLimit := limit }

/-- Sends a request. -/
def send (c : Client σ) (d : Draft) : Act σ Response :=
  if c.bodyLimit < (d.body.getD .empty).size then return (bodyTooLarge c.bodyLimit).response
  else c.router.serve d.request

end Client

/-- What may be expected of a response. -/
inductive Expectation
  | status (code : Nat)
  /-- The first value of a header field is visible text and equal to this. -/
  | header (name value : String)
  /-- The text of the body includes this. -/
  | contains (part : String)
  /-- The body is the JSON text of this value, up to spacing and the order of members. -/
  | json (v : Value)

/-- Whether a response is as expected. -/
def Expectation.holds (r : Response) : Expectation → Bool
  | .status code => r.status == code
  | .header name value => r.headers.text? (Text.lower name) == some value
  | .contains part => Text.includes (Text.lossy r.body) part
  | .json v =>
    match Json.read? .any r.body with
    | some body => (Json.render? body).isSome && Json.render? body == Json.render? v
    | none => false

end AppServer.Testing
