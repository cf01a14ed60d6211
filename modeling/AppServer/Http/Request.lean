import AppServer.Data.Sorted
import AppServer.Http.Headers
import AppServer.Http.Uri

/-!
# Requests

The head of a request, its body, the parameters captured from its path and the attributes that
filters attach for what runs after them. The body can be taken once.
-/

namespace AppServer.Http

/-- Protocol versions. -/
inductive Version
  | http10
  | http11
  | http2
deriving DecidableEq, Repr, Inhabited

def Version.name : Version → String
  | .http10 => "HTTP/1.0"
  | .http11 => "HTTP/1.1"
  | .http2 => "HTTP/2.0"

/-- Values captured from a path, in the order of the pattern. -/
structure Params where
  captures : List (String × String)
deriving DecidableEq, Repr, Inhabited

namespace Params

def empty : Params := ⟨[]⟩

/-- The value captured under `name`. -/
def get? (p : Params) (name : String) : Option String :=
  Data.lookup? name p.captures

def isEmpty (p : Params) : Bool :=
  p.captures.isEmpty

end Params

/-- Everything of a request but its body and captures. -/
structure Head where
  method : Method
  uri : Uri
  version : Version
  headers : Headers
  /-- What filters leave for later stages, by name. -/
  attributes : List (String × String)
deriving Inhabited

/-- A request with a completely received body. -/
structure Request extends Head where
  body : Option ByteArray
  params : Params
deriving Inhabited

namespace Head

def path (h : Head) : String :=
  h.uri.path

/-- The attribute stored under `name`. -/
def attribute? (h : Head) (name : String) : Option String :=
  Data.lookup? name h.attributes

end Head

namespace Request

/-- A request as received. -/
def new (method : Method) (uri : Uri) (headers : Headers) (body : ByteArray)
    (version : Version) : Request :=
  ⟨⟨method, uri, version, headers, []⟩, some body, .empty⟩

/-- The body, and the request without it. -/
def takeBody (r : Request) : Option ByteArray × Request :=
  (r.body, { r with body := none })

/-- The value captured from the path under `name`. -/
def param? (r : Request) (name : String) : Option String :=
  r.params.get? name

/-- Stores an attribute, replacing an earlier one of that name. -/
def setAttribute (r : Request) (name value : String) : Request :=
  { r with attributes := (name, value) :: r.attributes.filter (·.1 != name) }

end Request

end AppServer.Http
