import AppServer.Http.ApiError
import AppServer.Json.Printer
import AppServer.Pipeline.Chain
import AppServer.Testing.Bench
import AppServer.Text.Hex

/-!
# Stub handlers

Terminal services with a prescribed answer. The echo shows all that a handler can see of a request.
-/

namespace AppServer.Testing

open AppServer.Data AppServer.Http AppServer.Pipeline

/-- The attribute that the marking stub filters write to. -/
def markName : String := "mark"

/-- What a stub handler does. -/
inductive StubHandler
  | text (s : String)
  | unit
  | html (s : String)
  | status (code : Nat)
  | statusText (code : Nat) (s : String)
  | statusHeaders (code : Nat) (headers : Headers) (s : String)
  | fail (e : ApiError)
  | echo
  /-- The value captured under a name. -/
  | param (name : String)
  /-- The number of the call. -/
  | counter
  | bytes (body : ByteArray)
  | panic (p : Payload)
  /-- Panics before there is a pending response. -/
  | panicEarly (p : Payload)

/-- Bytes as text, or as digits if they are not text. -/
def bytesValue (b : ByteArray) : Value :=
  match String.fromUTF8? b with
  | some s => .text s
  | none => .map [(.text "hex", .text (Text.Hex.write b))]

/-- All that a handler can see of a request. -/
def echoValue (req : Request) : Value :=
  let (body, rest) := req.takeBody
  let pair (name : String) (v : Value) : Value := .seq [.text name, v]
  .map [
    (.text "body", .ofOption (body.map bytesValue)),
    (.text "headers", .seq (req.headers.sorted.map fun (n, v) => pair n (bytesValue v))),
    (.text "mark", toValue (req.attribute? markName)),
    (.text "method", .text req.method.name),
    (.text "params", .seq (req.params.captures.map fun (n, v) => pair n (.text v))),
    (.text "path", .text req.uri.path),
    (.text "query", toValue req.uri.query),
    (.text "taken", .bool rest.takeBody.1.isNone),
    (.text "uri", .text req.uri.render),
    (.text "version", .text req.version.name)]

namespace StubHandler

def respond (slot : Slot) (req : Request) : StubHandler → Act Bench Response
  | .text s => return .text s
  | .unit => return .empty
  | .html s => return .html s
  | .status code => return .ofStatus code
  | .statusText code s => return (Response.text s).withStatus code
  | .statusHeaders code headers s => return ((Response.text s).withStatus code).withHeaders headers
  | .fail e => return e.response
  | .echo => return .text ((Json.render? (echoValue req)).getD "")
  | .param name => return .text ((req.param? name).getD "<none>")
  | .counter => return .text ("call " ++ toString (← Bench.nextCall slot))
  | .bytes body => return .ofBytes body
  | .panic p => Act.raise p
  | .panicEarly p => Act.raise p

/-- The terminal service of a stub. -/
def service (h : StubHandler) (slot : Slot) : Service Bench :=
  match h with
  | .panicEarly p => fun _ => Act.raise p
  | _ => .deferred fun req => h.respond slot req

end StubHandler

end AppServer.Testing
