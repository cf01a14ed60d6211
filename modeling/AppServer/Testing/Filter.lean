import AppServer.Pipeline.Recovery
import AppServer.Testing.Handler

/-!
# Stub filters

Filters with a prescribed action. Each leaves a line in the trace before the rest of the chain
runs, and another one with the status when the response has come back.
-/

namespace AppServer.Testing

open AppServer.Http AppServer.Pipeline

/-- What a stub filter does besides tracing. -/
inductive StubAction
  | pass
  /-- Answers without running the rest of the chain. -/
  | deny (e : ApiError)
  /-- Answers requests that lack a header. -/
  | require (header : String)
  | panicBefore (p : Payload)
  | panicAfter (p : Payload)
  | addRequestHeader (name : String) (value : ByteArray)
  | takeBody
  | peekBody
  | params
  /-- Appends to the mark of the request. -/
  | mark (text : String)
  | setHeader (name : String) (value : ByteArray)
  | addHeader (name : String) (value : ByteArray)
  | status (code : Nat)
  | recovery
  /-- Panics before there is a pending response. -/
  | panicEarly (p : Payload)

structure StubFilter where
  name : String
  /-- The header without which a request just passes. -/
  onlyWith : Option String
  action : StubAction

namespace StubFilter

def applies (s : StubFilter) (req : Request) : Bool :=
  match s.onlyWith with
  | none => true
  | some header => req.headers.contains header

def record (s : StubFilter) (what : String) : Act Bench Unit :=
  Bench.record (s.name ++ ":" ++ what)

/-- Acts on the request. An answer given here ends the chain. -/
def before (s : StubFilter) (req : Request) : Act Bench (Except Response Request) := do
  match s.action with
  | .deny e => return .error e.response
  | .require header =>
    if req.headers.contains header then return .ok req
    else return .error (ApiError.unauthorized "missing credentials").response
  | .panicBefore p => Act.raise p
  | .addRequestHeader name value =>
    return .ok { req with headers := req.headers.append name value }
  | .takeBody =>
    s.record ("took " ++ toString ((req.body.map (·.size)).getD 0))
    return .ok req.takeBody.2
  | .peekBody =>
    s.record ("saw " ++ toString ((req.body.map (·.size)).getD 0))
    return .ok req
  | .params =>
    let captures := req.params.captures.map fun (k, v) => k ++ "=" ++ v
    s.record ("params " ++ "&".intercalate captures)
    return .ok req
  | .mark text =>
    return .ok (req.setAttribute markName ((req.attribute? markName).getD "" ++ text))
  | _ => return .ok req

/-- Acts on the response. -/
def after (s : StubFilter) (response : Response) : Act Bench Response :=
  match s.action with
  | .panicAfter p => Act.raise p
  | .setHeader name value => return { response with headers := response.headers.insert name value }
  | .addHeader name value => return { response with headers := response.headers.append name value }
  | .status code => return response.withStatus code
  | _ => return response

/-- Runs the rest of a chain between the two acts. -/
def run (s : StubFilter) (req : Request) (next : Service Bench) : Act Bench Response := do
  if s.applies req then
    s.record "pre"
    match ← s.before req with
    | .error response => return response
    | .ok req =>
      let response ← s.after (← next.run req)
      s.record ("post " ++ toString response.status)
      return response
  else next.run req

def filter (s : StubFilter) : Pipeline.Filter Bench :=
  match s.action with
  | .recovery => recoveryFilter
  | .panicEarly p =>
    ⟨s.name, fun req next => if s.applies req then Act.raise p else next req⟩
  | _ => .deferred s.name s.run

end StubFilter

end AppServer.Testing
