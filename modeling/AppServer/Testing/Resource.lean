import AppServer.Resource.Dispatch
import AppServer.Testing.Bench
import AppServer.Testing.Handler
import AppServer.Testing.Record

/-!
# Stub resources

Resources whose verbs have prescribed results. The verbs of a resource count their calls together.
-/

namespace AppServer.Testing

open AppServer.Data AppServer.Http AppServer.Pipeline AppServer.Resource

/-- What a stub verb returns. -/
inductive StubVerb
  /-- All that the verb can see of a request. -/
  | context
  | value (v : Value)
  | param (name : String)
  | calls
  | body
  /-- The record with its count raised by one. -/
  | bump
  | api (e : ApiError)
  | error (text : String)
  | panic (p : Payload)

structure StubResource where
  path : String
  name : String
  get : Option StubVerb
  post : Option StubVerb
  put : Option StubVerb
  patch : Option StubVerb
  delete : Option StubVerb

/-- All that a verb can see of a request. -/
def contextValue (ctx : Context) : Value :=
  .struct "Ctx" [
    ("method", .text ctx.method.name),
    ("path", .text ctx.uri.path),
    ("query", toValue ctx.uri.query),
    ("params", .map ((sortEntries ctx.params.captures).map fun (k, v) => (.text k, .text v))),
    ("trace", toValue ((ctx.headers.first? "x-trace").map Text.lossy)),
    ("mark", toValue (ctx.attribute? markName))]

namespace StubVerb

def act (slot : Slot) (ctx : Context) (body : Option Testing.Record) (v : StubVerb) :
    Act Bench Outcome := do
  let n ← Bench.nextCall slot
  match v with
  | .context => return .ok (contextValue ctx)
  | .value v => return .ok v
  | .param name => return .ok (toValue (ctx.param? name))
  | .calls => return .ok (.int n)
  | .body => return .ok (toValue body)
  | .bump =>
    match body with
    | none => return .error (.other "no body")
    | some r =>
      if r.count = 0 then return .error (.api (.conflict "count must not be zero"))
      else return .ok (toValue { r with count := r.count + 1 })
  | .api e => return .error (.api e)
  | .error text => return .error (.other text)
  | .panic p => Act.raise p

def bare (slot : Slot) (method : Method) (v : StubVerb) : Verb Bench :=
  .withoutBody method fun ctx => v.act slot ctx none

def bodied (slot : Slot) (method : Method) (v : StubVerb) : Verb Bench :=
  .withBody method fun ctx (r : Testing.Record) => v.act slot ctx (some r)

end StubVerb

def StubResource.resource (s : StubResource) (slot : Slot) : AppServer.Resource Bench where
  path := s.path
  name := s.name
  get := s.get.map (StubVerb.bare slot .get)
  post := s.post.map (StubVerb.bodied slot .post)
  put := s.put.map (StubVerb.bodied slot .put)
  patch := s.patch.map (StubVerb.bodied slot .patch)
  delete := s.delete.map (StubVerb.bare slot .delete)

end AppServer.Testing
