import AppServer.Http.Request
import AppServer.Negotiation.Provider
import AppServer.Pipeline.Act

/-!
# Resources

A resource is a domain object at a path, with a method for each verb it supports. A verb method
gets the head and the captures of a request, and its body as a value if the verb takes one; it
returns an entity or an error. It never sees a format.
-/

namespace AppServer.Resource

open AppServer.Data AppServer.Http AppServer.Negotiation AppServer.Pipeline

variable {σ : Type}

/-- What a verb method gets of a request. -/
structure Context extends Head where
  params : Params

namespace Context

def param? (c : Context) (name : String) : Option String :=
  c.params.get? name

end Context

/-- The error of a verb method. -/
inductive DomainError
  /-- Shown to the client as it is. -/
  | api (e : ApiError)
  /-- Any other error; its text is for the log. -/
  | other (text : String)
deriving DecidableEq, Repr

/-- What a verb method returns. -/
abbrev Outcome := Except DomainError Value

/-- A body and the provider chosen to read it. -/
structure BodyInput where
  provider : Provider
  bytes : ByteArray

/-- Why a call has no entity. -/
inductive Failure
  /-- The body could not be read; the method was not called. -/
  | decode (e : ProviderError)
  | domain (e : DomainError)
deriving DecidableEq, Repr

/-- One verb of a resource. -/
structure Verb (σ : Type) where
  method : Method
  takesBody : Bool
  /-- Reads the body, if the verb takes one, and calls the method. -/
  call : Context → Option BodyInput → Act σ (Except Failure Value)

namespace Verb

/-- A verb that does not look at the body. -/
def withoutBody (method : Method) (act : Context → Act σ Outcome) : Verb σ where
  method
  takesBody := false
  call ctx _ := return (← act ctx).mapError .domain

/-- A verb that is called with the body as a value of `β`. -/
def withBody (method : Method) {β : Type} [OfValue β] (act : Context → β → Act σ Outcome) :
    Verb σ where
  method
  takesBody := true
  call ctx input :=
    match input with
    | none => return .error (.decode (.decode "request body is missing"))
    | some input =>
      match input.provider.decodeAs β input.bytes with
      | .error e => return .error (.decode e)
      | .ok body => return (← act ctx body).mapError .domain

end Verb

end AppServer.Resource

namespace AppServer

open AppServer.Resource

/-- A domain object at a path. -/
structure Resource (σ : Type) where
  /-- The pattern of its path, relative to the mount point. -/
  path : String
  /-- The name shown in the table of endpoints. -/
  name : String
  get : Option (Verb σ)
  post : Option (Verb σ)
  put : Option (Verb σ)
  patch : Option (Verb σ)
  delete : Option (Verb σ)

/-- The verbs that a resource supports. -/
def Resource.verbs {σ : Type} (r : Resource σ) : List (Verb σ) :=
  [r.get, r.post, r.put, r.patch, r.delete].filterMap id

end AppServer
