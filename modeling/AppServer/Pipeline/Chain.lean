import AppServer.Http.Response
import AppServer.Http.Request
import AppServer.Pipeline.Act

/-!
# Filter chains

A service answers a request in two stages: it takes the request and yields a pending response, and
the pending response, once run, is the response. Either stage may have effects. A filter stands
around the rest of a chain and decides whether and with what request to run it. A chain is a list
of filters around a terminal service, the first filter outermost.
-/

namespace AppServer.Pipeline

open AppServer.Http

variable {σ : Type}

/-- A response still to be computed. -/
abbrev Pending (σ : Type) := Act σ Response

/-- Takes a request and yields a pending response. -/
def Service (σ : Type) := Request → Act σ (Pending σ)

namespace Service

/-- Both stages of a service, one after the other. -/
def run (s : Service σ) (req : Request) : Act σ Response := do
  let pending ← s req
  pending

/-- A service that does all its work in the second stage. -/
def deferred (f : Request → Act σ Response) : Service σ :=
  fun req => pure (f req)

end Service

/-- A named stage around the rest of a chain. -/
structure Filter (σ : Type) where
  name : String
  process : Request → Service σ → Act σ (Pending σ)

namespace Filter

/-- A filter that does all its work in the second stage. -/
def deferred (name : String) (f : Request → Service σ → Act σ Response) : Filter σ :=
  ⟨name, fun req next => pure (f req next)⟩

/-- The service made of a filter and the rest of the chain. -/
def around (f : Filter σ) (next : Service σ) : Service σ :=
  fun req => f.process req next

end Filter

/-- Filters around one terminal service. -/
structure Chain (σ : Type) where
  entry : Service σ
  /-- The names of the filters, outermost first. -/
  names : List String

namespace Chain

/-- Composes filters, outermost first, around a terminal service. -/
def new (filters : List (Filter σ)) (terminal : Service σ) : Chain σ :=
  ⟨filters.foldr Filter.around terminal, filters.map (·.name)⟩

@[simp] theorem entry_new_nil (terminal : Service σ) : (new [] terminal).entry = terminal := rfl

@[simp] theorem entry_new_cons (f : Filter σ) (fs : List (Filter σ)) (terminal : Service σ) :
    (new (f :: fs) terminal).entry = f.around (new fs terminal).entry := rfl

/-- Runs a request through every filter and the terminal service. -/
def serve (c : Chain σ) (req : Request) : Act σ Response :=
  c.entry.run req

end Chain

/-- The filters a router puts around every route, outermost first. -/
structure FilterStack (σ : Type) where
  filters : List (Filter σ)

namespace FilterStack

def empty : FilterStack σ := ⟨[]⟩

/-- Adds a filter inside those already there. -/
def push (s : FilterStack σ) (f : Filter σ) : FilterStack σ :=
  ⟨s.filters ++ [f]⟩

/-- Adds a filter outside those already there. -/
def prepend (s : FilterStack σ) (f : Filter σ) : FilterStack σ :=
  ⟨f :: s.filters⟩

def size (s : FilterStack σ) : Nat :=
  s.filters.length

def isEmpty (s : FilterStack σ) : Bool :=
  s.filters.isEmpty

def names (s : FilterStack σ) : List String :=
  s.filters.map (·.name)

@[simp] theorem names_push (s : FilterStack σ) (f : Filter σ) :
    (s.push f).names = s.names ++ [f.name] := by
  simp [push, names]

@[simp] theorem names_prepend (s : FilterStack σ) (f : Filter σ) :
    (s.prepend f).names = f.name :: s.names := rfl

/-- The chain that ends in a terminal service. -/
def chain (s : FilterStack σ) (terminal : Service σ) : Chain σ :=
  .new s.filters terminal

end FilterStack

end AppServer.Pipeline
