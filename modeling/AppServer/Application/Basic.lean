import AppServer.Negotiation.Builtin
import AppServer.Resource.Dispatch

/-!
# The application surface

Plain routes and resources, the providers that resources are served with, and the filters around
all of them. Everything is registered in order, a refused registration does not keep the later ones
from being tried, and all refusals are reported together.
-/

namespace AppServer

open Http Negotiation Pipeline Routing

variable {σ : Type}

/-- What the application surface is made of. -/
structure Application (σ : Type) where
  routes : List (Route σ)
  resources : List (Resource σ)
  /-- Added to the providers that every application has. -/
  providers : List Provider
  filters : FilterStack σ

namespace Application

def empty : Application σ :=
  ⟨[], [], [], .empty⟩

/-- Adds a plain route. -/
def handle (a : Application σ) (method pattern : String) (service : Service σ) : Application σ :=
  { a with routes := a.routes ++ [⟨method, pattern, service⟩] }

/-- Adds a resource. -/
def register (a : Application σ) (r : Resource σ) : Application σ :=
  { a with resources := a.resources ++ [r] }

def addProvider (a : Application σ) (p : Provider) : Application σ :=
  { a with providers := a.providers ++ [p] }

/-- Adds a filter inside those already there. -/
def addFilter (a : Application σ) (f : Pipeline.Filter σ) : Application σ :=
  { a with filters := a.filters.push f }

/-- The providers of the application's resources. -/
def registry (a : Application σ) : Registry :=
  Registry.standard.register a.providers

/-- A router in the making, with the endpoints, the errors and the log so far. -/
structure Progress (σ : Type) where
  router : Router σ
  endpoints : List Resource.Endpoint
  errors : List RouteError
  log : List Event

/-- What the table of endpoints shows for a plain route. -/
def plainComponent : String := "handler"

/-- Tries to register a plain route. -/
def Progress.addRoute (p : Progress σ) (route : Route σ) : Progress σ :=
  match p.router.handle route.method route.pattern route.service with
  | (router, .error e) => { p with router, errors := p.errors ++ [e] }
  | (router, .ok ()) =>
    let path := joinPath router.mount (Resource.shownPattern route.pattern)
    { p with router, endpoints := p.endpoints ++ [⟨route.method, path, plainComponent⟩] }

/-- Tries to register the verbs of a resource. -/
def Progress.addResource (registry : Registry) (p : Progress σ) (r : Resource σ) : Progress σ :=
  match Resource.register registry p.router r with
  | (router, .ok endpoints, events) =>
    { p with router, endpoints := p.endpoints ++ endpoints, log := p.log ++ events }
  | (router, .error e, events) =>
    { p with router, errors := p.errors ++ [e], log := p.log ++ events }

/-- All registrations, each tried whatever became of those before it. -/
def progress (a : Application σ) (mount : String) : Progress σ :=
  let start : Progress σ := ⟨.withFilters mount a.filters, [], [], []⟩
  a.resources.foldl (·.addResource a.registry ·) (a.routes.foldl (·.addRoute ·) start)

/-- The router of the surface, or all the errors of its routes, and what is logged. -/
def start (a : Application σ) (mount : String) :
    Except (List RouteError) (Router σ) × List Event :=
  let p := a.progress mount
  if p.errors.isEmpty then
    (.ok p.router, p.log ++
      [.resources (a.resources.map (·.name)), .endpoints (p.endpoints.map (·.line))])
  else
    (.error p.errors, p.log ++ p.errors.map (.registrationFailed ·.message))

end Application

end AppServer
