import AppServer.Admin.Basic
import AppServer.Application.Basic
import AppServer.Startup

/-!
# Servers

A blueprint is a configuration with an application and an admin surface. Building it validates the
configuration, registers all routes of both surfaces, and yields a server: two routers, between
which a connector chooses.
-/

namespace AppServer

open Http Pipeline Routing

variable {σ : Type}

/-- A configured server. -/
structure Server (σ : Type) where
  config : Config
  application : Router σ
  admin : Router σ

/-- Where a request comes in. -/
inductive Connector
  | application
  | admin
  /-- The one listener of the shared layout. -/
  | shared
deriving DecidableEq, Repr

def Connector.name : Connector → String
  | application => "application"
  | admin => "admin"
  | shared => "simple"

namespace Server

/-- The router for a path. On the shared connector a path under the admin mount point goes to the
admin surface. -/
def routerFor (s : Server σ) (c : Connector) (path : String) : Router σ :=
  match c with
  | .application => s.application
  | .admin => s.admin
  | .shared => if s.admin.covers path then s.admin else s.application

/-- Answers a request that came in on a connector. -/
def handle (s : Server σ) (c : Connector) (req : Request) : Act σ Response :=
  (s.routerFor c req.uri.path).serve req

end Server

/-- A server to be built. -/
structure Blueprint (σ : Type) where
  config : Config
  application : Application σ
  admin : Admin σ

namespace Blueprint

def new (config : Config) (p : Host) : Blueprint σ :=
  ⟨config, .empty, .empty p⟩

def filter (b : Blueprint σ) (f : Pipeline.Filter σ) : Blueprint σ :=
  { b with application := b.application.addFilter f }

def route (b : Blueprint σ) (method pattern : String) (service : Service σ) : Blueprint σ :=
  { b with application := b.application.handle method pattern service }

def resource (b : Blueprint σ) (r : Resource σ) : Blueprint σ :=
  { b with application := b.application.register r }

def provider (b : Blueprint σ) (p : Negotiation.Provider) : Blueprint σ :=
  { b with application := b.application.addProvider p }

def healthCheck (b : Blueprint σ) (name : String) (check : Act σ HealthStatus) : Blueprint σ :=
  { b with admin := b.admin.addHealthCheck name check }

def task (b : Blueprint σ) (name : String) (service : Service σ) : Blueprint σ :=
  { b with admin := b.admin.addTask ⟨name, service⟩ }

def adminHandler (b : Blueprint σ) (path name : String) (service : Service σ) : Blueprint σ :=
  { b with admin := b.admin.addHandler ⟨path, name, service⟩ }

/-- The server, or the first reason against it, and what is logged. The admin surface is started
once the application has been. -/
def build (b : Blueprint σ) : Except StartupError (Server σ) × List Event :=
  match b.config.validate with
  | .error e => (.error (.config e), [])
  | .ok config =>
    let (applicationMount, adminMount) := config.mountPoints
    match b.application.start applicationMount with
    | (.error errors, log) => (.error (.routes errors), log)
    | (.ok application, log) =>
      match b.admin.start adminMount with
      | (.error errors, more) => (.error (.routes errors), log ++ more)
      | (.ok admin, more) =>
        (.ok ⟨config, application, admin⟩,
          log ++ more ++ [.starting application.mount admin.mount])

end Blueprint

end AppServer
