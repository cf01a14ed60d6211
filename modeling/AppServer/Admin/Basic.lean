import AppServer.Admin.Page
import AppServer.Health.Registry
import AppServer.Routing.Router

/-!
# The admin surface

An operational menu, tasks that can be run by a request, and a report on the health of the
application. All of it is plain routes: the index at the mount point, an entry of the menu under
its path for every method, a task under `/tasks/` for `POST`. No response of these routes may be
kept by a cache.
-/

namespace AppServer

open Http Pipeline Routing

variable {σ : Type}

/-- An entry of the operational menu. -/
structure MenuEntry (σ : Type) where
  path : String
  name : String
  service : Service σ

/-- An operation that a request can run. -/
structure Task (σ : Type) where
  name : String
  service : Service σ

/-- Where the server runs. -/
structure Host where
  arch : String
  os : String
  family : String
  cpus : Nat
  pid : Nat
  /-- Seconds since the start. -/
  uptime : Nat
deriving DecidableEq, Repr, Inhabited

/-- What the admin surface is made of. -/
structure Admin (σ : Type) where
  menu : List (MenuEntry σ)
  tasks : List (Task σ)
  health : HealthRegistry σ
  filters : FilterStack σ
  host : Host

namespace Admin

def version : String := "0.1.0"

/-- What is told about where the server runs. -/
def report (p : Host) : String :=
  "ARCH: " ++ p.arch ++ "\nOS: " ++ p.os ++ "\nFAMILY: " ++ p.family ++ "\nVersion: " ++ version ++
    "\nNumCPU: " ++ toString p.cpus ++ "\nPID: " ++ toString p.pid ++
    "\nUptime: " ++ toString p.uptime ++ "s\n"

/-- The admin surface of an application without anything of its own. -/
def empty (p : Host) : Admin σ :=
  ⟨[], [], .empty, .empty, p⟩

def addHandler (a : Admin σ) (entry : MenuEntry σ) : Admin σ :=
  { a with menu := a.menu ++ [entry] }

def addTask (a : Admin σ) (task : Task σ) : Admin σ :=
  { a with tasks := a.tasks ++ [task] }

def addHealthCheck (a : Admin σ) (name : String) (check : Act σ HealthStatus) : Admin σ :=
  { a with health := a.health.register name check }

/-- Adds a filter inside those already there. -/
def addFilter (a : Admin σ) (f : Pipeline.Filter σ) : Admin σ :=
  { a with filters := a.filters.push f }

/-- What is answered when nothing watches over the application. -/
def noHealthChecks : String := "No health checks registered."

/-- Runs the health checks and reports on them. -/
def healthResponse (checks : HealthRegistry σ) : Act σ Response :=
  if checks.isEmpty then
    return (Response.text noHealthChecks).withStatus Status.notImplemented
  else do
    let report ← checks.run
    let status := if report.isHealthy then Status.ok else Status.internalServerError
    return (Response.ofTyped applicationJson (String.ofList report.json).toUTF8).withStatus status

def ping : MenuEntry σ :=
  ⟨"/ping", "Ping", .deferred fun _ => return .text "pong\n"⟩

def runtime (p : Host) : MenuEntry σ :=
  ⟨"/runtime", "Runtime", .deferred fun _ => return .text (report p)⟩

def healthcheck (checks : HealthRegistry σ) : MenuEntry σ :=
  ⟨"/healthcheck", "Healthcheck", .deferred fun _ => healthResponse checks⟩

/-- The menu, its own entries first. -/
def entries (a : Admin σ) : List (MenuEntry σ) :=
  [ping, runtime a.host, healthcheck a.health] ++ a.menu

def cacheControl : String := "must-revalidate,no-cache,no-store"

/-- Forbids caches to keep a response. -/
def cacheFilter : Pipeline.Filter σ :=
  .deferred "cache-control" fun req next =>
    return (← next.run req).setHeader "cache-control" cacheControl

/-- The pattern of a task. -/
def taskPath (name : String) : String :=
  "/tasks/" ++ name

/-- The routes of the surface under a mount point, in the order of registration. -/
def routes (a : Admin σ) (mount : String) : List (Route σ) :=
  let index := indexPage mount (a.entries.map fun e => (e.path, e.name))
  ⟨"GET", "/", .deferred fun _ => return .html index⟩ ::
    (a.entries.map fun e => ⟨anyMethod, e.path, e.service⟩) ++
    a.tasks.map fun t => ⟨"POST", taskPath t.name, t.service⟩

/-- One line of the table of tasks. -/
def taskLine (mount name : String) : String :=
  "POST    " ++ joinPath mount (taskPath name)

/-- What is logged when the surface has started. -/
def startEvents (a : Admin σ) (mount : String) : List Event :=
  [.tasks (a.tasks.map fun t => taskLine mount t.name), .healthChecks a.health.names] ++
    if a.health.isEmpty then [.noHealthChecks] else []

/-- The router of the surface, or all the errors of its routes, and what is logged. -/
def start (a : Admin σ) (mount : String) : Except (List RouteError) (Router σ) × List Event :=
  let router := Router.withFilters mount (a.filters.prepend cacheFilter)
  match router.registerAll (a.routes router.mount) with
  | (router, []) => (.ok router, a.startEvents router.mount)
  | (_, errors) => (.error errors, [])

end Admin

end AppServer
