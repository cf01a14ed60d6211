import AppServer.Data.Shape
import AppServer.Json.Printer

/-!
# Health of components

What a check finds, and the report over all checks in the order of their names. A degraded
component still counts as healthy, and its reason is shown.
-/

namespace AppServer

open AppServer.Data

/-- What a check finds. -/
inductive HealthStatus
  | healthy
  | unhealthy (reason : String)
  /-- Working, but not as it should. -/
  | degraded (reason : String)
deriving DecidableEq, Repr, Inhabited

namespace HealthStatus

def isHealthy : HealthStatus → Bool
  | healthy => true
  | _ => false

def isUnhealthy : HealthStatus → Bool
  | unhealthy _ => true
  | _ => false

def isDegraded : HealthStatus → Bool
  | degraded _ => true
  | _ => false

/-- Why a component is not healthy. -/
def reason? : HealthStatus → Option String
  | healthy => none
  | unhealthy reason | degraded reason => some reason

end HealthStatus

/-- What the report says of one check. -/
structure CheckReport where
  healthy : Bool
  message : Option String
deriving DecidableEq, Repr

namespace CheckReport

def ofStatus (s : HealthStatus) : CheckReport :=
  ⟨!s.isUnhealthy, s.reason?⟩

/-- An object; a message that is absent is left out. -/
def json (r : CheckReport) : List Char :=
  let flag := Json.member "healthy" (if r.healthy then "true" else "false").toList
  Json.object (flag :: (r.message.map fun m => Json.member "message" (Json.string m)).toList)

end CheckReport

/-- The findings of one run, ordered by the names of the checks. -/
structure HealthReport where
  results : List (String × HealthStatus)
deriving DecidableEq, Repr

namespace HealthReport

def empty : HealthReport := ⟨[]⟩

/-- Adds the finding of a check, in place of an earlier one. -/
def insert (r : HealthReport) (name : String) (s : HealthStatus) : HealthReport :=
  ⟨insertSorted name s r.results⟩

/-- Whether nothing is unhealthy. -/
def isHealthy (r : HealthReport) : Bool :=
  !r.results.any (·.2.isUnhealthy)

def get? (r : HealthReport) (name : String) : Option HealthStatus :=
  lookup? name r.results

@[simp] theorem get?_insert_self (r : HealthReport) (name : String) (s : HealthStatus) :
    (r.insert name s).get? name = some s :=
  lookup?_insertSorted_self name s r.results

theorem get?_insert_of_ne (r : HealthReport) {name other : String} (h : other ≠ name)
    (s : HealthStatus) : (r.insert name s).get? other = r.get? other :=
  lookup?_insertSorted_of_ne h s r.results

def size (r : HealthReport) : Nat :=
  r.results.length

def isEmpty (r : HealthReport) : Bool :=
  r.results.isEmpty

/-- What is said of every check. -/
def checks (r : HealthReport) : List (String × CheckReport) :=
  r.results.map fun (name, s) => (name, .ofStatus s)

/-- An object with a member for every check. -/
def json (r : HealthReport) : List Char :=
  Json.object (r.checks.map fun (name, c) => Json.member name c.json)

end HealthReport

end AppServer
