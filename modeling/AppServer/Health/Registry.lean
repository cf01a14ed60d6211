import AppServer.Health.Status
import AppServer.Pipeline.Act

/-!
# Health checks

Named checks in the order in which their names were first registered. A name registered again
keeps its place and gets the new check.
-/

namespace AppServer

open AppServer.Pipeline

variable {σ : Type}

/-- A named check. -/
structure HealthCheck (σ : Type) where
  name : String
  run : Act σ HealthStatus

structure HealthRegistry (σ : Type) where
  checks : List (HealthCheck σ)

namespace HealthRegistry

def empty : HealthRegistry σ := ⟨[]⟩

/-- Puts a check in the place of the one that has its name, or at the end. -/
def place (c : HealthCheck σ) : List (HealthCheck σ) → List (HealthCheck σ)
  | [] => [c]
  | old :: rest => if old.name = c.name then c :: rest else old :: place c rest

def register (r : HealthRegistry σ) (name : String) (check : Act σ HealthStatus) :
    HealthRegistry σ :=
  ⟨place ⟨name, check⟩ r.checks⟩

def names (r : HealthRegistry σ) : List String :=
  r.checks.map (·.name)

theorem names_place (c : HealthCheck σ) (cs : List (HealthCheck σ)) :
    (place c cs).map (·.name) =
      if c.name ∈ cs.map (·.name) then cs.map (·.name) else cs.map (·.name) ++ [c.name] := by
  induction cs with
  | nil => simp [place]
  | cons x cs ih =>
    unfold place
    split
    · rename_i h
      simp [h]
    · rename_i h
      have hne : ¬ c.name = x.name := fun e => h e.symm
      simp only [List.map_cons, List.mem_cons, hne, false_or, ih]
      split <;> simp

/-- A name is listed once, where it was first registered. -/
theorem names_register (r : HealthRegistry σ) (name : String) (check : Act σ HealthStatus) :
    (r.register name check).names = if name ∈ r.names then r.names else r.names ++ [name] :=
  names_place ⟨name, check⟩ r.checks

def size (r : HealthRegistry σ) : Nat :=
  r.checks.length

def isEmpty (r : HealthRegistry σ) : Bool :=
  r.checks.isEmpty

/-- Runs checks one after the other and adds what they find to a report. -/
def runFrom (report : HealthReport) : List (HealthCheck σ) → Act σ HealthReport
  | [] => pure report
  | c :: rest => do
    let status ← c.run
    match status.reason? with
    | some reason => Act.log (.checkNotHealthy c.name reason)
    | none => pure ()
    runFrom (report.insert c.name status) rest

/-- Runs every check in the order of registration. -/
def run (r : HealthRegistry σ) : Act σ HealthReport :=
  runFrom .empty r.checks

end HealthRegistry

end AppServer
