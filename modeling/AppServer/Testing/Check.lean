import AppServer.Health.Registry
import AppServer.Testing.Bench

/-!
# Stub checks

A check whose findings are prescribed run by run; the last one stays.
-/

namespace AppServer.Testing

open AppServer.Pipeline

/-- What one run of a stub check does. -/
inductive StubFinding
  | status (s : HealthStatus)
  | panic
deriving DecidableEq, Repr

/-- What the `n`th run finds, counted from 1. -/
def findingAt (findings : List StubFinding) (n : Nat) : StubFinding :=
  ((findings[n - 1]?).or findings.getLast?).getD (.status .healthy)

def stubCheck (slot : Slot) (findings : List StubFinding) : Act Bench HealthStatus := do
  match findingAt findings (← Bench.nextCall slot) with
  | .status s => return s
  | .panic => Act.raise (.text "check panicked")

end AppServer.Testing
