import AppServer.Pipeline.Act

/-!
# The state behind stubs

Stubs write a trace of what runs and count their calls. Every stub counts in a slot of its own.
-/

namespace AppServer.Testing

open AppServer.Pipeline

/-- Where the calls of a stub are counted. -/
inductive Slot
  | route (n : Nat)
  | resource (n : Nat)
  | check (n : Nat)
  | menu (n : Nat)
  | task (n : Nat)
deriving DecidableEq, Repr

structure Bench where
  trace : List String
  calls : List (Slot × Nat)
deriving DecidableEq, Repr

namespace Bench

def empty : Bench := ⟨[], []⟩

def callsOf (b : Bench) (s : Slot) : Nat :=
  ((b.calls.find? (·.1 == s)).map (·.2)).getD 0

/-- Counts one call. -/
def addCall (b : Bench) (s : Slot) : Bench :=
  { b with calls := (s, b.callsOf s + 1) :: b.calls.filter (·.1 != s) }

/-- Adds a line to the trace. -/
def record (line : String) : Act Bench Unit :=
  Act.modifyState fun b => { b with trace := b.trace ++ [line] }

/-- Counts a call; the number of calls so far, this one included. -/
def nextCall (s : Slot) : Act Bench Nat := do
  Act.modifyState (·.addCall s)
  return (← Act.state).callsOf s

end Bench

end AppServer.Testing
