import AppServer.Pipeline.Event
import AppServer.Pipeline.Payload

/-!
# Effects of a request

What runs for a request may change the state of the application, write to the log and panic. A
panic unwinds to whoever attempts the computation; what was changed and written before it stays.
-/

namespace AppServer.Pipeline

/-- The state of an application and its log so far. -/
structure World (σ : Type) where
  state : σ
  log : List Event
deriving Repr

/-- A computation that may change the state, write to the log, and panic. -/
abbrev Act (σ : Type) := ExceptT Payload (StateM (World σ))

namespace Act

variable {σ α : Type}

/-- Writes to the log. -/
def log (e : Event) : Act σ Unit :=
  modify fun w => { w with log := w.log ++ [e] }

/-- Panics. -/
def raise (p : Payload) : Act σ α :=
  throw p

/-- The state of the application. -/
def state : Act σ σ :=
  return (← get).state

def setState (s : σ) : Act σ Unit :=
  modify fun w => { w with state := s }

def modifyState (f : σ → σ) : Act σ Unit :=
  modify fun w => { w with state := f w.state }

/-- Runs a computation and catches its panic. -/
def attempt (x : Act σ α) : Act σ (Except Payload α) :=
  ExceptT.mk do
    let r ← x.run
    pure (.ok r)

/-- Drops what a panic carried. -/
def discard (p : Payload) : Act σ Unit :=
  match p.dropped with
  | some next => raise next
  | none => pure ()

/-- The outcome of a computation in a world, and the world after it. -/
def runIn (x : Act σ α) (w : World σ) : Except Payload α × World σ :=
  x.run.run w

@[simp] theorem runIn_pure (a : α) (w : World σ) : (pure a : Act σ α).runIn w = (.ok a, w) := rfl

@[simp] theorem runIn_raise (p : Payload) (w : World σ) :
    (raise p : Act σ α).runIn w = (.error p, w) := rfl

@[simp] theorem runIn_log (e : Event) (w : World σ) :
    (log e : Act σ Unit).runIn w = (.ok (), { w with log := w.log ++ [e] }) := rfl

@[simp] theorem runIn_state (w : World σ) : (state : Act σ σ).runIn w = (.ok w.state, w) := rfl

@[simp] theorem runIn_setState (s : σ) (w : World σ) :
    (setState s : Act σ Unit).runIn w = (.ok (), { w with state := s }) := rfl

@[simp] theorem runIn_modifyState (f : σ → σ) (w : World σ) :
    (modifyState f : Act σ Unit).runIn w = (.ok (), { w with state := f w.state }) := rfl

@[simp] theorem runIn_attempt (x : Act σ α) (w : World σ) :
    (attempt x).runIn w = (.ok (x.runIn w).1, (x.runIn w).2) := rfl

theorem runIn_discard (p : Payload) (w : World σ) :
    (discard p : Act σ Unit).runIn w =
      match p.dropped with
      | some next => (.error next, w)
      | none => (.ok (), w) := by
  unfold discard
  cases p.dropped <;> rfl

/-- What a computation does after another one. -/
theorem runIn_bind {β : Type} (x : Act σ α) (f : α → Act σ β) (w : World σ) :
    (x >>= f).runIn w =
      match x.runIn w with
      | (.ok a, w') => (f a).runIn w'
      | (.error p, w') => (.error p, w') := by
  show (ExceptT.bind x f) w = _
  simp only [ExceptT.bind, ExceptT.mk, ExceptT.bindCont, runIn, ExceptT.run, StateT.run, bind,
    StateT.bind]
  rcases x w with ⟨r, w'⟩
  cases r <;> rfl

end Act

end AppServer.Pipeline
