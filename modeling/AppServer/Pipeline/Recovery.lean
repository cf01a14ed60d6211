import AppServer.Pipeline.Chain

/-!
# Panic isolation

The recovery filter turns a panic in either stage of the rest of its chain into a fixed response
and logs it. What the chain had built of a response is dropped, and so is what the panic carried.
Nothing catches a panic of that.
-/

namespace AppServer.Pipeline

open AppServer.Http

variable {σ : Type}

/-- The body of the response to a panic. -/
def recoveryBody : String := "Internal Server Error"

/-- The response to a panic. -/
def recoveryResponse : Response :=
  (Response.text recoveryBody).withStatus Status.internalServerError

/-- Logs a panic, drops what it carried and responds to it. -/
def recover (req : Request) (p : Payload) : Act σ Response := do
  Act.log (.panicRecovered req.method.name req.uri.path p.message)
  Act.discard p
  return recoveryResponse

/-- A pending response that no longer panics. -/
def settle (req : Request) (pending : Pending σ) : Act σ Response := do
  match ← Act.attempt pending with
  | .ok response => return response
  | .error p => recover req p

/-- Catches every panic of the rest of the chain. -/
def recoveryFilter : Filter σ where
  name := "recovery"
  process req next := do
    match ← Act.attempt (next req) with
    | .ok pending => pure (settle req pending)
    | .error p =>
      let response ← recover req p
      pure (pure response : Act σ Response)

end AppServer.Pipeline
