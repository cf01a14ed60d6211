/-!
# What a panic carries

A panic unwinds with a payload. Whoever catches the panic drops the payload, and the destructor of
one that is no text may panic in turn.
-/

namespace AppServer.Pipeline

inductive Payload
  | text (s : String)
  /-- Anything that is not a text. -/
  | other
  /-- Not a text either, and dropping it panics with another payload. -/
  | fragile (next : Payload)
deriving DecidableEq, Repr, Inhabited

namespace Payload

def message : Payload → String
  | text s => s
  | _ => "non-string panic payload"

/-- What dropping it panics with, if it does. -/
def dropped : Payload → Option Payload
  | fragile next => some next
  | _ => none

end Payload

/-- A payload that is dropped without another panic. -/
abbrev QuietPayload := { p : Payload // p.dropped = none }

end AppServer.Pipeline
