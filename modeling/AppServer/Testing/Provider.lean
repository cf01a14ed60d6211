import AppServer.Json.Reader
import AppServer.Negotiation.Provider

/-!
# Stub providers

Providers with prescribed media types and prescribed failures. What a stub writes shows its name.
-/

namespace AppServer.Testing

open AppServer.Data AppServer.Negotiation

/-- How a stub writes. -/
inductive StubEncoding
  /-- The name of the stub, a colon, and the JSON text. -/
  | tagged
  | refused
deriving DecidableEq, Repr

/-- How a stub reads. -/
inductive StubDecoding
  | json
  | refused
  /-- Every body is accepted and none makes a value. -/
  | skipped
deriving DecidableEq, Repr

structure StubProvider where
  name : String
  produces : List String
  consumes : List String
  encoding : StubEncoding
  decoding : StubDecoding
deriving DecidableEq, Repr

namespace StubProvider

def encode (s : StubProvider) (v : Value) : Except ProviderError ByteArray :=
  match s.encoding with
  | .refused => .error (.encode "read-only")
  | .tagged =>
    match Json.render? v with
    | some text => .ok (s.name ++ ":" ++ text).toUTF8
    | none => .error (.encode "the value has no JSON form")

def decode (s : StubProvider) (shape : Shape) (body : ByteArray) :
    Except ProviderError (Option Value) :=
  match s.decoding with
  | .refused => .error (.decode "write-only")
  | .skipped => .ok none
  | .json =>
    match Json.read? shape body with
    | some v => .ok (some v)
    | none => .error (.decode "the body is not the JSON that was expected")

def provider (s : StubProvider) : Provider :=
  ⟨s.name, s.produces, s.consumes, s.encode, s.decode⟩

end StubProvider

end AppServer.Testing
