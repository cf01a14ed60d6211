import AppServer.Data.Shape
import AppServer.Http.ApiError
import AppServer.Negotiation.Accept

/-!
# Providers

A provider writes values as some media types and reads bodies of some. Providers are kept in the
order of their registration, which decides between equals. A writer is chosen by the `Accept`
value of a request, a reader by its content type.
-/

namespace AppServer.Negotiation

open AppServer.Data AppServer.Http AppServer.Pipeline AppServer.Text

/-- A value that could not be written or a body that could not be read. -/
inductive ProviderError
  | encode (detail : String)
  | decode (detail : String)
deriving DecidableEq, Repr

def ProviderError.message : ProviderError → String
  | encode detail => "encode failed: " ++ detail
  | decode detail => "decode failed: " ++ detail

/-- A format bound to media types. -/
structure Provider where
  name : String
  /-- What it writes, the preferred type first. -/
  produces : List String
  /-- What it reads. -/
  consumes : List String
  encode : Value → Except ProviderError ByteArray
  /-- Reads a body of a shape; a provider may also accept a body without making a value of it. -/
  decode : Shape → ByteArray → Except ProviderError (Option Value)

/-- A provider accepted a body without making a value of it. -/
def ProviderError.noValue : ProviderError :=
  decode "provider produced no value"

/-- Reads a body as a value of a shape. -/
def Provider.decodeShape (p : Provider) (shape : Shape) (body : ByteArray) :
    Except ProviderError Value := do
  match ← p.decode shape body with
  | some v => .ok v
  | none => .error .noValue

/-- Reads a body as a value of `α`. -/
def Provider.decodeAs (p : Provider) (α : Type) [OfValue α] (body : ByteArray) :
    Except ProviderError α := do
  match ofValue? (← p.decodeShape (shape α) body) with
  | some a => .ok a
  | none => .error .noValue

/-- Why no provider was chosen. -/
inductive NegotiationError
  /-- No provider reads the content type. -/
  | unsupportedMediaType (contentType : String)
  /-- No provider writes what the client accepts. -/
  | notAcceptable (accept : String)
  | noProviders
deriving DecidableEq, Repr

namespace NegotiationError

def message : NegotiationError → String
  | unsupportedMediaType contentType => "no provider can read " ++ contentType
  | notAcceptable accept => "no provider can produce any of " ++ accept
  | noProviders => "no providers are registered"

/-- The error shown to the client. -/
def apiError : NegotiationError → ApiError
  | unsupportedMediaType contentType =>
    .unsupportedMediaType ("Unsupported content type: " ++ contentType)
  | notAcceptable accept =>
    .notAcceptable ("Cannot produce a response matching: " ++ accept)
  | noProviders => (ApiError.internalError "Internal Server Error").withInternal noProviders.message

end NegotiationError

/-- A chosen writer and the media type to write. -/
structure Selected where
  provider : Provider
  mediaType : String

/-- Providers in the order of registration. -/
structure Registry where
  providers : List Provider

namespace Registry

def empty : Registry := ⟨[]⟩

def isEmpty (r : Registry) : Bool :=
  r.providers.isEmpty

/-- Adds providers after those already there. -/
def register (r : Registry) (ps : List Provider) : Registry :=
  ⟨r.providers ++ ps⟩

def names (r : Registry) : List String :=
  r.providers.map (·.name)

@[simp] theorem names_register (r : Registry) (ps : List Provider) :
    (r.register ps).names = r.names ++ ps.map (·.name) := by
  simp [register, names]

/-- The first media type that a provider writes. -/
def defaultOf (p : Provider) : Except NegotiationError Selected :=
  match p.produces with
  | [] => .error .noProviders
  | mediaType :: _ => .ok ⟨p, mediaType⟩

/-- How much the client wants a media type: the range that decides and its position. -/
structure Rank where
  quality : Quality
  specificity : Nat
  position : Nat

namespace Rank

/-- Strictly preferred: by quality, then by specificity, then by the earlier position. -/
def above (a b : Rank) : Bool :=
  match b.quality.compare? a.quality with
  | some .lt => true
  | some .eq =>
    b.specificity < a.specificity ||
      (a.specificity == b.specificity && a.position < b.position)
  | _ => false

end Rank

/-- The rank of a media type, unless the client excludes it. -/
def rank? (accept : Accept) (mediaType : String) : Option Rank :=
  match accept.deciding? mediaType with
  | none => none
  | some (i, range) =>
    if range.quality.less .zero || range.quality.compare? .zero == some .eq then none
    else some ⟨range.quality, range.specificity, i⟩

/-- Every media type on offer, in the order of registration. -/
def offers (r : Registry) : List Selected :=
  r.providers.flatMap fun p => p.produces.map (Selected.mk p)

/-- Keeps the current choice unless the next offer ranks strictly above it. -/
def improve (accept : Accept) (best : Option (Rank × Selected)) (offer : Selected) :
    Option (Rank × Selected) :=
  match rank? accept offer.mediaType with
  | none => best
  | some rank =>
    match best with
    | none => some (rank, offer)
    | some (top, chosen) => if rank.above top then some (rank, offer) else some (top, chosen)

/-- The provider and media type for a response. Reading the `Accept` value may panic. -/
def selectWriter (r : Registry) (accept : Option String) :
    Except Payload (Except NegotiationError Selected) :=
  match r.providers with
  | [] => .ok (.error .noProviders)
  | first :: _ =>
    match accept.map trimmed with
    | none => .ok (defaultOf first)
    | some raw =>
      if raw.isEmpty then .ok (defaultOf first)
      else do
        let header ← Accept.parse raw
        if header.isEmpty then return defaultOf first
        else
          match r.offers.foldl (improve header) none with
          | some (_, chosen) => return .ok chosen
          | none => return .error (.notAcceptable raw)

/-- The provider that reads a body. -/
def selectReader (r : Registry) (contentType : Option String) :
    Except NegotiationError Provider :=
  match r.providers with
  | [] => .error .noProviders
  | first :: _ =>
    match contentType.map essence with
    | none => .ok first
    | some declared =>
      if declared.isEmpty then .ok first
      else
        match r.providers.find? fun p => p.consumes.any (sameLetters · declared) with
        | some p => .ok p
        | none => .error (.unsupportedMediaType declared)

end Registry

end AppServer.Negotiation
