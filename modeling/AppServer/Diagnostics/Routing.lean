import AppServer.Diagnostics.Basic
import AppServer.Resource.Dispatch

/-!
# Diagnostic text of requests, routes and resources
-/

namespace AppServer.Diagnostics

open Http Negotiation Pipeline Resource Routing

variable {σ : Type}

instance : Inspect Segment where
  inspect
    | .literal text => wrapped "Literal" (inspect text)
    | .param name => wrapped "Param" (inspect name)

instance : Inspect Pattern where
  inspect p := record "Pattern" [("raw", inspect p.render), ("segments", inspect p.segments)]

instance : Inspect RouteError where
  inspect
    | .duplicate method pattern =>
      record "Duplicate" [("method", inspect method), ("pattern", inspect pattern)]
    | .ambiguous existing new =>
      record "Ambiguous" [("existing", inspect existing), ("new", inspect new)]
    | .malformedPattern pattern fault =>
      record "MalformedPattern" [("pattern", inspect pattern), ("reason", inspect fault.reason)]
    | .invalidMethod method => wrapped "InvalidMethod" (inspect method)

instance : Inspect ApiError where
  inspect e := record "ApiError" [("status", inspect e.status), ("error_type", inspect e.kind),
    ("message", inspect e.message), ("internal", inspect e.internal)]

instance : Inspect Params where
  inspect p :=
    let capture (c : String × String) := "(" ++ inspect c.1 ++ ", " ++ inspect c.2 ++ ")"
    record "PathParams" [("captures", list (p.captures.map capture))]

instance : Inspect Request where
  inspect r := record "Request" [("method", r.method.name), ("uri", r.uri.render),
    ("version", r.version.name), ("path_params", inspect r.params)]

instance : Inspect (FilterStack σ) where
  inspect s := inspect s.names

instance : Inspect (Chain σ) where
  inspect c := record "Chain" [("filters", inspect c.names)]

instance : Inspect RouteInfo where
  inspect r := record "RouteInfo" [("method", inspect r.method), ("pattern", inspect r.pattern)]

instance : Inspect (Router σ) where
  inspect r := record "Router" [("prefix", inspect r.mount), ("filters", inspect r.filters),
    ("routes", inspect r.routes)]

instance : Inspect (Match σ) where
  inspect
    | .found _ params pattern =>
      record "Found" [("pattern", inspect pattern.render), ("params", inspect params)]
    | .notFound => "NotFound"
    | .methodNotAllowed allowed =>
      record "MethodNotAllowed" [("allowed", list (allowed.map (·.name)))]

instance : Inspect Provider where
  inspect p := record "Provider" [("name", inspect p.name), ("produces", inspect p.produces),
    ("consumes", inspect p.consumes)]

instance : Inspect Selected where
  inspect s := record "Selected" [("provider", inspect s.provider.name),
    ("media_type", inspect s.mediaType)]

instance : Inspect NegotiationError where
  inspect
    | .unsupportedMediaType contentType => wrapped "UnsupportedMediaType" (inspect contentType)
    | .notAcceptable accept => wrapped "NotAcceptable" (inspect accept)
    | .noProviders => "NoProviders"

instance : Inspect Registry where
  inspect r := inspect r.names

instance : Inspect (Verb σ) where
  inspect v := record "VerbHandler" [("method", v.method.name), ("takes_body", inspect v.takesBody)]

/-- What serves resources with the providers of a registry. -/
def resourceAdapter (r : Registry) : String :=
  record "ResourceAdapter" [("providers", inspect r)]

/-- An entity, which does not show what it holds. -/
def entity : String := wrapped "Entity" ".."

end AppServer.Diagnostics
