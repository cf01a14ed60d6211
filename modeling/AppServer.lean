import AppServer.Admin.Basic
import AppServer.Admin.Page
import AppServer.Application.Basic
import AppServer.Config.Basic
import AppServer.Config.EnvFile
import AppServer.Config.Variables
import AppServer.Data.Shape
import AppServer.Data.Sorted
import AppServer.Data.Value
import AppServer.Demo.Blueprint
import AppServer.Demo.Console
import AppServer.Demo.Directory
import AppServer.Demo.Program
import AppServer.Diagnostics.Basic
import AppServer.Diagnostics.Routing
import AppServer.Diagnostics.Server
import AppServer.Health.Registry
import AppServer.Health.Status
import AppServer.Http.ApiError
import AppServer.Http.Headers
import AppServer.Http.Method
import AppServer.Http.Request
import AppServer.Http.Response
import AppServer.Http.Uri
import AppServer.Json.Number
import AppServer.Json.Printer
import AppServer.Json.Reader
import AppServer.Json.Text
import AppServer.Json.Tree
import AppServer.Main
import AppServer.Negotiation.Accept
import AppServer.Negotiation.Builtin
import AppServer.Negotiation.MediaRange
import AppServer.Negotiation.Provider
import AppServer.Negotiation.Quality
import AppServer.Net.Address
import AppServer.Number.Binary
import AppServer.Number.Decimal
import AppServer.Number.Shortest
import AppServer.Pipeline.Act
import AppServer.Pipeline.Chain
import AppServer.Pipeline.Event
import AppServer.Pipeline.Payload
import AppServer.Pipeline.Recovery
import AppServer.Proofs.Admin.Healthcheck
import AppServer.Proofs.Admin.Links
import AppServer.Proofs.Admin.Page
import AppServer.Proofs.Admin.Registered
import AppServer.Proofs.Admin.Tasks
import AppServer.Proofs.Data.Record
import AppServer.Proofs.Data.Sorted
import AppServer.Proofs.Demo.Directory
import AppServer.Proofs.Demo.Refinement
import AppServer.Proofs.Demo.Refusals
import AppServer.Proofs.Demo.Surfaces
import AppServer.Proofs.Demo.Users
import AppServer.Proofs.Health.Registry
import AppServer.Proofs.Health.Report
import AppServer.Proofs.Http.ApiError
import AppServer.Proofs.Http.HeaderValue
import AppServer.Proofs.Http.Target
import AppServer.Proofs.Json.Numbers
import AppServer.Proofs.Json.Objects
import AppServer.Proofs.Json.Records
import AppServer.Proofs.Json.Strings
import AppServer.Proofs.Json.Values
import AppServer.Proofs.Negotiation.Acceptance
import AppServer.Proofs.Negotiation.Choice
import AppServer.Proofs.Negotiation.Decision
import AppServer.Proofs.Negotiation.Documents
import AppServer.Proofs.Negotiation.Elements
import AppServer.Proofs.Negotiation.Extension
import AppServer.Proofs.Negotiation.NoPreference
import AppServer.Proofs.Negotiation.Offers
import AppServer.Proofs.Negotiation.Preference
import AppServer.Proofs.Negotiation.Reader
import AppServer.Proofs.Negotiation.RoundTrip
import AppServer.Proofs.Negotiation.Writer
import AppServer.Proofs.Number.Digits
import AppServer.Proofs.Number.Literals
import AppServer.Proofs.Pipeline.Alike
import AppServer.Proofs.Pipeline.Recovery
import AppServer.Proofs.Pipeline.Tally
import AppServer.Proofs.Pipeline.Trace
import AppServer.Proofs.Resource.AcceptLines
import AppServer.Proofs.Resource.Alike
import AppServer.Proofs.Resource.Discreet
import AppServer.Proofs.Resource.Dispatch
import AppServer.Proofs.Resource.Steps
import AppServer.Proofs.Resource.Trailing
import AppServer.Proofs.Routing.Alike
import AppServer.Proofs.Routing.Batch
import AppServer.Proofs.Routing.Bucket
import AppServer.Proofs.Routing.Capture
import AppServer.Proofs.Routing.Dispatch
import AppServer.Proofs.Routing.Grammar
import AppServer.Proofs.Routing.InPlace
import AppServer.Proofs.Routing.Isolation
import AppServer.Proofs.Routing.Listing
import AppServer.Proofs.Routing.Lookup
import AppServer.Proofs.Routing.Mount
import AppServer.Proofs.Routing.NormalForm
import AppServer.Proofs.Routing.Order
import AppServer.Proofs.Routing.Pattern
import AppServer.Proofs.Routing.Prefix
import AppServer.Proofs.Routing.Refusal
import AppServer.Proofs.Routing.Relocation
import AppServer.Proofs.Routing.Secrecy
import AppServer.Proofs.Routing.Slashes
import AppServer.Proofs.Routing.Table
import AppServer.Proofs.Routing.Written
import AppServer.Proofs.Server.Build
import AppServer.Proofs.Server.Caching
import AppServer.Proofs.Server.Delivery
import AppServer.Proofs.Server.Endpoints
import AppServer.Proofs.Server.Registration
import AppServer.Proofs.Server.Surfaces
import AppServer.Proofs.Server.Validation
import AppServer.Proofs.Sorting.Halves
import AppServer.Proofs.Sorting.Permutation
import AppServer.Proofs.Sorting.Runs
import AppServer.Proofs.Sorting.Stable
import AppServer.Proofs.Testing.Client
import AppServer.Proofs.Text.Letters
import AppServer.Proofs.Text.Percent
import AppServer.Proofs.Text.Pieces
import AppServer.Proofs.Text.Segments
import AppServer.Proofs.Text.Trim
import AppServer.Proofs.Text.Utf8
import AppServer.Proofs.Xml.Content
import AppServer.Proofs.Xml.Edges
import AppServer.Proofs.Xml.Records
import AppServer.Proofs.Xml.Roots
import AppServer.Proofs.Xml.Runs
import AppServer.Proofs.Xml.Tags
import AppServer.Resource.Basic
import AppServer.Resource.Dispatch
import AppServer.Routing.Error
import AppServer.Routing.Mount
import AppServer.Routing.Pattern
import AppServer.Routing.Router
import AppServer.Server.Basic
import AppServer.Server.Listener
import AppServer.Sorting.Basic
import AppServer.Sorting.Small
import AppServer.Startup
import AppServer.Testing.Bench
import AppServer.Testing.Check
import AppServer.Testing.Client
import AppServer.Testing.Filter
import AppServer.Testing.Handler
import AppServer.Testing.Provider
import AppServer.Testing.Record
import AppServer.Testing.Resource
import AppServer.Text.Blank
import AppServer.Text.Hex
import AppServer.Text.Hidden
import AppServer.Text.Lossy
import AppServer.Text.Percent
import AppServer.Text.Quoted
import AppServer.Text.Search
import AppServer.Text.Split
import AppServer.Xml.Event
import AppServer.Xml.Name
import AppServer.Xml.Node
import AppServer.Xml.Printer
import AppServer.Xml.Reader
import AppServer.Xml.Text
import AppServer.Xml.Whitespace
