import AppServer.Http.ApiError
import AppServer.Pipeline.Recovery
import AppServer.Routing.Error
import AppServer.Routing.Mount

/-!
# Routers

A router holds, for every number of segments, the patterns of that length in ascending order of
their parameters, each with its routes. The first pattern that accepts a path and has a route for
the method serves a request; if patterns accept the path and none has one, the answer names the
methods that they have. No two patterns of a router with equally many parameters accept a common
path, so the order of registration never decides.
-/

namespace AppServer.Routing

open AppServer.Http AppServer.Pipeline

variable {σ : Type}

/-- The method of a route that serves every method. -/
def anyMethod : String := "*"

/-- A registered route, as it is listed. -/
structure RouteInfo where
  method : String
  /-- In normal form, relative to the mount point. -/
  pattern : String
deriving DecidableEq, Repr

/-- A service to be registered. -/
structure Route (σ : Type) where
  /-- A token, or `*` for every method. -/
  method : String
  pattern : String
  service : Service σ

/-- The routes of one pattern. -/
structure Entry (σ : Type) where
  pattern : Pattern
  methods : List (Method × Chain σ)
  /-- The route for every other method. -/
  any : Option (Chain σ)

namespace Entry

/-- A pattern without routes. -/
def new (p : Pattern) : Entry σ :=
  ⟨p, [], none⟩

/-- Whether there is a route for exactly this method, `none` meaning every other one. -/
def has (e : Entry σ) : Option Method → Bool
  | none => e.any.isSome
  | some m => e.methods.any (·.1 == m)

/-- Adds a route. -/
def add (e : Entry σ) (method : Option Method) (c : Chain σ) : Entry σ :=
  match method with
  | none => { e with any := some c }
  | some m => { e with methods := e.methods ++ [(m, c)] }

/-- The chain that serves a method. -/
def chainFor? (e : Entry σ) (m : Method) : Option (Chain σ) :=
  ((e.methods.find? (·.1 == m)).map (·.2)).or e.any

end Entry

/-- Routes under a mount point. -/
structure Router (σ : Type) where
  mount : String
  filters : FilterStack σ
  /-- The patterns of every length that occurs. -/
  buckets : List (Nat × List (Entry σ))
  /-- All routes in the order of registration. -/
  routes : List RouteInfo

/-- What a router finds for a method and a path. -/
inductive Match (σ : Type)
  | found (chain : Chain σ) (params : Params) (pattern : Pattern)
  | notFound
  | methodNotAllowed (allowed : List Method)

namespace Router

/-- A router whose chains run the filters inside a recovery filter. -/
def withFilters (mount : String) (filters : FilterStack σ) : Router σ :=
  ⟨normalizeMount mount, filters.prepend recoveryFilter, [], []⟩

@[simp] theorem mount_withFilters (mount : String) (filters : FilterStack σ) :
    (withFilters mount filters).mount = normalizeMount mount := rfl

/-- A router without filters of its own. -/
def new (mount : String) : Router σ :=
  withFilters mount .empty

/-- The patterns with `n` segments. -/
def bucket (r : Router σ) (n : Nat) : List (Entry σ) :=
  ((r.buckets.find? (·.1 == n)).map (·.2)).getD []

/-- Adds a key with nothing in it, unless the key is there. -/
def openKey {β : Type} (n : Nat) : List (Nat × List β) → List (Nat × List β)
  | [] => [(n, [])]
  | (k, vs) :: rest => if k = n then (k, vs) :: rest else (k, vs) :: openKey n rest

/-- Changes the value of a key. -/
def adjustKey {β : Type} (n : Nat) (f : β → β) : List (Nat × β) → List (Nat × β)
  | [] => []
  | (k, v) :: rest => if k = n then (k, f v) :: rest else (k, v) :: adjustKey n f rest

/-- Makes sure that there is a bucket for patterns with `n` segments. -/
def openBucket (r : Router σ) (n : Nat) : Router σ :=
  { r with buckets := openKey n r.buckets }

/-- Changes the patterns with `n` segments. -/
def adjustBucket (r : Router σ) (n : Nat) (f : List (Entry σ) → List (Entry σ)) : Router σ :=
  { r with buckets := adjustKey n f r.buckets }

/-- Reads a method: `none` stands for every method. -/
def readMethod (method : String) : Except RouteError (Option Method) :=
  if method = anyMethod then .ok none
  else
    match Method.ofName? method with
    | some m => .ok (some m)
    | none => .error (.invalidMethod method)

def methodLabel : Option Method → String
  | none => anyMethod
  | some m => m.name

/-- The first registered pattern that is the new one, or that excludes it. -/
def firstRelated? (p : Pattern) (entries : List (Entry σ)) : Option (Entry σ) :=
  entries.find? fun e =>
    e.pattern == p || (e.pattern.paramCount == p.paramCount && e.pattern.overlaps p)

/-- Puts an entry behind those with no more parameters. -/
def insertEntry (e : Entry σ) : List (Entry σ) → List (Entry σ)
  | [] => [e]
  | x :: xs =>
    if x.pattern.paramCount ≤ e.pattern.paramCount then x :: insertEntry e xs else e :: x :: xs

/-- Replaces the entry of a pattern. -/
def updateEntry (p : Pattern) (f : Entry σ → Entry σ) (entries : List (Entry σ)) :
    List (Entry σ) :=
  entries.map fun e => if e.pattern == p then f e else e

/-- Makes sure that there is an entry for a pattern. What excludes the pattern is reported. -/
def openEntry (r : Router σ) (p : Pattern) : Router σ × Except RouteError Unit :=
  match firstRelated? p (r.bucket p.length) with
  | none => (r.adjustBucket p.length (insertEntry (.new p)), .ok ())
  | some e =>
    if e.pattern == p then (r, .ok ())
    else (r, .error (.ambiguous e.pattern.render p.render))

/-- Adds a route to the entry of its pattern, unless the method is taken. -/
def fillEntry (r : Router σ) (method : Option Method) (p : Pattern) (service : Service σ) :
    Router σ × Except RouteError Unit :=
  if ((r.bucket p.length).find? (·.pattern == p)).any (·.has method) then
    (r, .error (.duplicate (methodLabel method) p.render))
  else
    let filled := r.adjustBucket p.length (updateEntry p (·.add method (r.filters.chain service)))
    ({ filled with routes := r.routes ++ [⟨methodLabel method, p.render⟩] }, .ok ())

/-- Adds a route whose method and pattern have been read. -/
def enter (r : Router σ) (method : Option Method) (p : Pattern) (service : Service σ) :
    Router σ × Except RouteError Unit :=
  match (r.openBucket p.length).openEntry p with
  | (left, .error e) => (left, .error e)
  | (opened, .ok ()) => opened.fillEntry method p service

/-- Registers a service for a method, or for every method under `*`, on a pattern. The router changes
on the way, so a registration that is refused tells what it leaves, too. -/
def handle (r : Router σ) (method pattern : String) (service : Service σ) :
    Router σ × Except RouteError Unit :=
  match readMethod method with
  | .error e => (r, .error e)
  | .ok m =>
    match Pattern.parse pattern with
    | .error fault => (r, .error (.malformedPattern pattern fault))
    | .ok p => r.enter m p service

/-- The router with one more route, if it is accepted. -/
def register (r : Router σ) (method pattern : String) (service : Service σ) :
    Except RouteError (Router σ) :=
  match r.handle method pattern service with
  | (next, .ok ()) => .ok next
  | (_, .error e) => .error e

/-- Performs every registration, whatever becomes of the others. -/
def registerAll (r : Router σ) : List (Route σ) → Router σ × List RouteError
  | [] => (r, [])
  | route :: rest =>
    match r.handle route.method route.pattern route.service with
    | (next, .ok ()) => next.registerAll rest
    | (left, .error e) =>
      let (last, errors) := left.registerAll rest
      (last, e :: errors)

/-- Adds the methods that are not yet listed. -/
def collect (allowed : List Method) (e : Entry σ) : List Method :=
  e.methods.foldl (fun found (m, _) => if found.contains m then found else found ++ [m]) allowed

/-- Goes through the entries that accept a path. -/
def select (m : Method) (path : List String) (allowed : List Method) (matched : Bool) :
    List (Entry σ) → Match σ
  | [] => if matched then .methodNotAllowed allowed else .notFound
  | e :: rest =>
    match e.chainFor? m with
    | some chain => .found chain (e.pattern.capture path) e.pattern
    | none => select m path (collect allowed e) true rest

/-- What serves a method on a path, mount point included. -/
def lookup (r : Router σ) (m : Method) (path : String) : Match σ :=
  match stripMount? r.mount path with
  | none => .notFound
  | some rest =>
    let parts := Text.segments rest
    select m parts [] false ((r.bucket parts.length).filter (·.pattern.accepts parts))

/-- Whether a path lies under the mount point. -/
def covers (r : Router σ) (path : String) : Bool :=
  (stripMount? r.mount path).isSome

/-- The response to a path that no pattern accepts. -/
def notFoundResponse (path : String) : Response :=
  (ApiError.notFound ("No route for " ++ path)).response

/-- The methods of an `Allow` field. -/
def allowText (allowed : List Method) : String :=
  ", ".intercalate (allowed.map (·.name))

/-- The response to a method that no pattern for the path has. The field `Allow` is left out should
its text be no header value. -/
def notAllowedResponse (m : Method) (path : String) (allowed : List Method) : Response :=
  let e := ApiError.methodNotAllowed ("Method " ++ m.name ++ " not allowed for " ++ path)
  match headerValue? (allowText allowed).toUTF8 with
  | some value => { e.response with headers := e.response.headers.insert "allow" value }
  | none => e.response

/-- Answers a request. -/
def serve (r : Router σ) (req : Request) : Act σ Response :=
  match r.lookup req.method req.uri.path with
  | .found chain params _ => chain.serve { req with params }
  | .notFound => return notFoundResponse req.uri.path
  | .methodNotAllowed allowed => return notAllowedResponse req.method req.uri.path allowed

end Router

end AppServer.Routing
