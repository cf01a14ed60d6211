import AppServer.Proofs.Pipeline.Recovery
import AppServer.Proofs.Resource.Alike
import AppServer.Proofs.Routing.Lookup

/-!
# Routers that differ in what is secret

Two routers are alike if they hold the same patterns and methods, with chains that are alike. They
accept and refuse the same registrations and stay alike, whatever is registered, and they give every
request the same response.
-/

namespace AppServer

open AppServer.Http AppServer.Negotiation AppServer.Pipeline

variable {σ τ : Type} {S : σ → τ → Prop}

/-- Chains that answer every request, and with the same response. -/
def Pipeline.Chain.Alike (S : σ → τ → Prop) (c : Chain σ) (c' : Chain τ) : Prop :=
  ∀ (req : Request) (w : World σ) (v : World τ), S w.state v.state →
    ∃ response, ((c.serve req).runIn w).1 = .ok response ∧
      ((c'.serve req).runIn v).1 = .ok response ∧
      S ((c.serve req).runIn w).2.state ((c'.serve req).runIn v).2.state

/-- Inside a recovery filter, alike filters around alike services always answer. -/
theorem Pipeline.FilterStack.alike_chain {filters : FilterStack σ} {filters' : FilterStack τ}
    (hfilters : List.Forall₂ (Filter.Alike S) filters.filters filters'.filters)
    {service : Service σ} {service' : Service τ} (h : service.Alike S service') :
    Chain.Alike S ((filters.prepend recoveryFilter).chain service)
      ((filters'.prepend recoveryFilter).chain service') := by
  intro req w v hS
  obtain ⟨hres, hS'⟩ := (Chain.alike_new hfilters h).run req w v hS
  have hrun : (((filters.prepend recoveryFilter).chain service).serve req).runIn w =
      recovered req (((Chain.new filters.filters service).entry.run req).runIn w) :=
    runIn_run_recoveryFilter _ req w
  have hrun' : (((filters'.prepend recoveryFilter).chain service').serve req).runIn v =
      recovered req (((Chain.new filters'.filters service').entry.run req).runIn v) :=
    runIn_run_recoveryFilter _ req v
  rw [hrun, hrun', state_recovered, state_recovered]
  rcases hinner : ((Chain.new filters.filters service).entry.run req).runIn w with ⟨r, w'⟩
  rcases hinner' : ((Chain.new filters'.filters service').entry.run req).runIn v with ⟨r', v'⟩
  rw [hinner, hinner'] at hres hS'
  cases hres with
  | @ok a b hab => exact ⟨a, rfl, hab ▸ rfl, hS'⟩
  | error hquiet =>
      exact ⟨recoveryResponse, aftermath_of_quiet hquiet.1, aftermath_of_quiet hquiet.2, hS'⟩

namespace Routing

/-! ## Entries -/

/-- Patterns with the same methods and chains that are alike. -/
structure Entry.Alike (S : σ → τ → Prop) (e : Entry σ) (e' : Entry τ) : Prop where
  pattern : e.pattern = e'.pattern
  methods : List.Forall₂ (fun a b => a.1 = b.1 ∧ a.2.Alike S b.2) e.methods e'.methods
  any : Option.Rel (Chain.Alike S) e.any e'.any

namespace Entry.Alike

variable {e : Entry σ} {e' : Entry τ} {c : Chain σ} {c' : Chain τ}

theorem new (p : Pattern) : (Entry.new p : Entry σ).Alike S (Entry.new p : Entry τ) :=
  ⟨rfl, .nil, .none⟩

theorem add (h : e.Alike S e') (m : Option Method) (hc : c.Alike S c') :
    (e.add m c).Alike S (e'.add m c') := by
  cases m with
  | none => exact ⟨h.pattern, h.methods, .some hc⟩
  | some m => exact ⟨h.pattern, List.rel_append h.methods (.cons ⟨rfl, hc⟩ .nil), h.any⟩

theorem route? (h : e.Alike S e') (m : Option Method) :
    Option.Rel (Chain.Alike S) (e.route? m) (e'.route? m) := by
  cases m with
  | none => exact h.any
  | some m =>
      have hfind := rel_find? h.methods (p := (·.1 == m)) (q := (·.1 == m))
        fun a b hab => by rw [hab.1]
      simp only [Entry.route?]
      generalize e.methods.find? _ = x at hfind ⊢
      generalize e'.methods.find? _ = y at hfind ⊢
      cases hfind with
      | some hab => exact .some hab.2
      | none => exact .none

theorem has_eq (h : e.Alike S e') (m : Option Method) : e.has m = e'.has m := by
  rw [Entry.has_eq_isSome, Entry.has_eq_isSome]
  have hroute := h.route? m
  generalize e.route? m = x at hroute
  generalize e'.route? m = y at hroute
  cases hroute <;> rfl

theorem chainFor? (h : e.Alike S e') (m : Method) :
    Option.Rel (Chain.Alike S) (e.chainFor? m) (e'.chainFor? m) := by
  rw [Entry.chainFor?_eq, Entry.chainFor?_eq]
  have hexact := h.route? (some m)
  have hany := h.route? none
  generalize e.route? (some m) = x at hexact
  generalize e'.route? (some m) = y at hexact
  cases hexact with
  | some hc => exact .some hc
  | none => exact hany

theorem collect_eq (h : e.Alike S e') (allowed : List Method) :
    Router.collect allowed e = Router.collect allowed e' := by
  have hnames : e.methods.map Prod.fst = e'.methods.map Prod.fst := by
    have hmethods := h.methods
    generalize e.methods = ms at hmethods
    generalize e'.methods = ms' at hmethods
    induction hmethods with
    | nil => rfl
    | cons hab _ ih => rw [List.map_cons, List.map_cons, hab.1, ih]
  rw [Router.collect_eq, Router.collect_eq, hnames]

end Entry.Alike

/-! ## Buckets -/

namespace Router

variable {entries : List (Entry σ)} {entries' : List (Entry τ)} {e : Entry σ} {e' : Entry τ}

theorem alike_insertEntry (he : e.Alike S e') (h : List.Forall₂ (Entry.Alike S) entries entries') :
    List.Forall₂ (Entry.Alike S) (insertEntry e entries) (insertEntry e' entries') := by
  induction h with
  | nil => exact .cons he .nil
  | cons hx hrest ih =>
      unfold insertEntry
      rw [hx.pattern, he.pattern]
      split
      · exact .cons hx ih
      · exact .cons he (.cons hx hrest)

theorem alike_updateEntry (p : Pattern) {f : Entry σ → Entry σ} {f' : Entry τ → Entry τ}
    (hf : ∀ e e', e.Alike S e' → (f e).Alike S (f' e'))
    (h : List.Forall₂ (Entry.Alike S) entries entries') :
    List.Forall₂ (Entry.Alike S) (updateEntry p f entries) (updateEntry p f' entries') := by
  induction h with
  | nil => exact .nil
  | @cons e e' _ _ he _ ih =>
      refine .cons ?_ ih
      show Entry.Alike S (if e.pattern == p then f e else e) (if e'.pattern == p then f' e' else e')
      rw [he.pattern]
      split
      · exact hf e e' he
      · exact he

/-- A route is refused by both, with one error, or accepted by both. -/
theorem alike_addRoute (h : List.Forall₂ (Entry.Alike S) entries entries') (m : Option Method)
    (p : Pattern) {c : Chain σ} {c' : Chain τ} (hc : c.Alike S c') :
    BothWays Eq (List.Forall₂ (Entry.Alike S)) (addRoute entries m p c)
      (addRoute entries' m p c') := by
  have hrelated : Option.Rel (Entry.Alike S) (firstRelated? p entries)
      (firstRelated? p entries') := rel_find? h fun a b hab => by rw [hab.pattern]
  unfold addRoute
  generalize firstRelated? p entries = x at hrelated
  generalize firstRelated? p entries' = y at hrelated
  cases hrelated with
  | none => exact .ok (alike_insertEntry ((Entry.Alike.new p).add m hc) h)
  | @some e e' he =>
      dsimp only
      rw [he.pattern, he.has_eq]
      split
      · split
        · exact .error rfl
        · exact .ok (alike_updateEntry p (fun _ _ hx => hx.add m hc) h)
      · exact .error rfl

/-- Keys with the entries of one length. -/
abbrev AlikeBuckets (S : σ → τ → Prop) (buckets : List (Nat × List (Entry σ)))
    (buckets' : List (Nat × List (Entry τ))) : Prop :=
  List.Forall₂ (fun a b => a.1 = b.1 ∧ List.Forall₂ (Entry.Alike S) a.2 b.2) buckets buckets'

theorem alike_setKey (n : Nat) (h : List.Forall₂ (Entry.Alike S) entries entries')
    {buckets : List (Nat × List (Entry σ))} {buckets' : List (Nat × List (Entry τ))}
    (hbuckets : AlikeBuckets S buckets buckets') :
    AlikeBuckets S (setKey n entries buckets) (setKey n entries' buckets') := by
  induction hbuckets with
  | nil => exact .cons ⟨rfl, h⟩ .nil
  | @cons a b _ _ hab hrest ih =>
      unfold setKey
      rw [hab.1]
      split
      · exact .cons ⟨rfl, h⟩ hrest
      · exact .cons ⟨rfl, hab.2⟩ ih

/-! ## Routers -/

/-- Routers that hold the same routes to alike chains, and register alike. -/
structure Alike (S : σ → τ → Prop) (r : Router σ) (r' : Router τ) : Prop where
  mount : r.mount = r'.mount
  filters : ∃ (fs : FilterStack σ) (fs' : FilterStack τ), r.filters = fs.prepend recoveryFilter ∧
    r'.filters = fs'.prepend recoveryFilter ∧
    List.Forall₂ (Filter.Alike S) fs.filters fs'.filters
  buckets : AlikeBuckets S r.buckets r'.buckets

namespace Alike

variable {r : Router σ} {r' : Router τ}

theorem bucket (h : r.Alike S r') (n : Nat) :
    List.Forall₂ (Entry.Alike S) (r.bucket n) (r'.bucket n) := by
  have hfind := rel_find? h.buckets (p := (·.1 == n)) (q := (·.1 == n))
    fun a b hab => by rw [hab.1]
  unfold Router.bucket
  generalize r.buckets.find? _ = x at hfind ⊢
  generalize r'.buckets.find? _ = y at hfind ⊢
  cases hfind with
  | some hab => exact hab.2
  | none => exact .nil

theorem chain (h : r.Alike S r') {service : Service σ} {service' : Service τ}
    (hservice : service.Alike S service') :
    (r.filters.chain service).Alike S (r'.filters.chain service') := by
  obtain ⟨fs, fs', hfs, hfs', hfilters⟩ := h.filters
  rw [hfs, hfs']
  exact FilterStack.alike_chain hfilters hservice

/-- A registration is refused by both, with one error, or accepted by both. -/
theorem register (h : r.Alike S r') (method pattern : String) {service : Service σ}
    {service' : Service τ} (hservice : service.Alike S service') :
    BothWays Eq (Alike S) (r.register method pattern service)
      (r'.register method pattern service') := by
  rw [Router.register_eq, Router.register_eq]
  cases readMethod method with
  | error e => exact .error rfl
  | ok m =>
      cases (Pattern.parse pattern).mapError (RouteError.malformedPattern pattern) with
      | error e => exact .error rfl
      | ok p =>
          refine (alike_addRoute (h.bucket p.length) m p (h.chain hservice)).bind ?_
          intro entries entries' hentries
          exact .ok ⟨h.mount, h.filters, alike_setKey p.length hentries h.buckets⟩

/-- In place, too: what is left of both is alike, whatever becomes of the registration. -/
theorem handle (h : r.Alike S r') (method pattern : String) {service : Service σ}
    {service' : Service τ} (hservice : service.Alike S service') :
    (r.handle method pattern service).1.Alike S (r'.handle method pattern service').1 ∧
      (r.handle method pattern service).2 = (r'.handle method pattern service').2 := by
  have hregister := h.register method pattern hservice
  cases hx : r.register method pattern service with
  | error e =>
      cases hy : r'.register method pattern service' with
      | error e' =>
          rw [hx, hy] at hregister
          cases hregister with
          | error heq =>
              rw [handle_of_error hx, handle_of_error hy, heq]
              exact ⟨h, rfl⟩
      | ok next' =>
          rw [hx, hy] at hregister
          cases hregister
  | ok next =>
      cases hy : r'.register method pattern service' with
      | error e' =>
          rw [hx, hy] at hregister
          cases hregister
      | ok next' =>
          rw [hx, hy] at hregister
          cases hregister with
          | ok hnext =>
              rw [handle_of_ok hx, handle_of_ok hy]
              exact ⟨hnext, rfl⟩

end Alike

/-- Answers with the same captures or the same methods, found chains being alike. -/
inductive AlikeMatch (S : σ → τ → Prop) : Match σ → Match τ → Prop
  | found {c : Chain σ} {c' : Chain τ} (h : c.Alike S c') (params : Params) (p : Pattern) :
      AlikeMatch S (.found c params p) (.found c' params p)
  | notFound : AlikeMatch S .notFound .notFound
  | methodNotAllowed (allowed : List Method) :
      AlikeMatch S (.methodNotAllowed allowed) (.methodNotAllowed allowed)

theorem alike_select (m : Method) (parts : List String) (allowed : List Method) (matched : Bool)
    (h : List.Forall₂ (Entry.Alike S) entries entries') :
    AlikeMatch S (select m parts allowed matched entries)
      (select m parts allowed matched entries') := by
  induction h generalizing allowed matched with
  | nil =>
      cases matched with
      | true => exact .methodNotAllowed allowed
      | false => exact .notFound
  | @cons e e' _ _ he _ ih =>
      have hchain := he.chainFor? m
      unfold select
      generalize e.chainFor? m = x at hchain ⊢
      generalize e'.chainFor? m = y at hchain ⊢
      cases hchain with
      | some hc =>
          dsimp only
          rw [he.pattern]
          exact .found hc _ _
      | none =>
          dsimp only
          rw [he.collect_eq]
          exact ih _ _

namespace Alike

variable {r : Router σ} {r' : Router τ}

theorem lookup (h : r.Alike S r') (m : Method) (path : String) :
    AlikeMatch S (r.lookup m path) (r'.lookup m path) := by
  unfold Router.lookup
  rw [h.mount]
  cases stripMount? r'.mount path with
  | none => exact .notFound
  | some rest =>
      refine alike_select m _ [] false (List.rel_filter ?_ (h.bucket _))
      intro e e' he
      show e.pattern.accepts _ = true ↔ e'.pattern.accepts _ = true
      rw [he.pattern]

/-- Alike routers answer every request, and with the same response. -/
theorem serve (h : r.Alike S r') (req : Request) (w : World σ) (v : World τ)
    (hS : S w.state v.state) :
    ∃ response, ((r.serve req).runIn w).1 = .ok response ∧
      ((r'.serve req).runIn v).1 = .ok response ∧
      S ((r.serve req).runIn w).2.state ((r'.serve req).runIn v).2.state := by
  have hlookup := h.lookup req.method req.uri.path
  unfold Router.serve
  generalize r.lookup req.method req.uri.path = x at hlookup
  generalize r'.lookup req.method req.uri.path = y at hlookup
  cases hlookup with
  | found hc params p => exact hc { req with params } w v hS
  | notFound => exact ⟨_, rfl, rfl, hS⟩
  | methodNotAllowed allowed => exact ⟨_, rfl, rfl, hS⟩

end Alike

end Router

end Routing

end AppServer
