import AppServer.Proofs.Routing.Lookup

/-!
# Which registration serves a request

After any routes have been tried, accepted or refused, a method on a path is served by the accepted
registration on the most specific pattern for the path that has one for the method, exactly or for
every method. Where patterns for the path exist and none has the method, the response is a 405 that
names all of their methods.
-/

namespace AppServer.Routing

open AppServer.Http AppServer.Pipeline AppServer.Text

variable {σ : Type}

namespace Registration

/-- The registration is for `m`, exactly or along with every other method. -/
def Offers (reg : Registration σ) (m : Method) : Prop :=
  reg.method = some m ∨ reg.method = none

/-- Of the registrations on its pattern, `reg` is the one that serves `m`: the one for exactly `m`,
or else the one for every method. -/
def Serves (regs : List (Registration σ)) (m : Method) (reg : Registration σ) : Prop :=
  reg ∈ regs ∧ (reg.method = some m ∨
    (reg.method = none ∧ ∀ other ∈ regs, other.pattern = reg.pattern → other.method ≠ some m))

variable {reg : Registration σ} {regs : List (Registration σ)} {m m' : Method}

theorem Offers.eq_of_method (h : reg.Offers m) (hmethod : reg.method = some m') : m = m' := by
  rcases h with h | h
  · exact Option.some.inj (h.symm.trans hmethod)
  · cases h.symm.trans hmethod

theorem Serves.offers (h : Serves regs m reg) : reg.Offers m :=
  h.2.imp_right And.left

/-- Of the patterns that accept a path and have a route for `m`, `p` is the only one with as few
parameters. -/
structure MostSpecific (regs : List (Registration σ)) (m : Method) (parts : List String)
    (p : Pattern) : Prop where
  accepts : p.accepts parts = true
  offered : ∃ reg ∈ regs, reg.Offers m ∧ reg.pattern = p
  fewest : ∀ reg ∈ regs, reg.Offers m → reg.pattern.accepts parts = true → reg.pattern ≠ p →
    p.paramCount < reg.pattern.paramCount

theorem MostSpecific.unique {regs : List (Registration σ)} {m : Method} {parts : List String}
    {p q : Pattern} (hp : MostSpecific regs m parts p) (hq : MostSpecific regs m parts q) :
    p = q := by
  by_contra hne
  obtain ⟨reg, hreg, hoffers, rfl⟩ := hp.offered
  obtain ⟨other, hother, hoffers', rfl⟩ := hq.offered
  have hlt := hp.fewest other hother hoffers' hq.accepts (Ne.symm hne)
  have hgt := hq.fewest reg hreg hoffers hp.accepts hne
  omega

end Registration

namespace Router

open Registration

variable {r : Router σ} {regs : List (Registration σ)} {m : Method} {path : String}

namespace Holds

theorem table_ne_none_iff (hr : r.Holds regs) {m : Option Method} {p : Pattern} :
    r.table m p ≠ none ↔ ∃ reg ∈ regs, reg.method = m ∧ reg.pattern = p := by
  rw [Option.ne_none_iff_exists']
  constructor
  · rintro ⟨c, hc⟩
    obtain ⟨reg, hreg, hm, hp, -⟩ := hr.table.mp hc
    exact ⟨reg, hreg, hm, hp⟩
  · rintro ⟨reg, hreg, rfl, rfl⟩
    exact ⟨_, hr.table_of_mem hreg⟩

/-- The chain for a method on a pattern is that of the registration that serves it. -/
theorem chainOf?_eq_some_iff (hr : r.Holds regs) {p : Pattern} {c : Chain σ} :
    r.chainOf? m p = some c ↔
      ∃ reg, Serves regs m reg ∧ reg.pattern = p ∧ r.filters.chain reg.service = c := by
  rw [chainOf?, Option.or_eq_some_iff]
  constructor
  · rintro (h | ⟨hnone, h⟩)
    · obtain ⟨reg, hreg, hm, hp, hc⟩ := hr.table.mp h
      exact ⟨reg, ⟨hreg, .inl hm⟩, hp, hc⟩
    · obtain ⟨reg, hreg, hm, rfl, hc⟩ := hr.table.mp h
      refine ⟨reg, ⟨hreg, .inr ⟨hm, fun other hother hp hm' => ?_⟩⟩, rfl, hc⟩
      exact hr.table_ne_none_iff.mpr ⟨other, hother, hm', hp⟩ hnone
  · rintro ⟨reg, ⟨hreg, hm | ⟨hm, hother⟩⟩, rfl, rfl⟩
    · exact .inl (hm ▸ hr.table_of_mem hreg)
    · refine .inr ⟨?_, hm ▸ hr.table_of_mem hreg⟩
      by_contra hne
      obtain ⟨other, hmem, hm', hp⟩ := hr.table_ne_none_iff.mp hne
      exact hother other hmem hp hm'

theorem chainOf?_ne_none_iff (hr : r.Holds regs) {p : Pattern} :
    r.chainOf? m p ≠ none ↔ ∃ reg ∈ regs, reg.Offers m ∧ reg.pattern = p := by
  rw [chainOf?, Ne, Option.or_eq_none_iff, not_and_or]
  constructor
  · rintro (h | h)
    · obtain ⟨reg, hreg, hm, hp⟩ := hr.table_ne_none_iff.mp h
      exact ⟨reg, hreg, .inl hm, hp⟩
    · obtain ⟨reg, hreg, hm, hp⟩ := hr.table_ne_none_iff.mp h
      exact ⟨reg, hreg, .inr hm, hp⟩
  · rintro ⟨reg, hreg, hm | hm, hp⟩
    · exact .inl (hr.table_ne_none_iff.mpr ⟨reg, hreg, hm, hp⟩)
    · exact .inr (hr.table_ne_none_iff.mpr ⟨reg, hreg, hm, hp⟩)

theorem answers_lookup (hr : r.Holds regs) {rest : String} (h : Under r.mount path rest)
    (m : Method) : r.Answers m (segments rest) (r.lookup m path) :=
  hr.wellFormed.answers_lookup h m

/-- A found chain is that of the most specific pattern. -/
theorem mostSpecific_of_found (hr : r.Holds regs) {c : Chain σ} {params : Params} {p : Pattern}
    (h : r.lookup m path = .found c params p) :
    ∃ rest, Under r.mount path rest ∧ params = p.capture (segments rest) ∧
      MostSpecific regs m (segments rest) p ∧
      (∃ reg, Serves regs m reg ∧ reg.pattern = p) ∧
      ∀ reg, Serves regs m reg → reg.pattern = p → c = r.filters.chain reg.service := by
  by_cases hunder : ∃ rest, Under r.mount path rest
  · obtain ⟨rest, hunder⟩ := hunder
    have hanswers := hr.answers_lookup hunder m
    rw [h] at hanswers
    cases hanswers with
    | found accepts serves fewest =>
        refine ⟨rest, hunder, rfl, ⟨accepts, ?_, ?_⟩, ?_, ?_⟩
        · exact hr.chainOf?_ne_none_iff.mp (serves ▸ Option.some_ne_none c)
        · intro reg hreg hoffers haccepts hne
          obtain ⟨d, hd⟩ := Option.ne_none_iff_exists'.mp
            (hr.chainOf?_ne_none_iff.mpr ⟨reg, hreg, hoffers, rfl⟩)
          exact fewest _ d haccepts hd hne
        · obtain ⟨reg, hserves, hp, -⟩ := hr.chainOf?_eq_some_iff.mp serves
          exact ⟨reg, hserves, hp⟩
        · intro reg hserves hp
          have := hr.chainOf?_eq_some_iff.mpr ⟨reg, hserves, hp, rfl⟩
          rw [serves] at this
          exact Option.some.inj this
  · rw [lookup_of_not_under (not_exists.mp hunder)] at h
    cases h

theorem found_iff (hr : r.Holds regs) :
    (∃ c params p, r.lookup m path = .found c params p) ↔
      ∃ rest, Under r.mount path rest ∧
        ∃ reg ∈ regs, reg.Offers m ∧ reg.pattern.accepts (segments rest) = true := by
  constructor
  · rintro ⟨c, params, p, h⟩
    obtain ⟨rest, hunder, -, hp, -⟩ := hr.mostSpecific_of_found h
    obtain ⟨reg, hreg, hoffers, rfl⟩ := hp.offered
    exact ⟨rest, hunder, reg, hreg, hoffers, hp.accepts⟩
  · rintro ⟨rest, hunder, reg, hreg, hoffers, haccepts⟩
    have hserved := hr.chainOf?_ne_none_iff.mpr ⟨reg, hreg, hoffers, rfl⟩
    have hanswers := hr.answers_lookup hunder m
    cases hlookup : r.lookup m path with
    | found c params p => exact ⟨c, params, p, rfl⟩
    | notFound =>
        rw [hlookup] at hanswers
        cases hanswers with
        | notFound absent =>
            simp [chainOf?, absent _ _ haccepts] at hserved
    | methodNotAllowed allowed =>
        rw [hlookup] at hanswers
        cases hanswers with
        | methodNotAllowed _ unserved => exact absurd (unserved _ haccepts) hserved

/-- What serves on the most specific pattern is found. -/
theorem lookup_of_mostSpecific (hr : r.Holds regs) {rest : String} (hunder : Under r.mount path rest)
    {reg : Registration σ} (hp : MostSpecific regs m (segments rest) reg.pattern)
    (hserves : Serves regs m reg) :
    r.lookup m path =
      .found (r.filters.chain reg.service) (reg.pattern.capture (segments rest)) reg.pattern := by
  obtain ⟨offering, hmem, hoffers, hpattern⟩ := hp.offered
  have haccepts : offering.pattern.accepts (segments rest) = true := hpattern ▸ hp.accepts
  obtain ⟨c, params, q, hfound⟩ := hr.found_iff.mpr ⟨rest, hunder, offering, hmem, hoffers, haccepts⟩
  obtain ⟨rest', hunder', rfl, hq, -, hchain⟩ := hr.mostSpecific_of_found hfound
  obtain rfl := hunder.unique hunder'
  obtain rfl := hp.unique hq
  rw [hfound, hchain reg hserves rfl]

theorem notFound_iff (hr : r.Holds regs) :
    r.lookup m path = .notFound ↔
      ∀ rest, Under r.mount path rest →
        ∀ reg ∈ regs, reg.pattern.accepts (segments rest) = false := by
  constructor
  · intro h rest hunder reg hreg
    have hanswers := hr.answers_lookup hunder m
    rw [h] at hanswers
    cases hanswers with
    | notFound absent =>
        by_contra haccepts
        have := absent reg.pattern reg.method (Bool.not_eq_false _ ▸ haccepts)
        rw [hr.table_of_mem hreg] at this
        cases this
  · intro h
    by_cases hunder : ∃ rest, Under r.mount path rest
    · obtain ⟨rest, hunder⟩ := hunder
      have hroute : ∀ p m', p.accepts (segments rest) = true → r.table m' p = none := by
        intro p m' haccepts
        by_contra hne
        obtain ⟨reg, hreg, -, rfl⟩ := hr.table_ne_none_iff.mp hne
        rw [h rest hunder reg hreg] at haccepts
        cases haccepts
      have hanswers := hr.answers_lookup hunder m
      cases hlookup : r.lookup m path with
      | notFound => rfl
      | found c params p =>
          rw [hlookup] at hanswers
          cases hanswers with
          | found accepts serves _ => simp [chainOf?, hroute _ _ accepts] at serves
      | methodNotAllowed allowed =>
          rw [hlookup] at hanswers
          cases hanswers with
          | methodNotAllowed matched =>
              obtain ⟨p, m', haccepts, hne⟩ := matched
              exact absurd (hroute p m' haccepts) hne
    · exact lookup_of_not_under (not_exists.mp hunder) m

end Holds

/-- After any routes have been tried, a request is served by the accepted registration for it on the
most specific pattern. -/
theorem lookup_finds_mostSpecific (mount : String) (filters : FilterStack σ)
    (routes : List (Route σ)) (m : Method) (path : String) :
    let fresh := withFilters mount filters
    let r := (fresh.registerAll routes).1
    let regs := fresh.accepted routes
    ((∃ c params p, r.lookup m path = .found c params p) ↔
      ∃ rest, Under (normalizeMount mount) path rest ∧
        ∃ reg ∈ regs, reg.Offers m ∧ reg.pattern.accepts (segments rest) = true) ∧
    (∀ c params p, r.lookup m path = .found c params p →
      ∃ rest, Under (normalizeMount mount) path rest ∧ params = p.capture (segments rest) ∧
        MostSpecific regs m (segments rest) p ∧
        (∃ reg, Serves regs m reg ∧ reg.pattern = p) ∧
        ∀ reg, Serves regs m reg → reg.pattern = p →
          c = (filters.prepend recoveryFilter).chain reg.service) ∧
    (r.lookup m path = .notFound ↔
      ∀ rest, Under (normalizeMount mount) path rest →
        ∀ reg ∈ regs, reg.pattern.accepts (segments rest) = false) := by
  intro fresh r regs
  have hr : r.Holds regs := by
    simpa using (holds_withFilters mount filters).registerAll routes
  obtain ⟨hmount, hfilters⟩ := mount_registerAll fresh routes
  have hmount' : r.mount = normalizeMount mount := hmount
  have hfilters' : r.filters = filters.prepend recoveryFilter := hfilters
  rw [← hmount', ← hfilters']
  exact ⟨hr.found_iff, fun c params p h => hr.mostSpecific_of_found h, hr.notFound_iff⟩

/-! ## Methods that are not allowed -/

/-- The characters of separated texts are those of the texts and of the separator. -/
theorem mem_intercalate {c : Char} {sep : List Char} {texts : List (List Char)}
    (h : c ∈ sep.intercalate texts) : c ∈ sep ∨ ∃ text ∈ texts, c ∈ text := by
  induction texts with
  | nil => cases h
  | cons x xs ih =>
      cases xs with
      | nil => exact .inr ⟨x, by simp, by simpa using h⟩
      | cons y ys =>
          rw [List.intercalate_cons_cons, List.mem_append, List.mem_append] at h
          rcases h with (h | h) | h
          · exact .inr ⟨x, by simp, h⟩
          · exact .inl h
          · rcases ih h with h | ⟨text, htext, h⟩
            · exact .inl h
            · exact .inr ⟨text, List.mem_cons_of_mem _ htext, h⟩

theorem printable_allowText (allowed : List Method) :
    ∀ c ∈ (allowText allowed).toList, IsPrintable c := by
  intro c hc
  rw [allowText, String.toList_intercalate] at hc
  rcases mem_intercalate hc with hc | ⟨text, htext, hc⟩
  · exact printable_of_all (by decide) c hc
  · simp only [List.map_map, List.mem_map, Function.comp] at htext
    obtain ⟨m, -, rfl⟩ := htext
    exact m.printable_name c hc

/-- The field `Allow` is never left out. -/
theorem notAllowedResponse_eq (m : Method) (path : String) (allowed : List Method) :
    (notAllowedResponse m path allowed).status = 405 ∧
      (notAllowedResponse m path allowed).headers.all "allow" =
        [(", ".intercalate (allowed.map (·.name))).toUTF8] := by
  rw [notAllowedResponse, headerValue?_of_printable (printable_allowText allowed)]
  exact ⟨rfl, Headers.all_insert_self _ _ _⟩

/-- The list that is named does not depend on the method that was asked for. -/
theorem select_eq_methodNotAllowed {parts : List String} {entries : List (Entry σ)}
    {allowed : List Method} {m' : Method}
    (h : select m parts [] false entries = .methodNotAllowed allowed)
    (h' : ∀ c params p, select m' parts [] false entries ≠ .found c params p) :
    select m' parts [] false entries = .methodNotAllowed allowed := by
  rw [select_eq] at h h' ⊢
  split at h
  · cases h
  · split at h'
    · exact absurd rfl (h' _ _ _)
    · exact h

namespace Holds

/-- What a 405 says of the registrations. -/
theorem allowed_of_methodNotAllowed (hr : r.Holds regs) {allowed : List Method}
    (h : r.lookup m path = .methodNotAllowed allowed) :
    ∃ rest, Under r.mount path rest ∧ allowed.Nodup ∧ allowed ≠ [] ∧
      (∀ m', m' ∈ allowed ↔
        ∃ reg ∈ regs, reg.method = some m' ∧ reg.pattern.accepts (segments rest) = true) ∧
      ∀ m', (∃ c params p, r.lookup m' path = .found c params p) ↔ m' ∈ allowed := by
  by_cases hunder : ∃ rest, Under r.mount path rest
  · obtain ⟨rest, hunder⟩ := hunder
    have hanswers := hr.answers_lookup hunder m
    rw [h] at hanswers
    cases hanswers with
    | methodNotAllowed matched unserved nodup methods =>
        have hmem : ∀ m', m' ∈ allowed ↔
            ∃ reg ∈ regs, reg.method = some m' ∧ reg.pattern.accepts (segments rest) = true := by
          intro m'
          rw [methods]
          constructor
          · rintro ⟨p, haccepts, hne⟩
            obtain ⟨reg, hreg, hm, rfl⟩ := hr.table_ne_none_iff.mp hne
            exact ⟨reg, hreg, hm, haccepts⟩
          · rintro ⟨reg, hreg, hm, haccepts⟩
            exact ⟨reg.pattern, haccepts, hr.table_ne_none_iff.mpr ⟨reg, hreg, hm, rfl⟩⟩
        -- a route for every method would have served `m`
        have hexact : ∀ reg ∈ regs, reg.pattern.accepts (segments rest) = true →
            reg.method ≠ none := by
          intro reg hreg haccepts hm
          exact hr.chainOf?_ne_none_iff.mpr ⟨reg, hreg, .inr hm, rfl⟩ (unserved _ haccepts)
        refine ⟨rest, hunder, nodup, ?_, hmem, fun m' => ?_⟩
        · obtain ⟨p, m', haccepts, hne⟩ := matched
          obtain ⟨reg, hreg, -, rfl⟩ := hr.table_ne_none_iff.mp hne
          obtain ⟨x, hx⟩ := Option.ne_none_iff_exists'.mp (hexact reg hreg haccepts)
          exact List.ne_nil_of_mem ((hmem x).mpr ⟨reg, hreg, hx, haccepts⟩)
        · rw [hr.found_iff, hmem]
          constructor
          · rintro ⟨rest', hunder', reg, hreg, hoffers, haccepts⟩
            obtain rfl := hunder.unique hunder'
            exact ⟨reg, hreg, hoffers.resolve_right (hexact reg hreg haccepts), haccepts⟩
          · rintro ⟨reg, hreg, hm, haccepts⟩
            exact ⟨rest, hunder, reg, hreg, .inl hm, haccepts⟩
  · rw [lookup_of_not_under (not_exists.mp hunder)] at h
    cases h

/-- Every method that is not named gets the same answer. -/
theorem lookup_eq_methodNotAllowed (hr : r.Holds regs) {allowed : List Method}
    (h : r.lookup m path = .methodNotAllowed allowed) {m' : Method} (hm' : m' ∉ allowed) :
    r.lookup m' path = .methodNotAllowed allowed := by
  obtain ⟨rest, hunder, -, -, -, hfound⟩ := hr.allowed_of_methodNotAllowed h
  have hnot : ∀ c params p, r.lookup m' path ≠ .found c params p :=
    fun c params p heq => hm' ((hfound m').mp ⟨c, params, p, heq⟩)
  rw [lookup_of_under hunder] at h hnot ⊢
  exact select_eq_methodNotAllowed h hnot

end Holds

theorem serve_of_methodNotAllowed {req : Request} {allowed : List Method}
    (h : r.lookup req.method req.uri.path = .methodNotAllowed allowed) :
    r.serve req = pure (notAllowedResponse req.method req.uri.path allowed) := by
  rw [serve, h]

/-- After any routes have been tried, a 405 names exactly the methods that the accepted patterns for
the path have, and just these methods are found there. -/
theorem methodNotAllowed_names_methods (mount : String) (filters : FilterStack σ)
    (routes : List (Route σ)) (m : Method) (path : String) (allowed : List Method)
    (h : ((withFilters mount filters).registerAll routes).1.lookup m path =
      .methodNotAllowed allowed) :
    let fresh := withFilters mount filters
    let r := (fresh.registerAll routes).1
    let regs := fresh.accepted routes
    (∃ rest, Under (normalizeMount mount) path rest ∧ allowed.Nodup ∧ allowed ≠ [] ∧
      ∀ m', m' ∈ allowed ↔
        ∃ reg ∈ regs, reg.method = some m' ∧ reg.pattern.accepts (segments rest) = true) ∧
    (∀ m', (∃ c params p, r.lookup m' path = .found c params p) ↔ m' ∈ allowed) ∧
    (∀ m', m' ∉ allowed → r.lookup m' path = .methodNotAllowed allowed) ∧
    ∀ req : Request, req.method = m → req.uri.path = path →
      ∃ response, r.serve req = pure response ∧ response.status = 405 ∧
        response.headers.all "allow" = [(", ".intercalate (allowed.map (·.name))).toUTF8] := by
  intro fresh r regs
  have hr : r.Holds regs := by
    simpa using (holds_withFilters mount filters).registerAll routes
  have hmount : r.mount = normalizeMount mount := (mount_registerAll fresh routes).1
  obtain ⟨rest, hunder, hnodup, hne, hmem, hfound⟩ := hr.allowed_of_methodNotAllowed h
  refine ⟨⟨rest, hmount ▸ hunder, hnodup, hne, hmem⟩, hfound, fun m' hm' => ?_, ?_⟩
  · exact hr.lookup_eq_methodNotAllowed h hm'
  · rintro req rfl rfl
    exact ⟨_, serve_of_methodNotAllowed h, notAllowedResponse_eq _ _ allowed⟩

/-- Two patterns for one path, and one route that is refused. -/
def itemRoutes : List (Route Unit) :=
  let silent : Service Unit := .deferred fun _ => pure .empty
  [⟨"GET", "/items/:id", silent⟩, ⟨"DELETE", "/items/{id}/", silent⟩,
    ⟨"G ET", "/items/new", silent⟩, ⟨"PUT", "/items/new", silent⟩]

/-- Both patterns for `/items/new` count, the more specific one first. -/
theorem methodNotAllowed_items_new :
    ((withFilters "api/" .empty).registerAll itemRoutes).1.lookup .post "/api/items/new" =
      .methodNotAllowed [.put, .get, .delete] ∧
    ∀ m, (∃ c params p, ((withFilters "api/" .empty).registerAll itemRoutes).1.lookup m
      "/api/items/new" = .found c params p) ↔ m ∈ [.put, .get, .delete] := by
  have h : ((withFilters "api/" .empty).registerAll itemRoutes).1.lookup .post "/api/items/new" =
      .methodNotAllowed [.put, .get, .delete] := by rfl
  exact ⟨h, (methodNotAllowed_names_methods "api/" .empty itemRoutes _ _ _ h).2.1⟩

end Router

end AppServer.Routing
