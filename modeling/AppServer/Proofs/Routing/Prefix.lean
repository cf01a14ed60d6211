import AppServer.Proofs.Routing.Dispatch
import AppServer.Proofs.Routing.Refusal
import AppServer.Proofs.Routing.Relocation
import AppServer.Proofs.Routing.Slashes

/-!
# Mounting as a prefix

Under a mount point of literal text, a router does what a router at the root does that has the full
paths of the patterns. Every registration is accepted by both or refused by both for the same reason,
and from then on they hold the same routes in the same order, in buckets that are further back by the
length of the mount point. A path without two slashes in a row is covered just when it begins with
the segments of the mount point, so the two find the same for it.
-/

namespace AppServer.Routing

open AppServer.Http AppServer.Pipeline AppServer.Text

variable {σ : Type}

/-! ## Paths -/

/-- A path in which no two slashes follow each other lies under a mount point just when it begins with
the segments of that. -/
theorem segments_prefix_iff_exists_under (mount : String) {path : String}
    (hpath : ¬ ['/', '/'] <:+: ("/" ++ path).toList) :
    segments mount <+: segments ("/" ++ path) ↔
      ∃ rest, Under (normalizeMount mount) ("/" ++ path) rest := by
  rw [(isMount_normalizeMount mount).exists_under_iff, segments_normalizeMount,
    take_pieces_eq_iff hpath fun s hs => isSegment_of_mem_segments hs, segments_slash_append]

/-- Behind the mount point a pattern accepts what its full path accepts. -/
theorem Pattern.accepts_below_segments_iff (mount : String) (p : Pattern) {path : String}
    (hpath : ¬ ['/', '/'] <:+: ("/" ++ path).toList) :
    (p.below (Text.segments mount)).accepts (Text.segments ("/" ++ path)) = true ↔
      ∃ rest, Under (normalizeMount mount) ("/" ++ path) rest ∧
        p.accepts (Text.segments rest) = true := by
  constructor
  · intro haccepts
    obtain ⟨parts, hparts, -⟩ := accepts_below_iff.mp haccepts
    obtain ⟨rest, hunder⟩ :=
      (segments_prefix_iff_exists_under mount hpath).mp ⟨parts, hparts.symm⟩
    rw [hunder.segments_eq, segments_normalizeMount, accepts_below_append] at haccepts
    exact ⟨rest, hunder, haccepts⟩
  · rintro ⟨rest, hunder, haccepts⟩
    rwa [hunder.segments_eq, segments_normalizeMount, accepts_below_append]

/-! ## Registrations -/

/-- The route with the full path of its pattern; a pattern that cannot be read is left as it is. -/
def Route.below (mount : String) (route : Route σ) : Route σ :=
  match Pattern.parse route.pattern with
  | .ok p => { route with pattern := joinPath (normalizeMount mount) p.render }
  | .error _ => route

def Registration.below (mount : String) (reg : Registration σ) : Registration σ :=
  { reg with pattern := reg.pattern.below (segments mount) }

def RouteInfo.below (mount : String) (info : RouteInfo) : RouteInfo :=
  { info with pattern := joinPath (normalizeMount mount) info.pattern }

theorem Registration.length_below (mount : String) (reg : Registration σ) :
    (reg.below mount).pattern.length = (segments mount).length + reg.pattern.length :=
  Pattern.length_below

theorem Registration.IsRead.info_below {reg : Registration σ} (hreg : reg.IsRead)
    (mount : String) : (reg.below mount).info = reg.info.below mount := by
  rw [info, Registration.below, hreg.pattern.render_below]
  rfl

theorem Route.read_below {mount : String} (hmount : ∀ s ∈ segments mount, IsLiteral s)
    (route : Route σ) :
    (route.below mount).read =
      (route.read.mapError (RouteError.below mount)).map (Registration.below mount) := by
  unfold Route.below
  cases hparse : Pattern.parse route.pattern with
  | error fault =>
      unfold Route.read
      cases hmethod : Router.readMethod route.method with
      | error e =>
          obtain ⟨rfl, -⟩ := Router.readMethod_eq_error_iff.mp hmethod
          rfl
      | ok m =>
          rw [hparse]
          rfl
  | ok p =>
      have hp := Pattern.isRead_of_parse hparse
      have hbelow : Pattern.parse (joinPath (normalizeMount mount) p.render) =
          .ok (p.below (segments mount)) := by
        rw [← hp.render_below]
        exact (hp.below hmount).parse_render
      unfold Route.read
      cases hmethod : Router.readMethod route.method with
      | error e =>
          obtain ⟨rfl, -⟩ := Router.readMethod_eq_error_iff.mp hmethod
          rfl
      | ok m =>
          show Except.bind ((Pattern.parse _).mapError _) _ = _
          rw [hbelow, hparse]
          rfl

/-- What becomes of a route in two routers: both refuse it for the same reason, or both accept it and
what they are then is related. -/
inductive Alongside {α β : Type} (mount : String) (R : α → β → Prop) :
    Except RouteError α → Except RouteError β → Prop
  | refused (e : RouteError) : Alongside mount R (.error e) (.error (e.below mount))
  | accepted {a : α} {b : β} (h : R a b) : Alongside mount R (.ok a) (.ok b)

/-- What two routers find: nothing, the same methods, or the same chain and parameters under a
pattern and its full path. -/
inductive Match.Relocates (mount : String) : Match σ → Match σ → Prop
  | found {chain : Chain σ} {params : Params} {p q : Pattern}
      (full : q.render = joinPath (normalizeMount mount) p.render) :
      Relocates mount (.found chain params p) (.found chain params q)
  | notFound : Relocates mount .notFound .notFound
  | methodNotAllowed (allowed : List Method) :
      Relocates mount (.methodNotAllowed allowed) (.methodNotAllowed allowed)

namespace Router

/-- The router at the root holds the routes of the one under a mount point with their full paths. -/
structure Relocated (mount : String) (r flat : Router σ) : Prop where
  mounted : r.mount = normalizeMount mount
  root : flat.mount = "/"
  filters : flat.filters = r.filters
  routes : flat.routes = r.routes.map (RouteInfo.below mount)
  bucket : ∀ n, flat.bucket ((segments mount).length + n) = (r.bucket n).map (Entry.below mount)
  short : ∀ n < (segments mount).length, flat.bucket n = []

variable {mount : String} {r flat : Router σ} {regs : List (Registration σ)}

theorem relocated_withFilters (mount : String) (filters : FilterStack σ) :
    Relocated mount (withFilters mount filters) (withFilters "/" filters) where
  mounted := rfl
  root := rfl
  filters := rfl
  routes := rfl
  bucket _ := rfl
  short _ _ := rfl

theorem Lists.isRead_of_mem_bucket (hr : r.Lists regs) {n : Nat} {e : Entry σ}
    (he : e ∈ r.bucket n) : e.pattern.IsRead := by
  have hlength := (hr.wellFormed n).length e he
  obtain ⟨reg, hreg, hpattern⟩ := hr.exists_entry_iff.mp ⟨e, hlength.symm ▸ he, rfl⟩
  exact hpattern ▸ (hr.read reg hreg).pattern

namespace Relocated

theorem place (h : Relocated mount r flat) {reg : Registration σ} (hreg : reg.IsRead)
    (entries : List (Entry σ)) :
    Relocated mount (r.place reg entries)
      (flat.place (reg.below mount) (entries.map (Entry.below mount))) where
  mounted := h.mounted
  root := h.root
  filters := h.filters
  routes := by
    show flat.routes ++ [(reg.below mount).info] = (r.routes ++ [reg.info]).map _
    rw [h.routes, hreg.info_below, List.map_append]
    rfl
  bucket n := by
    rw [bucket_place, bucket_place, reg.length_below]
    by_cases hn : n = reg.pattern.length
    · rw [if_pos hn, if_pos (congrArg _ hn)]
    · rw [if_neg hn, if_neg (mt Nat.add_left_cancel hn), h.bucket]
  short n hn := by
    rw [bucket_place, reg.length_below, if_neg (by omega), h.short n hn]

/-- One registration, made in both routers. -/
theorem register (h : Relocated mount r flat) (hmount : ∀ s ∈ segments mount, IsLiteral s)
    (hr : r.Lists regs) (route : Route σ) :
    Alongside mount (Relocated mount) (r.register route.method route.pattern route.service)
      (flat.register (route.below mount).method (route.below mount).pattern
        (route.below mount).service) := by
  have hbelow := Route.read_below hmount route
  cases hread : route.read with
  | error e =>
      rw [hread] at hbelow
      rw [register_of_read_error hread, register_of_read_error hbelow]
      exact .refused e
  | ok reg =>
      rw [hread] at hbelow
      have hreg := Registration.isRead_of_read hread
      have hadd : addRoute (flat.bucket (reg.below mount).pattern.length) (reg.below mount).method
          (reg.below mount).pattern (flat.filters.chain (reg.below mount).service) =
          ((addRoute (r.bucket reg.pattern.length) reg.method reg.pattern
            (r.filters.chain reg.service)).mapError (RouteError.below mount)).map
            (List.map (Entry.below mount)) := by
        rw [reg.length_below, h.bucket, h.filters]
        exact addRoute_below (fun e he => hr.isRead_of_mem_bucket he) hreg.pattern _ _
      rw [register_of_read hread, register_of_read hbelow, hadd]
      cases addRoute (r.bucket reg.pattern.length) reg.method reg.pattern
          (r.filters.chain reg.service) with
      | error e => exact .refused e
      | ok entries => exact .accepted (h.place hreg entries)

/-- All registrations, made in both routers. -/
theorem registerAll (h : Relocated mount r flat) (hmount : ∀ s ∈ segments mount, IsLiteral s)
    (hr : r.Lists regs) (routes : List (Route σ)) :
    Relocated mount (r.registerAll routes).1 (flat.registerAll (routes.map (Route.below mount))).1 ∧
      (flat.registerAll (routes.map (Route.below mount))).2 =
        (r.registerAll routes).2.map (RouteError.below mount) := by
  induction routes generalizing r flat regs with
  | nil => exact ⟨h, rfl⟩
  | cons route rest ih =>
      have hstep := h.register hmount hr route
      rw [List.map_cons, Router.registerAll_cons, Router.registerAll_cons]
      cases hfirst : r.register route.method route.pattern route.service with
      | error e =>
          rw [hfirst] at hstep
          generalize flat.register _ _ _ = second at hstep ⊢
          cases hstep
          obtain ⟨hrelocated, herrors⟩ := ih h hr
          exact ⟨hrelocated, congrArg (_ :: ·) herrors⟩
      | ok next =>
          rw [hfirst] at hstep
          generalize flat.register _ _ _ = second at hstep ⊢
          cases hstep with
          | accepted hnext =>
              obtain ⟨reg, -, hread, -⟩ := read_of_register hfirst
              exact ih hnext (hr.register hread hfirst)

end Relocated

/-! ## Lookups -/

/-- The scan of the entries behind the mount point. -/
theorem select_relocates (mount : String) (m : Method) (parts : List String)
    (allowed : List Method) (matched : Bool) {entries : List (Entry σ)}
    (hentries : ∀ e ∈ entries, e.pattern.IsRead) :
    Match.Relocates mount (select m parts allowed matched entries)
      (select m (segments mount ++ parts) allowed matched (entries.map (Entry.below mount))) := by
  induction entries generalizing allowed matched with
  | nil =>
      cases matched with
      | true => exact .methodNotAllowed allowed
      | false => exact .notFound
  | cons e es ih =>
      obtain ⟨hread, hrest⟩ := List.forall_mem_cons.mp hentries
      have hchain : (e.below mount).chainFor? m = e.chainFor? m := rfl
      rw [List.map_cons, select, select, hchain]
      cases e.chainFor? m with
      | some c =>
          have hparams : (e.below mount).pattern.capture (segments mount ++ parts) =
              e.pattern.capture parts := Pattern.capture_below_append
          rw [hparams]
          exact .found (hread.render_below mount)
      | none => exact ih _ _ hrest

namespace Relocated

/-- The candidates for a path that begins with the segments of the mount point. -/
theorem candidates_append (h : Relocated mount r flat) (parts : List String) :
    flat.candidates (segments mount ++ parts) = (r.candidates parts).map (Entry.below mount) := by
  have haccepts : (fun e : Entry σ => e.pattern.accepts (segments mount ++ parts)) ∘
      Entry.below mount = fun e => e.pattern.accepts parts := by
    funext e
    exact Pattern.accepts_below_append
  rw [candidates, candidates, List.length_append, h.bucket, List.filter_map, haccepts]

/-- Only such paths have candidates. -/
theorem candidates_eq_nil (h : Relocated mount r flat) {parts : List String}
    (hparts : ¬ segments mount <+: parts) : flat.candidates parts = [] := by
  rw [candidates, List.filter_eq_nil_iff]
  intro e he haccepts
  by_cases hlength : parts.length < (segments mount).length
  · rw [h.short _ hlength] at he
    cases he
  · obtain ⟨n, hn⟩ := Nat.exists_eq_add_of_le (Nat.le_of_not_lt hlength)
    rw [hn, h.bucket] at he
    obtain ⟨e', -, rfl⟩ := List.mem_map.mp he
    obtain ⟨rest, hrest, -⟩ := Pattern.accepts_below_iff.mp haccepts
    exact hparts ⟨rest, hrest.symm⟩

/-- Both routers find the same for a path in which no two slashes follow each other. -/
theorem lookup (h : Relocated mount r flat) (hr : r.Lists regs) (m : Method) {path : String}
    (hpath : ¬ ['/', '/'] <:+: ("/" ++ path).toList) :
    Match.Relocates mount (r.lookup m ("/" ++ path)) (flat.lookup m ("/" ++ path)) := by
  have hflat : Under flat.mount ("/" ++ path) ("/" ++ path) := by
    rw [h.root]
    exact .root _
  rw [lookup_of_under hflat]
  by_cases hcovered : ∃ rest, Under r.mount ("/" ++ path) rest
  · obtain ⟨rest, hunder⟩ := hcovered
    rw [lookup_of_under hunder, hunder.segments_eq, h.mounted, segments_normalizeMount,
      h.candidates_append]
    apply select_relocates
    intro e he
    exact hr.isRead_of_mem_bucket (mem_candidates.mp he).1
  · have hnot : ¬ segments mount <+: segments ("/" ++ path) := by
      rw [segments_prefix_iff_exists_under mount hpath, ← h.mounted]
      exact hcovered
    rw [lookup_of_not_under (not_exists.mp hcovered), h.candidates_eq_nil hnot]
    exact .notFound

end Relocated

/-- A listed method is the one of a request, or stands for all. -/
theorem Lists.offers_iff (hr : r.Lists regs) {reg : Registration σ} (hreg : reg ∈ regs)
    (m : Method) :
    reg.Offers m ↔ reg.info.method = anyMethod ∨ reg.info.method = m.name := by
  constructor
  · rintro (hm | hm)
    · right
      rw [Registration.info, hm]
      rfl
    · left
      rw [Registration.info, hm]
      rfl
  · intro hlabel
    cases hm : reg.method with
    | none => exact .inr hm
    | some x =>
        rw [Registration.info, hm] at hlabel
        rcases hlabel with hany | hname
        · exact absurd hany ((hr.read reg hreg).method x hm)
        · have hx : Method.ofName? x.name = some m := Method.ofName?_eq_some_iff.mpr hname.symm
          rw [Method.ofName?_name, Option.some.injEq] at hx
          exact .inl (hx ▸ hm)

/-- The full path of a registered pattern can be read. -/
theorem Lists.parse_full (hr : r.Lists regs) (hmounted : r.mount = normalizeMount mount)
    (hmount : ∀ s ∈ segments mount, IsLiteral s) {reg : Registration σ} (hreg : reg ∈ regs) :
    Pattern.parse (joinPath r.mount reg.info.pattern) =
      .ok (reg.pattern.below (segments mount)) := by
  have hread := (hr.read reg hreg).pattern
  rw [hmounted, Registration.info, ← hread.render_below]
  exact (hread.below hmount).parse_render

/-- What the listed routes with their full paths accept is just what is served. -/
theorem Lists.found_iff_listed (hr : r.Lists regs) (hmounted : r.mount = normalizeMount mount)
    (hmount : ∀ s ∈ segments mount, IsLiteral s) (m : Method) {path : String}
    (hpath : ¬ ['/', '/'] <:+: ("/" ++ path).toList) :
    (∃ c params p, r.lookup m ("/" ++ path) = .found c params p) ↔
      ∃ info ∈ r.routes, (info.method = anyMethod ∨ info.method = m.name) ∧
        ∃ q, Pattern.parse (joinPath r.mount info.pattern) = .ok q ∧
          q.accepts (segments ("/" ++ path)) = true := by
  rw [hr.found_iff, hr.routes]
  constructor
  · rintro ⟨rest, hunder, reg, hreg, hoffers, haccepts⟩
    rw [hmounted] at hunder
    have hbelow := (reg.pattern.accepts_below_segments_iff mount hpath).mpr ⟨rest, hunder, haccepts⟩
    have hparse := hr.parse_full hmounted hmount hreg
    exact ⟨_, List.mem_map_of_mem hreg, (hr.offers_iff hreg m).mp hoffers, _, hparse, hbelow⟩
  · rintro ⟨info, hinfo, hmethod, q, hq, haccepts⟩
    obtain ⟨reg, hreg, rfl⟩ := List.mem_map.mp hinfo
    rw [hr.parse_full hmounted hmount hreg, Except.ok.injEq] at hq
    subst hq
    obtain ⟨rest, hunder, haccepts⟩ :=
      (reg.pattern.accepts_below_segments_iff mount hpath).mp haccepts
    exact ⟨rest, hmounted ▸ hunder, reg, hreg, (hr.offers_iff hreg m).mpr hmethod, haccepts⟩

end Router

end AppServer.Routing
