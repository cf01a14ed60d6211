import AppServer.Proofs.Routing.Batch
import AppServer.Proofs.Routing.Listing

/-!
# Why a route is refused

A route is refused for the first of four reasons: its method is none, its pattern cannot be read, its
pattern has a route for the method, or its pattern is new and as many parameters as it has stand in a
registered pattern for a common path. A route that is refused changes nothing, one that is accepted
is listed last.
-/

namespace AppServer.Routing

open AppServer.Http AppServer.Pipeline AppServer.Text

variable {σ : Type}

/-- Two patterns of one length with equally many parameters and a common path under a mount point. -/
def Pattern.Collides (mount : String) (p q : Pattern) : Prop :=
  p.length = q.length ∧ p.paramCount = q.paramCount ∧
    ∃ path rest, Under mount path rest ∧
      p.accepts (Text.segments rest) = true ∧ q.accepts (Text.segments rest) = true

/-- Rivals are just the patterns that collide under any mount point. -/
theorem Pattern.IsRead.collides_iff {p q : Pattern} (hp : p.IsRead) (hq : q.IsRead)
    (mount : String) : p.Collides mount q ↔ p.Rivals q := by
  constructor
  · rintro ⟨-, hcount, path, rest, -, hpa, hqa⟩
    exact ⟨hcount, overlaps_of_accepts hpa hqa⟩
  · rintro ⟨hcount, hoverlaps⟩
    obtain ⟨parts, hparts, hpa, hqa⟩ := hp.exists_accepts hq hoverlaps
    obtain ⟨rest, hunder, rfl⟩ := under_joinPath_rooted mount hparts
    exact ⟨length_of_overlaps hoverlaps, hcount, _, rest, hunder, hpa, hqa⟩

namespace Router

variable {r r' : Router σ} {regs : List (Registration σ)} {route : Route σ} {reg : Registration σ}

theorem read_eq_error_iff {e : RouteError} :
    route.read = .error e ↔
      (e = .invalidMethod route.method ∧ route.method ≠ anyMethod ∧ isToken route.method = false) ∨
      ∃ m fault, readMethod route.method = .ok m ∧ Pattern.parse route.pattern = .error fault ∧
        e = .malformedPattern route.pattern fault := by
  unfold Route.read
  rw [← readMethod_eq_error_iff]
  cases readMethod route.method with
  | error e' => simp [bind, Except.bind]
  | ok m =>
      cases Pattern.parse route.pattern with
      | error fault => simp [bind, Except.bind, Except.mapError, eq_comm]
      | ok p => simp [bind, Except.bind, Except.mapError, pure, Except.pure]

theorem register_of_read_error {e : RouteError} (h : route.read = .error e) :
    r.register route.method route.pattern route.service = .error e := by
  rcases register_cases r route with ⟨e', he', hregister⟩ | ⟨reg, hread, -⟩
  · rw [h, Except.error.injEq] at he'
    rw [hregister, he']
  · rw [h] at hread
    cases hread

theorem register_of_read (h : route.read = .ok reg) :
    r.register route.method route.pattern route.service =
      (addRoute (r.bucket reg.pattern.length) reg.method reg.pattern
        (r.filters.chain reg.service)).map (r.place reg) := by
  rcases register_cases r route with ⟨e, he, -⟩ | ⟨reg', hread, hcases⟩
  · rw [h] at he
    cases he
  · rw [h, Except.ok.injEq] at hread
    subst hread
    rcases hcases with ⟨e, hadd, hregister⟩ | ⟨entries, hadd, hregister⟩
    · rw [hadd, hregister]
      rfl
    · rw [hadd, hregister]
      rfl

/-- What becomes of a route that can be read. -/
inductive Verdict (regs : List (Registration σ)) (reg : Registration σ) :
    Except RouteError (Router σ) → Prop
  | duplicate {old : Registration σ} (mem : old ∈ regs) (pattern : old.pattern = reg.pattern)
      (method : old.method = reg.method) :
      Verdict regs reg (.error (.duplicate (methodLabel reg.method) reg.pattern.render))
  | ambiguous {old : Registration σ} (fresh : ∀ other ∈ regs, other.pattern ≠ reg.pattern)
      (mem : old ∈ regs) (rivals : old.pattern.Rivals reg.pattern) :
      Verdict regs reg (.error (.ambiguous old.pattern.render reg.pattern.render))
  | accepted {r' : Router σ}
      (free : ∀ old ∈ regs, old.pattern = reg.pattern → old.method ≠ reg.method)
      (apart : (∃ old ∈ regs, old.pattern = reg.pattern) ∨
        ∀ old ∈ regs, ¬ old.pattern.Rivals reg.pattern) : Verdict regs reg (.ok r')

namespace Verdict

variable {outcome : Except RouteError (Router σ)}

theorem eq_duplicate_iff (hv : Verdict regs reg outcome) :
    outcome = .error (.duplicate (methodLabel reg.method) reg.pattern.render) ↔
      ∃ old ∈ regs, old.pattern = reg.pattern ∧ old.method = reg.method := by
  cases hv with
  | @duplicate old mem pattern method => exact iff_of_true rfl ⟨old, mem, pattern, method⟩
  | ambiguous fresh =>
      refine iff_of_false (fun h => by cases h) ?_
      rintro ⟨old, hold, hpattern, -⟩
      exact fresh old hold hpattern
  | accepted free =>
      refine iff_of_false (fun h => by cases h) ?_
      rintro ⟨old, hold, hpattern, hmethod⟩
      exact free old hold hpattern hmethod

theorem exists_ambiguous_iff (hv : Verdict regs reg outcome) :
    (∃ old ∈ regs, old.pattern.Rivals reg.pattern ∧
        outcome = .error (.ambiguous old.pattern.render reg.pattern.render)) ↔
      (∀ old ∈ regs, old.pattern ≠ reg.pattern) ∧
        ∃ old ∈ regs, old.pattern.Rivals reg.pattern := by
  cases hv with
  | @duplicate old mem pattern =>
      refine iff_of_false ?_ fun h => h.1 old mem pattern
      rintro ⟨x, -, -, h⟩
      cases h
  | @ambiguous old fresh mem rivals =>
      exact iff_of_true ⟨old, mem, rivals, rfl⟩ ⟨fresh, old, mem, rivals⟩
  | accepted _ apart =>
      refine iff_of_false ?_ ?_
      · rintro ⟨x, -, -, h⟩
        cases h
      · rintro ⟨hfresh, x, hx, hrivals⟩
        rcases apart with ⟨old, hold, hpattern⟩ | hapart
        · exact hfresh old hold hpattern
        · exact hapart x hx hrivals

theorem exists_ok_iff (hv : Verdict regs reg outcome) :
    (∃ r', outcome = .ok r') ↔
      (∀ old ∈ regs, old.pattern = reg.pattern → old.method ≠ reg.method) ∧
        ((∃ old ∈ regs, old.pattern = reg.pattern) ∨
          ∀ old ∈ regs, ¬ old.pattern.Rivals reg.pattern) := by
  cases hv with
  | @duplicate old mem pattern method =>
      refine iff_of_false ?_ fun h => h.1 old mem pattern method
      rintro ⟨r', h⟩
      cases h
  | @ambiguous old fresh mem rivals =>
      refine iff_of_false ?_ ?_
      · rintro ⟨r', h⟩
        cases h
      · rintro ⟨-, ⟨x, hx, hpattern⟩ | hapart⟩
        · exact fresh x hx hpattern
        · exact hapart old mem rivals
  | @accepted r' free apart => exact iff_of_true ⟨r', rfl⟩ ⟨free, apart⟩

end Verdict

theorem WellFormed.table_of_mem (hr : r.WellFormed) {n : Nat} {e : Entry σ} (he : e ∈ r.bucket n)
    (m : Option Method) : r.table m e.pattern = e.route? m := by
  have hlength : e.pattern.length = n := (hr n).length e he
  unfold Router.table
  rw [hlength]
  exact (hr n).routeIn?_of_mem he m

/-- The entries and the registrations have the same patterns, so a scan of the entries decides about
the registrations. -/
theorem Holds.verdict_register (hr : r.Holds regs) (hread : route.read = .ok reg) :
    Verdict regs reg (r.register route.method route.pattern route.service) := by
  have hb := hr.wellFormed reg.pattern.length
  have hentry : ∀ old ∈ regs, old.pattern.Rivals reg.pattern →
      ∃ e ∈ r.bucket reg.pattern.length, e.pattern = old.pattern := by
    intro old hold hrivals
    obtain ⟨e, he, hpattern⟩ := hr.exists_entry_iff.mpr ⟨old, hold, rfl⟩
    exact ⟨e, hrivals.length_eq ▸ he, hpattern⟩
  have hregistered : ∀ e ∈ r.bucket reg.pattern.length, ∃ old ∈ regs, old.pattern = e.pattern := by
    intro e he
    exact hr.exists_entry_iff.mp ⟨e, (hb.length e he).symm ▸ he, rfl⟩
  rw [register_of_read hread]
  -- the scan stops at the pattern itself, taken or free, at a rival, or not at all
  rcases addRoute_cases (r.bucket reg.pattern.length) reg.method reg.pattern
    (r.filters.chain reg.service) with ⟨e, he, hpattern, htaken, hadd⟩ |
    ⟨e, he, hpattern, hfree, hadd⟩ | ⟨e, he, hne, hrivals, hadd⟩ | ⟨hfree, hadd⟩
  · rw [hadd]
    rw [← hr.wellFormed.table_of_mem he, hr.table_ne_none_iff] at htaken
    obtain ⟨old, hold, hmethod, hold'⟩ := htaken
    exact .duplicate hold (hold'.trans hpattern) hmethod
  · rw [hadd]
    rw [← hr.wellFormed.table_of_mem he] at hfree
    obtain ⟨old, hold, hold'⟩ := hregistered e he
    refine .accepted (fun other hother hsame hmethod => ?_) (.inl ⟨old, hold, hold'.trans hpattern⟩)
    exact hr.table_ne_none_iff.mpr ⟨other, hother, hmethod, hsame.trans hpattern.symm⟩ hfree
  · rw [hadd]
    obtain ⟨old, hold, hold'⟩ := hregistered e he
    rw [← hold'] at hrivals ⊢
    refine .ambiguous (fun other hother hsame => hne ?_) hold hrivals
    obtain ⟨x, hx, hpattern⟩ := hentry other hother (hsame ▸ .refl _)
    have hxp : x.pattern = reg.pattern := hpattern.trans hsame
    have hex : e = x := hb.eq_of_rivals he hx (hxp ▸ hold' ▸ hrivals)
    rw [hex, hxp]
  · rw [hadd]
    have hnone : ∀ old ∈ regs, ¬ old.pattern.Rivals reg.pattern := by
      intro old hold hrivals
      obtain ⟨e, he, hpattern⟩ := hentry old hold hrivals
      exact hfree e he (hpattern ▸ hrivals)
    exact .accepted (fun old hold hsame => absurd (hsame ▸ .refl _) (hnone old hold)) (.inr hnone)

/-- Where a route cannot be read, that is the reason why it is refused. -/
theorem Holds.register_eq_error_iff (hr : r.Holds regs) {e : RouteError}
    (he : ∀ reg, ¬ Verdict regs reg (.error e : Except RouteError (Router σ))) :
    r.register route.method route.pattern route.service = .error e ↔ route.read = .error e := by
  constructor
  · intro h
    cases hread : route.read with
    | error e' =>
        rw [register_of_read_error hread, Except.error.injEq] at h
        rw [h]
    | ok reg =>
        have hv := hr.verdict_register hread
        rw [h] at hv
        exact absurd hv (he reg)
  · exact register_of_read_error

/-- A route that is tried last leaves what registering it in place leaves. -/
theorem fst_registerAll_concat (r : Router σ) (routes : List (Route σ)) (route : Route σ) :
    (r.registerAll (routes ++ [route])).1 =
      ((r.registerAll routes).1.handle route.method route.pattern route.service).1 := by
  rw [registerAll_append]
  show ((r.registerAll routes).1.registerAll [route]).1 = _
  rw [registerAll]
  rcases (r.registerAll routes).1.handle route.method route.pattern route.service with
    ⟨next, ⟨⟩ | ⟨⟩⟩
  · rfl
  · rfl

theorem snd_handle_eq_error_iff {e : RouteError} :
    (r.handle route.method route.pattern route.service).2 = .error e ↔
      r.register route.method route.pattern route.service = .error e := by
  unfold register
  rcases r.handle route.method route.pattern route.service with ⟨next, ⟨⟩ | ⟨⟩⟩
  · simp
  · simp

theorem snd_handle_eq_ok_iff :
    (r.handle route.method route.pattern route.service).2 = .ok () ↔
      ∃ r', r.register route.method route.pattern route.service = .ok r' := by
  unfold register
  rcases r.handle route.method route.pattern route.service with ⟨next, ⟨⟩ | ⟨⟩⟩
  · simp
  · simp

/-- After any routes have been tried, one more route is refused for the first reason that there is.
What it leaves in place is the router as it was, unless it is accepted: then it is listed last. -/
theorem register_refuses_first_fault (mount : String) (filters : FilterStack σ)
    (routes : List (Route σ)) (route : Route σ) :
    let fresh := withFilters mount filters
    let r := (fresh.registerAll routes).1
    let regs := fresh.accepted routes
    let after := r.handle route.method route.pattern route.service
    let outcome := after.2
    let next := after.1
    (outcome = .error (.invalidMethod route.method) ↔
      route.method ≠ anyMethod ∧ isToken route.method = false) ∧
    (∀ fault, outcome = .error (.malformedPattern route.pattern fault) ↔
      (route.method = anyMethod ∨ isToken route.method = true) ∧
        Pattern.parse route.pattern = .error fault) ∧
    (∀ m p, readMethod route.method = .ok m → Pattern.parse route.pattern = .ok p →
      (outcome = .error (.duplicate route.method p.render) ↔
        ∃ old ∈ regs, old.pattern = p ∧ old.method = m) ∧
      ((∃ old ∈ regs, old.pattern.Collides (normalizeMount mount) p ∧
          outcome = .error (.ambiguous old.pattern.render p.render)) ↔
        (∀ old ∈ regs, old.pattern ≠ p) ∧
          ∃ old ∈ regs, old.pattern.Collides (normalizeMount mount) p) ∧
      (outcome = .ok () ↔
        (∀ old ∈ regs, old.pattern = p → old.method ≠ m) ∧
          ((∃ old ∈ regs, old.pattern = p) ∨
            ∀ old ∈ regs, ¬ old.pattern.Collides (normalizeMount mount) p))) ∧
    (∀ e, outcome = .error e →
      next.routes = r.routes ∧ ∀ m path, next.lookup m path = r.lookup m path) ∧
    (outcome = .ok () → ∃ p, Pattern.parse route.pattern = .ok p ∧
      next.routes = r.routes ++ [⟨route.method, p.render⟩]) ∧
    (fresh.registerAll (routes ++ [route])).1 = next := by
  intro fresh r regs after outcome next
  have hr : r.Lists regs := lists_registerAll mount filters routes
  have herror : ∀ e, outcome = .error e ↔
      r.register route.method route.pattern route.service = .error e :=
    fun e => snd_handle_eq_error_iff
  have hok : outcome = .ok () ↔
      ∃ r', r.register route.method route.pattern route.service = .ok r' :=
    snd_handle_eq_ok_iff
  refine ⟨?_, fun fault => ?_, fun m p hm hp => ?_, fun e he => ?_, fun haccepted => ?_,
    fst_registerAll_concat fresh routes route⟩
  · rw [herror, hr.register_eq_error_iff (fun reg hv => by cases hv), read_eq_error_iff]
    simp
  · rw [herror, hr.register_eq_error_iff (fun reg hv => by cases hv), read_eq_error_iff,
      ← exists_readMethod_iff]
    simp
  · have hread : route.read = .ok ⟨m, p, route.service⟩ := Route.read_eq_ok_iff.mpr ⟨hm, hp, rfl⟩
    have hp' : p.IsRead := Pattern.isRead_of_parse hp
    have hcollides : ∀ old ∈ regs,
        (old.pattern.Collides (normalizeMount mount) p ↔ old.pattern.Rivals p) :=
      fun old hold => (hr.read old hold).pattern.collides_iff hp' _
    have hexists : (∃ old ∈ regs, old.pattern.Collides (normalizeMount mount) p) ↔
        ∃ old ∈ regs, old.pattern.Rivals p :=
      exists_congr fun old => and_congr_right fun hold => hcollides old hold
    have hv := hr.verdict_register hread
    refine ⟨?_, ?_, ?_⟩
    · have hlabel := Registration.methodLabel_of_read hread
      rw [herror, ← hv.eq_duplicate_iff, hlabel]
    · rw [hexists, ← hv.exists_ambiguous_iff]
      refine exists_congr fun old => and_congr_right fun hold => ?_
      rw [hcollides old hold, herror]
    · rw [hok, hv.exists_ok_iff]
      refine and_congr_right fun _ => or_congr_right ?_
      exact forall₂_congr fun old hold => not_congr (hcollides old hold).symm
  · have hnext : next = r := fst_handle_of_error he
    rw [hnext]
    exact ⟨rfl, fun m path => rfl⟩
  · obtain ⟨r', hr'⟩ := hok.mp haccepted
    have hnext : next = r' := congrArg Prod.fst (handle_of_ok hr')
    obtain ⟨reg, entries, hread, -, rfl⟩ := read_of_register hr'
    obtain ⟨hm, hp, -⟩ := Route.read_eq_ok_iff.mp hread
    refine ⟨reg.pattern, hp, ?_⟩
    rw [hnext, ← Registration.methodLabel_of_read hread]
    rfl

end Router

end AppServer.Routing
