import AppServer.Proofs.Routing.Bucket

/-!
# What a router holds after any registrations

A route that can be read is a registration. A router that has tried any routes holds exactly the
registrations that were accepted: its table, a partial map from a method and a pattern to a chain,
has one place for each of them and no other. A registration is refused just when it clashes with one
that the router holds.
-/

namespace AppServer.Routing

open AppServer.Http AppServer.Pipeline

variable {σ : Type}

/-- A route whose method and pattern have been read. -/
structure Registration (σ : Type) where
  /-- `none` stands for every method without a registration of its own. -/
  method : Option Method
  pattern : Pattern
  service : Service σ

namespace Registration

/-- Two registrations that one router cannot hold: for the same method of one pattern, or on
different patterns that are rivals. -/
def Clashes (a b : Registration σ) : Prop :=
  (a.pattern = b.pattern ∧ a.method = b.method) ∨
    (a.pattern ≠ b.pattern ∧ a.pattern.Rivals b.pattern)

theorem Clashes.symm {a b : Registration σ} (h : a.Clashes b) : b.Clashes a := by
  rcases h with ⟨hp, hm⟩ | ⟨hp, hr⟩
  · exact .inl ⟨hp.symm, hm.symm⟩
  · exact .inr ⟨hp.symm, hr.symm⟩

end Registration

/-- Reads a method and a pattern. -/
def Route.read (route : Route σ) : Except RouteError (Registration σ) := do
  let m ← Router.readMethod route.method
  let p ← (Pattern.parse route.pattern).mapError (.malformedPattern route.pattern)
  return ⟨m, p, route.service⟩

namespace Router

/-- The chain held for a pattern and a method. -/
def table (r : Router σ) (m : Option Method) (p : Pattern) : Option (Chain σ) :=
  routeIn? (r.bucket p.length) m p

/-- The registrations that are accepted when routes are registered one after the other. -/
def accepted (r : Router σ) : List (Route σ) → List (Registration σ)
  | [] => []
  | route :: rest =>
    match route.read, r.register route.method route.pattern route.service with
    | .ok reg, .ok next => reg :: next.accepted rest
    | _, _ => r.accepted rest

/-- The router with other entries for the length of a registration's pattern. -/
def place (r : Router σ) (reg : Registration σ) (entries : List (Entry σ)) : Router σ :=
  r.entered reg.method reg.pattern entries

/-- Everything that registering a route can do. -/
theorem register_cases (r : Router σ) (route : Route σ) :
    (∃ e, route.read = .error e ∧
      r.register route.method route.pattern route.service = .error e) ∨
    (∃ reg, route.read = .ok reg ∧
      ((∃ e, addRoute (r.bucket reg.pattern.length) reg.method reg.pattern
            (r.filters.chain reg.service) = .error e ∧
          r.register route.method route.pattern route.service = .error e) ∨
        (∃ entries, addRoute (r.bucket reg.pattern.length) reg.method reg.pattern
            (r.filters.chain reg.service) = .ok entries ∧
          r.register route.method route.pattern route.service = .ok (r.place reg entries)))) := by
  rw [register_eq]
  unfold Route.read
  cases readMethod route.method with
  | error e => exact .inl ⟨e, rfl, rfl⟩
  | ok m =>
      cases (Pattern.parse route.pattern).mapError (RouteError.malformedPattern route.pattern) with
      | error e => exact .inl ⟨e, rfl, rfl⟩
      | ok p =>
          refine .inr ⟨⟨m, p, route.service⟩, rfl, ?_⟩
          cases h : addRoute (r.bucket p.length) m p (r.filters.chain route.service) with
          | error e => exact .inl ⟨e, rfl, by simp [h, bind, Except.bind]⟩
          | ok entries =>
              exact .inr ⟨entries, rfl, by simp [h, place, bind, Except.bind, pure, Except.pure]⟩

/-- An accepted route has been read, and its entries were found. -/
theorem read_of_register {r r' : Router σ} {route : Route σ}
    (h : r.register route.method route.pattern route.service = .ok r') :
    ∃ reg entries, route.read = .ok reg ∧
      addRoute (r.bucket reg.pattern.length) reg.method reg.pattern
        (r.filters.chain reg.service) = .ok entries ∧ r' = r.place reg entries := by
  rcases register_cases r route with ⟨e, -, he⟩ | ⟨reg, hread, ⟨e, -, he⟩ | ⟨entries, hadd, he⟩⟩
  · rw [he] at h
    cases h
  · rw [he] at h
    cases h
  · rw [he] at h
    cases h
    exact ⟨reg, entries, hread, hadd, rfl⟩

theorem find?_setKey {β : Type} (n k : Nat) (v : β) (l : List (Nat × β)) :
    ((setKey n v l).find? (·.1 == k)).map (·.2) =
      if k = n then some v else (l.find? (·.1 == k)).map (·.2) := by
  induction l with
  | nil =>
      by_cases h : k = n
      · simp [setKey, h]
      · simp [setKey, h, Ne.symm h]
  | cons x xs ih =>
      obtain ⟨i, old⟩ := x
      simp only [setKey]
      by_cases hin : i = n
      · subst hin
        by_cases h : k = i
        · simp [h]
        · simp [h, Ne.symm h]
      · rw [if_neg hin]
        by_cases h : i = k
        · simp [h ▸ hin, h]
        · have hne : (i == k) = false := by simpa using h
          simp only [List.find?_cons, hne]
          exact ih

theorem bucket_place (r : Router σ) (reg : Registration σ) (entries : List (Entry σ)) (n : Nat) :
    (r.place reg entries).bucket n = if n = reg.pattern.length then entries else r.bucket n := by
  simp only [bucket, place, entered, find?_setKey]
  split <;> simp

/-- Every bucket is what a bucket has to be. -/
def WellFormed (r : Router σ) : Prop :=
  ∀ n, Bucket n (r.bucket n)

theorem WellFormed.register {r r' : Router σ} {route : Route σ} (hr : r.WellFormed)
    (h : r.register route.method route.pattern route.service = .ok r') : r'.WellFormed := by
  obtain ⟨reg, entries, -, hadd, rfl⟩ := read_of_register h
  intro n
  rw [bucket_place]
  split
  · rename_i hn
    subst hn
    exact (hr _).addRoute rfl hadd
  · exact hr n

/-- A registration changes the table at its own place only. -/
theorem WellFormed.table_register {r r' : Router σ} {route : Route σ} {reg : Registration σ}
    (hr : r.WellFormed) (hread : route.read = .ok reg)
    (h : r.register route.method route.pattern route.service = .ok r')
    (m : Option Method) (p : Pattern) :
    r'.table m p =
      if p = reg.pattern ∧ m = reg.method then some (r.filters.chain reg.service)
      else r.table m p := by
  obtain ⟨reg', entries, hread', hadd, rfl⟩ := read_of_register h
  rw [hread, Except.ok.injEq] at hread'
  subst hread'
  unfold table
  rw [bucket_place]
  by_cases hlen : p.length = reg.pattern.length
  · rw [if_pos hlen, (hr _).routeIn?_addRoute rfl hadd, hlen]
  · have hp : p ≠ reg.pattern := fun hp => hlen (hp ▸ rfl)
    simp [hlen, hp]

/-- The table of a well-formed router, told by its entries. -/
theorem WellFormed.table_eq_some_iff {r : Router σ} (hr : r.WellFormed) {m : Option Method}
    {p : Pattern} {c : Chain σ} :
    r.table m p = some c ↔ ∃ e ∈ r.bucket p.length, e.pattern = p ∧ e.route? m = some c :=
  (hr _).routeIn?_eq_some_iff

/-! ## The registrations that a router holds -/

/-- `r` holds exactly the routes of `regs`. -/
structure Holds (r : Router σ) (regs : List (Registration σ)) : Prop where
  wellFormed : r.WellFormed
  table : ∀ {m p c}, r.table m p = some c ↔
    ∃ reg ∈ regs, reg.method = m ∧ reg.pattern = p ∧ r.filters.chain reg.service = c

theorem holds_withFilters (mount : String) (filters : FilterStack σ) :
    (withFilters mount filters).Holds [] where
  wellFormed _ := .nil
  table := by simp [Router.table, withFilters, bucket, routeIn?]

namespace Holds

variable {r r' : Router σ} {regs : List (Registration σ)}

theorem table_of_mem (hr : r.Holds regs) {reg : Registration σ} (h : reg ∈ regs) :
    r.table reg.method reg.pattern = some (r.filters.chain reg.service) :=
  hr.table.mpr ⟨reg, h, rfl, rfl, rfl⟩

/-- A pattern is stored just when it has been registered. -/
theorem exists_entry_iff (hr : r.Holds regs) {p : Pattern} :
    (∃ e ∈ r.bucket p.length, e.pattern = p) ↔ ∃ reg ∈ regs, reg.pattern = p := by
  constructor
  · rintro ⟨e, he, rfl⟩
    obtain ⟨m, hm⟩ := (hr.wellFormed _).served e he
    obtain ⟨c, hc⟩ := Option.isSome_iff_exists.mp hm
    obtain ⟨reg, hreg, -, hp, -⟩ :=
      hr.table.mp (hr.wellFormed.table_eq_some_iff.mpr ⟨e, he, rfl, hc⟩)
    exact ⟨reg, hreg, hp⟩
  · rintro ⟨reg, hreg, rfl⟩
    obtain ⟨e, he, hp, -⟩ := hr.wellFormed.table_eq_some_iff.mp (hr.table_of_mem hreg)
    exact ⟨e, he, hp⟩

/-- The bucket of a registration takes it just when it clashes with nothing that is held. -/
theorem addRoute_eq_ok_iff_not_clashes (hr : r.Holds regs) (reg : Registration σ) :
    (∃ entries, addRoute (r.bucket reg.pattern.length) reg.method reg.pattern
      (r.filters.chain reg.service) = .ok entries) ↔ ∀ old ∈ regs, ¬ old.Clashes reg := by
  rw [(hr.wellFormed _).addRoute_eq_ok_iff]
  constructor
  · rintro ⟨hnone, hsame⟩ old hold (⟨hp, hm⟩ | ⟨hp, hrival⟩)
    · have htaken := hr.table_of_mem hold
      rw [hp, hm, Router.table, hnone] at htaken
      cases htaken
    · obtain ⟨e, he, hep⟩ := hr.exists_entry_iff.mpr ⟨old, hold, rfl⟩
      rw [hrival.length_eq] at he
      exact hp (hep ▸ hsame e he (hep ▸ hrival))
  · intro hfree
    constructor
    · rw [Option.eq_none_iff_forall_ne_some]
      intro c hc
      obtain ⟨old, hold, hm, hp, -⟩ := hr.table.mp hc
      exact hfree old hold (.inl ⟨hp, hm⟩)
    · intro e he hrival
      have hlen : e.pattern.length = reg.pattern.length := hrival.length_eq
      obtain ⟨old, hold, hp⟩ := hr.exists_entry_iff.mp ⟨e, hlen ▸ he, rfl⟩
      by_contra hne
      exact hfree old hold (.inr ⟨hp ▸ hne, hp ▸ hrival⟩)

/-- A route is accepted just when it can be read and clashes with nothing that is held. -/
theorem register_eq_ok_iff (hr : r.Holds regs) {route : Route σ} :
    (∃ r', r.register route.method route.pattern route.service = .ok r') ↔
      ∃ reg, route.read = .ok reg ∧ ∀ old ∈ regs, ¬ old.Clashes reg := by
  constructor
  · rintro ⟨r', h⟩
    obtain ⟨reg, entries, hread, hadd, -⟩ := read_of_register h
    exact ⟨reg, hread, (hr.addRoute_eq_ok_iff_not_clashes reg).mp ⟨entries, hadd⟩⟩
  · rintro ⟨reg, hread, hfree⟩
    obtain ⟨entries, hadd⟩ := (hr.addRoute_eq_ok_iff_not_clashes reg).mpr hfree
    rcases register_cases r route with ⟨e, he, -⟩ | ⟨reg', hread', h⟩
    · rw [hread] at he
      cases he
    · rw [hread, Except.ok.injEq] at hread'
      subst hread'
      rcases h with ⟨e, he, -⟩ | ⟨entries', -, h⟩
      · rw [hadd] at he
        cases he
      · exact ⟨_, h⟩

/-- An accepted registration is held from then on. -/
theorem register (hr : r.Holds regs) {route : Route σ} {reg : Registration σ}
    (hread : route.read = .ok reg)
    (h : r.register route.method route.pattern route.service = .ok r') :
    r'.Holds (regs ++ [reg]) where
  wellFormed := hr.wellFormed.register h
  table := by
    intro m p c
    rw [hr.wellFormed.table_register hread h, (mount_of_register h).2]
    by_cases hnew : p = reg.pattern ∧ m = reg.method
    · obtain ⟨rfl, rfl⟩ := hnew
      simp only [and_self, if_true, Option.some.injEq]
      constructor
      · rintro rfl
        exact ⟨reg, by simp, rfl, rfl, rfl⟩
      · rintro ⟨old, hold, hm, hp, rfl⟩
        rcases List.mem_append.mp hold with hold | hold
        · obtain ⟨reg', hread', hfree⟩ := hr.register_eq_ok_iff.mp ⟨r', h⟩
          rw [hread, Except.ok.injEq] at hread'
          exact absurd (.inl ⟨hp, hm⟩) (hread' ▸ hfree old hold)
        · rw [List.mem_singleton.mp hold]
    · rw [if_neg hnew, hr.table]
      constructor
      · rintro ⟨old, hold, hmp⟩
        exact ⟨old, List.mem_append_left _ hold, hmp⟩
      · rintro ⟨old, hold, hm, hp, hc⟩
        rcases List.mem_append.mp hold with hold | hold
        · exact ⟨old, hold, hm, hp, hc⟩
        · rw [List.mem_singleton.mp hold] at hm hp
          exact absurd ⟨hp.symm, hm.symm⟩ hnew

/-- After any routes have been tried, a router holds what it held and what was accepted. -/
theorem registerAll (hr : r.Holds regs) (routes : List (Route σ)) :
    (r.registerAll routes).1.Holds (regs ++ r.accepted routes) := by
  induction routes generalizing r regs with
  | nil => simpa [Router.registerAll, accepted] using hr
  | cons route rest ih =>
      cases h : r.register route.method route.pattern route.service with
      | error e =>
          have := ih hr
          simpa [Router.registerAll_cons, accepted, h] using this
      | ok next =>
          obtain ⟨reg, -, hread, -, -⟩ := read_of_register h
          have := ih (hr.register hread h)
          simpa [Router.registerAll_cons, accepted, h, hread] using this

end Holds

/-- Registrations leave the mount point and the filters as they are. -/
theorem mount_registerAll (r : Router σ) (routes : List (Route σ)) :
    (r.registerAll routes).1.mount = r.mount ∧ (r.registerAll routes).1.filters = r.filters := by
  induction routes generalizing r with
  | nil => exact ⟨rfl, rfl⟩
  | cons route rest ih =>
      cases h : r.register route.method route.pattern route.service with
      | error e => simpa [Router.registerAll_cons, h] using ih r
      | ok next =>
          obtain ⟨hmount, hfilters⟩ := mount_of_register h
          rw [← hmount, ← hfilters]
          simpa [Router.registerAll_cons, h] using ih next

end Router

end AppServer.Routing
