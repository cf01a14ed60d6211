import AppServer.Proofs.Routing.Dispatch
import Mathlib.Data.List.Perm.Basic

/-!
# The order of registration

Routes are accepted one after the other just when each can be read and no two of them clash. Neither
depends on their order, and what a router finds depends on its table alone. So routes that are all
accepted in one order are all accepted in every order, and the routers agree on every request.
-/

namespace AppServer.Routing

open AppServer.Http AppServer.Pipeline AppServer.Text

variable {σ : Type}

/-- Two answers that no client can tell apart but for the order in which methods are named. -/
inductive Match.Agrees : Match σ → Match σ → Prop
  | found (c : Chain σ) (params : Params) (p : Pattern) :
      Agrees (.found c params p) (.found c params p)
  | notFound : Agrees .notFound .notFound
  | methodNotAllowed {allowed allowed' : List Method} (h : ∀ m, m ∈ allowed ↔ m ∈ allowed') :
      Agrees (.methodNotAllowed allowed) (.methodNotAllowed allowed')

/-- The registrations that some routes stand for, those that cannot be read left out. -/
def registrations (routes : List (Route σ)) : List (Registration σ) :=
  routes.filterMap fun route => route.read.toOption

theorem registrations_cons_of_read {route : Route σ} {reg : Registration σ}
    (h : route.read = .ok reg) (rest : List (Route σ)) :
    registrations (route :: rest) = reg :: registrations rest := by
  simp [registrations, h, Except.toOption]

theorem mem_registrations {routes : List (Route σ)} {reg : Registration σ} :
    reg ∈ registrations routes ↔ ∃ route ∈ routes, route.read = .ok reg := by
  have hread (route : Route σ) : route.read.toOption = some reg ↔ route.read = .ok reg := by
    cases route.read <;> simp [Except.toOption]
  simp only [registrations, List.mem_filterMap, hread]

namespace Router

variable {r r' : Router σ} {regs regs' : List (Registration σ)}

theorem registerAll_cons_errors_eq_nil_iff {route : Route σ} {rest : List (Route σ)} :
    (r.registerAll (route :: rest)).2 = [] ↔
      ∃ next, r.register route.method route.pattern route.service = .ok next ∧
        (next.registerAll rest).2 = [] := by
  cases h : r.register route.method route.pattern route.service with
  | error e => simp [Router.registerAll_cons, h]
  | ok next => simp [Router.registerAll_cons, h]

/-- Routes that nothing refuses: they can be read, and clash neither with each other nor with what is
held. -/
theorem Holds.registerAll_errors_eq_nil_iff (hr : r.Holds regs) (routes : List (Route σ)) :
    (r.registerAll routes).2 = [] ↔
      (∀ route ∈ routes, ∃ reg, route.read = .ok reg) ∧
      (registrations routes).Pairwise (fun a b => ¬ a.Clashes b) ∧
      ∀ old ∈ regs, ∀ new ∈ registrations routes, ¬ old.Clashes new := by
  induction routes generalizing r regs with
  | nil => simp [Router.registerAll, registrations]
  | cons route rest ih =>
      rw [registerAll_cons_errors_eq_nil_iff, List.forall_mem_cons]
      constructor
      · rintro ⟨next, h, hrest⟩
        obtain ⟨reg, hreg, hfree⟩ := hr.register_eq_ok_iff.mp ⟨next, h⟩
        obtain ⟨hread, hpair, hall⟩ := (ih (hr.register hreg h)).mp hrest
        rw [registrations_cons_of_read hreg]
        refine ⟨⟨⟨reg, hreg⟩, hread⟩, List.pairwise_cons.mpr ⟨hall reg (by simp), hpair⟩, ?_⟩
        intro old hold
        exact List.forall_mem_cons.mpr
          ⟨hfree old hold, hall old (List.mem_append_left _ hold)⟩
      · rintro ⟨⟨⟨reg, hreg⟩, hread⟩, hpair, hall⟩
        rw [registrations_cons_of_read hreg] at hpair hall
        obtain ⟨hfirst, hpair⟩ := List.pairwise_cons.mp hpair
        obtain ⟨next, h⟩ := hr.register_eq_ok_iff.mpr
          ⟨reg, hreg, fun old hold => hall old hold reg List.mem_cons_self⟩
        refine ⟨next, h, (ih (hr.register hreg h)).mpr ⟨hread, hpair, ?_⟩⟩
        intro old hold new hnew
        rcases List.mem_append.mp hold with hold | hold
        · exact hall old hold new (List.mem_cons_of_mem _ hnew)
        · rw [List.mem_singleton.mp hold]
          exact hfirst new hnew

theorem accepted_eq_registrations {routes : List (Route σ)}
    (h : (r.registerAll routes).2 = []) : r.accepted routes = registrations routes := by
  induction routes generalizing r with
  | nil => rfl
  | cons route rest ih =>
      obtain ⟨next, hreg, hrest⟩ := registerAll_cons_errors_eq_nil_iff.mp h
      obtain ⟨reg, -, hread, -, -⟩ := read_of_register hreg
      rw [registrations_cons_of_read hread, ← ih hrest]
      simp [accepted, hread, hreg]

/-- Routers with the same filters that hold the same registrations have the same table. -/
theorem Holds.table_eq_of_perm (hr : r.Holds regs) (hr' : r'.Holds regs')
    (hperm : regs.Perm regs') (hfilters : r.filters = r'.filters) : r.table = r'.table := by
  funext m p
  apply Option.ext
  intro c
  rw [hr.table, hr'.table, hfilters]
  constructor
  · rintro ⟨reg, hreg, h⟩
    exact ⟨reg, hperm.mem_iff.mp hreg, h⟩
  · rintro ⟨reg, hreg, h⟩
    exact ⟨reg, hperm.mem_iff.mpr hreg, h⟩

/-- The answer depends on nothing but the table. -/
theorem Answers.of_table_eq {m : Method} {parts : List String} {a : Match σ}
    (htable : r.table = r'.table) (h : r.Answers m parts a) : r'.Answers m parts a := by
  have hchain : r.chainOf? = r'.chainOf? := by
    funext m p
    rw [chainOf?, chainOf?, htable]
  cases h with
  | found accepts serves fewest =>
      rw [hchain] at serves fewest
      exact .found accepts serves fewest
  | notFound absent =>
      rw [htable] at absent
      exact .notFound absent
  | methodNotAllowed matched unserved nodup methods =>
      rw [htable] at matched methods
      rw [hchain] at unserved
      exact .methodNotAllowed matched unserved nodup methods

/-- A table gives one answer. -/
theorem Answers.agrees {m : Method} {parts : List String} {a b : Match σ}
    (ha : r.Answers m parts a) (hb : r.Answers m parts b) : a.Agrees b := by
  cases ha with
  | @found p c accepts serves fewest =>
      cases hb with
      | @found q d accepts' serves' fewest' =>
          by_cases hpq : p = q
          · subst hpq
            obtain rfl := Option.some.inj (serves.symm.trans serves')
            exact .found c _ p
          · have hlt := fewest q d accepts' serves' (Ne.symm hpq)
            have hgt := fewest' p c accepts serves hpq
            omega
      | notFound absent => simp [chainOf?, absent _ _ accepts] at serves
      | methodNotAllowed _ unserved => simp [unserved _ accepts] at serves
  | notFound absent =>
      cases hb with
      | found accepts serves => simp [chainOf?, absent _ _ accepts] at serves
      | notFound => exact .notFound
      | methodNotAllowed matched =>
          obtain ⟨p, m', accepts, hne⟩ := matched
          exact absurd (absent p m' accepts) hne
  | methodNotAllowed matched unserved _ methods =>
      cases hb with
      | found accepts serves => simp [unserved _ accepts] at serves
      | notFound absent =>
          obtain ⟨p, m', accepts, hne⟩ := matched
          exact absurd (absent p m' accepts) hne
      | methodNotAllowed _ _ _ methods' =>
          refine .methodNotAllowed fun m' => ?_
          rw [methods, methods']

/-- Well-formed routers of one table and mount point agree on every request. -/
theorem WellFormed.lookup_agrees (hr : r.WellFormed) (hr' : r'.WellFormed)
    (hmount : r.mount = r'.mount) (htable : r.table = r'.table) (m : Method) (path : String) :
    (r.lookup m path).Agrees (r'.lookup m path) := by
  by_cases hunder : ∃ rest, Under r.mount path rest
  · obtain ⟨rest, hunder⟩ := hunder
    have hanswers := hr'.answers_lookup (hmount ▸ hunder) m
    exact (hr.answers_lookup hunder m).agrees (hanswers.of_table_eq htable.symm)
  · rw [lookup_of_not_under (not_exists.mp hunder),
      lookup_of_not_under (hmount ▸ not_exists.mp hunder)]
    exact .notFound

/-- Routes that are all accepted in one order are all accepted in every other, and the routers agree
on every request. -/
theorem lookup_registerAll_perm (mount : String) (filters : FilterStack σ)
    {routes routes' : List (Route σ)} (hperm : routes.Perm routes')
    (haccepted : ((withFilters mount filters).registerAll routes).2 = []) :
    ((withFilters mount filters).registerAll routes').2 = [] ∧
      ∀ (m : Method) (path : String),
        (((withFilters mount filters).registerAll routes).1.lookup m path).Agrees
          (((withFilters mount filters).registerAll routes').1.lookup m path) := by
  have hfresh := holds_withFilters mount filters
  -- what is accepted and what is held both depend on the registrations up to their order
  have hregs : (registrations routes).Perm (registrations routes') := hperm.filterMap _
  have haccepted' : ((withFilters mount filters).registerAll routes').2 = [] := by
    rw [hfresh.registerAll_errors_eq_nil_iff] at haccepted ⊢
    obtain ⟨hread, hpair, -⟩ := haccepted
    refine ⟨fun route hroute => hread route (hperm.mem_iff.mpr hroute), ?_, by simp⟩
    exact (hregs.pairwise_iff fun hab hba => hab hba.symm).mp hpair
  refine ⟨haccepted', fun m path => ?_⟩
  have hr := hfresh.registerAll routes
  have hr' := hfresh.registerAll routes'
  rw [List.nil_append, accepted_eq_registrations haccepted] at hr
  rw [List.nil_append, accepted_eq_registrations haccepted'] at hr'
  obtain ⟨hmount, hfilters⟩ := mount_registerAll (withFilters mount filters) routes
  obtain ⟨hmount', hfilters'⟩ := mount_registerAll (withFilters mount filters) routes'
  exact hr.wellFormed.lookup_agrees hr'.wellFormed (hmount.trans hmount'.symm)
    (hr.table_eq_of_perm hr' hregs (hfilters.trans hfilters'.symm)) m path

/-- Three routes on two patterns for `/users/admin`. -/
def userRoutes : List (Route Unit) :=
  let silent : Service Unit := .deferred fun _ => pure .empty
  [⟨"GET", "/users/{name}", silent⟩, ⟨"*", "/users/admin", silent⟩,
    ⟨"POST", "/users/admin/", silent⟩]

/-- The three routes are accepted in either direction. -/
theorem lookup_userRoutes_reverse :
    ((withFilters "/" .empty).registerAll userRoutes).2 = [] ∧
    ((withFilters "/" .empty).registerAll userRoutes.reverse).2 = [] ∧
    (((withFilters "/" .empty).registerAll userRoutes).1.lookup .get "/users/admin").Agrees
      (((withFilters "/" .empty).registerAll userRoutes.reverse).1.lookup .get "/users/admin") := by
  have h : ((withFilters "/" .empty).registerAll userRoutes).2 = [] := by rfl
  obtain ⟨hreverse, hagrees⟩ := lookup_registerAll_perm "/" .empty
    (List.reverse_perm userRoutes).symm h
  exact ⟨h, hreverse, hagrees .get "/users/admin"⟩

end Router

end AppServer.Routing
