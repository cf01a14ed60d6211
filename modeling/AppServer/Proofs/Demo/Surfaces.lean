import AppServer.Proofs.Admin.Tasks
import AppServer.Proofs.Demo.Users
import AppServer.Proofs.Server.Build
import AppServer.Proofs.Server.Surfaces

/-!
# The surfaces of the demo

With every valid configuration the demo is built. On its application a path that leads to a user is
served by the verbs of the resource, and on its admin surface there is one path that empties the
directory. Nothing else touches the directory.
-/

namespace AppServer.Demo

open AppServer.Http AppServer.Pipeline AppServer.Resource AppServer.Routing
open AppServer.Routing.Registration AppServer.Text

/-- A path leads to a user: below the mount point there are two segments, the second of which is the
name, percent-encoded or as it stands. -/
def UserPath (mount path name : String) : Prop :=
  ∃ rest segment, Under mount path rest ∧ segments rest = ["users", segment] ∧
    Percent.decodeOrKeep segment = name

/-- A path leads to the task that empties the directory. -/
def TaskPath (mount path : String) : Prop :=
  ∃ rest, Under mount path rest ∧ segments rest = ["tasks", "clear-users"]

variable {config : Config} {host : Host} {mount path : String} {r : Router Directory}
  {req : Request} {w : World Directory}

/-! ## Building -/

def greeting : Service Directory :=
  .deferred fun _ => return .text "Melon REST demo\n"

theorem registrations_application (config : Config) (host : Host) :
    (blueprint config host).application.registrations = ⟨"GET", "/", greeting⟩ ::
      users.verbs.map fun verb => ⟨verb.method.name, "/users/:name", bind .standard verb⟩ := rfl

/-- The routes of the admin surface can be read, and no two of them clash. -/
theorem adminErrors_blueprint (config valid : Config) (host : Host) :
    (blueprint config host).adminErrors valid = [] := by
  rw [Blueprint.adminErrors, Admin.start_eq_outcome, Blueprint.reported_outcome]
  show (Router.registerAll _ [⟨"GET", "/", _⟩, ⟨anyMethod, "/ping", _⟩, ⟨anyMethod, "/runtime", _⟩,
    ⟨anyMethod, "/healthcheck", _⟩, ⟨"POST", "/tasks/clear-users", _⟩]).2 = []
  have hread {method pattern : String} {m : Option Method} {p : Pattern}
      (hmethod : Router.readMethod method = .ok m) (hpattern : Pattern.parse pattern = .ok p)
      (service : Service Directory) : Route.read ⟨method, pattern, service⟩ = .ok ⟨m, p, service⟩ :=
    Route.read_eq_ok_iff.mpr ⟨hmethod, hpattern, rfl⟩
  have hany : Router.readMethod anyMethod = .ok none := rfl
  have hindex := hread Admin.readMethod_get Admin.parse_root
  have hping := hread hany (show Pattern.parse "/ping" = .ok ⟨[.literal "ping"]⟩ by rfl)
  have hruntime := hread hany (show Pattern.parse "/runtime" = .ok ⟨[.literal "runtime"]⟩ by rfl)
  have hcheck := hread hany
    (show Pattern.parse "/healthcheck" = .ok ⟨[.literal "healthcheck"]⟩ by rfl)
  have htask := hread Admin.readMethod_post
    (show Pattern.parse "/tasks/clear-users" = .ok ⟨[.literal "tasks", .literal "clear-users"]⟩
      by rfl)
  refine ((Router.holds_withFilters _ _).registerAll_errors_eq_nil_iff _).mpr ⟨?_, ?_, by simp⟩
  · simp only [List.forall_mem_cons]
    exact ⟨⟨_, hindex _⟩, ⟨_, hping _⟩, ⟨_, hruntime _⟩, ⟨_, hcheck _⟩, ⟨_, htask _⟩, by simp⟩
  · rw [registrations_cons_of_read (hindex _), registrations_cons_of_read (hping _),
      registrations_cons_of_read (hruntime _), registrations_cons_of_read (hcheck _),
      registrations_cons_of_read (htask _)]
    simp only [registrations, List.filterMap_nil, List.pairwise_cons, List.Pairwise.nil,
      List.forall_mem_cons, List.not_mem_nil, IsEmpty.forall_iff, implies_true, and_true, Clashes]
    decide

/-- Neither surface refuses anything of the demo, wherever it is mounted. -/
theorem exists_build (host : Host) {valid : Config} (h : config.validate = .ok valid) :
    ∃ server, (blueprint config host).build.1 = .ok server := by
  have happlication : (blueprint config host).applicationErrors valid = [] := rfl
  rcases Blueprint.build_cases (b := blueprint config host) h with
    ⟨hserver, -⟩ | ⟨-, hrefused⟩ | ⟨-, -, hrefused⟩
  · exact hserver
  · exact absurd happlication hrefused
  · exact absurd (adminErrors_blueprint config valid host) hrefused

/-! ## The application -/

def usersPattern : Pattern :=
  ⟨[.literal "users", .param "name"]⟩

theorem accepts_usersPattern_iff {rest : String} :
    usersPattern.accepts (segments rest) = true ↔ ∃ segment, segments rest = ["users", segment] := by
  rw [Pattern.accepts_iff]
  constructor
  · intro h
    generalize segments rest = parts at h
    cases h with
    | @cons _ first _ _ hfirst hmore =>
        cases hmore with
        | @cons _ segment _ _ _ hend =>
            cases hend
            obtain rfl : "users" = first := beq_iff_eq.mp hfirst
            exact ⟨segment, rfl⟩
  · rintro ⟨segment, hparts⟩
    have hsegment : IsSegment segment := isSegment_of_mem_segments (by rw [hparts]; simp)
    rw [hparts]
    refine .cons rfl (.cons ?_ .nil)
    simpa [Segment.accepts] using hsegment.ne_empty

/-- The registration of a verb of the resource. -/
def registrationOf (verb : Verb Directory) : Registration Directory :=
  ⟨some verb.method, usersPattern, bind .standard verb⟩

theorem read_users : ∀ verb ∈ users.verbs,
    Route.read ⟨verb.method.name, "/users/:name", bind .standard verb⟩ = .ok (registrationOf verb) := by
  intro verb hverb
  rcases mem_verbs_users.mp hverb with rfl | rfl | rfl
  · rfl
  · rfl
  · rfl

theorem mem_registrations_application (config : Config) (host : Host)
    {reg : Registration Directory} :
    reg ∈ Routing.registrations (blueprint config host).application.registrations ↔
      reg = ⟨some .get, ⟨[]⟩, greeting⟩ ∨ ∃ verb ∈ users.verbs, reg = registrationOf verb := by
  rw [mem_registrations, registrations_application]
  have hgreeting : Route.read ⟨"GET", "/", greeting⟩ = .ok ⟨some .get, ⟨[]⟩, greeting⟩ := rfl
  constructor
  · rintro ⟨route, hroute, hread⟩
    rcases List.mem_cons.mp hroute with rfl | hroute
    · exact .inl (Except.ok.inj (hread.symm.trans hgreeting))
    · obtain ⟨verb, hverb, rfl⟩ := List.mem_map.mp hroute
      exact .inr ⟨verb, hverb, Except.ok.inj (hread.symm.trans (read_users verb hverb))⟩
  · rintro (rfl | ⟨verb, hverb, rfl⟩)
    · exact ⟨_, List.mem_cons_self, hgreeting⟩
    · exact ⟨_, List.mem_cons_of_mem _ (List.mem_map_of_mem hverb), read_users verb hverb⟩

section Application

variable (h : ((blueprint config host).application.start mount).1 = .ok r)
include h

/-- A request for a user is handed to the verb of its method. -/
theorem runIn_serve_users {verb : Verb Directory} (hverb : verb ∈ users.verbs)
    (hmethod : req.method = verb.method) {name : String}
    (hpath : UserPath r.mount req.uri.path name) (w : World Directory) :
    (r.serve req).runIn w =
      recovered (named req name) ((dispatch .standard verb (named req name)).runIn w) := by
  obtain ⟨rest, segment, hunder, hparts, rfl⟩ := hpath
  have hstarted := Application.started_of_start h
  have hmem := (mem_registrations_application config host).mpr
    (.inr ⟨verb, hverb, rfl⟩)
  have hserves : Serves _ req.method (registrationOf verb) := ⟨hmem, .inl (by rw [hmethod]; rfl)⟩
  have haccepts : usersPattern.accepts (segments rest) = true :=
    accepts_usersPattern_iff.mpr ⟨segment, hparts⟩
  have hspecific : MostSpecific (Routing.registrations (blueprint config host).application.registrations)
      req.method (segments rest) usersPattern := by
    refine ⟨haccepts, ⟨_, hmem, hserves.offers, rfl⟩, ?_⟩
    intro other hother _ haccepts' hne
    rcases (mem_registrations_application config host).mp hother with rfl | ⟨verb', -, rfl⟩
    · rw [hparts] at haccepts'
      cases haccepts'
    · exact absurd rfl hne
  rw [Router.serve, hstarted.holds.lookup_of_mostSpecific hunder hspecific hserves,
    hstarted.filters, hparts]
  exact runIn_run_recoveryFilter _ _ w

/-- No other request touches the directory. -/
theorem state_serve_of_not_users
    (hnot : ∀ verb ∈ users.verbs, req.method = verb.method →
      ∀ name, ¬ UserPath r.mount req.uri.path name) (w : World Directory) :
    ((r.serve req).runIn w).2.state = w.state := by
  have hstarted := Application.started_of_start h
  by_cases hfound : ∃ c params p, r.lookup req.method req.uri.path = .found c params p
  · obtain ⟨c, params, p, hfound⟩ := hfound
    obtain ⟨rest, hunder, -, hspecific, -⟩ := hstarted.holds.mostSpecific_of_found hfound
    obtain ⟨reg, hserves, rfl, hrun⟩ :=
      hstarted.holds.runIn_serve_of_found hstarted.filters hfound
    rw [hrun, state_recovered]
    rcases (mem_registrations_application config host).mp hserves.1 with rfl | ⟨verb, hverb, rfl⟩
    · rfl
    · obtain ⟨segment, hparts⟩ := accepts_usersPattern_iff.mp hspecific.accepts
      have hmethod : req.method = verb.method := hserves.offers.eq_of_method rfl
      exact absurd ⟨rest, segment, hunder, hparts, rfl⟩ (hnot verb hverb hmethod _)
  · obtain ⟨response, hserve⟩ : ∃ response, r.serve req = pure response :=
      Router.serve_of_not_found fun c params p heq => hfound ⟨c, params, p, heq⟩
    rw [hserve]
    rfl

/-- Every request is answered: what panics is dropped quietly. -/
theorem exists_response_serve (req : Request) (w : World Directory) :
    ∃ response, ((r.serve req).runIn w).1 = .ok response := by
  have hstarted := Application.started_of_start h
  by_cases hfound : ∃ c params p, r.lookup req.method req.uri.path = .found c params p
  · obtain ⟨c, params, p, hfound⟩ := hfound
    obtain ⟨reg, hserves, rfl, hrun⟩ :=
      hstarted.holds.runIn_serve_of_found hstarted.filters hfound
    rw [hrun, recovered_fst_iff]
    intro p hp
    rcases (mem_registrations_application config host).mp hserves.1 with rfl | ⟨verb, hverb, rfl⟩
    · cases hp
    · exact dropped_of_verb hverb hp
  · obtain ⟨response, hserve⟩ : ∃ response, r.serve req = pure response :=
      Router.serve_of_not_found fun c params p heq => hfound ⟨c, params, p, heq⟩
    rw [hserve]
    exact ⟨response, rfl⟩

end Application

/-! ## The admin surface -/

def clearTask : Task Directory :=
  ⟨"clear-users", clearUsers⟩

theorem isPlain_clearTask : Admin.IsPlain clearTask.name :=
  ⟨by decide, by decide, by decide⟩

theorem tasks_admin (config : Config) (host : Host) :
    (blueprint config host).admin.tasks = [clearTask] := rfl

theorem accepts_clearTask_iff {parts : List String} :
    (Admin.taskPattern clearTask.name).accepts parts = true ↔ parts = ["tasks", "clear-users"] := by
  rw [Pattern.accepts_iff]
  constructor
  · intro h
    cases h with
    | @cons _ first _ _ hfirst hmore =>
        cases hmore with
        | @cons _ second _ _ hsecond hend =>
            cases hend
            obtain rfl : "tasks" = first := beq_iff_eq.mp hfirst
            obtain rfl : "clear-users" = second := beq_iff_eq.mp hsecond
            rfl
  · rintro rfl
    exact .cons rfl (.cons rfl .nil)

/-- None of the entries of the menu touches the directory. -/
theorem state_run_entry {e : MenuEntry Directory} (he : e ∈ (blueprint config host).admin.entries)
    (req : Request) (w : World Directory) : ((e.service.run req).runIn w).2.state = w.state := by
  have hentries : (blueprint config host).admin.entries = [Admin.ping, Admin.runtime host,
    Admin.healthcheck (blueprint config host).admin.health] := rfl
  rw [hentries] at he
  simp only [List.mem_cons, List.not_mem_nil, or_false] at he
  rcases he with rfl | rfl | rfl
  · rfl
  · rfl
  · rfl

section Admin

variable (h : ((blueprint config host).admin.start mount).1 = .ok r)
include h

/-- The task empties the directory and tells how many entries there were. -/
theorem runIn_serve_task (hmethod : req.method = .post) (hpath : TaskPath r.mount req.uri.path)
    (w : World Directory) :
    (r.serve req).runIn w =
      (.ok ((Response.text ("removed " ++ toString w.state.users.length ++ " users\n")).setHeader
        "cache-control" Admin.cacheControl), { w with state := .empty }) := by
  obtain ⟨rest, hunder, hparts⟩ := hpath
  have hstarted := Admin.started_of_start h
  have htask : clearTask ∈ (blueprint config host).admin.tasks := by
    rw [tasks_admin]
    exact List.mem_cons_self
  have hserves : Serves ((blueprint config host).admin.registrations mount) .post _ :=
    Admin.serves_task htask isPlain_clearTask.parse_taskPath
  have hwritten : (Admin.taskPattern clearTask.name).WrittenAs (segments rest) :=
    Pattern.writtenAs_of_literals (by decide) (accepts_clearTask_iff.mpr hparts)
  have hspecific :=
    (Admin.registered_of_start h).1.mostSpecific_of_writtenAs hserves.1 (.inl rfl) hwritten
  rw [hstarted.mount] at hunder
  rw [← hmethod] at hserves hspecific
  rw [hstarted.runIn_serve_of_reaches ⟨rest, hunder, hspecific, hserves, rfl⟩]
  rfl

/-- No other request touches the directory. -/
theorem state_serve_of_not_task
    (hnot : req.method = .post → ¬ TaskPath r.mount req.uri.path) (w : World Directory) :
    ((r.serve req).runIn w).2.state = w.state := by
  have hstarted := Admin.started_of_start h
  by_cases hreached : ∃ reg handed, (blueprint config host).admin.Reaches mount req reg handed
  · obtain ⟨reg, handed, hreaches⟩ := hreached
    rw [hstarted.runIn_serve_of_reaches hreaches, state_recovered, Admin.state_marked]
    obtain ⟨rest, hunder, hspecific, hserves, -⟩ := hreaches
    cases Admin.mem_registrations_iff.mp hserves.1 with
    | index => rfl
    | entry he _ => exact state_run_entry he handed w
    | task ht hparse =>
        rw [tasks_admin, List.mem_singleton] at ht
        subst ht
        obtain rfl := Except.ok.inj (isPlain_clearTask.parse_taskPath.symm.trans hparse)
        have hmethod : req.method = .post := hserves.offers.eq_of_method rfl
        rw [← hstarted.mount] at hunder
        exact absurd ⟨rest, hunder, accepts_clearTask_iff.mp hspecific.accepts⟩ (hnot hmethod)
  · obtain ⟨response, hserve, -⟩ := hstarted.serve_of_not_reaches
      fun reg handed hreaches => hreached ⟨reg, handed, hreaches⟩
    rw [hserve]
    rfl

end Admin

end AppServer.Demo
