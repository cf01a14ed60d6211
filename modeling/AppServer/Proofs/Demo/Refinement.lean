import AppServer.Proofs.Demo.Surfaces

/-!
# The demo keeps a map

A request asks something of the directory or nothing. What it asks is told here of a map from names to
users, and without the routers: a request to store a user is one that can be read and holds an address,
and nothing else asks for that. Whatever requests are sent to the surfaces of the demo, the directory
is the map to which everything that they ask has been done in order.
-/

namespace AppServer.Demo

open AppServer.Data AppServer.Http AppServer.Negotiation AppServer.Pipeline AppServer.Resource
open AppServer.Routing AppServer.Text

/-! ## What is asked of a map -/

/-- Users by name. -/
abbrev Users := String → Option User

/-- What a request asks of the directory. -/
inductive Order
  | store (name email : String)
  | remove (name : String)
  | clear
deriving DecidableEq, Repr

def Order.apply : Order → Users → Users
  | store name email, users => Function.update users name (some ⟨name, email⟩)
  | remove name, users => Function.update users name none
  | clear, _ => fun _ => none

inductive Surface
  | application
  | admin
deriving DecidableEq, Repr

/-- A request and the surface that it is sent to. -/
structure Sent where
  surface : Surface
  request : Request

/-- What a sent request asks, if anything. -/
inductive Asks (server : Server Directory) : Sent → Order → Prop
  | store {req : Request} {name : String} {body : NewUser} (post : req.method = .post)
      (path : UserPath server.application.mount req.uri.path name)
      (reads : Reads .standard req (.value NewUser) body) (address : '@' ∈ body.email.toList) :
      Asks server ⟨.application, req⟩ (.store name body.email)
  | remove {req : Request} {name : String} (delete : req.method = .delete)
      (path : UserPath server.application.mount req.uri.path name) :
      Asks server ⟨.application, req⟩ (.remove name)
  | clear {req : Request} (post : req.method = .post)
      (path : TaskPath server.admin.mount req.uri.path) :
      Asks server ⟨.admin, req⟩ .clear

/-- Everything that some requests ask is done, in their order. -/
inductive Applied (server : Server Directory) : Users → List Sent → Users → Prop
  | done (users : Users) : Applied server users [] users
  | order {users users' : Users} {sent : Sent} {rest : List Sent} {order : Order}
      (asks : Asks server sent order) (more : Applied server (order.apply users) rest users') :
      Applied server users (sent :: rest) users'
  | nothing {users users' : Users} {sent : Sent} {rest : List Sent}
      (none : ∀ order, ¬ Asks server sent order) (more : Applied server users rest users') :
      Applied server users (sent :: rest) users'

variable {server : Server Directory} {sent : Sent} {order order' : Order}

theorem UserPath.unique {mount path name name' : String} (h : UserPath mount path name)
    (h' : UserPath mount path name') : name = name' := by
  obtain ⟨rest, segment, hunder, hparts, rfl⟩ := h
  obtain ⟨rest', segment', hunder', hparts', rfl⟩ := h'
  obtain rfl := hunder.unique hunder'
  rw [hparts] at hparts'
  cases hparts'
  rfl

theorem Asks.unique (h : Asks server sent order) (h' : Asks server sent order') :
    order = order' := by
  have hmethods : Method.post ≠ Method.delete := by decide
  cases h with
  | store post path reads =>
      cases h' with
      | store _ path' reads' => rw [path.unique path', reads.unique reads']
      | remove delete _ => exact absurd (post.symm.trans delete) hmethods
  | remove delete path =>
      cases h' with
      | store post _ _ _ => exact absurd (post.symm.trans delete) hmethods
      | remove _ path' => rw [path.unique path']
  | clear =>
      cases h'
      rfl

theorem Applied.unique {users users₁ users₂ : Users} {requests : List Sent}
    (h : Applied server users requests users₁) (h' : Applied server users requests users₂) :
    users₁ = users₂ := by
  induction h with
  | done =>
      cases h'
      rfl
  | order asks _ ih =>
      cases h' with
      | order asks' more' =>
          obtain rfl := asks.unique asks'
          exact ih more'
      | nothing none _ => exact absurd asks (none _)
  | nothing none _ ih =>
      cases h' with
      | order asks' _ => exact absurd asks' (none _)
      | nothing _ more' => exact ih more'

/-! ## What the directory becomes -/

def Order.perform : Order → Directory → Directory
  | store name email, d => d.put ⟨name, email⟩
  | remove name, d => (d.remove name).2
  | clear, _ => .empty

theorem Order.get?_perform (order : Order) (d : Directory) :
    (order.perform d).get? = order.apply d.get? := by
  cases order with
  | store name email => exact d.get?_put ⟨name, email⟩
  | remove name => exact d.get?_remove_eq_update name
  | clear => exact Directory.get?_empty

theorem Order.valid_perform (order : Order) {d : Directory} (h : d.Valid) :
    (order.perform d).Valid := by
  cases order with
  | store name email => exact h.put ⟨name, email⟩
  | remove name => exact h.remove name
  | clear => exact Directory.valid_empty

/-- What the method returns that carries out an order. -/
inductive Returns (users : Users) : Order → Outcome → Prop
  | stored (name email : String) :
      Returns users (.store name email) (.ok (toValue (User.mk name email)))
  | removed {name : String} (found : users name ≠ none) :
      Returns users (.remove name) (.ok (toValue (Removed.mk name)))
  | missing {name : String} (none : users name = none) :
      Returns users (.remove name) (.error (noSuchUser name))

/-- Answers a request on the surface that it is sent to. -/
def serve (server : Server Directory) (sent : Sent) : Act Directory Response :=
  match sent.surface with
  | .application => server.application.serve sent.request
  | .admin => server.admin.serve sent.request

/-- The world after some requests, sent one after the other. -/
def after (server : Server Directory) (w : World Directory) (requests : List Sent) :
    World Directory :=
  requests.foldl (fun w sent => ((serve server sent).runIn w).2) w

section Built

variable {config : Config} {host : Host} {req : Request}
  (h : (blueprint config host).build.1 = .ok server)
include h

/-- What a request asks is done first; the response is made of what the method returned. -/
theorem runIn_serve_of_asks (hasks : Asks server ⟨.application, req⟩ order) (w : World Directory) :
    ∃ outcome handed, Returns w.state.get? order outcome ∧
      (server.application.serve req).runIn w =
        recovered handed ((conclude .standard (req.headers.text? "accept") outcome).runIn
          { w with state := order.perform w.state }) := by
  obtain ⟨-, happlication, -⟩ := Blueprint.build_eq_ok_iff.mp h
  cases hasks with
  | @store _ name body post path reads address =>
      have hverb : Verb.withBody .post postUser ∈ users.verbs :=
        mem_verbs_users.mpr (.inr (.inl rfl))
      refine ⟨_, named req name, .stored name body.email, ?_⟩
      rw [runIn_serve_users happlication hverb post path, runIn_dispatch_post reads address]
      rfl
  | @remove _ name delete path =>
      have hverb : Verb.withoutBody .delete deleteUser ∈ users.verbs :=
        mem_verbs_users.mpr (.inr (.inr rfl))
      rw [runIn_serve_users happlication hverb delete path, runIn_dispatch_delete]
      cases hfound : w.state.get? name with
      | none => exact ⟨_, _, .missing hfound, rfl⟩
      | some u => exact ⟨_, _, .removed (by simp [hfound]), rfl⟩

theorem state_serve_of_asks (hasks : Asks server sent order) (w : World Directory) :
    ((serve server sent).runIn w).2.state = order.perform w.state := by
  obtain ⟨surface, req⟩ := sent
  cases surface with
  | application =>
      obtain ⟨outcome, handed, -, hrun⟩ := runIn_serve_of_asks h hasks w
      show ((server.application.serve req).runIn w).2.state = _
      rw [hrun, state_recovered, state_conclude]
  | admin =>
      obtain ⟨-, -, hadmin⟩ := Blueprint.build_eq_ok_iff.mp h
      cases hasks with
      | clear post path =>
          show ((server.admin.serve req).runIn w).2.state = _
          rw [runIn_serve_task hadmin post path]
          rfl

theorem state_serve_of_not_asks (hnot : ∀ order, ¬ Asks server sent order) (w : World Directory) :
    ((serve server sent).runIn w).2.state = w.state := by
  obtain ⟨-, happlication, hadmin⟩ := Blueprint.build_eq_ok_iff.mp h
  obtain ⟨surface, req⟩ := sent
  cases surface with
  | application =>
      show ((server.application.serve req).runIn w).2.state = _
      by_cases huser : ∃ verb ∈ users.verbs, req.method = verb.method ∧
          ∃ name, UserPath server.application.mount req.uri.path name
      · obtain ⟨verb, hverb, hmethod, name, path⟩ := huser
        rw [runIn_serve_users happlication hverb hmethod path, state_recovered]
        rcases mem_verbs_users.mp hverb with rfl | rfl | rfl
        · exact state_dispatch_get
        · exact state_dispatch_post_of_none fun body reads address =>
            hnot _ (.store hmethod path reads address)
        · exact absurd (.remove hmethod path) (hnot _)
      · exact state_serve_of_not_users happlication
          (fun verb hverb hmethod name path => huser ⟨verb, hverb, hmethod, name, path⟩) w
  | admin => exact state_serve_of_not_task hadmin (fun post path => hnot _ (.clear post path)) w

/-- One request: what it asks is done to the map, and nothing else is. -/
theorem get?_serve (sent : Sent) (w : World Directory) (hvalid : w.state.Valid) :
    let d := ((serve server sent).runIn w).2.state
    d.Valid ∧ ((∃ order, Asks server sent order ∧ d.get? = order.apply w.state.get?) ∨
      ((∀ order, ¬ Asks server sent order) ∧ d.get? = w.state.get?)) := by
  intro d
  by_cases hasks : ∃ order, Asks server sent order
  · obtain ⟨order, hasks⟩ := hasks
    have hstate : d = order.perform w.state := state_serve_of_asks h hasks w
    rw [hstate]
    exact ⟨order.valid_perform hvalid, .inl ⟨order, hasks, order.get?_perform w.state⟩⟩
  · have hnot : ∀ order, ¬ Asks server sent order := not_exists.mp hasks
    have hstate : d = w.state := state_serve_of_not_asks h hnot w
    rw [hstate]
    exact ⟨hvalid, .inr ⟨hnot, rfl⟩⟩

/-- A run: everything that the requests ask is done in their order. -/
theorem applied_after (requests : List Sent) (w : World Directory) (hvalid : w.state.Valid) :
    (after server w requests).state.Valid ∧
      Applied server w.state.get? requests (after server w requests).state.get? := by
  induction requests generalizing w with
  | nil => exact ⟨hvalid, .done _⟩
  | cons sent rest ih =>
      obtain ⟨hserved, hstep⟩ := get?_serve h sent w hvalid
      obtain ⟨hafter, hrest⟩ := ih _ hserved
      refine ⟨hafter, ?_⟩
      rcases hstep with ⟨order, hasks, hget⟩ | ⟨hnot, hget⟩
      · rw [hget] at hrest
        exact .order hasks hrest
      · rw [hget] at hrest
        exact .nothing hnot hrest

/-! ## What clients are told -/

theorem get_answers_none {req : Request} {name : String} {w : World Directory}
    (get : req.method = .get) (path : UserPath server.application.mount req.uri.path name)
    (hnone : w.state.get? name = none) :
    (server.application.serve req).runIn w =
      (.ok (ApiError.notFound ("No user named " ++ name)).response, w) := by
  obtain ⟨-, happlication, -⟩ := Blueprint.build_eq_ok_iff.mp h
  have hverb : Verb.withoutBody .get getUser ∈ users.verbs := mem_verbs_users.mpr (.inl rfl)
  rw [runIn_serve_users happlication hverb get path, runIn_dispatch_get_of_none hnone]
  rfl

theorem get_answers_some {req : Request} {name : String} {w : World Directory} {u : User}
    {chosen : Selected} (get : req.method = .get)
    (path : UserPath server.application.mount req.uri.path name)
    (hsome : w.state.get? name = some u)
    (hchosen : Registry.standard.selectWriter (req.headers.text? "accept") = .ok (.ok chosen)) :
    ∃ bytes, chosen.provider.decodeAs User bytes = .ok u ∧
      (server.application.serve req).runIn w =
        (.ok ⟨200, Headers.empty.set contentType chosen.mediaType, bytes⟩, w) := by
  obtain ⟨-, happlication, -⟩ := Blueprint.build_eq_ok_iff.mp h
  have hverb : Verb.withoutBody .get getUser ∈ users.verbs := mem_verbs_users.mpr (.inl rfl)
  obtain ⟨bytes, hdecode, hrun⟩ := runIn_dispatch_get_of_some hsome hchosen
  refine ⟨bytes, hdecode, ?_⟩
  rw [runIn_serve_users happlication hverb get path, hrun]
  rfl

theorem clear_answers {req : Request} {w : World Directory} (hvalid : w.state.Valid)
    (post : req.method = .post) (path : TaskPath server.admin.mount req.uri.path) :
    ((server.admin.serve req).runIn w).1 = .ok ((Response.text ("removed " ++
      toString {name | w.state.get? name ≠ none}.ncard ++ " users\n")).setHeader
        "cache-control" Admin.cacheControl) := by
  obtain ⟨-, -, hadmin⟩ := Blueprint.build_eq_ok_iff.mp h
  rw [runIn_serve_task hadmin post path, hvalid.length_users]

end Built

/-- The demo is built with every valid configuration. After any requests to its surfaces, to begin with
an empty directory, the directory is the map to which what they ask has been done, and every user in it
stands under its own name. The next request for a user gets that user, in the form that it accepts, or
a 404 if there is none; the next request to empty the directory is told how many users there were. -/
theorem directory_refines_map {config valid : Config} (hvalid : config.validate = .ok valid)
    (host : Host) (log : List Event) :
    ∃ server, (blueprint config host).build.1 = .ok server ∧
      ∀ requests : List Sent,
        let w := after server ⟨.empty, log⟩ requests
        (∀ users, Applied server (fun _ => none) requests users ↔ users = w.state.get?) ∧
        (∀ name u, w.state.get? name = some u → u.name = name) ∧
        (∀ req name, req.method = .get → UserPath server.application.mount req.uri.path name →
          (w.state.get? name = none → ∃ response,
            (server.application.serve req).runIn w = (.ok response, w) ∧ response.status = 404) ∧
          ∀ u chosen, w.state.get? name = some u →
            Registry.standard.selectWriter (req.headers.text? "accept") = .ok (.ok chosen) →
            ∃ bytes, chosen.provider.decodeAs User bytes = .ok u ∧
              (server.application.serve req).runIn w =
                (.ok ⟨200, Headers.empty.set contentType chosen.mediaType, bytes⟩, w)) ∧
        ∀ req, req.method = .post → TaskPath server.admin.mount req.uri.path →
          ((server.admin.serve req).runIn w).1 = .ok ((Response.text ("removed " ++
            toString {name | w.state.get? name ≠ none}.ncard ++ " users\n")).setHeader
              "cache-control" "must-revalidate,no-cache,no-store") := by
  obtain ⟨server, hserver⟩ := exists_build host hvalid
  refine ⟨server, hserver, fun requests => ?_⟩
  intro w
  obtain ⟨hafter, happlied⟩ := applied_after hserver requests ⟨.empty, log⟩ Directory.valid_empty
  rw [Directory.get?_empty] at happlied
  refine ⟨fun users => ?_, fun name u hu => hafter.name_eq hu, fun req name get path => ⟨?_, ?_⟩,
    fun req post path => clear_answers hserver hafter post path⟩
  · constructor
    · exact fun h => h.unique happlied
    · rintro rfl
      exact happlied
  · exact fun hnone => ⟨_, get_answers_none hserver get path hnone, rfl⟩
  · exact fun u chosen hsome hchosen => get_answers_some hserver get path hsome hchosen

/-- Both surfaces behind one listener. -/
def oneListener : Config :=
  { layout := .shared }

def newAda : Record ⟨"NewUser", [("email", .text)], by decide⟩ :=
  ⟨[("email", .text "ada@example.org")], rfl⟩

/-- A user is stored under a name that is sent percent-encoded in part. -/
def postAda : Request :=
  .new .post ⟨none, none, "/application/users/%61da", none⟩ ∅
    "\x7b\"email\":\"ada@example.org\"\x7d".toUTF8 .http11

def postClear : Request :=
  .new .post ⟨none, none, "/admin/tasks/clear-users", none⟩ ∅ .empty .http11

/-- Whatever else is in the header, as long as it does not name a media type. -/
theorem asks_postAda_of_untyped {headers : Headers} (untyped : headers.first? contentType = none)
    (h : server.application.mount = "/application") :
    Asks server ⟨.application, { postAda with headers := headers }⟩
      (.store "ada" "ada@example.org") := by
  have hbody : (postAda.body.getD .empty).toList =
      utf8 (Json.object (newAda.cells.map Json.cellMember)) := by
    show "\x7b\"email\":\"ada@example.org\"\x7d".toUTF8.toList = _
    rw [toList_toUTF8]
    rfl
  have hdecode : Provider.json.decode (shape NewUser) (postAda.body.getD .empty) =
      .ok (some (toValue newAda)) :=
    Provider.decode_json (Json.read?_record newAda hbody)
  have hreads : Reads .standard { postAda with headers := headers } (.value NewUser)
      ⟨"ada@example.org"⟩ :=
    .value (.nothing untyped) rfl (Provider.decodeAs_of_decode hdecode rfl)
  have hname : Percent.Encodes "%61da" "ada" := by
    unfold Percent.Encodes
    rw [toList_toUTF8, toList_toUTF8]
    show Percent.Spells [0x25, 0x36, 0x31, 0x64, 0x61] [0x61, 0x64, 0x61]
    exact .spelled rfl rfl rfl (.raw (by decide) (by decide) (.raw (by decide) (by decide) .nil))
  have hunder : Under "/application" "/application/users/%61da" "/users/%61da" :=
    .below (by decide) "users/%61da"
  refine .store rfl ⟨"/users/%61da", "%61da", ?_, rfl, hname.decodeOrKeep_eq⟩ hreads (by decide)
  rw [h]
  exact hunder

theorem asks_postAda (h : server.application.mount = "/application") :
    Asks server ⟨.application, postAda⟩ (.store "ada" "ada@example.org") :=
  asks_postAda_of_untyped (Headers.first?_empty contentType) h

/-- The user is in the directory, under the decoded name, and is counted. -/
theorem directory_refines_map_postAda :
    oneListener.validate = .ok oneListener.normalized ∧
    ∃ server, (blueprint oneListener Blueprint.host).build.1 = .ok server ∧
      let w := after server ⟨.empty, []⟩ [⟨.application, postAda⟩]
      w.state.get? "ada" = some ⟨"ada", "ada@example.org"⟩ ∧
      ((server.admin.serve postClear).runIn w).1 = .ok ((Response.text "removed 1 users\n").setHeader
        "cache-control" "must-revalidate,no-cache,no-store") := by
  have hvalid : oneListener.validate = .ok oneListener.normalized := by rfl
  obtain ⟨server, hserver, hrun⟩ := directory_refines_map hvalid Blueprint.host []
  obtain ⟨happlied, -, -, hclear⟩ := hrun [⟨.application, postAda⟩]
  obtain ⟨hconfig, hmounted⟩ := Blueprint.mounted_of_build hserver
  have hnormalized : server.config = oneListener.normalized := Except.ok.inj (hconfig.symm.trans hvalid)
  rw [hnormalized] at hmounted
  have hasks := asks_postAda hmounted.application
  have hmap := (happlied _).mp (.order hasks (.done _))
  refine ⟨hvalid, server, hserver, ?_⟩
  intro w
  have hada : w.state.get? = Function.update (fun _ => none) "ada"
      (some ⟨"ada", "ada@example.org"⟩) := hmap.symm
  have hcount : {name | w.state.get? name ≠ none}.ncard = 1 := by
    have hnames : {name | w.state.get? name ≠ none} = {"ada"} := by
      ext name
      simp [hada, Function.update_apply]
    rw [hnames, Set.ncard_singleton]
  have htask : TaskPath server.admin.mount postClear.uri.path := by
    refine ⟨"/tasks/clear-users", ?_, rfl⟩
    rw [show server.admin.mount = "/admin" from hmounted.admin]
    exact .below (by decide) "tasks/clear-users"
  have hcleared := hclear postClear rfl htask
  rw [hcount] at hcleared
  refine ⟨?_, hcleared⟩
  rw [hada, Function.update_self]

end AppServer.Demo
