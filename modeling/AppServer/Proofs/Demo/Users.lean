import AppServer.Demo.Blueprint
import AppServer.Proofs.Demo.Directory
import AppServer.Proofs.Negotiation.RoundTrip
import AppServer.Proofs.Resource.Dispatch

/-!
# The resource of users

What the methods of the resource do with the directory, and what a client that asks for a user gets.
Whether a user is stored depends on the request being read and on the address that it holds; the
writer of the response has no part in it.
-/

namespace AppServer.Demo

open AppServer.Data AppServer.Http AppServer.Negotiation AppServer.Pipeline AppServer.Resource
open AppServer.Text

/-- How a client reads a user. -/
instance : OfValue User where
  shape := .struct "User" [("name", .text, .required), ("email", .text, .required)]
  ofValue? v := do some ⟨← (← v.field? "name").text?, ← (← v.field? "email").text?⟩

/-! ## Writing users -/

def userLayout : RecordLayout :=
  ⟨"User", [("name", .text), ("email", .text)], by decide⟩

/-- A user as a record, which has the same structured form. -/
def User.record (u : User) : Record userLayout :=
  ⟨[("name", .text u.name), ("email", .text u.email)], rfl⟩

theorem User.isElementName_of_mem_record (u : User) :
    ∀ e ∈ u.record.cells, Xml.IsElementName e.1 := by
  have hname : Xml.IsElementName "name" := ⟨by decide, by decide⟩
  have hemail : Xml.IsElementName "email" := ⟨by decide, by decide⟩
  intro e he
  rcases List.mem_pair.mp he with rfl | rfl
  · exact hname
  · exact hemail

theorem User.toValue_record (u : User) : toValue u.record = toValue u := rfl

theorem shape_userLayout : shape (Record userLayout) = shape User := rfl

/-- Whichever provider writes a user, the user is what is read from the body. -/
theorem User.exists_encode (u : User) {p : Provider} (hp : p ∈ Registry.standard.providers) :
    ∃ bytes, p.encode (toValue u) = .ok bytes ∧ p.decodeAs User bytes = .ok u := by
  obtain ⟨bytes, hencode, hdecode⟩ :=
    Provider.exists_encode_record u.record u.isElementName_of_mem_record hp
  rw [User.toValue_record] at hencode hdecode
  rw [shape_userLayout] at hdecode
  exact ⟨bytes, hencode, Provider.decodeAs_of_decode hdecode rfl⟩

def removedLayout : RecordLayout :=
  ⟨"Removed", [("removed", .text)], by decide⟩

def Removed.record (r : Removed) : Record removedLayout :=
  ⟨[("removed", .text r.removed)], rfl⟩

/-- Both providers write what a client gets for a removed user. -/
theorem Removed.exists_encode (r : Removed) {p : Provider} (hp : p ∈ Registry.standard.providers) :
    ∃ bytes, p.encode (toValue r) = .ok bytes := by
  have hname : Xml.IsElementName "removed" := ⟨by decide, by decide⟩
  have hnames : ∀ e ∈ r.record.cells, Xml.IsElementName e.1 := by
    intro e he
    rw [List.mem_singleton.mp he]
    exact hname
  obtain ⟨bytes, hencode, -⟩ := Provider.exists_encode_record r.record hnames hp
  exact ⟨bytes, hencode⟩

/-! ## The methods -/

theorem mem_verbs_users {verb : Verb Directory} : verb ∈ users.verbs ↔
    verb = .withoutBody .get getUser ∨ verb = .withBody .post postUser ∨
      verb = .withoutBody .delete deleteUser := by
  simp [users, Resource.verbs]

variable {ctx : Context} {w : World Directory}

theorem runIn_getUser : (getUser ctx).runIn w =
    (.ok (match w.state.get? (nameOf ctx) with
      | some u => .ok (toValue u)
      | none => .error (noSuchUser (nameOf ctx))), w) := by
  rw [getUser, Act.runIn_bind, Act.runIn_state]
  dsimp only
  cases w.state.get? (nameOf ctx) <;> rfl

theorem state_postUser_of_no_address {body : NewUser} (h : '@' ∉ body.email.toList) :
    ((postUser ctx body).runIn w).2.state = w.state := by
  rw [postUser, if_neg (mt List.contains_iff_mem.mp h)]
  rfl

theorem runIn_deleteUser : (deleteUser ctx).runIn w =
    (.ok (match w.state.get? (nameOf ctx) with
      | some _ => .ok (toValue (Removed.mk (nameOf ctx)))
      | none => .error (noSuchUser (nameOf ctx))),
    { w with state := (w.state.remove (nameOf ctx)).2 }) := by
  rw [deleteUser, Act.runIn_bind, Act.runIn_state]
  dsimp only [Directory.remove]
  cases w.state.get? (nameOf ctx) <;> rfl

/-- None of the methods panics. -/
theorem dropped_of_verb {verb : Verb Directory} (hverb : verb ∈ users.verbs) {req : Request}
    {p : Payload} (h : ((dispatch .standard verb req).runIn w).1 = .error p) :
    p.dropped = none := by
  rcases mem_verbs_users.mp hverb with rfl | rfl | rfl
  · change ((dispatch .standard (Takes.nothing.verb .get fun ctx _ => getUser ctx) _).runIn w).1 = _
      at h
    refine dropped_of_dispatch (fun ctx body w p hp => ?_) h
    rw [runIn_getUser] at hp
    cases hp
  · change ((dispatch .standard ((Takes.value NewUser).verb .post postUser) _).runIn w).1 = _ at h
    refine dropped_of_dispatch (fun ctx body w p hp => ?_) h
    rw [postUser] at hp
    split at hp
    · cases hp
    · cases hp
  · change ((dispatch .standard (Takes.nothing.verb .delete fun ctx _ => deleteUser ctx)
      _).runIn w).1 = _ at h
    refine dropped_of_dispatch (fun ctx body w p hp => ?_) h
    rw [runIn_deleteUser] at hp
    cases hp

/-! ## Requests to the resource -/

/-- A request as it is handed to a verb of the resource. -/
def named (req : Request) (name : String) : Request :=
  { req with params := ⟨[("name", name)]⟩ }

variable {req : Request} {name : String}

theorem nameOf_named : nameOf ⟨(named req name).toHead, (named req name).params⟩ = name := by
  simp [nameOf, Context.param?, Params.get?, lookup?, named]

/-- What a request holds does not depend on its path. -/
theorem reads_named_iff {registry : Registry} {β : Type} {takes : Takes β} {body : β} :
    Reads registry (named req name) takes body ↔ Reads registry req takes body := by
  constructor
  · intro h
    cases h with
    | nothing => exact .nothing
    | value declares chosen decoded => exact .value declares chosen decoded
  · intro h
    cases h with
    | nothing => exact .nothing
    | value declares chosen decoded => exact .value declares chosen decoded

theorem state_dispatch_get :
    ((dispatch .standard (.withoutBody .get getUser) req).runIn w).2.state = w.state := by
  show ((dispatch .standard (Takes.nothing.verb .get fun ctx _ => getUser ctx) req).runIn
    w).2.state = _
  rw [state_dispatch_of_reads .nothing, runIn_getUser]

theorem runIn_dispatch_post {body : NewUser} (hreads : Reads .standard req (.value NewUser) body)
    (haddress : '@' ∈ body.email.toList) (w : World Directory) :
    (dispatch .standard (.withBody .post postUser) (named req name)).runIn w =
      (conclude .standard (req.headers.text? "accept")
        (.ok (toValue (User.mk name body.email)))).runIn
          { w with state := w.state.put ⟨name, body.email⟩ } := by
  show (dispatch .standard ((Takes.value NewUser).verb .post postUser) _).runIn w = _
  rw [runIn_dispatch_of_reads (reads_named_iff.mpr hreads), postUser,
    if_pos (List.contains_iff_mem.mpr haddress), nameOf_named]
  rfl

theorem runIn_dispatch_delete (w : World Directory) :
    (dispatch .standard (.withoutBody .delete deleteUser) (named req name)).runIn w =
      (conclude .standard (req.headers.text? "accept") (match w.state.get? name with
        | some _ => .ok (toValue (Removed.mk name))
        | none => .error (noSuchUser name))).runIn
          { w with state := (w.state.remove name).2 } := by
  show (dispatch .standard (Takes.nothing.verb .delete fun ctx _ => deleteUser ctx) _).runIn w = _
  rw [runIn_dispatch_of_reads .nothing, runIn_deleteUser, nameOf_named]
  rfl

/-- Nothing is stored for a request that is refused, nor for one that holds no address. -/
theorem state_dispatch_post_of_none
    (h : ∀ body : NewUser, Reads .standard req (.value NewUser) body → '@' ∉ body.email.toList) :
    ((dispatch .standard (.withBody .post postUser) (named req name)).runIn w).2.state =
      w.state := by
  show ((dispatch .standard ((Takes.value NewUser).verb .post postUser) _).runIn w).2.state = _
  rcases reads_or_refused .standard (named req name) (.value NewUser) with
    ⟨body, hreads⟩ | ⟨step, e, hrefused⟩
  · rw [state_dispatch_of_reads hreads,
      state_postUser_of_no_address (h body (reads_named_iff.mp hreads))]
  · exact state_dispatch_of_refused hrefused

/-! ## Asking for a user -/

/-- The provider of a chosen writer is one of the registry, and its media type can be sent. -/
theorem of_selectWriter {accept : Option String} {chosen : Selected}
    (h : Registry.standard.selectWriter accept = .ok (.ok chosen)) :
    chosen.provider ∈ Registry.standard.providers ∧
      ∀ b ∈ chosen.mediaType.toUTF8.toList, isVisibleByte b = true := by
  obtain ⟨p, hp, hoffer⟩ := List.mem_flatMap.mp (Registry.mem_offers_of_selectWriter h)
  obtain ⟨t, ht, rfl⟩ := List.mem_map.mp hoffer
  exact ⟨hp, sendable_standard p hp t ht⟩

theorem runIn_conclude_ok {accept : Option String} {entity : Value} {chosen : Selected}
    {bytes : ByteArray} (hchosen : Registry.standard.selectWriter accept = .ok (.ok chosen))
    (hbytes : chosen.provider.encode entity = .ok bytes) (w : World Directory) :
    (conclude .standard accept (.ok entity)).runIn w =
      (.ok ⟨200, Headers.empty.set contentType chosen.mediaType, bytes⟩, w) := by
  obtain ⟨-, hvisible⟩ := of_selectWriter hchosen
  simp only [conclude, respond, hchosen, hbytes, entityResponse,
    if_pos (List.all_eq_true.mpr hvisible)]
  rfl

theorem runIn_dispatch_get (w : World Directory) :
    (dispatch .standard (.withoutBody .get getUser) (named req name)).runIn w =
      (conclude .standard (req.headers.text? "accept") (match w.state.get? name with
        | some u => .ok (toValue u)
        | none => .error (noSuchUser name))).runIn w := by
  show (dispatch .standard (Takes.nothing.verb .get fun ctx _ => getUser ctx) _).runIn w = _
  rw [runIn_dispatch_of_reads .nothing, runIn_getUser, nameOf_named]
  rfl

theorem runIn_dispatch_get_of_none (h : w.state.get? name = none) :
    (dispatch .standard (.withoutBody .get getUser) (named req name)).runIn w =
      (.ok (ApiError.notFound ("No user named " ++ name)).response, w) := by
  rw [runIn_dispatch_get, h]
  rfl

theorem runIn_dispatch_get_of_some {u : User} {chosen : Selected} (h : w.state.get? name = some u)
    (hchosen : Registry.standard.selectWriter (req.headers.text? "accept") = .ok (.ok chosen)) :
    ∃ bytes, chosen.provider.decodeAs User bytes = .ok u ∧
      (dispatch .standard (.withoutBody .get getUser) (named req name)).runIn w =
        (.ok ⟨200, Headers.empty.set contentType chosen.mediaType, bytes⟩, w) := by
  obtain ⟨hprovider, -⟩ := of_selectWriter hchosen
  obtain ⟨bytes, hencode, hdecode⟩ := u.exists_encode hprovider
  refine ⟨bytes, hdecode, ?_⟩
  rw [runIn_dispatch_get, h]
  exact runIn_conclude_ok hchosen hencode w

end AppServer.Demo
