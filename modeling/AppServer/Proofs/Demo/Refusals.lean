import AppServer.Proofs.Demo.Refinement
import AppServer.Proofs.Negotiation.NoPreference

/-!
# Refusals of the demo

A writer is chosen after the method has returned. A request that stores a user, or removes one, is
therefore carried out even if nothing can be written that the client accepts, and then answered with
406. Every other request that is refused, at whatever step, leaves the directory as it was, if only
the ranges in its `Accept` field can be put in order.
-/

namespace AppServer.Demo

open AppServer.Data AppServer.Http AppServer.Negotiation AppServer.Pipeline AppServer.Resource

/-- The client accepts nothing that the demo writes. -/
def Unwritable (accept : Option String) : Prop :=
  ∃ raw, Registry.standard.selectWriter accept = .ok (.error (.notAcceptable raw))

/-- The ranges that the client lists cannot be put in order. -/
def Unordered (accept : Option String) : Prop :=
  ∃ header p, accept = some header ∧ Accept.parse header = .error p

/-- A request asks for something, which is done. -/
structure Done (server : Server Directory) (users : Users) (req : Request) (order : Order) :
    Prop where
  asks : Asks server ⟨.application, req⟩ order
  done : ∃ entity, Returns users order (.ok entity)

/-- What a request asks for is done, and then nothing can be written for its client. -/
structure Late (server : Server Directory) (users : Users) (req : Request) (order : Order) : Prop
    extends Done server users req order where
  unwritable : Unwritable (req.headers.text? "accept")

variable {config : Config} {host : Host} {server : Server Directory} {req : Request} {order : Order}

/-! ## Writing an entity -/

/-- The built-in providers write something by default, so only what the client accepts is in the way
of a writer. -/
theorem unwritable_of_error {accept : Option String} {e : NegotiationError}
    (h : Registry.standard.selectWriter accept = .ok (.error e)) : Unwritable accept := by
  have hdefault : ∀ {accept}, NoPreference accept →
      Registry.standard.selectWriter accept = .ok (.ok ⟨.json, applicationJson⟩) := by
    intro accept hnone
    rw [Registry.selectWriter_of_noPreference hnone]
    rfl
  cases accept with
  | none =>
      rw [hdefault .absent] at h
      cases h
  | some header =>
      by_cases helements : Accept.elements header = []
      · rw [hdefault (NoPreference.of_elements helements)] at h
        cases h
      · refine ⟨Text.trimmed header, ?_⟩
        have hproviders : Registry.standard.providers ≠ [] := List.cons_ne_nil _ _
        rcases Accept.parse_cases header with ⟨listing, hparse, -⟩ | ⟨hparse, -⟩
        · rw [Registry.selectWriter_eq_scan hproviders helements hparse, Except.ok.injEq] at h
          rw [Registry.selectWriter_eq_scan hproviders helements hparse, Except.ok.injEq]
          split at h
          · cases h
          · rfl
        · rw [Registry.selectWriter_of_panic hproviders hparse] at h
          cases h

/-- What becomes of an entity that both providers write: 200, or 406 if the client accepts nothing of
what they write, or neither if the ranges that it lists cannot be put in order. -/
inductive Concluded (accept : Option String) (entity : Value) : Prop
  | written (response : Response) (status : response.status = 200) (writable : ¬ Unwritable accept)
      (run : ∀ w : World Directory,
        (conclude .standard accept (.ok entity)).runIn w = (.ok response, w))
  | refused (response : Response) (status : response.status = 406) (unwritable : Unwritable accept)
      (run : ∀ w : World Directory,
        (conclude .standard accept (.ok entity)).runIn w = (.ok response, w))
  | raised (unordered : Unordered accept) (writable : ¬ Unwritable accept)

theorem concluded {entity : Value}
    (hentity : ∀ p ∈ Registry.standard.providers, ∃ bytes, p.encode entity = .ok bytes)
    (accept : Option String) : Concluded accept entity := by
  cases hwriter : Registry.standard.selectWriter accept with
  | error p =>
      obtain ⟨-, header, haccept, hparse⟩ := Registry.selectWriter_eq_error_iff.mp hwriter
      refine .raised ⟨header, p, haccept, hparse⟩ ?_
      rintro ⟨raw, hraw⟩
      rw [hwriter] at hraw
      cases hraw
  | ok selection =>
      cases selection with
      | error e =>
          obtain ⟨raw, hraw⟩ := unwritable_of_error hwriter
          refine .refused (NegotiationError.notAcceptable raw).apiError.response rfl ⟨raw, hraw⟩ ?_
          intro w
          rw [conclude, respond, hraw]
          rfl
      | ok chosen =>
          obtain ⟨hprovider, -⟩ := of_selectWriter hwriter
          obtain ⟨bytes, hbytes⟩ := hentity _ hprovider
          refine .written _ rfl ?_ (runIn_conclude_ok hwriter hbytes)
          rintro ⟨raw, hraw⟩
          rw [hwriter] at hraw
          cases hraw

/-! ## Requests that ask something -/

theorem Returns.exists_encode {users : Users} {entity : Value}
    (h : Returns users order (.ok entity)) :
    ∀ p ∈ Registry.standard.providers, ∃ bytes, p.encode entity = .ok bytes := by
  intro p hp
  cases h with
  | stored name email =>
      obtain ⟨bytes, hbytes, -⟩ := User.exists_encode ⟨name, email⟩ hp
      exact ⟨bytes, hbytes⟩
  | removed _ => exact Removed.exists_encode _ hp

theorem Returns.unique {users : Users} {outcome outcome' : Outcome}
    (h : Returns users order outcome) (h' : Returns users order outcome') : outcome = outcome' := by
  cases h with
  | stored =>
      cases h'
      rfl
  | removed found =>
      cases h' with
      | removed => rfl
      | missing none => exact absurd none found
  | missing none =>
      cases h' with
      | removed found => exact absurd none found
      | missing => rfl

/-- An order that finds nobody changes nothing. -/
theorem Returns.perform_of_error {d : Directory} {e : DomainError}
    (h : Returns d.get? order (.error e)) : order.perform d = d := by
  cases h with
  | missing none => exact Directory.remove_of_none none

section Built

variable (h : (blueprint config host).build.1 = .ok server)
include h

/-- A request that asks for something is refused if nothing can be written for its client or if
there is nobody to remove. -/
theorem serve_of_asks (hasks : Asks server ⟨.application, req⟩ order) (w : World Directory)
    {response : Response} (hserve : ((server.application.serve req).runIn w).1 = .ok response) :
    (Late server w.state.get? req order → response.status = 406) ∧
      (¬ Late server w.state.get? req order →
        (Done server w.state.get? req order → ¬ Unordered (req.headers.text? "accept")) →
        400 ≤ response.status → order.perform w.state = w.state) := by
  obtain ⟨outcome, handed, hreturns, hrun⟩ := runIn_serve_of_asks h hasks w
  rw [hrun] at hserve
  cases outcome with
  | error e =>
      refine ⟨fun hlate => ?_, fun _ _ _ => hreturns.perform_of_error⟩
      obtain ⟨entity, hdone⟩ := hlate.done
      cases hreturns.unique hdone
  | ok entity =>
      have hdone : Done server w.state.get? req order := ⟨hasks, entity, hreturns⟩
      cases concluded hreturns.exists_encode (req.headers.text? "accept") with
      | written answer hstatus hwritable hconclude =>
          rw [hconclude] at hserve
          obtain rfl : answer = response := Except.ok.inj hserve
          refine ⟨fun hlate => absurd hlate.unwritable hwritable, fun _ _ hrefused => ?_⟩
          omega
      | refused answer hstatus hunwritable hconclude =>
          rw [hconclude] at hserve
          obtain rfl : answer = response := Except.ok.inj hserve
          exact ⟨fun _ => hstatus, fun hnot => absurd ⟨hdone, hunwritable⟩ hnot⟩
      | raised hunordered hwritable =>
          exact ⟨fun hlate => absurd hlate.unwritable hwritable,
            fun _ hordered => absurd hunordered (hordered hdone)⟩

end Built

/-- With every valid configuration the application of the demo answers every request. One that is
carried out before it turns out that nothing can be written for its client is answered with 406. No
other request changes the directory if it is answered with a status of 400 or above, save perhaps one
that is carried out for a client whose ranges cannot be put in order. -/
theorem refused_changes_nothing_unless_late {config valid : Config}
    (hvalid : config.validate = .ok valid) (host : Host) :
    ∃ server, (blueprint config host).build.1 = .ok server ∧
      ∀ (req : Request) (w : World Directory), ∃ response : Response,
        let run := (server.application.serve req).runIn w
        run.1 = .ok response ∧
        (∀ order, Late server w.state.get? req order →
          response.status = 406 ∧ run.2.state = order.perform w.state) ∧
        ((∀ order, ¬ Late server w.state.get? req order) →
          (∀ order, Done server w.state.get? req order →
            ¬ Unordered (req.headers.text? "accept")) →
          400 ≤ response.status → run.2.state = w.state) := by
  obtain ⟨server, hserver⟩ := exists_build host hvalid
  obtain ⟨-, happlication, -⟩ := Blueprint.build_eq_ok_iff.mp hserver
  refine ⟨server, hserver, ?_⟩
  intro req w
  obtain ⟨response, hresponse⟩ := exists_response_serve happlication req w
  refine ⟨response, hresponse, ?_, ?_⟩
  · intro order hlate
    exact ⟨(serve_of_asks hserver hlate.asks w hresponse).1 hlate,
      state_serve_of_asks hserver hlate.asks w⟩
  · intro hnot hordered hrefused
    by_cases hasks : ∃ order, Asks server ⟨.application, req⟩ order
    · obtain ⟨order, hasks⟩ := hasks
      have hstate : ((server.application.serve req).runIn w).2.state = order.perform w.state :=
        state_serve_of_asks hserver hasks w
      rw [hstate]
      exact (serve_of_asks hserver hasks w hresponse).2 (hnot order) (hordered order) hrefused
    · exact state_serve_of_not_asks hserver (not_exists.mp hasks) w

/-- A user is stored by a client that accepts nothing but PDF. -/
def postAdaForPdf : Request :=
  { postAda with headers := Headers.empty.set "accept" "application/pdf" }

theorem late_postAdaForPdf {users : Users} (h : server.application.mount = "/application") :
    Late server users postAdaForPdf (.store "ada" "ada@example.org") := by
  have haccept : postAdaForPdf.headers.text? "accept" = some "application/pdf" := by
    have hvisible : ∀ b ∈ "application/pdf".toUTF8.toList, isVisibleByte b = true := by
      rw [Text.toList_toUTF8]
      exact List.all_eq_true.mp rfl
    have hfirst : postAdaForPdf.headers.first? "accept" = some "application/pdf".toUTF8 := rfl
    rw [Headers.text?, hfirst, Option.bind_some]
    exact visibleText?_eq_some_iff.mpr ⟨rfl, hvisible⟩
  refine ⟨⟨asks_postAda_of_untyped rfl h, ⟨_, .stored _ _⟩⟩, "application/pdf", ?_⟩
  rw [haccept]
  rfl

theorem mount_of_oneListener (h : (blueprint oneListener host).build.1 = .ok server) :
    server.application.mount = "/application" := by
  have hvalid : oneListener.validate = .ok oneListener.normalized := by rfl
  obtain ⟨hconfig, hmounted⟩ := Blueprint.mounted_of_build h
  have hnormalized : server.config = oneListener.normalized :=
    Except.ok.inj (hconfig.symm.trans hvalid)
  rw [hnormalized] at hmounted
  exact hmounted.application

/-- The user is stored, and the client is told that nothing can be written for it. -/
theorem refused_postAdaForPdf :
    oneListener.validate = .ok oneListener.normalized ∧
    ∃ server, (blueprint oneListener Blueprint.host).build.1 = .ok server ∧
      ∃ response : Response,
        let run := (server.application.serve postAdaForPdf).runIn ⟨.empty, []⟩
        run.1 = .ok response ∧ response.status = 406 ∧
          run.2.state = ⟨[("ada", ⟨"ada", "ada@example.org"⟩)]⟩ := by
  have hvalid : oneListener.validate = .ok oneListener.normalized := by rfl
  obtain ⟨server, hserver, hall⟩ := refused_changes_nothing_unless_late hvalid Blueprint.host
  obtain ⟨response, hresponse, hlate, -⟩ := hall postAdaForPdf ⟨.empty, []⟩
  obtain ⟨hstatus, hstate⟩ := hlate _ (late_postAdaForPdf (mount_of_oneListener hserver))
  exact ⟨hvalid, server, hserver, response, hresponse, hstatus, hstate⟩

/-- A refused request may change the directory. -/
theorem not_refused_changes_nothing :
    ¬ ∀ (config valid : Config) (host : Host) (server : Server Directory) (req : Request)
        (w : World Directory) (response : Response),
      config.validate = .ok valid → (blueprint config host).build.1 = .ok server →
      ((server.application.serve req).runIn w).1 = .ok response → 400 ≤ response.status →
        ((server.application.serve req).runIn w).2.state = w.state := by
  intro hclaim
  have hvalid : oneListener.validate = .ok oneListener.normalized := by rfl
  obtain ⟨server, hserver⟩ := exists_build Blueprint.host hvalid
  have hlate : Late server Directory.empty.get? postAdaForPdf (.store "ada" "ada@example.org") :=
    late_postAdaForPdf (mount_of_oneListener hserver)
  obtain ⟨-, happlication, -⟩ := Blueprint.build_eq_ok_iff.mp hserver
  obtain ⟨response, hresponse⟩ := exists_response_serve happlication postAdaForPdf ⟨.empty, []⟩
  obtain ⟨hstatus, -⟩ := serve_of_asks hserver hlate.asks ⟨.empty, []⟩ hresponse
  have hrefused : 400 ≤ response.status := by
    rw [hstatus hlate]
    decide
  have hstored := state_serve_of_asks hserver hlate.asks ⟨.empty, []⟩
  have hsame := hclaim oneListener _ Blueprint.host server postAdaForPdf ⟨.empty, []⟩ response
    hvalid hserver hresponse hrefused
  have hempty : (Order.store "ada" "ada@example.org").perform Directory.empty = Directory.empty :=
    hstored.symm.trans hsame
  exact absurd hempty (by decide)

end AppServer.Demo
