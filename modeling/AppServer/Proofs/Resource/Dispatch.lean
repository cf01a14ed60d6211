import AppServer.Proofs.Pipeline.Tally
import AppServer.Proofs.Resource.Steps
import Mathlib.Logic.ExistsUnique

/-!
# A resource request ends at the first step that fails

The service of a verb does what the relation between requests and endings says, whatever the method
does. To count the calls of a method, it is run beside a list in which it notes each of them; nothing
else of the service writes there.
-/

namespace AppServer.Resource

open AppServer.Data AppServer.Http AppServer.Negotiation AppServer.Pipeline

variable {σ β : Type} {registry : Registry} {req : Request} {takes : Takes β} {body : β}

/-! ## After the method has returned -/

/-- What is done with what a method returned. -/
def conclude (registry : Registry) (accept : Option String) : Outcome → Act σ Response
  | .error d => domainError d
  | .ok entity => respond registry accept entity

/-- After a method has returned, only the log changes, and in a way that depends on nothing else. -/
theorem Concludes.runIn {accept : Option String} {outcome : Outcome} {ending : Ending}
    (h : Concludes registry accept outcome ending) :
    ∃ events : List Event, ∀ {σ : Type} (w : World σ),
      (conclude registry accept outcome).runIn w =
        (ending.outcome, { w with log := w.log ++ events }) := by
  cases h with
  | domain d =>
      cases d with
      | api e =>
          cases hdetail : e.internal with
          | none =>
              refine ⟨[], fun w => ?_⟩
              simp only [conclude, domainError, hdetail, List.append_nil]
              rfl
          | some detail =>
              refine ⟨[.resourceError e.status detail], fun w => ?_⟩
              simp only [conclude, domainError, hdetail]
              rfl
      | other text => exact ⟨[.methodFailed text], fun w => rfl⟩
  | undecided raised =>
      refine ⟨[], fun w => ?_⟩
      rw [conclude, respond, raised, List.append_nil]
      rfl
  | noWriter failed =>
      refine ⟨[], fun w => ?_⟩
      rw [conclude, respond, failed, List.append_nil]
      rfl
  | @unencodable _ chosen e selected failed =>
      refine ⟨[.encodingFailed chosen.provider.name e.message], fun w => ?_⟩
      simp only [conclude, respond, selected, failed]
      rfl
  | written selected encoded visible =>
      refine ⟨[], fun w => ?_⟩
      simp only [conclude, respond, selected, encoded, entityResponse,
        if_pos (List.all_eq_true.mpr visible), List.append_nil]
      rfl
  | @invalid _ chosen _ selected encoded hidden =>
      have hnot : ¬ chosen.mediaType.toUTF8.toList.all isVisibleByte = true := by
        simpa using hidden
      refine ⟨[], fun w => ?_⟩
      simp only [conclude, respond, selected, encoded, entityResponse, if_neg hnot,
        List.append_nil]
      rfl

theorem state_conclude (accept : Option String) (outcome : Outcome) (w : World σ) :
    ((conclude registry accept outcome).runIn w).2.state = w.state := by
  obtain ⟨ending, hconcludes⟩ := exists_concludes registry accept outcome
  obtain ⟨events, hrun⟩ := hconcludes.runIn
  rw [hrun]

/-! ## Up to the call -/

/-- What is done with what a verb call gives. -/
def answer (registry : Registry) (accept : Option String) : Except Failure Value → Act σ Response
  | .error (.decode e) => do
    Act.log (.bodyRejected e.message)
    return (ApiError.badRequest "Malformed request body").response
  | .error (.domain e) => domainError e
  | .ok entity => respond registry accept entity

theorem dispatch_of_bodyInput {verb : Verb σ} {input : Option BodyInput}
    (h : bodyInput registry verb req = .ok input) :
    dispatch registry verb req =
      verb.call ⟨req.toHead, req.params⟩ input >>=
        answer registry (req.headers.text? "accept") := by
  rw [dispatch, h]
  rfl

theorem dispatch_of_bodyInput_error {verb : Verb σ} {e : NegotiationError}
    (h : bodyInput registry verb req = .error e) :
    dispatch registry verb req = pure e.apiError.response := by
  rw [dispatch, h]

theorem bind_answer (x : Act σ Outcome) (accept : Option String) :
    (do return (← x).mapError Failure.domain) >>= answer registry accept =
      x >>= conclude registry accept := by
  rw [bind_assoc]
  congr 1
  funext outcome
  cases outcome <;> rfl

section Dispatch

variable (registry : Registry) (method : Method)

theorem bodyInput_value [OfValue β] (act : Context → β → Act σ Outcome) {declared : Option String}
    (declares : Declares req.headers declared) :
    bodyInput registry ((Takes.value β).verb method act) req =
      (registry.selectReader declared).map fun reader =>
        some ⟨reader, req.body.getD .empty⟩ := by
  have hsteps : bodyInput registry ((Takes.value β).verb method act) req =
      contentType? req.headers >>= fun declared => registry.selectReader declared >>= fun reader =>
        .ok (some ⟨reader, req.body.getD .empty⟩) := rfl
  rw [hsteps, contentType?_eq_ok_iff.mpr declares]
  show (registry.selectReader declared >>= fun reader => _) = _
  cases registry.selectReader declared <;> rfl

theorem bodyInput_of_hidden [OfValue β] (act : Context → β → Act σ Outcome) {value : ByteArray}
    (found : req.headers.first? contentType = some value)
    (hidden : ∃ b ∈ value.toList, isVisibleByte b = false) :
    bodyInput registry ((Takes.value β).verb method act) req =
      .error (.unsupportedMediaType (Text.lossy value)) := by
  unfold bodyInput
  rw [contentType?_of_hidden found hidden]
  rfl

/-- A request that is read gets what is made of the outcome of the method. -/
theorem dispatch_of_reads (act : Context → β → Act σ Outcome)
    (h : Reads registry req takes body) :
    dispatch registry (takes.verb method act) req =
      act ⟨req.toHead, req.params⟩ body >>= conclude registry (req.headers.text? "accept") := by
  cases h with
  | nothing =>
      have hinput : bodyInput registry (Takes.nothing.verb method act) req = .ok none := rfl
      rw [dispatch_of_bodyInput hinput]
      exact bind_answer _ _
  | @value _ _ _ reader _ declares chosen decoded =>
      have hinput := bodyInput_value registry method act declares
      rw [chosen] at hinput
      have hcall : ((Takes.value β).verb method act).call ⟨req.toHead, req.params⟩
          (some ⟨reader, req.body.getD .empty⟩) =
          do return (← act ⟨req.toHead, req.params⟩ body).mapError .domain := by
        simp only [Takes.verb, Verb.withBody, decoded]
      rw [dispatch_of_bodyInput hinput, hcall]
      exact bind_answer _ _

/-- A refused request leaves the application alone: the method is not called. -/
theorem dispatch_of_refused {step : Step} {e : ApiError} (h : Refused registry req takes step e) :
    ∃ events : List Event, ∀ {σ : Type} (act : Context → β → Act σ Outcome) (w : World σ),
      (dispatch registry (takes.verb method act) req).runIn w =
        (.ok e.response, { w with log := w.log ++ events }) := by
  cases h with
  | @unreadable _ value found hidden =>
      refine ⟨[], fun act w => ?_⟩
      rw [dispatch_of_bodyInput_error (bodyInput_of_hidden registry method act found hidden),
        List.append_nil]
      rfl
  | @noReader _ _ e declares failed =>
      refine ⟨[], fun act w => ?_⟩
      have hinput := bodyInput_value registry method act declares
      rw [failed] at hinput
      rw [dispatch_of_bodyInput_error hinput, List.append_nil]
      rfl
  | @malformed _ _ reader e declares chosen failed =>
      refine ⟨[.bodyRejected e.message], fun act w => ?_⟩
      have hinput := bodyInput_value registry method act declares
      rw [chosen] at hinput
      have hcall : ((Takes.value β).verb method act).call ⟨req.toHead, req.params⟩
          (some ⟨reader, req.body.getD .empty⟩) = pure (.error (.decode e)) := by
        simp only [Takes.verb, Verb.withBody, failed]
      rw [dispatch_of_bodyInput hinput, hcall]
      rfl

end Dispatch

/-! ## Counting the calls -/

/-- A method that notes every call with what it is called with. -/
def noting (act : Context → β → Act σ Outcome) :
    Context → β → Act (Tallied σ (Context × β)) Outcome :=
  fun ctx body => do
    Act.note (ctx, body)
    Act.beside (act ctx body)

theorem runIn_noting (act : Context → β → Act σ Outcome) (ctx : Context) (body : β) (w : World σ)
    (notes : List (Context × β)) :
    (noting act ctx body).runIn (w.tally notes) =
      (((act ctx body).runIn w).1, ((act ctx body).runIn w).2.tally (notes ++ [(ctx, body)])) := by
  rw [noting, Act.runIn_note_bind]
  exact Act.runIn_beside _ w _

/-- What comes after the method does not see the notes. -/
theorem runIn_conclude_tally {ι : Type} (accept : Option String) (outcome : Outcome) (w : World σ)
    (notes : List ι) :
    (conclude registry accept outcome).runIn (w.tally notes) =
      (((conclude registry accept outcome).runIn w).1,
        ((conclude registry accept outcome).runIn w).2.tally notes) := by
  obtain ⟨ending, hconcludes⟩ := exists_concludes registry accept outcome
  obtain ⟨events, hrun⟩ := hconcludes.runIn
  rw [hrun, hrun]
  rfl

section Runs

variable {method : Method} {act : Context → β → Act σ Outcome} {w : World σ}

theorem runIn_dispatch_of_reads (h : Reads registry req takes body) :
    (dispatch registry (takes.verb method act) req).runIn w =
      match (act ⟨req.toHead, req.params⟩ body).runIn w with
      | (.ok outcome, w') => (conclude registry (req.headers.text? "accept") outcome).runIn w'
      | (.error p, w') => (.error p, w') := by
  rw [dispatch_of_reads registry method act h, Act.runIn_bind]
  -- the two matches differ in nothing but their names
  rcases (act ⟨req.toHead, req.params⟩ body).runIn w with ⟨r, w'⟩
  cases r <;> rfl

/-- What a request leaves is what its method leaves. -/
theorem state_dispatch_of_reads (h : Reads registry req takes body) :
    ((dispatch registry (takes.verb method act) req).runIn w).2.state =
      ((act ⟨req.toHead, req.params⟩ body).runIn w).2.state := by
  rw [runIn_dispatch_of_reads h]
  rcases (act ⟨req.toHead, req.params⟩ body).runIn w with ⟨r, w'⟩
  cases r with
  | error p => rfl
  | ok outcome => exact state_conclude _ _ _

theorem state_dispatch_of_refused {step : Step} {e : ApiError}
    (h : Refused registry req takes step e) :
    ((dispatch registry (takes.verb method act) req).runIn w).2.state = w.state := by
  obtain ⟨events, hrun⟩ := dispatch_of_refused registry method h
  rw [hrun act w]

/-- The outcome of a request is that of its ending. -/
theorem Ends.outcome_eq {ending : Ending} (h : Ends registry takes act req w ending) :
    ((dispatch registry (takes.verb method act) req).runIn w).1 = ending.outcome := by
  cases h with
  | refused hrefused =>
      obtain ⟨events, hrun⟩ := dispatch_of_refused registry method hrefused
      rw [hrun act w]
      rfl
  | @panicked body p hreads hraised =>
      rw [runIn_dispatch_of_reads hreads]
      rcases hact : (act ⟨req.toHead, req.params⟩ body).runIn w with ⟨r, w'⟩
      rw [hact] at hraised
      obtain rfl : r = .error p := hraised
      rfl
  | @returned body outcome ending hreads hreturned hconcludes =>
      obtain ⟨events, hrun⟩ := hconcludes.runIn
      rw [runIn_dispatch_of_reads hreads]
      rcases hact : (act ⟨req.toHead, req.params⟩ body).runIn w with ⟨r, w'⟩
      rw [hact] at hreturned
      obtain rfl : r = .ok outcome := hreturned
      show ((conclude _ _ outcome).runIn w').1 = _
      rw [hrun w']

/-- Nothing but the method panics with more than a text. -/
theorem dropped_of_dispatch
    (hact : ∀ ctx body (w : World σ) p, ((act ctx body).runIn w).1 = .error p → p.dropped = none)
    {p : Payload} (h : ((dispatch registry (takes.verb method act) req).runIn w).1 = .error p) :
    p.dropped = none := by
  obtain ⟨ending, hends⟩ := exists_ends registry takes act req w
  rw [hends.outcome_eq] at h
  cases hends with
  | refused => cases h
  | panicked reads raised =>
      obtain rfl := Except.error.inj h
      exact hact _ _ _ _ raised
  | returned reads returned concludes =>
      cases concludes with
      | domain | noWriter | unencodable | written => cases h
      | undecided raised =>
          obtain rfl := Except.error.inj h
          exact Registry.dropped_of_selectWriter raised
      | invalid =>
          obtain rfl := Except.error.inj h
          rfl

/-- A request that is read calls its method once, and goes on as without the notes. -/
theorem runIn_noting_of_reads (h : Reads registry req takes body)
    (notes : List (Context × β)) :
    (dispatch registry (takes.verb method (noting act)) req).runIn (w.tally notes) =
      (((dispatch registry (takes.verb method act) req).runIn w).1,
        ((dispatch registry (takes.verb method act) req).runIn w).2.tally
          (notes ++ [(⟨req.toHead, req.params⟩, body)])) := by
  rw [runIn_dispatch_of_reads h, runIn_dispatch_of_reads h, runIn_noting]
  rcases (act ⟨req.toHead, req.params⟩ body).runIn w with ⟨r, w'⟩
  cases r with
  | error p => rfl
  | ok outcome => exact runIn_conclude_tally _ outcome w' _

end Runs

end AppServer.Resource
