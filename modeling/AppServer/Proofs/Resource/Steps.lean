import AppServer.Negotiation.Builtin
import AppServer.Proofs.Http.HeaderValue
import AppServer.Proofs.Negotiation.Offers
import AppServer.Proofs.Negotiation.Writer
import AppServer.Resource.Dispatch

/-!
# The steps of a resource request

A request to a verb is either read, as a value of what the method takes, or refused before the
method is called. What the method returns is written for the client, or the error of the first step
that fails is. How a request ends is told here as a relation, without reference to the order in which
the service works; every request ends in exactly one way.
-/

namespace AppServer.Resource

open AppServer.Data AppServer.Http AppServer.Negotiation AppServer.Pipeline

variable {σ β : Type}

/-- What a method takes of a body: nothing, or a value of a type. -/
inductive Takes : Type → Type 1
  | nothing : Takes Unit
  | value (β : Type) [OfValue β] : Takes β

/-- The verb that calls a method with what it takes. There are no other verbs. -/
def Takes.verb (method : Method) : Takes β → (Context → β → Act σ Outcome) → Verb σ
  | .nothing, act => .withoutBody method fun ctx => act ctx ()
  | @Takes.value _ _, act => .withBody method act

/-! ## Reading -/

/-- What some header fields say of the media type of a body, if it can be read at all. -/
inductive Declares (h : Headers) : Option String → Prop
  | nothing (absent : h.first? contentType = none) : Declares h none
  | type {text : String} (found : h.first? contentType = some text.toUTF8)
      (visible : ∀ b ∈ text.toUTF8.toList, isVisibleByte b = true) : Declares h (some text)

/-- A request holds what a method takes. A body that was taken counts as empty. -/
inductive Reads (registry : Registry) (req : Request) : {β : Type} → Takes β → β → Prop
  | nothing : Reads registry req .nothing ()
  | value {β : Type} [OfValue β] {declared : Option String} {reader : Provider} {body : β}
      (declares : Declares req.headers declared)
      (chosen : registry.selectReader declared = .ok reader)
      (decoded : reader.decodeAs β (req.body.getD .empty) = .ok body) :
      Reads registry req (.value β) body

/-- The steps that may fail. -/
inductive Step
  | reader
  | body
  | method
  | writer
  | encoding
deriving DecidableEq, Repr

/-- A request does not hold what a method takes: the step that fails, and its error. -/
inductive Refused (registry : Registry) (req : Request) :
    {β : Type} → Takes β → Step → ApiError → Prop
  | unreadable {β : Type} [OfValue β] {value : ByteArray}
      (found : req.headers.first? contentType = some value)
      (hidden : ∃ b ∈ value.toList, isVisibleByte b = false) :
      Refused registry req (.value β) .reader
        (.unsupportedMediaType ("Unsupported content type: " ++ Text.lossy value))
  | noReader {β : Type} [OfValue β] {declared : Option String} {e : NegotiationError}
      (declares : Declares req.headers declared)
      (failed : registry.selectReader declared = .error e) :
      Refused registry req (.value β) .reader e.apiError
  | malformed {β : Type} [OfValue β] {declared : Option String} {reader : Provider}
      {e : ProviderError} (declares : Declares req.headers declared)
      (chosen : registry.selectReader declared = .ok reader)
      (failed : reader.decodeAs β (req.body.getD .empty) = .error e) :
      Refused registry req (.value β) .body (.badRequest "Malformed request body")

/-! ## Writing -/

/-- What a client is shown of a domain error. -/
def DomainError.shown : DomainError → ApiError
  | .api e => e
  | .other _ => .internalError "Internal Server Error"

/-- How a request ends. -/
inductive Ending
  | written (chosen : Selected) (bytes : ByteArray)
  | failed (step : Step) (e : ApiError)
  /-- Nothing is answered; the panic goes on. -/
  | panicked (p : Payload)

/-- What the service of a verb makes of an ending. -/
def Ending.outcome : Ending → Except Payload Response
  | .written chosen bytes =>
    .ok ⟨200, Headers.empty.set contentType chosen.mediaType, bytes⟩
  | .failed _ e => .ok e.response
  | .panicked p => .error p

/-- How a request ends whose method returned. -/
inductive Concludes (registry : Registry) (accept : Option String) : Outcome → Ending → Prop
  | domain (d : DomainError) : Concludes registry accept (.error d) (.failed .method d.shown)
  /-- Reading the `Accept` value panics. -/
  | undecided {entity : Value} {p : Payload} (raised : registry.selectWriter accept = .error p) :
      Concludes registry accept (.ok entity) (.panicked p)
  | noWriter {entity : Value} {e : NegotiationError}
      (failed : registry.selectWriter accept = .ok (.error e)) :
      Concludes registry accept (.ok entity) (.failed .writer e.apiError)
  | unencodable {entity : Value} {chosen : Selected} {e : ProviderError}
      (selected : registry.selectWriter accept = .ok (.ok chosen))
      (failed : chosen.provider.encode entity = .error e) :
      Concludes registry accept (.ok entity)
        (.failed .encoding (.internalError "Internal Server Error"))
  | written {entity : Value} {chosen : Selected} {bytes : ByteArray}
      (selected : registry.selectWriter accept = .ok (.ok chosen))
      (encoded : chosen.provider.encode entity = .ok bytes)
      (visible : ∀ b ∈ chosen.mediaType.toUTF8.toList, isVisibleByte b = true) :
      Concludes registry accept (.ok entity) (.written chosen bytes)
  /-- The media type is none that a header field may hold: the provider breaks its contract. -/
  | invalid {entity : Value} {chosen : Selected} {bytes : ByteArray}
      (selected : registry.selectWriter accept = .ok (.ok chosen))
      (encoded : chosen.provider.encode entity = .ok bytes)
      (hidden : ∃ b ∈ chosen.mediaType.toUTF8.toList, isVisibleByte b = false) :
      Concludes registry accept (.ok entity) (.panicked (.text invalidField))

/-- How a request to a verb ends in a world. -/
inductive Ends (registry : Registry) (takes : Takes β) (act : Context → β → Act σ Outcome)
    (req : Request) (w : World σ) : Ending → Prop
  | refused {step : Step} {e : ApiError} (h : Refused registry req takes step e) :
      Ends registry takes act req w (.failed step e)
  | panicked {body : β} {p : Payload} (reads : Reads registry req takes body)
      (raised : ((act ⟨req.toHead, req.params⟩ body).runIn w).1 = .error p) :
      Ends registry takes act req w (.panicked p)
  | returned {body : β} {outcome : Outcome} {ending : Ending}
      (reads : Reads registry req takes body)
      (returned : ((act ⟨req.toHead, req.params⟩ body).runIn w).1 = .ok outcome)
      (concludes : Concludes registry (req.headers.text? "accept") outcome ending) :
      Ends registry takes act req w ending

/-- The statuses that a step reports. A method reports the status of its own error. -/
def Step.Reports (registry : Registry) (e : ApiError) : Step → Prop
  | .reader => e.status = 415 ∨ (e.status = 500 ∧ registry.providers = [])
  | .body => e.status = 400
  | .method => True
  | .writer => e.status = 406 ∨ e.status = 500
  | .encoding => e.status = 500

variable {registry : Registry} {req : Request} {takes : Takes β} {body body' : β}

/-! ## What is read is read in one way -/

theorem contentType?_eq_ok_iff {h : Headers} {declared : Option String} :
    contentType? h = .ok declared ↔ Declares h declared := by
  constructor
  · intro heq
    unfold contentType? at heq
    split at heq
    · rename_i absent
      cases heq
      exact .nothing absent
    · rename_i value found
      split at heq
      · rename_i text htext
        cases heq
        obtain ⟨rfl, visible⟩ := visibleText?_eq_some_iff.mp htext
        exact .type found visible
      · cases heq
  · intro hdecl
    cases hdecl with
    | nothing absent => simp [contentType?, absent]
    | type found visible =>
        have htext := visibleText?_eq_some_iff.mpr ⟨rfl, visible⟩
        simp only [contentType?, found, htext]

theorem contentType?_of_hidden {h : Headers} {value : ByteArray}
    (found : h.first? contentType = some value)
    (hidden : ∃ b ∈ value.toList, isVisibleByte b = false) :
    contentType? h = .error (.unsupportedMediaType (Text.lossy value)) := by
  simp [contentType?, found, visibleText?_eq_none_iff.mpr hidden]

/-- A content type that cannot be read holds a byte that is not visible. -/
theorem hidden_of_contentType? {h : Headers} {e : NegotiationError}
    (heq : contentType? h = .error e) :
    ∃ value, h.first? contentType = some value ∧ (∃ b ∈ value.toList, isVisibleByte b = false) ∧
      e = .unsupportedMediaType (Text.lossy value) := by
  unfold contentType? at heq
  split at heq
  · cases heq
  · rename_i value found
    split at heq
    · cases heq
    · rename_i hnone
      cases heq
      exact ⟨value, found, visibleText?_eq_none_iff.mp hnone, rfl⟩

theorem Declares.unique {h : Headers} {declared declared' : Option String}
    (hd : Declares h declared) (hd' : Declares h declared') : declared = declared' := by
  rw [← contentType?_eq_ok_iff] at hd hd'
  exact Except.ok.inj (hd.symm.trans hd')

theorem Declares.congr {h h' : Headers} {declared : Option String}
    (hsame : h'.first? contentType = h.first? contentType) (hd : Declares h declared) :
    Declares h' declared := by
  cases hd with
  | nothing absent => exact .nothing (hsame.trans absent)
  | type found visible => exact .type (hsame.trans found) visible

theorem Declares.not_hidden {h : Headers} {declared : Option String} {value : ByteArray}
    (hd : Declares h declared) (found : h.first? contentType = some value) :
    ¬ ∃ b ∈ value.toList, isVisibleByte b = false := by
  intro hidden
  have heq := contentType?_of_hidden found hidden
  rw [contentType?_eq_ok_iff.mpr hd] at heq
  cases heq

/-- A request is read or refused. -/
theorem reads_or_refused (registry : Registry) (req : Request) (takes : Takes β) :
    (∃ body, Reads registry req takes body) ∨ ∃ step e, Refused registry req takes step e := by
  cases takes with
  | nothing => exact .inl ⟨(), .nothing⟩
  | value =>
      cases hcontent : contentType? req.headers with
      | error e =>
          obtain ⟨value, found, hidden, -⟩ := hidden_of_contentType? hcontent
          exact .inr ⟨_, _, .unreadable found hidden⟩
      | ok declared =>
          have declares := contentType?_eq_ok_iff.mp hcontent
          cases hreader : registry.selectReader declared with
          | error e => exact .inr ⟨_, _, .noReader declares hreader⟩
          | ok reader =>
              cases hbody : reader.decodeAs β (req.body.getD .empty) with
              | error e => exact .inr ⟨_, _, .malformed declares hreader hbody⟩
              | ok body => exact .inl ⟨body, .value declares hreader hbody⟩

theorem Reads.unique (h : Reads registry req takes body) (h' : Reads registry req takes body') :
    body = body' := by
  cases h with
  | nothing => rfl
  | value declares chosen decoded =>
      cases h' with
      | value declares' chosen' decoded' =>
          obtain rfl := declares.unique declares'
          obtain rfl := Except.ok.inj (chosen.symm.trans chosen')
          exact Except.ok.inj (decoded.symm.trans decoded')

theorem Reads.not_refused {step : Step} {e : ApiError} (h : Reads registry req takes body) :
    ¬ Refused registry req takes step e := by
  intro h'
  cases h with
  | nothing => cases h'
  | value declares chosen decoded =>
      cases h' with
      | unreadable found hidden => exact declares.not_hidden found hidden
      | noReader declares' failed =>
          obtain rfl := declares.unique declares'
          rw [chosen] at failed
          cases failed
      | malformed declares' chosen' failed =>
          obtain rfl := declares.unique declares'
          obtain rfl := Except.ok.inj (chosen.symm.trans chosen')
          rw [decoded] at failed
          cases failed

theorem Refused.unique {step step' : Step} {e e' : ApiError}
    (h : Refused registry req takes step e) (h' : Refused registry req takes step' e') :
    step = step' ∧ e = e' := by
  cases h with
  | unreadable found hidden =>
      cases h' with
      | unreadable found' hidden' =>
          obtain rfl := Option.some.inj (found.symm.trans found')
          exact ⟨rfl, rfl⟩
      | noReader declares' => exact absurd hidden (declares'.not_hidden found)
      | malformed declares' => exact absurd hidden (declares'.not_hidden found)
  | noReader declares failed =>
      cases h' with
      | unreadable found' hidden' => exact absurd hidden' (declares.not_hidden found')
      | noReader declares' failed' =>
          obtain rfl := declares.unique declares'
          obtain rfl := Except.error.inj (failed.symm.trans failed')
          exact ⟨rfl, rfl⟩
      | malformed declares' chosen' =>
          obtain rfl := declares.unique declares'
          rw [chosen'] at failed
          cases failed
  | malformed declares chosen =>
      cases h' with
      | unreadable found' hidden' => exact absurd hidden' (declares.not_hidden found')
      | noReader declares' failed' =>
          obtain rfl := declares.unique declares'
          rw [chosen] at failed'
          cases failed'
      | malformed => exact ⟨rfl, rfl⟩

/-! ## Every request ends in one way -/

theorem exists_concludes (registry : Registry) (accept : Option String) (outcome : Outcome) :
    ∃ ending, Concludes registry accept outcome ending := by
  cases outcome with
  | error d => exact ⟨_, .domain d⟩
  | ok entity =>
      rcases hwriter : registry.selectWriter accept with p | e | chosen
      · exact ⟨_, .undecided hwriter⟩
      · exact ⟨_, .noWriter hwriter⟩
      · cases hbytes : chosen.provider.encode entity with
        | error e => exact ⟨_, .unencodable hwriter hbytes⟩
        | ok bytes =>
            by_cases hvisible : ∀ b ∈ chosen.mediaType.toUTF8.toList, isVisibleByte b = true
            · exact ⟨_, .written hwriter hbytes hvisible⟩
            · exact ⟨_, .invalid hwriter hbytes (by simpa using hvisible)⟩

theorem Concludes.unique {accept : Option String} {outcome : Outcome} {ending ending' : Ending}
    (h : Concludes registry accept outcome ending)
    (h' : Concludes registry accept outcome ending') : ending = ending' := by
  cases h with
  | domain =>
      cases h'
      rfl
  | undecided raised =>
      cases h' with
      | undecided raised' => rw [Except.error.inj (raised.symm.trans raised')]
      | noWriter failed' => cases raised.symm.trans failed'
      | unencodable selected' => cases raised.symm.trans selected'
      | written selected' => cases raised.symm.trans selected'
      | invalid selected' => cases raised.symm.trans selected'
  | noWriter failed =>
      cases h' with
      | undecided raised' => cases failed.symm.trans raised'
      | noWriter failed' => rw [Except.error.inj (Except.ok.inj (failed.symm.trans failed'))]
      | unencodable selected' => cases failed.symm.trans selected'
      | written selected' => cases failed.symm.trans selected'
      | invalid selected' => cases failed.symm.trans selected'
  | unencodable selected failed =>
      cases h' with
      | undecided raised' => cases selected.symm.trans raised'
      | noWriter failed' => cases selected.symm.trans failed'
      | unencodable => rfl
      | written selected' encoded' =>
          obtain rfl := Except.ok.inj (Except.ok.inj (selected.symm.trans selected'))
          cases failed.symm.trans encoded'
      | invalid selected' encoded' =>
          obtain rfl := Except.ok.inj (Except.ok.inj (selected.symm.trans selected'))
          cases failed.symm.trans encoded'
  | written selected encoded visible =>
      cases h' with
      | undecided raised' => cases selected.symm.trans raised'
      | noWriter failed' => cases selected.symm.trans failed'
      | unencodable selected' failed' =>
          obtain rfl := Except.ok.inj (Except.ok.inj (selected.symm.trans selected'))
          cases encoded.symm.trans failed'
      | written selected' encoded' =>
          obtain rfl := Except.ok.inj (Except.ok.inj (selected.symm.trans selected'))
          rw [Except.ok.inj (encoded.symm.trans encoded')]
      | invalid selected' _ hidden' =>
          obtain rfl := Except.ok.inj (Except.ok.inj (selected.symm.trans selected'))
          obtain ⟨b, hb, hidden⟩ := hidden'
          exact absurd (visible b hb) (Bool.eq_false_iff.mp hidden)
  | invalid selected encoded hidden =>
      obtain ⟨b, hb, hidden⟩ := hidden
      cases h' with
      | undecided raised' => cases selected.symm.trans raised'
      | noWriter failed' => cases selected.symm.trans failed'
      | unencodable selected' failed' =>
          obtain rfl := Except.ok.inj (Except.ok.inj (selected.symm.trans selected'))
          cases encoded.symm.trans failed'
      | written selected' _ visible' =>
          obtain rfl := Except.ok.inj (Except.ok.inj (selected.symm.trans selected'))
          exact absurd (visible' b hb) (Bool.eq_false_iff.mp hidden)
      | invalid => rfl

theorem exists_ends (registry : Registry) (takes : Takes β) (act : Context → β → Act σ Outcome)
    (req : Request) (w : World σ) : ∃ ending, Ends registry takes act req w ending := by
  rcases reads_or_refused registry req takes with ⟨body, hreads⟩ | ⟨step, e, hrefused⟩
  · cases hrun : ((act ⟨req.toHead, req.params⟩ body).runIn w).1 with
    | error p => exact ⟨_, .panicked hreads hrun⟩
    | ok outcome =>
        obtain ⟨ending, hconcludes⟩ :=
          exists_concludes registry (req.headers.text? "accept") outcome
        exact ⟨ending, .returned hreads hrun hconcludes⟩
  · exact ⟨_, .refused hrefused⟩

theorem Ends.unique {act : Context → β → Act σ Outcome} {w : World σ} {ending ending' : Ending}
    (h : Ends registry takes act req w ending) (h' : Ends registry takes act req w ending') :
    ending = ending' := by
  cases h with
  | refused hrefused =>
      cases h' with
      | refused hrefused' =>
          obtain ⟨rfl, rfl⟩ := hrefused.unique hrefused'
          rfl
      | panicked hreads => exact absurd hrefused hreads.not_refused
      | returned hreads => exact absurd hrefused hreads.not_refused
  | panicked hreads hraised =>
      cases h' with
      | refused hrefused => exact absurd hrefused hreads.not_refused
      | panicked hreads' hraised' =>
          obtain rfl := hreads.unique hreads'
          rw [Except.error.inj (hraised.symm.trans hraised')]
      | returned hreads' hreturned =>
          obtain rfl := hreads.unique hreads'
          rw [hraised] at hreturned
          cases hreturned
  | returned hreads hreturned hconcludes =>
      cases h' with
      | refused hrefused => exact absurd hrefused hreads.not_refused
      | panicked hreads' hraised =>
          obtain rfl := hreads.unique hreads'
          rw [hreturned] at hraised
          cases hraised
      | returned hreads' hreturned' hconcludes' =>
          obtain rfl := hreads.unique hreads'
          obtain rfl := Except.ok.inj (hreturned.symm.trans hreturned')
          exact hconcludes.unique hconcludes'

/-! ## The statuses of the steps -/

/-- Without providers nothing is read; otherwise only a declared type is refused. -/
theorem status_of_selectReader {declared : Option String} {e : NegotiationError}
    (h : registry.selectReader declared = .error e) :
    Step.Reports registry e.apiError .reader := by
  unfold Registry.selectReader at h
  split at h
  · rename_i hnil
    cases h
    exact .inr ⟨rfl, hnil⟩
  · split at h
    · cases h
    · split at h
      · cases h
      · split at h
        · cases h
        · cases h
          exact .inl rfl

theorem status_defaultOf {p : Provider} {e : NegotiationError}
    (h : Registry.defaultOf p = .error e) : Step.Reports registry e.apiError .writer := by
  unfold Registry.defaultOf at h
  split at h
  · cases h
    exact .inr rfl
  · cases h

theorem status_of_selectWriter {accept : Option String} {e : NegotiationError}
    (h : registry.selectWriter accept = .ok (.error e)) :
    Step.Reports registry e.apiError .writer := by
  unfold Registry.selectWriter at h
  split at h
  · cases h
    exact .inr rfl
  · split at h
    · exact status_defaultOf (Except.ok.inj h)
    · rename_i raw _
      split at h
      · exact status_defaultOf (Except.ok.inj h)
      · cases hparse : Accept.parse raw with
        | error p => simp [hparse, Bind.bind, Except.bind] at h
        | ok accept =>
            simp only [hparse, Bind.bind, Except.bind] at h
            split at h
            · exact status_defaultOf (Except.ok.inj h)
            · split at h
              · cases h
              · cases h
                exact .inl rfl

theorem Refused.reports {step : Step} {e : ApiError} (h : Refused registry req takes step e) :
    step.Reports registry e := by
  cases h with
  | unreadable => exact .inl rfl
  | noReader _ failed => exact status_of_selectReader failed
  | malformed => exact rfl

theorem Concludes.reports {accept : Option String} {outcome : Outcome} {step : Step} {e : ApiError}
    (h : Concludes registry accept outcome (.failed step e)) : step.Reports registry e := by
  cases h with
  | domain => trivial
  | noWriter failed => exact status_of_selectWriter failed
  | unencodable => exact rfl

theorem Ends.reports {act : Context → β → Act σ Outcome} {w : World σ} {step : Step} {e : ApiError}
    (h : Ends registry takes act req w (.failed step e)) : step.Reports registry e := by
  cases h with
  | refused hrefused => exact hrefused.reports
  | returned _ _ hconcludes => exact hconcludes.reports

/-! ## The media type of a response -/

/-- Providers whose media types can stand in a header field. -/
def Sendable (registry : Registry) : Prop :=
  ∀ p ∈ registry.providers, ∀ t ∈ p.produces, ∀ b ∈ t.toUTF8.toList, isVisibleByte b = true

theorem sendable_standard : Sendable .standard := by
  have hall : ∀ p ∈ Registry.standard.providers, ∀ t ∈ p.produces,
      (Text.utf8 t.toList).all isVisibleByte = true := by decide
  intro p hp t ht
  rw [Text.toList_toUTF8]
  exact List.all_eq_true.mp (hall p hp t ht)

end AppServer.Resource
