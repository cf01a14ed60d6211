import AppServer.Proofs.Negotiation.NoPreference
import AppServer.Proofs.Resource.Dispatch

/-!
# Accept values on several lines

Only the first `Accept` line of a request is read. What the lines behind it list counts only where all
values stand in one line. A method that does not look at these lines is called alike for both requests;
so they are told apart by what is chosen for the entity that it returns, and by nothing else.
-/

namespace AppServer

/-! ## Lines of one name -/

namespace Http

theorem isVisible_comma : IsVisible ", " :=
  isVisible_of_all (by decide)

/-- The lines of a request under `Accept`, in their order. -/
def Request.Accepts (req : Request) (lines : List String) : Prop :=
  req.headers.all "accept" = lines.map String.toUTF8

theorem Request.Accepts.text? {req : Request} {lines : List String} (h : req.Accepts lines)
    (hvisible : ∀ line ∈ lines, IsVisible line) : req.headers.text? "accept" = lines.head? := by
  rw [Headers.text?, ← Headers.head?_all, h]
  cases lines with
  | nil => rfl
  | cons line rest =>
      exact visibleText?_eq_some_iff.mpr ⟨rfl, hvisible line List.mem_cons_self⟩

end Http

/-! ## What a line lists -/

namespace Negotiation

namespace Registry

variable {r : Registry} {header header' : String}

/-- What a header lists decides the choice; the rest of its text is only told to a client that is
refused. -/
theorem selectWriter_of_elements (h : Accept.elements header = Accept.elements header') :
    r.selectWriter (some header) = r.selectWriter (some header') ∨
      ∃ raw raw', r.selectWriter (some header) = .ok (.error (.notAcceptable raw)) ∧
        r.selectWriter (some header') = .ok (.error (.notAcceptable raw')) := by
  by_cases helements : Accept.elements header = []
  · left
    rw [selectWriter_of_noPreference (.of_elements helements),
      selectWriter_of_noPreference (.of_elements (h ▸ helements))]
  · by_cases hproviders : r.providers = []
    · left
      simp only [selectWriter, hproviders]
    · have hparse : Accept.parse header = Accept.parse header' := by
        rw [Accept.parse, Accept.parse, h]
      rw [selectWriter_eq_parse hproviders helements,
        selectWriter_eq_parse hproviders (h ▸ helements), hparse]
      cases Accept.parse header' with
      | error p => exact .inl rfl
      | ok accept =>
          simp only [bind, Except.bind]
          cases r.offers.foldl (improve accept) none with
          | none => exact .inr ⟨_, _, rfl, rfl⟩
          | some best => exact .inl rfl

/-- Values of which only the first lists anything choose in one line as the first does alone. -/
theorem selectWriter_joined (r : Registry) {values : List String}
    (h : ∀ value ∈ values.tail, Accept.elements value = []) :
    r.selectWriter values.head? = r.selectWriter (some (", ".intercalate values)) ∨
      ∃ raw raw', r.selectWriter values.head? = .ok (.error (.notAcceptable raw)) ∧
        r.selectWriter (some (", ".intercalate values)) = .ok (.error (.notAcceptable raw')) := by
  cases values with
  | nil =>
      have hblank : NoPreference (some (", ".intercalate [])) := .blank rfl
      exact .inl (selectWriter_of_noPreference hblank).symm
  | cons first rest =>
      have hrest : rest.flatMap Accept.elements = [] := List.flatMap_eq_nil_iff.mpr h
      apply selectWriter_of_elements
      rw [Accept.elements_intercalate, List.flatMap_cons, hrest, List.append_nil]

end Registry

end Negotiation

namespace Resource

open AppServer.Data AppServer.Http AppServer.Negotiation AppServer.Pipeline AppServer.Text

variable {σ β : Type} {registry : Registry} {takes : Takes β} {req req' : Request} {body : β}
  {method : Method} {act : Context → β → Act σ Outcome} {w : World σ} {entity : Value}

/-! ## Endings that look alike -/

/-- The status and the media type of a response. -/
def seen (outcome : Except Payload Response) : Except Payload (Nat × List ByteArray) :=
  outcome.map fun response => (response.status, response.headers.all contentType)

/-- Endings with the same status and media type. -/
inductive Ending.Alike : Ending → Ending → Prop
  | written {chosen chosen' : Selected} {bytes bytes' : ByteArray}
      (same : chosen.mediaType = chosen'.mediaType) :
      Alike (.written chosen bytes) (.written chosen' bytes')
  | failed {step step' : Step} {e e' : ApiError} (same : e.status = e'.status) :
      Alike (.failed step e) (.failed step' e')
  | panicked (p : Payload) : Alike (.panicked p) (.panicked p)

theorem Ending.Alike.refl (ending : Ending) : ending.Alike ending := by
  cases ending with
  | written => exact .written rfl
  | failed => exact .failed rfl
  | panicked p => exact .panicked p

theorem seen_written (chosen : Selected) (bytes : ByteArray) :
    seen (Ending.written chosen bytes).outcome = .ok (200, [chosen.mediaType.toUTF8]) := by
  rw [Ending.outcome, seen, Except.map, Headers.set, Headers.all_insert_self]

theorem seen_failed (step : Step) (e : ApiError) :
    seen (Ending.failed step e).outcome = .ok (e.status, [applicationJson.toUTF8]) := by
  have hfields : e.response.headers.all contentType = [applicationJson.toUTF8] :=
    Headers.all_insert_self _ _ _
  rw [Ending.outcome, seen, Except.map, hfields]
  rfl

/-- An entity is answered with the same status and media type to two clients. -/
def AnsweredAlike (registry : Registry) (accept accept' : Option String) (entity : Value) : Prop :=
  ∀ ending ending', Concludes registry accept (.ok entity) ending →
    Concludes registry accept' (.ok entity) ending' → ending.Alike ending'

/-- No error of a writer has the status of success. -/
theorem Concludes.status_ne {accept : Option String} {step : Step} {e : ApiError}
    (h : Concludes registry accept (.ok entity) (.failed step e)) : e.status ≠ 200 := by
  cases h with
  | noWriter failed =>
      have hreports := status_of_selectWriter failed
      rcases hreports with h | h <;> rw [h] <;> decide
  | unencodable => decide

theorem Concludes.seen_eq_iff {accept accept' : Option String} {ending ending' : Ending}
    (h : Concludes registry accept (.ok entity) ending)
    (h' : Concludes registry accept' (.ok entity) ending') :
    seen ending.outcome = seen ending'.outcome ↔ ending.Alike ending' := by
  constructor
  · intro hseen
    -- what was written is told by its status from what failed
    cases ending with
    | written chosen bytes =>
        rw [seen_written] at hseen
        cases ending' with
        | written chosen' bytes' =>
            rw [seen_written, Except.ok.injEq, Prod.mk.injEq, List.cons.injEq] at hseen
            exact .written (String.toByteArray_inj.mp hseen.2.1)
        | failed step e =>
            rw [seen_failed, Except.ok.injEq, Prod.mk.injEq] at hseen
            exact absurd hseen.1.symm h'.status_ne
        | panicked p => cases hseen
    | failed step e =>
        rw [seen_failed] at hseen
        cases ending' with
        | written chosen' bytes' =>
            rw [seen_written, Except.ok.injEq, Prod.mk.injEq] at hseen
            exact absurd hseen.1 h.status_ne
        | failed step' e' =>
            rw [seen_failed, Except.ok.injEq, Prod.mk.injEq] at hseen
            exact .failed hseen.1
        | panicked p => cases hseen
    | panicked p =>
        cases ending' with
        | written => cases hseen
        | failed => cases hseen
        | panicked p' =>
            cases hseen
            exact .panicked p
  · intro halike
    cases halike with
    | written same => rw [seen_written, seen_written, same]
    | failed same => rw [seen_failed, seen_failed, same]
    | panicked => rfl

theorem AnsweredAlike.of_selectWriter {accept accept' : Option String}
    (h : registry.selectWriter accept = registry.selectWriter accept' ∨
      ∃ raw raw', registry.selectWriter accept = .ok (.error (.notAcceptable raw)) ∧
        registry.selectWriter accept' = .ok (.error (.notAcceptable raw'))) :
    AnsweredAlike registry accept accept' entity := by
  intro ending ending' hconcludes hconcludes'
  rcases h with hsame | ⟨raw, raw', hrefused, hrefused'⟩
  · have hmoved : Concludes registry accept (.ok entity) ending' := by
      cases hconcludes' with
      | undecided raised => exact .undecided (hsame.trans raised)
      | noWriter failed => exact .noWriter (hsame.trans failed)
      | unencodable selected failed => exact .unencodable (hsame.trans selected) failed
      | written selected encoded visible => exact .written (hsame.trans selected) encoded visible
      | invalid selected encoded hidden => exact .invalid (hsame.trans selected) encoded hidden
    rw [hconcludes.unique hmoved]
    exact .refl _
  · rw [hconcludes.unique (.noWriter hrefused), hconcludes'.unique (.noWriter hrefused')]
    exact .failed rfl

/-! ## Requests that differ in their lines -/

/-- The requests differ at most in their `Accept` lines. -/
structure AlikeButAccept (req req' : Request) : Prop where
  others : req'.headers.erase "accept" = req.headers.erase "accept"
  rest : req' = { req with headers := req'.headers }

/-- The method does not look at the `Accept` lines. -/
def IgnoresAccept (act : Context → β → Act σ Outcome) : Prop :=
  ∀ (ctx : Context) (headers : Headers) (body : β),
    headers.erase "accept" = ctx.headers.erase "accept" →
      act { ctx with headers := headers } body = act ctx body

/-- The method is called and returns an entity. -/
def Returns (registry : Registry) (takes : Takes β) (act : Context → β → Act σ Outcome)
    (req : Request) (w : World σ) (entity : Value) : Prop :=
  ∃ body, Reads registry req takes body ∧
    ((act ⟨req.toHead, req.params⟩ body).runIn w).1 = .ok (.ok entity)

theorem Returns.result_eq (h : Returns registry takes act req w entity)
    (hreads : Reads registry req takes body) :
    ((act ⟨req.toHead, req.params⟩ body).runIn w).1 = .ok (.ok entity) := by
  obtain ⟨body', hreads', hreturned⟩ := h
  rwa [hreads.unique hreads']

theorem Returns.unique {other : Value} (h : Returns registry takes act req w entity)
    (h' : Returns registry takes act req w other) : entity = other := by
  obtain ⟨body, hreads, hreturned⟩ := h
  exact Except.ok.inj (Except.ok.inj (hreturned.symm.trans (h'.result_eq hreads)))

namespace AlikeButAccept

variable (h : AlikeButAccept req req')

include h

theorem first?_contentType :
    req'.headers.first? contentType = req.headers.first? contentType := by
  have hne : contentType ≠ "accept" := by decide
  rw [← Headers.first?_erase _ hne, h.others, Headers.first?_erase _ hne]

theorem body_eq : req'.body = req.body := by
  rw [h.rest]

theorem act_eq (hignores : IgnoresAccept act) (body : β) :
    act ⟨req'.toHead, req'.params⟩ body = act ⟨req.toHead, req.params⟩ body := by
  have hother := hignores ⟨req.toHead, req.params⟩ req'.headers body h.others
  rw [← hother, h.rest]

theorem reads (hreads : Reads registry req takes body) : Reads registry req' takes body := by
  cases hreads with
  | nothing => exact .nothing
  | value declares chosen decoded =>
      rw [← h.body_eq] at decoded
      exact .value (declares.congr h.first?_contentType) chosen decoded

theorem refused {step : Step} {e : ApiError} (hrefused : Refused registry req takes step e) :
    Refused registry req' takes step e := by
  cases hrefused with
  | unreadable found hidden => exact .unreadable (h.first?_contentType.trans found) hidden
  | noReader declares failed => exact .noReader (declares.congr h.first?_contentType) failed
  | malformed declares chosen failed =>
      rw [← h.body_eq] at failed
      exact .malformed (declares.congr h.first?_contentType) chosen failed

theorem bodyInput_eq (verb : Verb σ) : bodyInput registry verb req' = bodyInput registry verb req := by
  have hcontent : contentType? req'.headers = contentType? req.headers := by
    rw [contentType?, contentType?, h.first?_contentType]
  rw [bodyInput, bodyInput, hcontent, h.body_eq]

theorem call_eq (hignores : IgnoresAccept act) (input : Option BodyInput) :
    (takes.verb method act).call ⟨req'.toHead, req'.params⟩ input =
      (takes.verb method act).call ⟨req.toHead, req.params⟩ input := by
  cases takes with
  | nothing => simp only [Takes.verb, Verb.withoutBody, h.act_eq hignores]
  | value => simp only [Takes.verb, Verb.withBody, h.act_eq hignores]

/-- Where the first lines are the same, so is all that is done. -/
theorem dispatch_eq (hignores : IgnoresAccept act)
    (hfirst : req'.headers.text? "accept" = req.headers.text? "accept") :
    dispatch registry (takes.verb method act) req' =
      dispatch registry (takes.verb method act) req := by
  cases hinput : bodyInput registry (takes.verb method act) req with
  | error e =>
      rw [dispatch_of_bodyInput_error hinput,
        dispatch_of_bodyInput_error ((h.bodyInput_eq _).trans hinput)]
  | ok input =>
      rw [dispatch_of_bodyInput hinput, dispatch_of_bodyInput ((h.bodyInput_eq _).trans hinput),
        h.call_eq hignores, hfirst]

/-- Whatever the lines are, a request leaves the same. -/
theorem state_dispatch_eq (hignores : IgnoresAccept act) :
    ((dispatch registry (takes.verb method act) req').runIn w).2.state =
      ((dispatch registry (takes.verb method act) req).runIn w).2.state := by
  rcases reads_or_refused registry req takes with ⟨body, hreads⟩ | ⟨step, e, hrefused⟩
  · rw [state_dispatch_of_reads hreads, state_dispatch_of_reads (h.reads hreads),
      h.act_eq hignores]
  · rw [state_dispatch_of_refused hrefused, state_dispatch_of_refused (h.refused hrefused)]

/-- Unless an entity is returned, both requests end in the same way; what is returned is concluded by
either from its first line. -/
theorem ends_cases (hignores : IgnoresAccept act) {ending : Ending}
    (hends : Ends registry takes act req w ending) :
    (Ends registry takes act req' w ending ∧ ∀ entity, ¬ Returns registry takes act req w entity) ∨
      ∃ entity, Returns registry takes act req w entity ∧
        Concludes registry (req.headers.text? "accept") (.ok entity) ending ∧
        ∀ ending', Concludes registry (req'.headers.text? "accept") (.ok entity) ending' →
          Ends registry takes act req' w ending' := by
  cases hends with
  | refused hrefused =>
      refine .inl ⟨.refused (h.refused hrefused), ?_⟩
      rintro entity ⟨body, hreads, -⟩
      exact hreads.not_refused hrefused
  | @panicked body p hreads hraised =>
      have hraised' := hraised
      rw [← h.act_eq hignores] at hraised'
      refine .inl ⟨.panicked (h.reads hreads) hraised', fun entity hreturns => ?_⟩
      cases hraised.symm.trans (hreturns.result_eq hreads)
  | @returned body outcome _ hreads hreturned hconcludes =>
      have hreturned' := hreturned
      rw [← h.act_eq hignores] at hreturned'
      cases outcome with
      | error d =>
          cases hconcludes
          refine .inl ⟨.returned (h.reads hreads) hreturned' (.domain d), fun entity hreturns => ?_⟩
          cases hreturned.symm.trans (hreturns.result_eq hreads)
      | ok entity =>
          exact .inr ⟨entity, ⟨body, hreads, hreturned⟩, hconcludes,
            fun ending' => .returned (h.reads hreads) hreturned'⟩

/-- The two requests get the same status and media type just if the first lines make no difference to
the entity that is returned. -/
theorem seen_eq_iff (registry : Registry) (takes : Takes β) (method : Method)
    (hignores : IgnoresAccept act) (w : World σ) :
    seen ((dispatch registry (takes.verb method act) req').runIn w).1 =
        seen ((dispatch registry (takes.verb method act) req).runIn w).1 ↔
      ∀ entity, Returns registry takes act req w entity →
        AnsweredAlike registry (req.headers.text? "accept") (req'.headers.text? "accept")
          entity := by
  obtain ⟨ending, hends⟩ := exists_ends registry takes act req w
  rw [hends.outcome_eq]
  rcases h.ends_cases hignores hends with ⟨hends', hnot⟩ | ⟨entity, hreturns, hconcludes, hends'⟩
  · rw [hends'.outcome_eq]
    exact iff_of_true rfl fun entity hreturns => absurd hreturns (hnot entity)
  · obtain ⟨ending', hconcludes'⟩ :=
      exists_concludes registry (req'.headers.text? "accept") (.ok entity)
    rw [(hends' ending' hconcludes').outcome_eq, eq_comm, hconcludes.seen_eq_iff hconcludes']
    constructor
    · intro halike other hother e e' he he'
      obtain rfl := hreturns.unique hother
      rwa [he.unique hconcludes, he'.unique hconcludes']
    · intro hall
      exact hall entity hreturns ending ending' hconcludes hconcludes'

end AlikeButAccept

/-- Only the first `Accept` line of a request is read, so it runs as it does without the others. Where
the same values stand in one line they all count: the state is left the same, and the status and the
media type are the same just if it makes no difference to what becomes of the entity. -/
theorem first_accept_line_decides (registry : Registry) (takes : Takes β) (method : Method)
    {act : Context → β → Act σ Outcome} (hignores : IgnoresAccept act) {values : List String}
    (hvisible : ∀ value ∈ values, IsVisible value) {split : Request} (hsplit : split.Accepts values)
    (w : World σ) :
    let run := fun req => ((bind registry (takes.verb method act)).run req).runIn w
    let joined := ", ".intercalate values
    (∀ req, AlikeButAccept split req → req.Accepts (values.take 1) → run req = run split) ∧
    Accept.elements joined = values.flatMap Accept.elements ∧
    ∀ req, AlikeButAccept split req → req.Accepts [joined] →
      (run req).2.state = (run split).2.state ∧
      (seen (run req).1 = seen (run split).1 ↔
        ∀ entity, Returns registry takes act split w entity →
          AnsweredAlike registry values.head? (some joined) entity) ∧
      ((∀ value ∈ values.tail, Accept.elements value = []) →
        seen (run req).1 = seen (run split).1) := by
  intro run joined
  have hfirst := hsplit.text? hvisible
  have hjoined : ∀ {req : Request}, req.Accepts [joined] →
      req.headers.text? "accept" = some joined := by
    intro req hline
    refine hline.text? (List.forall_mem_singleton.mpr ?_)
    exact isVisible_intercalate isVisible_comma hvisible
  refine ⟨fun req halike hline => ?_, Accept.elements_intercalate values, fun req halike hline => ?_⟩
  · have hsame : req.headers.text? "accept" = split.headers.text? "accept" := by
      rw [hline.text? fun line hmem => hvisible line (List.mem_of_mem_take hmem), hfirst,
        List.head?_take]
      rfl
    exact congrArg (fun x => Act.runIn x w) (halike.dispatch_eq hignores hsame)
  · have hiff : seen (run req).1 = seen (run split).1 ↔
        ∀ entity, Returns registry takes act split w entity →
          AnsweredAlike registry values.head? (some joined) entity := by
      have hseen := halike.seen_eq_iff registry takes method hignores w
      rwa [hfirst, hjoined hline] at hseen
    refine ⟨halike.state_dispatch_eq hignores, hiff, fun hunread => hiff.mpr ?_⟩
    exact fun entity _ => .of_selectWriter (registry.selectWriter_joined hunread)

/-- A method that greets everyone. -/
def greet : Context → Unit → Act Unit Outcome :=
  fun _ _ => return .ok (.text "hello")

theorem ignoresAccept_greet : IgnoresAccept greet :=
  fun _ _ _ _ => rfl

theorem returns_greet (registry : Registry) (req : Request) (w : World Unit) :
    Returns registry .nothing greet req w (.text "hello") :=
  ⟨(), .nothing, rfl⟩

/-- A request with nothing but `Accept` lines. -/
def lined (lines : List String) : Request :=
  .new .get default ⟨lines.map fun line => ("accept", line.toUTF8)⟩ .empty .http11

theorem accepts_lined (lines : List String) : (lined lines).Accepts lines := by
  rw [Request.Accepts, Headers.all, lined, Request.new]
  simp [List.filter_map, Function.comp_def]

theorem alikeButAccept_lined (lines lines' : List String) :
    AlikeButAccept (lined lines) (lined lines') := by
  constructor
  · simp [lined, Request.new, Headers.erase, List.filter_map, Function.comp_def]
  · rfl

/-- XML, and something that cannot be read. -/
def xmlThenNonsense : List String :=
  ["application/xml;q=0.5", "nonsense"]

/-- A second line that lists nothing may stand in the first. -/
theorem greet_xmlThenNonsense :
    IgnoresAccept greet ∧ (∀ value ∈ xmlThenNonsense, IsVisible value) ∧
    (lined xmlThenNonsense).Accepts xmlThenNonsense ∧
    ∀ w, let run := fun lines =>
        ((bind .standard (Takes.nothing.verb .get greet)).run (lined lines)).runIn w
      run ["application/xml;q=0.5"] = run xmlThenNonsense ∧
      seen (run ["application/xml;q=0.5, nonsense"]).1 = seen (run xmlThenNonsense).1 := by
  have hvisible : ∀ value ∈ xmlThenNonsense, IsVisible value := by
    have hall : ∀ value ∈ xmlThenNonsense, (utf8 value.toList).all isVisibleByte = true := by
      decide
    exact fun value hvalue => isVisible_of_all (hall value hvalue)
  have haccepts := accepts_lined xmlThenNonsense
  refine ⟨ignoresAccept_greet, hvisible, haccepts, fun w => ?_⟩
  obtain ⟨hfirst, -, hjoined⟩ := first_accept_line_decides .standard .nothing .get
    ignoresAccept_greet hvisible haccepts w
  obtain ⟨-, -, hunread⟩ := hjoined _ (alikeButAccept_lined _ _) (accepts_lined _)
  have hnothing : ∀ value ∈ xmlThenNonsense.tail, Accept.elements value = [] := by
    intro value hvalue
    rw [List.mem_singleton.mp hvalue]
    rfl
  exact ⟨hfirst _ (alikeButAccept_lined _ _) (accepts_lined _), hunread hnothing⟩

/-- Something that nobody writes, and XML. -/
def pdfThenXml : List String :=
  ["application/pdf", "application/xml"]

/-- What the second line lists is lost. -/
theorem not_lines_like_one :
    ¬ ∀ {β : Type} (registry : Registry) (takes : Takes β) (method : Method)
        (act : Context → β → Act Unit Outcome) (values : List String) (split req : Request)
        (w : World Unit), IgnoresAccept act → (∀ value ∈ values, IsVisible value) →
      split.Accepts values → AlikeButAccept split req → req.Accepts [", ".intercalate values] →
        seen (((bind registry (takes.verb method act)).run req).runIn w).1 =
          seen (((bind registry (takes.verb method act)).run split).runIn w).1 := by
  intro hclaim
  have hvisible : ∀ value ∈ pdfThenXml, IsVisible value := by
    have hall : ∀ value ∈ pdfThenXml, (utf8 value.toList).all isVisibleByte = true := by
      decide
    exact fun value hvalue => isVisible_of_all (hall value hvalue)
  have hvisible' : ∀ line ∈ [", ".intercalate pdfThenXml], IsVisible line :=
    List.forall_mem_singleton.mpr (isVisible_intercalate isVisible_comma hvisible)
  have halike := alikeButAccept_lined pdfThenXml [", ".intercalate pdfThenXml]
  have hsame := hclaim .standard .nothing .get greet pdfThenXml _ _ ⟨(), []⟩ ignoresAccept_greet
    hvisible (accepts_lined _) halike (accepts_lined _)
  have hiff := halike.seen_eq_iff .standard .nothing .get ignoresAccept_greet ⟨(), []⟩
  have hanswered := hiff.mp hsame _ (returns_greet _ _ _)
  rw [(accepts_lined _).text? hvisible, (accepts_lined _).text? hvisible'] at hanswered
  have hrefused : Registry.standard.selectWriter (some "application/pdf") =
      .ok (.error (.notAcceptable "application/pdf")) := by rfl
  have hchosen : Registry.standard.selectWriter (some (", ".intercalate pdfThenXml)) =
      .ok (.ok ⟨.xml, "application/xml"⟩) := by rfl
  obtain ⟨ending, hconcludes⟩ := exists_concludes Registry.standard
    (some (", ".intercalate pdfThenXml)) (.ok (.text "hello"))
  cases hanswered _ _ (.noWriter hrefused) hconcludes with
  | failed hstatus =>
      -- no other error has the status of a refused header
      cases hconcludes with
      | noWriter failed => cases hchosen.symm.trans failed
      | unencodable => cases hstatus

end Resource

end AppServer
