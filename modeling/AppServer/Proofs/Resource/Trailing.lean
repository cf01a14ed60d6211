import AppServer.Proofs.Negotiation.Documents
import AppServer.Proofs.Resource.Dispatch

/-!
# Requests with more than their body

A request may hold a struct and something else after it. Where the body is JSON, it is refused before
the method is called. Where it is XML, it is served like a request that holds nothing else.
-/

namespace AppServer.Resource

open AppServer.Data AppServer.Http AppServer.Negotiation AppServer.Pipeline

variable {σ β : Type} {registry : Registry} {req : Request}

/-- A request holds some bytes that a provider is chosen to read. -/
structure Delivers (registry : Registry) (req : Request) (p : Provider) (bytes : ByteArray) :
    Prop where
  chosen : ∃ declared, Declares req.headers declared ∧ registry.selectReader declared = .ok p
  holds : req.body = some bytes

namespace Delivers

variable [OfValue β] {p : Provider} {bytes bytes' : ByteArray} (h : Delivers registry req p bytes)

include h

theorem reads {body : β} (hdecode : p.decodeAs β bytes = .ok body) :
    Reads registry req (.value β) body := by
  obtain ⟨declared, declares, chosen⟩ := h.chosen
  refine .value declares chosen ?_
  rw [h.holds]
  exact hdecode

theorem refused {e : ProviderError} (hdecode : p.decodeAs β bytes = .error e) :
    Refused registry req (.value β) .body (.badRequest "Malformed request body") := by
  obtain ⟨declared, declares, chosen⟩ := h.chosen
  rw [← show req.body.getD .empty = bytes by rw [h.holds]; rfl] at hdecode
  exact .malformed declares chosen hdecode

/-- What the verb is called with. -/
theorem bodyInput_eq (method : Method) (act : Context → β → Act σ Outcome) :
    bodyInput registry (.withBody method act) req = .ok (some ⟨p, bytes⟩) := by
  obtain ⟨declared, declares, chosen⟩ := h.chosen
  have hinput := bodyInput_value registry method act declares
  rw [chosen, h.holds] at hinput
  exact hinput

/-- Bytes that are decoded alike are served alike. -/
theorem dispatch_congr (hdecode : p.decodeAs β bytes = p.decodeAs β bytes') (method : Method)
    (act : Context → β → Act σ Outcome) :
    dispatch registry (.withBody method act) req =
      dispatch registry (.withBody method act) { req with body := some bytes' } := by
  -- the head of the request chooses the provider, and it is the same
  have hother : Delivers registry { req with body := some bytes' } p bytes' := ⟨h.chosen, rfl⟩
  have hcall (ctx : Context) : (Verb.withBody method act).call ctx (some ⟨p, bytes⟩) =
      (Verb.withBody method act).call ctx (some ⟨p, bytes'⟩) := by
    simp only [Verb.withBody, hdecode]
  rw [dispatch_of_bodyInput (h.bodyInput_eq method act),
    dispatch_of_bodyInput (hother.bodyInput_eq method act), hcall]

end Delivers

/-- A struct with something after it: in JSON, unless that is blank, the answer is a 400 and the method
is not called; in XML the request is served as if nothing came after, so that the method is called with
what the struct is decoded to. -/
theorem trailing_refused_in_json_served_in_xml (β : Type) [OfValue β] (name : String)
    (fields : List (String × Value)) (t : String) :
    (∀ body, Provider.json.encode (.struct name fields) = .ok body →
      (∃ c ∈ t.toList, Xml.isSpace c = false) →
      (∃ detail, Provider.json.decodeAs β (body ++ t.toUTF8) = .error (.decode detail)) ∧
      ∀ {σ : Type} (registry : Registry) (req : Request) (method : Method)
        (act : Context → β → Act σ Outcome) (w : World σ) (notes : List (Context × β)),
        Delivers registry req .json (body ++ t.toUTF8) →
        ∃ events : List Event,
          ((bind registry (.withBody method (noting act))).run req).runIn (w.tally notes) =
            (.ok (ApiError.badRequest "Malformed request body").response,
              { w with log := w.log ++ events }.tally notes)) ∧
    (∀ body item items, Provider.xml.encode (.struct name fields) = .ok body →
      shape β = .struct item items →
      Provider.xml.decodeAs β (body ++ t.toUTF8) = Provider.xml.decodeAs β body ∧
      ∀ {σ : Type} (registry : Registry) (req : Request) (method : Method)
        (act : Context → β → Act σ Outcome),
        Delivers registry req .xml (body ++ t.toUTF8) →
        (bind registry (.withBody method act)).run req =
          (bind registry (.withBody method act)).run { req with body := some body } ∧
        ∀ (b : β) (w : World σ) (notes : List (Context × β)),
          Provider.xml.decodeAs β body = .ok b →
          let run := ((bind registry (.withBody method act)).run req).runIn w
          ((bind registry (.withBody method (noting act))).run req).runIn (w.tally notes) =
            (run.1, run.2.tally (notes ++ [(⟨req.toHead, req.params⟩, b)]))) := by
  refine ⟨fun body hencode ht => ?_, fun body item items hencode hshape => ?_⟩
  · obtain ⟨detail, hdecode⟩ := Provider.decodeAs_json_append hencode ht β
    refine ⟨⟨detail, hdecode⟩, fun registry req method act w notes hdelivers => ?_⟩
    have hrefused := hdelivers.refused hdecode
    obtain ⟨events, hrun⟩ := dispatch_of_refused registry method hrefused
    refine ⟨events, ?_⟩
    exact hrun (noting act) (w.tally notes)
  · have hdecode := Provider.decodeAs_xml_append hencode t hshape
    refine ⟨hdecode, fun registry req method act hdelivers => ?_⟩
    refine ⟨hdelivers.dispatch_congr hdecode method act, fun b w notes hbody => ?_⟩
    have hreads := hdelivers.reads (hdecode.trans hbody)
    exact runIn_noting_of_reads hreads notes

/-! ## An item with a word after it -/

open Provider (itemLayout item)

/-- A request with a body of a media type. -/
def typedRequest (type : String) (bytes : ByteArray) : Request :=
  .new .put default (Headers.empty.set contentType type) bytes .http11

theorem delivers_json (bytes : ByteArray) :
    Delivers .standard (typedRequest applicationJson bytes) .json bytes := by
  have hvisible : applicationJson.toUTF8.toList.all isVisibleByte = true := by
    rw [Text.toList_toUTF8]
    decide
  exact ⟨⟨_, .type rfl (List.all_eq_true.mp hvisible), rfl⟩, rfl⟩

theorem delivers_xml (bytes : ByteArray) :
    Delivers .standard (typedRequest applicationXml bytes) .xml bytes := by
  have hvisible : applicationXml.toUTF8.toList.all isVisibleByte = true := by
    rw [Text.toList_toUTF8]
    decide
  exact ⟨⟨_, .type rfl (List.all_eq_true.mp hvisible), rfl⟩, rfl⟩

theorem isElementName_item : ∀ e ∈ item.cells, Xml.IsElementName e.1 := by
  have hall : ∀ e ∈ item.cells, Xml.isName e.1.toList = true ∧ ':' ∉ e.1.toList := by
    decide
  exact fun e he => ⟨(hall e he).1, (hall e he).2⟩

/-- Both bodies of the item, as they are decoded without what comes after. -/
theorem encode_item : ∃ jsonBody xmlBody,
    Provider.json.encode (toValue item) = .ok jsonBody ∧
    Provider.xml.encode (toValue item) = .ok xmlBody ∧
    Provider.xml.decodeAs (Record itemLayout) xmlBody = .ok item := by
  have hjson := Provider.encode_json (Json.print?_toValue item)
  have hxml := Provider.encode_xml (Xml.print?_toValue item isElementName_item)
  have hdecode := Provider.decode_xml_record item isElementName_item hxml
  exact ⟨_, _, hjson, hxml, Provider.decodeAs_of_decode hdecode item.ofValue?_toValue⟩

/-- The method returns what it is called with: never in JSON, and the item in XML. -/
theorem trailing_item : ∃ jsonBody xmlBody,
    Provider.json.encode (toValue item) = .ok jsonBody ∧
    Provider.xml.encode (toValue item) = .ok xmlBody ∧
    (∃ detail, Provider.json.decodeAs (Record itemLayout) (jsonBody ++ "trailing".toUTF8) =
      .error (.decode detail)) ∧
    Provider.xml.decodeAs (Record itemLayout) (xmlBody ++ "trailing".toUTF8) = .ok item ∧
    ∀ (act : Context → Record itemLayout → Act Unit Outcome) (w : World Unit),
      (∃ w', ((bind .standard (.withBody .put (noting act))).run
        (typedRequest applicationJson (jsonBody ++ "trailing".toUTF8))).runIn (w.tally []) =
          (.ok (ApiError.badRequest "Malformed request body").response, World.tally w' [])) ∧
      ∃ ctx r w', ((bind .standard (.withBody .put (noting act))).run
        (typedRequest applicationXml (xmlBody ++ "trailing".toUTF8))).runIn (w.tally []) =
          (r, World.tally w' [(ctx, item)]) := by
  obtain ⟨jsonBody, xmlBody, hjson, hxml, hdecode⟩ := encode_item
  have hvisible : ∃ c ∈ "trailing".toList, Xml.isSpace c = false :=
    ⟨'t', List.mem_cons_self, rfl⟩
  obtain ⟨hrefused, hserved⟩ :=
    trailing_refused_in_json_served_in_xml (Record itemLayout) _ _ "trailing"
  obtain ⟨herror, hanswer⟩ := hrefused jsonBody hjson hvisible
  obtain ⟨hsame, hserve⟩ := hserved xmlBody _ _ hxml item.shape_eq
  refine ⟨jsonBody, xmlBody, hjson, hxml, herror, hsame.trans hdecode, fun act w => ⟨?_, ?_⟩⟩
  · obtain ⟨events, hrun⟩ := hanswer .standard _ .put act w [] (delivers_json _)
    exact ⟨_, hrun⟩
  · obtain ⟨-, hrun⟩ := hserve .standard _ .put act (delivers_xml _)
    exact ⟨_, _, _, hrun item w [] hdecode⟩

/-- Not every built-in provider finds a struct malformed that has something after it. -/
theorem not_trailing_malformed :
    ¬ ∀ (l : RecordLayout) (r : Record l) (t : String), (∃ c ∈ t.toList, Xml.isSpace c = false) →
      ¬ "<!--".toList <:+: t.toList → ¬ "<?".toList <:+: t.toList →
      ∀ p ∈ Registry.standard.providers, ∀ body, p.encode (toValue r) = .ok body →
        ∃ detail, p.decodeAs (Record l) (body ++ t.toUTF8) = .error (.decode detail) := by
  intro hall
  obtain ⟨-, body, -, hencode, hdecode⟩ := encode_item
  have hsame := Provider.decodeAs_xml_append hencode "trailing" item.shape_eq
  have hplain : '<' ∉ "trailing".toList := by decide
  obtain ⟨detail, herror⟩ := hall itemLayout item "trailing" ⟨'t', List.mem_cons_self, rfl⟩
    (fun h => hplain (h.subset List.mem_cons_self))
    (fun h => hplain (h.subset List.mem_cons_self)) .xml
    (List.mem_cons_of_mem _ List.mem_cons_self) body hencode
  rw [hsame, hdecode] at herror
  cases herror

end AppServer.Resource
