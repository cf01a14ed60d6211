import AppServer.Negotiation.Builtin
import AppServer.Proofs.Text.Letters

/-!
# The choice of a reader

A body is read by the first provider that consumes its media type, which stands in front of the first
semicolon of the content type. Neither the case of its letters, nor blanks around it, nor parameters
behind it have a part in that. Without a media type the first provider reads.
-/

namespace AppServer.Negotiation

open AppServer.Text

/-- The media type that a content type names. -/
def declared (contentType : String) : String :=
  String.ofList (trim (before ';' contentType.toList))

/-- The provider reads a media type, in whatever case it is written. -/
def Provider.Consumes (p : Provider) (mediaType : String) : Prop :=
  ∃ consumed ∈ p.consumes, sameLetters consumed mediaType = true

/-! ## The media type of a content type -/

variable {contentType contentType' : String}

theorem essence_eq (contentType : String) : essence contentType = lower (declared contentType) := by
  rw [essence, essenceOf, lower, declared, String.toList_ofList]

/-- The media type of a text in lower case is the media type in lower case. -/
theorem lower_declared (contentType : String) :
    lower (declared contentType) = declared (lower contentType) := by
  rw [← String.toList_inj]
  simp only [lower, declared, String.toList_ofList]
  rw [before_map_toLower (by decide) (by decide), trim_map_toLower]

theorem essence_congr (h : sameLetters contentType contentType' = true) :
    essence contentType = essence contentType' := by
  rw [essence_eq, essence_eq, lower_declared, lower_declared, sameLetters_iff.mp h]

/-- Blanks hold no semicolon, so they are in front of the first one or behind it. -/
theorem declared_surrounded {front back : String} (hfront : ∀ c ∈ front.toList, isBlank c = true)
    (hback : ∀ c ∈ back.toList, isBlank c = true) :
    declared (front ++ contentType ++ back) = declared contentType := by
  have hnosemi : ';' ∉ front.toList := fun hmem => absurd (hfront _ hmem) (by decide)
  have hcut : trim (before ';' (contentType.toList ++ back.toList)) =
      trim (before ';' contentType.toList) := by
    by_cases hsemi : ';' ∈ contentType.toList
    · obtain ⟨as, bs, hsplit⟩ := List.append_of_mem hsemi
      rw [hsplit, List.append_assoc, List.cons_append, before_append_cons, before_append_cons]
    · have hnosemi' : ';' ∉ contentType.toList ++ back.toList := by
        rw [List.mem_append, not_or]
        exact ⟨hsemi, fun hmem => absurd (hback _ hmem) (by decide)⟩
      rw [before_eq_self hnosemi', before_eq_self hsemi]
      exact trimBy_append_right hback _
  rw [declared, declared, String.toList_append, String.toList_append, List.append_assoc,
    before_append_left hnosemi]
  congr 1
  exact (trimBy_append_left hfront _).trans hcut

/-- What stands behind a semicolon is a parameter. -/
theorem declared_append_parameters (contentType params : String) :
    declared (contentType ++ ";" ++ params) = declared contentType := by
  have hchars : (contentType ++ ";" ++ params).toList =
      contentType.toList ++ ';' :: params.toList := by
    simp
  rw [declared, hchars, before_append_cons, declared]

namespace Registry

variable {r : Registry} {first p : Provider}

/-- The first in the order of registration that consumes the media type. -/
def FirstConsumer (r : Registry) (mediaType : String) (p : Provider) : Prop :=
  ∃ earlier later, r.providers = earlier ++ p :: later ∧ p.Consumes mediaType ∧
    ∀ q ∈ earlier, ¬ q.Consumes mediaType

/-! ## The search -/

theorem any_consumes_iff {mediaType : String} :
    (p.consumes.any (sameLetters · (lower mediaType))) = true ↔ p.Consumes mediaType := by
  rw [List.any_eq_true, Provider.Consumes]
  apply exists_congr
  intro consumed
  apply and_congr_right
  intro _
  rw [sameLetters_iff, sameLetters_iff, lower_lower]

theorem selectReader_congr (h : essence contentType = essence contentType') :
    r.selectReader (some contentType) = r.selectReader (some contentType') := by
  simp only [selectReader, Option.map_some, h]

section Declared

variable (hfirst : r.providers.head? = some first)
include hfirst

theorem selectReader_none : r.selectReader none = .ok first := by
  obtain ⟨rest, hproviders⟩ := List.head?_eq_some_iff.mp hfirst
  rw [selectReader, hproviders]
  rfl

theorem selectReader_of_blank (h : declared contentType = "") :
    r.selectReader (some contentType) = .ok first := by
  obtain ⟨rest, hproviders⟩ := List.head?_eq_some_iff.mp hfirst
  have hessence : essence contentType = "" := by
    rw [essence_eq, h]
    rfl
  rw [selectReader, hproviders, Option.map_some, hessence]
  rfl

/-- A media type is searched for. -/
theorem selectReader_of_declared (h : declared contentType ≠ "") :
    r.selectReader (some contentType) =
      match r.providers.find? fun p => p.consumes.any (sameLetters · (lower (declared contentType)))
      with
      | some p => .ok p
      | none => .error (.unsupportedMediaType (lower (declared contentType))) := by
  obtain ⟨rest, hproviders⟩ := List.head?_eq_some_iff.mp hfirst
  have hne : (lower (declared contentType)).isEmpty = false := by
    rw [String.isEmpty_eq_false_iff, ne_eq, lower_eq_empty_iff]
    exact h
  simp only [selectReader, hproviders, Option.map_some, essence_eq, hne]
  rfl

theorem selectReader_eq_ok_iff (h : declared contentType ≠ "") :
    r.selectReader (some contentType) = .ok p ↔ r.FirstConsumer (declared contentType) p := by
  have hfind : r.selectReader (some contentType) = .ok p ↔
      (r.providers.find? fun p =>
        p.consumes.any (sameLetters · (lower (declared contentType)))) = some p := by
    rw [selectReader_of_declared hfirst h]
    split
    · rename_i found heq
      rw [heq, Except.ok.injEq, Option.some.injEq]
    · rename_i heq
      rw [heq]
      exact iff_of_false (by rintro ⟨⟩) (by rintro ⟨⟩)
  rw [hfind, List.find?_eq_some_iff_append, any_consumes_iff, FirstConsumer]
  simp only [Bool.not_eq_true', ← Bool.not_eq_true, any_consumes_iff]
  constructor
  · rintro ⟨hp, earlier, later, hproviders, hearlier⟩
    exact ⟨earlier, later, hproviders, hp, hearlier⟩
  · rintro ⟨earlier, later, hproviders, hp, hearlier⟩
    exact ⟨hp, earlier, later, hproviders, hearlier⟩

theorem selectReader_eq_error_iff {e : NegotiationError} :
    r.selectReader (some contentType) = .error e ↔
      declared contentType ≠ "" ∧ (∀ p ∈ r.providers, ¬ p.Consumes (declared contentType)) ∧
        e = .unsupportedMediaType (lower (declared contentType)) := by
  by_cases h : declared contentType = ""
  · rw [selectReader_of_blank hfirst h]
    exact iff_of_false (by rintro ⟨⟩) fun hall => hall.1 h
  · rw [selectReader_of_declared hfirst h]
    split
    · rename_i p heq
      have hany := List.find?_some heq
      have hp : p.Consumes (declared contentType) := any_consumes_iff.mp hany
      refine iff_of_false (by rintro ⟨⟩) fun hall => ?_
      exact hall.2.1 p (List.mem_of_find?_eq_some heq) hp
    · rename_i heq
      have hnone : ∀ p ∈ r.providers, ¬ p.Consumes (declared contentType) := by
        intro p hp hconsumes
        exact List.find?_eq_none.mp heq p hp (any_consumes_iff.mpr hconsumes)
      rw [Except.error.injEq]
      exact ⟨fun he => ⟨h, hnone, he.symm⟩, fun hall => hall.2.2.symm⟩

end Declared

/-- Without a media type the first provider reads; otherwise the first that consumes it does, and if
there is none the error shows it in lower case. Writing letters in another case, putting blanks around
a content type and adding parameters, or leaving them out, change nothing. -/
theorem selectReader_finds_first_consumer (hfirst : r.providers.head? = some first) :
    r.selectReader none = .ok first ∧
    (∀ contentType, declared contentType = "" → r.selectReader (some contentType) = .ok first) ∧
    (∀ contentType, declared contentType ≠ "" → ∀ p,
      r.selectReader (some contentType) = .ok p ↔ r.FirstConsumer (declared contentType) p) ∧
    (∀ contentType e, r.selectReader (some contentType) = .error e ↔
      declared contentType ≠ "" ∧ (∀ p ∈ r.providers, ¬ p.Consumes (declared contentType)) ∧
        e = .unsupportedMediaType (lower (declared contentType))) ∧
    (∀ contentType contentType', sameLetters contentType contentType' = true →
      r.selectReader (some contentType) = r.selectReader (some contentType')) ∧
    (∀ contentType front back : String, (∀ c ∈ front.toList, isBlank c = true) →
      (∀ c ∈ back.toList, isBlank c = true) →
      r.selectReader (some (front ++ contentType ++ back)) = r.selectReader (some contentType)) ∧
    ∀ contentType params, r.selectReader (some (contentType ++ ";" ++ params)) =
      r.selectReader (some contentType) := by
  refine ⟨selectReader_none hfirst, fun _ => selectReader_of_blank hfirst,
    fun _ h _ => selectReader_eq_ok_iff hfirst h, fun _ _ => selectReader_eq_error_iff hfirst,
    fun _ _ h => selectReader_congr (essence_congr h), ?_, ?_⟩
  · intro contentType front back hfront hback
    apply selectReader_congr
    rw [essence_eq, essence_eq, declared_surrounded hfront hback]
  · intro contentType params
    apply selectReader_congr
    rw [essence_eq, essence_eq, declared_append_parameters]

/-- A tab and a no-break space around the text, capitals, and a parameter. -/
def decorated : String :=
  "\t\u00a0TEXT/Xml ; charset=utf-8"

/-- XML reads it, and nothing reads plain text. -/
theorem selectReader_decorated :
    Registry.standard.providers.head? = some .json ∧
    declared decorated = "TEXT/Xml" ∧
    Registry.standard.selectReader (some decorated) = .ok .xml ∧
    Registry.standard.FirstConsumer "TEXT/Xml" .xml ∧
    Registry.standard.selectReader (some " text/xml") = .ok .xml ∧
    Registry.standard.selectReader (some " ;a=b") = .ok .json ∧
    Registry.standard.selectReader (some "Text/Plain") =
      .error (.unsupportedMediaType "text/plain") := by
  have hfirst : Registry.standard.providers.head? = some .json := by rfl
  obtain ⟨-, hblank, hfound, herror, hletters, hblanks, hparams⟩ :=
    selectReader_finds_first_consumer hfirst
  have hdeclared : declared decorated = "TEXT/Xml" := by rfl
  have hplain : declared "Text/Plain" = "Text/Plain" := by rfl
  have hchosen : Registry.standard.selectReader (some decorated) = .ok .xml := by rfl
  have hconsumer := (hfound decorated (by rw [hdeclared]; decide) .xml).mp hchosen
  rw [hdeclared] at hconsumer
  have hbare : Registry.standard.selectReader (some "\t\u00a0TEXT/Xml ") = .ok .xml :=
    (hparams "\t\u00a0TEXT/Xml " " charset=utf-8").symm.trans hchosen
  have hfront : ∀ c ∈ "\t\u00a0".toList, isBlank c = true := List.all_eq_true.mp rfl
  have hspace : ∀ c ∈ " ".toList, isBlank c = true := List.all_eq_true.mp rfl
  have hempty : ∀ c ∈ "".toList, isBlank c = true := List.all_eq_true.mp rfl
  have hpure : Registry.standard.selectReader (some "TEXT/Xml") = .ok .xml :=
    (hblanks "TEXT/Xml" "\t\u00a0" " " hfront hspace).symm.trans hbare
  have hsmall : Registry.standard.selectReader (some "text/xml") = .ok .xml :=
    (hletters "text/xml" "TEXT/Xml" (by decide)).trans hpure
  have hspaced : Registry.standard.selectReader (some " text/xml") = .ok .xml :=
    (hblanks "text/xml" " " "" hspace hempty).trans hsmall
  have hnone : ∀ p ∈ Registry.standard.providers, ¬ p.Consumes "Text/Plain" := by
    unfold Provider.Consumes
    decide
  have hrefused := (herror "Text/Plain" (.unsupportedMediaType "text/plain")).mpr
    ⟨by rw [hplain]; decide, by rwa [hplain], by rw [hplain]; rfl⟩
  exact ⟨hfirst, hdeclared, hchosen, hconsumer, hspaced, hblank " ;a=b" rfl, hrefused⟩

end Registry

end AppServer.Negotiation
