import AppServer.Proofs.Negotiation.Elements
import AppServer.Proofs.Negotiation.Writer
import Mathlib.Data.List.TakeWhile

/-!
# Clients without a preference

A request that has no `Accept` value, a blank one or one of which nothing can be read gets what the
first provider writes by default, and none of the others is asked. A client that accepts everything
gets the first thing on offer. The two differ just where the first provider writes nothing and
another writes something.
-/

namespace AppServer.Negotiation

open AppServer.Text

/-- An `Accept` value that states no preference. -/
inductive NoPreference : Option String → Prop
  | absent : NoPreference none
  | blank {header : String} (h : trimmed header = "") : NoPreference (some header)
  | unreadable {header : String}
      (h : ∀ piece ∈ splitOn ',' header.toList, MediaRange.parse? (trim piece) = none) :
      NoPreference (some header)

theorem NoPreference.of_elements {header : String} (h : Accept.elements header = []) :
    NoPreference (some header) := by
  rw [Accept.elements_eq, List.filterMap_eq_nil_iff] at h
  exact .unreadable h

/-- The range of a client that accepts everything. -/
def MediaRange.any : MediaRange :=
  ⟨"*", "*", .one⟩

theorem MediaRange.covers_any {mediaType : String} (h : '/' ∈ mediaType.toList) :
    any.covers mediaType = true := by
  have hsplit : ∃ parts, splitMediaType? mediaType = some parts := by
    unfold splitMediaType? splitOnce
    split
    · rename_i hnone
      rw [List.dropWhile_eq_nil_iff] at hnone
      exact absurd (hnone '/' h) (by simp)
    · exact ⟨_, rfl⟩
  obtain ⟨⟨main, sub⟩, hsplit⟩ := hsplit
  rw [covers, hsplit]
  rfl

namespace Registry

variable {r : Registry} {chosen : Selected}

/-- The first thing on offer: no provider before this one writes anything, and it is the first type
that this one writes. -/
def FirstOffered (r : Registry) (chosen : Selected) : Prop :=
  ∃ before after, r.providers = before ++ chosen.provider :: after ∧
    (∀ p ∈ before, p.produces = []) ∧ chosen.provider.produces.head? = some chosen.mediaType

theorem head?_offers_eq_some_iff : r.offers.head? = some chosen ↔ r.FirstOffered chosen := by
  rw [offers, List.head?_flatMap, List.findSome?_eq_some_iff, FirstOffered]
  simp only [List.head?_map, Option.map_eq_some_iff, Option.map_eq_none_iff, List.head?_eq_none_iff]
  constructor
  · rintro ⟨before, p, after, hproviders, ⟨mediaType, hhead, rfl⟩, hbefore⟩
    exact ⟨before, after, hproviders, hbefore, hhead⟩
  · rintro ⟨before, after, hproviders, hbefore, hhead⟩
    exact ⟨before, _, after, hproviders, ⟨_, hhead, rfl⟩, hbefore⟩

theorem offers_eq_nil_iff : r.offers = [] ↔ ∀ p ∈ r.providers, p.produces = [] := by
  simp [offers, List.flatMap_eq_nil_iff]

theorem exists_firstOffered (h : ∃ p ∈ r.providers, p.produces ≠ []) :
    ∃ chosen, r.FirstOffered chosen := by
  obtain ⟨p, hp, hproduces⟩ := h
  have hoffers : r.offers ≠ [] := fun hnil => hproduces (offers_eq_nil_iff.mp hnil p hp)
  exact ⟨_, head?_offers_eq_some_iff.mp (List.head?_eq_some_head hoffers)⟩

theorem defaultOf_eq_ok_iff {p : Provider} :
    defaultOf p = .ok chosen ↔ chosen.provider = p ∧ p.produces.head? = some chosen.mediaType := by
  unfold defaultOf
  cases hproduces : p.produces with
  | nil => simp
  | cons mediaType rest =>
      rw [Except.ok.injEq, List.head?_cons, Option.some.injEq]
      constructor
      · rintro rfl
        exact ⟨rfl, rfl⟩
      · rintro ⟨rfl, rfl⟩
        rfl

/-! ## No preference -/

theorem parse_of_unreadable {header : String}
    (h : ∀ piece ∈ splitOn ',' header.toList, MediaRange.parse? (trim piece) = none) :
    Accept.parse (trimmed header) = .ok ⟨[]⟩ := by
  have helements : Accept.elements header = [] := by
    rw [Accept.elements_eq, List.filterMap_eq_nil_iff]
    exact h
  rw [Accept.parse_trimmed, Accept.parse, helements]
  rfl

/-- Whichever way a header states no preference, the default of the first provider is chosen. -/
theorem selectWriter_of_noPreference {accept : Option String} (h : NoPreference accept) :
    r.selectWriter accept = r.selectWriter none := by
  unfold selectWriter
  cases r.providers with
  | nil => rfl
  | cons first rest =>
      cases h with
      | absent => rfl
      | blank hblank =>
          simp only [Option.map_some, hblank]
          rfl
      | unreadable hnone =>
          simp only [Option.map_some, parse_of_unreadable hnone]
          exact ite_self _

theorem selectWriter_none {first : Provider} (h : r.providers.head? = some first) :
    r.selectWriter none = .ok (defaultOf first) := by
  obtain ⟨rest, hproviders⟩ := List.head?_eq_some_iff.mp h
  rw [selectWriter, hproviders]
  rfl

theorem selectWriter_none_eq_ok_iff : r.selectWriter none = .ok (.ok chosen) ↔
    r.providers.head? = some chosen.provider ∧
      chosen.provider.produces.head? = some chosen.mediaType := by
  unfold selectWriter
  cases r.providers with
  | nil => simp
  | cons first rest =>
      rw [List.head?_cons, Option.some.injEq]
      show Except.ok (defaultOf first) = _ ↔ _
      rw [Except.ok.injEq, defaultOf_eq_ok_iff]
      constructor
      · rintro ⟨rfl, hhead⟩
        exact ⟨rfl, hhead⟩
      · rintro ⟨rfl, hhead⟩
        exact ⟨rfl, hhead⟩

/-! ## Everything accepted -/

/-- Everything on offer has the same rank, so that the scan keeps the first. -/
theorem foldl_improve_any {offers : List Selected}
    (hnames : ∀ offer ∈ offers, '/' ∈ offer.mediaType.toList) :
    offers.foldl (improve ⟨[.any]⟩) none = offers.head?.map fun first => (⟨.one, 0, 0⟩, first) := by
  have hrank : ∀ offer ∈ offers, rank? ⟨[.any]⟩ offer.mediaType = some ⟨.one, 0, 0⟩ := by
    intro offer hoffer
    have hdecides : Accept.deciding? ⟨[.any]⟩ offer.mediaType = some (0, .any) := by
      show Accept.prefer offer.mediaType none (.any, 0) = _
      rw [Accept.prefer, if_pos (MediaRange.covers_any (hnames offer hoffer))]
    rw [rank?, hdecides]
    rfl
  induction offers using List.reverseRecOn with
  | nil => rfl
  | append_singleton offers last ih =>
      have hlast := hrank last (by simp)
      rw [List.foldl_append, ih (fun x hx => hnames x (by simp [hx]))
        (fun x hx => hrank x (by simp [hx])), List.foldl_cons, List.foldl_nil, improve, hlast]
      cases offers with
      | nil => rfl
      | cons first rest => rfl

theorem selectWriter_any (hnames : ∀ p ∈ r.providers, ∀ t ∈ p.produces, '/' ∈ t.toList) :
    r.selectWriter (some "*/*") = .ok (.ok chosen) ↔ r.FirstOffered chosen := by
  have hoffers : ∀ offer ∈ r.offers, '/' ∈ offer.mediaType.toList := by
    intro offer hoffer
    obtain ⟨p, hp, hoffer⟩ := List.mem_flatMap.mp hoffer
    obtain ⟨t, ht, rfl⟩ := List.mem_map.mp hoffer
    exact hnames p hp t ht
  have helements : Accept.elements "*/*" = [.any] := by rfl
  have hparse : Accept.parse "*/*" = .ok ⟨[.any]⟩ := by rfl
  rw [← head?_offers_eq_some_iff]
  by_cases hproviders : r.providers = []
  · simp [selectWriter, offers, hproviders]
  · rw [selectWriter_eq_scan hproviders (helements ▸ List.cons_ne_nil _ _) hparse,
      foldl_improve_any hoffers]
    cases r.offers.head? with
    | none => simp
    | some first => simp

/-- The default and the first thing on offer are chosen alike just if the first provider writes
something, or none does. -/
theorem default_iff_firstOffered :
    (∀ chosen, r.selectWriter none = .ok (.ok chosen) ↔ r.FirstOffered chosen) ↔
      (∃ first, r.providers.head? = some first ∧ first.produces ≠ []) ∨
        ∀ p ∈ r.providers, p.produces = [] := by
  constructor
  · intro hsame
    by_cases hnone : ∀ p ∈ r.providers, p.produces = []
    · exact .inr hnone
    · push Not at hnone
      obtain ⟨chosen, hchosen⟩ := exists_firstOffered hnone
      obtain ⟨hfirst, hhead⟩ := selectWriter_none_eq_ok_iff.mp ((hsame chosen).mpr hchosen)
      refine .inl ⟨chosen.provider, hfirst, fun hnil => ?_⟩
      rw [hnil] at hhead
      cases hhead
  · rintro (⟨first, hfirst, hproduces⟩ | hnone) chosen
    · obtain ⟨t, types, htypes⟩ := List.exists_cons_of_ne_nil hproduces
      obtain ⟨rest, hproviders⟩ := List.head?_eq_some_iff.mp hfirst
      have hoffers : r.offers.head? = some ⟨first, t⟩ := by
        rw [offers, hproviders, List.flatMap_cons, htypes]
        rfl
      rw [← head?_offers_eq_some_iff, hoffers, selectWriter_none_eq_ok_iff, hfirst,
        Option.some.injEq, Option.some.injEq]
      constructor
      · rintro ⟨rfl, hhead⟩
        rw [htypes, List.head?_cons, Option.some.injEq] at hhead
        rw [hhead]
      · rintro rfl
        exact ⟨rfl, htypes ▸ rfl⟩
    · rw [← head?_offers_eq_some_iff, offers_eq_nil_iff.mpr hnone, selectWriter_none_eq_ok_iff]
      constructor
      · rintro ⟨hfirst, hhead⟩
        rw [hnone _ (List.mem_of_mem_head? hfirst)] at hhead
        cases hhead
      · rintro ⟨⟩

/-- Without a preference the default of the first provider is chosen, whichever way none is stated;
`*/*` chooses the first thing on offer, which there is if any provider writes something. Both choose
alike just if the first provider writes something, or none does. -/
theorem selectWriter_without_preference (r : Registry)
    (hnames : ∀ p ∈ r.providers, ∀ t ∈ p.produces, '/' ∈ t.toList) :
    (∀ accept, NoPreference accept → r.selectWriter accept = r.selectWriter none) ∧
    (∃ result, r.selectWriter none = .ok result) ∧
    (∀ chosen, r.selectWriter none = .ok (.ok chosen) ↔
      r.providers.head? = some chosen.provider ∧
        chosen.provider.produces.head? = some chosen.mediaType) ∧
    (∀ chosen, r.selectWriter (some "*/*") = .ok (.ok chosen) ↔ r.FirstOffered chosen) ∧
    ((∃ p ∈ r.providers, p.produces ≠ []) → ∃ chosen, r.FirstOffered chosen) ∧
    ((∀ chosen, r.selectWriter none = .ok (.ok chosen) ↔
        r.selectWriter (some "*/*") = .ok (.ok chosen)) ↔
      (∃ first, r.providers.head? = some first ∧ first.produces ≠ []) ∨
        ∀ p ∈ r.providers, p.produces = []) := by
  have hany : ∀ chosen, r.selectWriter (some "*/*") = .ok (.ok chosen) ↔ r.FirstOffered chosen :=
    fun _ => selectWriter_any hnames
  refine ⟨fun _ => selectWriter_of_noPreference, ?_, fun _ => selectWriter_none_eq_ok_iff, hany,
    exists_firstOffered, ?_⟩
  · rcases r with ⟨_ | ⟨first, rest⟩⟩
    · exact ⟨_, rfl⟩
    · exact ⟨_, selectWriter_none rfl⟩
  simp only [hany]
  exact default_iff_firstOffered

/-- A provider that only reads, and one that writes behind it. -/
def readerFirst : Registry :=
  ⟨[{ Provider.json with name := "reader", produces := [] }, .xml]⟩

theorem readerFirst_names :
    ∀ p ∈ readerFirst.providers, ∀ t ∈ p.produces, '/' ∈ t.toList := by
  decide

/-- The writer behind the reader is on offer, and chosen only by a client that asks for it. -/
theorem selectWriter_readerFirst :
    (∀ p ∈ readerFirst.providers, ∀ t ∈ p.produces, '/' ∈ t.toList) ∧
    readerFirst.FirstOffered ⟨.xml, "application/xml"⟩ ∧
    readerFirst.selectWriter (some "*/*") = .ok (.ok ⟨.xml, "application/xml"⟩) ∧
    ∀ chosen, readerFirst.selectWriter none ≠ .ok (.ok chosen) := by
  obtain ⟨-, -, hdefault, hany, -, -⟩ :=
    selectWriter_without_preference readerFirst readerFirst_names
  have hfirst : readerFirst.FirstOffered ⟨.xml, "application/xml"⟩ :=
    ⟨_, [], rfl, List.forall_mem_singleton.mpr rfl, rfl⟩
  refine ⟨readerFirst_names, hfirst, (hany _).mpr hfirst, fun chosen hchosen => ?_⟩
  obtain ⟨hhead, hproduces⟩ := (hdefault chosen).mp hchosen
  rw [← Option.some.inj hhead] at hproduces
  cases hproduces

/-- No preference is not the same as accepting everything. -/
theorem not_noPreference_like_any :
    ¬ ∀ (r : Registry) (accept : Option String),
      (∀ p ∈ r.providers, ∀ t ∈ p.produces, '/' ∈ t.toList) → NoPreference accept →
        ∀ chosen, r.selectWriter accept = .ok (.ok chosen) ↔
          r.selectWriter (some "*/*") = .ok (.ok chosen) := by
  intro hclaim
  have hany : readerFirst.selectWriter (some "*/*") = .ok (.ok ⟨.xml, "application/xml"⟩) := by
    rfl
  have hnone := (hclaim readerFirst none readerFirst_names .absent _).mpr hany
  cases hnone

end Registry

end AppServer.Negotiation
