import AppServer.Proofs.Negotiation.Elements

/-!
# The range that decides

The quality of a media type is decided by the first of the best ranges that cover it: none of these is
more specific, and none as specific has a higher quality. The order of a header makes a difference only
to which of two ranges that are equally good it is. So the quality stays the same number, however the
elements of a header are arranged and however often each is listed.
-/

namespace AppServer.Negotiation

open AppServer.Text

namespace Quality

variable {a b : Quality}

theorem Same.symm (h : a.Same b) : b.Same a := by
  obtain ⟨ha, hb⟩ := h.isNaN_eq_false
  rw [same_iff ha hb] at h
  rw [same_iff hb ha, h]

theorem same_self (h : a.isNaN = false) : a.Same a :=
  (same_iff h h).mpr rfl

/-- Two numbers of which neither is above the other are the same. -/
theorem same_of_le (h : a.less b = true ∨ a.Same b) (h' : b.less a = true ∨ b.Same a) : a.Same b := by
  rcases h with hlt | hsame
  · rcases h' with hgt | hsame
    · obtain ⟨ha, hb⟩ := isNaN_of_less hlt
      rw [less_iff ha hb] at hlt
      rw [less_iff hb ha] at hgt
      omega
    · exact hsame.symm
  · exact hsame

end Quality

/-- The range at `i` is the first of the best that cover the media type. -/
structure FirstOfBest (ranges : List MediaRange) (mediaType : String) (i : Nat)
    (range : MediaRange) : Prop where
  entry : ranges[i]? = some range
  covers : range.covers mediaType = true
  specific : ∀ r ∈ ranges, r.covers mediaType = true → r.specificity ≤ range.specificity
  highest : ∀ r ∈ ranges, r.covers mediaType = true → r.specificity = range.specificity →
    r.quality.less range.quality = true ∨ r.quality.Same range.quality
  first : ∀ j r, ranges[j]? = some r → r.covers mediaType = true → range.ties r = true → i ≤ j

variable {ranges ranges' : List MediaRange} {mediaType : String} {i j : Nat}
  {range range' : MediaRange}

/-- Among ranges in the order of preference, the first of the most specific has the highest quality. -/
theorem FirstCovering.firstOfBest (h : FirstCovering ranges mediaType i range)
    (hordered : ranges.Pairwise Precedes) (hnum : AllNumeric ranges) :
    FirstOfBest ranges mediaType i range where
  entry := h.entry
  covers := h.covers
  specific r hr hcovers := by
    obtain ⟨j, hj⟩ := List.getElem?_of_mem hr
    have := h.foremost j r hj hcovers
    omega
  highest r hr hcovers hspecificity := by
    obtain ⟨j, hj⟩ := List.getElem?_of_mem hr
    have hle : i ≤ j := by
      have := h.foremost j r hj hcovers
      omega
    rcases Nat.lt_or_eq_of_le hle with hlt | rfl
    · -- what stands behind it in the order is not of a higher quality
      obtain ⟨hi, rfl⟩ := List.getElem?_eq_some_iff.mp h.entry
      obtain ⟨hjlt, rfl⟩ := List.getElem?_eq_some_iff.mp hj
      exact (List.pairwise_iff_getElem.mp hordered i j hi hjlt hlt).imp_right And.left
    · obtain rfl := Option.some.inj (h.entry.symm.trans hj)
      exact .inr (Quality.same_self (hnum _ hr))
  first j r hj hcovers hties := by
    have hspecificity := (MediaRange.ties_iff.mp hties).2
    have := h.foremost j r hj hcovers
    omega

namespace FirstOfBest

/-- The best of two lists of the same ranges have the same quality. -/
theorem same_quality (h : FirstOfBest ranges mediaType i range)
    (h' : FirstOfBest ranges' mediaType j range') (hsame : ∀ r, r ∈ ranges ↔ r ∈ ranges') :
    range.quality.Same range'.quality ∧ range.specificity = range'.specificity := by
  have hmem : range ∈ ranges' := (hsame range).mp (List.mem_of_getElem? h.entry)
  have hmem' : range' ∈ ranges := (hsame range').mpr (List.mem_of_getElem? h'.entry)
  have hspecificity : range.specificity = range'.specificity :=
    Nat.le_antisymm (h'.specific range hmem h.covers) (h.specific range' hmem' h'.covers)
  exact ⟨Quality.same_of_le (h'.highest range hmem h.covers hspecificity)
    (h.highest range' hmem' h'.covers hspecificity.symm), hspecificity⟩

theorem unique (h : FirstOfBest ranges mediaType i range)
    (h' : FirstOfBest ranges mediaType j range') : i = j ∧ range = range' := by
  obtain ⟨hquality, hspecificity⟩ := h.same_quality h' fun r => Iff.rfl
  have hle : i ≤ j :=
    h.first j range' h'.entry h'.covers (MediaRange.ties_iff.mpr ⟨hquality.symm, hspecificity.symm⟩)
  have hge : j ≤ i :=
    h'.first i range h.entry h.covers (MediaRange.ties_iff.mpr ⟨hquality, hspecificity⟩)
  obtain rfl := Nat.le_antisymm hle hge
  exact ⟨rfl, Option.some.inj (h.entry.symm.trans h'.entry)⟩

end FirstOfBest

/-! ## Headers with the same elements -/

/-- The same elements, in whatever order and however often each is listed. -/
def SameElements (header header' : String) : Prop :=
  ∀ element, element ∈ (splitOn ',' header.toList).map trim ↔
    element ∈ (splitOn ',' header'.toList).map trim

namespace Accept

variable {accept accept' : Accept} {header header' : String}

/-- The elements of which the qualities are numbers are put in the order of preference. -/
theorem pairwise_precedes_arrange {elements : List MediaRange} (hnum : AllNumeric elements) :
    (MediaRange.arrange elements).Pairwise Precedes := by
  obtain ⟨s, hs, harranged⟩ := exists_arranged elements hnum
  rw [← hs]
  exact harranged.pairwise_precedes

theorem mem_elements_of_sameElements (h : SameElements header header') :
    range ∈ elements header ↔ range ∈ elements header' := by
  rw [elements_eq_filterMap_map, elements_eq_filterMap_map, List.mem_filterMap, List.mem_filterMap]
  exact exists_congr fun element => and_congr_left fun _ => h element

/-- What a header of qualities that are numbers lists is read, and in the order of preference. -/
theorem exists_ordered (hnum : AllNumeric (elements header)) :
    ∃ accept, parse header = .ok accept ∧ accept.ranges.Pairwise Precedes ∧
      ∀ r, r ∈ accept.ranges ↔ r ∈ elements header :=
  ⟨_, parse_eq_arrange (.inl hnum), pairwise_precedes_arrange hnum,
    fun _ => (MediaRange.arrange_perm _).mem_iff⟩

theorem exists_deciding?_iff :
    (∃ i range, accept.deciding? mediaType = some (i, range)) ↔
      ∃ range ∈ accept.ranges, range.covers mediaType = true := by
  rcases accept.deciding?_cases mediaType with ⟨hnone, hnot⟩ | ⟨i, range, hsome, hfirst⟩
  · rw [hnone]
    constructor
    · rintro ⟨i, range, ⟨⟩⟩
    · rintro ⟨range, hrange, hcovers⟩
      exact absurd hcovers (hnot range hrange)
  · exact iff_of_true ⟨i, range, hsome⟩
      ⟨range, List.mem_of_getElem? hfirst.entry, hfirst.covers⟩

/-- The search finds the first of the best. -/
theorem deciding?_eq_some_iff (hordered : accept.ranges.Pairwise Precedes)
    (hnum : AllNumeric accept.ranges) :
    accept.deciding? mediaType = some (i, range) ↔ FirstOfBest accept.ranges mediaType i range := by
  have hfound : ∀ {i range}, accept.deciding? mediaType = some (i, range) →
      FirstOfBest accept.ranges mediaType i range := by
    intro i range h
    rcases accept.deciding?_cases mediaType with ⟨hnone, -⟩ | ⟨i', range', hsome, hfirst⟩
    · rw [hnone] at h
      cases h
    · rw [hsome] at h
      cases h
      exact hfirst.firstOfBest hordered hnum
  refine ⟨hfound, fun h => ?_⟩
  obtain ⟨i', range', hsome⟩ :=
    exists_deciding?_iff.mpr ⟨range, List.mem_of_getElem? h.entry, h.covers⟩
  obtain ⟨rfl, rfl⟩ := h.unique (hfound hsome)
  exact hsome

/-- The same ranges in the order of preference give a media type the same quality, or none. -/
theorem rel_quality? (hordered : accept.ranges.Pairwise Precedes)
    (hordered' : accept'.ranges.Pairwise Precedes) (hnum : AllNumeric accept.ranges)
    (hmem : ∀ r, r ∈ accept.ranges ↔ r ∈ accept'.ranges) :
    Option.Rel Quality.Same (accept.quality? mediaType) (accept'.quality? mediaType) := by
  have hnum' : AllNumeric accept'.ranges := fun r hr => hnum r ((hmem r).mpr hr)
  have hboth : (∃ i range, accept.deciding? mediaType = some (i, range)) ↔
      ∃ i range, accept'.deciding? mediaType = some (i, range) := by
    rw [exists_deciding?_iff, exists_deciding?_iff]
    exact exists_congr fun r => and_congr_left fun _ => hmem r
  unfold quality?
  rcases hd : accept.deciding? mediaType with _ | ⟨i, range⟩
  · rcases hd' : accept'.deciding? mediaType with _ | ⟨j, range'⟩
    · exact .none
    · obtain ⟨i, range, hsome⟩ := hboth.mpr ⟨j, range', hd'⟩
      rw [hd] at hsome
      cases hsome
  · obtain ⟨j, range', hd'⟩ := hboth.mp ⟨i, range, hd⟩
    rw [hd']
    have hbest := (deciding?_eq_some_iff hordered hnum).mp hd
    have hbest' := (deciding?_eq_some_iff hordered' hnum').mp hd'
    exact .some (hbest.same_quality hbest' hmem).1

/-- A header whose qualities are all between 0 and 1 is read, and a range decides the quality of a
media type if any covers it: the first of the best. The quality is the same number in every header
with the same elements. -/
theorem deciding?_finds_firstOfBest (header mediaType : String)
    (hunit : ∀ range ∈ elements header, range.quality.InUnit) :
    ∃ accept, parse header = .ok accept ∧
    ((∃ i range, accept.deciding? mediaType = some (i, range)) ↔
      ∃ range ∈ accept.ranges, range.covers mediaType = true) ∧
    (∀ i range, accept.deciding? mediaType = some (i, range) ↔
      FirstOfBest accept.ranges mediaType i range) ∧
    ∀ header', SameElements header header' →
      ∃ accept', parse header' = .ok accept' ∧
        Option.Rel Quality.Same (accept.quality? mediaType) (accept'.quality? mediaType) := by
  have hnum : AllNumeric (elements header) := fun r hr => (hunit r hr).isNaN_eq_false
  obtain ⟨accept, hparse, hordered, hlisted⟩ := exists_ordered hnum
  have hnumeric : AllNumeric accept.ranges := fun r hr => hnum r ((hlisted r).mp hr)
  refine ⟨accept, hparse, exists_deciding?_iff,
    fun i range => deciding?_eq_some_iff hordered hnumeric, fun header' hsame => ?_⟩
  have hnum' : AllNumeric (elements header') :=
    fun r hr => hnum r ((mem_elements_of_sameElements hsame).mpr hr)
  obtain ⟨accept', hparse', hordered', hlisted'⟩ := exists_ordered hnum'
  refine ⟨accept', hparse', rel_quality? hordered hordered' hnumeric fun r => ?_⟩
  rw [hlisted, hlisted']
  exact mem_elements_of_sameElements hsame

/-- A range that is listed with either zero, and one for everything. -/
def acceptTwoZeros : String :=
  "text/*;q=-0, */*;q=0.5, text/*;q=0"

/-- What is read of it. -/
def twoZeros : Accept :=
  ⟨[⟨"*", "*", ⟨0x3F000000⟩⟩, ⟨"text", "*", ⟨0x80000000⟩⟩, ⟨"text", "*", ⟨0⟩⟩]⟩

/-- The same elements the other way round, one of them twice. -/
def acceptZerosTurned : String :=
  "text/*;q=0,*/*;q=0.5,text/*;q=-0,*/*;q=0.5"

/-- What is read of that. -/
def zerosTurned : Accept :=
  ⟨[⟨"*", "*", ⟨0x3F000000⟩⟩, ⟨"*", "*", ⟨0x3F000000⟩⟩, ⟨"text", "*", ⟨0⟩⟩,
    ⟨"text", "*", ⟨0x80000000⟩⟩]⟩

/-- Either zero may come first, and they are the same number. -/
theorem deciding?_acceptTwoZeros :
    (∀ range ∈ elements acceptTwoZeros, range.quality.InUnit) ∧
    parse acceptTwoZeros = .ok twoZeros ∧
    twoZeros.deciding? "text/plain" = some (1, ⟨"text", "*", ⟨0x80000000⟩⟩) ∧
    FirstOfBest twoZeros.ranges "text/plain" 1 ⟨"text", "*", ⟨0x80000000⟩⟩ ∧
    SameElements acceptTwoZeros acceptZerosTurned ∧
    parse acceptZerosTurned = .ok zerosTurned ∧ zerosTurned.quality? "text/plain" = some ⟨0⟩ ∧
    Option.Rel Quality.Same (twoZeros.quality? "text/plain")
      (zerosTurned.quality? "text/plain") := by
  have hlisted : elements acceptTwoZeros =
      [⟨"text", "*", ⟨0x80000000⟩⟩, ⟨"*", "*", ⟨0x3F000000⟩⟩, ⟨"text", "*", ⟨0⟩⟩] := by rfl
  have hunit : ∀ range ∈ elements acceptTwoZeros, range.quality.InUnit := by
    rw [hlisted]
    decide
  have hsame : SameElements acceptTwoZeros acceptZerosTurned := by
    have hforth : ∀ element ∈ (splitOn ',' acceptTwoZeros.toList).map trim,
        element ∈ (splitOn ',' acceptZerosTurned.toList).map trim := by decide
    have hback : ∀ element ∈ (splitOn ',' acceptZerosTurned.toList).map trim,
        element ∈ (splitOn ',' acceptTwoZeros.toList).map trim := by decide
    exact fun element => ⟨hforth element, hback element⟩
  have hparse : parse acceptTwoZeros = .ok twoZeros := by rfl
  have hparse' : parse acceptZerosTurned = .ok zerosTurned := by rfl
  have hdeciding : twoZeros.deciding? "text/plain" =
      some (1, ⟨"text", "*", ⟨0x80000000⟩⟩) := by rfl
  obtain ⟨accept, haccept, -, hbest, hquality⟩ :=
    deciding?_finds_firstOfBest acceptTwoZeros "text/plain" hunit
  obtain ⟨accept', haccept', hrel⟩ := hquality _ hsame
  obtain rfl := Except.ok.inj (hparse.symm.trans haccept)
  obtain rfl := Except.ok.inj (hparse'.symm.trans haccept')
  exact ⟨hunit, hparse, hdeciding, (hbest _ _).mp hdeciding, hsame, hparse', by rfl, hrel⟩

end Accept

end AppServer.Negotiation
