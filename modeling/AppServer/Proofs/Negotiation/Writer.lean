import AppServer.Negotiation.Builtin
import AppServer.Proofs.Negotiation.Choice
import Mathlib.Data.List.Flatten

/-!
# The choice of a writer

A media type on offer is wanted if the range that decides it has a quality other than zero. The
writer of a response is the wanted offer whose deciding range no other outranks, the first of these
in the order of registration; there is none just when nothing on offer is wanted.
-/

namespace AppServer.Negotiation

open AppServer.Text

/-- The client wants the media type, by the range `d` of its header. -/
structure Wanted (elements : List MediaRange) (mediaType : String) (d : Listed) : Prop where
  decides : Decides elements mediaType d
  nonzero : ¬ d.1.quality.Same .zero

namespace Registry

/-- The `j`th media type of the `i`th provider. -/
def Offers (r : Registry) (i j : Nat) (offer : Selected) : Prop :=
  r.providers[i]? = some offer.provider ∧ offer.provider.produces[j]? = some offer.mediaType

/-- The offer is wanted; every other wanted offer is decided by a range that its own outranks, or by
one that does not outrank its own and then comes later in the order of registration. -/
def Best (r : Registry) (elements : List MediaRange) (offer : Selected) : Prop :=
  ∃ i j d, r.Offers i j offer ∧ Wanted elements offer.mediaType d ∧
    ∀ i' j' other d', r.Offers i' j' other → Wanted elements other.mediaType d' →
      Outranks d d' ∨ (¬ Outranks d' d ∧ (i < i' ∨ (i = i' ∧ j ≤ j')))

/-! ## Ranks -/

/-- The rank that the arranged ranges give to what `d` decides. -/
structure Rank.Of (s : List Listed) (rank : Rank) (d : Listed) : Prop where
  place : s[rank.position]? = some d
  quality : rank.quality = d.1.quality
  specificity : rank.specificity = d.1.specificity

variable {elements : List MediaRange} {s : List Listed}

theorem Rank.above_iff_lex {a b : Rank} (ha : a.quality.isNaN = false)
    (hb : b.quality.isNaN = false) :
    a.above b = true ↔ b.quality.rank < a.quality.rank ∨
      (b.quality.rank = a.quality.rank ∧
        (b.specificity < a.specificity ∨
          (b.specificity = a.specificity ∧ a.position < b.position))) := by
  rw [Rank.above, Quality.compare?_eq hb ha]
  cases hcompare : compare b.quality.rank a.quality.rank with
  | lt =>
      rw [Int.compare_eq_lt] at hcompare
      simp only [hcompare, true_or]
  | eq =>
      rw [Int.compare_eq_eq] at hcompare
      simp only [Bool.or_eq_true, Bool.and_eq_true, beq_iff_eq, decide_eq_true_eq]
      omega
  | gt =>
      rw [Int.compare_eq_gt] at hcompare
      simp only [Bool.false_eq_true, false_iff]
      omega

/-- Ranks compare as the places of the arranged ranges. -/
theorem Rank.Of.above_iff {a b : Rank} {d d' : Listed} (hs : Arranged elements s)
    (hnum : AllNumeric elements) (ha : a.Of s d) (hb : b.Of s d') :
    a.above b = true ↔ a.position < b.position := by
  have hd := hnum.numeric (hs.mem_iff.mp (List.mem_of_getElem? ha.place))
  have hd' := hnum.numeric (hs.mem_iff.mp (List.mem_of_getElem? hb.place))
  have hlt := hs.outranks_iff_lt hnum ha.place hb.place
  have hgt := hs.outranks_iff_lt hnum hb.place ha.place
  rw [Outranks.iff_lex hd hd'] at hlt
  rw [Outranks.iff_lex hd' hd] at hgt
  rw [Rank.above_iff_lex (ha.quality ▸ hd) (hb.quality ▸ hd'), ha.quality, hb.quality,
    ha.specificity, hb.specificity]
  -- header places break the ties that places among the arranged ranges break
  omega

/-- In the unit interval only a quality of zero is excluded. -/
theorem excluded_iff {q : Quality} (h : q.InUnit) :
    (q.less .zero || q.compare? .zero == some .eq) = true ↔ q.Same .zero := by
  have hnum := h.isNaN_eq_false
  have hzero : Quality.zero.isNaN = false := by decide
  have hnonneg : ¬ q.rank < Quality.zero.rank := by
    have hzero_le := h.1
    rw [Quality.less_iff hzero hnum, Quality.same_iff hzero hnum] at hzero_le
    omega
  rw [Bool.or_eq_true, Quality.less_iff hnum hzero, beq_iff_eq]
  exact or_iff_right hnonneg

theorem Rank.Of.unique {a b : Rank} {d : Listed} (hs : Arranged elements s)
    (hnum : AllNumeric elements) (ha : a.Of s d) (hb : b.Of s d) : a = b := by
  have hlt := hs.outranks_iff_lt hnum ha.place hb.place
  have hgt := hs.outranks_iff_lt hnum hb.place ha.place
  have hplace : a.position = b.position := by
    rw [hlt] at hgt
    omega
  have hquality : a.quality = b.quality := ha.quality.trans hb.quality.symm
  have hspecificity : a.specificity = b.specificity := ha.specificity.trans hb.specificity.symm
  cases a
  cases b
  rw [Rank.mk.injEq]
  exact ⟨hquality, hspecificity, hplace⟩

theorem exists_rank {mediaType : String} {d : Listed} (hs : Arranged elements s)
    (h : Wanted elements mediaType d) : ∃ rank : Rank, rank.Of s d := by
  obtain ⟨k, hk⟩ := List.getElem?_of_mem (hs.mem_iff.mpr h.decides.listed)
  exact ⟨⟨d.1.quality, d.1.specificity, k⟩, hk, rfl, rfl⟩

/-- A media type has a rank just when it is wanted, that of the range that decides it. -/
theorem rank?_eq_some_iff (hs : Arranged elements s)
    (hunit : ∀ x ∈ elements, x.quality.InUnit) {mediaType : String} {rank : Rank} :
    rank? (.mk (s.map Prod.fst)) mediaType = some rank ↔
      ∃ d, rank.Of s d ∧ Wanted elements mediaType d := by
  have hnum : AllNumeric elements := fun x hx => (hunit x hx).isNaN_eq_false
  rcases hs.deciding? hnum mediaType with ⟨hnone, hnot⟩ | ⟨k, d, hsome, hplace, hd⟩
  · rw [rank?, hnone]
    constructor
    · rintro ⟨⟩
    · rintro ⟨d, -, hd⟩
      exact absurd hd.decides (hnot d)
  · have hexcluded := excluded_iff (hunit d.1 (List.mem_of_getElem? hd.listed))
    rw [rank?, hsome]
    by_cases hzero : d.1.quality.Same .zero
    · simp only [hexcluded.mpr hzero, if_true]
      constructor
      · rintro ⟨⟩
      · rintro ⟨d', -, hd'⟩
        rw [hd'.decides.unique hnum hd] at hd'
        exact absurd hzero hd'.nonzero
    · simp only [mt hexcluded.mp hzero]
      constructor
      · rintro ⟨⟩
        exact ⟨d, ⟨hplace, rfl, rfl⟩, hd, hzero⟩
      · rintro ⟨d', hof, hd'⟩
        rw [hd'.decides.unique hnum hd] at hof
        have hof' : Rank.Of s ⟨d.1.quality, d.1.specificity, k⟩ d := ⟨hplace, rfl, rfl⟩
        rw [hof'.unique hs hnum hof]
        rfl

/-! ## Offers in the order of registration -/

/-- What is on offer, each with the numbers of its provider and of its entry there. -/
def numbered (r : Registry) : List (Selected × Nat × Nat) :=
  r.providers.zipIdx.flatMap fun (p, i) => p.produces.zipIdx.map fun (t, j) => (⟨p, t⟩, i, j)

theorem map_fst_numbered (r : Registry) : r.numbered.map Prod.fst = r.offers := by
  have hinner : ∀ (p : Provider) (i : Nat),
      (p.produces.zipIdx.map fun (t, j) => ((⟨p, t⟩ : Selected), i, j)).map Prod.fst =
        p.produces.map (Selected.mk p) := by
    intro p i
    rw [List.map_map, ← List.zipIdx_map_fst 0 p.produces, List.map_map, List.zipIdx_map_fst]
    rfl
  rw [numbered, offers, List.map_flatMap, ← List.zipIdx_map_fst 0 r.providers, List.flatMap_map]
  simp [hinner]

theorem mem_numbered {r : Registry} {offer : Selected} {i j : Nat} :
    (offer, i, j) ∈ r.numbered ↔ r.Offers i j offer := by
  simp only [numbered, List.mem_flatMap, List.mem_map, Prod.exists, Prod.mk.injEq,
    List.mem_zipIdx_iff_getElem?, Offers]
  constructor
  · rintro ⟨p, i', hp, t, j', ht, rfl, rfl, rfl⟩
    exact ⟨hp, ht⟩
  · rintro ⟨hp, ht⟩
    exact ⟨_, i, hp, _, j, ht, rfl, rfl, rfl⟩

theorem pairwise_zipIdx {α : Type} (l : List α) :
    l.zipIdx.Pairwise fun a b => a.2 < b.2 := by
  rw [List.pairwise_iff_getElem]
  intro i j hi hj hij
  simpa using hij

/-- Offers are numbered in ascending order. -/
theorem pairwise_numbered (r : Registry) :
    r.numbered.Pairwise fun a b => a.2.1 < b.2.1 ∨ (a.2.1 = b.2.1 ∧ a.2.2 < b.2.2) := by
  rw [numbered, List.pairwise_flatMap]
  constructor
  · rintro ⟨p, i⟩ -
    rw [List.pairwise_map]
    exact (pairwise_zipIdx _).imp fun h => .inr ⟨rfl, h⟩
  · refine (pairwise_zipIdx _).imp ?_
    rintro ⟨p, i⟩ ⟨p', i'⟩ hlt x hx y hy
    obtain ⟨_, -, rfl⟩ := List.mem_map.mp hx
    obtain ⟨_, -, rfl⟩ := List.mem_map.mp hy
    exact .inl hlt

/-- The numbers of two offers compare as their places do. -/
theorem le_of_numbered {r : Registry} {n n' i j i' j' : Nat} {offer other : Selected}
    (h : r.numbered[n]? = some (offer, i, j)) (h' : r.numbered[n']? = some (other, i', j'))
    (hle : n ≤ n') : i < i' ∨ (i = i' ∧ j ≤ j') := by
  obtain ⟨hn, h⟩ := List.getElem?_eq_some_iff.mp h
  obtain ⟨hn', h'⟩ := List.getElem?_eq_some_iff.mp h'
  rcases Nat.lt_or_eq_of_le hle with hlt | rfl
  · have hearlier : i < i' ∨ (i = i' ∧ j < j') := by
      have := List.pairwise_iff_getElem.mp r.pairwise_numbered n n' hn hn' hlt
      rwa [h, h'] at this
    omega
  · rw [h] at h'
    cases h'
    exact .inr ⟨rfl, Nat.le_refl _⟩

theorem Offers.exists_place {r : Registry} {i j : Nat} {offer : Selected}
    (h : r.Offers i j offer) :
    ∃ n : Nat, r.numbered[n]? = some (offer, i, j) ∧ r.offers[n]? = some offer := by
  obtain ⟨n, hn⟩ := List.getElem?_of_mem (mem_numbered.mpr h)
  refine ⟨n, hn, ?_⟩
  rw [← map_fst_numbered, List.getElem?_map, hn, Option.map_some]

theorem exists_numbers {r : Registry} {n : Nat} {offer : Selected}
    (h : r.offers[n]? = some offer) :
    ∃ i j, r.numbered[n]? = some (offer, i, j) ∧ r.Offers i j offer := by
  rw [← map_fst_numbered, List.getElem?_map, Option.map_eq_some_iff] at h
  obtain ⟨⟨_, i, j⟩, hn, rfl⟩ := h
  exact ⟨i, j, hn, mem_numbered.mp (List.mem_of_getElem? hn)⟩

/-! ## The choice -/

theorem improve_eq_keepBest (accept : Accept) :
    improve accept = keepBest (fun offer => rank? accept offer.mediaType) Rank.above := by
  funext best offer
  simp only [improve, keepBest]
  cases rank? accept offer.mediaType with
  | none => rfl
  | some rank => cases best <;> rfl

/-- The scan over the offers ends with the best one, if any is wanted. -/
theorem foldl_improve (hs : Arranged elements s) (hunit : ∀ x ∈ elements, x.quality.InUnit)
    (r : Registry) :
    (r.offers.foldl (improve (.mk (s.map Prod.fst))) none = none ∧
        ∀ i j offer d, r.Offers i j offer → ¬ Wanted elements offer.mediaType d) ∨
      ∃ rank chosen, r.offers.foldl (improve (.mk (s.map Prod.fst))) none = some (rank, chosen) ∧
        r.Best elements chosen := by
  have hnum : AllNumeric elements := fun x hx => (hunit x hx).isNaN_eq_false
  have hrank : ∀ t rank, rank? (.mk (s.map Prod.fst)) t = some rank ↔
      ∃ d, rank.Of s d ∧ Wanted elements t d := fun _ _ => rank?_eq_some_iff hs hunit
  -- ranks are as high as their places are early, so the scan ends with the earliest place
  have hvalue : ∀ (x y : Selected) (k k' : Rank),
      rank? (.mk (s.map Prod.fst)) x.mediaType = some k →
      rank? (.mk (s.map Prod.fst)) y.mediaType = some k' →
      (k.above k' = true ↔ -(k'.position : Int) < -(k.position : Int)) := by
    intro x y k k' hx hy
    obtain ⟨d, hd, -⟩ := (hrank _ _).mp hx
    obtain ⟨d', hd', -⟩ := (hrank _ _).mp hy
    rw [hd.above_iff hs hnum hd']
    omega
  have hscan := scanned_foldl _ Rank.above _ hvalue r.offers
  rw [improve_eq_keepBest]
  generalize List.foldl _ _ _ = best at hscan ⊢
  cases hscan with
  | none hkeyless =>
      refine .inl ⟨rfl, fun i j offer d hoffer hd => ?_⟩
      obtain ⟨n, -, hn⟩ := hoffer.exists_place
      obtain ⟨rank, hof⟩ := exists_rank hs hd
      have hkey := (hrank _ _).mpr ⟨d, hof, hd⟩
      rw [hkeyless offer (List.mem_of_getElem? hn)] at hkey
      cases hkey
  | @some n rank chosen hbest =>
      obtain ⟨i, j, hn, hoffer⟩ := exists_numbers hbest.entry
      obtain ⟨d, hof, hd⟩ := (hrank _ _).mp hbest.key
      refine .inr ⟨rank, chosen, rfl, i, j, d, hoffer, hd, ?_⟩
      intro i' j' other d' hother hd'
      obtain ⟨n', hn', hentry⟩ := hother.exists_place
      obtain ⟨rank', hof'⟩ := exists_rank hs hd'
      have hhigh := hbest.highest n' other rank' hentry ((hrank _ _).mpr ⟨d', hof', hd'⟩)
      rw [hs.outranks_iff_lt hnum hof.place hof'.place,
        hs.outranks_iff_lt hnum hof'.place hof.place]
      rcases hhigh with hlt | ⟨heq, hle⟩
      · left
        omega
      · exact .inr ⟨by omega, le_of_numbered hn hn' hle⟩

theorem Offers.unique {r : Registry} {i j : Nat} {offer other : Selected}
    (h : r.Offers i j offer) (h' : r.Offers i j other) : offer = other := by
  obtain ⟨hprovider, hentry⟩ := h
  obtain ⟨hprovider', hentry'⟩ := h'
  have hsame : offer.provider = other.provider :=
    Option.some.inj (hprovider.symm.trans hprovider')
  rw [← hsame] at hentry'
  have htype : offer.mediaType = other.mediaType := Option.some.inj (hentry.symm.trans hentry')
  cases offer
  cases other
  rw [Selected.mk.injEq]
  exact ⟨hsame, htype⟩

/-- At most one offer is the best. -/
theorem Best.unique (hnum : AllNumeric elements) {r : Registry} {offer other : Selected}
    (h : r.Best elements offer) (h' : r.Best elements other) : offer = other := by
  obtain ⟨i, j, d, hoffer, hd, hbest⟩ := h
  obtain ⟨i', j', d', hother, hd', hbest'⟩ := h'
  have hle := hbest i' j' other d' hother hd'
  have hge := hbest' i j offer d hoffer hd
  have hasymm : Outranks d d' → ¬ Outranks d' d :=
    Outranks.asymm (hnum.numeric hd.decides.listed) (hnum.numeric hd'.decides.listed)
  have hnumbers : i = i' ∧ j = j' := by
    rcases hle with hout | ⟨hnot, hle⟩
    · rcases hge with hout' | ⟨hnot', -⟩
      · exact absurd hout' (hasymm hout)
      · exact absurd hout hnot'
    · rcases hge with hout' | ⟨-, hge⟩
      · exact absurd hout' hnot
      · omega
  obtain ⟨rfl, rfl⟩ := hnumbers
  exact hoffer.unique hother

section Scan

open AppServer.Pipeline

variable {r : Registry} {header : String}

theorem selectWriter_eq_parse (hproviders : r.providers ≠ [])
    (helements : Accept.elements header ≠ []) :
    r.selectWriter (some header) = do
      let accept ← Accept.parse header
      match r.offers.foldl (improve accept) none with
      | some (_, chosen) => return .ok chosen
      | none => return .error (.notAcceptable (trimmed header)) := by
  have hraw : (trimmed header).isEmpty = false := by
    rw [String.isEmpty_eq_false_iff]
    intro hempty
    rw [← Accept.elements_trimmed, hempty] at helements
    exact helements rfl
  obtain ⟨first, rest, hfirst⟩ := List.exists_cons_of_ne_nil hproviders
  simp only [selectWriter, hfirst, Option.map_some, hraw, Accept.parse_trimmed]
  cases hparse : Accept.parse header with
  | error p => rfl
  | ok accept =>
      have hlisted : accept.isEmpty = false := by
        rw [Accept.isEmpty, List.isEmpty_eq_false_iff]
        intro hnil
        have hperm := Accept.perm_of_parse hparse
        rw [hnil] at hperm
        exact helements hperm.nil_eq.symm
      simp only [bind, Except.bind, hlisted]
      rfl

/-- Where there is something to choose from and something to choose by, the scan over the offers
decides. -/
theorem selectWriter_eq_scan {accept : Accept} (hproviders : r.providers ≠ [])
    (helements : Accept.elements header ≠ []) (hparse : Accept.parse header = .ok accept) :
    r.selectWriter (some header) = .ok
      (match r.offers.foldl (improve accept) none with
      | some (_, chosen) => .ok chosen
      | none => .error (.notAcceptable (trimmed header))) := by
  rw [selectWriter_eq_parse hproviders helements, hparse]
  simp only [bind, Except.bind]
  rcases r.offers.foldl (improve accept) none with _ | ⟨rank, chosen⟩
  · rfl
  · rfl

/-- A header that cannot be read without a panic lists something, and the panic is passed on. -/
theorem selectWriter_of_panic {p : Payload} (hproviders : r.providers ≠ [])
    (hparse : Accept.parse header = .error p) : r.selectWriter (some header) = .error p := by
  have helements : Accept.elements header ≠ [] := by
    have hlong := (Accept.parse_eq_error hparse).2.2
    rintro hnil
    rw [hnil] at hlong
    cases hlong
  rw [selectWriter_eq_parse hproviders helements, hparse]
  rfl

/-- Choosing a writer panics just where reading the header does. -/
theorem selectWriter_eq_error_iff {accept : Option String} {p : Payload} :
    r.selectWriter accept = .error p ↔
      r.providers ≠ [] ∧ ∃ header, accept = some header ∧ Accept.parse header = .error p := by
  constructor
  · intro h
    unfold selectWriter at h
    split at h
    · cases h
    · rename_i first rest hproviders
      refine ⟨hproviders ▸ List.cons_ne_nil first rest, ?_⟩
      cases accept with
      | none => cases h
      | some header =>
          refine ⟨header, rfl, ?_⟩
          simp only [Option.map_some] at h
          split at h
          · cases h
          · rw [← Accept.parse_trimmed]
            cases hparse : Accept.parse (trimmed header) with
            | error p' =>
                simp only [hparse, bind, Except.bind] at h
                cases h
                rfl
            | ok accept =>
                simp only [hparse, bind, Except.bind] at h
                split at h
                · cases h
                · split at h <;> cases h
  · rintro ⟨hproviders, header, rfl, hparse⟩
    exact selectWriter_of_panic hproviders hparse

/-- It panics with a text only. -/
theorem dropped_of_selectWriter {accept : Option String} {p : Payload}
    (h : r.selectWriter accept = .error p) : p.dropped = none := by
  obtain ⟨-, header, -, hparse⟩ := selectWriter_eq_error_iff.mp h
  rw [(Accept.parse_eq_error hparse).1]
  rfl

end Scan

/-- A non-empty registry chooses the best of what the client wants, and refuses a header, which the
refusal shows without the blanks around it, just when nothing on offer is wanted. -/
theorem selectWriter_best (r : Registry) (header : String) (hproviders : r.providers ≠ [])
    (helements : Accept.elements header ≠ [])
    (hunit : ∀ range ∈ Accept.elements header, range.quality.InUnit) :
    (∃ result, r.selectWriter (some header) = .ok result) ∧
    (∀ chosen, r.selectWriter (some header) = .ok (.ok chosen) ↔
      r.Best (Accept.elements header) chosen) ∧
    ∀ e, r.selectWriter (some header) = .ok (.error e) ↔
      e = .notAcceptable (trimmed header) ∧
        ∀ i j offer d, r.Offers i j offer → ¬ Wanted (Accept.elements header) offer.mediaType d := by
  have hnum : AllNumeric (Accept.elements header) := fun x hx => (hunit x hx).isNaN_eq_false
  obtain ⟨s, harrange, hs⟩ := exists_arranged (Accept.elements header) hnum
  rw [selectWriter_eq_scan hproviders helements (Accept.parse_eq_arrange (.inl hnum)), ← harrange]
  refine ⟨⟨_, rfl⟩, ?_⟩
  rcases foldl_improve hs hunit r with ⟨hnone, hnot⟩ | ⟨rank, best, hsome, hbest⟩
  · rw [hnone]
    constructor
    · intro chosen
      constructor
      · rintro ⟨⟩
      · rintro ⟨i, j, d, hoffer, hd, -⟩
        exact absurd hd (hnot i j chosen d hoffer)
    · intro e
      rw [Except.ok.injEq, Except.error.injEq]
      exact ⟨fun h => ⟨h.symm, hnot⟩, fun h => h.1.symm⟩
  · rw [hsome]
    constructor
    · intro chosen
      rw [Except.ok.injEq, Except.ok.injEq]
      constructor
      · rintro rfl
        exact hbest
      · exact fun h => hbest.unique hnum h
    · intro e
      constructor
      · rintro ⟨⟩
      · rintro ⟨-, hnot⟩
        obtain ⟨i, j, d, hoffer, hd, -⟩ := hbest
        exact absurd hd (hnot i j best d hoffer)

/-- A client that wants XML as text more than anything of `application`, and no JSON. -/
def acceptText : String :=
  " text/xml;q=0.5, application/*;q=0.25, application/json;q=0"

/-- The second type of the second provider is chosen. -/
theorem selectWriter_acceptText :
    Registry.standard.providers ≠ [] ∧ Accept.elements acceptText ≠ [] ∧
    (∀ range ∈ Accept.elements acceptText, range.quality.InUnit) ∧
    Registry.standard.selectWriter (some acceptText) = .ok (.ok ⟨.xml, "text/xml"⟩) ∧
    Registry.standard.Best (Accept.elements acceptText) ⟨.xml, "text/xml"⟩ := by
  have helements : Accept.elements acceptText =
      [⟨"text", "xml", ⟨0x3F000000⟩⟩, ⟨"application", "*", ⟨0x3E800000⟩⟩,
        ⟨"application", "json", ⟨0⟩⟩] := by rfl
  have hchosen : Registry.standard.selectWriter (some acceptText) =
      .ok (.ok ⟨.xml, "text/xml"⟩) := by
    rfl
  have hproviders : Registry.standard.providers ≠ [] := List.cons_ne_nil _ _
  have hlisted : Accept.elements acceptText ≠ [] := by
    rw [helements]
    exact List.cons_ne_nil _ _
  have hunit : ∀ range ∈ Accept.elements acceptText, range.quality.InUnit := by
    rw [helements]
    decide
  exact ⟨hproviders, hlisted, hunit, hchosen,
    ((selectWriter_best _ _ hproviders hlisted hunit).2.1 _).mp hchosen⟩

end Registry

end AppServer.Negotiation
