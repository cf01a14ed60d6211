import AppServer.Proofs.Negotiation.Writer

/-!
# Choosing and accepting

A media type is accepted if its quality is above zero, and left out of the choice if its quality is
zero or below. A quality that is not a number is neither. The two agree on every refusal, and on
every choice but one: where such a quality comes first among the offers that are not left out, it
compares with nothing that comes later, and a media type is chosen that is not accepted.
-/

namespace AppServer.Negotiation

open AppServer.Text

namespace Quality

variable {p q : Quality}

theorem isNaN_zero : zero.isNaN = false := by decide

theorem less_of_isNaN_left (h : p.isNaN = true) : p.less q = false := by
  simp [less, h]

theorem less_of_isNaN_right (h : q.isNaN = true) : p.less q = false := by
  simp [less, h]

theorem compare?_of_isNaN_left (h : p.isNaN = true) : p.compare? q = none := by
  simp [compare?, h]

theorem less_self (q : Quality) : q.less q = false := by
  simp [less]

/-- Zero or below, which a quality that is not a number is not. -/
def atMostZero (q : Quality) : Bool :=
  q.less .zero || q.compare? .zero == some .eq

theorem atMostZero_iff (h : q.isNaN = false) : q.atMostZero = true ↔ q.rank ≤ zero.rank := by
  have hless := less_iff h isNaN_zero
  have hsame := same_iff h isNaN_zero
  rw [atMostZero, Bool.or_eq_true, hless, beq_iff_eq]
  show _ ∨ q.Same zero ↔ _
  rw [hsame]
  omega

/-- Among numbers, what is not above zero is at most zero. -/
theorem zero_less_eq (h : q.isNaN = false) : zero.less q = !q.atMostZero := by
  have hless := less_iff isNaN_zero h
  have hmost := atMostZero_iff h
  cases hq : q.atMostZero with
  | true =>
      have hle := hmost.mp hq
      show zero.less q = false
      rw [← Bool.not_eq_true, hless]
      omega
  | false =>
      have hgt : ¬ q.rank ≤ zero.rank := by
        intro hle
        have := hmost.mpr hle
        simp [hq] at this
      show zero.less q = true
      rw [hless]
      omega

end Quality

namespace Accept

variable {a : Accept} {mediaType : String} {q : Quality}

/-- The client gives the media type no quality, or one of at most zero. -/
def excludes (a : Accept) (mediaType : String) : Bool :=
  (a.quality? mediaType).all Quality.atMostZero

theorem excludes_of_quality? (h : a.quality? mediaType = some q) :
    a.excludes mediaType = q.atMostZero := by
  simp [excludes, h]

theorem accepts_of_quality? (h : a.quality? mediaType = some q) :
    a.accepts mediaType = Quality.zero.less q := by
  simp [accepts, h]

theorem accepts_of_excludes (h : a.excludes mediaType = true) : a.accepts mediaType = false := by
  cases hq : a.quality? mediaType with
  | none => simp [accepts, hq]
  | some q =>
      rw [excludes_of_quality? hq] at h
      rw [accepts_of_quality? hq]
      cases hnan : q.isNaN with
      | true => exact Quality.less_of_isNaN_right hnan
      | false => simp [Quality.zero_less_eq hnan, h]

/-- What is not excluded is accepted if its quality is a number. -/
theorem accepts_of_not_excludes (h : a.excludes mediaType = false)
    (hq : a.quality? mediaType = some q) : a.accepts mediaType = !q.isNaN := by
  rw [excludes_of_quality? hq] at h
  rw [accepts_of_quality? hq]
  cases hnan : q.isNaN with
  | true => exact Quality.less_of_isNaN_right hnan
  | false => simp [Quality.zero_less_eq hnan, h]

end Accept

namespace Registry

variable {accept : Accept} {offers : List Selected} {best : Option (Rank × Selected)}
  {rank top : Rank} {offer chosen : Selected}

/-! ## Ranks with any quality -/

theorem quality?_of_rank? {mediaType : String} (h : rank? accept mediaType = some rank) :
    accept.quality? mediaType = some rank.quality := by
  rw [Accept.quality?]
  rw [rank?] at h
  split at h
  · cases h
  · rename_i hdeciding
    split at h
    · cases h
    · cases h
      rw [hdeciding]
      rfl

/-- The excluded media types are those without a rank. -/
theorem excludes_eq_isNone (accept : Accept) (mediaType : String) :
    accept.excludes mediaType = (rank? accept mediaType).isNone := by
  rw [Accept.excludes, Accept.quality?, rank?]
  cases accept.deciding? mediaType with
  | none => rfl
  | some d =>
      show d.2.quality.atMostZero = _
      cases h : d.2.quality.atMostZero <;> rw [Quality.atMostZero] at h <;> simp [h]

/-- A rank above another is a number and not below it. -/
theorem Rank.of_above (h : rank.above top = true) :
    rank.quality.isNaN = false ∧ top.quality.isNaN = false ∧
      top.quality.rank ≤ rank.quality.rank := by
  cases htop : top.quality.isNaN with
  | true => simp [Rank.above, Quality.compare?_of_isNaN_left htop] at h
  | false =>
      cases hrank : rank.quality.isNaN with
      | true => simp [Rank.above, Quality.compare?, hrank] at h
      | false =>
          rw [Rank.above_iff_lex hrank htop] at h
          refine ⟨rfl, rfl, ?_⟩
          omega

/-- What does not rank above is not of a higher quality. -/
theorem Rank.less_of_not_above (h : rank.above top = false) :
    top.quality.less rank.quality = false := by
  cases htop : top.quality.isNaN with
  | true => exact Quality.less_of_isNaN_left htop
  | false =>
      cases hrank : rank.quality.isNaN with
      | true => exact Quality.less_of_isNaN_right hrank
      | false =>
          have hlex := Rank.above_iff_lex hrank htop
          rw [← Bool.not_eq_true, Quality.less_iff htop hrank]
          intro hlt
          have habove := hlex.mpr (.inl hlt)
          simp [h] at habove

/-! ## The scan -/

theorem improve_of_excluded (h : rank? accept offer.mediaType = none) :
    improve accept best offer = best := by
  simp only [improve, h]

theorem improve_none (h : rank? accept offer.mediaType = some rank) :
    improve accept none offer = some (rank, offer) := by
  simp only [improve, h]

theorem improve_some (h : rank? accept offer.mediaType = some rank) :
    improve accept (some (top, chosen)) offer =
      if rank.above top then some (rank, offer) else some (top, chosen) := by
  simp only [improve, h]

/-- The first offer that is not excluded. -/
def firstWanted? (accept : Accept) (offers : List Selected) : Option Selected :=
  offers.find? (!accept.excludes ·.mediaType)

theorem firstWanted?_append (accept : Accept) (offers : List Selected) (offer : Selected) :
    firstWanted? accept (offers ++ [offer]) =
      (firstWanted? accept offers).or ((rank? accept offer.mediaType).map fun _ => offer) := by
  rw [firstWanted?, List.find?_append]
  congr 1
  rw [List.find?_singleton, excludes_eq_isNone]
  cases rank? accept offer.mediaType <;> rfl

theorem rank?_of_firstWanted?_eq_none (h : firstWanted? accept offers = none)
    (hoffer : offer ∈ offers) : rank? accept offer.mediaType = none := by
  have hexcluded := List.find?_eq_none.mp h offer hoffer
  rw [excludes_eq_isNone] at hexcluded
  simpa using hexcluded

/-- No offer has a quality above that of the rank. -/
def Unsurpassed (accept : Accept) (offers : List Selected) (rank : Rank) : Prop :=
  ∀ other ∈ offers, ∀ r, rank? accept other.mediaType = some r →
    rank.quality.less r.quality = false

namespace Unsurpassed

theorem append (h : Unsurpassed accept offers rank)
    (hoffer : ∀ r, rank? accept offer.mediaType = some r → rank.quality.less r.quality = false) :
    Unsurpassed accept (offers ++ [offer]) rank := by
  intro other hother r hr
  rcases List.mem_append.mp hother with hother | hother
  · exact h other hother r hr
  · rw [List.mem_singleton.mp hother] at hr
    exact hoffer r hr

/-- A rank above an unsurpassed one is unsurpassed. -/
theorem of_above (h : Unsurpassed accept offers top) (habove : rank.above top = true) :
    Unsurpassed accept offers rank := by
  obtain ⟨hrank, htop, hle⟩ := Rank.of_above habove
  intro other hother r hr
  have hold := h other hother r hr
  cases hnan : r.quality.isNaN with
  | true => exact Quality.less_of_isNaN_right hnan
  | false =>
      rw [← Bool.not_eq_true, Quality.less_iff htop hnan] at hold
      rw [← Bool.not_eq_true, Quality.less_iff hrank hnan]
      omega

end Unsurpassed

/-- What the scan holds after some offers: nothing if all are excluded; the first that is not, if its
quality is not a number; or else one of the highest quality. -/
inductive Holding (accept : Accept) (offers : List Selected) : Option (Rank × Selected) → Prop
  | nothing (excluded : firstWanted? accept offers = none) : Holding accept offers none
  | stuck {rank : Rank} {chosen : Selected}
      (first : firstWanted? accept offers = some chosen)
      (ranked : rank? accept chosen.mediaType = some rank)
      (nan : rank.quality.isNaN = true) :
      Holding accept offers (some (rank, chosen))
  | highest {rank lead : Rank} {chosen first : Selected}
      (wanted : firstWanted? accept offers = some first)
      (leads : rank? accept first.mediaType = some lead)
      (leadNumber : lead.quality.isNaN = false)
      (ranked : rank? accept chosen.mediaType = some rank)
      (number : rank.quality.isNaN = false)
      (unsurpassed : Unsurpassed accept offers rank) :
      Holding accept offers (some (rank, chosen))

theorem Holding.excluded (h : Holding accept offers best)
    (hoffer : rank? accept offer.mediaType = none) : Holding accept (offers ++ [offer]) best := by
  have hfirst := firstWanted?_append accept offers offer
  rw [hoffer, Option.map_none, Option.or_none] at hfirst
  cases h with
  | nothing excluded => exact .nothing (hfirst.trans excluded)
  | stuck first ranked nan => exact .stuck (hfirst.trans first) ranked nan
  | highest wanted leads leadNumber ranked number unsurpassed =>
      refine .highest (hfirst.trans wanted) leads leadNumber ranked number
        (unsurpassed.append ?_)
      intro r hr
      rw [hoffer] at hr
      cases hr

/-- One offer further. -/
theorem Holding.improve (h : Holding accept offers best) (offer : Selected) :
    Holding accept (offers ++ [offer]) (improve accept best offer) := by
  cases hoffer : rank? accept offer.mediaType with
  | none =>
      rw [improve_of_excluded hoffer]
      exact h.excluded hoffer
  | some rank =>
      have hfirst := firstWanted?_append accept offers offer
      rw [hoffer, Option.map_some] at hfirst
      have hitself : ∀ r, rank? accept offer.mediaType = some r →
          rank.quality.less r.quality = false := by
        intro r hr
        rw [hoffer, Option.some.injEq] at hr
        subst hr
        exact Quality.less_self rank.quality
      cases h with
      | nothing excluded =>
          rw [excluded, Option.none_or] at hfirst
          rw [improve_none hoffer]
          cases hnan : rank.quality.isNaN with
          | true => exact .stuck hfirst hoffer hnan
          | false =>
              have hbefore : Unsurpassed accept offers rank := by
                intro other hother r hr
                rw [rank?_of_firstWanted?_eq_none excluded hother] at hr
                cases hr
              exact .highest hfirst hoffer hnan hoffer hnan (hbefore.append hitself)
      | @stuck top chosen first ranked nan =>
          -- nothing compares with what is held
          have hnot : rank.above top = false := by
            rw [← Bool.not_eq_true]
            intro habove
            have hnumber := (Rank.of_above habove).2.1
            simp [nan] at hnumber
          rw [first, Option.some_or] at hfirst
          rw [improve_some hoffer, hnot]
          exact .stuck hfirst ranked nan
      | @highest top lead chosen f wanted leads leadNumber ranked number unsurpassed =>
          rw [wanted, Option.some_or] at hfirst
          rw [improve_some hoffer]
          cases habove : rank.above top with
          | true =>
              have hnumber := (Rank.of_above habove).1
              exact .highest hfirst leads leadNumber hoffer hnumber
                ((unsurpassed.of_above habove).append hitself)
          | false =>
              refine .highest hfirst leads leadNumber ranked number (unsurpassed.append ?_)
              intro r hr
              rw [hoffer, Option.some.injEq] at hr
              subst hr
              exact Rank.less_of_not_above habove

theorem holding_foldl (accept : Accept) (offers : List Selected) :
    Holding accept offers (offers.foldl (improve accept) none) := by
  induction offers using List.reverseRecOn with
  | nil => exact .nothing rfl
  | append_singleton offers offer ih =>
      rw [List.foldl_append, List.foldl_cons, List.foldl_nil]
      exact ih.improve offer

/-! ## Agreement -/

/-- Of the offers that are not excluded, the first has a quality that is not a number. -/
def LeadsWithNaN (accept : Accept) (offers : List Selected) : Prop :=
  ∃ offer q, firstWanted? accept offers = some offer ∧
    accept.quality? offer.mediaType = some q ∧ q.isNaN = true

theorem excludes_of_ranked {mediaType : String} (h : rank? accept mediaType = some rank) :
    accept.excludes mediaType = false := by
  rw [excludes_eq_isNone, h]
  rfl

/-- What has a rank is accepted if its quality is a number. -/
theorem accepts_of_ranked {mediaType : String} (h : rank? accept mediaType = some rank) :
    accept.accepts mediaType = !rank.quality.isNaN :=
  Accept.accepts_of_not_excludes (excludes_of_ranked h) (quality?_of_rank? h)

/-- A number that is not excluded is not below what is. -/
theorem less_of_excludes {mediaType : String} {p q : Quality} (hp : p.isNaN = false)
    (hwanted : p.atMostZero = false) (hq : accept.quality? mediaType = some q)
    (h : accept.excludes mediaType = true) : p.less q = false := by
  rw [Accept.excludes_of_quality? hq] at h
  cases hnan : q.isNaN with
  | true => exact Quality.less_of_isNaN_right hnan
  | false =>
      have hle := (Quality.atMostZero_iff hnan).mp h
      have hgt := mt (Quality.atMostZero_iff hp).mpr (by simp [hwanted])
      rw [← Bool.not_eq_true, Quality.less_iff hp hnan]
      omega

theorem Unsurpassed.less_eq_false (h : Unsurpassed accept offers rank)
    (hchosen : rank? accept chosen.mediaType = some rank) (hnum : rank.quality.isNaN = false)
    {other : Selected} (hother : other ∈ offers) {q : Quality}
    (hq : accept.quality? other.mediaType = some q) : rank.quality.less q = false := by
  cases hr : rank? accept other.mediaType with
  | none =>
      have hwanted := excludes_of_ranked hchosen
      rw [Accept.excludes_of_quality? (quality?_of_rank? hchosen)] at hwanted
      have hexcluded : accept.excludes other.mediaType = true := by
        rw [excludes_eq_isNone, hr]
        rfl
      exact less_of_excludes hnum hwanted hq hexcluded
  | some r =>
      have hsame := quality?_of_rank? hr
      rw [hq, Option.some.injEq] at hsame
      rw [hsame]
      exact h other hother r hr

namespace Holding

/-- Nothing is held because nothing is accepted. -/
theorem accepts_eq_false (h : Holding accept offers none) (hoffer : offer ∈ offers) :
    accept.accepts offer.mediaType = false := by
  cases h with
  | nothing excluded =>
      apply Accept.accepts_of_excludes
      rw [excludes_eq_isNone, rank?_of_firstWanted?_eq_none excluded hoffer]
      rfl

theorem ranked (h : Holding accept offers (some (rank, chosen))) :
    rank? accept chosen.mediaType = some rank := by
  cases h with
  | stuck _ ranked _ => exact ranked
  | highest _ _ _ ranked _ _ => exact ranked

theorem accepts_iff (h : Holding accept offers (some (rank, chosen))) :
    accept.accepts chosen.mediaType = true ↔ ¬ LeadsWithNaN accept offers := by
  rw [accepts_of_ranked h.ranked]
  cases h with
  | stuck first ranked nan =>
      have hleads : LeadsWithNaN accept offers :=
        ⟨chosen, rank.quality, first, quality?_of_rank? ranked, nan⟩
      simp [nan, hleads]
  | highest wanted leads leadNumber _ number _ =>
      have hnot : ¬ LeadsWithNaN accept offers := by
        rintro ⟨offer, q, hoffer, hlead, hnan⟩
        obtain rfl := Option.some.inj (wanted.symm.trans hoffer)
        obtain rfl := Option.some.inj ((quality?_of_rank? leads).symm.trans hlead)
        simp [leadNumber] at hnan
      simp [number, hnot]

theorem less_eq_false (h : Holding accept offers (some (rank, chosen))) (hoffer : offer ∈ offers)
    {q : Quality} (hq : accept.quality? offer.mediaType = some q) :
    rank.quality.less q = false := by
  cases h with
  | stuck _ _ nan => exact Quality.less_of_isNaN_left nan
  | highest _ _ _ ranked number unsurpassed =>
      exact unsurpassed.less_eq_false ranked number hoffer hq

end Holding

/-- For every header with a range that can be read, whatever its qualities: if reading it panics so
does the choice. If not, no media type on offer has a higher quality than the chosen one, which is
accepted unless the first offer that is not excluded has a quality that is not a number; and where
none is chosen none on offer is accepted. -/
theorem selectWriter_agrees_with_accepts (r : Registry) (header : String)
    (hproviders : r.providers ≠ []) (helements : Accept.elements header ≠ []) :
    (∀ p, r.selectWriter (some header) = .error p ↔ Accept.parse header = .error p) ∧
    ∀ accept, Accept.parse header = .ok accept →
      (∀ chosen, r.selectWriter (some header) = .ok (.ok chosen) →
        (accept.accepts chosen.mediaType = true ↔ ¬ LeadsWithNaN accept r.offers) ∧
        ∀ offer ∈ r.offers, ∀ p q, accept.quality? chosen.mediaType = some p →
          accept.quality? offer.mediaType = some q → p.less q = false) ∧
      ∀ e, r.selectWriter (some header) = .ok (.error e) →
        e = .notAcceptable (trimmed header) ∧
          ∀ offer ∈ r.offers, accept.accepts offer.mediaType = false := by
  constructor
  · intro p
    cases hparse : Accept.parse header with
    | error p' => rw [selectWriter_of_panic hproviders hparse, Except.error.injEq, Except.error.injEq]
    | ok accept =>
        rw [selectWriter_eq_scan hproviders helements hparse]
        simp
  intro accept hparse
  have hscan := holding_foldl accept r.offers
  rw [selectWriter_eq_scan hproviders helements hparse]
  rcases hbest : r.offers.foldl (improve accept) none with _ | ⟨rank, chosen⟩
  · rw [hbest] at hscan
    constructor
    · intro chosen h
      cases h
    · intro e h
      obtain rfl := Except.error.inj (Except.ok.inj h)
      exact ⟨rfl, fun offer hoffer => hscan.accepts_eq_false hoffer⟩
  · rw [hbest] at hscan
    constructor
    · intro chosen' h
      obtain rfl := Except.ok.inj (Except.ok.inj h)
      refine ⟨hscan.accepts_iff, fun offer hoffer p q hp hq => ?_⟩
      obtain rfl := Option.some.inj ((quality?_of_rank? hscan.ranked).symm.trans hp)
      exact hscan.less_eq_false hoffer hq
    · intro e h
      cases h

/-- XML in a quality that is not a number, behind JSON in the order of registration. -/
def acceptLateNaN : String :=
  "application/xml;q=NaN, application/json;q=5e-1, text/xml;q=-inf"

/-- What is read of it. -/
def lateNaN : Accept :=
  ⟨[⟨"application", "xml", ⟨0x7FC00000⟩⟩, ⟨"application", "json", ⟨0x3F000000⟩⟩,
    ⟨"text", "xml", ⟨0⟩⟩]⟩

/-- Where JSON leads, the quality that is not a number does no harm. -/
theorem selectWriter_acceptLateNaN :
    Registry.standard.providers ≠ [] ∧ Accept.elements acceptLateNaN ≠ [] ∧
    Accept.parse acceptLateNaN = .ok lateNaN ∧
    Registry.standard.selectWriter (some acceptLateNaN) = .ok (.ok ⟨.json, "application/json"⟩) ∧
    ¬ LeadsWithNaN lateNaN Registry.standard.offers ∧
    lateNaN.accepts "application/json" = true := by
  have hproviders : Registry.standard.providers ≠ [] := List.cons_ne_nil _ _
  have hshape : Accept.elements acceptLateNaN = lateNaN.ranges := by rfl
  have helements : Accept.elements acceptLateNaN ≠ [] := by
    rw [hshape]
    exact List.cons_ne_nil _ _
  have hparse : Accept.parse acceptLateNaN = .ok lateNaN := by rfl
  have hchosen : Registry.standard.selectWriter (some acceptLateNaN) =
      .ok (.ok ⟨.json, "application/json"⟩) := by rfl
  have haccepts : lateNaN.accepts "application/json" = true := by rfl
  obtain ⟨hok, -⟩ := (selectWriter_agrees_with_accepts _ _ hproviders helements).2 _ hparse
  exact ⟨hproviders, helements, hparse, hchosen, (hok _ hchosen).1.mp haccepts, haccepts⟩

/-- JSON in a quality that is not a number. -/
def acceptNaN : String :=
  "application/json;q=nan"

/-- JSON is chosen and is not accepted. -/
theorem not_accepts_acceptNaN :
    ¬ ∀ (r : Registry) (header : String), r.providers ≠ [] → Accept.elements header ≠ [] →
      ∀ accept chosen, Accept.parse header = .ok accept →
        r.selectWriter (some header) = .ok (.ok chosen) →
          accept.accepts chosen.mediaType = true := by
  intro hclaim
  have helements : Accept.elements acceptNaN ≠ [] := by
    have hshape : Accept.elements acceptNaN = [⟨"application", "json", ⟨0x7FC00000⟩⟩] := by rfl
    rw [hshape]
    exact List.cons_ne_nil _ _
  have hparse : Accept.parse acceptNaN = .ok ⟨[⟨"application", "json", ⟨0x7FC00000⟩⟩]⟩ := by rfl
  have hchosen : Registry.standard.selectWriter (some acceptNaN) =
      .ok (.ok ⟨.json, "application/json"⟩) := by rfl
  have haccepts := hclaim Registry.standard acceptNaN (List.cons_ne_nil _ _) helements _ _ hparse
    hchosen
  revert haccepts
  decide

end Registry

end AppServer.Negotiation
