import AppServer.Proofs.Negotiation.NoPreference
import AppServer.Proofs.Negotiation.Offers
import AppServer.Proofs.Negotiation.Reader

/-!
# A provider more

Providers that are registered later take nothing from those before them that these do not lose by
the preference of the client. A type of the last provider is chosen only where all before it is
refused, or where the range that decides it outranks the one that decides what was chosen without
it. Ranges that tie are told apart by their places among the sorted ranges, which are those in the
header unless a quality among more than twenty is not a number. A body is read by the last provider
only if none before it reads the media type.
-/

namespace AppServer.Negotiation

open AppServer.Text

/-- The client ranks the media type: the range decides its quality, and it is not excluded. A range
that is listed more than once has the place of the first. -/
structure RankedBy (accept : Accept) (listing : List MediaRange) (mediaType : String)
    (d : Listed) : Prop where
  decides : ∃ i, accept.deciding? mediaType = some (i, d.1)
  place : listing.idxOf d.1 = d.2
  wanted : accept.excludes mediaType = false

/-- The media type takes the place of what was selected without it. -/
inductive Displaces (accept : Accept) (listing : List MediaRange) (mediaType : String) :
    Except NegotiationError Selected → Prop
  | refused {raw : String} {d : Listed} (ranked : RankedBy accept listing mediaType d) :
      Displaces accept listing mediaType (.error (.notAcceptable raw))
  | outranked {chosen : Selected} {d d' : Listed} (ranked : RankedBy accept listing mediaType d)
      (held : RankedBy accept listing chosen.mediaType d') (outranks : Outranks d d') :
      Displaces accept listing mediaType (.ok chosen)

/-- The lists of ranges whose order decides between ranges that tie: the sorted ranges, and the header
itself unless a quality among more than twenty is not a number. -/
inductive BreaksTies (header : String) (accept : Accept) : List MediaRange → Prop
  | sorted : BreaksTies header accept accept.ranges
  | listed (h : AllNumeric (Accept.elements header) ∨ (Accept.elements header).length ≤ 20) :
      BreaksTies header accept (Accept.elements header)

variable {header mediaType : String} {accept : Accept} {listing : List MediaRange}
  {d d' : Listed}

/-- At most one range ranks a media type. -/
theorem RankedBy.unique (h : RankedBy accept listing mediaType d)
    (h' : RankedBy accept listing mediaType d') : d = d' := by
  obtain ⟨i, hi⟩ := h.decides
  obtain ⟨j, hj⟩ := h'.decides
  rw [hi, Option.some.injEq, Prod.mk.injEq] at hj
  have hplace : d.2 = d'.2 := by rw [← h.place, ← h'.place, hj.2]
  exact Prod.ext hj.2 hplace

theorem BreaksTies.idxOf_lt_iff (h : BreaksTies header accept listing)
    (hparse : Accept.parse header = .ok accept) {a b : MediaRange} (hties : a.ties b = true) :
    accept.ranges.idxOf a < accept.ranges.idxOf b ↔ listing.idxOf a < listing.idxOf b := by
  cases h with
  | sorted => exact Iff.rfl
  | listed hsorted =>
      rw [Accept.parse_eq_arrange hsorted, Except.ok.injEq] at hparse
      rw [← hparse]
      exact MediaRange.idxOf_arrange_lt_iff hties _

namespace Registry

variable {rank rank' top : Rank} {r : Registry} {p : Provider} {chosen offer : Selected}
  {offers : List Selected}

/-! ## Ranks and places in the header -/

/-- The rank that the sorted ranges of a header give to what the range decides. -/
structure Rank.At (accept : Accept) (listing : List MediaRange) (rank : Rank) (d : Listed) :
    Prop where
  quality : rank.quality = d.1.quality
  specificity : rank.specificity = d.1.specificity
  position : rank.position = accept.ranges.idxOf d.1
  place : listing.idxOf d.1 = d.2

/-- Ranks compare as the ranges do by their places where ties are broken. -/
theorem Rank.At.above_iff (hlisting : BreaksTies header accept listing)
    (hparse : Accept.parse header = .ok accept) (h : rank.At accept listing d)
    (h' : rank'.At accept listing d') : rank.above rank' = true ↔ Outranks d d' := by
  have hquality : rank.quality.isNaN = d.1.quality.isNaN := congrArg Quality.isNaN h.quality
  have hquality' : rank'.quality.isNaN = d'.1.quality.isNaN := congrArg Quality.isNaN h'.quality
  by_cases hnum : d.Numeric ∧ d'.Numeric
  · obtain ⟨hd, hd'⟩ := hnum
    rw [Rank.above_iff_lex (hquality.trans hd) (hquality'.trans hd'), Outranks.iff_lex hd hd',
      h.quality, h'.quality, h.specificity, h'.specificity, h.position, h'.position, ← h.place,
      ← h'.place]
    by_cases hties : d.1.ties d'.1 = true
    · rw [hlisting.idxOf_lt_iff hparse hties]
    · rw [MediaRange.ties_iff, Quality.same_iff hd' hd, not_and] at hties
      -- without a tie places do not count
      omega
  · constructor
    · intro habove
      obtain ⟨hrank, hrank', -⟩ := Rank.of_above habove
      exact absurd ⟨hquality.symm.trans hrank, hquality'.symm.trans hrank'⟩ hnum
    · intro hout
      exact absurd hout.numeric hnum

theorem Rank.above_trans (h : rank.above rank' = true) (h' : rank'.above top = true) :
    rank.above top = true := by
  obtain ⟨hnum, hnum', -⟩ := Rank.of_above h
  obtain ⟨-, htop, -⟩ := Rank.of_above h'
  rw [Rank.above_iff_lex hnum hnum'] at h
  rw [Rank.above_iff_lex hnum' htop] at h'
  rw [Rank.above_iff_lex hnum htop]
  omega

theorem exists_rankedBy (listing : List MediaRange) (h : rank? accept mediaType = some rank) :
    ∃ d, RankedBy accept listing mediaType d ∧ rank.At accept listing d := by
  have hwanted := excludes_of_ranked h
  rcases accept.deciding?_cases mediaType with ⟨hnone, -⟩ | ⟨i, range, hsome, hfirst⟩
  · rw [rank?, hnone] at h
    cases h
  · refine ⟨(range, listing.idxOf range), ⟨⟨i, hsome⟩, rfl, hwanted⟩, ?_⟩
    simp only [rank?, hsome] at h
    split at h
    · cases h
    · cases h
      exact ⟨rfl, rfl, hfirst.idxOf_eq.symm, rfl⟩

theorem exists_rank_of_rankedBy (h : RankedBy accept listing mediaType d) :
    ∃ rank, rank? accept mediaType = some rank ∧ rank.At accept listing d := by
  have hwanted := h.wanted
  rw [excludes_eq_isNone, Option.isNone_eq_false_iff, Option.isSome_iff_exists] at hwanted
  obtain ⟨rank, hrank⟩ := hwanted
  obtain ⟨d', hd', hat⟩ := exists_rankedBy listing hrank
  rw [hd'.unique h] at hat
  exact ⟨rank, hrank, hat⟩

/-- What is refused is displaced by whatever has a rank. -/
theorem displaces_refused_iff {raw : String} :
    Displaces accept listing mediaType (.error (.notAcceptable raw)) ↔
      ∃ rank, rank? accept mediaType = some rank := by
  constructor
  · intro h
    cases h with
    | refused ranked =>
        obtain ⟨rank, hrank, -⟩ := exists_rank_of_rankedBy ranked
        exact ⟨rank, hrank⟩
  · rintro ⟨rank, hrank⟩
    obtain ⟨d, hd, -⟩ := exists_rankedBy listing hrank
    exact .refused hd

/-- What is chosen is displaced by whatever has a rank above its own. -/
theorem displaces_chosen_iff (hlisting : BreaksTies header accept listing)
    (hparse : Accept.parse header = .ok accept)
    (hchosen : rank? accept chosen.mediaType = some top) :
    Displaces accept listing mediaType (.ok chosen) ↔
      ∃ rank, rank? accept mediaType = some rank ∧ rank.above top = true := by
  obtain ⟨d', hd', hat'⟩ := exists_rankedBy listing hchosen
  constructor
  · intro h
    cases h with
    | outranked ranked held outranks =>
        obtain ⟨rank, hrank, hat⟩ := exists_rank_of_rankedBy ranked
        rw [held.unique hd'] at outranks
        exact ⟨rank, hrank, (hat.above_iff hlisting hparse hat').mpr outranks⟩
  · rintro ⟨rank, hrank, habove⟩
    obtain ⟨d, hd, hat⟩ := exists_rankedBy listing hrank
    exact .outranked hd hd' ((hat.above_iff hlisting hparse hat').mp habove)

/-! ## The scan over what is added -/

theorem offers_register (r : Registry) (p : Provider) :
    (r.register [p]).offers = r.offers ++ p.produces.map (Selected.mk p) := by
  simp [offers, register]

/-- With nothing held the scan ends with an offer, unless none has a rank. -/
theorem foldl_improve_none (accept : Accept) (offers : List Selected) :
    (offers.foldl (improve accept) none = none ∧
      ∀ offer ∈ offers, rank? accept offer.mediaType = none) ∨
    ∃ offer ∈ offers, ∃ rank, rank? accept offer.mediaType = some rank ∧
      offers.foldl (improve accept) none = some (rank, offer) := by
  have hscan := holding_foldl accept offers
  rcases hbest : offers.foldl (improve accept) none with _ | ⟨rank, chosen⟩
  · rw [hbest] at hscan
    cases hscan with
    | nothing excluded => exact .inl ⟨rfl, fun _ => rank?_of_firstWanted?_eq_none excluded⟩
  · rw [hbest] at hscan
    have hmem : chosen ∈ offers := (mem_of_foldl_improve hbest).resolve_right (by simp)
    exact .inr ⟨chosen, hmem, rank, hscan.ranked, rfl⟩

/-- What is held gives way only to an offer that ranks above it. -/
theorem foldl_improve_some (accept : Accept) (offers : List Selected) (top : Rank)
    (chosen : Selected) :
    (offers.foldl (improve accept) (some (top, chosen)) = some (top, chosen) ∧
      ∀ offer ∈ offers, ∀ rank, rank? accept offer.mediaType = some rank →
        rank.above top = false) ∨
    ∃ offer ∈ offers, ∃ rank, rank? accept offer.mediaType = some rank ∧ rank.above top = true ∧
      offers.foldl (improve accept) (some (top, chosen)) = some (rank, offer) := by
  induction offers generalizing top chosen with
  | nil => exact .inl ⟨rfl, by simp⟩
  | cons offer rest ih =>
      rw [List.foldl_cons]
      by_cases habove : ∃ rank, rank? accept offer.mediaType = some rank ∧ rank.above top = true
      · obtain ⟨rank, hrank, habove⟩ := habove
        rw [improve_some hrank, if_pos habove]
        right
        rcases ih rank offer with ⟨hkept, -⟩ | ⟨other, hother, rank', hrank', habove', hchosen⟩
        · exact ⟨offer, List.mem_cons_self, rank, hrank, habove, hkept⟩
        · have htop := Rank.above_trans habove' habove
          exact ⟨other, List.mem_cons_of_mem _ hother, rank', hrank', htop, hchosen⟩
      · have hnot : ∀ rank, rank? accept offer.mediaType = some rank → rank.above top = false := by
          intro rank hrank
          rw [Bool.eq_false_iff]
          intro h
          exact habove ⟨rank, hrank, h⟩
        have hkept : improve accept (some (top, chosen)) offer = some (top, chosen) := by
          cases hrank : rank? accept offer.mediaType with
          | none => exact improve_of_excluded hrank
          | some rank => simp [improve_some hrank, hnot rank hrank]
        rw [hkept]
        rcases ih top chosen with ⟨hsame, hrest⟩ | ⟨other, hother, hrest⟩
        · refine .inl ⟨hsame, ?_⟩
          intro other hother
          rcases List.mem_cons.mp hother with rfl | hother
          · exact hnot
          · exact hrest other hother
        · exact .inr ⟨other, List.mem_cons_of_mem _ hother, hrest⟩

/-- A type of the provider that is added is chosen if it displaces what was selected before, and
otherwise nothing changes. -/
theorem selectWriter_register (hproviders : r.providers ≠ [])
    (helements : Accept.elements header ≠ []) (hparse : Accept.parse header = .ok accept)
    (hlisting : BreaksTies header accept listing) :
    ∃ result, r.selectWriter (some header) = .ok result ∧
      ((∃ t ∈ p.produces, Displaces accept listing t result ∧
        (r.register [p]).selectWriter (some header) = .ok (.ok ⟨p, t⟩)) ∨
      ((∀ t ∈ p.produces, ¬ Displaces accept listing t result) ∧
        (r.register [p]).selectWriter (some header) = .ok result)) := by
  have hproviders' : (r.register [p]).providers ≠ [] := by simp [register]
  rw [selectWriter_eq_scan hproviders helements hparse,
    selectWriter_eq_scan hproviders' helements hparse, offers_register, List.foldl_append]
  refine ⟨_, rfl, ?_⟩
  rcases foldl_improve_none accept r.offers with ⟨hnone, -⟩ | ⟨chosen, -, top, hchosen, hsome⟩
  · rw [hnone]
    simp only [displaces_refused_iff]
    rcases foldl_improve_none accept (p.produces.map (Selected.mk p)) with
      ⟨hnone', hrankless⟩ | ⟨offer, hoffer, rank, hrank, hsome'⟩
    · refine .inr ⟨?_, by rw [hnone']⟩
      rintro t ht ⟨rank, hrank⟩
      rw [hrankless ⟨p, t⟩ (List.mem_map_of_mem ht)] at hrank
      cases hrank
    · obtain ⟨t, ht, rfl⟩ := List.mem_map.mp hoffer
      exact .inl ⟨t, ht, ⟨rank, hrank⟩, by rw [hsome']⟩
  · rw [hsome]
    simp only [displaces_chosen_iff hlisting hparse hchosen]
    rcases foldl_improve_some accept (p.produces.map (Selected.mk p)) top chosen with
      ⟨hkept, hbelow⟩ | ⟨offer, hoffer, rank, hrank, habove, hsome'⟩
    · refine .inr ⟨?_, by rw [hkept]⟩
      rintro t ht ⟨rank, hrank, habove⟩
      rw [hbelow ⟨p, t⟩ (List.mem_map_of_mem ht) rank hrank] at habove
      cases habove
    · obtain ⟨t, ht, rfl⟩ := List.mem_map.mp hoffer
      exact .inl ⟨t, ht, ⟨rank, hrank, habove⟩, by rw [hsome']⟩

/-- Where nothing is read nothing is ranked. -/
theorem not_rankedBy_of_nil (h : accept.ranges = []) : ¬ RankedBy accept listing mediaType d := by
  intro hranked
  obtain ⟨rank, hrank, -⟩ := exists_rank_of_rankedBy hranked
  rcases accept with ⟨ranges⟩
  obtain rfl : ranges = [] := h
  cases hrank

theorem not_displaces_of_nil (h : accept.ranges = [])
    {result : Except NegotiationError Selected} : ¬ Displaces accept listing mediaType result := by
  intro hdisplaces
  cases hdisplaces with
  | refused ranked => exact not_rankedBy_of_nil h ranked
  | outranked ranked _ _ => exact not_rankedBy_of_nil h ranked

theorem FirstConsumer.register {reader : Provider} (h : r.FirstConsumer mediaType reader) :
    (r.register [p]).FirstConsumer mediaType reader := by
  obtain ⟨earlier, later, hproviders, hconsumes, hearlier⟩ := h
  refine ⟨earlier, later ++ [p], ?_, hconsumes, hearlier⟩
  rw [Registry.register, hproviders, List.append_assoc, List.cons_append]

/-! ## The first provider stays the first -/

section First

variable {first : Provider} (hfirst : r.providers.head? = some first)
include hfirst

theorem head?_register : (r.register [p]).providers.head? = some first := by
  rw [register, List.head?_append, hfirst, Option.some_or]

/-- Without a preference the first provider writes, whatever is behind it. -/
theorem selectWriter_register_of_noPreference {accept : Option String} (h : NoPreference accept) :
    (r.register [p]).selectWriter accept = r.selectWriter accept := by
  rw [selectWriter_of_noPreference h, selectWriter_of_noPreference h, selectWriter_none hfirst,
    selectWriter_none (head?_register hfirst)]

theorem selectReader_register_of_ok {contentType : Option String} {reader : Provider}
    (h : r.selectReader contentType = .ok reader) :
    (r.register [p]).selectReader contentType = .ok reader := by
  have hfirst' := head?_register (p := p) hfirst
  cases contentType with
  | none => rw [selectReader_none hfirst', ← selectReader_none hfirst, h]
  | some contentType =>
      by_cases hdeclared : declared contentType = ""
      · rw [selectReader_of_blank hfirst' hdeclared, ← selectReader_of_blank hfirst hdeclared, h]
      · rw [selectReader_eq_ok_iff hfirst hdeclared] at h
        rw [selectReader_eq_ok_iff hfirst' hdeclared]
        exact h.register

theorem selectReader_register_of_error {contentType : String} {e : NegotiationError}
    (h : r.selectReader (some contentType) = .error e) :
    (p.Consumes (declared contentType) ∧
      (r.register [p]).selectReader (some contentType) = .ok p) ∨
    (¬ p.Consumes (declared contentType) ∧
      (r.register [p]).selectReader (some contentType) = .error e) := by
  have hfirst' := head?_register (p := p) hfirst
  obtain ⟨hdeclared, hnone, he⟩ := (selectReader_eq_error_iff hfirst).mp h
  by_cases hconsumes : p.Consumes (declared contentType)
  · left
    rw [selectReader_eq_ok_iff hfirst' hdeclared]
    exact ⟨hconsumes, r.providers, [], rfl, hconsumes, hnone⟩
  · right
    rw [selectReader_eq_error_iff hfirst']
    refine ⟨hconsumes, hdeclared, ?_, he⟩
    intro q hq
    rcases List.mem_append.mp hq with hq | hq
    · exact hnone q hq
    · rw [List.mem_singleton.mp hq]
      exact hconsumes

end First

/-- A provider that is registered behind others changes what is chosen only by what it adds. Without
a preference the writer stays, and so does a panic on reading a header. Otherwise a type of the new
provider is chosen if it displaces the old choice or refusal, and if none does the result stays. Every
reader that was found is still found; where none was, the new provider reads what it consumes and the
error stays for the rest. -/
theorem register_conservative (r : Registry) (p : Provider) (hproviders : r.providers ≠ []) :
    (∀ accept, NoPreference accept →
      (r.register [p]).selectWriter accept = r.selectWriter accept) ∧
    (∀ header panic, Accept.parse header = .error panic →
      r.selectWriter (some header) = .error panic ∧
        (r.register [p]).selectWriter (some header) = .error panic) ∧
    (∀ header accept listing, Accept.parse header = .ok accept →
      BreaksTies header accept listing →
      ∃ result, r.selectWriter (some header) = .ok result ∧
        ((∃ t ∈ p.produces, Displaces accept listing t result ∧
          (r.register [p]).selectWriter (some header) = .ok (.ok ⟨p, t⟩)) ∨
        ((∀ t ∈ p.produces, ¬ Displaces accept listing t result) ∧
          (r.register [p]).selectWriter (some header) = .ok result))) ∧
    (∀ contentType reader, r.selectReader contentType = .ok reader →
      (r.register [p]).selectReader contentType = .ok reader) ∧
    (∃ first, r.selectReader none = .ok first) ∧
    ∀ contentType e, r.selectReader (some contentType) = .error e →
      (p.Consumes (declared contentType) ∧
        (r.register [p]).selectReader (some contentType) = .ok p) ∨
      (¬ p.Consumes (declared contentType) ∧
        (r.register [p]).selectReader (some contentType) = .error e) := by
  have hfirst := List.head?_eq_some_head hproviders
  have hproviders' : (r.register [p]).providers ≠ [] := by simp [register]
  refine ⟨?_, ?_, ?_, ?_, ⟨_, selectReader_none hfirst⟩, ?_⟩
  · intro accept hnone
    exact selectWriter_register_of_noPreference hfirst hnone
  · intro header panic hparse
    exact ⟨selectWriter_of_panic hproviders hparse, selectWriter_of_panic hproviders' hparse⟩
  · intro header accept listing hparse hlisting
    by_cases helements : Accept.elements header = []
    · have hstays := NoPreference.of_elements helements
      have hnil : accept.ranges = [] := by
        have hperm := Accept.perm_of_parse hparse
        rw [helements] at hperm
        exact hperm.eq_nil
      have hdefault := selectWriter_of_noPreference (r := r) hstays
      rw [selectWriter_none hfirst] at hdefault
      refine ⟨_, hdefault, .inr ⟨fun t _ => not_displaces_of_nil hnil, ?_⟩⟩
      rw [selectWriter_register_of_noPreference hfirst hstays, hdefault]
    · exact selectWriter_register hproviders helements hparse hlisting
  · intro contentType reader hreader
    exact selectReader_register_of_ok hfirst hreader
  · intro contentType e hrefused
    exact selectReader_register_of_error hfirst hrefused

/-- Writes tables, and what JSON is written as; reads tables only. -/
def tables : Provider :=
  { Provider.json with
    name := "tables"
    produces := ["application/json", "text/csv"]
    consumes := ["text/csv"] }

/-- Text of any kind before JSON, and tables by name. -/
def acceptTables : String :=
  "application/json;q=0.25, text/*;q=0.5, text/csv;q=0.5"

/-- Tables outrank the XML that was chosen before; JSON stays with the one that had it first. -/
theorem register_tables :
    Registry.standard.providers ≠ [] ∧
    (∃ accept, Accept.parse acceptTables = .ok accept ∧
      Displaces accept (Accept.elements acceptTables) "text/csv" (.ok ⟨.xml, "text/xml"⟩)) ∧
    (Registry.standard.register [tables]).selectWriter (some acceptTables) =
      .ok (.ok ⟨tables, "text/csv"⟩) ∧
    (∃ accept, Accept.parse "application/json" = .ok accept ∧ ∀ t ∈ tables.produces,
      ¬ Displaces accept accept.ranges t (.ok ⟨.json, "application/json"⟩)) ∧
    (Registry.standard.register [tables]).selectReader (some "Text/CSV; header=present") =
      .ok tables := by
  have hproviders : Registry.standard.providers ≠ [] := List.cons_ne_nil _ _
  obtain ⟨-, -, hwriter, -, -, hreader⟩ :=
    register_conservative Registry.standard tables hproviders
  have hbefore : Registry.standard.selectWriter (some acceptTables) =
      .ok (.ok ⟨.xml, "text/xml"⟩) := by rfl
  have hafter : (Registry.standard.register [tables]).selectWriter (some acceptTables) =
      .ok (.ok ⟨tables, "text/csv"⟩) := by rfl
  have hjson : Registry.standard.selectWriter (some "application/json") =
      .ok (.ok ⟨.json, "application/json"⟩) := by rfl
  have hjson' : (Registry.standard.register [tables]).selectWriter (some "application/json") =
      .ok (.ok ⟨.json, "application/json"⟩) := by rfl
  have hrefused : Registry.standard.selectReader (some "Text/CSV; header=present") =
      .error (.unsupportedMediaType "text/csv") := by rfl
  have hshort : (Accept.elements acceptTables).length ≤ 20 := by
    have hlength : (Accept.elements acceptTables).length = 3 := by rfl
    omega
  have hparse : Accept.parse acceptTables = _ := Accept.parse_eq_arrange (.inr hshort)
  have hdisplaced : Displaces ⟨MediaRange.arrange (Accept.elements acceptTables)⟩
      (Accept.elements acceptTables) "text/csv" (.ok ⟨.xml, "text/xml"⟩) := by
    obtain ⟨result, hresult, hchanged⟩ := hwriter acceptTables _ _ hparse (.listed (.inr hshort))
    obtain rfl := Except.ok.inj (hbefore.symm.trans hresult)
    rw [hafter] at hchanged
    rcases hchanged with ⟨t, -, hdisplaces, hchosen⟩ | ⟨-, hsame⟩
    · obtain rfl : "text/csv" = t :=
        congrArg Selected.mediaType (Except.ok.inj (Except.ok.inj hchosen))
      exact hdisplaces
    · have htype : "text/csv" = "text/xml" :=
        congrArg Selected.mediaType (Except.ok.inj (Except.ok.inj hsame))
      exact absurd htype (by decide)
  have hparseJson : Accept.parse "application/json" = .ok ⟨[⟨"application", "json", .one⟩]⟩ := by
    rfl
  have hkept : ∀ t ∈ tables.produces, ¬ Displaces ⟨[⟨"application", "json", .one⟩]⟩
      [⟨"application", "json", .one⟩] t (.ok ⟨.json, "application/json"⟩) := by
    obtain ⟨result, hresult, hstays⟩ := hwriter "application/json" _ _ hparseJson .sorted
    obtain rfl := Except.ok.inj (hjson.symm.trans hresult)
    rw [hjson'] at hstays
    rcases hstays with ⟨t, -, -, hchosen⟩ | ⟨hnone, -⟩
    · have hname : "json" = "tables" :=
        congrArg (·.provider.name) (Except.ok.inj (Except.ok.inj hchosen))
      exact absurd hname (by decide)
    · exact hnone
  have hreads : tables.Consumes (declared "Text/CSV; header=present") :=
    ⟨"text/csv", List.mem_singleton_self _, by decide⟩
  have hread := (hreader _ _ hrefused).resolve_right fun hnot => hnot.1 hreads
  exact ⟨hproviders, ⟨_, hparse, hdisplaced⟩, hafter, ⟨_, hparseJson, hkept⟩, hread.2⟩

/-- JSON and, behind it, tables among nineteen ranges that tie, but for one whose quality is not a
number. -/
def acceptTablesLate : String :=
  "a/b;q=0.5, a/b;q=nan, a/b;q=0.5, a/b;q=0.5, a/b;q=0.5, a/b;q=0.5, a/b;q=0.5, a/b;q=0.5, " ++
  "application/json, a/b;q=0.5, text/csv, a/b;q=0.5, a/b;q=0.5, a/b;q=0.5, a/b;q=0.5, a/b;q=0.5, " ++
  "a/b;q=0.5, a/b;q=0.5, a/b;q=0.5, a/b;q=0.5, a/b;q=0.5"

/-- Its ranges in their order. -/
def tablesLate : List MediaRange :=
  let half : MediaRange := ⟨"a", "b", ⟨0x3F000000⟩⟩
  [half, ⟨"a", "b", ⟨0x7FC00000⟩⟩] ++ List.replicate 6 half ++
    [⟨"application", "json", .one⟩, half, ⟨"text", "csv", .one⟩] ++ List.replicate 10 half

/-- Its ranges as they are sorted. -/
def tablesFirst : List MediaRange :=
  let half : MediaRange := ⟨"a", "b", ⟨0x3F000000⟩⟩
  [⟨"text", "csv", .one⟩, half, ⟨"a", "b", ⟨0x7FC00000⟩⟩, ⟨"application", "json", .one⟩] ++
    List.replicate 17 half

theorem elements_acceptTablesLate : Accept.elements acceptTablesLate = tablesLate := by
  decide +kernel

/-- The merge of the two halves leads tables past JSON, which they tie with. -/
theorem parse_acceptTablesLate : Accept.parse acceptTablesLate = .ok ⟨tablesFirst⟩ := by
  have hmerged : Sorting.sortHalves MediaRange.ahead tablesLate = some tablesFirst := by
    decide +kernel
  have hsort : Sorting.sort MediaRange.ahead tablesLate = some tablesFirst := by
    rw [Sorting.sort_eq_sortHalves (by decide) (by decide) (by decide +kernel), hmerged]
  rw [Accept.parse, elements_acceptTablesLate, MediaRange.sort, hsort]
  rfl

/-- Writes tables only. -/
def tablesOnly : Provider :=
  { tables with produces := ["text/csv"] }

/-- JSON and tables tie but for their places in the header, and JSON is listed first. -/
theorem not_displaces_tablesLate :
    ¬ Displaces ⟨tablesFirst⟩ tablesLate "text/csv" (.ok ⟨.json, "application/json"⟩) := by
  intro hdisplaces
  have htables : RankedBy ⟨tablesFirst⟩ tablesLate "text/csv" (⟨"text", "csv", .one⟩, 10) :=
    ⟨⟨0, by rfl⟩, by decide +kernel, by decide +kernel⟩
  have hjson : RankedBy ⟨tablesFirst⟩ tablesLate "application/json"
      (⟨"application", "json", .one⟩, 8) :=
    ⟨⟨3, by rfl⟩, by decide +kernel, by decide +kernel⟩
  cases hdisplaces with
  | outranked ranked held outranks =>
      rw [ranked.unique htables, held.unique hjson] at outranks
      revert outranks
      unfold Outranks
      decide

/-- Tables displace JSON, although they are listed behind it with the same quality. -/
theorem not_register_conservative_acceptTablesLate :
    ¬ ∀ (r : Registry) (p : Provider) (header : String), r.providers ≠ [] →
      ∃ accept result, Accept.parse header = .ok accept ∧
        r.selectWriter (some header) = .ok result ∧
        ((r.register [p]).selectWriter (some header) = .ok result ∨
          ∃ t ∈ p.produces, Displaces accept (Accept.elements header) t result ∧
            (r.register [p]).selectWriter (some header) = .ok (.ok ⟨p, t⟩)) := by
  intro hclaim
  have hproviders : Registry.standard.providers ≠ [] := List.cons_ne_nil _ _
  have hproviders' : (Registry.standard.register [tablesOnly]).providers ≠ [] :=
    List.cons_ne_nil _ _
  have helements : Accept.elements acceptTablesLate ≠ [] := by
    rw [elements_acceptTablesLate]
    exact List.cons_ne_nil _ _
  have hbefore : Registry.standard.selectWriter (some acceptTablesLate) =
      .ok (.ok ⟨.json, "application/json"⟩) := by
    rw [selectWriter_eq_scan hproviders helements parse_acceptTablesLate]
    rfl
  have hafter : (Registry.standard.register [tablesOnly]).selectWriter (some acceptTablesLate) =
      .ok (.ok ⟨tablesOnly, "text/csv"⟩) := by
    rw [selectWriter_eq_scan hproviders' helements parse_acceptTablesLate]
    rfl
  obtain ⟨accept, result, haccept, hresult, hchanged⟩ :=
    hclaim Registry.standard tablesOnly acceptTablesLate hproviders
  obtain rfl := Except.ok.inj (parse_acceptTablesLate.symm.trans haccept)
  obtain rfl := Except.ok.inj (hbefore.symm.trans hresult)
  rw [hafter] at hchanged
  rcases hchanged with hsame | ⟨t, ht, hdisplaces, -⟩
  · have htype : "text/csv" = "application/json" :=
      congrArg Selected.mediaType (Except.ok.inj (Except.ok.inj hsame))
    exact absurd htype (by decide)
  · obtain rfl := List.mem_singleton.mp ht
    rw [elements_acceptTablesLate] at hdisplaces
    exact not_displaces_tablesLate hdisplaces

end Registry

end AppServer.Negotiation
