import AppServer.Proofs.Negotiation.Acceptance
import AppServer.Proofs.Number.Literals
import AppServer.Proofs.Text.Segments

/-!
# What an `Accept` value lists

Every element that can be read is listed, once, and values that are joined list what each of them
lists. The quality of an element is brought between 0 and 1, unless the text behind `q=` spells what
is not a number. Where none does, the ranges stand in the order of preference, those alike in the
order of the header. Where one does and is not alone, they do not, and where it is among more than
twenty, reading the value may panic.
-/

namespace AppServer.Negotiation

open AppServer.Number AppServer.Text

namespace Quality

variable {q : Quality}

theorem magnitude_ofLiteral (negative : Bool) (l : Literal) :
    (Quality.mk (UInt32.ofNat (Format.binary32.ofLiteral negative l))).magnitude =
      Format.binary32.magnitudeOf l := by
  have hsign : Format.binary32.signBit = 2147483648 := by rfl
  have hsmall : Format.binary32.magnitudeOf l < 2147483648 := by
    have hle : Format.binary32.infinity ≤ 2139095040 := by decide
    by_cases hnan : l = .nan
    · subst hnan
      decide
    · have hfinite := mt (Format.infinity_lt_magnitudeOf_iff Format.binary32 l).mp hnan
      omega
  rw [Format.ofLiteral_eq, magnitude, UInt32.toNat_ofNat', hsign]
  split
  · omega
  · omega

/-- A text is read as what is not a number just if it spells that. -/
theorem isNaN_read_iff {cs : List Char} : (read cs).isNaN = true ↔ SpellsNaN cs := by
  rw [← readLiteral_eq_nan_iff, read, Format.read?]
  cases readLiteral cs with
  | none => exact iff_of_false (by decide) (by simp)
  | some l =>
      obtain ⟨negative, l⟩ := l
      have hread : (Quality.mk (UInt32.ofNat (Format.binary32.ofLiteral negative l))).isNaN = true ↔
          l = .nan := by
        rw [isNaN, decide_eq_true_eq, magnitude_ofLiteral, Format.infinity_lt_magnitudeOf_iff]
      refine hread.trans ?_
      simp

theorem inUnit_iff (h : q.isNaN = false) : q.InUnit ↔ 0 ≤ q.rank ∧ q.rank ≤ one.rank := by
  have hone : one.isNaN = false := by decide
  have hzero : zero.rank = 0 := by decide
  rw [InUnit, less_iff isNaN_zero h, same_iff isNaN_zero h, less_iff h hone, same_iff h hone, hzero]
  omega

/-- Clamping brings every number between 0 and 1, and nothing else. -/
theorem inUnit_clamp_iff : q.clamp.InUnit ↔ q.clamp.isNaN = false := by
  refine ⟨InUnit.isNaN_eq_false, fun h => ?_⟩
  have hone : one.isNaN = false := by decide
  have hzero : zero.rank = 0 := by decide
  unfold clamp at h ⊢
  split
  · decide
  · split
    · decide
    · rename_i hbelow habove
      simp only [hbelow, habove] at h
      have hnan : q.isNaN = false := h
      rw [less_iff hnan isNaN_zero, hzero] at hbelow
      rw [less_iff hone hnan] at habove
      rw [inUnit_iff hnan]
      omega

theorem isNaN_clamp (q : Quality) : q.clamp.isNaN = q.isNaN := by
  unfold clamp
  split
  · rename_i hbelow
    rw [(isNaN_of_less hbelow).1]
    rfl
  · split
    · rename_i habove
      rw [(isNaN_of_less habove).2]
      rfl
    · rfl

end Quality

namespace MediaRange

/-- The text behind the first `q=` among the parameters of an element. -/
def statedQuality? (element : List Char) : Option (List Char) :=
  (((splitOn ';' element).tail.filterMap (splitOnce '=')).find? fun (key, _) =>
    (trim key).map Char.toLower == ['q']).map fun (_, value) => trim value

theorem qualityOf_eq (element : List Char) : qualityOf (splitOn ';' element).tail =
    match statedQuality? element with
    | some value => (Quality.read value).clamp
    | none => .one := by
  unfold qualityOf statedQuality?
  dsimp only
  split
  · rename_i hstated
    rw [hstated]
    rfl
  · rename_i hstated
    rw [hstated]
    rfl

variable {element : List Char} {r : MediaRange}

theorem quality_of_parse? (h : parse? element = some r) :
    r.quality = qualityOf (splitOn ';' element).tail := by
  unfold parse? at h
  obtain ⟨parts, -, h⟩ := Option.bind_eq_some_iff.mp h
  simp only at h
  split at h
  · cases h
  · cases h
    rfl

theorem inUnit_iff_of_parse? (h : parse? element = some r) :
    r.quality.InUnit ↔ r.quality.isNaN = false := by
  rw [quality_of_parse? h, qualityOf_eq]
  split
  · exact Quality.inUnit_clamp_iff
  · decide

theorem isNaN_iff_of_parse? (h : parse? element = some r) :
    r.quality.isNaN = true ↔ ∃ value, statedQuality? element = some value ∧ SpellsNaN value := by
  rw [quality_of_parse? h, qualityOf_eq]
  cases statedQuality? element with
  | none => exact iff_of_false (by decide) (by simp)
  | some value => simp [Quality.isNaN_clamp, Quality.isNaN_read_iff]

end MediaRange

/-- An empty element cannot be read, so it makes no difference that such elements are dropped. -/
theorem Accept.elements_eq (header : String) : elements header =
    (splitOn ',' header.toList).filterMap fun piece => MediaRange.parse? (trim piece) := by
  rw [elements, List.filterMap_filter, List.filterMap_map]
  congr 1
  funext piece
  show (if (!(trim piece).isEmpty) = true then _ else none) = _
  cases trim piece with
  | nil => rfl
  | cons c cs => rfl

theorem Accept.elements_eq_filterMap_map (header : String) : elements header =
    ((splitOn ',' header.toList).map trim).filterMap MediaRange.parse? := by
  rw [elements_eq, List.filterMap_map]
  rfl

theorem Accept.elements_append_comma (a b : String) :
    elements (a ++ ", " ++ b) = elements a ++ elements b := by
  have hchars : (a ++ ", " ++ b).toList = a.toList ++ ',' :: ' ' :: b.toList := by
    simp
  have hblank : (splitOn ',' (' ' :: b.toList)).map trim = (splitOn ',' b.toList).map trim :=
    map_trimBy_splitOn_cons (by decide) (by decide) _
  simp only [elements_eq_filterMap_map]
  rw [hchars, splitOn_append_cons, List.map_append, hblank, List.filterMap_append]

/-- Values that are joined list what each of them lists, in their order. -/
theorem Accept.elements_intercalate (values : List String) :
    elements (", ".intercalate values) = values.flatMap elements := by
  induction values with
  | nil =>
      rw [String.intercalate_nil]
      rfl
  | cons value rest ih =>
      cases rest with
      | nil => rw [String.intercalate_singleton, List.flatMap_singleton]
      | cons next rest =>
          rw [String.intercalate_cons_cons, elements_append_comma, ih, ← List.flatMap_cons]

/-! ## The order of the ranges -/

/-- Of a higher quality, or of the same and at least as specific. -/
def Precedes (a b : MediaRange) : Prop :=
  b.quality.less a.quality = true ∨ (b.quality.Same a.quality ∧ b.specificity ≤ a.specificity)

variable {a b : MediaRange} {ranges elements : List MediaRange} {s : List Listed}

/-- What is not a number has no place in the order. -/
theorem Precedes.isNaN_eq_false (h : Precedes a b) :
    a.quality.isNaN = false ∧ b.quality.isNaN = false := by
  rcases h with h | ⟨h, -⟩
  · exact (Quality.isNaN_of_less h).symm
  · exact h.isNaN_eq_false.symm

theorem Outranks.precedes {a b : Listed} (h : Outranks a b) : Precedes a.1 b.1 := by
  rcases h with h | ⟨hsame, h | ⟨h, -⟩⟩
  · exact .inl h
  · exact .inr ⟨hsame, Nat.le_of_lt h⟩
  · exact .inr ⟨hsame, Nat.le_of_eq h⟩

theorem Arranged.pairwise_precedes (h : Arranged elements s) :
    (s.map Prod.fst).Pairwise Precedes := by
  rw [List.pairwise_map]
  exact h.ordered.imp Outranks.precedes

/-- Two ranges or more that are in order are all numbers. -/
theorem allNumeric_of_pairwise_precedes (h : ranges.Pairwise Precedes) :
    AllNumeric ranges ∨ ranges.length ≤ 1 := by
  match ranges, h with
  | [], _ => exact .inr (Nat.zero_le 1)
  | [_], _ => exact .inr (Nat.le_refl 1)
  | first :: second :: rest, h =>
      obtain ⟨hfirst, -⟩ := List.pairwise_cons.mp h
      left
      intro r hr
      rcases List.mem_cons.mp hr with rfl | hr
      · exact (hfirst second List.mem_cons_self).isNaN_eq_false.1
      · exact (hfirst r hr).isNaN_eq_false.2

namespace Accept

/-- Reading a value panics only where a quality is not a number and the ranges are more than twenty.
Otherwise what is read are the elements that can be read, rearranged. The quality of each is
between 0 and 1 unless it is not a number, which it is just if the text behind its first `q=` spells
that. Ranges that are alike stay in the order of the header, unless there is such a quality among more
than twenty. Where all qualities are numbers the ranges are arranged in the order of preference; and
they are in that order only then, or where there is but one. -/
theorem parse_arranges_elements (header : String) :
    let elements := (splitOn ',' header.toList).filterMap fun piece =>
      MediaRange.parse? (trim piece)
    (∀ p, Accept.parse header = .error p →
      p = .text MediaRange.unorderedMessage ∧ ¬ AllNumeric elements ∧ 20 < elements.length) ∧
    ∀ accept, Accept.parse header = .ok accept →
      let ranges := accept.ranges
      ranges.Perm elements ∧
      (∀ range ∈ ranges, range.quality.InUnit ↔ range.quality.isNaN = false) ∧
      ((∃ range ∈ ranges, range.quality.isNaN = true) ↔
        ∃ piece ∈ splitOn ',' header.toList, (MediaRange.parse? (trim piece)).isSome = true ∧
          ∃ value, MediaRange.statedQuality? (trim piece) = some value ∧ SpellsNaN value) ∧
      (AllNumeric ranges ∨ ranges.length ≤ 20 →
        ∀ range : MediaRange, ranges.filter range.ties = elements.filter range.ties) ∧
      (AllNumeric ranges → ∃ s, s.map Prod.fst = ranges ∧ Arranged elements s) ∧
      (ranges.Pairwise Precedes ↔ AllNumeric ranges ∨ ranges.length ≤ 1) := by
  intro elements
  have helements : Accept.elements header = elements := elements_eq header
  refine ⟨fun p hp => ?_, fun accept haccept => ?_⟩
  · rw [← helements]
    exact parse_eq_error hp
  intro ranges
  have hsort : MediaRange.sort elements = .ok ranges := helements ▸ sort_of_parse haccept
  have hperm : ranges.Perm elements := helements ▸ perm_of_parse haccept
  have hread : ∀ range, range ∈ ranges ↔
      ∃ piece ∈ splitOn ',' header.toList, MediaRange.parse? (trim piece) = some range := by
    intro range
    rw [hperm.mem_iff, List.mem_filterMap]
  have hnumeric : AllNumeric ranges ↔ AllNumeric elements :=
    forall_congr' fun r => imp_congr_left hperm.mem_iff
  have harrange : AllNumeric ranges ∨ ranges.length ≤ 20 →
      ranges = MediaRange.arrange elements := by
    rw [hnumeric, hperm.length_eq]
    intro h
    rw [MediaRange.sort_eq_arrange h, Except.ok.injEq] at hsort
    exact hsort.symm
  have harranged : AllNumeric ranges → ∃ s, s.map Prod.fst = ranges ∧ Arranged elements s := by
    intro hnum
    rw [harrange (.inl hnum)]
    exact exists_arranged elements (hnumeric.mp hnum)
  refine ⟨hperm, ?_, ?_, ?_, harranged, allNumeric_of_pairwise_precedes, ?_⟩
  · intro range hrange
    obtain ⟨piece, -, hpiece⟩ := (hread range).mp hrange
    exact MediaRange.inUnit_iff_of_parse? hpiece
  · constructor
    · rintro ⟨range, hrange, hnan⟩
      obtain ⟨piece, hmem, hpiece⟩ := (hread range).mp hrange
      exact ⟨piece, hmem, hpiece ▸ rfl, (MediaRange.isNaN_iff_of_parse? hpiece).mp hnan⟩
    · rintro ⟨piece, hmem, hsome, hspells⟩
      obtain ⟨range, hpiece⟩ := Option.isSome_iff_exists.mp hsome
      exact ⟨range, (hread range).mpr ⟨piece, hmem, hpiece⟩,
        (MediaRange.isNaN_iff_of_parse? hpiece).mpr hspells⟩
  · intro h range
    rw [harrange h]
    exact MediaRange.filter_arrange range elements
  · rintro (hnum | hshort)
    · obtain ⟨s, hs, hordered⟩ := harranged hnum
      rw [← hs]
      exact hordered.pairwise_precedes
    · match ranges, hshort with
      | [], _ => exact .nil
      | [range], _ => exact List.pairwise_singleton _ range

/-- A quality that is not a number between two that are. -/
def acceptNaNBetween : String :=
  "text/html;q=0.5, application/json;q=nan, application/xml"

/-- It is kept, and it keeps the preferred range from the front. -/
theorem not_parse_arranges_acceptNaNBetween :
    ¬ ∀ header, ∃ accept, Accept.parse header = .ok accept ∧
      (∀ range ∈ accept.ranges, range.quality.InUnit) ∧ accept.ranges.Pairwise Precedes := by
  intro hclaim
  obtain ⟨accept, haccept, hunit, -⟩ := hclaim acceptNaNBetween
  have hparse : Accept.parse acceptNaNBetween =
      .ok ⟨[⟨"text", "html", ⟨0x3F000000⟩⟩, ⟨"application", "json", ⟨0x7FC00000⟩⟩,
        ⟨"application", "xml", ⟨0x3F800000⟩⟩]⟩ := by rfl
  rw [hparse, Except.ok.injEq] at haccept
  rw [← haccept] at hunit
  have hnan := hunit ⟨"application", "json", ⟨0x7FC00000⟩⟩ (by simp)
  revert hnan
  decide

end Accept

end AppServer.Negotiation
