import AppServer.Proofs.Negotiation.Preference
import AppServer.Proofs.Text.Trim

/-!
# The deciding range

A scan that keeps what it has unless the next element is strictly better ends with the first of the
best. The range that decides the quality of a media type is found by such a scan over the arranged
ranges: among the most specific that cover the type it is the one that no other outranks.
-/

namespace AppServer.Negotiation

open AppServer.Text

section Scan

variable {α κ : Type}

/-- Keeps the best so far unless the next element has a key above the key of the best. -/
def keepBest (key? : α → Option κ) (above : κ → κ → Bool) (best : Option (κ × α)) (next : α) :
    Option (κ × α) :=
  match key? next with
  | none => best
  | some k =>
    match best with
    | none => some (k, next)
    | some (top, kept) => if above k top then some (k, next) else some (top, kept)

/-- The element at `i` is the first of those whose keys have the highest value. -/
structure FirstBest (key? : α → Option κ) (value : κ → Int) (l : List α) (i : Nat) (k : κ)
    (x : α) : Prop where
  entry : l[i]? = some x
  key : key? x = some k
  highest : ∀ j y k', l[j]? = some y → key? y = some k' →
    value k' < value k ∨ (value k' = value k ∧ i ≤ j)

variable {key? : α → Option κ} {value : κ → Int}

theorem getElem?_append_singleton {l : List α} {z y : α} {j : Nat}
    (h : (l ++ [z])[j]? = some y) : l[j]? = some y ∨ (j = l.length ∧ y = z) := by
  rw [List.getElem?_append] at h
  split at h
  · exact .inl h
  · obtain ⟨hj, hy⟩ := List.getElem?_eq_some_iff.mp h
    rw [List.length_singleton] at hj
    refine .inr ⟨by omega, ?_⟩
    rw [← hy, List.getElem_singleton]

/-- A further element that is not better changes nothing. -/
theorem FirstBest.append {l : List α} {i : Nat} {k : κ} {x z : α}
    (h : FirstBest key? value l i k x) (hz : ∀ k', key? z = some k' → value k' ≤ value k) :
    FirstBest key? value (l ++ [z]) i k x := by
  obtain ⟨hi, -⟩ := List.getElem?_eq_some_iff.mp h.entry
  refine ⟨by rw [List.getElem?_append_left hi, h.entry], h.key, ?_⟩
  intro j y k' hy hk'
  rcases getElem?_append_singleton hy with hy | ⟨rfl, rfl⟩
  · exact h.highest j y k' hy hk'
  · have hle := hz k' hk'
    omega

/-- A further element that is better than all before is the first of the best. -/
theorem FirstBest.last {l : List α} {k : κ} {z : α} (hz : key? z = some k)
    (hbelow : ∀ y ∈ l, ∀ k', key? y = some k' → value k' < value k) :
    FirstBest key? value (l ++ [z]) l.length k z := by
  refine ⟨by simp, hz, ?_⟩
  intro j y k' hy hk'
  rcases getElem?_append_singleton hy with hy | ⟨rfl, rfl⟩
  · exact .inl (hbelow y (List.mem_of_getElem? hy) k' hk')
  · rw [hz, Option.some.injEq] at hk'
    exact .inr ⟨by rw [hk'], Nat.le_refl _⟩

/-- What a scan holds after the elements `l`: the first of the best, if any of them has a key. -/
inductive Scanned (key? : α → Option κ) (value : κ → Int) (l : List α) : Option (κ × α) → Prop
  | none (keyless : ∀ x ∈ l, key? x = .none) : Scanned key? value l .none
  | some {i : Nat} {k : κ} {x : α} (best : FirstBest key? value l i k x) :
      Scanned key? value l (.some (k, x))

variable {above : κ → κ → Bool}

/-- One element further. -/
theorem Scanned.keepBest {l : List α} {best : Option (κ × α)} {z : α}
    (h : Scanned key? value l best)
    (hvalue : ∀ x y k k', key? x = .some k → key? y = .some k' →
      (above k k' = true ↔ value k' < value k)) :
    Scanned key? value (l ++ [z]) (keepBest key? above best z) := by
  cases h with
  | none hkeyless =>
      cases hz : key? z with
      | none =>
          rw [Negotiation.keepBest, hz]
          refine .none fun y hy => ?_
          rcases List.mem_append.mp hy with hy | hy
          · exact hkeyless y hy
          · rw [List.mem_singleton.mp hy, hz]
      | some k =>
          rw [Negotiation.keepBest, hz]
          refine .some (.last hz ?_)
          intro y hy k' hk'
          rw [hkeyless y hy] at hk'
          cases hk'
  | @some i k x hbest =>
      cases hz : key? z with
      | none =>
          rw [Negotiation.keepBest, hz]
          refine .some (hbest.append ?_)
          rw [hz]
          rintro k' ⟨⟩
      | some top =>
          have hiff := hvalue z x top k hz hbest.key
          rw [Negotiation.keepBest, hz]
          by_cases habove : above top k = true
          · have hlt := hiff.mp habove
            simp only [habove, if_true]
            refine .some (.last hz ?_)
            intro y hy k' hk'
            obtain ⟨j, hj⟩ := List.getElem?_of_mem hy
            have hle := hbest.highest j y k' hj hk'
            omega
          · have hge := mt hiff.mpr habove
            simp only [habove]
            refine .some (hbest.append ?_)
            intro k' hk'
            rw [hz, Option.some.injEq] at hk'
            subst hk'
            omega

/-- The scan finds the first of the best if any element has a key. -/
theorem scanned_foldl (key? : α → Option κ) (above : κ → κ → Bool) (value : κ → Int)
    (hvalue : ∀ x y k k', key? x = some k → key? y = some k' →
      (above k k' = true ↔ value k' < value k)) (l : List α) :
    Scanned key? value l (l.foldl (keepBest key? above) none) := by
  induction l using List.reverseRecOn with
  | nil => exact .none (by simp)
  | append_singleton l z ih =>
      rw [List.foldl_append, List.foldl_cons, List.foldl_nil]
      exact ih.keepBest hvalue

end Scan

/-! ## The range that decides -/

namespace Accept

open AppServer.Pipeline

variable {header : String} {accept : Accept}

/-- Trimming a header does not change what is read from it. -/
theorem elements_trimmed (header : String) : elements (trimmed header) = elements header := by
  unfold elements trimmed trim
  rw [String.toList_ofList, map_trimBy_splitOn_trimBy (by decide)]

theorem parse_trimmed (header : String) : parse (trimmed header) = parse header := by
  rw [parse, elements_trimmed, parse]

/-- Reading a value panics at most where one of more than twenty ranges has a quality that is not a
number. -/
theorem parse_cases (header : String) :
    (∃ accept, parse header = .ok accept ∧
      MediaRange.sort (elements header) = .ok accept.ranges) ∨
    (parse header = .error (.text MediaRange.unorderedMessage) ∧
      ¬ AllNumeric (elements header) ∧ 20 < (elements header).length) := by
  unfold parse
  cases h : MediaRange.sort (elements header) with
  | ok ranges => exact .inl ⟨⟨ranges⟩, rfl, rfl⟩
  | error p =>
      obtain ⟨rfl, hmany⟩ := MediaRange.sort_eq_error h
      exact .inr ⟨rfl, hmany⟩

theorem sort_of_parse (h : parse header = .ok accept) :
    MediaRange.sort (elements header) = .ok accept.ranges := by
  rcases parse_cases header with ⟨accept', h', hsort⟩ | ⟨h', -⟩
  · rw [h, Except.ok.injEq] at h'
    exact h' ▸ hsort
  · rw [h] at h'
    cases h'

theorem perm_of_parse (h : parse header = .ok accept) : accept.ranges.Perm (elements header) :=
  MediaRange.sort_perm (sort_of_parse h)

theorem parse_eq_arrange (h : AllNumeric (elements header) ∨ (elements header).length ≤ 20) :
    parse header = .ok ⟨MediaRange.arrange (elements header)⟩ := by
  unfold parse
  rw [MediaRange.sort_eq_arrange h]
  rfl

theorem parse_eq_error {p : Payload} (h : parse header = .error p) :
    p = .text MediaRange.unorderedMessage ∧ ¬ AllNumeric (elements header) ∧
      20 < (elements header).length := by
  rcases parse_cases header with ⟨accept, h', -⟩ | ⟨h', hmany⟩
  · rw [h] at h'
    cases h'
  · rw [h, Except.error.injEq] at h'
    exact ⟨h', hmany⟩

/-- What is read from it. -/
def unordered : List MediaRange :=
  [⟨"*", "*", ⟨0x3F000000⟩⟩, ⟨"*", "*", ⟨0x7FC00000⟩⟩, ⟨"*", "*", ⟨0x3F000000⟩⟩] ++
    List.replicate 18 ⟨"*", "*", .one⟩

end Accept

/-- The range decides the quality of the media type: it covers it, no other that does is more
specific, and among those as specific none outranks it. -/
structure Decides (elements : List MediaRange) (mediaType : String) (d : Listed) : Prop where
  listed : elements[d.2]? = some d.1
  covers : d.1.covers mediaType = true
  foremost : ∀ r n, elements[n]? = some r → r.covers mediaType = true →
    r.specificity < d.1.specificity ∨
      (r.specificity = d.1.specificity ∧ ¬ Outranks (r, n) d)

variable {elements : List MediaRange} {s : List Listed} {mediaType : String} {d d' : Listed}

theorem AllNumeric.numeric (hnum : AllNumeric elements) (h : elements[d.2]? = some d.1) :
    d.Numeric :=
  hnum d.1 (List.mem_of_getElem? h)

/-- At most one range decides. -/
theorem Decides.unique (hnum : AllNumeric elements) (h : Decides elements mediaType d)
    (h' : Decides elements mediaType d') : d = d' := by
  have hle := h.foremost d'.1 d'.2 h'.listed h'.covers
  have hge := h'.foremost d.1 d.2 h.listed h.covers
  have hplace : d.2 = d'.2 := by
    by_contra hne
    have hout : ¬ Outranks d d' := by
      rcases hge with hlt | ⟨-, hout⟩
      · omega
      · exact hout
    have hout' : ¬ Outranks d' d := by
      rcases hle with hlt | ⟨-, hout⟩
      · omega
      · exact hout
    exact hout' (Outranks.total (hnum.numeric h.listed) (hnum.numeric h'.listed) hne hout)
  have hrange := h.listed
  rw [hplace, h'.listed, Option.some.injEq] at hrange
  exact Prod.ext hrange.symm hplace

namespace Arranged

theorem mem_iff (hs : Arranged elements s) : d ∈ s ↔ elements[d.2]? = some d.1 := by
  rw [hs.perm.mem_iff, List.mem_zipIdx_iff_getElem?]

/-- What stands in front outranks, and only that. -/
theorem outranks_iff_lt (hs : Arranged elements s) (hnum : AllNumeric elements) {i j : Nat}
    (hi : s[i]? = some d) (hj : s[j]? = some d') : Outranks d d' ↔ i < j := by
  have hd := hnum.numeric (hs.mem_iff.mp (List.mem_of_getElem? hi))
  have hd' := hnum.numeric (hs.mem_iff.mp (List.mem_of_getElem? hj))
  obtain ⟨hilt, rfl⟩ := List.getElem?_eq_some_iff.mp hi
  obtain ⟨hjlt, rfl⟩ := List.getElem?_eq_some_iff.mp hj
  have hpair := List.pairwise_iff_getElem.mp hs.ordered
  constructor
  · intro hout
    by_contra hge
    rcases Nat.lt_or_eq_of_le (Nat.le_of_not_lt hge) with hlt | rfl
    · exact hout.asymm hd hd' (hpair j i hjlt hilt hlt)
    · exact hout.asymm hd hd hout
  · exact hpair i j hilt hjlt

end Arranged

/-- The key of a range that covers a media type: the range itself with its place. -/
def coveringKey (mediaType : String) (next : MediaRange × Nat) : Option (Nat × MediaRange) :=
  if next.1.covers mediaType then some (next.2, next.1) else none

theorem coveringKey_eq_some_iff {r : MediaRange} {n : Nat} {k : Nat × MediaRange} :
    coveringKey mediaType (r, n) = some k ↔ r.covers mediaType = true ∧ k = (n, r) := by
  simp only [coveringKey]
  split
  · rename_i hcovers
    rw [Option.some.injEq]
    exact ⟨fun h => ⟨hcovers, h.symm⟩, fun h => h.2.symm⟩
  · rename_i hnot
    exact ⟨by rintro ⟨⟩, fun h => absurd h.1 hnot⟩

theorem Accept.deciding?_eq_keepBest (a : Accept) (mediaType : String) :
    a.deciding? mediaType =
      (a.ranges.zipIdx.foldl
        (keepBest (coveringKey mediaType) fun k k' => k'.2.specificity < k.2.specificity)
        none).map Prod.fst := by
  rw [deciding?, ← List.foldl_hom (Option.map Prod.fst)]
  · rfl
  · intro best next
    by_cases hcovers : next.1.covers mediaType = true
    · cases best with
      | none => simp [prefer, keepBest, coveringKey, hcovers]
      | some kept =>
          simp only [prefer, keepBest, coveringKey, hcovers, if_true, Option.map_some,
            decide_eq_true_eq]
          split <;> rfl
    · simp [prefer, keepBest, coveringKey, hcovers]

/-- Of the ranges that cover the media type, the one at `i` is the first of the most specific. -/
structure FirstCovering (ranges : List MediaRange) (mediaType : String) (i : Nat)
    (range : MediaRange) : Prop where
  entry : ranges[i]? = some range
  covers : range.covers mediaType = true
  foremost : ∀ j r, ranges[j]? = some r → r.covers mediaType = true →
    r.specificity < range.specificity ∨ (r.specificity = range.specificity ∧ i ≤ j)

/-- Equal ranges behind the first of the most specific have no part in the search. -/
theorem FirstCovering.idxOf_eq {ranges : List MediaRange} {i : Nat} {range : MediaRange}
    (h : FirstCovering ranges mediaType i range) : ranges.idxOf range = i := by
  obtain ⟨hi, hentry⟩ := List.getElem?_eq_some_iff.mp h.entry
  rw [List.idxOf, List.findIdx_eq hi]
  refine ⟨by simp [hentry], fun j hj => ?_⟩
  rw [beq_eq_false_iff_ne]
  intro hsame
  have hj' : ranges[j]? = some range := List.getElem?_eq_some_iff.mpr ⟨by omega, hsame⟩
  have hhigh := h.foremost j range hj' h.covers
  omega

/-- The search finds the first of the most specific ranges that cover the type, if any does. -/
theorem Accept.deciding?_cases (a : Accept) (mediaType : String) :
    (a.deciding? mediaType = none ∧ ∀ r ∈ a.ranges, r.covers mediaType ≠ true) ∨
      ∃ i range, a.deciding? mediaType = some (i, range) ∧
        FirstCovering a.ranges mediaType i range := by
  have hentry : ∀ (j : Nat) (r : MediaRange), a.ranges[j]? = some r →
      a.ranges.zipIdx[j]? = some (r, j) := by
    intro j r hj
    simp [List.getElem?_zipIdx, hj]
  have hscan := scanned_foldl (coveringKey mediaType)
    (fun k k' => k'.2.specificity < k.2.specificity) (fun k => (k.2.specificity : Int)) (by simp)
    a.ranges.zipIdx
  rw [deciding?_eq_keepBest]
  generalize List.foldl _ _ _ = best at hscan ⊢
  cases hscan with
  | none hkeyless =>
      refine .inl ⟨rfl, fun r hr hcovers => ?_⟩
      obtain ⟨j, hj⟩ := List.getElem?_of_mem hr
      have hkey := hkeyless _ (List.mem_of_getElem? (hentry j r hj))
      rw [coveringKey_eq_some_iff.mpr ⟨hcovers, rfl⟩] at hkey
      cases hkey
  | @some i k x hbest =>
      have hx := hbest.entry
      rw [List.getElem?_zipIdx, Option.map_eq_some_iff] at hx
      obtain ⟨range, hrange, rfl⟩ := hx
      obtain ⟨hcovers, rfl⟩ := coveringKey_eq_some_iff.mp hbest.key
      refine .inr ⟨i, range, by simp, hrange, hcovers, fun j r hj hcovers' => ?_⟩
      have hhigh := hbest.highest j _ _ (hentry j r hj)
        (coveringKey_eq_some_iff.mpr ⟨hcovers', rfl⟩)
      exact_mod_cast hhigh

/-- The search over arranged ranges finds the one that decides, if any range covers the type. -/
theorem Arranged.deciding? (hs : Arranged elements s) (hnum : AllNumeric elements)
    (mediaType : String) :
    ((Accept.mk (s.map Prod.fst)).deciding? mediaType = none ∧
        ∀ d, ¬ Decides elements mediaType d) ∨
      ∃ k d, (Accept.mk (s.map Prod.fst)).deciding? mediaType = some (k, d.1) ∧
        s[k]? = some d ∧ Decides elements mediaType d := by
  rcases (Accept.mk (s.map Prod.fst)).deciding?_cases mediaType with
    ⟨hnone, hnot⟩ | ⟨k, range, hsome, hfirst⟩
  · refine .inl ⟨hnone, fun d hd => ?_⟩
    exact hnot d.1 (List.mem_map_of_mem (hs.mem_iff.mpr hd.listed)) hd.covers
  · have hrange := hfirst.entry
    rw [List.getElem?_map, Option.map_eq_some_iff] at hrange
    obtain ⟨d, hd, rfl⟩ := hrange
    refine .inr ⟨k, d, hsome, hd, hs.mem_iff.mp (List.mem_of_getElem? hd), hfirst.covers, ?_⟩
    intro r n hr hcovers
    have hmem : (r, n) ∈ s := hs.mem_iff.mpr hr
    obtain ⟨j, hj⟩ := List.getElem?_of_mem hmem
    have hj' : (s.map Prod.fst)[j]? = some r := by
      rw [List.getElem?_map, hj, Option.map_some]
    -- in arranged ranges whatever comes later does not outrank, so the first of the best decides
    rcases hfirst.foremost j r hj' hcovers with hlt | ⟨heq, hle⟩
    · exact .inl hlt
    · refine .inr ⟨heq, ?_⟩
      rw [hs.outranks_iff_lt hnum hj hd]
      omega

end AppServer.Negotiation
