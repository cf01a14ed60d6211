import AppServer.Proofs.Routing.Bucket
import AppServer.Proofs.Routing.Grammar
import AppServer.Proofs.Routing.Mount

/-!
# Patterns under a mount point

The full path of a pattern begins with the segments of the mount point, which stand for themselves if
they are literal text. Behind such segments patterns overlap, are ordered and capture as they do
without them, so a bucket takes or refuses a route with its full path as it does the route itself.
-/

namespace AppServer.Routing

open AppServer.Http AppServer.Pipeline AppServer.Text

variable {σ : Type}

/-! ## Patterns behind literal segments -/

theorem Segment.not_isParam_of_mem_literals {front : List String} {s : Segment}
    (h : s ∈ front.map Segment.literal) : ¬ s.isParam = true := by
  obtain ⟨text, -, rfl⟩ := List.mem_map.mp h
  exact Bool.false_ne_true

namespace Pattern

/-- The pattern behind some literal segments. -/
def below (front : List String) (p : Pattern) : Pattern :=
  ⟨front.map .literal ++ p.segments⟩

variable {front : List String} {p q : Pattern} {parts : List String}

theorem length_below : (p.below front).length = front.length + p.length := by
  rw [length, below, List.length_append, List.length_map, length]

theorem paramCount_below : (p.below front).paramCount = p.paramCount := by
  have hnone : (front.map Segment.literal).countP Segment.isParam = 0 := by
    rw [List.countP_eq_zero]
    intro s hs
    exact Segment.not_isParam_of_mem_literals hs
  rw [paramCount, below, List.countP_append, hnone, Nat.zero_add, paramCount]

theorem below_injective (front : List String) : Function.Injective (below front) := by
  intro p q h
  have hsegments := List.append_cancel_left (Pattern.mk.inj h)
  cases p
  cases q
  exact congrArg Pattern.mk hsegments

theorem overlaps_below : (p.below front).overlaps (q.below front) = p.overlaps q := by
  rw [Bool.eq_iff_iff, overlaps_iff, overlaps_iff]
  induction front with
  | nil => rfl
  | cons s front ih =>
      rw [← ih]
      show List.Forall₂ _ (.literal s :: (p.below front).segments)
        (.literal s :: (q.below front).segments) ↔ _
      rw [List.forall₂_cons]
      exact and_iff_right (Segment.overlaps_self _)

theorem rivals_below_iff : (p.below front).Rivals (q.below front) ↔ p.Rivals q := by
  rw [Rivals, Rivals, paramCount_below, paramCount_below, overlaps_below]

/-- What such a pattern accepts begins with the literal segments. -/
theorem accepts_below_iff :
    (p.below front).accepts parts = true ↔
      ∃ rest, parts = front ++ rest ∧ p.accepts rest = true := by
  simp only [accepts_iff]
  induction front generalizing parts with
  | nil => exact ⟨fun h => ⟨parts, rfl, h⟩, fun ⟨rest, hrest, h⟩ => hrest ▸ h⟩
  | cons s front ih =>
      show List.Forall₂ _ (.literal s :: (p.below front).segments) parts ↔ _
      rw [List.forall₂_cons_left_iff]
      constructor
      · rintro ⟨value, more, hvalue, hmore, rfl⟩
        obtain ⟨rest, rfl, hrest⟩ := ih.mp hmore
        have hs : s = value := by simpa [Segment.accepts] using hvalue
        exact ⟨rest, by rw [hs, List.cons_append], hrest⟩
      · rintro ⟨rest, rfl, hrest⟩
        exact ⟨s, front ++ rest, by simp [Segment.accepts], ih.mpr ⟨rest, rfl, hrest⟩, rfl⟩

theorem accepts_below_append : (p.below front).accepts (front ++ parts) = p.accepts parts := by
  rw [Bool.eq_iff_iff, accepts_below_iff]
  constructor
  · rintro ⟨rest, hrest, h⟩
    rwa [List.append_cancel_left hrest]
  · exact fun h => ⟨parts, rfl, h⟩

/-- Literal segments capture nothing. -/
theorem capture_below_append : (p.below front).capture (front ++ parts) = p.capture parts := by
  induction front with
  | nil => rfl
  | cons s front ih => exact ih

end Pattern

/-- A text that stands for itself in a pattern. -/
structure IsLiteral (text : String) : Prop where
  noColon : text.toList.head? ≠ some ':'
  noBrace : text.toList.any Segment.isBrace = false

theorem Pattern.IsRead.below {p : Pattern} (hp : p.IsRead) {mount : String}
    (hmount : ∀ s ∈ Text.segments mount, IsLiteral s) :
    (p.below (Text.segments mount)).IsRead where
  segments s hs := by
    rcases List.mem_append.mp hs with hs | hs
    · obtain ⟨text, htext, rfl⟩ := List.mem_map.mp hs
      exact .literal (isSegment_of_mem_segments htext) (hmount text htext).noColon
        (hmount text htext).noBrace
    · exact hp.segments s hs
  distinct := by
    have hnone : ((Text.segments mount).map Segment.literal).filter Segment.isParam = [] := by
      rw [List.filter_eq_nil_iff]
      intro s hs
      exact Segment.not_isParam_of_mem_literals hs
    rw [Pattern.below, List.filter_append, hnone, List.nil_append]
    exact hp.distinct

theorem joinPath_normalizeMount (mount : String) {parts : List String}
    (hparts : ∀ s ∈ parts, IsSegment s) :
    joinPath (normalizeMount mount) (rooted parts) = rooted (segments mount ++ parts) := by
  have hroot := (isMount_normalizeMount mount).eq_root_iff
  rw [segments_normalizeMount] at hroot
  unfold joinPath
  by_cases hfront : segments mount = []
  · rw [if_pos (hroot.mpr hfront), hfront, List.nil_append]
  · have happend : segments mount ++ parts ≠ [] :=
      fun hnil => hfront (List.append_eq_nil_iff.mp hnil).1
    rw [if_neg (mt hroot.mp hfront), rooted_of_ne_nil happend, normalizeMount_eq, if_neg hfront,
      slashed_append]
    by_cases hempty : parts = []
    · rw [hempty, slashed_nil, String.append_empty]
      exact if_pos rfl
    · have hne : rooted parts ≠ "/" := by
        intro heq
        have hsegments := segments_rooted hparts
        rw [heq] at hsegments
        exact hempty hsegments.symm
      rw [if_neg hne, rooted_of_ne_nil hempty]

theorem Pattern.IsRead.render_below {p : Pattern} (hp : p.IsRead) (mount : String) :
    (p.below (Text.segments mount)).render = joinPath (normalizeMount mount) p.render := by
  have hspelled : ∀ s ∈ p.segments.map Segment.spelling, IsSegment s := by
    intro part hpart
    obtain ⟨s, hs, rfl⟩ := List.mem_map.mp hpart
    exact (hp.segments s hs).isSegment_spelling
  have hliteral : ((Text.segments mount).map Segment.literal).map Segment.spelling =
      Text.segments mount := by
    rw [List.map_map]
    exact List.map_id _
  rw [render_eq, render_eq, joinPath_normalizeMount mount hspelled, Pattern.below,
    List.map_append, hliteral]

/-! ## Entries and errors -/

def Entry.below (mount : String) (e : Entry σ) : Entry σ :=
  { e with pattern := e.pattern.below (segments mount) }

theorem Entry.pattern_below_eq_iff {mount : String} {e : Entry σ} {p : Pattern} :
    (e.below mount).pattern = p.below (segments mount) ↔ e.pattern = p :=
  (Pattern.below_injective _).eq_iff

/-- The error with the full paths of its patterns. -/
def RouteError.below (mount : String) : RouteError → RouteError
  | .duplicate method pattern => .duplicate method (joinPath (normalizeMount mount) pattern)
  | .ambiguous existing new =>
    .ambiguous (joinPath (normalizeMount mount) existing) (joinPath (normalizeMount mount) new)
  | .malformedPattern pattern fault => .malformedPattern pattern fault
  | .invalidMethod method => .invalidMethod method

namespace Router

variable {mount : String} {entries : List (Entry σ)} {p : Pattern}

theorem firstRelated?_below (mount : String) (p : Pattern) (entries : List (Entry σ)) :
    firstRelated? (p.below (segments mount)) (entries.map (Entry.below mount)) =
      (firstRelated? p entries).map (Entry.below mount) := by
  rw [firstRelated?_eq_find?, firstRelated?_eq_find?, List.find?_map]
  congr 2
  funext e
  exact decide_eq_decide.mpr Pattern.rivals_below_iff

theorem insertEntry_below (mount : String) (e : Entry σ) (entries : List (Entry σ)) :
    insertEntry (e.below mount) (entries.map (Entry.below mount)) =
      (insertEntry e entries).map (Entry.below mount) := by
  induction entries with
  | nil => rfl
  | cons x xs ih =>
      have hcount : (x.below mount).pattern.paramCount ≤ (e.below mount).pattern.paramCount ↔
          x.pattern.paramCount ≤ e.pattern.paramCount := by
        rw [Entry.below, Entry.below, Pattern.paramCount_below, Pattern.paramCount_below]
      rw [List.map_cons, insertEntry, insertEntry]
      by_cases hle : x.pattern.paramCount ≤ e.pattern.paramCount
      · rw [if_pos (hcount.mpr hle), if_pos hle, ih, List.map_cons]
      · rw [if_neg (mt hcount.mp hle), if_neg hle, List.map_cons, List.map_cons]

theorem updateEntry_below (mount : String) (p : Pattern) (m : Option Method) (c : Chain σ)
    (entries : List (Entry σ)) :
    updateEntry (p.below (segments mount)) (·.add m c) (entries.map (Entry.below mount)) =
      (updateEntry p (·.add m c) entries).map (Entry.below mount) := by
  have hadd : ∀ e : Entry σ, (e.below mount).add m c = (e.add m c).below mount := by
    intro e
    cases m <;> rfl
  rw [updateEntry, updateEntry, List.map_map, List.map_map]
  apply List.map_congr_left
  intro e _
  by_cases hp : e.pattern = p
  · simp only [Function.comp, beq_iff_eq, Entry.pattern_below_eq_iff.mpr hp, hp, if_true, hadd]
  · simp only [Function.comp, beq_iff_eq, mt Entry.pattern_below_eq_iff.mp hp, hp, if_false]

/-- Adding a route behind the segments of the mount point. -/
theorem addRoute_below (hentries : ∀ e ∈ entries, e.pattern.IsRead) (hp : p.IsRead)
    (m : Option Method) (c : Chain σ) :
    addRoute (entries.map (Entry.below mount)) m (p.below (segments mount)) c =
      ((addRoute entries m p c).mapError (RouteError.below mount)).map
        (List.map (Entry.below mount)) := by
  unfold addRoute
  rw [firstRelated?_below]
  cases h : firstRelated? p entries with
  | none =>
      have hnew : (Entry.new (p.below (segments mount)) : Entry σ).add m c =
          ((Entry.new p).add m c).below mount := by
        cases m <;> rfl
      show Except.ok _ = Except.ok _
      rw [hnew, insertEntry_below]
  | some e =>
      have hread : e.pattern.IsRead := hentries e (List.mem_of_find?_eq_some h)
      have hhas : (e.below mount).has m = e.has m := by
        cases m <;> rfl
      rw [Option.map_some]
      by_cases heq : e.pattern = p
      · simp only [beq_iff_eq, Entry.pattern_below_eq_iff.mpr heq, heq, if_true, hhas]
        cases e.has m with
        | true => simp [Except.mapError, Except.map, RouteError.below, hp.render_below]
        | false => simp [Except.mapError, Except.map, updateEntry_below]
      · simp only [beq_iff_eq, mt Entry.pattern_below_eq_iff.mp heq, heq, if_false]
        simp [Except.mapError, Except.map, RouteError.below, hp.render_below,
          Entry.below, hread.render_below]

end Router

end AppServer.Routing
