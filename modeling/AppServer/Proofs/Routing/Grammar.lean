import AppServer.Proofs.Routing.Pattern
import AppServer.Proofs.Text.Segments
import Mathlib.Data.List.Nodup

/-!
# Patterns that have been read

The segments of a pattern that has been read can stand in a path, no literal looks like a parameter
and no parameter occurs twice. Such a pattern can be read back from its normal form, so two of them
with one normal form are equal. Two of them overlap just if some path fits both.
-/

namespace AppServer.Routing

open AppServer.Text

namespace Segment

/-- The segment in normal form, without the slash before it. -/
def spelling : Segment → String
  | .literal text => text
  | .param name => ":" ++ name

theorem render_eq (s : Segment) : s.render = "/" ++ s.spelling := by
  cases s <;> rfl

def isBrace (c : Char) : Bool :=
  c == '\x7b' || c == '\x7d'

/-- A segment that stands for some text. -/
inductive IsRead : Segment → Prop
  | literal {text : String} (segment : IsSegment text)
      (noColon : text.toList.head? ≠ some ':')
      (noBrace : text.toList.any isBrace = false) : IsRead (.literal text)
  | param {name : String} (segment : IsSegment name)
      (noMarker : name.toList.any isMarker = false) : IsRead (.param name)

theorem ofName_eq_ok_iff {cs : List Char} {s : Segment} :
    ofName cs = .ok s ↔ s = .param (String.ofList cs) ∧ cs ≠ [] ∧ cs.any isMarker = false := by
  unfold ofName
  cases cs with
  | nil => simp
  | cons c cs =>
      cases (c :: cs).any isMarker with
      | true => simp
      | false => simp [eq_comm]

theorem isSegment_ofList {cs : List Char} (hne : cs ≠ []) (hslash : '/' ∉ cs) :
    IsSegment (String.ofList cs) where
  ne_empty h := hne (by simpa using congrArg String.toList h)
  no_slash := by rwa [String.toList_ofList]

theorem isRead_of_ofName {cs : List Char} {s : Segment} (hslash : '/' ∉ cs)
    (h : ofName cs = .ok s) : s.IsRead := by
  obtain ⟨rfl, hne, hmarker⟩ := ofName_eq_ok_iff.mp h
  refine .param (isSegment_ofList hne hslash) ?_
  rwa [String.toList_ofList]

/-- Everything that can be read stands for its text. -/
theorem isRead_of_read {part : String} {s : Segment} (hpart : IsSegment part)
    (h : read part.toList = .ok s) : s.IsRead := by
  have hslash := hpart.no_slash
  unfold read at h
  split at h
  · rename_i name hshape
    rw [hshape] at hslash
    exact isRead_of_ofName (fun hmem => hslash (List.mem_cons_of_mem _ hmem)) h
  · rename_i rest hshape
    rw [hshape] at hslash
    split at h
    · refine isRead_of_ofName (fun hmem => hslash ?_) h
      exact List.mem_cons_of_mem _ (List.dropLast_subset _ hmem)
    · cases h
  · rename_i cs hcolon hbrace
    split at h
    · cases h
    · rename_i hbraces
      obtain rfl := Except.ok.inj h
      rw [String.ofList_toList]
      refine .literal hpart ?_ (by simpa [isBrace] using hbraces)
      intro hhead
      obtain ⟨tail, htail⟩ := List.head?_eq_some_iff.mp hhead
      exact hcolon tail htail

/-- A text without the marks of a parameter stands for itself. -/
theorem read_of_literal {cs : List Char} (noColon : cs.head? ≠ some ':')
    (noBrace : cs.any isBrace = false) : read cs = .ok (.literal (String.ofList cs)) := by
  have hhead : cs.head? ≠ some '\x7b' := by
    intro hhead
    obtain ⟨tail, htail⟩ := List.head?_eq_some_iff.mp hhead
    rw [htail] at noBrace
    simp [isBrace] at noBrace
  unfold read
  split
  · exact absurd rfl noColon
  · exact absurd rfl hhead
  · have hbraces : (cs.any fun c => c == '\x7b' || c == '\x7d') = false := noBrace
    rw [hbraces]
    rfl

/-- What a segment stands for reads as that segment. -/
theorem IsRead.read_spelling {s : Segment} (h : s.IsRead) : read s.spelling.toList = .ok s := by
  cases h with
  | @literal text segment noColon noBrace =>
      show read text.toList = .ok (.literal text)
      rw [read_of_literal noColon noBrace, String.ofList_toList]
  | @param name segment noMarker =>
      have hchars : (":" ++ name).toList = ':' :: name.toList := by simp
      show read (":" ++ name).toList = .ok (.param name)
      rw [hchars]
      have hne : name.toList ≠ [] := fun hnil => segment.ne_empty (String.toList_inj.mp hnil)
      exact ofName_eq_ok_iff.mpr ⟨by rw [String.ofList_toList], hne, noMarker⟩

theorem IsRead.isSegment_spelling {s : Segment} (h : s.IsRead) : IsSegment s.spelling := by
  cases h with
  | literal segment _ _ => exact segment
  | @param name segment _ =>
      have hchars : (":" ++ name).toList = ':' :: name.toList := by simp
      constructor
      · intro hempty
        have := congrArg String.toList hempty
        rw [spelling, hchars] at this
        cases this
      · rw [spelling, hchars, List.mem_cons, not_or]
        exact ⟨by decide, segment.no_slash⟩

/-- Segments that overlap accept a common text. -/
theorem IsRead.exists_accepts {a b : Segment} (ha : a.IsRead) (hb : b.IsRead)
    (h : a.overlaps b = true) :
    ∃ value, IsSegment value ∧ a.accepts value = true ∧ b.accepts value = true := by
  have hnonempty : ∀ {value : String}, IsSegment value → (!value.isEmpty) = true := by
    intro value hvalue
    simpa using hvalue.ne_empty
  cases ha with
  | @literal text segment _ _ =>
      refine ⟨text, segment, by simp [accepts], ?_⟩
      cases hb with
      | @literal text' _ _ _ =>
          obtain rfl : text = text' := by simpa [overlaps] using h
          simp [accepts]
      | param => exact hnonempty segment
  | @param name segment _ =>
      cases hb with
      | @literal text segment' _ _ =>
          exact ⟨text, segment', hnonempty segment', by simp [accepts]⟩
      | param => exact ⟨name, segment, hnonempty segment, hnonempty segment⟩

end Segment

namespace Pattern

/-- A pattern that stands for some path. -/
structure IsRead (p : Pattern) : Prop where
  segments : ∀ s ∈ p.segments, s.IsRead
  distinct : (p.segments.filter Segment.isParam).Nodup

theorem push_eq_ok_iff {done : List Segment} {s : Segment} {next : List Segment} :
    push done s = .ok next ↔ next = done ++ [s] ∧ (s.isParam = true → s ∉ done) := by
  unfold push
  cases hparam : s.isParam with
  | false => simp [eq_comm]
  | true =>
      by_cases hmem : s ∈ done
      · simp [hmem]
      · simp [hmem, eq_comm]

/-- Adding a segment that does not repeat a parameter. -/
theorem nodup_filter_isParam_append {done : List Segment} {s : Segment} :
    ((done ++ [s]).filter Segment.isParam).Nodup ↔
      (done.filter Segment.isParam).Nodup ∧ (s.isParam = true → s ∉ done) := by
  rw [List.filter_append]
  cases hparam : s.isParam with
  | false => simp [hparam]
  | true =>
      rw [List.filter_cons_of_pos hparam, List.filter_nil, List.nodup_append_comm,
        List.singleton_append, List.nodup_cons, List.mem_filter]
      simp [hparam, and_comm]

theorem readSegments_cons_eq_ok_iff {done segs : List Segment} {part : String}
    {parts : List String} :
    readSegments done (part :: parts) = .ok segs ↔
      ∃ s, Segment.read part.toList = .ok s ∧ (s.isParam = true → s ∉ done) ∧
        readSegments (done ++ [s]) parts = .ok segs := by
  rw [readSegments]
  cases hs : Segment.read part.toList with
  | error e => simp [bind, Except.bind]
  | ok s =>
      cases hp : push done s with
      | error e =>
          have hrepeats : ¬ (s.isParam = true → s ∉ done) := by
            intro hfresh
            rw [push_eq_ok_iff.mpr ⟨rfl, hfresh⟩] at hp
            cases hp
          simp [bind, Except.bind, hp, hrepeats]
      | ok next =>
          obtain ⟨rfl, hfresh⟩ := push_eq_ok_iff.mp hp
          simpa [bind, Except.bind, hp] using fun _ => hfresh

/-- Reading keeps what a pattern that has been read satisfies. -/
theorem isRead_of_readSegments {done segs : List Segment} {parts : List String}
    (hparts : ∀ part ∈ parts, IsSegment part) (hdone : IsRead ⟨done⟩)
    (h : readSegments done parts = .ok segs) : IsRead ⟨segs⟩ := by
  induction parts generalizing done with
  | nil =>
      obtain rfl := Except.ok.inj h
      exact hdone
  | cons part parts ih =>
      obtain ⟨hpart, hparts⟩ := List.forall_mem_cons.mp hparts
      obtain ⟨s, hs, hfresh, hrest⟩ := readSegments_cons_eq_ok_iff.mp h
      refine ih hparts ⟨fun x hx => ?_, ?_⟩ hrest
      · rcases List.mem_append.mp hx with hx | hx
        · exact hdone.segments x hx
        · rw [List.mem_singleton.mp hx]
          exact Segment.isRead_of_read hpart hs
      · exact nodup_filter_isParam_append.mpr ⟨hdone.distinct, hfresh⟩

theorem exists_of_parse {text : String} {p : Pattern} (h : parse text = .ok p) :
    ∃ cs, text.toList = '/' :: cs := by
  unfold parse at h
  split at h
  · rename_i hslash
    exact List.head?_eq_some_iff.mp hslash
  · cases h

theorem isRead_of_parse {text : String} {p : Pattern} (h : parse text = .ok p) : p.IsRead := by
  unfold parse at h
  split at h
  · cases hsegs : readSegments [] (Text.segments text) with
    | error e =>
        rw [hsegs] at h
        cases h
    | ok segs =>
        rw [hsegs] at h
        obtain rfl := Except.ok.inj h
        have hparts : ∀ part ∈ Text.segments text, IsSegment part :=
          fun part hpart => isSegment_of_mem_segments hpart
        exact isRead_of_readSegments hparts ⟨by simp, by simp⟩ hsegs
  · cases h

theorem readSegments_spelling {done segs : List Segment} (h : IsRead ⟨done ++ segs⟩) :
    readSegments done (segs.map Segment.spelling) = .ok (done ++ segs) := by
  induction segs generalizing done with
  | nil => rw [List.append_nil]; rfl
  | cons s segs ih =>
      have hassoc : done ++ s :: segs = (done ++ [s]) ++ segs := by simp
      rw [hassoc] at h
      have hs : s.IsRead := h.segments s (by simp)
      have hprefix : ((done ++ [s]).filter Segment.isParam).Nodup := by
        have hall := h.distinct
        rw [List.filter_append] at hall
        exact (List.nodup_append'.mp hall).1
      rw [List.map_cons, readSegments_cons_eq_ok_iff, hassoc]
      exact ⟨s, hs.read_spelling, (nodup_filter_isParam_append.mp hprefix).2, ih h⟩

theorem render_eq (p : Pattern) : p.render = rooted (p.segments.map Segment.spelling) := by
  have hmap : p.segments.map Segment.render =
      (p.segments.map Segment.spelling).map ("/" ++ ·) := by
    rw [List.map_map]
    exact List.map_congr_left fun s _ => s.render_eq
  unfold render
  cases hp : p.segments with
  | nil => rfl
  | cons s segs =>
      rw [← hp, hmap, hp]
      rfl

theorem IsRead.segments_render {p : Pattern} (h : p.IsRead) :
    Text.segments p.render = p.segments.map Segment.spelling := by
  rw [render_eq]
  refine segments_rooted fun part hpart => ?_
  obtain ⟨s, hs, rfl⟩ := List.mem_map.mp hpart
  exact (h.segments s hs).isSegment_spelling

/-- The normal form of a pattern reads as the pattern. -/
theorem IsRead.parse_render {p : Pattern} (h : p.IsRead) : parse p.render = .ok p := by
  have hhead : p.render.toList.head? = some '/' := by
    rw [render_eq]
    cases p.segments.map Segment.spelling with
    | nil => rfl
    | cons part parts =>
        rw [rooted_of_ne_nil (List.cons_ne_nil part parts), slashed_cons]
        simp
  have hread : readSegments [] (p.segments.map Segment.spelling) = .ok p.segments :=
    readSegments_spelling h
  rw [parse, if_pos hhead, h.segments_render, hread]
  rfl

theorem IsRead.eq_of_render {p q : Pattern} (hp : p.IsRead) (hq : q.IsRead)
    (h : p.render = q.render) : p = q := by
  have hparse := hp.parse_render
  rw [h, hq.parse_render] at hparse
  exact (Except.ok.inj hparse).symm

/-- Patterns that overlap accept a common path. -/
theorem IsRead.exists_accepts {p q : Pattern} (hp : p.IsRead) (hq : q.IsRead)
    (h : p.overlaps q = true) :
    ∃ parts : List String, (∀ s ∈ parts, IsSegment s) ∧
      p.accepts parts = true ∧ q.accepts parts = true := by
  have hps := hp.segments
  have hqs := hq.segments
  simp only [accepts_iff]
  rw [overlaps_iff] at h
  generalize p.segments = ss at h hps
  generalize q.segments = ts at h hqs
  induction h with
  | nil => exact ⟨[], by simp, .nil, .nil⟩
  | cons hab _ ih =>
      obtain ⟨ha, hps⟩ := List.forall_mem_cons.mp hps
      obtain ⟨hb, hqs⟩ := List.forall_mem_cons.mp hqs
      obtain ⟨value, hvalue, hav, hbv⟩ := ha.exists_accepts hb hab
      obtain ⟨parts, hparts, hp, hq⟩ := ih hps hqs
      exact ⟨value :: parts, List.forall_mem_cons.mpr ⟨hvalue, hparts⟩, .cons hav hp, .cons hbv hq⟩

/-- The path of a request that two patterns which have been read both accept, if they overlap. -/
theorem IsRead.exists_path_accepts {p q : Pattern} (hp : p.IsRead) (hq : q.IsRead)
    (h : p.overlaps q = true) :
    ∃ path : String, p.accepts (Text.segments path) = true ∧
      q.accepts (Text.segments path) = true := by
  obtain ⟨parts, hparts, hpa, hqa⟩ := hp.exists_accepts hq h
  refine ⟨rooted parts, ?_⟩
  rw [segments_rooted hparts]
  exact ⟨hpa, hqa⟩

/-- Two patterns overlap just if some segments fit both, and then those of some path do. Which of the
two comes first makes no difference, and every pattern overlaps itself. -/
theorem overlaps_iff_common_segments {text text' : String} {p q : Pattern}
    (hp : parse text = .ok p) (hq : parse text' = .ok q) :
    (p.overlaps q = true ↔ ∃ parts : List String, (∀ s ∈ parts, s ≠ "") ∧
      p.accepts parts = true ∧ q.accepts parts = true) ∧
    (p.overlaps q = true ↔ ∃ path : String, p.accepts (Text.segments path) = true ∧
      q.accepts (Text.segments path) = true) ∧
    p.overlaps q = q.overlaps p ∧ p.overlaps p = true := by
  have hpath : p.overlaps q = true → ∃ path : String, p.accepts (Text.segments path) = true ∧
      q.accepts (Text.segments path) = true :=
    (isRead_of_parse hp).exists_path_accepts (isRead_of_parse hq)
  refine ⟨⟨fun h => ?_, ?_⟩, ⟨hpath, ?_⟩, overlaps_comm p q, overlaps_self p⟩
  · obtain ⟨path, hpa, hqa⟩ := hpath h
    exact ⟨Text.segments path, fun s hs => (isSegment_of_mem_segments hs).ne_empty, hpa, hqa⟩
  · rintro ⟨parts, -, hpa, hqa⟩
    exact overlaps_of_accepts hpa hqa
  · rintro ⟨path, hpa, hqa⟩
    exact overlaps_of_accepts hpa hqa

/-- A parameter in one pattern stands over a literal in the other, twice the other way round. -/
theorem overlaps_userFiles :
    parse "/users/:id/files" = .ok ⟨[.literal "users", .param "id", .literal "files"]⟩ ∧
    parse "/\x7bkind\x7d/me/:name" = .ok ⟨[.param "kind", .literal "me", .param "name"]⟩ ∧
    Pattern.overlaps ⟨[.literal "users", .param "id", .literal "files"]⟩
      ⟨[.param "kind", .literal "me", .param "name"]⟩ = true ∧
    ∃ path : String, Pattern.accepts ⟨[.literal "users", .param "id", .literal "files"]⟩
        (Text.segments path) = true ∧
      Pattern.accepts ⟨[.param "kind", .literal "me", .param "name"]⟩
        (Text.segments path) = true := by
  have hfiles : parse "/users/:id/files" =
      .ok ⟨[.literal "users", .param "id", .literal "files"]⟩ := by rfl
  have hmine : parse "/\x7bkind\x7d/me/:name" =
      .ok ⟨[.param "kind", .literal "me", .param "name"]⟩ := by rfl
  obtain ⟨hparts, hpath, -, -⟩ := overlaps_iff_common_segments hfiles hmine
  have hoverlaps := hparts.mpr ⟨["users", "me", "files"], by decide, by decide, by decide⟩
  exact ⟨hfiles, hmine, hoverlaps, hpath.mp hoverlaps⟩

end Pattern

end AppServer.Routing
