import AppServer.Proofs.Routing.Grammar
import AppServer.Proofs.Text.Pieces

/-!
# The spellings of a pattern

A pattern can be spelt in many ways: each parameter with a colon or in braces, and with empty segments
anywhere behind the first slash. What is read as a pattern is what spells one, and a text spells at
most one. The normal form is a spelling too, so it is read as the pattern that it was made from; it
does not end in a slash and has no two of them in a row, unless it is the root.
-/

namespace AppServer.Routing

open AppServer.Text

/-- The name of a parameter. -/
structure IsName (name : String) : Prop where
  ne_empty : name ≠ ""
  noMarker : ∀ c ∈ name.toList, c ≠ '\x7b' ∧ c ≠ '\x7d' ∧ c ≠ ':'

namespace Segment

/-- A segment and a text that stands for it between two slashes. -/
inductive SpeltAs : Segment → String → Prop
  | literal {text : String} (ne_empty : text ≠ "") (noColon : text.toList.head? ≠ some ':')
      (noBrace : ∀ c ∈ text.toList, c ≠ '\x7b' ∧ c ≠ '\x7d') : SpeltAs (.literal text) text
  | colon {name : String} (h : IsName name) : SpeltAs (.param name) (":" ++ name)
  | braces {name : String} (h : IsName name) : SpeltAs (.param name) ("\x7b" ++ name ++ "\x7d")

variable {s : Segment} {part : String} {cs : List Char}

/-! ## Reading one segment -/

theorem ofName_toList_eq_ok_iff {name : String} :
    ofName name.toList = .ok s ↔ s = .param name ∧ IsName name := by
  have hne : name.toList ≠ [] ↔ name ≠ "" := by
    rw [ne_eq, ne_eq, ← String.toList_inj]
    rfl
  have hmarker : name.toList.any isMarker = false ↔
      ∀ c ∈ name.toList, c ≠ '\x7b' ∧ c ≠ '\x7d' ∧ c ≠ ':' := by
    simp [isMarker, and_assoc]
  rw [ofName_eq_ok_iff, String.ofList_toList, hne, hmarker]
  exact and_congr_right fun _ => ⟨fun h => ⟨h.1, h.2⟩, fun h => ⟨h.ne_empty, h.noMarker⟩⟩

theorem read_colon (name : String) : read (":" ++ name).toList = ofName name.toList := by
  rw [String.toList_append]
  rfl

theorem read_braces (name : String) :
    read ("\x7b" ++ name ++ "\x7d").toList = ofName name.toList := by
  have hchars : ("\x7b" ++ name ++ "\x7d").toList = '\x7b' :: (name.toList ++ ['\x7d']) := by
    simp
  rw [hchars]
  show (if (name.toList ++ ['\x7d']).getLast? = some '\x7d' then
    ofName (name.toList ++ ['\x7d']).dropLast else _) = _
  rw [if_pos List.getLast?_concat, List.dropLast_concat]

theorem SpeltAs.read_eq (h : s.SpeltAs part) : read part.toList = .ok s := by
  cases h with
  | literal ne_empty noColon noBrace =>
      have hbraces : part.toList.any isBrace = false := by
        simpa [isBrace] using noBrace
      rw [read_of_literal noColon hbraces, String.ofList_toList]
  | @colon name h => rw [read_colon, ofName_toList_eq_ok_iff.mpr ⟨rfl, h⟩]
  | @braces name h => rw [read_braces, ofName_toList_eq_ok_iff.mpr ⟨rfl, h⟩]

/-- A text that is not empty is read as what it spells. -/
theorem read_eq_ok_iff (hne : part ≠ "") : read part.toList = .ok s ↔ s.SpeltAs part := by
  refine ⟨fun h => ?_, SpeltAs.read_eq⟩
  unfold read at h
  split at h
  · rename_i name hshape
    rw [← String.toList_ofList (l := name)] at h hshape
    obtain ⟨rfl, hname⟩ := ofName_toList_eq_ok_iff.mp h
    have hpart : part = ":" ++ String.ofList name := by
      rw [← String.toList_inj, String.toList_append]
      exact hshape
    rw [hpart]
    exact .colon hname
  · rename_i rest hshape
    split at h
    · rename_i hlast
      obtain ⟨front, rfl⟩ := List.getLast?_eq_some_iff.mp hlast
      rw [List.dropLast_concat, ← String.toList_ofList (l := front)] at h
      obtain ⟨rfl, hname⟩ := ofName_toList_eq_ok_iff.mp h
      have hpart : part = "\x7b" ++ String.ofList front ++ "\x7d" := by
        rw [← String.toList_inj, hshape]
        simp
      rw [hpart]
      exact .braces hname
    · cases h
  · rename_i hcolon _
    split at h
    · cases h
    · rename_i hbraces
      obtain rfl := Except.ok.inj h
      rw [String.ofList_toList]
      refine .literal hne ?_ (by simpa using hbraces)
      intro hhead
      obtain ⟨tail, htail⟩ := List.head?_eq_some_iff.mp hhead
      exact hcolon tail htail

/-- Texts that are read as the same segment, or refused for the same reason. -/
def ReadAlike (part part' : String) : Prop :=
  read part.toList = read part'.toList

theorem readAlike_refl (parts : List String) : List.Forall₂ ReadAlike parts parts :=
  List.forall₂_same.mpr fun _ _ => rfl

end Segment

namespace Pattern

/-- A pattern and a text of it: the text begins with a slash, its segments spell those of the pattern,
and no two parameters have one name. -/
structure SpeltAs (p : Pattern) (text : String) : Prop where
  slash : text.toList.head? = some '/'
  segments : List.Forall₂ Segment.SpeltAs p.segments (Text.segments text)
  distinct : (p.segments.filter Segment.isParam).Nodup

variable {p q : Pattern} {text text' : String} {done more segs : List Segment}
  {parts parts' : List String}

/-! ## Reading a text -/

theorem forall₂_of_readSegments (hparts : ∀ part ∈ parts, IsSegment part)
    (h : readSegments done parts = .ok segs) :
    ∃ more, segs = done ++ more ∧ List.Forall₂ Segment.SpeltAs more parts := by
  induction parts generalizing done with
  | nil =>
      cases h
      exact ⟨[], (List.append_nil _).symm, .nil⟩
  | cons part parts ih =>
      obtain ⟨hpart, hparts⟩ := List.forall_mem_cons.mp hparts
      obtain ⟨s, hs, -, hrest⟩ := readSegments_cons_eq_ok_iff.mp h
      obtain ⟨more, rfl, hmore⟩ := ih hparts hrest
      refine ⟨s :: more, ?_, .cons ((Segment.read_eq_ok_iff hpart.ne_empty).mp hs) hmore⟩
      rw [List.append_assoc, List.singleton_append]

/-- Segments are read one after the other as long as no parameter is repeated. -/
theorem readSegments_of_forall₂ (hparts : List.Forall₂ Segment.SpeltAs more parts)
    (hdistinct : ((done ++ more).filter Segment.isParam).Nodup) :
    readSegments done parts = .ok (done ++ more) := by
  induction hparts generalizing done with
  | nil =>
      rw [List.append_nil]
      rfl
  | @cons s part more parts hs _ ih =>
      rw [List.append_cons] at hdistinct ⊢
      have hfront : ((done ++ [s]).filter Segment.isParam).Nodup := by
        rw [List.filter_append] at hdistinct
        exact (List.nodup_append'.mp hdistinct).1
      rw [readSegments_cons_eq_ok_iff]
      exact ⟨s, hs.read_eq, (nodup_filter_isParam_append.mp hfront).2, ih hdistinct⟩

theorem parse_eq_ok_iff : parse text = .ok p ↔
    text.toList.head? = some '/' ∧ readSegments [] (Text.segments text) = .ok p.segments := by
  unfold parse
  split
  · rename_i hslash
    cases readSegments [] (Text.segments text) with
    | error e => simp [Except.map, hslash]
    | ok segs =>
        rw [Except.ok.injEq]
        show Except.ok (Pattern.mk segs) = .ok p ↔ _
        rw [Except.ok.injEq]
        constructor
        · rintro rfl
          exact ⟨hslash, rfl⟩
        · rintro ⟨-, rfl⟩
          rfl
  · rename_i hslash
    exact iff_of_false (by rintro ⟨⟩) fun h => hslash h.1

/-- What is read as a pattern is what spells it. -/
theorem parse_eq_ok_iff_speltAs : parse text = .ok p ↔ p.SpeltAs text := by
  constructor
  · intro h
    obtain ⟨hslash, hread⟩ := parse_eq_ok_iff.mp h
    obtain ⟨more, hmore, hparts⟩ :=
      forall₂_of_readSegments (fun _ hpart => isSegment_of_mem_segments hpart) hread
    rw [List.nil_append] at hmore
    rw [← hmore] at hparts
    exact ⟨hslash, hparts, (isRead_of_parse h).distinct⟩
  · intro h
    exact parse_eq_ok_iff.mpr ⟨h.slash, readSegments_of_forall₂ h.segments h.distinct⟩

/-! ## Texts that are read alike -/

theorem readSegments_congr (h : List.Forall₂ Segment.ReadAlike parts parts') :
    readSegments done parts = readSegments done parts' := by
  induction h generalizing done with
  | nil => rfl
  | @cons part part' parts parts' hread _ ih =>
      have hfirst : Segment.read part.toList = Segment.read part'.toList := hread
      rw [readSegments, readSegments, hfirst]
      congr 1
      funext s
      congr 1
      funext next
      exact ih

/-- Behind a slash it only matters how the segments are read. -/
theorem parse_slash_congr (before : String)
    (h : List.Forall₂ Segment.ReadAlike (Text.segments text) (Text.segments text')) :
    parse (before ++ "/" ++ text) = parse (before ++ "/" ++ text') := by
  have hhead : (before ++ "/" ++ text).toList.head? = (before ++ "/" ++ text').toList.head? := by
    simp only [String.toList_append, List.append_assoc]
    cases before.toList <;> rfl
  have hsegments : readSegments [] (Text.segments (before ++ "/" ++ text)) =
      readSegments [] (Text.segments (before ++ "/" ++ text')) := by
    rw [segments_append_slash, segments_append_slash]
    exact readSegments_congr (List.rel_append (Segment.readAlike_refl _) h)
  rw [parse, parse, hhead, hsegments]

theorem parse_slashes (before after : String) :
    parse (before ++ "//" ++ after) = parse (before ++ "/" ++ after) := by
  have hslashes : before ++ "//" ++ after = before ++ "/" ++ ("/" ++ after) := by
    rw [← String.toList_inj]
    simp
  rw [hslashes]
  apply parse_slash_congr
  rw [segments_slash_append]
  exact Segment.readAlike_refl _

theorem parse_append_slash (h : text.toList.head? = some '/') :
    parse (text ++ "/") = parse text := by
  have hhead : (text ++ "/").toList.head? = text.toList.head? := by
    rw [String.toList_append, List.head?_append, h]
    rfl
  have hsegments : Text.segments (text ++ "/") = Text.segments text := by
    have happend := segments_append_slash text ""
    rwa [String.append_empty, segments_empty, List.append_nil] at happend
  rw [parse, parse, hhead, hsegments]

/-- It makes no difference how a parameter is marked. -/
theorem parse_braces (before name after : String) (hname : '/' ∉ name.toList)
    (hafter : after = "" ∨ after.toList.head? = some '/') :
    parse (before ++ "/\x7b" ++ name ++ "\x7d" ++ after) =
      parse (before ++ "/:" ++ name ++ after) := by
  have hbraces : IsSegment ("\x7b" ++ name ++ "\x7d") := by
    refine ⟨fun h => ?_, by simp [hname]⟩
    simpa using congrArg String.toList h
  have hcolon : IsSegment (":" ++ name) := by
    refine ⟨fun h => ?_, by simp [hname]⟩
    simpa using congrArg String.toList h
  have hbracedText : before ++ "/\x7b" ++ name ++ "\x7d" ++ after =
      before ++ "/" ++ (("\x7b" ++ name ++ "\x7d") ++ after) := by
    rw [← String.toList_inj]
    simp
  have hcolonText : before ++ "/:" ++ name ++ after =
      before ++ "/" ++ ((":" ++ name) ++ after) := by
    rw [← String.toList_inj]
    simp
  rw [hbracedText, hcolonText]
  apply parse_slash_congr
  rw [hbraces.segments_append hafter, hcolon.segments_append hafter]
  apply List.Forall₂.cons
  · exact (Segment.read_braces name).trans (Segment.read_colon name).symm
  · exact Segment.readAlike_refl _

/-! ## The normal form -/

/-- Slashes stand before the segments of a normal form, and nowhere else. -/
theorem IsRead.render_slashes (h : p.IsRead) (hroot : p.render ≠ "/") :
    p.render.toList.getLast? ≠ some '/' ∧ ¬ ['/', '/'] <:+: p.render.toList := by
  have hparts : ∀ part ∈ p.segments.map Segment.spelling, IsSegment part := by
    intro part hpart
    obtain ⟨s, hs, rfl⟩ := List.mem_map.mp hpart
    exact (h.segments s hs).isSegment_spelling
  rw [render_eq] at hroot ⊢
  generalize p.segments.map Segment.spelling = parts at hparts hroot ⊢
  have hne : parts ≠ [] := by
    rintro rfl
    exact hroot rfl
  rw [rooted_of_ne_nil hne]
  have hempty : "" ∉ (pieces (slashed parts)).tail := by
    rw [pieces_slashed hparts, List.tail_cons]
    exact fun hmem => (hparts "" hmem).ne_empty rfl
  exact ⟨getLast?_ne_of_pieces hempty, not_infix_of_pieces hempty⟩

/-- A text is read as a pattern just if it spells it. Then the normal form is read as the same pattern,
has no slash more than it needs, and identifies the pattern. In what way parameters are marked and where
empty segments stand makes no difference. -/
theorem parse_normalizes_spellings :
    (∀ text p, parse text = .ok p ↔ p.SpeltAs text) ∧
    (∀ text p, parse text = .ok p → parse p.render = .ok p ∧ (p.render ≠ "/" →
      p.render.toList.getLast? ≠ some '/' ∧ ¬ ['/', '/'] <:+: p.render.toList)) ∧
    (∀ text text' p p', parse text = .ok p → parse text' = .ok p' →
      (p = p' ↔ p.render = p'.render)) ∧
    (∀ before name after : String, '/' ∉ name.toList →
      after = "" ∨ after.toList.head? = some '/' →
      parse (before ++ "/\x7b" ++ name ++ "\x7d" ++ after) =
        parse (before ++ "/:" ++ name ++ after)) ∧
    (∀ before after, parse (before ++ "//" ++ after) = parse (before ++ "/" ++ after)) ∧
    ∀ text : String, text.toList.head? = some '/' → parse (text ++ "/") = parse text := by
  refine ⟨fun _ _ => parse_eq_ok_iff_speltAs, fun text p h => ?_, fun text text' p p' h h' => ?_,
    parse_braces, parse_slashes, fun _ => parse_append_slash⟩
  · have hread := isRead_of_parse h
    exact ⟨hread.parse_render, hread.render_slashes⟩
  · constructor
    · rintro rfl
      rfl
    · exact (isRead_of_parse h).eq_of_render (isRead_of_parse h')

/-- A literal with a colon in it, a parameter of either kind, and empty segments. -/
def revisionText : String :=
  "/v1:beta/\x7bid\x7d//:rev/"

def revisionPattern : Pattern :=
  ⟨[.literal "v1:beta", .param "id", .param "rev"]⟩

/-- The same with another name. -/
def draftPattern : Pattern :=
  ⟨[.literal "v1:beta", .param "id", .param "draft"]⟩

/-- Its slashes and braces go, one by one, until it is in normal form. -/
theorem parse_revisionText :
    parse revisionText = .ok revisionPattern ∧ revisionPattern.SpeltAs revisionText ∧
    revisionPattern.render = "/v1:beta/:id/:rev" ∧
    parse revisionPattern.render = .ok revisionPattern ∧
    parse "/v1:beta/\x7bid\x7d//:rev" = .ok revisionPattern ∧
    parse "/v1:beta/\x7bid\x7d/:rev" = .ok revisionPattern ∧
    revisionPattern.render ≠ draftPattern.render ∧
    revisionPattern.render.toList.getLast? ≠ some '/' ∧
    ¬ ['/', '/'] <:+: revisionPattern.render.toList := by
  obtain ⟨hspelt, hnormal, hsame, hbraces, hslashes, hend⟩ := parse_normalizes_spellings
  have hrender : revisionPattern.render = "/v1:beta/:id/:rev" := by rfl
  have hparse : parse revisionText = .ok revisionPattern := by rfl
  obtain ⟨hread, hrest⟩ := hnormal _ _ hparse
  obtain ⟨hlast, hdouble⟩ := hrest (by rw [hrender]; decide)
  have hopen : parse "/v1:beta/\x7bid\x7d//:rev" = .ok revisionPattern :=
    (hend "/v1:beta/\x7bid\x7d//:rev" rfl).symm.trans hparse
  have hclosed : parse "/v1:beta/\x7bid\x7d/:rev" = .ok revisionPattern :=
    (hslashes "/v1:beta/\x7bid\x7d" ":rev").symm.trans hopen
  have hmarked : parse "/v1:beta/:id/:rev" = .ok revisionPattern :=
    (hbraces "/v1:beta" "id" "/:rev" (by decide) (.inr rfl)).symm.trans hclosed
  have hrenamed : parse "/v1:beta/:id/:draft" = .ok draftPattern := by rfl
  have hdiffer : revisionPattern.render ≠ draftPattern.render :=
    mt (hsame _ _ _ _ hmarked hrenamed).mpr (by decide)
  exact ⟨hparse, (hspelt _ _).mp hparse, hrender, hread, hopen, hclosed, hdiffer, hlast, hdouble⟩

/-- One name may not be given twice, however it is marked. -/
example : parse "/\x7bid\x7d/:id" = .error .repeatedName := by decide

end Pattern

end AppServer.Routing
