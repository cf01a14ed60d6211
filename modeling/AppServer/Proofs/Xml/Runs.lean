import AppServer.Proofs.Number.Digits
import AppServer.Proofs.Xml.Edges
import Mathlib.Data.List.Forall2

/-!
# Texts and tags of a protected document

A document is cut into tags, each from its `<` through the next `>`, and the texts between them.
Protecting a document keeps every tag in its place. Of a text it spells each carriage return, and each
other whitespace character that has nothing but whitespace on one side of it, as a reference; so no
whitespace is left at an edge, the text comes back when just these references are read, and a second
time there is nothing to do.
-/

namespace AppServer.Xml

open AppServer.Number

/-! ## Cutting a document -/

/-- `Cuts cs rs`: a document and its texts and tags. A tag without a `>` goes to the end. -/
inductive Cuts : List Char → List Run → Prop
  | text {text : List Char} (htext : '<' ∉ text) : Cuts text [.text text]
  | unclosed {text tag : List Char} (htext : '<' ∉ text) (htag : '>' ∉ tag) :
      Cuts (text ++ '<' :: tag) [.text text, .markup ('<' :: tag), .text []]
  | tag {text tag rest : List Char} {rs : List Run} (htext : '<' ∉ text) (htag : '>' ∉ tag)
      (hrest : Cuts rest rs) :
      Cuts (text ++ '<' :: (tag ++ '>' :: rest))
        (.text text :: .markup ('<' :: (tag ++ ['>'])) :: rs)

theorem runsFrom_false_of_notMem {text : List Char} (h : '<' ∉ text) :
    runsFrom false text = [.text text] := by
  induction text with
  | nil => rfl
  | cons c text ih =>
      rw [List.mem_cons, not_or] at h
      rw [runsFrom, if_neg (Ne.symm h.1), ih h.2]
      rfl

theorem runsFrom_true_of_notMem {tag : List Char} (h : '>' ∉ tag) :
    runsFrom true tag = [.markup tag, .text []] := by
  induction tag with
  | nil => rfl
  | cons c tag ih =>
      rw [List.mem_cons, not_or] at h
      rw [runsFrom, if_neg (Ne.symm h.1), ih h.2]
      rfl

theorem Cuts.runs_eq {cs : List Char} {rs : List Run} (h : Cuts cs rs) : runs cs = rs := by
  induction h with
  | text htext => exact runsFrom_false_of_notMem htext
  | unclosed htext htag =>
      rw [runs, runsFrom_text htext, runsFrom_true_of_notMem htag]
      rfl
  | tag htext htag _ ih =>
      rw [runs, runsFrom_text htext, runsFrom_tag htag, ← ih]
      rfl

theorem exists_cuts (cs : List Char) : ∃ rs, Cuts cs rs := by
  -- what comes after a tag is shorter
  induction hlen : cs.length using Nat.strongRecOn generalizing cs with
  | ind n ih =>
      by_cases hopen : '<' ∈ cs
      · obtain ⟨text, after, rfl, htext⟩ := List.eq_append_cons_of_mem hopen
        by_cases hclose : '>' ∈ after
        · obtain ⟨tag, rest, rfl, htag⟩ := List.eq_append_cons_of_mem hclose
          have hshorter : rest.length < n := by
            rw [← hlen]
            simp only [List.length_append, List.length_cons]
            omega
          obtain ⟨rs, hrest⟩ := ih rest.length hshorter rest rfl
          exact ⟨_, .tag htext htag hrest⟩
        · exact ⟨_, .unclosed htext hclose⟩
      · exact ⟨_, .text hopen⟩

/-- Every document is cut in one way. -/
theorem cuts_iff {cs : List Char} {rs : List Run} : Cuts cs rs ↔ rs = runs cs := by
  constructor
  · intro h
    exact h.runs_eq.symm
  · rintro rfl
    obtain ⟨rs, h⟩ := exists_cuts cs
    rw [h.runs_eq]
    exact h

/-! ## What is spelt -/

/-- A character of a text as it is written. -/
inductive Glyph
  | kept (c : Char)
  /-- A reference stands for the character. -/
  | spelt (c : Char)

namespace Glyph

def char : Glyph → Char
  | kept c => c
  | spelt c => c

def written : Glyph → List Char
  | kept c => [c]
  | spelt c => reference c

def isSpelt : Glyph → Bool
  | kept _ => false
  | spelt _ => true

/-- A character that does not stand at an edge. -/
def inner (c : Char) : Glyph :=
  if c = '\r' then spelt c else kept c

@[simp] theorem char_inner (c : Char) : (inner c).char = c := by
  unfold inner
  split <;> rfl

@[simp] theorem written_inner (c : Char) : (inner c).written = protectInner c := by
  unfold inner protectInner
  split <;> rfl

theorem isSpelt_inner_iff {c : Char} : (inner c).isSpelt = true ↔ c = '\r' := by
  unfold inner
  split
  · rename_i hc
    exact ⟨fun _ => hc, fun _ => rfl⟩
  · rename_i hc
    exact ⟨fun h => absurd h Bool.false_ne_true, fun h => absurd h hc⟩

end Glyph

/-- Just the carriage returns are spelt, and the whitespace with nothing but whitespace before it or
after it. -/
def SpeltAtEdges (glyphs : List Glyph) : Prop :=
  ∀ before g after, glyphs = before ++ g :: after →
    (g.isSpelt = true ↔ g.char = '\r' ∨ isSpace g.char = true ∧
      ((∀ b ∈ before, isSpace b.char = true) ∨ ∀ a ∈ after, isSpace a.char = true))

/-- Two parts put together are divided within the first or within the second. -/
theorem append_eq_append_cons_iff {α : Type} {xs ys before after : List α} {a : α} :
    xs ++ ys = before ++ a :: after ↔
      (∃ more, xs = before ++ a :: more ∧ after = more ++ ys) ∨
        ∃ less, before = xs ++ less ∧ ys = less ++ a :: after := by
  rw [List.append_eq_append_iff]
  constructor
  · rintro (⟨less, rfl, rfl⟩ | ⟨more, rfl, hmore⟩)
    · exact .inr ⟨less, rfl, rfl⟩
    · cases more with
      | nil => exact .inr ⟨[], by simp, hmore.symm⟩
      | cons b more =>
          obtain ⟨rfl, rfl⟩ := List.cons.inj hmore
          exact .inl ⟨more, rfl, rfl⟩
  · rintro (⟨more, rfl, rfl⟩ | ⟨less, rfl, rfl⟩)
    · exact .inr ⟨a :: more, rfl, rfl⟩
    · exact .inl ⟨less, rfl, rfl⟩

namespace Edges

variable {cs lead xs ys trail : List Char} {c : Char}

/-- Whitespace between the edges has a character before it that is no whitespace. -/
theorem exists_before (h : Edges cs lead (xs ++ c :: ys) trail) (hc : isSpace c = true) :
    ∃ x ∈ xs, isSpace x = false := by
  cases xs with
  | nil =>
      have hfirst := h.first c rfl
      rw [hc] at hfirst
      cases hfirst
  | cons x xs => exact ⟨x, List.mem_cons_self, h.first x rfl⟩

/-- Whitespace between the edges has a character after it that is no whitespace. -/
theorem exists_after (h : Edges cs lead (xs ++ c :: ys) trail) (hc : isSpace c = true) :
    ∃ y ∈ ys, isSpace y = false := by
  rcases List.eq_nil_or_concat' ys with rfl | ⟨ys, y, rfl⟩
  · have hlast := h.last c List.getLast?_concat
    rw [hc] at hlast
    cases hlast
  · refine ⟨y, by simp, h.last y ?_⟩
    rw [← List.cons_append, ← List.append_assoc]
    exact List.getLast?_concat

end Edges

theorem speltAtEdges_edges {cs lead inner trail : List Char} (h : Edges cs lead inner trail) :
    SpeltAtEdges (lead.map .spelt ++ (inner.map .inner ++ trail.map .spelt)) := by
  have hspelt : ∀ {ws : List Char} {g : Glyph} {before after : List Glyph},
      ws.map Glyph.spelt = before ++ g :: after → (∀ c ∈ ws, isSpace c = true) →
        g.isSpelt = true ∧ isSpace g.char = true ∧ (∀ b ∈ before, isSpace b.char = true) ∧
          ∀ a ∈ after, isSpace a.char = true := by
    intro ws g before after heq hws
    have hall : ∀ x ∈ before ++ g :: after, x.isSpelt = true ∧ isSpace x.char = true := by
      rw [← heq]
      intro x hx
      obtain ⟨c, hc, rfl⟩ := List.mem_map.mp hx
      exact ⟨rfl, hws c hc⟩
    have hg := hall g (by simp)
    exact ⟨hg.1, hg.2, fun b hb => (hall b (by simp [hb])).2, fun a ha => (hall a (by simp [ha])).2⟩
  intro before g after heq
  rcases append_eq_append_cons_iff.mp heq with ⟨more, hlead, rfl⟩ | ⟨less, rfl, hrest⟩
  · -- in front
    obtain ⟨hg, hspace, hbefore, -⟩ := hspelt hlead h.lead
    exact ⟨fun _ => .inr ⟨hspace, .inl hbefore⟩, fun _ => hg⟩
  · rcases append_eq_append_cons_iff.mp hrest with ⟨more, hinner, rfl⟩ | ⟨less, rfl, htrail⟩
    · -- in the middle, where the first and the last character are no whitespace
      obtain ⟨xs, ys, rfl, rfl, hys⟩ := List.map_eq_append_iff.mp hinner
      obtain ⟨c, zs, rfl, rfl, rfl⟩ := List.map_eq_cons_iff.mp hys
      rw [Glyph.isSpelt_inner_iff, Glyph.char_inner]
      refine ⟨.inl, ?_⟩
      rintro (hreturn | ⟨hspace, hbefore | hafter⟩)
      · exact hreturn
      · obtain ⟨x, hx, hnot⟩ := h.exists_before hspace
        have hspace := hbefore (.inner x) (by simp [List.mem_map_of_mem hx])
        rw [Glyph.char_inner, hnot] at hspace
        cases hspace
      · obtain ⟨y, hy, hnot⟩ := h.exists_after hspace
        have hspace := hafter (.inner y) (by simp [List.mem_map_of_mem hy])
        rw [Glyph.char_inner, hnot] at hspace
        cases hspace
    · -- behind
      obtain ⟨hg, hspace, -, hafter⟩ := hspelt htrail h.trail
      exact ⟨fun _ => .inr ⟨hspace, .inr hafter⟩, fun _ => hg⟩

/-! ## A text that is protected -/

theorem return_notMem_reference (c : Char) : '\r' ∉ reference c := by
  intro h
  simp only [reference, List.mem_cons, List.mem_append, List.not_mem_nil, or_false] at h
  rcases h with h | h | h | h
  · cases h
  · cases h
  · exact absurd (isDigit_of_mem_digitsOf h) (by decide)
  · cases h

/-- Where each carriage return is spelt, none is written. -/
theorem SpeltAtEdges.return_notMem {glyphs : List Glyph} (h : SpeltAtEdges glyphs) :
    '\r' ∉ glyphs.flatMap Glyph.written := by
  intro hmem
  obtain ⟨g, hg, hmem⟩ := List.mem_flatMap.mp hmem
  obtain ⟨before, after, hsplit⟩ := List.append_of_mem hg
  cases g with
  | kept c =>
      have hspelt := (h before _ after hsplit).mpr (.inl (List.mem_singleton.mp hmem).symm)
      cases hspelt
  | spelt c => exact return_notMem_reference c hmem

theorem exists_glyphs (cs : List Char) :
    ∃ glyphs : List Glyph, glyphs.map Glyph.char = cs ∧
      glyphs.flatMap Glyph.written = protectText cs ∧ SpeltAtEdges glyphs := by
  obtain ⟨lead, inner, trail, hedges, hprotect⟩ := exists_edges cs
  have hchar (ws : List Char) : (ws.map Glyph.spelt).map Glyph.char = ws := by
    rw [List.map_map]
    exact List.map_id ws
  have hwritten (ws : List Char) :
      (ws.map Glyph.spelt).flatMap Glyph.written = ws.flatMap reference := by
    rw [List.flatMap_map]
    rfl
  have hinner : (inner.map Glyph.inner).map Glyph.char = inner := by
    rw [List.map_map]
    exact List.map_id'' Glyph.char_inner inner
  refine ⟨lead.map .spelt ++ (inner.map .inner ++ trail.map .spelt), ?_, ?_,
    speltAtEdges_edges hedges⟩
  · rw [List.map_append, List.map_append, hchar, hchar, hinner, hedges.append]
  · rw [List.flatMap_append, List.flatMap_append, hwritten, hwritten, hprotect, List.flatMap_map]
    simp

/-- What becomes of a text or a tag. The text before and after is given by one list of characters. -/
inductive Protected : Run → Run → Prop
  | markup (cs : List Char) : Protected (.markup cs) (.markup cs)
  | text {glyphs : List Glyph} (spelt : SpeltAtEdges glyphs)
      (first : ∀ c ∈ (glyphs.flatMap Glyph.written).head?, isSpace c = false)
      (last : ∀ c ∈ (glyphs.flatMap Glyph.written).getLast?, isSpace c = false)
      (noReturn : '\r' ∉ glyphs.flatMap Glyph.written) :
      Protected (.text (glyphs.map Glyph.char)) (.text (glyphs.flatMap Glyph.written))

/-- A run with its text protected. -/
def Run.guarded : Run → Run
  | .markup cs => .markup cs
  | .text cs => .text (protectText cs)

theorem protected_guarded (r : Run) : Protected r r.guarded := by
  cases r with
  | markup cs => exact .markup cs
  | text cs =>
      obtain ⟨glyphs, hchars, hwritten, hspelt⟩ := exists_glyphs cs
      have hprotected := Protected.text hspelt (fun c hc => head?_protectText (hwritten ▸ hc))
        (fun c hc => getLast?_protectText (hwritten ▸ hc)) hspelt.return_notMem
      rw [hchars, hwritten] at hprotected
      exact hprotected

/-! ## A second time -/

/-- A text without whitespace at its edges and without carriage returns is left as it is. -/
theorem protectText_eq_self {cs : List Char} (hfirst : ∀ c, cs.head? = some c → isSpace c = false)
    (hlast : ∀ c, cs.getLast? = some c → isSpace c = false) (hreturn : '\r' ∉ cs) :
    protectText cs = cs := by
  obtain ⟨lead, inner, trail, hedges, hprotect⟩ := exists_edges cs
  have hlead : lead = [] := by
    cases lead with
    | nil => rfl
    | cons w ws =>
        have hw : cs.head? = some w := by
          rw [← hedges.append]
          rfl
        have hspace := hedges.lead w List.mem_cons_self
        rw [hfirst w hw] at hspace
        cases hspace
  have htrail : trail = [] := by
    rcases List.eq_nil_or_concat' trail with htrail | ⟨ws, w, rfl⟩
    · exact htrail
    · have hw : cs.getLast? = some w := by
        rw [← hedges.append, ← List.append_assoc, ← List.append_assoc]
        exact List.getLast?_concat
      have hspace := hedges.trail w (by simp)
      rw [hlast w hw] at hspace
      cases hspace
  have hcs : inner = cs := by
    rw [← hedges.append, hlead, htrail, List.append_nil, List.nil_append]
  have hinner : inner.flatMap protectInner = inner := by
    refine (List.flatMap_congr fun c hc => ?_).trans (List.flatMap_singleton' inner)
    rw [hcs] at hc
    refine if_neg ?_
    rintro rfl
    exact hreturn hc
  rw [hprotect, hinner, hlead, htrail, hcs]
  exact List.append_nil cs

theorem return_notMem_protectText (cs : List Char) : '\r' ∉ protectText cs := by
  obtain ⟨glyphs, -, hwritten, hspelt⟩ := exists_glyphs cs
  rw [← hwritten]
  exact hspelt.return_notMem

theorem protectText_protectText (cs : List Char) :
    protectText (protectText cs) = protectText cs :=
  protectText_eq_self (fun _ => head?_protectText) (fun _ => getLast?_protectText)
    (return_notMem_protectText cs)

@[simp] theorem protect_guarded (r : Run) : r.guarded.protect = r.protect := by
  cases r with
  | markup cs => rfl
  | text cs => exact protectText_protectText cs

/-! ## Run by run -/

theorem protectEdges_of_notMem {text : List Char} (h : '<' ∉ text) :
    protectEdges text = protectText text := by
  rw [protectEdges, runs, runsFrom_false_of_notMem h]
  exact List.append_nil _

theorem protectEdges_unclosed {text tag : List Char} (htext : '<' ∉ text) (htag : '>' ∉ tag) :
    protectEdges (text ++ '<' :: tag) = protectText text ++ '<' :: tag := by
  rw [protectEdges, runs, runsFrom_text htext, runsFrom_true_of_notMem htag]
  simp [consRun, Run.protect]

/-- A protected document is cut where the document is. -/
theorem Cuts.guarded {cs : List Char} {rs : List Run} (h : Cuts cs rs) :
    Cuts (protectEdges cs) (rs.map Run.guarded) := by
  induction h with
  | text htext =>
      rw [protectEdges_of_notMem htext]
      exact .text (lt_notMem_protectText htext)
  | unclosed htext htag =>
      rw [protectEdges_unclosed htext htag]
      exact .unclosed (lt_notMem_protectText htext) htag
  | tag htext htag _ ih =>
      rw [protectEdges_tag htext htag]
      exact .tag (lt_notMem_protectText htext) htag ih

theorem protectEdges_protectEdges (cs : List Char) :
    protectEdges (protectEdges cs) = protectEdges cs := by
  obtain ⟨rs, hcuts⟩ := exists_cuts cs
  rw [protectEdges, hcuts.guarded.runs_eq, List.flatMap_map, protectEdges, hcuts.runs_eq]
  simp only [protect_guarded]

/-- A document and what it is protected to are cut alike: every tag is in its place, and every text
has become one without whitespace to lose that stands for it. Protecting again changes nothing. -/
theorem protectEdges_guards_texts (cs : List Char) :
    ∃ rs rs', (∀ other, Cuts cs other ↔ other = rs) ∧
      (∀ other, Cuts (protectEdges cs) other ↔ other = rs') ∧ List.Forall₂ Protected rs rs' ∧
      protectEdges (protectEdges cs) = protectEdges cs := by
  obtain ⟨rs, hcuts⟩ := exists_cuts cs
  have hsame : List.Forall₂ Protected rs (rs.map Run.guarded) := by
    rw [List.forall₂_map_right_iff, List.forall₂_same]
    exact fun r _ => protected_guarded r
  refine ⟨rs, rs.map Run.guarded, fun other => ?_, fun other => ?_, hsame,
    protectEdges_protectEdges cs⟩
  · rw [cuts_iff, hcuts.runs_eq]
  · rw [cuts_iff, hcuts.guarded.runs_eq]

example : protectEdges "a> <b\r> \r x\r y\t<c ".toList =
    "a>&#32;<b\r>&#32;&#13;&#32;x&#13; y&#9;<c ".toList := by
  decide

end AppServer.Xml
