import AppServer.Xml.Text
import AppServer.Xml.Whitespace
import Mathlib.Data.List.Basic
import Mathlib.Data.List.TakeWhile

/-!
# Protected whitespace

A document is protected one tag at a time: the tag stays as it is, and in the text before it some
whitespace characters are replaced by references to them. What is left at the edges of the text is no
whitespace, and a reader that resolves references gets from the new text what it got from the old
one.
-/

namespace AppServer.Xml

open AppServer.Number

theorem isSpace_iff {c : Char} :
    isSpace c = true ↔ c = ' ' ∨ c = '\t' ∨ c = '\n' ∨ c = '\r' := by
  simp [isSpace, or_assoc]

/-! ## Tag by tag -/

theorem runsFrom_text {text : List Char} (h : '<' ∉ text) (rest : List Char) :
    runsFrom false (text ++ '<' :: rest) = .text text :: consRun '<' (runsFrom true rest) := by
  induction text with
  | nil => rfl
  | cons c text ih =>
      rw [List.mem_cons, not_or] at h
      rw [List.cons_append, runsFrom, if_neg (Ne.symm h.1), ih h.2]
      rfl

theorem runsFrom_tag {tag : List Char} (h : '>' ∉ tag) (rest : List Char) :
    runsFrom true (tag ++ '>' :: rest) = .markup (tag ++ ['>']) :: runsFrom false rest := by
  induction tag with
  | nil => rfl
  | cons c tag ih =>
      rw [List.mem_cons, not_or] at h
      rw [List.cons_append, runsFrom, if_neg (Ne.symm h.1), ih h.2]
      rfl

@[simp] theorem protectEdges_nil : protectEdges [] = [] := rfl

/-- The first text of a document is protected, and the tag after it is kept. -/
theorem protectEdges_tag {text tag : List Char} (htext : '<' ∉ text) (htag : '>' ∉ tag)
    (rest : List Char) :
    protectEdges (text ++ '<' :: (tag ++ '>' :: rest)) =
      protectText text ++ '<' :: (tag ++ '>' :: protectEdges rest) := by
  unfold protectEdges runs
  rw [runsFrom_text htext, runsFrom_tag htag, consRun]
  simp [Run.protect]

theorem protectEdges_lt {tag : List Char} (htag : '>' ∉ tag) (rest : List Char) :
    protectEdges ('<' :: (tag ++ '>' :: rest)) = '<' :: (tag ++ '>' :: protectEdges rest) :=
  protectEdges_tag List.not_mem_nil htag rest

/-! ## What becomes of a text -/

/-- `Shields raw shielded`: some whitespace characters are replaced by references to them. -/
inductive Shields : List Char → List Char → Prop
  | nil : Shields [] []
  | keep (c : Char) {raw shielded : List Char} (rest : Shields raw shielded) :
      Shields (c :: raw) (c :: shielded)
  | spell {c : Char} (space : isSpace c = true) {raw shielded : List Char}
      (rest : Shields raw shielded) : Shields (c :: raw) (reference c ++ shielded)

namespace Shields

variable {raw raw' shielded shielded' : List Char}

theorem append (h : Shields raw shielded) (h' : Shields raw' shielded') :
    Shields (raw ++ raw') (shielded ++ shielded') := by
  induction h with
  | nil => exact h'
  | keep c _ ih => exact .keep c ih
  | spell space _ ih =>
      rw [List.append_assoc]
      exact .spell space ih

theorem flatMap_reference {cs : List Char} (h : ∀ c ∈ cs, isSpace c = true) :
    Shields cs (cs.flatMap reference) := by
  induction cs with
  | nil => exact .nil
  | cons c cs ih =>
      obtain ⟨hc, hcs⟩ := List.forall_mem_cons.mp h
      exact .spell hc (ih hcs)

theorem flatMap_protectInner (cs : List Char) : Shields cs (cs.flatMap protectInner) := by
  induction cs with
  | nil => exact .nil
  | cons c cs ih =>
      rw [List.flatMap_cons, protectInner]
      split
      · rename_i hc
        exact .spell (isSpace_iff.mpr (.inr (.inr (.inr hc)))) ih
      · exact .keep c ih

end Shields

/-- A text cut into its edges and what is between them. -/
structure Edges (cs lead inner trail : List Char) : Prop where
  append : lead ++ (inner ++ trail) = cs
  lead : ∀ c ∈ lead, isSpace c = true
  trail : ∀ c ∈ trail, isSpace c = true
  first : ∀ c, inner.head? = some c → isSpace c = false
  last : ∀ c, inner.getLast? = some c → isSpace c = false

theorem head?_dropWhile_isSpace {cs : List Char} {c : Char}
    (h : (cs.dropWhile isSpace).head? = some c) : isSpace c = false := by
  have hnot := List.head?_dropWhile_not isSpace cs
  rw [h] at hnot
  exact hnot

theorem exists_edges (cs : List Char) : ∃ lead inner trail, Edges cs lead inner trail ∧
    protectText cs =
      lead.flatMap reference ++ (inner.flatMap protectInner ++ trail.flatMap reference) := by
  have hinner : ((cs.dropWhile isSpace).reverse.dropWhile isSpace).reverse ++
      ((cs.dropWhile isSpace).reverse.takeWhile isSpace).reverse = cs.dropWhile isSpace := by
    rw [← List.reverse_append, List.takeWhile_append_dropWhile, List.reverse_reverse]
  refine ⟨cs.takeWhile isSpace, ((cs.dropWhile isSpace).reverse.dropWhile isSpace).reverse,
    ((cs.dropWhile isSpace).reverse.takeWhile isSpace).reverse, ⟨?_, ?_, ?_, ?_, ?_⟩, ?_⟩
  · rw [hinner, List.takeWhile_append_dropWhile]
  · intro c hc
    exact List.mem_takeWhile_imp hc
  · intro c hc
    exact List.mem_takeWhile_imp (List.mem_reverse.mp hc)
  · intro c hc
    have hdrop : (cs.dropWhile isSpace).head? = some c := by
      rw [← hinner, List.head?_append, hc]
      rfl
    exact head?_dropWhile_isSpace hdrop
  · intro c hc
    rw [List.getLast?_reverse] at hc
    exact head?_dropWhile_isSpace hc
  · rw [← List.append_assoc]
    rfl

theorem shields_protectText (cs : List Char) : Shields cs (protectText cs) := by
  obtain ⟨lead, inner, trail, hedges, hprotect⟩ := exists_edges cs
  rw [hprotect, ← hedges.append]
  exact (Shields.flatMap_reference hedges.lead).append
    ((Shields.flatMap_protectInner inner).append (Shields.flatMap_reference hedges.trail))

/-- No character is new but those of references. -/
theorem Shields.notMem {raw shielded : List Char} {c : Char} (h : Shields raw shielded)
    (hraw : c ∉ raw) (href : ∀ w, isSpace w = true → c ∉ reference w) : c ∉ shielded := by
  induction h with
  | nil => exact hraw
  | keep d _ ih =>
      rw [List.mem_cons, not_or] at hraw ⊢
      exact ⟨hraw.1, ih hraw.2⟩
  | spell space _ ih =>
      rw [List.mem_cons, not_or] at hraw
      rw [List.mem_append, not_or]
      exact ⟨href _ space, ih hraw.2⟩

theorem lt_notMem_reference {w : Char} (h : isSpace w = true) : '<' ∉ reference w := by
  rcases isSpace_iff.mp h with rfl | rfl | rfl | rfl <;> decide

theorem lt_notMem_protectText {cs : List Char} (h : '<' ∉ cs) : '<' ∉ protectText cs :=
  (shields_protectText cs).notMem h fun _ => lt_notMem_reference

@[simp] theorem protectText_nil : protectText [] = [] := rfl

theorem protectText_eq_nil_iff {cs : List Char} : protectText cs = [] ↔ cs = [] := by
  constructor
  · intro h
    have hshields := h ▸ shields_protectText cs
    generalize hout : ([] : List Char) = out at hshields
    cases hshields with
    | nil => rfl
    | keep => cases hout
    | spell => cases hout
  · rintro rfl
    rfl

/-! ## The edges -/

theorem protectInner_of_not_isSpace {c : Char} (h : isSpace c = false) : protectInner c = [c] := by
  refine if_neg ?_
  rintro rfl
  cases h

theorem getLast?_reference (c : Char) : (reference c).getLast? = some ';' := by
  unfold reference
  rw [← List.cons_append, ← List.cons_append, List.getLast?_append]
  rfl

/-- A protected text does not begin with whitespace. -/
theorem head?_protectText {cs : List Char} {c : Char} (h : (protectText cs).head? = some c) :
    isSpace c = false := by
  obtain ⟨lead, inner, trail, hedges, hprotect⟩ := exists_edges cs
  rw [hprotect] at h
  -- either an edge begins with the `&` of a reference, or there is none on this side
  cases lead with
  | cons w ws =>
      cases h
      rfl
  | nil =>
      cases inner with
      | cons d ds =>
          have hd : isSpace d = false := hedges.first d rfl
          rw [List.flatMap_cons, protectInner_of_not_isSpace hd] at h
          cases h
          exact hd
      | nil =>
          cases trail with
          | cons w ws =>
              cases h
              rfl
          | nil => cases h

/-- A protected text does not end with whitespace. -/
theorem getLast?_protectText {cs : List Char} {c : Char} (h : (protectText cs).getLast? = some c) :
    isSpace c = false := by
  obtain ⟨lead, inner, trail, hedges, hprotect⟩ := exists_edges cs
  have hreference : ∀ (ws : List Char) (w : Char),
      ((ws ++ [w]).flatMap reference).getLast? = some ';' := by
    intro ws w
    rw [List.flatMap_append, List.getLast?_append, List.flatMap_singleton, getLast?_reference]
    rfl
  rw [hprotect, List.getLast?_append, List.getLast?_append] at h
  rcases List.eq_nil_or_concat' trail with rfl | ⟨ws, w, rfl⟩
  · rcases List.eq_nil_or_concat' inner with rfl | ⟨ds, d, rfl⟩
    · rcases List.eq_nil_or_concat' lead with rfl | ⟨ws, w, rfl⟩
      · cases h
      · rw [hreference] at h
        cases h
        rfl
    · have hd : isSpace d = false := hedges.last d (List.getLast?_concat)
      rw [List.flatMap_append, List.getLast?_append, List.flatMap_singleton,
        protectInner_of_not_isSpace hd] at h
      cases h
      exact hd
  · rw [hreference] at h
    cases h
    rfl

/-- Trimming leaves a protected text as it is. -/
theorem trimRun_protectText {cs : List Char} (hne : cs ≠ []) :
    trimRun [.raw (protectText cs)] = [.raw (protectText cs)] := by
  obtain ⟨c, rest, hcs⟩ := List.exists_cons_of_ne_nil (mt protectText_eq_nil_iff.mp hne)
  have hhead : (protectText cs).head? = some c := by
    rw [hcs]
    rfl
  have hc : isSpace c = false := head?_protectText hhead
  have hblank : Piece.isBlank (.raw (protectText cs)) = false := by
    simp [Piece.isBlank, hcs, hc]
  have hstart : (protectText cs).dropWhile isSpace = protectText cs := by
    rw [hcs]
    exact List.dropWhile_cons_of_neg (by simp [hc])
  have hend : (protectText cs).reverse.dropWhile isSpace = (protectText cs).reverse := by
    cases hrev : (protectText cs).reverse with
    | nil => rfl
    | cons d front =>
        have hlast : (protectText cs).getLast? = some d := by
          rw [List.getLast?_eq_head?_reverse, hrev]
          rfl
        exact List.dropWhile_cons_of_neg (by simp [getLast?_protectText hlast])
  rw [trimRun, List.dropWhile_cons_of_neg (by simp [hblank])]
  simp [Piece.trimStart, Piece.trimEnd, hstart, hend]

/-! ## Resolving references -/

theorem resolveFrom_plain {c : Char} (h : c ≠ '&') (done cs : List Char) :
    resolveFrom none done (c :: cs) = resolveFrom none (c :: done) cs := by
  rw [resolveFrom]
  simp only [if_neg h]

theorem resolveFrom_reference {c : Char} (h : isSpace c = true) (done cs : List Char) :
    resolveFrom none done (reference c ++ cs) = resolveFrom none (c :: done) cs := by
  rcases isSpace_iff.mp h with rfl | rfl | rfl | rfl <;> rfl

theorem hexNumber?_eq_none {c : Char} {cs : List Char} (hc : c ∈ cs) (h : hexDigit? c = none) :
    hexNumber? cs = none := by
  have hfold : ∀ n : Nat,
      cs.foldlM (fun n c => (hexDigit? c).map (16 * n + ·)) n = none := by
    induction cs with
    | nil => cases hc
    | cons d cs ih =>
        intro n
        rw [List.foldlM_cons]
        rcases List.mem_cons.mp hc with rfl | hc
        · rw [h]
          rfl
        · cases hexDigit? d with
          | none => rfl
          | some v => exact ih hc _
  cases cs with
  | nil => cases hc
  | cons d cs => exact hfold 0

/-- No reference has whitespace in its name. -/
theorem resolveName?_eq_none {c : Char} {name : List Char} (hc : c ∈ name)
    (h : isSpace c = true) : resolveName? name = none := by
  have hhex : hexDigit? c = none := by
    rcases isSpace_iff.mp h with rfl | rfl | rfl | rfl <;> rfl
  have hdecimal : isDigit c = false := by
    rcases isSpace_iff.mp h with rfl | rfl | rfl | rfl <;> rfl
  have hne : ∀ d, isSpace d = false → c ≠ d := by
    rintro d hd rfl
    rw [h] at hd
    cases hd
  unfold resolveName?
  split
  · rename_i digits
    simp only [List.mem_cons, hne '#' rfl, hne 'x' rfl, false_or] at hc
    rw [hexNumber?_eq_none hc hhex]
    rfl
  · rename_i digits _
    simp only [List.mem_cons, hne '#' rfl, false_or] at hc
    have hall : digits.all isDigit = false := by
      rw [List.all_eq_false]
      exact ⟨c, hc, by simp [hdecimal]⟩
    have hnumber : decimalNumber? digits = none := by
      unfold decimalNumber?
      split
      · rfl
      · rw [hall]
        rfl
    rw [hnumber]
    rfl
  · have hplain : ∀ text : List Char, text.any isSpace = false → name ≠ text := by
      rintro text htext rfl
      exact List.any_eq_false.mp htext c hc h
    rw [if_neg (hplain _ rfl), if_neg (hplain _ rfl), if_neg (hplain _ rfl),
      if_neg (hplain _ rfl), if_neg (hplain _ rfl)]

/-- Once whitespace has been read inside a reference, the text is refused. -/
theorem resolveFrom_eq_none {c : Char} {name : List Char} (hc : c ∈ name) (h : isSpace c = true)
    (done cs : List Char) : resolveFrom (some name) done cs = none := by
  induction cs generalizing name with
  | nil => rfl
  | cons d cs ih =>
      have hname : resolveName? name.reverse = none :=
        resolveName?_eq_none (List.mem_reverse.mpr hc) h
      rw [resolveFrom]
      simp only [hname, ih (List.mem_cons_of_mem d hc)]
      simp

theorem Shields.resolveFrom {raw shielded : List Char} (h : Shields raw shielded)
    (name : Option (List Char)) (done : List Char) :
    Xml.resolveFrom name done shielded = Xml.resolveFrom name done raw := by
  induction h generalizing name done with
  | nil => rfl
  | keep c _ ih =>
      cases name with
      | none => simp only [Xml.resolveFrom, ih]
      | some n => simp only [Xml.resolveFrom, ih]
  | @spell c space raw shielded _ ih =>
      have hamp : c ≠ '&' := by
        rintro rfl
        cases space
      have hsemi : c ≠ ';' := by
        rintro rfl
        cases space
      cases name with
      | none => rw [resolveFrom_reference space, resolveFrom_plain hamp, ih]
      | some n =>
          -- inside a reference both are refused, for the whitespace or for a second `&`
          have hraw : Xml.resolveFrom (some n) done (c :: raw) = none := by
            rw [Xml.resolveFrom]
            simp only [if_neg hsemi, if_neg hamp]
            exact resolveFrom_eq_none List.mem_cons_self space done raw
          rw [hraw]
          rfl

/-- A reader resolves a protected text to what it resolves the text to. -/
theorem resolve?_protectText (cs : List Char) : resolve? (protectText cs) = resolve? cs :=
  (shields_protectText cs).resolveFrom none []

end AppServer.Xml
