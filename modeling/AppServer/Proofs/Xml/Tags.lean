import AppServer.Xml.Event
import AppServer.Xml.Name
import AppServer.Xml.Printer
import AppServer.Xml.Text
import Mathlib.Data.List.TakeWhile

/-!
# Tags written and read

A name holds none of the characters that delimit tags, and an attribute value is in quotes that it
does not hold, so each tag that is written around a name and attributes is read as one event. An
element with text is read as its start, the text and its end, and so is an empty one, which has no
text.
-/

namespace AppServer.Xml

theorem isNameChar_of_isNameStart {c : Char} (h : isNameStart c = true) : isNameChar c = true := by
  simp [isNameChar, h]

theorem isNameChar_of_mem {name : List Char} (h : isName name = true) {c : Char} (hc : c ∈ name) :
    isNameChar c = true := by
  cases name with
  | nil => cases hc
  | cons d ds =>
      obtain ⟨hd, hds⟩ := Bool.and_eq_true_iff.mp h
      rcases List.mem_cons.mp hc with rfl | hc
      · exact isNameChar_of_isNameStart hd
      · exact List.all_eq_true.mp hds c hc

/-- A character that no name holds is not in this one. -/
theorem notMem_of_isName {name : List Char} (h : isName name = true) {d : Char}
    (hd : isNameChar d = false) : d ∉ name := by
  intro hmem
  rw [isNameChar_of_mem h hmem] at hd
  cases hd

theorem isSpace_of_mem_name {name : List Char} (h : isName name = true) {c : Char}
    (hc : c ∈ name) : isSpace c = false := by
  cases hspace : isSpace c with
  | false => rfl
  | true =>
      have hname := isNameChar_of_mem h hc
      simp only [isSpace, Bool.or_eq_true, beq_iff_eq] at hspace
      rcases hspace with ((rfl | rfl) | rfl) | rfl <;> cases hname

/-! ## To the end of a tag -/

theorem takeWhile_ne_append {d : Char} {cs : List Char} (h : d ∉ cs) (rest : List Char) :
    (cs ++ d :: rest).takeWhile (· != d) = cs := by
  have hne : ∀ c ∈ cs, (c != d) = true := by
    intro c hc
    rw [bne_iff_ne]
    rintro rfl
    exact h hc
  rw [List.takeWhile_append_of_pos hne]
  simp

theorem dropWhile_ne_append {d : Char} {cs : List Char} (h : d ∉ cs) (rest : List Char) :
    (cs ++ d :: rest).dropWhile (· != d) = d :: rest := by
  have hne : ∀ c ∈ cs, (c != d) = true := by
    intro c hc
    rw [bne_iff_ne]
    rintro rfl
    exact h hc
  rw [List.dropWhile_append_of_pos hne]
  simp

theorem takeTag_plain {plain : List Char}
    (h : ∀ c ∈ plain, c ≠ '>' ∧ c ≠ '"' ∧ c ≠ '\'') (rest : List Char) :
    takeTag none (plain ++ rest) =
      (takeTag none rest).map fun (tag, rest) => (plain ++ tag, rest) := by
  induction plain with
  | nil =>
      rw [List.nil_append]
      cases takeTag none rest <;> rfl
  | cons c plain ih =>
      obtain ⟨⟨hend, hdouble, hsingle⟩, hplain⟩ := List.forall_mem_cons.mp h
      rw [List.cons_append, takeTag]
      simp only [hend, hdouble, hsingle, if_false, or_self, ih hplain, Option.map_map]
      rfl

theorem takeTag_quoted {value : List Char} (h : '"' ∉ value) (rest : List Char) :
    takeTag (some '"') (value ++ '"' :: rest) =
      (takeTag none rest).map fun (tag, rest) => (value ++ '"' :: tag, rest) := by
  induction value with
  | nil => rfl
  | cons c value ih =>
      rw [List.mem_cons, not_or] at h
      rw [List.cons_append, takeTag]
      simp only [if_neg (Ne.symm h.1), ih h.2, Option.map_map]
      rfl

theorem getLast?_name {name : List Char} (h : isName name = true) : name.getLast? ≠ some '/' :=
  fun hlast => notMem_of_isName h (d := '/') rfl (List.mem_of_getLast? hlast)

theorem plain_name {name : List Char} (h : isName name = true) :
    ∀ c ∈ name, c ≠ '>' ∧ c ≠ '"' ∧ c ≠ '\'' := by
  intro c hc
  have hchar := isNameChar_of_mem h hc
  refine ⟨?_, ?_, ?_⟩ <;>
    rintro rfl <;> cases hchar

/-! ## Attributes -/

/-- A text that can be written as it is: no markup begins or ends in it, nor does an attribute value
where it is one, and all its references stand for characters. -/
structure IsTextAt (place : Place) (cs : List Char) : Prop where
  lt_notMem : '<' ∉ cs
  gt_notMem : '>' ∉ cs
  quote_notMem : place = .attributeValue → '"' ∉ cs
  resolves : (resolve? cs).isSome = true

/-- Attributes as they are written, each after a space and with its value in quotes. -/
inductive IsAttributes : List Char → Prop
  | nil : IsAttributes []
  | cons {name value rest : List Char} (hname : isName name = true)
      (hvalue : IsTextAt .attributeValue value) (hrest : IsAttributes rest) :
      IsAttributes (attributeText name value ++ rest)

namespace IsAttributes

variable {attributes more : List Char}

theorem append (h : IsAttributes attributes) (hmore : IsAttributes more) :
    IsAttributes (attributes ++ more) := by
  induction h with
  | nil => exact hmore
  | cons hname hvalue _ ih =>
      rw [List.append_assoc]
      exact .cons hname hvalue ih

theorem gt_notMem (h : IsAttributes attributes) : '>' ∉ attributes := by
  induction h with
  | nil => exact List.not_mem_nil
  | cons hname hvalue _ ih =>
      simp [attributeText, notMem_of_isName hname (d := '>') rfl, hvalue.gt_notMem, ih]

theorem eq_nil_or_cons (h : IsAttributes attributes) :
    attributes = [] ∨ ∃ rest, attributes = ' ' :: rest := by
  cases h with
  | nil => exact .inl rfl
  | cons => exact .inr ⟨_, rfl⟩

/-- A quote ends the last attribute. -/
theorem getLast?_append (h : IsAttributes attributes) {front : List Char}
    (hfront : front.getLast? ≠ some '/') : (front ++ attributes).getLast? ≠ some '/' := by
  induction h generalizing front with
  | nil =>
      rw [List.append_nil]
      exact hfront
  | cons _ _ _ ih =>
      rw [← List.append_assoc]
      refine ih ?_
      simp [attributeText, List.getLast?_append, List.getLast?_cons]

/-- The quotes of an attribute are closed before the next. -/
theorem takeTag (h : IsAttributes attributes) (rest : List Char) :
    Xml.takeTag none (attributes ++ rest) =
      (Xml.takeTag none rest).map fun (tag, rest) => (attributes ++ tag, rest) := by
  induction h with
  | nil =>
      rw [List.nil_append]
      cases Xml.takeTag none rest <;> rfl
  | @cons name value more hname hvalue _ ih =>
      have hplain : ∀ c ∈ ' ' :: (name ++ ['=']), c ≠ '>' ∧ c ≠ '"' ∧ c ≠ '\'' := by
        intro c hc
        simp only [List.mem_cons, List.mem_append, List.not_mem_nil, or_false] at hc
        rcases hc with rfl | hc | rfl
        · decide
        · exact plain_name hname c hc
        · decide
      have hsplit : attributeText name value ++ more ++ rest =
          (' ' :: (name ++ ['='])) ++ '"' :: (value ++ '"' :: (more ++ rest)) := by
        simp [attributeText]
      have hquote : Xml.takeTag none ('"' :: (value ++ '"' :: (more ++ rest))) =
          (Xml.takeTag (some '"') (value ++ '"' :: (more ++ rest))).map fun (tag, rest) =>
            ('"' :: tag, rest) := rfl
      rw [hsplit, takeTag_plain hplain, hquote, takeTag_quoted (hvalue.quote_notMem rfl), ih]
      simp only [Option.map_map]
      congr 1
      funext ⟨tag, after⟩
      simp [attributeText]

end IsAttributes

/-! ## One tag -/

variable {name attributes : List Char} (hname : isName name = true)
  (hattributes : IsAttributes attributes) (opened : List (List Char)) (rest : List Char)

include hname

theorem takeWhile_tag (hattributes : IsAttributes attributes) :
    (name ++ attributes).takeWhile (!isSpace ·) = name := by
  rw [List.takeWhile_append_of_pos fun c hc => by simp [isSpace_of_mem_name hname hc]]
  rcases hattributes.eq_nil_or_cons with rfl | ⟨rest, rfl⟩
  · exact List.append_nil name
  · exact List.append_nil name

theorem dropWhile_tag (hattributes : IsAttributes attributes) :
    (name ++ attributes).dropWhile (!isSpace ·) = attributes := by
  rw [List.dropWhile_append_of_pos fun c hc => by simp [isSpace_of_mem_name hname hc]]
  rcases hattributes.eq_nil_or_cons with rfl | ⟨rest, rfl⟩
  · rfl
  · rfl

theorem markup?_of_name (tail : List Char) :
    markup? opened (name ++ tail) = (takeTag none (name ++ tail)).map fun (tag, rest) =>
      openTag opened tag rest := by
  cases name with
  | nil => cases hname
  | cons c cs =>
      have hstart : isNameStart c = true := (Bool.and_eq_true_iff.mp hname).1
      rw [List.cons_append, markup?.eq_def]
      split
      case h_6 => rfl
      case h_1 heq => cases heq
      all_goals
        rename_i heq
        obtain rfl := (List.cons.inj heq).1
        cases hstart

include hattributes in
theorem markup?_tag (tail : List Char) :
    markup? opened (name ++ (attributes ++ tail)) = (takeTag none tail).map fun (tag, rest) =>
      openTag opened (name ++ (attributes ++ tag)) rest := by
  rw [markup?_of_name hname, takeTag_plain (plain_name hname), hattributes.takeTag]
  simp only [Option.map_map]
  rfl

include hattributes in
theorem markup?_start :
    markup? opened (name ++ (attributes ++ '>' :: rest)) =
      some ⟨[.start name attributes], name :: opened, rest⟩ := by
  have hclosed : ¬ (name ++ attributes).getLast? = some '/' :=
    hattributes.getLast?_append (getLast?_name hname)
  rw [markup?_tag hname hattributes]
  show some (openTag opened (name ++ (attributes ++ [])) rest) = _
  rw [List.append_nil]
  simp only [openTag, hclosed, if_false, takeWhile_tag hname hattributes,
    dropWhile_tag hname hattributes]

include hattributes in
theorem markup?_empty :
    markup? opened (name ++ (attributes ++ '/' :: '>' :: rest)) =
      some ⟨[.start name attributes, .finish], opened, rest⟩ := by
  have hclosed : (name ++ (attributes ++ ['/'])).getLast? = some '/' := by
    rw [← List.append_assoc]
    exact List.getLast?_concat
  have hinside : (name ++ (attributes ++ ['/'])).dropLast = name ++ attributes := by
    rw [← List.append_assoc]
    exact List.dropLast_concat
  rw [markup?_tag hname hattributes]
  show some (openTag opened (name ++ (attributes ++ ['/'])) rest) = _
  simp only [openTag, hclosed, if_true, hinside, takeWhile_tag hname hattributes,
    dropWhile_tag hname hattributes]

theorem closeTag?_name :
    closeTag? (name :: opened) name rest = some ⟨[.finish], opened, rest⟩ := by
  have htrim : (name.reverse.dropWhile isSpace).reverse = name := by
    have hkeep : name.reverse.dropWhile isSpace = name.reverse := by
      refine List.dropWhile_eq_self_iff.mpr fun hlen => ?_
      rw [isSpace_of_mem_name hname (List.mem_reverse.mp (List.getElem_mem hlen))]
      exact Bool.false_ne_true
    rw [hkeep, List.reverse_reverse]
  simp [closeTag?, htrim]

theorem markup?_end :
    markup? (name :: opened) ('/' :: (name ++ '>' :: rest)) =
      some ⟨[.finish], opened, rest⟩ := by
  have hbracket : '>' ∉ name := notMem_of_isName hname rfl
  rw [markup?]
  simp only [takeWhile_ne_append hbracket, dropWhile_ne_append hbracket, closeTag?_name hname]

omit hname

/-! ## Some markup at a time -/

/-- What is read of the characters between two tags. -/
def textEvents (text : List Char) : List Event :=
  if text.isEmpty then [] else [.text text]

/-- In at most so many steps, what is before `rest` is read as `evs`, and the elements that are open
change. -/
def Reads (steps : Nat) (opened : List (List Char)) (cs : List Char) (evs : List Event)
    (opened' : List (List Char)) (rest : List Char) : Prop :=
  ∀ fuel, ∃ left ≥ fuel, readEvents (fuel + steps) opened cs = evs ++ readEvents left opened' rest

namespace Reads

variable {steps steps' : Nat} {opened opened' opened'' : List (List Char)}
  {cs cs' rest : List Char} {evs evs' : List Event}

theorem refl (opened : List (List Char)) (cs : List Char) : Reads 0 opened cs [] opened cs :=
  fun fuel => ⟨fuel, Nat.le_refl fuel, rfl⟩

theorem trans (h : Reads steps opened cs evs opened' cs')
    (h' : Reads steps' opened' cs' evs' opened'' rest) :
    Reads (steps + steps') opened cs (evs ++ evs') opened'' rest := by
  intro fuel
  obtain ⟨left, hleft, hread⟩ := h (fuel + steps')
  -- what the first part leaves is enough for the second
  obtain ⟨spare, rfl⟩ : ∃ spare, left = spare + steps' := ⟨left - steps', by omega⟩
  obtain ⟨last, hlast, hread'⟩ := h' spare
  refine ⟨last, by omega, ?_⟩
  have hfuel : fuel + (steps + steps') = fuel + steps' + steps := by omega
  rw [hfuel, hread, hread', List.append_assoc]

theorem mono (h : Reads steps opened cs evs opened' rest) (hle : steps ≤ steps') :
    Reads steps' opened cs evs opened' rest := by
  intro fuel
  obtain ⟨left, hleft, hread⟩ := h (fuel + (steps' - steps))
  refine ⟨left, by omega, ?_⟩
  have hfuel : fuel + steps' = fuel + (steps' - steps) + steps := by omega
  rw [hfuel, hread]

/-- A piece of markup and the text before it are one step. -/
theorem markup {text : List Char} (htext : '<' ∉ text) {step : Step}
    (hstep : markup? opened cs = some step) :
    Reads 1 opened (text ++ '<' :: cs) (textEvents text ++ step.events) step.opened step.rest := by
  intro fuel
  refine ⟨fuel, Nat.le_refl fuel, ?_⟩
  rw [readEvents]
  simp only [takeWhile_ne_append htext, dropWhile_ne_append htext, hstep]
  rfl

/-- A document that starts with markup is long enough to be read. -/
theorem events_eq_readEvents {inside : List Char} (h : Reads steps [] ('<' :: inside) evs opened rest)
    (hsteps : steps ≤ inside.length + 1) :
    ∃ left, events ('<' :: inside) = evs ++ readEvents (left + 1) opened rest := by
  obtain ⟨left, hleft, hread⟩ := h (inside.length + 2 - steps)
  rw [Nat.sub_add_cancel (by omega)] at hread
  refine ⟨left - 1, ?_⟩
  have hmark : ¬ ('<' :: inside).head? = some '\ufeff' := by
    simp
  rw [events, if_neg hmark, Nat.sub_add_cancel (by omega), ← hread]
  rfl

/-- A document that is read to its end has no other events. -/
theorem events_eq (h : Reads cs.length [] cs evs [] []) (hmark : cs.head? ≠ some '\ufeff') :
    events cs = evs := by
  obtain ⟨left, hleft, hread⟩ := h 1
  obtain ⟨spare, rfl⟩ : ∃ spare, left = spare + 1 := ⟨left - 1, by omega⟩
  rw [events, if_neg hmark, Nat.add_comm, hread]
  exact List.append_nil evs

end Reads

/-! ## Elements -/

/-- An element with text, or an empty one. -/
def textElement (name text : List Char) : List Char :=
  if text.isEmpty then emptyElement name else wrap name text

@[simp] theorem textElement_nil (name : List Char) : textElement name [] = emptyElement name := rfl

theorem textElement_of_ne_nil (name : List Char) {text : List Char} (h : text ≠ []) :
    textElement name text = wrap name text := by
  cases text with
  | nil => exact absurd rfl h
  | cons c text => rfl

theorem textElement_eq_cons (name text : List Char) :
    ∃ inside, textElement name text = '<' :: inside := by
  unfold textElement
  split
  · exact ⟨_, rfl⟩
  · exact ⟨_, rfl⟩

theorem length_le_textElement (name text : List Char) :
    text.length + 2 ≤ (textElement name text).length := by
  unfold textElement
  split
  · rename_i hempty
    rw [List.isEmpty_iff.mp hempty]
    simp [emptyElement]
  · simp only [wrap, List.length_append, List.length_cons]
    omega

/-- What is read of an element with text. -/
def elementEvents (name text : List Char) : List Event :=
  .start name [] :: (textEvents text ++ [.finish])

namespace Reads

include hname

theorem empty :
    Reads 1 opened (emptyElement name ++ rest) [.start name [], .finish] opened rest := by
  have hread := markup List.not_mem_nil (markup?_empty hname .nil opened rest)
  simpa [emptyElement, textEvents] using hread

/-- What is read inside an element is read between its tags. -/
theorem wrap {steps : Nat} {content : List Char} {evs : List Event}
    (h : Reads steps (name :: opened) (content ++ '<' :: '/' :: (name ++ '>' :: rest)) evs opened
      rest) :
    Reads (1 + steps) opened (wrap name content ++ rest) (.start name [] :: evs) opened rest := by
  have hstart := markup List.not_mem_nil (markup?_start hname .nil opened
    (content ++ '<' :: '/' :: (name ++ '>' :: rest)))
  have hread := hstart.trans h
  simpa [Xml.wrap, textEvents] using hread

theorem textElement {text : List Char} (htext : '<' ∉ text) :
    Reads 2 opened (textElement name text ++ rest) (elementEvents name text) opened rest := by
  cases text with
  | nil => exact (empty hname opened rest).mono (Nat.le_succ 1)
  | cons c text =>
      exact wrap hname opened rest (markup htext (markup?_end hname opened rest))

end Reads

end AppServer.Xml
