import AppServer.Proofs.Number.Digits
import AppServer.Proofs.Xml.Content
import AppServer.Xml.Printer

/-!
# What is written is well-formed

Every value that can be written is written as a row of elements of one name: its own name if an
element can have it, and the root name otherwise. The row has one element for each item of a sequence,
none for an absent value, and a single one for any other value. So a written document has exactly one
root just for the values that are counted as one.
-/

namespace AppServer.Xml

open AppServer.Data AppServer.Number

/-! ## How often a value repeats its element -/

mutual

/-- The number of elements that a value makes under a name. -/
def elementCount : Value → Nat
  | .some v => elementCount v
  | .newtypeStruct _ v => elementCount v
  | .seq vs => elementCounts vs
  | .tuple vs => elementCounts vs
  | .tupleStruct _ vs => elementCounts vs
  | _ => 1

def elementCounts : List Value → Nat
  | [] => 0
  | v :: vs => elementCount v + elementCounts vs

end

/-- The number of roots of a written value: a variant stands for what it holds, and an absent value is
not written. -/
def rootCount : Value → Nat
  | .none => 0
  | .some v => rootCount v
  | .newtypeVariant _ _ v => elementCount v
  | .tupleVariant _ _ vs => elementCounts vs
  | v => elementCount v

/-- The name that a value has itself. -/
def ownName? : Value → Option String
  | .some v => ownName? v
  | .unitStruct name => some name
  | .unitVariant _ variant => some variant
  | .newtypeStruct name _ => some name
  | .newtypeVariant _ variant _ => some variant
  | .tupleStruct name _ => some name
  | .tupleVariant _ variant _ => some variant
  | .struct name _ => some name
  | .structVariant _ variant _ => some variant
  | _ => none

/-- The name of the roots of a written value. -/
def rootNameOf (v : Value) : List Char :=
  match ownName? v with
  | some name => if isName name.toList then name.toList else rootName.toList
  | none => rootName.toList

/-! ## Texts -/

variable {place : Place}

theorem isTextAt_singleton {c : Char} (h : c ≠ '<' ∧ c ≠ '>' ∧ c ≠ '"' ∧ c ≠ '&') :
    IsTextAt place [c] := by
  refine .of_plain fun d hd => ?_
  rw [List.mem_singleton.mp hd]
  exact h

theorem isTextAt_escapeChar (c : Char) : IsTextAt place (escapeChar place c) := by
  unfold escapeChar
  split
  · exact ⟨by decide, by decide, fun _ => by decide, rfl⟩
  · exact ⟨by decide, by decide, fun _ => by decide, rfl⟩
  · exact ⟨by decide, by decide, fun _ => by decide, rfl⟩
  · split
    · exact ⟨by decide, by decide, fun _ => by decide, rfl⟩
    · rename_i hplace
      exact ⟨by decide, by decide, fun h => absurd h hplace, rfl⟩
  · rename_i hamp hlt hgt hquote
    exact isTextAt_singleton ⟨hlt, hgt, hquote, hamp⟩

theorem isTextAt_escape (s : String) : IsTextAt place (escape place s) :=
  .flatMap fun c _ => isTextAt_escapeChar c

theorem isTextAt_escapeItemChar (c : Char) : IsTextAt place (escapeItemChar place c) := by
  unfold escapeItemChar
  split
  · rename_i hspace
    rcases isSpace_iff.mp hspace with rfl | rfl | rfl | rfl <;>
      exact ⟨by decide, by decide, fun _ => by decide, rfl⟩
  · exact isTextAt_escapeChar c

theorem isTextAt_of_digits {cs : List Char} (h : ∀ c ∈ cs, isDigit c = true) :
    IsTextAt place cs := by
  refine .of_plain fun c hc => ?_
  have hdigit := h c hc
  refine ⟨?_, ?_, ?_, ?_⟩ <;> rintro rfl <;> cases hdigit

theorem isTextAt_digitsOf (n : Nat) : IsTextAt place (digitsOf n) :=
  isTextAt_of_digits fun _ => isDigit_of_mem_digitsOf

theorem isTextAt_zeros (n : Nat) : IsTextAt place (List.replicate n '0') := by
  refine isTextAt_of_digits fun c hc => ?_
  rw [List.eq_of_mem_replicate hc]
  rfl

theorem isTextAt_positional (s : Scientific) : IsTextAt place s.positional := by
  have hpoint : IsTextAt place ['.'] := isTextAt_singleton (by decide)
  have hzero : IsTextAt place ['0'] := isTextAt_singleton (by decide)
  have hdigits : IsTextAt place (digitsOf s.digits) := isTextAt_digitsOf s.digits
  unfold Scientific.positional
  extract_lets ds places
  split
  · split
    · exact hzero
    · exact hdigits.append (isTextAt_zeros _)
  · split
    · have hfront : IsTextAt place (ds.take (ds.length - places)) :=
        isTextAt_of_digits fun c hc => isDigit_of_mem_digitsOf (List.mem_of_mem_take hc)
      have hback : IsTextAt place (ds.drop (ds.length - places)) :=
        isTextAt_of_digits fun c hc => isDigit_of_mem_digitsOf (List.mem_of_mem_drop hc)
      exact hfront.append (hpoint.append hback)
    · exact hzero.append (hpoint.append ((isTextAt_zeros _).append hdigits))

theorem isTextAt_float (f : Format) (bits : Nat) : IsTextAt place (float f bits) := by
  have hminus : IsTextAt place ['-'] := isTextAt_singleton (by decide)
  have htext (m : Nat) :
      IsTextAt place (if m = f.infinity then "inf".toList else magnitude f m) := by
    split
    · exact ⟨by decide, by decide, fun _ => by decide, rfl⟩
    · exact isTextAt_positional _
  unfold float
  extract_lets m text
  split
  · exact ⟨by decide, by decide, fun _ => by decide, rfl⟩
  · split
    · exact hminus.append (htext m)
    · exact htext m

theorem isTextAt_int (n : Int) : IsTextAt place (int n) := by
  have hminus : IsTextAt place ['-'] := isTextAt_singleton (by decide)
  unfold int
  split
  · exact hminus.append (isTextAt_digitsOf _)
  · exact isTextAt_digitsOf _

theorem isTextAt_scalar? {v : Value} {text : List Char} (h : scalar? v = some text) :
    IsTextAt place text := by
  unfold scalar? at h
  split at h
  · rename_i b
    obtain rfl := Option.some.inj h
    cases b <;> exact ⟨by decide, by decide, fun _ => by decide, rfl⟩
  · obtain rfl := Option.some.inj h
    exact isTextAt_int _
  · obtain rfl := Option.some.inj h
    exact isTextAt_float _ _
  · obtain rfl := Option.some.inj h
    exact isTextAt_float _ _
  · cases h

theorem isTextAt_item? {v : Value} {text : List Char} (h : item? place v = some text) :
    IsTextAt place text := by
  fun_induction item? place v with
  | case1 s =>
      obtain rfl := Option.some.inj h
      exact .flatMap fun c _ => isTextAt_escapeItemChar c
  | case2 c =>
      obtain rfl := Option.some.inj h
      exact isTextAt_escapeItemChar c
  | case3 | case5 | case6 =>
      obtain rfl := Option.some.inj h
      exact .nil
  | case4 v ih => exact ih h
  | case7 _ variant =>
      obtain rfl := Option.some.inj h
      exact .flatMap fun c _ => isTextAt_escapeItemChar c
  | case8 _ v ih => exact ih h
  | case9 => exact isTextAt_scalar? h

/-- Items stay texts when spaces come between them. -/
theorem isTextAt_spaceSeparated {items : List (List Char)} (h : ∀ item ∈ items, IsTextAt place item) :
    IsTextAt place (spaceSeparated items) := by
  have hjoin : ∀ texts : List (List Char), (∀ text ∈ texts, IsTextAt place text) →
      IsTextAt place ([' '].intercalate texts) := by
    intro texts
    induction texts with
    | nil => exact fun _ => .nil
    | cons text more ih =>
        intro htexts
        obtain ⟨htext, hmore⟩ := List.forall_mem_cons.mp htexts
        cases more with
        | nil =>
            rw [List.intercalate_singleton]
            exact htext
        | cons next more =>
            rw [List.intercalate_cons_cons]
            exact (htext.append (isTextAt_singleton (by decide))).append (ih hmore)
  exact hjoin _ fun text htext => h text (List.mem_of_mem_filter htext)

theorem isTextAt_of_mem_mapM {vs : List Value} {items : List (List Char)}
    (h : vs.mapM (item? place) = some items) : ∀ item ∈ items, IsTextAt place item := by
  induction vs generalizing items with
  | nil =>
      obtain rfl := Option.some.inj h
      exact fun _ hitem => absurd hitem List.not_mem_nil
  | cons v vs ih =>
      rw [List.mapM_cons] at h
      obtain ⟨first, hfirst, h⟩ := Option.bind_eq_some_iff.mp h
      obtain ⟨rest, hrest, h⟩ := Option.bind_eq_some_iff.mp h
      obtain rfl := Option.some.inj h
      exact List.forall_mem_cons.mpr ⟨isTextAt_item? hfirst, ih hrest⟩

theorem isTextAt_items? {vs : List Value} {text : List Char}
    (h : (vs.mapM (item? place)).map spaceSeparated = some text) : IsTextAt place text := by
  obtain ⟨items, hitems, rfl⟩ := Option.map_eq_some_iff.mp h
  exact isTextAt_spaceSeparated (isTextAt_of_mem_mapM hitems)

theorem isTextAt_simple? {v : Value} {text : List Char} (h : simple? place v = some text) :
    IsTextAt place text := by
  fun_induction simple? place v with
  | case1 s =>
      obtain rfl := Option.some.inj h
      exact isTextAt_escape s
  | case2 c =>
      obtain rfl := Option.some.inj h
      exact isTextAt_escapeChar c
  | case3 | case5 | case6 =>
      obtain rfl := Option.some.inj h
      exact .nil
  | case4 v ih => exact ih h
  | case7 _ variant =>
      obtain rfl := Option.some.inj h
      exact isTextAt_escape variant
  | case8 _ v ih => exact ih h
  | case9 | case10 | case11 => exact isTextAt_items? h
  | case12 => exact isTextAt_scalar? h

/-! ## Elements -/

theorem element_wrap {name content : List Char} (hname : isName name = true) (h : Content content) :
    Element name (wrap name content) :=
  .full hname .nil h

theorem element_emptyElement {name : List Char} (hname : isName name = true) :
    Element name (emptyElement name) :=
  .empty hname .nil

theorem element_element {name : List Char} (hname : isName name = true) {inner : Inner}
    (hattributes : IsAttributes inner.attributes) (hchildren : Content inner.children) :
    Element name (element name inner) := by
  unfold element
  split
  · rw [List.append_assoc]
    exact .empty hname hattributes
  · rw [List.append_assoc]
    exact .full hname hattributes hchildren

/-- What a field adds to its element is well-formed if the content and the child element of its value
are. -/
theorem inner_field? {key : List Char} {v : Value} {content child : Option (List Char)}
    {inner : Inner} (h : field? key v content child = some inner)
    (hcontent : ∀ text, content = some text → Content text)
    (hchild : isName key = true → ∀ text, child = some text → Content text) :
    IsAttributes inner.attributes ∧ Content inner.children := by
  unfold field? at h
  split at h
  · split at h
    · rename_i hname
      obtain ⟨text, htext, rfl⟩ := Option.map_eq_some_iff.mp h
      refine ⟨?_, .nil⟩
      rw [← List.append_nil (attributeText _ text)]
      exact .cons hname (isTextAt_simple? htext) .nil
    · cases h
  · split at h
    · obtain ⟨text, htext, rfl⟩ := Option.map_eq_some_iff.mp h
      exact ⟨.nil, .text (isTextAt_simple? htext)⟩
    · split at h
      · obtain ⟨text, htext, rfl⟩ := Option.map_eq_some_iff.mp h
        exact ⟨.nil, hcontent text htext⟩
      · split at h
        · rename_i hname
          obtain ⟨text, htext, rfl⟩ := Option.map_eq_some_iff.mp h
          exact ⟨.nil, hchild hname text htext⟩
        · cases h

/-- A variant is well-formed content if its text and its element are. -/
theorem content_variant? {variant : String} {plain child : Option (List Char)} {text : List Char}
    (h : variant? variant plain child = some text)
    (hplain : ∀ text, plain = some text → IsTextAt .content text)
    (hchild : isName variant.toList = true → ∀ text, child = some text → Content text) :
    Content text := by
  unfold variant? at h
  split at h
  · exact .text (hplain text h)
  · split at h
    · rename_i hname
      exact hchild hname text h
    · cases h

mutual

/-- What is written of a value under a name. -/
theorem elements_element? : ∀ (v : Value) {name text : List Char}, isName name = true →
    element? name v = some text → Elements name (elementCount v) text
  | .text s, _, _, hname, h => by
      rw [element?] at h
      obtain rfl := Option.some.inj h
      split
      · exact .single (element_emptyElement hname)
      · exact .single (element_wrap hname (.text (isTextAt_escape s)))
  | .char c, _, _, hname, h => by
      rw [element?] at h
      obtain rfl := Option.some.inj h
      exact .single (element_wrap hname (.text (isTextAt_escapeChar c)))
  | .none, _, _, hname, h | .unit, _, _, hname, h | .unitStruct _, _, _, hname, h => by
      rw [element?] at h
      obtain rfl := Option.some.inj h
      exact .single (element_emptyElement hname)
  | .some v, _, _, hname, h | .newtypeStruct _ v, _, _, hname, h => by
      rw [element?] at h
      exact elements_element? v hname h
  | .unitVariant _ variant, _, _, hname, h => by
      rw [element?] at h
      obtain rfl := Option.some.inj h
      split
      · exact .single (element_emptyElement hname)
      · exact .single (element_wrap hname (.text (isTextAt_escape variant)))
  | .newtypeVariant _ _ _, _, _, _, h | .tupleVariant _ _ _, _, _, _, h
  | .structVariant _ _ _, _, _, _, h => by
      rw [element?] at h
      cases h
  | .seq vs, _, _, hname, h | .tuple vs, _, _, hname, h | .tupleStruct _ vs, _, _, hname, h => by
      rw [element?] at h
      exact elements_elements? vs hname h
  | .map entries, _, _, hname, h => by
      rw [element?] at h
      obtain ⟨inner, hinner, rfl⟩ := Option.map_eq_some_iff.mp h
      obtain ⟨hattributes, hchildren⟩ := inner_entries? entries hinner
      exact .single (element_element hname hattributes hchildren)
  | .struct _ fields, _, _, hname, h => by
      rw [element?] at h
      obtain ⟨inner, hinner, rfl⟩ := Option.map_eq_some_iff.mp h
      obtain ⟨hattributes, hchildren⟩ := inner_fields? fields hinner
      exact .single (element_element hname hattributes hchildren)
  | .bool _, _, _, hname, h | .int _, _, _, hname, h | .float32 _, _, _, hname, h
  | .float64 _, _, _, hname, h => by
      rw [element?] at h
      obtain ⟨scalar, hscalar, rfl⟩ := Option.map_eq_some_iff.mp h
      exact .single (element_wrap hname (.text (isTextAt_scalar? hscalar)))

theorem elements_elements? : ∀ (vs : List Value) {name text : List Char}, isName name = true →
    elements? name vs = some text → Elements name (elementCounts vs) text
  | [], _, _, _, h => by
      rw [elements?] at h
      obtain rfl := Option.some.inj h
      exact .nil
  | v :: vs, _, _, hname, h => by
      rw [elements?] at h
      obtain ⟨first, hfirst, h⟩ := Option.bind_eq_some_iff.mp h
      obtain ⟨rest, hrest, h⟩ := Option.bind_eq_some_iff.mp h
      obtain rfl := Option.some.inj h
      exact (elements_element? v hname hfirst).append (elements_elements? vs hname hrest)

/-- What is written of a value as content. -/
theorem content_content? : ∀ (v : Value) {text : List Char}, content? v = some text → Content text
  | .text s, _, h => by
      rw [content?] at h
      obtain rfl := Option.some.inj h
      exact .text (isTextAt_escape s)
  | .char c, _, h => by
      rw [content?] at h
      obtain rfl := Option.some.inj h
      exact .text (isTextAt_escapeChar c)
  | .none, _, h | .unit, _, h | .unitStruct _, _, h => by
      rw [content?] at h
      obtain rfl := Option.some.inj h
      exact .nil
  | .some v, _, h | .newtypeStruct _ v, _, h => by
      rw [content?] at h
      exact content_content? v h
  | .unitVariant _ variant, _, h => by
      rw [content?] at h
      refine content_variant? h (fun text htext => ?_) fun hname text htext => ?_
      · obtain rfl := Option.some.inj htext
        exact .nil
      · obtain rfl := Option.some.inj htext
        exact (Elements.single (element_emptyElement hname)).content
  | .newtypeVariant _ variant v, _, h => by
      rw [content?] at h
      exact content_variant? h (fun _ => isTextAt_simple?) fun hname text htext =>
        (elements_element? v hname htext).content
  | .seq vs, _, h | .tuple vs, _, h | .tupleStruct _ vs, _, h => by
      rw [content?] at h
      exact content_contents? vs h
  | .tupleVariant _ variant vs, _, h => by
      rw [content?] at h
      exact content_variant? h (fun _ => isTextAt_simple?) fun hname text htext =>
        (elements_elements? vs hname htext).content
  | .map _, _, h | .struct _ _, _, h => by
      rw [content?] at h
      cases h
  | .structVariant _ variant fields, _, h => by
      rw [content?] at h
      refine content_variant? h nofun fun hname text htext => ?_
      obtain ⟨inner, hinner, rfl⟩ := Option.map_eq_some_iff.mp htext
      obtain ⟨hattributes, hchildren⟩ := inner_fields? fields hinner
      exact (Elements.single (element_element hname hattributes hchildren)).content
  | .bool _, _, h | .int _, _, h | .float32 _, _, h | .float64 _, _, h => by
      rw [content?] at h
      exact .text (isTextAt_scalar? h)

theorem content_contents? : ∀ (vs : List Value) {text : List Char}, contents? vs = some text →
    Content text
  | [], _, h => by
      rw [contents?] at h
      obtain rfl := Option.some.inj h
      exact .nil
  | v :: vs, _, h => by
      rw [contents?] at h
      obtain ⟨first, hfirst, h⟩ := Option.bind_eq_some_iff.mp h
      obtain ⟨rest, hrest, h⟩ := Option.bind_eq_some_iff.mp h
      obtain rfl := Option.some.inj h
      exact (content_content? v hfirst).append (content_contents? vs hrest)

theorem inner_fields? : ∀ (fields : List (String × Value)) {inner : Inner},
    fields? fields = some inner → IsAttributes inner.attributes ∧ Content inner.children
  | [], _, h => by
      rw [fields?] at h
      obtain rfl := Option.some.inj h
      exact ⟨.nil, .nil⟩
  | (key, v) :: fields, _, h => by
      rw [fields?] at h
      obtain ⟨first, hfirst, h⟩ := Option.bind_eq_some_iff.mp h
      obtain ⟨rest, hrest, h⟩ := Option.bind_eq_some_iff.mp h
      obtain rfl := Option.some.inj h
      have hfield := inner_field? hfirst (fun _ => content_content? v) fun hkey text htext =>
        (elements_element? v hkey htext).content
      have hmore := inner_fields? fields hrest
      exact ⟨hfield.1.append hmore.1, hfield.2.append hmore.2⟩

theorem inner_entries? : ∀ (entries : List (Value × Value)) {inner : Inner},
    entries? entries = some inner → IsAttributes inner.attributes ∧ Content inner.children
  | [], _, h => by
      rw [entries?] at h
      obtain rfl := Option.some.inj h
      exact ⟨.nil, .nil⟩
  | (k, v) :: entries, _, h => by
      rw [entries?] at h
      obtain ⟨key, -, h⟩ := Option.bind_eq_some_iff.mp h
      obtain ⟨first, hfirst, h⟩ := Option.bind_eq_some_iff.mp h
      obtain ⟨rest, hrest, h⟩ := Option.bind_eq_some_iff.mp h
      obtain rfl := Option.some.inj h
      have hfield := inner_field? hfirst (fun _ => content_content? v) fun hkey text htext =>
        (elements_element? v hkey htext).content
      have hmore := inner_entries? entries hrest
      exact ⟨hfield.1.append hmore.1, hfield.2.append hmore.2⟩

end

/-! ## Documents -/

theorem isSome_elements?_cons (name : List Char) (v : Value) (vs : List Value) :
    (elements? name (v :: vs)).isSome =
      ((element? name v).isSome && (elements? name vs).isSome) := by
  rw [elements?]
  cases element? name v <;> cases elements? name vs <;> rfl

mutual

/-- Whether a value can be written does not depend on the name. -/
theorem isSome_element? : ∀ (v : Value) (name name' : List Char),
    (element? name v).isSome = (element? name' v).isSome
  | .some v, name, name' | .newtypeStruct _ v, name, name' => by
      rw [element?, element?]
      exact isSome_element? v name name'
  | .seq vs, name, name' | .tuple vs, name, name' | .tupleStruct _ vs, name, name' => by
      rw [element?, element?]
      exact isSome_elements? vs name name'
  | .text _, _, _ | .char _, _, _ | .none, _, _ | .unit, _, _ | .unitStruct _, _, _
  | .unitVariant _ _, _, _ | .newtypeVariant _ _ _, _, _ | .tupleVariant _ _ _, _, _
  | .structVariant _ _ _, _, _ | .map _, _, _ | .struct _ _, _, _ | .bool _, _, _ | .int _, _, _
  | .float32 _, _, _ | .float64 _, _, _ => by
      simp only [element?, Option.isSome_map, Option.isSome_some]

theorem isSome_elements? : ∀ (vs : List Value) (name name' : List Char),
    (elements? name vs).isSome = (elements? name' vs).isSome
  | [], _, _ => rfl
  | v :: vs, name, name' => by
      rw [isSome_elements?_cons, isSome_elements?_cons, isSome_element? v name name',
        isSome_elements? vs name name']

end

/-- Where a value has a name that fits an element, it is written under that name. -/
theorem elements_under {name : String} {v : Value} {text : List Char}
    (h : named?.under name v = some text) :
    isName name.toList = true ∧ Elements name.toList (elementCount v) text := by
  unfold named?.under at h
  split at h
  · rename_i hname
    exact ⟨hname, elements_element? v hname h⟩
  · cases h

/-- What can be written under the root name but not under its own has a name that fits none. -/
theorem not_isName_of_under {name : String} {v : Value} {text : List Char}
    (hnamed : named?.under name v = none) (h : element? rootName.toList v = some text) :
    ¬ isName name.toList = true := by
  intro hname
  have hsome := isSome_element? v name.toList rootName.toList
  unfold named?.under at hnamed
  rw [if_pos hname] at hnamed
  rw [hnamed, h] at hsome
  cases hsome

theorem rootNameOf_eq {v : Value} {name : String} (hown : ownName? v = some name) :
    rootNameOf v = if isName name.toList then name.toList else rootName.toList := by
  rw [rootNameOf, hown]

/-- A value that is written under its own name as what it holds. -/
theorem elements_of_under {v held : Value} {name : String} {text : List Char}
    (h : named?.under name held = some text) (hown : ownName? v = some name)
    (hcount : rootCount v = elementCount held) : Elements (rootNameOf v) (rootCount v) text := by
  obtain ⟨hname, helements⟩ := elements_under h
  rw [rootNameOf_eq hown, if_pos hname, hcount]
  exact helements

/-- A value that is written under the root name since its own name fits no element. -/
theorem elements_of_not_under {v held : Value} {name : String} {text : List Char}
    (h : element? rootName.toList held = some text) (hnone : named?.under name held = none)
    (hown : ownName? v = some name) (hcount : rootCount v = elementCount held) :
    Elements (rootNameOf v) (rootCount v) text := by
  rw [rootNameOf_eq hown, if_neg (not_isName_of_under hnone h), hcount]
  exact elements_element? held rfl h

theorem elements_named? {v : Value} {text : List Char} (h : named? v = some text) :
    Elements (rootNameOf v) (rootCount v) text := by
  fun_induction named? v with
  -- an absent value is no element, however it could be named
  | case1 =>
      obtain rfl := Option.some.inj h
      exact .nil
  | case2 v ih => exact ih h
  | case11 => cases h
  | _ => exact elements_of_under h rfl rfl

theorem elements_unnamed? {v : Value} {text : List Char} (hnamed : named? v = none)
    (h : unnamed? v = some text) : Elements (rootNameOf v) (rootCount v) text := by
  -- a value with a name comes here only if its name fits no element
  fun_induction unnamed? v with
  | case1 => cases hnamed
  | case2 v ih => exact ih hnamed h
  | case3 _ variant =>
      have hempty : element? rootName.toList .unit = some text := h
      exact elements_of_not_under hempty hnamed rfl rfl
  | case4 | case5 | case6 => exact elements_of_not_under h hnamed rfl rfl
  | case7 v hnone hsome hunit hnewtype htuple hstruct =>
      cases v with
      | unitStruct | newtypeStruct | tupleStruct | struct =>
          exact elements_of_not_under h hnamed rfl rfl
      | none => exact absurd rfl hnone
      | some v => exact absurd rfl (hsome v)
      | unitVariant name variant => exact absurd rfl (hunit name variant)
      | newtypeVariant name variant v => exact absurd rfl (hnewtype name variant v)
      | tupleVariant name variant vs => exact absurd rfl (htuple name variant vs)
      | structVariant name variant fields => exact absurd rfl (hstruct name variant fields)
      | _ => exact elements_element? _ rfl h

/-- What is written of a value is a row of elements of one name. -/
theorem elements_print? {v : Value} {text : List Char} (h : print? v = some text) :
    Elements (rootNameOf v) (rootCount v) text := by
  obtain ⟨plain, hplain, rfl⟩ := Option.map_eq_some_iff.mp h
  refine Elements.protectEdges ?_
  cases hnamed : named? v with
  | none =>
      rw [hnamed, Option.none_or] at hplain
      exact elements_unnamed? hnamed hplain
  | some written =>
      rw [hnamed] at hplain
      obtain rfl : written = plain := Option.some.inj hplain
      exact elements_named? hnamed

end AppServer.Xml
