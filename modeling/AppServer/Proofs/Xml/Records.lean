import AppServer.Proofs.Data.Record
import AppServer.Proofs.Number.Digits
import AppServer.Proofs.Xml.Edges
import AppServer.Proofs.Xml.Tags
import AppServer.Xml.Reader

/-!
# Records written and read as XML

A record is an element with a child for each field, and each child holds the text of its field, with
markup escaped and whitespace protected. Reading goes the same way back: the tags become one element,
the texts of its children are trimmed without losing anything, and each field of the shape finds the
child of its name. The names of the fields have to be names of elements, without a prefix.
-/

namespace AppServer.Xml

open AppServer.Data AppServer.Number

/-- A name that an element can have, without a prefix. -/
structure IsElementName (name : String) : Prop where
  isName : isName name.toList = true
  unprefixed : ':' ∉ name.toList

/-- What a field's content is written as. -/
def cellText : Cell → String
  | .text s => s
  | .nat32 n => String.ofList (digitsOf n.toNat)
  | .bool b => if b then "true" else "false"

/-- The child element of a field before its whitespace is protected. -/
def cellElement (e : String × Cell) : List Char :=
  textElement e.1.toList (escape .content (cellText e.2))

/-- The text of a field as it is written. -/
def shieldedText (e : String × Cell) : List Char :=
  protectText (escape .content (cellText e.2))

/-- The child element of a field as it is written. -/
def shieldedElement (e : String × Cell) : List Char :=
  textElement e.1.toList (shieldedText e)

/-! ## Escaped text -/

theorem escapeChar_of_plain {c : Char} (hamp : c ≠ '&') (hlt : c ≠ '<') (hgt : c ≠ '>') :
    escapeChar .content c = [c] := by
  unfold escapeChar
  split <;> simp_all

theorem escape_of_plain {s : String} (h : ∀ c ∈ s.toList, c ≠ '&' ∧ c ≠ '<' ∧ c ≠ '>') :
    escape .content s = s.toList := by
  unfold escape
  generalize s.toList = cs at h
  induction cs with
  | nil => rfl
  | cons c cs ih =>
      obtain ⟨⟨hamp, hlt, hgt⟩, hcs⟩ := List.forall_mem_cons.mp h
      rw [List.flatMap_cons, escapeChar_of_plain hamp hlt hgt, ih hcs]
      rfl

theorem escape_eq_nil_iff {s : String} : escape .content s = [] ↔ s = "" := by
  constructor
  · intro h
    unfold escape at h
    cases hs : s.toList with
    | nil => exact String.toList_eq_nil_iff.mp hs
    | cons c cs =>
        rw [hs, List.flatMap_cons, List.append_eq_nil_iff] at h
        have hchar := h.1
        unfold escapeChar at hchar
        split at hchar <;> cases hchar
  · rintro rfl
    rfl

theorem lt_notMem_escape (s : String) : '<' ∉ escape .content s := by
  intro h
  obtain ⟨c, -, hc⟩ := List.mem_flatMap.mp h
  unfold escapeChar at hc
  split at hc
  case h_5 _ hlt _ _ => exact hlt (List.mem_singleton.mp hc).symm
  all_goals exact absurd hc (by decide)

theorem resolveFrom_escapeChar (c : Char) (done rest : List Char) :
    resolveFrom none done (escapeChar .content c ++ rest) = resolveFrom none (c :: done) rest := by
  unfold escapeChar
  split
  case h_5 hamp _ _ _ => exact resolveFrom_plain hamp done rest
  all_goals rfl

/-- An escaped text is resolved to itself. -/
theorem resolve?_escape (s : String) : resolve? (escape .content s) = some s.toList := by
  have hfrom : ∀ (cs done : List Char),
      resolveFrom none done (cs.flatMap (escapeChar .content)) = some (done.reverse ++ cs) := by
    intro cs
    induction cs with
    | nil =>
        intro done
        rw [List.append_nil]
        rfl
    | cons c cs ih =>
        intro done
        rw [List.flatMap_cons, resolveFrom_escapeChar, ih, List.reverse_cons, List.append_assoc]
        rfl
  exact hfrom s.toList []

/-! ## Writing -/

theorem toString_digits_plain (n : Nat) :
    ∀ c ∈ (String.ofList (digitsOf n)).toList, c ≠ '&' ∧ c ≠ '<' ∧ c ≠ '>' := by
  intro c hc
  rw [String.toList_ofList] at hc
  have hdigit := isDigit_of_mem_digitsOf hc
  refine ⟨?_, ?_, ?_⟩ <;> rintro rfl <;> cases hdigit

theorem element?_value (name : List Char) (c : Cell) :
    element? name c.value = some (textElement name (escape .content (cellText c))) := by
  cases c with
  | text s =>
      rw [Cell.value, element?, cellText]
      by_cases hs : s = ""
      · subst hs
        rfl
      · have hfull : escape .content s ≠ [] := mt escape_eq_nil_iff.mp hs
        rw [textElement_of_ne_nil name hfull, if_neg (by simpa using hs)]
  | nat32 n =>
      have hint : int (n.toNat : Int) = digitsOf n.toNat := by
        rw [int, if_neg (by omega), Int.natAbs_natCast]
      have hescape : escape .content (cellText (.nat32 n)) = digitsOf n.toNat := by
        rw [cellText, escape_of_plain (toString_digits_plain _), String.toList_ofList]
      rw [hescape, textElement_of_ne_nil name (digitsOf_ne_nil _), Cell.value, element?, scalar?,
        hint]
      rfl
  | bool b =>
      cases b <;> rfl

theorem field?_element {key : List Char} (h : isName key = true) (v : Value)
    (content : Option (List Char)) (child : List Char) :
    field? key v content (some child) = some ⟨[], child⟩ := by
  unfold field?
  split
  · cases h
  · have htext : key ≠ "$text".toList := by
      rintro rfl
      cases h
    have hvalue : key ≠ "$value".toList := by
      rintro rfl
      cases h
    rw [if_neg htext, if_neg hvalue, if_pos h]
    rfl

theorem fields?_map {cells : List (String × Cell)} (h : ∀ e ∈ cells, IsElementName e.1) :
    fields? (cells.map fun e => (e.1, e.2.value)) = some ⟨[], cells.flatMap cellElement⟩ := by
  induction cells with
  | nil => simp only [List.map_nil, fields?, List.flatMap_nil]
  | cons e rest ih =>
      obtain ⟨he, hrest⟩ := List.forall_mem_cons.mp h
      simp only [List.map_cons, fields?, element?_value, field?_element he.isName, ih hrest,
        List.flatMap_cons]
      rfl

/-- The name of the element around a record. -/
def recordName (l : RecordLayout) : List Char :=
  if isName l.name.toList then l.name.toList else rootName.toList

theorem isName_recordName (l : RecordLayout) : isName (recordName l) = true := by
  unfold recordName
  split
  · assumption
  · rfl

theorem element_children (name children : List Char) :
    element name ⟨[], children⟩ = textElement name children := by
  simp [element, textElement, emptyElement, wrap]

theorem print?_toValue {l : RecordLayout} (r : Record l) (h : ∀ e ∈ r.cells, IsElementName e.1) :
    print? (toValue r) =
      some (protectEdges (textElement (recordName l) (r.cells.flatMap cellElement))) := by
  have helement : ∀ name, element? name (toValue r) =
      some (textElement name (r.cells.flatMap cellElement)) := by
    intro name
    show element? name (.struct l.name (r.cells.map fun e => (e.1, e.2.value))) = _
    rw [element?, fields?_map h, Option.map_some, element_children]
  have hnamed : (named? (toValue r)).or (unnamed? (toValue r)) =
      some (textElement (recordName l) (r.cells.flatMap cellElement)) := by
    show (if isName l.name.toList then element? l.name.toList (toValue r) else none).or
      (element? rootName.toList (toValue r)) = _
    unfold recordName
    split
    · rw [helement]
      rfl
    · rw [helement]
      rfl
  rw [print?, hnamed]
  rfl

/-! ## Protecting -/

theorem protectEdges_emptyElement {name : List Char} (hname : isName name = true)
    (rest : List Char) :
    protectEdges (emptyElement name ++ rest) = emptyElement name ++ protectEdges rest := by
  have htag : '>' ∉ name ++ ['/'] := by
    simpa using notMem_of_isName hname (d := '>') rfl
  simpa [emptyElement] using protectEdges_lt htag rest

/-- The tags of an element are kept. -/
theorem protectEdges_wrap {name content shielded rest : List Char} (hname : isName name = true)
    (h : protectEdges (content ++ '<' :: ('/' :: name ++ '>' :: rest)) =
      shielded ++ '<' :: ('/' :: name ++ '>' :: protectEdges rest)) :
    protectEdges (wrap name content ++ rest) = wrap name shielded ++ protectEdges rest := by
  have hbracket : '>' ∉ name := notMem_of_isName hname rfl
  have hstart := protectEdges_lt hbracket (content ++ '<' :: ('/' :: name ++ '>' :: rest))
  rw [h] at hstart
  simpa [wrap] using hstart

theorem gt_notMem_endTag {name : List Char} (hname : isName name = true) : '>' ∉ '/' :: name := by
  simpa using notMem_of_isName hname (d := '>') rfl

theorem protectEdges_textElement {name text : List Char} (hname : isName name = true)
    (htext : '<' ∉ text) (rest : List Char) :
    protectEdges (textElement name text ++ rest) =
      textElement name (protectText text) ++ protectEdges rest := by
  by_cases hempty : text = []
  · subst hempty
    exact protectEdges_emptyElement hname rest
  · have hfull : protectText text ≠ [] := mt protectText_eq_nil_iff.mp hempty
    rw [textElement_of_ne_nil name hempty, textElement_of_ne_nil name hfull]
    exact protectEdges_wrap hname (protectEdges_tag htext (gt_notMem_endTag hname) rest)

theorem protectEdges_children {cells : List (String × Cell)}
    (h : ∀ e ∈ cells, IsElementName e.1) (rest : List Char) :
    protectEdges (cells.flatMap cellElement ++ rest) =
      cells.flatMap shieldedElement ++ protectEdges rest := by
  induction cells with
  | nil => rfl
  | cons e more ih =>
      obtain ⟨he, hmore⟩ := List.forall_mem_cons.mp h
      rw [List.flatMap_cons, List.append_assoc, cellElement,
        protectEdges_textElement he.isName (lt_notMem_escape _), ih hmore, List.flatMap_cons,
        List.append_assoc]
      rfl

theorem flatMap_textElement_ne_nil {cells : List (String × Cell)} (hne : cells ≠ [])
    (text : String × Cell → List Char) :
    (cells.flatMap fun e => textElement e.1.toList (text e)) ≠ [] := by
  obtain ⟨e, more, rfl⟩ := List.exists_cons_of_ne_nil hne
  obtain ⟨inside, hcons⟩ := textElement_eq_cons e.1.toList (text e)
  rw [List.flatMap_cons, hcons]
  exact List.cons_ne_nil _ _

/-- Only the texts of the fields are changed. -/
theorem protectEdges_record {name : List Char} (hname : isName name = true)
    {cells : List (String × Cell)} (h : ∀ e ∈ cells, IsElementName e.1) :
    protectEdges (textElement name (cells.flatMap cellElement)) =
      textElement name (cells.flatMap shieldedElement) := by
  rw [← List.append_nil (textElement name (cells.flatMap cellElement))]
  by_cases hne : cells = []
  · subst hne
    rw [List.flatMap_nil, textElement_nil, protectEdges_emptyElement hname]
    simp
  · have hfull : cells.flatMap cellElement ≠ [] := flatMap_textElement_ne_nil hne _
    have hfull' : cells.flatMap shieldedElement ≠ [] := flatMap_textElement_ne_nil hne _
    have hend := protectEdges_lt (gt_notMem_endTag hname) []
    rw [textElement_of_ne_nil name hfull, textElement_of_ne_nil name hfull',
      protectEdges_wrap hname ((protectEdges_children h _).trans (congrArg _ hend))]
    simp

/-! ## Reading the tags -/

/-- What is read of a field. -/
def cellEvents (e : String × Cell) : List Event :=
  elementEvents e.1.toList (shieldedText e)

/-- What is read of a record in an element. -/
def recordEvents (name : List Char) (cells : List (String × Cell)) : List Event :=
  .start name [] :: (cells.flatMap cellEvents ++ [.finish])

theorem reads_children {cells : List (String × Cell)} (h : ∀ e ∈ cells, IsElementName e.1)
    (opened : List (List Char)) (rest : List Char) :
    Reads (2 * cells.length) opened (cells.flatMap shieldedElement ++ rest)
      (cells.flatMap cellEvents) opened rest := by
  induction cells with
  | nil => exact .refl opened rest
  | cons e more ih =>
      obtain ⟨he, hmore⟩ := List.forall_mem_cons.mp h
      have htext : '<' ∉ shieldedText e := lt_notMem_protectText (lt_notMem_escape _)
      have hfirst := Reads.textElement he.isName opened (more.flatMap shieldedElement ++ rest) htext
      rw [List.flatMap_cons, List.flatMap_cons, List.append_assoc]
      exact (hfirst.trans (ih hmore)).mono (by rw [List.length_cons]; omega)

theorem reads_record {name : List Char} (hname : isName name = true)
    {cells : List (String × Cell)} (h : ∀ e ∈ cells, IsElementName e.1) (rest : List Char) :
    Reads (2 * cells.length + 2) [] (textElement name (cells.flatMap shieldedElement) ++ rest)
      (recordEvents name cells) [] rest := by
  by_cases hne : cells = []
  · subst hne
    exact (Reads.empty hname [] rest).mono (Nat.le_succ 1)
  · have hfull : cells.flatMap shieldedElement ≠ [] := flatMap_textElement_ne_nil hne _
    have hend := Reads.markup List.not_mem_nil (markup?_end hname [] rest)
    have hinside := (reads_children h [name] ('<' :: '/' :: (name ++ '>' :: rest))).trans hend
    rw [textElement_of_ne_nil name hfull]
    exact (Reads.wrap hname [] rest hinside).mono (by omega)

theorem length_le_children (cells : List (String × Cell)) :
    2 * cells.length ≤ (cells.flatMap shieldedElement).length := by
  induction cells with
  | nil => exact Nat.le_refl 0
  | cons e more ih =>
      have helement : (shieldedText e).length + 2 ≤ (shieldedElement e).length :=
        length_le_textElement _ _
      rw [List.flatMap_cons, List.length_append, List.length_cons]
      omega

/-- A record at the start of a document is read, whatever follows it. -/
theorem events_record {name : List Char} (hname : isName name = true)
    {cells : List (String × Cell)} (h : ∀ e ∈ cells, IsElementName e.1) (rest : List Char) :
    ∃ tail, events (textElement name (cells.flatMap shieldedElement) ++ rest) =
      recordEvents name cells ++ tail := by
  have hreads := reads_record hname h rest
  have hlength := length_le_textElement name (cells.flatMap shieldedElement)
  have hchildren := length_le_children cells
  obtain ⟨inside, hinside⟩ := textElement_eq_cons name (cells.flatMap shieldedElement)
  rw [hinside, List.length_cons] at hlength
  rw [hinside, List.cons_append] at hreads ⊢
  obtain ⟨left, hevents⟩ := hreads.events_eq_readEvents (by rw [List.length_append]; omega)
  exact ⟨_, hevents⟩

/-! ## From tags to a tree -/

/-- What an element with text holds. -/
def textNodes (text : List Char) : List Node :=
  if text.isEmpty then [] else [.text [.raw text]]

/-- The tree of a field. -/
def cellNode (e : String × Cell) : Node :=
  .element e.1.toList [] (textNodes (shieldedText e))

theorem readChildren_text (cs : List Char) (fuel : Nat) (rest : List Event) :
    Node.readChildren (fuel + 1) [] (textEvents (protectText cs) ++ .finish :: rest) =
      some (textNodes (protectText cs), rest) := by
  by_cases hcs : cs = []
  · subst hcs
    rfl
  · have hfull : ¬ (protectText cs).isEmpty = true := by
      simpa using mt protectText_eq_nil_iff.mp hcs
    have hrun : Node.ofRun? [.raw (protectText cs)] = some (.text [.raw (protectText cs)]) := by
      rw [Node.ofRun?, trimRun_protectText hcs]
    rw [textEvents, if_neg hfull, textNodes, if_neg hfull, List.singleton_append,
      Node.readChildren]
    simp only [Node.takeRun, hrun]
    rfl

theorem readChildren_cell (e : String × Cell) (fuel : Nat) (done : List Node) (rest : List Event) :
    Node.readChildren (fuel + 2) done (cellEvents e ++ rest) =
      Node.readChildren (fuel + 1) (cellNode e :: done) rest := by
  have hinside : Node.readChildren (fuel + 1) [] (textEvents (shieldedText e) ++ .finish :: rest) =
      some (textNodes (shieldedText e), rest) := readChildren_text _ fuel rest
  have hevents : cellEvents e ++ rest = .start e.1.toList [] ::
      (textEvents (shieldedText e) ++ .finish :: rest) := by
    simp [cellEvents, elementEvents]
  have hblank : Node.ofRun? [] = none := rfl
  rw [hevents, Node.readChildren]
  simp only [Node.takeRun, hblank, hinside, cellNode]

theorem readChildren_record (cells : List (String × Cell)) (fuel : Nat) (done : List Node)
    (rest : List Event) :
    Node.readChildren (fuel + cells.length + 1) done
        (cells.flatMap cellEvents ++ .finish :: rest) =
      some (done.reverse ++ cells.map cellNode, rest) := by
  induction cells generalizing done with
  | nil =>
      rw [List.map_nil, List.append_nil]
      rfl
  | cons e more ih =>
      rw [List.flatMap_cons, List.append_assoc]
      show Node.readChildren (fuel + more.length + 2) done _ = _
      rw [readChildren_cell, ih, List.reverse_cons, List.append_assoc]
      rfl

/-- The first tree of a document that a record starts. -/
theorem first?_record (name : List Char) (cells : List (String × Cell)) (tail : List Event) :
    Node.first? (recordEvents name cells ++ tail) =
      some (.element name [] (cells.map cellNode)) := by
  have hlength : cells.length ≤ (cells.flatMap cellEvents).length := by
    induction cells with
    | nil => exact Nat.le_refl 0
    | cons e more ih =>
        rw [List.flatMap_cons, List.length_append, List.length_cons, cellEvents, elementEvents,
          List.length_cons]
        omega
  have hblank : Node.ofRun? [] = none := rfl
  have hread : Node.readChildren ((cells.flatMap cellEvents ++ .finish :: tail).length + 1) []
      (cells.flatMap cellEvents ++ .finish :: tail) = some (cells.map cellNode, tail) := by
    obtain ⟨spare, hspare⟩ : ∃ spare,
        (cells.flatMap cellEvents ++ .finish :: tail).length = spare + cells.length :=
      ⟨_, (Nat.sub_add_cancel (by rw [List.length_append]; omega)).symm⟩
    rw [hspare, readChildren_record]
    rfl
  have hevents : recordEvents name cells ++ tail =
      .start name [] :: (cells.flatMap cellEvents ++ .finish :: tail) := by
    simp [recordEvents]
  rw [hevents, Node.first?, List.length_cons, Node.next]
  simp only [Node.takeRun, hblank, hread]

/-! ## From a tree to values -/

theorem contentText?_textNodes (s : String) :
    contentText? (textNodes (protectText (escape .content s))) = some s := by
  by_cases hs : s = ""
  · subst hs
    rfl
  · have hfull : protectText (escape .content s) ≠ [] :=
      mt protectText_eq_nil_iff.mp (mt escape_eq_nil_iff.mp hs)
    have hnodes : textNodes (protectText (escape .content s)) =
        [.text [.raw (protectText (escape .content s))]] := if_neg (by simpa using hfull)
    rw [hnodes, contentText?, runText?]
    simp [Piece.text?, resolve?_protectText, resolve?_escape]

theorem ofText?_cell (c : Cell) : ofText? c.kind.shape (cellText c) = some c.value := by
  cases c with
  | text s => rfl
  | nat32 n =>
      have hbound : n.toNat ≤ Shape.greatestNat32 := Nat.le_sub_one_of_lt n.toNat_lt_size
      simp only [Cell.kind, Kind.shape, ofText?, cellText, String.toList_ofList,
        readNat_digitsOf hbound]
      rfl
  | bool b => cases b <;> rfl

theorem ofNode?_element (k : Kind) (name attributes : List Char) (children : List Node) :
    ofNode? k.shape (.element name attributes children) =
      (contentText? children).bind (ofText? k.shape) := by
  cases k <;>
    simp only [Kind.shape, ofNode?] <;> rfl

/-- Each field is read from its element. -/
theorem ofNode?_cell (e : String × Cell) :
    ofNode? e.2.kind.shape (cellNode e) = some e.2.value := by
  have hcontent : contentText? (textNodes (shieldedText e)) = some (cellText e.2) :=
    contentText?_textNodes _
  rw [cellNode, ofNode?_element, hcontent]
  exact ofText?_cell e.2

theorem localName_of_unprefixed {name : List Char} (h : ':' ∉ name) : localName name = name := by
  have hnone : name.dropWhile (· != ':') = [] := by
    refine List.dropWhile_eq_nil_iff.mpr fun c hc => ?_
    rw [bne_iff_ne]
    rintro rfl
    exact h hc
  rw [localName, hnone]

theorem isListShape_shape (k : Kind) : isListShape k.shape = false := by
  cases k <;> rfl

theorem isListField_fields (cells : List (String × Cell)) (key : String) :
    isListField (cells.map fun e => (e.1, e.2.kind.shape, .required)) key = false := by
  rw [isListField, List.any_eq_false]
  intro f hf
  obtain ⟨e, -, rfl⟩ := List.mem_map.mp hf
  simp [isListShape_shape]

/-- The entry of a field. -/
def cellEntry (e : String × Cell) : String × Entry :=
  (e.1, .nodes [cellNode e])

theorem entriesOf_map {isList : String → Bool} (hlist : ∀ key, isList key = false)
    {cells : List (String × Cell)} (h : ∀ e ∈ cells, IsElementName e.1) (fuel : Nat) :
    entriesOf isList (fuel + cells.length + 1) (cells.map cellNode) =
      some (cells.map cellEntry) := by
  induction cells with
  | nil => rfl
  | cons e more ih =>
      obtain ⟨he, hmore⟩ := List.forall_mem_cons.mp h
      have hrest := ih hmore
      rw [List.map_cons, cellNode, List.length_cons]
      show entriesOf isList ((fuel + more.length + 1) + 1) _ = _
      rw [entriesOf]
      simp only [localName_of_unprefixed he.unprefixed, String.ofList_toList, hlist,
        Bool.false_eq_true, if_false, List.length_nil, List.drop_zero, hrest]
      rfl

theorem ofEntries?_cons (k : Kind) {name : String} {fields : List (String × Shape × Presence)}
    {entries : List (String × Entry)} {n : Node}
    (h : entries.filter (·.1 == name) = [(name, .nodes [n])]) :
    ofEntries? ((name, k.shape, .required) :: fields) entries =
      (ofNode? k.shape n).bind fun v => (ofEntries? fields entries).bind fun vs =>
        some ((name, v) :: vs) := by
  cases k <;>
    rw [ofEntries?.eq_def] <;> simp only [h] <;> rfl

theorem ofEntries?_map {all cells : List (String × Cell)} (hkeys : (all.map Prod.fst).Nodup)
    (hmem : ∀ e ∈ cells, e ∈ all) :
    ofEntries? (cells.map fun e => (e.1, e.2.kind.shape, .required)) (all.map cellEntry) =
      some (cells.map fun e => (e.1, e.2.value)) := by
  -- the fields are taken one by one, each from among all the entries
  induction cells with
  | nil => simp only [List.map_nil, ofEntries?]
  | cons e rest ih =>
      obtain ⟨he, hrest⟩ := List.forall_mem_cons.mp hmem
      have hfilter : (all.map cellEntry).filter (·.1 == e.1) =
          [(e.1, .nodes [cellNode e])] := by
        refine filter_key_of_mem ?_ (List.mem_map.mpr ⟨e, he, rfl⟩)
        rw [List.map_map]
        exact hkeys
      rw [List.map_cons, ofEntries?_cons e.2.kind hfilter, ofNode?_cell, ih hrest]
      rfl

theorem ofDocument?_struct (name : String) (fields : List (String × Shape × Presence))
    (cs : List Char) :
    ofDocument? (.struct name fields) cs =
      (Node.first? (events cs)).bind (ofNode? (.struct name fields)) := rfl

/-- A record is read from its text, whatever follows it. -/
theorem read?_record {l : RecordLayout} (r : Record l) (h : ∀ e ∈ r.cells, IsElementName e.1)
    {body : ByteArray} (rest : List Char)
    (hbody : String.fromUTF8? body = some (String.ofList
      (textElement (recordName l) (r.cells.flatMap shieldedElement) ++ rest))) :
    read? (shape (Record l)) body = some (toValue r) := by
  obtain ⟨tail, htail⟩ := events_record (isName_recordName l) h rest
  have hentries := entriesOf_map (isListField_fields r.cells) h 0
  have hall : (r.cells.map cellEntry).all (fun entry =>
      (r.cells.map fun e => (e.1, e.2.kind.shape, Presence.required)).any (·.1 == entry.1) ||
        skippable entry.2) = true := by
    rw [List.all_eq_true]
    intro entry hentry
    obtain ⟨e, he, rfl⟩ := List.mem_map.mp hentry
    have hfield : ((r.cells.map fun e => (e.1, e.2.kind.shape, Presence.required)).any
        (·.1 == e.1)) = true :=
      List.any_eq_true.mpr ⟨_, List.mem_map.mpr ⟨e, he, rfl⟩, beq_self_eq_true e.1⟩
    simp [cellEntry, hfield]
  have hfirst : Node.first? (events (textElement (recordName l) (r.cells.flatMap shieldedElement) ++
      rest)) = some (.element (recordName l) [] (r.cells.map cellNode)) := by
    rw [htail, first?_record]
  unfold read?
  rw [hbody, r.shape_eq]
  rw [Option.bind_eq_bind, Option.bind_some, String.toList_ofList, ofDocument?_struct, hfirst,
    Option.bind_some, ofNode?]
  have hattributes : attributeEntries? [] = some [] := rfl
  rw [hattributes, List.length_map, ← Nat.zero_add r.cells.length, hentries]
  simp only [Option.bind_eq_bind, Option.bind_some, List.nil_append]
  refine (if_pos hall).trans ?_
  rw [ofEntries?_map r.nodup_names fun _ h => h]
  rfl

end AppServer.Xml
