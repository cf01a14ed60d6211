import AppServer.Proofs.Json.Values
import AppServer.Proofs.Negotiation.RoundTrip
import AppServer.Proofs.Xml.Roots
import Mathlib.Data.List.TakeWhile

/-!
# A body as a document

What is written in XML is a row of root elements, and it is a document just if there is one of them.
What follows the document of a struct makes a body malformed in JSON, unless it is blank; in XML it is
not looked at.
-/

namespace AppServer.Negotiation

open AppServer.Data AppServer.Text

namespace Provider

/-- What a provider for XML writes is what is printed. -/
theorem print?_of_encode_xml {v : Value} {body : ByteArray} (h : xml.encode v = .ok body) :
    ∃ text, Xml.print? v = some text ∧ body = (String.ofList text).toUTF8 := by
  cases hprint : Xml.print? v with
  | none =>
      have hrender : Xml.render? v = none := by
        rw [Xml.render?, hprint]
        rfl
      simp only [xml, hrender] at h
      cases h
  | some text =>
      rw [encode_xml hprint] at h
      exact ⟨text, rfl, (Except.ok.inj h).symm⟩

/-- A written body has as many root elements as its value counts for, all of one name, so it is a
single element just if the value counts for one. -/
theorem encode_xml_roots {v : Value} {body : ByteArray} (h : xml.encode v = .ok body) :
    ∃ text : String, body = text.toUTF8 ∧
      Xml.Elements (Xml.rootNameOf v) (Xml.rootCount v) text.toList ∧
      (∃ ns, Xml.nodes? text.toList = some ns ∧ ns.length = Xml.rootCount v ∧
        ∀ n ∈ ns, n.IsNamed (Xml.rootNameOf v)) ∧
      ∀ name, Xml.Element name text.toList ↔ Xml.rootCount v = 1 ∧ Xml.rootNameOf v = name := by
  obtain ⟨text, hprint, rfl⟩ := print?_of_encode_xml h
  have hroots := Xml.elements_print? hprint
  obtain ⟨ns, hnodes, hlength, hnames⟩ := hroots.nodes?
  refine ⟨String.ofList text, rfl, ?_, ⟨ns, ?_, hlength, hnames⟩, fun name => ?_⟩
  all_goals rw [String.toList_ofList]
  · exact hroots
  · exact hnodes
  · constructor
    · intro hone
      -- the nodes that are read are both the one of this name and those of the value
      obtain ⟨ns', hnodes', hlength', hnames'⟩ := (Xml.Elements.single hone).nodes?
      obtain rfl : ns' = ns := Option.some.inj (hnodes'.symm.trans hnodes)
      refine ⟨hlength.symm.trans hlength', ?_⟩
      obtain ⟨n, rfl⟩ := List.length_eq_one_iff.mp hlength'
      obtain ⟨attributes, children, rfl⟩ := hnames n List.mem_cons_self
      obtain ⟨attributes', children', hnode⟩ := hnames' _ List.mem_cons_self
      cases hnode
      rfl
    · rintro ⟨hcount, rfl⟩
      rw [hcount] at hroots
      exact hroots.element

/-- A struct is one element of its name, whatever it holds. -/
theorem encode_xml_roots_struct :
    ∃ body, xml.encode (.struct "Item" [("id", .int 7), ("tags", .seq [])]) = .ok body ∧
      ∃ text : String, body = text.toUTF8 ∧ Xml.Element "Item".toList text.toList := by
  have hprint : Xml.print? (.struct "Item" [("id", .int 7), ("tags", .seq [])]) =
      some "<Item><id>7</id></Item>".toList := by
    rfl
  have hencode := encode_xml hprint
  obtain ⟨text, hbody, -, -, hone⟩ := encode_xml_roots hencode
  exact ⟨_, hencode, text, hbody, (hone _).mpr ⟨rfl, rfl⟩⟩

/-- An empty sequence is written as no element at all. -/
theorem not_encode_xml_one_root :
    ¬ ∀ (v : Value) (body : ByteArray), xml.encode v = .ok body →
      ∃ (text : String) (name : List Char), body = text.toUTF8 ∧ Xml.Element name text.toList := by
  intro hall
  have hprint : Xml.print? (.seq []) = some [] := rfl
  obtain ⟨text, name, hbody, hone⟩ := hall _ _ (encode_xml hprint)
  have htext : String.ofList [] = text := String.toByteArray_inj.mp hbody
  rw [← htext, String.toList_ofList] at hone
  cases hone

/-! ## What follows a struct -/

theorem print?_of_encode_json {v : Value} {body : ByteArray} (h : json.encode v = .ok body) :
    ∃ text, Json.print? v = some text ∧ body = (String.ofList text).toUTF8 := by
  cases hprint : Json.print? v with
  | none =>
      have hrender : Json.render? v = none := by
        rw [Json.render?, hprint]
        rfl
      simp only [json, hrender] at h
      cases h
  | some text =>
      rw [encode_json hprint] at h
      exact ⟨text, rfl, (Except.ok.inj h).symm⟩

/-- A character that is not blank keeps a text from being skipped. -/
theorem skipBlank_utf8 {cs : List Char} (h : ∃ c ∈ cs, Xml.isSpace c = false) :
    (Json.Tree.skipBlank (utf8 cs)).isEmpty = false := by
  have hbyte : ∃ b ∈ utf8 cs, ¬ Json.Tree.isBlankByte b = true := by
    obtain ⟨c, hc, hspace⟩ := h
    by_cases hascii : c.toNat < 128
    · refine ⟨_, mem_utf8 hascii hc, fun hblank => ?_⟩
      have hvalue : (UInt8.ofNat c.toNat).toNat = c.toNat := by
        rw [UInt8.toNat_ofNat']
        omega
      simp only [Json.Tree.isBlankByte, Bool.or_eq_true, beq_iff_eq, ← UInt8.toNat_inj,
        hvalue] at hblank
      rw [Bool.eq_false_iff] at hspace
      refine hspace (Xml.isSpace_iff.mpr ?_)
      simp only [← Char.toNat_inj]
      rcases hblank with ((h | h) | h) | h <;> rw [h] <;> decide
    · obtain ⟨b, hb⟩ := List.exists_mem_of_ne_nil _ (String.utf8EncodeChar_ne_nil (c := c))
      have hlarge := le_of_mem_utf8EncodeChar (Nat.le_of_not_lt hascii) hb
      refine ⟨b, List.mem_flatMap.mpr ⟨c, hc, hb⟩, fun hblank => ?_⟩
      simp only [Json.Tree.isBlankByte, Bool.or_eq_true, beq_iff_eq] at hblank
      rcases hblank with ((rfl | rfl) | rfl) | rfl <;> exact absurd hlarge (by decide)
  obtain ⟨b, hb, hblank⟩ := hbyte
  rw [Bool.eq_false_iff, ne_eq, List.isEmpty_iff, Json.Tree.skipBlank, List.dropWhile_eq_nil_iff]
  exact fun hall => hblank (hall b hb)

variable {name : String} {fields : List (String × Value)} {body : ByteArray}

/-- What follows a struct in JSON makes the body malformed, unless it is blank. -/
theorem decode_json_append (h : json.encode (.struct name fields) = .ok body) {t : String}
    (ht : ∃ c ∈ t.toList, Xml.isSpace c = false) (s : Shape) :
    ∃ detail, json.decode s (body ++ t.toUTF8) = .error (.decode detail) := by
  obtain ⟨text, hprint, rfl⟩ := print?_of_encode_json h
  obtain ⟨tree, htree⟩ := Json.ofBytes?_struct_append hprint
  have hread : Json.read? s ((String.ofList text).toUTF8 ++ t.toUTF8) = none := by
    rw [← toUTF8_append, Json.read?, toList_toUTF8, String.toList_append, String.toList_ofList,
      utf8_append, htree, skipBlank_utf8 ht]
    rfl
  have hdecode : json.decode s ((String.ofList text).toUTF8 ++ t.toUTF8) =
      .error (.decode "the body is not the JSON that was expected") := by
    simp only [json, hread]
  exact ⟨_, hdecode⟩

/-- A struct is read from the first node, and no further. -/
theorem read?_struct_of_isRead {cs : List Char} {n : Xml.Node} {evs : List Xml.Event}
    (h : Xml.IsRead cs n evs) (t item : String) (items : List (String × Shape × Presence)) :
    Xml.read? (.struct item items) ((String.ofList cs).toUTF8 ++ t.toUTF8) =
      Xml.ofNode? (.struct item items) n := by
  rw [← toUTF8_append, Xml.read?, fromUTF8?_toUTF8]
  show Xml.ofDocument? (.struct item items) (String.ofList cs ++ t).toList = _
  rw [String.toList_append, String.toList_ofList]
  show (Xml.Node.first? (Xml.events (cs ++ t.toList))).bind _ = _
  rw [h.first?]
  rfl

/-- What follows a struct in XML is not looked at. -/
theorem decode_xml_append (h : xml.encode (.struct name fields) = .ok body) (t item : String)
    (items : List (String × Shape × Presence)) :
    xml.decode (.struct item items) (body ++ t.toUTF8) = xml.decode (.struct item items) body := by
  obtain ⟨text, hprint, rfl⟩ := print?_of_encode_xml h
  have hroot := (Xml.elements_print? hprint).element
  obtain ⟨attributes, children, evs, hread⟩ := hroot.isRead
  have hempty : (String.ofList text).toUTF8 = (String.ofList text).toUTF8 ++ "".toUTF8 := by
    rw [← toUTF8_append, String.append_empty]
  have hsame : Xml.read? (.struct item items) ((String.ofList text).toUTF8 ++ t.toUTF8) =
      Xml.read? (.struct item items) (String.ofList text).toUTF8 := by
    rw [read?_struct_of_isRead hread, hempty, read?_struct_of_isRead hread]
  simp only [xml, hsame]

theorem decodeAs_json_append (h : json.encode (.struct name fields) = .ok body) {t : String}
    (ht : ∃ c ∈ t.toList, Xml.isSpace c = false) (β : Type) [OfValue β] :
    ∃ detail, json.decodeAs β (body ++ t.toUTF8) = .error (.decode detail) := by
  obtain ⟨detail, hdecode⟩ := decode_json_append h ht (shape β)
  refine ⟨detail, ?_⟩
  rw [decodeAs, decodeShape, hdecode]
  rfl

theorem decodeAs_xml_append {β : Type} [OfValue β]
    (h : xml.encode (.struct name fields) = .ok body) (t : String) {item : String}
    {items : List (String × Shape × Presence)} (hshape : shape β = .struct item items) :
    xml.decodeAs β (body ++ t.toUTF8) = xml.decodeAs β body := by
  have hdecode := decode_xml_append h t item items
  rw [decodeAs, decodeAs, decodeShape, decodeShape, hshape, hdecode]

end Provider

end AppServer.Negotiation
