import AppServer.Negotiation.Builtin
import AppServer.Proofs.Json.Records
import AppServer.Proofs.Xml.Records

/-!
# What is written is read back

Both built-in providers read a record back from the body that they write for it. In JSON any name
will do for a field; in XML it has to be the name of an element, without a prefix.
-/

namespace AppServer.Negotiation

open AppServer.Data AppServer.Text

namespace Provider

variable {l : RecordLayout}

/-- A provider that reads the structured form of something reads it. -/
theorem decodeAs_of_decode {α : Type} [OfValue α] {p : Provider} {body : ByteArray} {v : Value}
    {a : α} (h : p.decode (shape α) body = .ok (some v)) (hv : ofValue? v = some a) :
    p.decodeAs α body = .ok a := by
  have hshape : p.decodeShape (shape α) body = .ok v := by
    rw [decodeShape, h]
    rfl
  rw [decodeAs, hshape]
  simp only [bind, Except.bind, hv]

theorem encode_json {v : Value} {text : List Char} (h : Json.print? v = some text) :
    json.encode v = .ok (String.ofList text).toUTF8 := by
  have hrender : Json.render? v = some (String.ofList text) := by
    rw [Json.render?, h]
    rfl
  simp only [json, hrender]

theorem decode_json {s : Shape} {body : ByteArray} {v : Value} (h : Json.read? s body = some v) :
    json.decode s body = .ok (some v) := by
  simp only [json, h]

theorem encode_xml {v : Value} {text : List Char} (h : Xml.print? v = some text) :
    xml.encode v = .ok (String.ofList text).toUTF8 := by
  have hrender : Xml.render? v = some (String.ofList text) := by
    rw [Xml.render?, h]
    rfl
  simp only [xml, hrender]

theorem decode_xml {s : Shape} {body : ByteArray} {v : Value} (h : Xml.read? s body = some v) :
    xml.decode s body = .ok (some v) := by
  simp only [xml, h]

/-- From the body that is written for a record, its structured form is read. -/
theorem decode_json_record (r : Record l) {body : ByteArray}
    (hencode : json.encode (toValue r) = .ok body) :
    json.decode (shape (Record l)) body = .ok (some (toValue r)) := by
  rw [encode_json (Json.print?_toValue r)] at hencode
  obtain rfl := Except.ok.inj hencode
  refine decode_json (Json.read?_record r ?_)
  rw [toList_toUTF8, String.toList_ofList]

theorem decode_xml_record (r : Record l) (h : ∀ e ∈ r.cells, Xml.IsElementName e.1)
    {body : ByteArray} (hencode : xml.encode (toValue r) = .ok body) :
    xml.decode (shape (Record l)) body = .ok (some (toValue r)) := by
  rw [encode_xml (Xml.print?_toValue r h),
    Xml.protectEdges_record (Xml.isName_recordName l) h] at hencode
  obtain rfl := Except.ok.inj hencode
  refine decode_xml (Xml.read?_record r h [] ?_)
  rw [fromUTF8?_toUTF8, List.append_nil]

/-- Whichever of the built-in providers writes a record reads its structured form back. -/
theorem exists_encode_record (r : Record l) (h : ∀ e ∈ r.cells, Xml.IsElementName e.1)
    {p : Provider} (hp : p ∈ Registry.standard.providers) :
    ∃ body, p.encode (toValue r) = .ok body ∧
      p.decode (shape (Record l)) body = .ok (some (toValue r)) := by
  rcases List.mem_pair.mp hp with rfl | rfl
  · have hencode := encode_json (Json.print?_toValue r)
    exact ⟨_, hencode, decode_json_record r hencode⟩
  · have hencode := encode_xml (Xml.print?_toValue r h)
    exact ⟨_, hencode, decode_xml_record r h hencode⟩

/-- Whatever a record holds, it is what its body is decoded to. -/
theorem decodeAs_encode (r : Record l) :
    (∃ body, json.encode (toValue r) = .ok body ∧ json.decodeAs (Record l) body = .ok r) ∧
    ((∀ f ∈ l.fields, Xml.IsElementName f.1) →
      ∃ body, xml.encode (toValue r) = .ok body ∧ xml.decodeAs (Record l) body = .ok r) := by
  refine ⟨?_, fun hnames => ?_⟩
  · have hencode := encode_json (Json.print?_toValue r)
    exact ⟨_, hencode, decodeAs_of_decode (decode_json_record r hencode) r.ofValue?_toValue⟩
  · have hcells : ∀ e ∈ r.cells, Xml.IsElementName e.1 := by
      intro e he
      refine hnames (e.1, e.2.kind) ?_
      rw [← r.fits]
      exact List.mem_map.mpr ⟨e, he, rfl⟩
    have hencode := encode_xml (Xml.print?_toValue r hcells)
    exact ⟨_, hencode,
      decodeAs_of_decode (decode_xml_record r hcells hencode) r.ofValue?_toValue⟩

/-- A text, a number and a truth value. -/
def itemLayout : RecordLayout :=
  ⟨"Item", [("id", .text), ("count", .nat32), ("active", .bool)], by decide⟩

/-- Markup, what looks like a reference, and whitespace at the edges. -/
def item : Record itemLayout :=
  ⟨[("id", .text " <a>&amp;\r\n é "), ("count", .nat32 4294967295), ("active", .bool true)], rfl⟩

theorem decodeAs_encode_item :
    ∃ jsonBody xmlBody, json.encode (toValue item) = .ok jsonBody ∧
      json.decodeAs (Record itemLayout) jsonBody = .ok item ∧
      xml.encode (toValue item) = .ok xmlBody ∧
      String.fromUTF8? xmlBody = some ("<Item><id>&#32;&lt;a&gt;&amp;amp;&#13;\n é&#32;</id>" ++
        "<count>4294967295</count><active>true</active></Item>") ∧
      xml.decodeAs (Record itemLayout) xmlBody = .ok item := by
  have hall : ∀ f ∈ itemLayout.fields, Xml.isName f.1.toList = true ∧ ':' ∉ f.1.toList := by
    decide
  have hnames : ∀ f ∈ itemLayout.fields, Xml.IsElementName f.1 :=
    fun f hf => ⟨(hall f hf).1, (hall f hf).2⟩
  obtain ⟨⟨jsonBody, hjson, hjsonRead⟩, hxml⟩ := decodeAs_encode item
  obtain ⟨xmlBody, hencode, hread⟩ := hxml hnames
  refine ⟨jsonBody, xmlBody, hjson, hjsonRead, hencode, ?_, hread⟩
  have hprint : Xml.print? (toValue item) =
      some ("<Item><id>&#32;&lt;a&gt;&amp;amp;&#13;\n é&#32;</id>" ++
        "<count>4294967295</count><active>true</active></Item>").toList := by
    rfl
  rw [encode_xml hprint] at hencode
  obtain rfl := Except.ok.inj hencode
  rw [fromUTF8?_toUTF8, String.ofList_toList]

end Provider

end AppServer.Negotiation
