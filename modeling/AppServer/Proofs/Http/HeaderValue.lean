import AppServer.Http.Headers
import AppServer.Proofs.Text.Utf8

/-!
# Texts as header values

A text of printable ASCII characters is a header value as it stands; tokens, and so the names of
methods, are such texts. Inserting a field leaves exactly one value under its name, and erasing one
leaves the others. A value is read as text just when all its bytes are visible.
-/

namespace AppServer.Http

open AppServer.Text

/-- Characters that are one byte on the wire and no control. -/
def IsPrintable (c : Char) : Prop :=
  0x20 ≤ c.toNat ∧ c.toNat < 0x7F

theorem printable_of_all {cs : List Char}
    (h : (cs.all fun c => 0x20 ≤ c.toNat && c.toNat < 0x7F) = true) :
    ∀ c ∈ cs, IsPrintable c := by
  intro c hc
  simpa [IsPrintable] using List.all_eq_true.mp h c hc

theorem isValueByte_of_printable {c : Char} (h : IsPrintable c) {b : UInt8}
    (hb : b ∈ String.utf8EncodeChar c) : isValueByte b = true := by
  obtain ⟨hlow, hhigh⟩ := h
  have hencode : String.utf8EncodeChar c = [UInt8.ofNat c.toNat] :=
    utf8EncodeChar_of_ascii (by omega)
  rw [hencode, List.mem_singleton] at hb
  subst hb
  simp only [isValueByte, Bool.or_eq_true, Bool.and_eq_true, decide_eq_true_eq, bne_iff_ne]
  left
  constructor
  · rw [UInt8.le_iff_toNat_le, UInt8.toNat_ofNat']
    show 32 ≤ c.toNat % 256
    omega
  · intro heq
    have := congrArg UInt8.toNat heq
    rw [UInt8.toNat_ofNat'] at this
    change c.toNat % 256 = 127 at this
    omega

/-- Printable text may stand in a header. -/
theorem headerValue?_of_printable {s : String} (h : ∀ c ∈ s.toList, IsPrintable c) :
    headerValue? s.toUTF8 = some s.toUTF8 := by
  unfold headerValue?
  rw [if_pos]
  rw [List.all_eq_true, toList_toUTF8]
  intro b hb
  obtain ⟨c, hc, hb⟩ := List.mem_flatMap.mp hb
  exact isValueByte_of_printable (h c hc) hb

theorem printable_of_isTokenChar {c : Char} (h : isTokenChar c = true) : IsPrintable c := by
  unfold isTokenChar at h
  rw [Bool.or_eq_true] at h
  rcases h with h | h
  · change ((decide ('A'.val ≤ c.val ∧ c.val ≤ 'Z'.val) ||
        (decide ('a'.val ≤ c.val) && decide (c.val ≤ 'z'.val))) ||
      (decide ('0'.val ≤ c.val) && decide (c.val ≤ '9'.val))) = true at h
    simp only [Bool.or_eq_true, Bool.and_eq_true, decide_eq_true_eq,
      UInt32.le_iff_toNat_le] at h
    change ((65 ≤ c.toNat ∧ c.toNat ≤ 90) ∨ (97 ≤ c.toNat ∧ c.toNat ≤ 122)) ∨
      (48 ≤ c.toNat ∧ c.toNat ≤ 57) at h
    unfold IsPrintable
    omega
  · rw [List.contains_iff_mem] at h
    exact printable_of_all (by decide) c h

theorem Method.printable_name (m : Method) : ∀ c ∈ m.name.toList, IsPrintable c := by
  intro c hc
  have h := m.isToken_name
  rw [isToken, Bool.and_eq_true, List.all_eq_true] at h
  exact printable_of_isTokenChar (h.2 c hc)

theorem Headers.all_insert_self (h : Headers) (name : String) (value : ByteArray) :
    (h.insert name value).all name = [value] := by
  simp [Headers.insert, Headers.erase, Headers.append, Headers.all, List.filter_filter]

theorem Headers.head?_all (h : Headers) (name : String) : (h.all name).head? = h.first? name := by
  rw [all, first?, List.head?_map, List.head?_filter]

theorem Headers.first?_erase (h : Headers) {name other : String} (hne : other ≠ name) :
    (h.erase name).first? other = h.first? other := by
  rw [first?, first?, erase, List.find?_filter]
  congr 2
  funext e
  by_cases he : e.1 = other <;> simp [he, hne]

/-! ## Values that are visible text -/

theorem toNat_lt_of_visible {b : UInt8} (h : isVisibleByte b = true) : b.toNat < 128 := by
  unfold isVisibleByte at h
  simp only [Bool.or_eq_true, Bool.and_eq_true, decide_eq_true_eq, beq_iff_eq,
    UInt8.lt_iff_toNat_lt] at h
  rcases h with ⟨-, h⟩ | rfl
  · change b.toNat < 127 at h
    omega
  · decide

/-- Bytes below 128 are the characters of the same numbers. -/
theorem utf8EncodeChar_ofNat {b : UInt8} (h : b.toNat < 128) :
    String.utf8EncodeChar (Char.ofNat b.toNat) = [b] := by
  have hval : (Char.ofNat b.toNat).val.toNat = b.toNat := by
    have hvalid : b.toNat.isValidChar := .inl (by omega)
    rw [Char.ofNat, dif_pos hvalid]
    rfl
  have hsmall : b.toNat ≤ 127 := by omega
  simp only [String.utf8EncodeChar, hval, if_pos hsmall, UInt8.ofNat_toNat]

/-- Visible bytes are the text of a string. -/
theorem isValidUTF8_of_visible {value : ByteArray}
    (h : ∀ b ∈ value.toList, isVisibleByte b = true) : value.IsValidUTF8 := by
  refine ⟨value.toList.map fun b => Char.ofNat b.toNat, ?_⟩
  have hbytes : ∀ bs : List UInt8, (∀ b ∈ bs, isVisibleByte b = true) →
      (bs.map fun b => Char.ofNat b.toNat).flatMap String.utf8EncodeChar = bs := by
    intro bs hbs
    induction bs with
    | nil => rfl
    | cons b bs ih =>
        have hb := toNat_lt_of_visible (hbs b List.mem_cons_self)
        rw [List.map_cons, List.flatMap_cons, utf8EncodeChar_ofNat hb,
          ih fun x hx => hbs x (List.mem_cons_of_mem _ hx), List.singleton_append]
  apply ByteArray.ext
  rw [List.utf8Encode, hbytes _ h, toList_bytes]
  simp

theorem visibleText?_eq_some_iff {value : ByteArray} {text : String} :
    visibleText? value = some text ↔
      value = text.toUTF8 ∧ ∀ b ∈ value.toList, isVisibleByte b = true := by
  unfold visibleText?
  rw [← List.all_eq_true]
  constructor
  · intro h
    split at h
    · rename_i hall
      refine ⟨?_, hall⟩
      rw [String.fromUTF8?, dif_pos (isValidUTF8_of_visible (List.all_eq_true.mp hall))] at h
      obtain rfl := Option.some.inj h
      rfl
    · cases h
  · rintro ⟨rfl, hall⟩
    have hvalid : text.toUTF8.IsValidUTF8 := text.isValidUTF8
    rw [if_pos hall, String.fromUTF8?, dif_pos hvalid]
    rfl

theorem visibleText?_eq_none_iff {value : ByteArray} :
    visibleText? value = none ↔ ∃ b ∈ value.toList, isVisibleByte b = false := by
  unfold visibleText?
  constructor
  · intro h
    split at h
    · rename_i hall
      rw [String.fromUTF8?, dif_pos (isValidUTF8_of_visible (List.all_eq_true.mp hall))] at h
      cases h
    · rename_i hall
      simpa using hall
  · rintro ⟨b, hb, hidden⟩
    rw [if_neg]
    intro hall
    rw [List.all_eq_true.mp hall b hb] at hidden
    cases hidden

/-- A text that is read from a header field as it stands. -/
def IsVisible (text : String) : Prop :=
  ∀ b ∈ text.toUTF8.toList, isVisibleByte b = true

theorem isVisible_of_all {text : String} (h : (utf8 text.toList).all isVisibleByte = true) :
    IsVisible text := by
  rw [IsVisible, toList_toUTF8]
  exact List.all_eq_true.mp h

theorem IsVisible.append {s t : String} (hs : IsVisible s) (ht : IsVisible t) :
    IsVisible (s ++ t) := by
  intro b hb
  rw [toList_toUTF8, String.toList_append, utf8_append, ← toList_toUTF8, ← toList_toUTF8,
    List.mem_append] at hb
  exact hb.elim (hs b) (ht b)

theorem isVisible_intercalate {sep : String} {lines : List String} (hsep : IsVisible sep)
    (hlines : ∀ line ∈ lines, IsVisible line) : IsVisible (sep.intercalate lines) := by
  induction lines with
  | nil =>
      intro b hb
      rw [String.intercalate_nil, toList_toUTF8] at hb
      cases hb
  | cons line rest ih =>
      obtain ⟨hline, hrest⟩ := List.forall_mem_cons.mp hlines
      cases rest with
      | nil => rwa [String.intercalate_singleton]
      | cons next rest =>
          rw [String.intercalate_cons_cons]
          exact (hline.append hsep).append (ih hrest)

end AppServer.Http
