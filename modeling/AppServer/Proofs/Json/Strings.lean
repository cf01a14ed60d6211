import AppServer.Json.Printer
import AppServer.Json.Text
import AppServer.Json.Tree
import AppServer.Proofs.Text.Utf8

/-!
# Strings written and read

A character of a string is written as a backslash with a letter, as a backslash with the number of
the character, or as the character itself. None of these holds a quote that could be taken for the
closing one, and each resolves to the bytes of its character. So a text in quotes reads as the text,
whatever stands behind it.
-/

namespace AppServer.Json

open AppServer.Text AppServer.Json.Tree

/-- `Escaped c bytes`: the bytes of a string that stand for the character. -/
inductive Escaped : Char → List UInt8 → Prop
  | letter {c : Char} {e : UInt8} (escape : isEscapeByte e = true)
      (byte : String.utf8EncodeChar c = [escapeByte e]) : Escaped c [0x5C, e]
  | number {c : Char} {h l : UInt8} (control : c.toNat < 0x20) (high : isHexByte h = true)
      (low : isHexByte l = true) (value : hexQuad 0x30 0x30 h l = c.toNat) :
      Escaped c [0x5C, 0x75, 0x30, 0x30, h, l]
  | plain {c : Char}
      (harmless : ∀ b ∈ String.utf8EncodeChar c, b ≠ 0x22 ∧ b ≠ 0x5C ∧ ¬ b < 0x20) :
      Escaped c (String.utf8EncodeChar c)

/-- The lower-case hexadecimal digit of a value below 16, as a byte. -/
def hexByte (n : Nat) : UInt8 :=
  UInt8.ofNat (Nat.digitChar n).toNat

theorem isHexByte_hexByte {n : Nat} (h : n < 16) : isHexByte (hexByte n) = true := by
  have hall : ∀ n < 16, isHexByte (hexByte n) = true := by decide
  exact hall n h

theorem hexQuad_hexByte {n : Nat} (h : n < 0x20) :
    hexQuad 0x30 0x30 (hexByte (n / 16)) (hexByte (n % 16)) = n := by
  have hall : ∀ n < 0x20, hexQuad 0x30 0x30 (hexByte (n / 16)) (hexByte (n % 16)) = n := by decide
  exact hall n h

theorem utf8_digitChar {n : Nat} (h : n < 16) (cs : List Char) :
    utf8 (Nat.digitChar n :: cs) = hexByte n :: utf8 cs := by
  have hascii : ∀ n < 16, (Nat.digitChar n).toNat < 128 := by decide
  rw [utf8_cons, utf8EncodeChar_of_ascii (hascii n h)]
  rfl

theorem escaped_number {c : Char} (h : c.toNat < 0x20) :
    Escaped c (utf8 ['\\', 'u', '0', '0', Nat.digitChar (c.toNat / 16),
      Nat.digitChar (c.toNat % 16)]) := by
  have hhigh : c.toNat / 16 < 16 := by omega
  have hlow : c.toNat % 16 < 16 := by omega
  have hbytes : utf8 ['\\', 'u', '0', '0', Nat.digitChar (c.toNat / 16),
      Nat.digitChar (c.toNat % 16)] =
      [0x5C, 0x75, 0x30, 0x30, hexByte (c.toNat / 16), hexByte (c.toNat % 16)] := by
    show 0x5C :: 0x75 :: 0x30 :: 0x30 :: utf8 _ = _
    rw [utf8_digitChar hhigh, utf8_digitChar hlow]
    rfl
  rw [hbytes]
  exact .number h (isHexByte_hexByte hhigh) (isHexByte_hexByte hlow) (hexQuad_hexByte h)

theorem escaped_plain {c : Char} (hquote : c ≠ '"') (hslash : c ≠ '\\') (h : ¬ c.toNat < 0x20) :
    Escaped c (utf8 [c]) := by
  have hbytes : utf8 [c] = String.utf8EncodeChar c := by
    rw [utf8_cons, utf8_nil, List.append_nil]
  rw [hbytes]
  refine .plain fun b hb => ?_
  by_cases hascii : c.toNat < 128
  · rw [utf8EncodeChar_of_ascii hascii, List.mem_singleton] at hb
    have hvalue : b.toNat = c.toNat := by
      rw [hb, UInt8.toNat_ofNat']
      omega
    refine ⟨?_, ?_, ?_⟩
    · rintro rfl
      exact hquote (Char.toNat_inj.mp hvalue.symm)
    · rintro rfl
      exact hslash (Char.toNat_inj.mp hvalue.symm)
    · intro hlt
      exact h (hvalue ▸ UInt8.lt_iff_toNat_lt.mp hlt)
  · have hlarge := le_of_mem_utf8EncodeChar (Nat.le_of_not_lt hascii) hb
    refine ⟨?_, ?_, ?_⟩
    · rintro rfl
      exact absurd hlarge (by decide)
    · rintro rfl
      exact absurd hlarge (by decide)
    · intro hlt
      have hsmall : b.toNat < 0x20 := UInt8.lt_iff_toNat_lt.mp hlt
      omega

theorem escaped_escapeChar (c : Char) : Escaped c (utf8 (escapeChar c)) := by
  unfold escapeChar
  split
  case h_8 hquote hslash _ _ _ _ _ =>
    split
    · exact escaped_number ‹_›
    · exact escaped_plain hquote hslash ‹_›
  all_goals exact .letter rfl rfl

/-! ## Up to the closing quote -/

theorem readString_plain {bs : List UInt8} (h : ∀ b ∈ bs, b ≠ 0x22 ∧ b ≠ 0x5C ∧ ¬ b < 0x20)
    (done rest : List UInt8) :
    readString done (bs ++ rest) = readString (bs.reverse ++ done) rest := by
  induction bs generalizing done with
  | nil => rfl
  | cons b bs ih =>
      obtain ⟨⟨hquote, hslash, hcontrol⟩, hbs⟩ := List.forall_mem_cons.mp h
      rw [List.cons_append, readString.eq_def]
      simp only [hquote, hslash, hcontrol, if_false]
      rw [ih hbs, List.reverse_cons, List.append_assoc]
      rfl

theorem Escaped.readString {c : Char} {bs : List UInt8} (h : Escaped c bs)
    (done rest : List UInt8) :
    Tree.readString done (bs ++ rest) = Tree.readString (bs.reverse ++ done) rest := by
  cases h with
  | @letter e escape _ =>
      have hne : e ≠ 0x75 := by
        rintro rfl
        cases escape
      show Tree.readString done (0x5C :: e :: rest) = _
      rw [Tree.readString.eq_def]
      simp [hne, escape]
  | @number h l _ high low _ =>
      show Tree.readString done (0x5C :: 0x75 :: 0x30 :: 0x30 :: h :: l :: rest) = _
      have hzero : isHexByte 0x30 = true := rfl
      rw [Tree.readString.eq_def]
      simp [hzero, high, low]
  | plain harmless => exact readString_plain harmless done rest

/-- The bytes of a text inside quotes. -/
def rawText (s : String) : List UInt8 :=
  utf8 (s.toList.flatMap escapeChar)

theorem readString_flatMap (cs : List Char) (done rest : List UInt8) :
    readString done (utf8 (cs.flatMap escapeChar) ++ rest) =
      readString ((utf8 (cs.flatMap escapeChar)).reverse ++ done) rest := by
  induction cs generalizing done with
  | nil => rfl
  | cons c cs ih =>
      rw [List.flatMap_cons, utf8_append, List.append_assoc, (escaped_escapeChar c).readString, ih,
        List.reverse_append, List.append_assoc]

theorem utf8_string (s : String) : utf8 (string s) = 0x22 :: (rawText s ++ [0x22]) := by
  unfold string rawText
  rw [utf8_cons, utf8_append]
  rfl

theorem readString_rawText (s : String) (rest : List UInt8) :
    readString [] (rawText s ++ 0x22 :: rest) = some (rawText s, rest) := by
  unfold rawText
  rw [readString_flatMap, readString.eq_def]
  simp

/-! ## Resolving what stands between the quotes -/

theorem unescapeFrom_plain {bs : List UInt8} (h : ∀ b ∈ bs, b ≠ 0x5C) (done rest : List UInt8) :
    unescapeFrom done (bs ++ rest) = unescapeFrom (bs.reverse ++ done) rest := by
  induction bs generalizing done with
  | nil => rfl
  | cons b bs ih =>
      obtain ⟨hslash, hbs⟩ := List.forall_mem_cons.mp h
      rw [List.cons_append, unescapeFrom.eq_def]
      simp only [hslash, if_false]
      rw [ih hbs, List.reverse_cons, List.append_assoc]
      rfl

theorem Escaped.unescapeFrom {c : Char} {bs : List UInt8} (h : Escaped c bs)
    (done rest : List UInt8) :
    Json.unescapeFrom done (bs ++ rest) =
      Json.unescapeFrom ((String.utf8EncodeChar c).reverse ++ done) rest := by
  cases h with
  | @letter e escape byte =>
      have hne : e ≠ 0x75 := by
        rintro rfl
        cases escape
      show Json.unescapeFrom done (0x5C :: e :: rest) = _
      rw [Json.unescapeFrom.eq_def, byte]
      simp [hne]
  | @number h l control _ _ value =>
      have hlow : isLowSurrogate c.toNat = false := by
        simp only [isLowSurrogate, Bool.and_eq_false_iff, decide_eq_false_iff_not]
        omega
      have hhigh : isHighSurrogate c.toNat = false := by
        simp only [isHighSurrogate, Bool.and_eq_false_iff, decide_eq_false_iff_not]
        omega
      show Json.unescapeFrom done (0x5C :: 0x75 :: 0x30 :: 0x30 :: h :: l :: rest) = _
      rw [Json.unescapeFrom.eq_def]
      simp [value, hlow, hhigh]
  | plain harmless => exact unescapeFrom_plain (fun b hb => (harmless b hb).2.1) done rest

theorem unescapeFrom_flatMap (cs : List Char) (done : List UInt8) :
    unescapeFrom done (utf8 (cs.flatMap escapeChar)) = some (done.reverse ++ utf8 cs) := by
  induction cs generalizing done with
  | nil =>
      rw [List.flatMap_nil, utf8_nil, unescapeFrom.eq_def, List.append_nil]
  | cons c cs ih =>
      rw [List.flatMap_cons, utf8_append, (escaped_escapeChar c).unescapeFrom, ih, utf8_cons,
        List.reverse_append, List.reverse_reverse, List.append_assoc]

/-- Every text is read back from between its quotes. -/
@[simp] theorem textOf?_rawText (s : String) : textOf? (rawText s) = some s := by
  unfold textOf? rawText
  rw [unescapeFrom_flatMap]
  show String.fromUTF8? (utf8 s.toList).toByteArray = some s
  rw [fromUTF8?_utf8, String.ofList_toList]

end AppServer.Json
