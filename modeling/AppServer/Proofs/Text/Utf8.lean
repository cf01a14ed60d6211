import Mathlib.Data.List.Basic

/-!
# The bytes of a text

A text is written character by character. The first 128 characters are one byte of the same number;
every byte of any other character is larger than these. Texts that differ have different bytes.
-/

namespace AppServer.Text

theorem toList_loop (b : ByteArray) (i : Nat) (done : List UInt8) :
    ByteArray.toList.loop b i done = done.reverse ++ b.data.toList.drop i := by
  induction i, done using ByteArray.toList.loop.induct b with
  | case1 i done hlt ih =>
      have hdata : i < b.data.toList.length := by simpa using hlt
      rw [ByteArray.toList.loop, if_pos hlt, ih, List.drop_eq_getElem_cons hdata]
      simp [ByteArray.get!, getElem!_pos, hlt]
  | case2 i done hge =>
      have hdrop : b.data.toList.drop i = [] := List.drop_eq_nil_of_le (by simpa using hge)
      rw [ByteArray.toList.loop, if_neg hge, hdrop, List.append_nil]

theorem toList_bytes (b : ByteArray) : b.toList = b.data.toList := by
  rw [ByteArray.toList, toList_loop]
  rfl

/-- The bytes of some characters. -/
def utf8 (cs : List Char) : List UInt8 :=
  cs.flatMap String.utf8EncodeChar

@[simp] theorem utf8_nil : utf8 [] = [] := rfl

theorem utf8_cons (c : Char) (cs : List Char) :
    utf8 (c :: cs) = String.utf8EncodeChar c ++ utf8 cs := rfl

@[simp] theorem utf8_append (as bs : List Char) : utf8 (as ++ bs) = utf8 as ++ utf8 bs :=
  List.flatMap_append

theorem toByteArray_utf8 (cs : List Char) : (utf8 cs).toByteArray = cs.utf8Encode := rfl

theorem toList_toUTF8 (s : String) : s.toUTF8.toList = utf8 s.toList := by
  rw [toList_bytes, String.toUTF8_eq_toByteArray, ← String.utf8Encode_toList, ← toByteArray_utf8]
  simp

theorem toUTF8_append (s t : String) : (s ++ t).toUTF8 = s.toUTF8 ++ t.toUTF8 :=
  ByteArray.ext rfl

theorem fromUTF8?_toUTF8 (s : String) : String.fromUTF8? s.toUTF8 = some s := by
  have hvalid : s.toUTF8.IsValidUTF8 := s.isValidUTF8
  rw [String.fromUTF8?, dif_pos hvalid]
  rfl

/-- What has been written can be read. -/
theorem fromUTF8?_utf8 (cs : List Char) :
    String.fromUTF8? (utf8 cs).toByteArray = some (String.ofList cs) := by
  have hbytes : (utf8 cs).toByteArray = (String.ofList cs).toUTF8 := by
    rw [toByteArray_utf8, String.toUTF8_eq_toByteArray, ← String.utf8Encode_toList,
      String.toList_ofList]
  rw [hbytes, fromUTF8?_toUTF8]

theorem utf8_injective : Function.Injective utf8 := by
  intro as bs h
  have hread := fromUTF8?_utf8 as
  rw [h, fromUTF8?_utf8] at hread
  exact (String.ofList_injective (Option.some.inj hread)).symm

theorem utf8EncodeChar_injective : Function.Injective String.utf8EncodeChar := by
  intro c d h
  have hbytes : utf8 [c] = utf8 [d] := by
    rw [utf8_cons, utf8_cons, h]
  exact (List.cons.inj (utf8_injective hbytes)).1

/-! ## ASCII characters -/

theorem utf8EncodeChar_of_ascii {c : Char} (h : c.toNat < 128) :
    String.utf8EncodeChar c = [UInt8.ofNat c.toNat] := by
  have hsmall : c.val.toNat ≤ 127 := by
    show c.toNat ≤ 127
    omega
  simp only [String.utf8EncodeChar, if_pos hsmall]
  rfl

theorem utf8_of_ascii {cs : List Char} (h : ∀ c ∈ cs, c.toNat < 128) :
    utf8 cs = cs.map fun c => UInt8.ofNat c.toNat := by
  induction cs with
  | nil => rfl
  | cons c cs ih =>
      obtain ⟨hc, hcs⟩ := List.forall_mem_cons.mp h
      rw [utf8_cons, utf8EncodeChar_of_ascii hc, ih hcs]
      rfl

/-- The bytes of a character that is not ASCII are none of the ASCII bytes. -/
theorem le_of_mem_utf8EncodeChar {c : Char} (h : 128 ≤ c.toNat) {b : UInt8}
    (hb : b ∈ String.utf8EncodeChar c) : 128 ≤ b.toNat := by
  have hlarge : ¬ c.val.toNat ≤ 127 := by
    show ¬ c.toNat ≤ 127
    omega
  simp only [String.utf8EncodeChar, if_neg hlarge] at hb
  split at hb
  · simp only [List.mem_cons, List.not_mem_nil, or_false] at hb
    rcases hb with rfl | rfl <;> rw [UInt8.toNat_ofNat'] <;> omega
  · split at hb
    · simp only [List.mem_cons, List.not_mem_nil, or_false] at hb
      rcases hb with rfl | rfl | rfl <;> rw [UInt8.toNat_ofNat'] <;> omega
    · simp only [List.mem_cons, List.not_mem_nil, or_false] at hb
      rcases hb with rfl | rfl | rfl | rfl <;> rw [UInt8.toNat_ofNat'] <;> omega

theorem mem_utf8 {c : Char} {cs : List Char} (hascii : c.toNat < 128) (h : c ∈ cs) :
    UInt8.ofNat c.toNat ∈ utf8 cs := by
  refine List.mem_flatMap.mpr ⟨c, h, ?_⟩
  rw [utf8EncodeChar_of_ascii hascii]
  exact List.mem_singleton_self _

end AppServer.Text
