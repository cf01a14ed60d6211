import AppServer.Proofs.Text.Segments
import AppServer.Proofs.Text.Utf8
import AppServer.Text.Percent

/-!
# Percent-encodings of a value

A value has many encodings: each of its bytes may be spelled by two digits of either case, and those
that are no slash and no percent sign may also stand for themselves. Every encoding is decoded to the
value, and an encoding of a value that is not empty can be a segment of a path.
-/

namespace AppServer.Text.Percent

/-- `Spells bytes decoded`: bytes that stand for `decoded`, without a slash or a percent sign that
stands for itself. -/
inductive Spells : List UInt8 → List UInt8 → Prop
  | nil : Spells [] []
  | raw {b : UInt8} {bytes decoded : List UInt8} (slash : b ≠ 0x2F) (percent : b ≠ 0x25)
      (rest : Spells bytes decoded) : Spells (b :: bytes) (b :: decoded)
  | spelled {b c d hi lo : UInt8} {bytes decoded : List UInt8} (high : digitValue? c = some hi)
      (low : digitValue? d = some lo) (byte : hi * 16 + lo = b) (rest : Spells bytes decoded) :
      Spells (0x25 :: c :: d :: bytes) (b :: decoded)

/-- `text` is a percent-encoding of `value`. -/
def Encodes (text value : String) : Prop :=
  Spells text.toUTF8.toList value.toUTF8.toList

theorem decodeBytes_cons_of_ne {b : UInt8} (h : b ≠ 0x25) (bytes : List UInt8) :
    decodeBytes (b :: bytes) = b :: decodeBytes bytes := by
  match bytes with
  | [] => rfl
  | [_] => rfl
  | c :: d :: rest => rw [decodeBytes, if_neg h]

theorem Spells.decodeBytes_eq {bytes decoded : List UInt8} (h : Spells bytes decoded) :
    decodeBytes bytes = decoded := by
  induction h with
  | nil => rfl
  | raw _ percent _ ih => rw [decodeBytes_cons_of_ne percent, ih]
  | spelled high low byte _ ih =>
      rw [decodeBytes, if_pos rfl, high, low]
      simp only [byte, ih]

theorem digit_ne_slash {c value : UInt8} (h : digitValue? c = some value) : c ≠ 0x2F := by
  rintro rfl
  cases h

theorem Spells.slash_notMem {bytes decoded : List UInt8} (h : Spells bytes decoded) :
    0x2F ∉ bytes := by
  induction h with
  | nil => exact List.not_mem_nil
  | raw slash _ _ ih =>
      rw [List.mem_cons, not_or]
      exact ⟨Ne.symm slash, ih⟩
  | spelled high low _ _ ih =>
      simp only [List.mem_cons, not_or]
      exact ⟨by decide, (digit_ne_slash high).symm, (digit_ne_slash low).symm, ih⟩

namespace Encodes

variable {text value : String}

theorem decodeOrKeep_eq (h : Encodes text value) : decodeOrKeep text = value := by
  have hdecode : decode? text = some value := by
    rw [decode?, Spells.decodeBytes_eq h, toList_toUTF8, fromUTF8?_utf8, String.ofList_toList]
  rw [decodeOrKeep, hdecode]
  rfl

theorem isSegment (h : Encodes text value) (hne : value ≠ "") : IsSegment text := by
  unfold Encodes at h
  rw [toList_toUTF8, toList_toUTF8] at h
  constructor
  · rintro rfl
    have hvalue : utf8 value.toList = utf8 [] := by
      cases hbytes : utf8 value.toList with
      | nil => rfl
      | cons b bytes =>
          rw [hbytes] at h
          cases h
    exact hne (String.toList_inj.mp (utf8_injective hvalue))
  · intro hslash
    exact Spells.slash_notMem h (mem_utf8 (by decide) hslash)

end Encodes

/-! ## The encoding that is written -/

theorem encode_eq (s : String) : encode s = String.ofList ((utf8 s.toList).flatMap encodeByte) := by
  rw [encode, toList_toUTF8]

theorem utf8_encode (s : String) :
    utf8 (encode s).toList = (utf8 s.toList).flatMap fun b => utf8 (encodeByte b) := by
  rw [encode_eq, String.toList_ofList]
  exact List.flatMap_assoc

theorem utf8_encodeByte_of_unreserved {b : UInt8} (h : isUnreserved b = true) :
    utf8 (encodeByte b) = [b] ∧ b ≠ 0x2F ∧ b ≠ 0x25 := by
  have hall : ∀ n < 256, isUnreserved (UInt8.ofNat n) = true →
      utf8 (encodeByte (UInt8.ofNat n)) = [UInt8.ofNat n] ∧ UInt8.ofNat n ≠ 0x2F ∧
        UInt8.ofNat n ≠ 0x25 := by decide +kernel
  have hb := hall b.toNat b.toNat_lt
  rw [UInt8.ofNat_toNat] at hb
  exact hb h

/-- The byte of a digit. -/
def digitByte (value : UInt8) : UInt8 :=
  UInt8.ofNat (digit value).toNat

theorem utf8_encodeByte_of_reserved {b : UInt8} (h : isUnreserved b = false) :
    utf8 (encodeByte b) = [0x25, digitByte (b / 16), digitByte (b % 16)] ∧
      digitValue? (digitByte (b / 16)) = some (b / 16) ∧
      digitValue? (digitByte (b % 16)) = some (b % 16) ∧ b / 16 * 16 + b % 16 = b := by
  have hall : ∀ n < 256, isUnreserved (UInt8.ofNat n) = false →
      utf8 (encodeByte (UInt8.ofNat n)) =
        [0x25, digitByte (UInt8.ofNat n / 16), digitByte (UInt8.ofNat n % 16)] ∧
      digitValue? (digitByte (UInt8.ofNat n / 16)) = some (UInt8.ofNat n / 16) ∧
      digitValue? (digitByte (UInt8.ofNat n % 16)) = some (UInt8.ofNat n % 16) ∧
      UInt8.ofNat n / 16 * 16 + UInt8.ofNat n % 16 = UInt8.ofNat n := by decide +kernel
  have hb := hall b.toNat b.toNat_lt
  rw [UInt8.ofNat_toNat] at hb
  exact hb h

theorem encodes_encode (s : String) : Encodes (encode s) s := by
  rw [Encodes, toList_toUTF8, toList_toUTF8, utf8_encode]
  induction utf8 s.toList with
  | nil => exact .nil
  | cons b bytes ih =>
      rw [List.flatMap_cons]
      cases hb : isUnreserved b with
      | true =>
          obtain ⟨hbytes, hslash, hpercent⟩ := utf8_encodeByte_of_unreserved hb
          rw [hbytes]
          exact .raw hslash hpercent ih
      | false =>
          obtain ⟨hbytes, hhigh, hlow, hbyte⟩ := utf8_encodeByte_of_reserved hb
          rw [hbytes]
          exact .spelled hhigh hlow hbyte ih

theorem digit_unreserved {value : UInt8} (h : value.toNat < 16) :
    (digit value).toNat < 128 ∧ isUnreserved (UInt8.ofNat (digit value).toNat) = true := by
  have hall : ∀ n < 16, (digit (UInt8.ofNat n)).toNat < 128 ∧
      isUnreserved (UInt8.ofNat (digit (UInt8.ofNat n)).toNat) = true := by decide +kernel
  have hdigit := hall value.toNat h
  rwa [UInt8.ofNat_toNat] at hdigit

theorem char_of_unreserved {b : UInt8} (h : isUnreserved b = true) :
    (Char.ofNat b.toNat).toNat < 128 ∧ UInt8.ofNat (Char.ofNat b.toNat).toNat = b := by
  have hall : ∀ n < 256, isUnreserved (UInt8.ofNat n) = true →
      (Char.ofNat (UInt8.ofNat n).toNat).toNat < 128 ∧
        UInt8.ofNat (Char.ofNat (UInt8.ofNat n).toNat).toNat = UInt8.ofNat n := by decide +kernel
  have hb := hall b.toNat b.toNat_lt
  rw [UInt8.ofNat_toNat] at hb
  exact hb h

/-- Percent signs and unreserved characters are all that is written. -/
theorem of_mem_encode {s : String} {c : Char} (h : c ∈ (encode s).toList) :
    c = '%' ∨ c.toNat < 128 ∧ isUnreserved (UInt8.ofNat c.toNat) = true := by
  rw [encode_eq, String.toList_ofList] at h
  obtain ⟨b, -, hc⟩ := List.mem_flatMap.mp h
  cases hb : isUnreserved b with
  | true =>
      rw [encodeByte, if_pos hb, List.mem_singleton] at hc
      obtain ⟨hascii, hbyte⟩ := char_of_unreserved hb
      rw [hc, hbyte]
      exact .inr ⟨hascii, hb⟩
  | false =>
      have hlt := b.toNat_lt
      have hhigh : (b / 16).toNat < 16 := by
        rw [UInt8.toNat_div]
        exact Nat.div_lt_of_lt_mul hlt
      have hlow : (b % 16).toNat < 16 := by
        rw [UInt8.toNat_mod]
        exact Nat.mod_lt _ (by decide)
      rw [encodeByte, hb] at hc
      simp only [Bool.false_eq_true, if_false, List.mem_cons, List.not_mem_nil, or_false] at hc
      rcases hc with rfl | rfl | rfl
      · exact .inl rfl
      · exact .inr (digit_unreserved hhigh)
      · exact .inr (digit_unreserved hlow)

theorem length_le_of_encodeByte (bytes : List UInt8) :
    bytes.length ≤ (bytes.flatMap fun b => utf8 (encodeByte b)).length := by
  induction bytes with
  | nil => exact Nat.le_refl 0
  | cons b bytes ih =>
      rw [List.flatMap_cons, List.length_append, List.length_cons]
      cases hb : isUnreserved b with
      | true =>
          rw [(utf8_encodeByte_of_unreserved hb).1, List.length_singleton]
          omega
      | false =>
          rw [(utf8_encodeByte_of_reserved hb).1]
          simp only [List.length_cons, List.length_nil]
          omega

/-- Only a text without reserved bytes is its own encoding. -/
theorem encode_eq_self_iff {s : String} :
    encode s = s ↔ ∀ b ∈ utf8 s.toList, isUnreserved b = true := by
  rw [← String.toList_inj, ← utf8_injective.eq_iff, utf8_encode]
  induction utf8 s.toList with
  | nil => simp
  | cons b bytes ih =>
      rw [List.flatMap_cons, List.forall_mem_cons]
      cases hb : isUnreserved b with
      | true =>
          rw [(utf8_encodeByte_of_unreserved hb).1, List.singleton_append, List.cons.injEq, ih]
          exact and_congr_left' (iff_of_true rfl rfl)
      | false =>
          -- a reserved byte takes three, and no byte takes less than one
          refine iff_of_false (fun heq => ?_) (fun hall => nomatch hall.1)
          have hlength := length_le_of_encodeByte bytes
          have hsame := congrArg List.length heq
          rw [(utf8_encodeByte_of_reserved hb).1] at hsame
          simp only [List.length_append, List.length_cons, List.length_nil] at hsame
          omega

end AppServer.Text.Percent
