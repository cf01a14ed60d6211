import AppServer.Json.Number
import AppServer.Proofs.Number.Digits
import AppServer.Proofs.Text.Utf8

/-!
# Whole numbers written and read

The digits of a number are read up to what cannot go on with them. They make a whole number with
neither fraction nor exponent, and its value is the number, as long as it fits 64 bits.
-/

namespace AppServer.Json

open AppServer.Number AppServer.Text AppServer.Json.Tree

/-- The digits of a number as bytes. -/
def digitBytes (n : Nat) : List UInt8 :=
  utf8 (digitsOf n)

/-- A number that is not negative as it is written. -/
def numeral (n : Nat) : Numeral :=
  ⟨false, digitBytes n, [], none⟩

/-- What a number can be followed by. -/
def EndsNumber (rest : List UInt8) : Prop :=
  ∀ b ∈ rest.head?, isDigitByte b = false ∧ b ≠ 0x2E ∧ b ≠ 0x65 ∧ b ≠ 0x45

/-! ## The parts of a number -/

/-- Digits before the point, without a zero in front of others. -/
structure IsWhole (ds : List Char) : Prop where
  ne_nil : ds ≠ []
  digits : ∀ c ∈ ds, isDigit c = true
  zero : ∀ rest, ds = '0' :: rest → rest = []

/-- Nothing, or digits after a point. -/
inductive IsFraction : List Char → Prop
  | nil : IsFraction []
  | point {ds : List Char} (hne : ds ≠ []) (hdigits : ∀ c ∈ ds, isDigit c = true) :
      IsFraction ('.' :: ds)

/-- Nothing, or an exponent with its sign. -/
inductive IsExponent : List Char → Prop
  | nil : IsExponent []
  | power {sign : Char} {ds : List Char} (hsign : sign = '-' ∨ sign = '+') (hne : ds ≠ [])
      (hdigits : ∀ c ∈ ds, isDigit c = true) : IsExponent ('e' :: sign :: ds)

theorem isWhole_digitsOf (n : Nat) : IsWhole (digitsOf n) :=
  ⟨digitsOf_ne_nil n, fun _ => isDigit_of_mem_digitsOf, fun _ => digitsOf_eq_zero_cons⟩

/-! ## Digits as bytes -/

theorem toNat_of_isDigit {c : Char} (h : isDigit c = true) : 48 ≤ c.toNat ∧ c.toNat ≤ 57 := by
  have hbounds : '0' ≤ c ∧ c ≤ '9' := by simpa [isDigit] using h
  exact hbounds

theorem toNat_byte {c : Char} (h : isDigit c = true) :
    (UInt8.ofNat c.toNat).toNat = c.toNat := by
  have hbounds := toNat_of_isDigit h
  rw [UInt8.toNat_ofNat']
  omega

section Digits

variable {ds : List Char} (h : ∀ c ∈ ds, isDigit c = true)

include h

theorem utf8_digits : utf8 ds = ds.map fun c => UInt8.ofNat c.toNat := by
  refine utf8_of_ascii fun c hc => ?_
  have hbounds := toNat_of_isDigit (h c hc)
  omega

theorem isDigitByte_of_mem_utf8 {b : UInt8} (hb : b ∈ utf8 ds) : isDigitByte b = true := by
  rw [utf8_digits h] at hb
  obtain ⟨c, hc, rfl⟩ := List.mem_map.mp hb
  have hbounds := toNat_of_isDigit (h c hc)
  have hvalue := toNat_byte (h c hc)
  simp only [isDigitByte, UInt8.le_iff_toNat_le, Bool.and_eq_true, decide_eq_true_eq, hvalue]
  exact hbounds

/-- Digits are taken up to what is none. -/
theorem takeWhile_digits {rest : List UInt8} (hrest : ∀ b ∈ rest.head?, isDigitByte b = false) :
    (utf8 ds ++ rest).takeWhile isDigitByte = utf8 ds ∧
      (utf8 ds ++ rest).dropWhile isDigitByte = rest := by
  rw [List.takeWhile_append_of_pos fun b hb => isDigitByte_of_mem_utf8 h hb,
    List.dropWhile_append_of_pos fun b hb => isDigitByte_of_mem_utf8 h hb]
  cases rest with
  | nil => exact ⟨List.append_nil _, rfl⟩
  | cons b rest =>
      have hb : ¬ isDigitByte b = true := Bool.eq_false_iff.mp (hrest b rfl)
      rw [List.takeWhile_cons_of_neg hb, List.dropWhile_cons_of_neg hb, List.append_nil]
      exact ⟨rfl, rfl⟩

end Digits

theorem utf8_ne_nil {cs : List Char} (h : cs ≠ []) : utf8 cs ≠ [] :=
  fun hnil => h (utf8_injective hnil)

/-- A byte for zero in front is the whole number. -/
theorem IsWhole.eq_nil_of_utf8 {ds : List Char} (h : IsWhole ds) {bs : List UInt8}
    (hbs : utf8 ds = 0x30 :: bs) : bs = [] := by
  rw [utf8_digits h.digits] at hbs
  obtain ⟨c, cs, hcs, hc, rfl⟩ := List.map_eq_cons_iff.mp hbs
  have hdigit : isDigit c = true := h.digits c (hcs ▸ List.mem_cons_self)
  have hvalue : c.toNat = '0'.toNat := by
    rw [← toNat_byte hdigit, hc]
    rfl
  obtain rfl : c = '0' := Char.toNat_inj.mp hvalue
  rw [h.zero cs hcs]
  rfl

theorem digitBytes_eq (n : Nat) :
    digitBytes n = (digitsOf n).map fun c => UInt8.ofNat c.toNat :=
  utf8_digits fun _ => isDigit_of_mem_digitsOf

/-! ## Reading -/

theorem readExponent_of_endsNumber {rest : List UInt8} (h : EndsNumber rest) :
    Tree.readExponent rest = some (none, rest) := by
  cases rest with
  | nil => rfl
  | cons b rest =>
      obtain ⟨-, -, he, hE⟩ := h b rfl
      simp [Tree.readExponent, he, hE]

theorem EndsNumber.not_digit {rest : List UInt8} (h : EndsNumber rest) :
    ∀ b ∈ rest.head?, isDigitByte b = false :=
  fun b hb => (h b hb).1

theorem IsExponent.read {exponent : List Char} (h : IsExponent exponent) :
    ∃ e, ∀ rest, EndsNumber rest →
      Tree.readExponent (utf8 exponent ++ rest) = some (e, rest) := by
  cases h with
  | nil => exact ⟨none, fun _ => readExponent_of_endsNumber⟩
  | @power sign ds hsign hne hdigits =>
      have hnonempty : (utf8 ds).isEmpty = false := by
        simpa using utf8_ne_nil hne
      refine ⟨some (sign == '-', utf8 ds), fun rest hrest => ?_⟩
      obtain ⟨htake, hdrop⟩ := takeWhile_digits hdigits hrest.not_digit
      rcases hsign with rfl | rfl
      · show Tree.readExponent (0x65 :: 0x2D :: (utf8 ds ++ rest)) = _
        simp [Tree.readExponent, htake, hdrop, hnonempty]
      · show Tree.readExponent (0x65 :: 0x2B :: (utf8 ds ++ rest)) = _
        simp [Tree.readExponent, htake, hdrop, hnonempty]

/-- A number is read part by part. -/
theorem readUnsigned_parts {whole fraction : List Char} (hwhole : IsWhole whole)
    (hfraction : IsFraction fraction) {more rest : List UInt8} {e : Option (Bool × List UInt8)}
    (hmore : ∀ b ∈ more.head?, isDigitByte b = false ∧ b ≠ 0x2E)
    (he : Tree.readExponent more = some (e, rest)) (negative : Bool) :
    readUnsigned negative (utf8 whole ++ (utf8 fraction ++ more)) =
      some (⟨negative, utf8 whole, utf8 fraction.tail, e⟩, rest) := by
  have hnonempty : (utf8 whole).isEmpty = false := by
    simpa using utf8_ne_nil hwhole.ne_nil
  have hdigit : ∀ b ∈ more.head?, isDigitByte b = false := fun b hb => (hmore b hb).1
  have hstop : ∀ b ∈ (utf8 fraction ++ more).head?, isDigitByte b = false := by
    cases hfraction with
    | nil => exact hdigit
    | point =>
        intro b hb
        cases hb
        rfl
  unfold readUnsigned
  extract_lets found tail finish
  -- the reader stops after a leading zero, where the digits end anyway
  have hfound : found = utf8 whole := by
    simp only [found]
    split
    · rename_i bs heq
      cases hbytes : utf8 whole with
      | nil => exact absurd hbytes (utf8_ne_nil hwhole.ne_nil)
      | cons d ds =>
          rw [hbytes] at heq
          obtain rfl : d = 0x30 := (List.cons.inj heq).1
          rw [hwhole.eq_nil_of_utf8 hbytes]
    · exact (takeWhile_digits hwhole.digits hstop).1
  have htail : tail = utf8 fraction ++ more := by
    show (utf8 whole ++ (utf8 fraction ++ more)).drop found.length = _
    rw [hfound, List.drop_left]
  have hfinish (digits : List UInt8) :
      finish (digits, more) = some (⟨negative, utf8 whole, digits, e⟩, rest) := by
    show (Tree.readExponent more).bind _ = _
    rw [he]
    show some (Numeral.mk negative found digits e, rest) = _
    rw [hfound]
  rw [hfound, hnonempty, htail, if_neg Bool.false_ne_true]
  cases hfraction with
  | nil =>
      split
      · rename_i bs heq
        exact absurd rfl (hmore 0x2E (by rw [show more = _ from heq]; rfl)).2
      · exact hfinish []
  | @point ds hne hdigits =>
      obtain ⟨htake, hdrop⟩ := takeWhile_digits hdigits hdigit
      have hsome : (utf8 ds).isEmpty = false := by
        simpa using utf8_ne_nil hne
      show (if ((utf8 ds ++ more).takeWhile isDigitByte).isEmpty then (none : Option _).bind finish
        else finish ((utf8 ds ++ more).takeWhile isDigitByte,
          (utf8 ds ++ more).dropWhile isDigitByte)) = _
      rw [htake, hdrop, hsome, if_neg Bool.false_ne_true]
      exact hfinish (utf8 ds)

theorem EndsNumber.exponent_append {rest : List UInt8} (hrest : EndsNumber rest)
    {exponent : List Char} (h : IsExponent exponent) :
    ∀ b ∈ (utf8 exponent ++ rest).head?, isDigitByte b = false ∧ b ≠ 0x2E := by
  cases h with
  | nil => exact fun b hb => ⟨(hrest b hb).1, (hrest b hb).2.1⟩
  | power =>
      intro b hb
      cases hb
      exact ⟨rfl, by decide⟩

/-- A number without its sign. -/
inductive IsUnsigned : List Char → Prop
  | parts {whole fraction exponent : List Char} (hwhole : IsWhole whole)
      (hfraction : IsFraction fraction) (hexponent : IsExponent exponent) :
      IsUnsigned (whole ++ (fraction ++ exponent))

theorem IsUnsigned.readUnsigned {text : List Char} (h : IsUnsigned text) (negative : Bool) :
    ∃ n, ∀ rest, EndsNumber rest →
      Tree.readUnsigned negative (utf8 text ++ rest) = some (n, rest) := by
  cases h with
  | @parts whole fraction exponent hwhole hfraction hexponent =>
      obtain ⟨e, he⟩ := hexponent.read
      refine ⟨⟨negative, utf8 whole, utf8 fraction.tail, e⟩, fun rest hrest => ?_⟩
      rw [utf8_append, utf8_append, List.append_assoc, List.append_assoc]
      exact readUnsigned_parts hwhole hfraction (hrest.exponent_append hexponent) (he rest hrest)
        negative

/-- A number that starts with a digit has no sign. -/
theorem readNumber_of_digit {d : UInt8} (h : isDigitByte d = true) (bs : List UInt8) :
    readNumber (d :: bs) = readUnsigned false (d :: bs) := by
  unfold readNumber
  split
  · rename_i heq
    obtain rfl : d = 0x2D := (List.cons.inj heq).1
    cases h
  · rfl

/-- What starts with a digit starts with a byte for a digit. -/
theorem IsWhole.utf8_eq_cons {ds : List Char} (h : IsWhole ds) :
    ∃ d bs, utf8 ds = d :: bs ∧ isDigitByte d = true := by
  cases hbytes : utf8 ds with
  | nil => exact absurd hbytes (utf8_ne_nil h.ne_nil)
  | cons d bs => exact ⟨d, bs, rfl, isDigitByte_of_mem_utf8 h.digits (hbytes ▸ List.mem_cons_self)⟩

theorem IsUnsigned.utf8_eq_cons {text : List Char} (h : IsUnsigned text) :
    ∃ d bs, utf8 text = d :: bs ∧ isDigitByte d = true := by
  cases h with
  | @parts whole fraction exponent hwhole hfraction hexponent =>
      obtain ⟨d, bs, hbytes, hdigit⟩ := hwhole.utf8_eq_cons
      refine ⟨d, bs ++ utf8 (fraction ++ exponent), ?_, hdigit⟩
      rw [utf8_append, hbytes]
      rfl

theorem isUnsigned_of_isWhole {ds : List Char} (h : IsWhole ds) : IsUnsigned ds := by
  have hparts := IsUnsigned.parts h .nil .nil
  rw [List.append_nil, List.append_nil] at hparts
  exact hparts

theorem readUnsigned_digitBytes (n : Nat) {rest : List UInt8} (h : EndsNumber rest) :
    readUnsigned false (digitBytes n ++ rest) = some (numeral n, rest) :=
  readUnsigned_parts (isWhole_digitsOf n) .nil (h.exponent_append .nil)
    (readExponent_of_endsNumber h) false

/-! ## The value -/

theorem le_foldl_digits (n : Nat) (cs : List Char) :
    n ≤ cs.foldl (fun n c => 10 * n + (c.toNat - 48)) n := by
  induction cs generalizing n with
  | nil => exact Nat.le_refl n
  | cons c cs ih =>
      have hnext : n ≤ 10 * n + (c.toNat - 48) := by omega
      exact Nat.le_trans hnext (ih _)

theorem takeWhole_map {cs : List Char} (hdigits : ∀ c ∈ cs, isDigit c = true) (n : Nat)
    (hfits : cs.foldl (fun n c => 10 * n + (c.toNat - 48)) n ≤ Amount.maxSignificand) :
    Amount.takeWhole n (cs.map fun c => UInt8.ofNat c.toNat) =
      (cs.foldl (fun n c => 10 * n + (c.toNat - 48)) n, 0) := by
  induction cs generalizing n with
  | nil => rfl
  | cons c cs ih =>
      obtain ⟨hc, hcs⟩ := List.forall_mem_cons.mp hdigits
      have hnext : n * 10 + ((UInt8.ofNat c.toNat).toNat - 48) = 10 * n + (c.toNat - 48) := by
        rw [toNat_byte hc, Nat.mul_comm]
      have hsmall : ¬ Amount.maxSignificand < 10 * n + (c.toNat - 48) :=
        Nat.not_lt.mpr (Nat.le_trans (le_foldl_digits _ cs) hfits)
      rw [List.map_cons, Amount.takeWhole]
      simp only [hnext, if_neg hsmall]
      exact ih hcs _ hfits

theorem ofNumeral?_numeral {n : Nat} (h : n ≤ Amount.maxSignificand) :
    Amount.ofNumeral? (numeral n) = some (.whole n) := by
  have hvalue : (digitsOf n).foldl (fun n c => 10 * n + (c.toNat - 48)) 0 = n :=
    digitsValue_digitsOf n
  have htake : Amount.takeWhole 0 (digitBytes n) = (n, 0) := by
    rw [digitBytes_eq, takeWhole_map (fun c hc => isDigit_of_mem_digitsOf hc) 0 (hvalue.symm ▸ h),
      hvalue]
  unfold Amount.ofNumeral? numeral
  rw [htake]
  rfl

end AppServer.Json
