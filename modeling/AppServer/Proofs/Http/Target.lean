import AppServer.Http.Uri
import AppServer.Proofs.Text.Utf8
import Mathlib.Data.List.TakeWhile

/-!
# Targets that are paths

The bytes of a path and of a query are told character by character: a character that is not ASCII
belongs to either, and an ASCII character is one byte. So a target that begins with a slash is read as
its path, which ends before the first question mark or number sign, and a query.
-/

namespace AppServer.Http.Uri

open AppServer.Text

/-- A character all of whose bytes satisfy `f`. -/
def charOf (f : UInt8 → Bool) (c : Char) : Bool :=
  (String.utf8EncodeChar c).all f

/-- The characters of a path. -/
def isPathChar : Char → Bool :=
  charOf isPathByte

/-- The characters of a query. -/
def isQueryChar : Char → Bool :=
  charOf isQueryByte

section Bytes

variable {f : UInt8 → Bool}

theorem charOf_of_ascii {c : Char} (h : c.toNat < 128) :
    charOf f c = f (UInt8.ofNat c.toNat) := by
  rw [charOf, utf8EncodeChar_of_ascii h, List.all_cons, List.all_nil, Bool.and_true]

/-- A character of which a byte fails is that byte. -/
theorem exists_byte_of_charOf (hf : ∀ b : UInt8, 128 ≤ b.toNat → f b = true) {c : Char}
    (h : charOf f c = false) : ∃ b, String.utf8EncodeChar c = [b] ∧ f b = false := by
  by_cases hascii : c.toNat < 128
  · rw [charOf_of_ascii hascii] at h
    exact ⟨_, utf8EncodeChar_of_ascii hascii, h⟩
  · have hall : charOf f c = true := by
      rw [charOf, List.all_eq_true]
      intro b hb
      exact hf b (le_of_mem_utf8EncodeChar (Nat.le_of_not_lt hascii) hb)
    rw [hall] at h
    cases h

/-- The bytes are cut where the characters are. -/
theorem cut_utf8 (hf : ∀ b : UInt8, 128 ≤ b.toNat → f b = true) (cs : List Char) :
    (utf8 cs).takeWhile f = utf8 (cs.takeWhile (charOf f)) ∧
      (utf8 cs).dropWhile f = utf8 (cs.dropWhile (charOf f)) := by
  induction cs with
  | nil => exact ⟨rfl, rfl⟩
  | cons c cs ih =>
      obtain ⟨htake, hdrop⟩ := ih
      by_cases hc : charOf f c = true
      · have hall : ∀ b ∈ String.utf8EncodeChar c, f b = true := List.all_eq_true.mp hc
        rw [utf8_cons, List.takeWhile_append_of_pos hall, List.dropWhile_append_of_pos hall,
          List.takeWhile_cons_of_pos hc, List.dropWhile_cons_of_pos hc, htake, hdrop, utf8_cons]
        exact ⟨rfl, rfl⟩
      · obtain ⟨b, hbytes, hb⟩ := exists_byte_of_charOf hf (Bool.not_eq_true _ ▸ hc)
        have hfails : ¬ f b = true := by simp [hb]
        rw [utf8_cons, hbytes, List.singleton_append, List.takeWhile_cons_of_neg hfails,
          List.dropWhile_cons_of_neg hfails, List.takeWhile_cons_of_neg hc,
          List.dropWhile_cons_of_neg hc, utf8_cons, hbytes]
        exact ⟨rfl, rfl⟩

end Bytes

theorem isPathByte_of_le {b : UInt8} (h : 128 ≤ b.toNat) : isPathByte b = true := by
  have hall : ∀ n < 256, 128 ≤ n → isPathByte (UInt8.ofNat n) = true := by decide +kernel
  have hb := hall b.toNat b.toNat_lt h
  rwa [UInt8.ofNat_toNat] at hb

theorem isQueryByte_of_le {b : UInt8} (h : 128 ≤ b.toNat) : isQueryByte b = true := by
  have hall : ∀ n < 256, 128 ≤ n → isQueryByte (UInt8.ofNat n) = true := by
    decide +kernel
  have hb := hall b.toNat b.toNat_lt h
  rwa [UInt8.ofNat_toNat] at hb

theorem cut_path (cs : List Char) :
    (utf8 cs).takeWhile isPathByte = utf8 (cs.takeWhile isPathChar) ∧
      (utf8 cs).dropWhile isPathByte = utf8 (cs.dropWhile isPathChar) :=
  cut_utf8 (fun _ => isPathByte_of_le) cs

theorem cut_query (cs : List Char) :
    (utf8 cs).takeWhile isQueryByte = utf8 (cs.takeWhile isQueryChar) ∧
      (utf8 cs).dropWhile isQueryByte = utf8 (cs.dropWhile isQueryChar) :=
  cut_utf8 (fun _ => isQueryByte_of_le) cs

theorem text?_utf8 (cs : List Char) : text? (utf8 cs) = some (String.ofList cs) :=
  fromUTF8?_utf8 cs

/-! ## Targets that begin with a slash -/

theorem pathAndQuery?_path {cs : List Char} (h : ∀ c ∈ cs, isPathChar c = true) :
    pathAndQuery? (utf8 cs) = some (String.ofList cs, none) := by
  obtain ⟨htake, hdrop⟩ := cut_path cs
  rw [List.takeWhile_eq_self_iff.mpr h] at htake
  rw [List.dropWhile_eq_nil_iff.mpr h, utf8_nil] at hdrop
  unfold pathAndQuery?
  simp only [htake, hdrop, text?_utf8]
  rfl

theorem pathAndQuery?_query {cs qs : List Char} (hpath : ∀ c ∈ cs, isPathChar c = true)
    (hquery : ∀ c ∈ qs, isQueryChar c = true) :
    pathAndQuery? (utf8 (cs ++ '?' :: qs)) = some (String.ofList cs, some (String.ofList qs)) := by
  have hmark : ¬ isPathChar '?' = true := by decide
  obtain ⟨htake, hdrop⟩ := cut_path (cs ++ '?' :: qs)
  rw [List.takeWhile_append_of_pos hpath, List.takeWhile_cons_of_neg hmark,
    List.append_nil] at htake
  rw [List.dropWhile_append_of_pos hpath, List.dropWhile_cons_of_neg hmark] at hdrop
  obtain ⟨htake', hdrop'⟩ := cut_query qs
  rw [List.takeWhile_eq_self_iff.mpr hquery] at htake'
  rw [List.dropWhile_eq_nil_iff.mpr hquery, utf8_nil] at hdrop'
  have hbytes : utf8 ('?' :: qs) = 0x3F :: utf8 qs := rfl
  unfold pathAndQuery?
  simp only [htake, hdrop, hbytes, htake', hdrop', text?_utf8]
  rfl

/-- A path that has been read goes on up to a question mark, a number sign or the end. -/
theorem of_pathAndQuery? {cs : List Char} {path : String} {query : Option String}
    (h : pathAndQuery? (utf8 cs) = some (path, query)) :
    path = String.ofList (cs.takeWhile isPathChar) ∧
      ∀ c ∈ (cs.dropWhile isPathChar).head?, c = '?' ∨ c = '#' := by
  obtain ⟨htake, hdrop⟩ := cut_path cs
  unfold pathAndQuery? at h
  simp only [htake, hdrop, text?_utf8] at h
  cases hrest : cs.dropWhile isPathChar with
  | nil =>
      rw [hrest] at h
      cases h
      exact ⟨rfl, by simp⟩
  | cons c rest =>
      have hfails : isPathChar c = false := by
        simpa [hrest] using List.head?_dropWhile_not isPathChar cs
      obtain ⟨b, hbytes, -⟩ := exists_byte_of_charOf (fun _ => isPathByte_of_le) hfails
      have hhead : ∀ d ∈ (c :: rest).head?, d = c := by simp
      rw [hrest, utf8_cons, hbytes, List.singleton_append] at h
      split at h
      · rename_i hnil
        cases hnil
      · rename_i heq
        cases h
        have hc : c = '#' := by
          apply utf8EncodeChar_injective
          rw [hbytes, (List.cons.inj heq).1]
          rfl
        exact ⟨rfl, fun d hd => .inr (hhead d hd ▸ hc)⟩
      · rename_i heq
        have hc : c = '?' := by
          apply utf8EncodeChar_injective
          rw [hbytes, (List.cons.inj heq).1]
          rfl
        refine ⟨?_, fun d hd => .inl (hhead d hd ▸ hc)⟩
        -- what follows the question mark is a query, however it ends
        simp only [Option.bind_eq_bind, Option.bind_some] at h
        split at h
        · obtain ⟨_, -, hpair⟩ := Option.bind_eq_some_iff.mp h
          cases hpair
          rfl
        · obtain ⟨_, -, hpair⟩ := Option.bind_eq_some_iff.mp h
          cases hpair
          rfl
        · cases h
      · cases h

/-- A target that begins with a slash has neither a scheme nor an authority. -/
theorem ofString?_slash {s : String} {cs : List Char} (h : s.toList = '/' :: cs) :
    ofString? s =
      if maxLength < (utf8 s.toList).length then none
      else (pathAndQuery? (utf8 s.toList)).map fun (path, query) => ⟨none, none, path, query⟩ := by
  have hbytes : utf8 s.toList = 0x2F :: utf8 cs := by
    rw [h]
    rfl
  rw [ofString?, toList_toUTF8, hbytes]
  unfold ofBytes?
  split
  · rfl
  · simp only
    cases pathAndQuery? (0x2F :: utf8 cs) <;> rfl

section Slash

variable {s : String} {cs : List Char} (hslash : s.toList = '/' :: cs)
include hslash

/-- A target of path characters is its path. -/
theorem ofString?_path (hlength : (utf8 s.toList).length ≤ maxLength)
    (hpath : ∀ c ∈ s.toList, isPathChar c = true) :
    ofString? s = some ⟨none, none, s, none⟩ := by
  rw [ofString?_slash hslash, if_neg (Nat.not_lt.mpr hlength), pathAndQuery?_path hpath,
    String.ofList_toList]
  rfl

/-- A target of a path and a query is read as both. -/
theorem ofString?_query {path query : List Char} (hlength : (utf8 s.toList).length ≤ maxLength)
    (hcut : s.toList = path ++ '?' :: query) (hpath : ∀ c ∈ path, isPathChar c = true)
    (hquery : ∀ c ∈ query, isQueryChar c = true) :
    ofString? s = some ⟨none, none, String.ofList path, some (String.ofList query)⟩ := by
  rw [ofString?_slash hslash, if_neg (Nat.not_lt.mpr hlength), hcut,
    pathAndQuery?_query hpath hquery]
  rfl

/-- The path of a target ends before its first question mark or number sign. -/
theorem path_of_ofString? {u : Uri} (h : ofString? s = some u) :
    u.path = String.ofList (s.toList.takeWhile isPathChar) ∧
      ∀ c ∈ (s.toList.dropWhile isPathChar).head?, c = '?' ∨ c = '#' := by
  rw [ofString?_slash hslash] at h
  split at h
  · cases h
  · obtain ⟨⟨path, query⟩, hread, rfl⟩ := Option.map_eq_some_iff.mp h
    obtain ⟨rfl, hrest⟩ := of_pathAndQuery? hread
    refine ⟨?_, hrest⟩
    have hfirst : isPathChar '/' = true := by decide
    have hne : (String.ofList (s.toList.takeWhile isPathChar)).isEmpty = false := by
      rw [hslash, List.takeWhile_cons_of_pos hfirst]
      simp
    unfold path
    simp only [hne, Bool.false_and, Bool.false_eq_true, if_false]

end Slash

end AppServer.Http.Uri
