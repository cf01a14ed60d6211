import AppServer.Proofs.Text.Trim

/-!
# The case of letters

Writing the ASCII letters of a text in lower case leaves every other character as it is, and makes
none of them out of a letter. So it does not matter whether a text is written in lower case before or
after it is trimmed and cut.
-/

namespace AppServer.Text

variable {c sep : Char} {cs : List Char} {a b : String}

/-- Either nothing changes, or a capital is replaced by the small letter 32 places behind. -/
theorem toLower_cases (c : Char) :
    c.toLower = c ∨ (65 ≤ c.toNat ∧ c.toNat ≤ 90 ∧ c.toLower.toNat = c.toNat + 32) := by
  unfold Char.toLower
  split
  · rename_i h
    obtain ⟨hlow, hhigh⟩ := h
    have hlow' : 65 ≤ c.toNat := UInt32.le_iff_toNat_le.mp hlow
    have hhigh' : c.toNat ≤ 90 := UInt32.le_iff_toNat_le.mp hhigh
    refine .inr ⟨hlow', hhigh', ?_⟩
    show (c.val + ('a'.val - 'A'.val)).toNat = c.toNat + 32
    rw [UInt32.toNat_add]
    show (c.toNat + 32) % 2 ^ 32 = c.toNat + 32
    omega
  · exact .inl rfl

theorem toLower_toLower (c : Char) : c.toLower.toLower = c.toLower := by
  rcases toLower_cases c.toLower with h | ⟨hlow, hhigh, -⟩
  · exact h
  · rcases toLower_cases c with h | ⟨hlow', -, hnat⟩
    · rw [h, h]
    · omega

/-- A character that is no letter is not the lower case of another one. -/
theorem toLower_eq_iff (hsmall : sep.toNat < 97 ∨ 122 < sep.toNat) (hself : sep.toLower = sep) :
    c.toLower = sep ↔ c = sep := by
  constructor
  · intro h
    rcases toLower_cases c with hsame | ⟨hlow, hhigh, hnat⟩
    · rw [← hsame, h]
    · rw [h] at hnat
      omega
  · rintro rfl
    exact hself

theorem isBlank_toLower (c : Char) : isBlank c.toLower = isBlank c := by
  rcases toLower_cases c with h | ⟨hlow, hhigh, hnat⟩
  · rw [h]
  · have hblank : ∀ d : Char, 65 ≤ d.toNat → d.toNat ≤ 122 → isBlank d = false := by
      intro d hd hd'
      simp only [isBlank, Bool.or_eq_false_iff, Bool.and_eq_false_iff, decide_eq_false_iff_not,
        beq_eq_false_iff_ne]
      omega
    rw [hblank c hlow (by omega), hblank c.toLower (by omega) (by omega)]

theorem lower_eq_iff : lower a = lower b ↔
    a.toList.map Char.toLower = b.toList.map Char.toLower := by
  rw [lower, lower, ← String.toList_inj, String.toList_ofList, String.toList_ofList]

theorem sameLetters_iff : sameLetters a b = true ↔ lower a = lower b := by
  rw [sameLetters, beq_iff_eq, lower_eq_iff]

theorem lower_lower (a : String) : lower (lower a) = lower a := by
  rw [lower_eq_iff, lower, String.toList_ofList, List.map_map]
  exact List.map_congr_left fun c _ => toLower_toLower c

theorem lower_eq_empty_iff : lower a = "" ↔ a = "" := by
  rw [← String.toList_inj, lower, String.toList_ofList]
  show a.toList.map Char.toLower = [] ↔ _
  rw [List.map_eq_nil_iff, ← String.toList_inj]
  rfl

theorem trim_map_toLower (cs : List Char) :
    trim (cs.map Char.toLower) = (trim cs).map Char.toLower :=
  trimBy_map isBlank_toLower cs

theorem before_map_toLower (hsmall : sep.toNat < 97 ∨ 122 < sep.toNat)
    (hself : sep.toLower = sep) (cs : List Char) :
    before sep (cs.map Char.toLower) = (before sep cs).map Char.toLower := by
  rw [before, before, List.takeWhile_map]
  congr 2
  funext c
  have hiff := toLower_eq_iff (c := c) hsmall hself
  rw [Function.comp, Bool.eq_iff_iff, bne_iff_ne, bne_iff_ne]
  exact not_congr hiff

end AppServer.Text
