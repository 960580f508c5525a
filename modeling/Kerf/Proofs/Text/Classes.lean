import Kerf.Text.Blank
import Kerf.Text.Digit

/-!
# Classes of characters

Where digits, letters and blanks are among the code points, so no character is in two of
these classes, and the case of letters is all that changes with the case of a text.
-/

namespace Kerf.Text

variable {c : Char}

/-! ## Digits -/

theorem toNat_of_isDigit (h : c.isDigit = true) : 48 ≤ c.toNat ∧ c.toNat ≤ 57 := by
  simp only [Char.isDigit, ge_iff_le, Bool.and_eq_true, decide_eq_true_eq] at h
  exact ⟨UInt32.le_iff_toNat_le.mp h.1, UInt32.le_iff_toNat_le.mp h.2⟩

theorem toLower_of_isDigit (h : c.isDigit = true) : c.toLower = c := by
  have hdigit := toNat_of_isDigit h
  unfold Char.toLower
  rw [dif_neg]
  intro hletter
  have hlow : 65 ≤ c.toNat := UInt32.le_iff_toNat_le.mp hletter.1
  omega

theorem toUpper_of_isDigit (h : c.isDigit = true) : c.toUpper = c := by
  have hdigit := toNat_of_isDigit h
  unfold Char.toUpper
  rw [dif_neg]
  intro hletter
  have hlow : 97 ≤ c.toNat := UInt32.le_iff_toNat_le.mp hletter.1
  omega

theorem toLower_ne_of_isDigit (h : c.isDigit = true) {letter : Char}
    (hletter : letter.isDigit = false) :
    c.toLower ≠ letter := by
  rw [toLower_of_isDigit h]
  rintro rfl
  rw [h] at hletter
  cases hletter

/-! ## Letters -/

theorem toNat_of_isAlpha (h : c.isAlpha = true) :
    65 ≤ c.toNat ∧ c.toNat ≤ 90 ∨ 97 ≤ c.toNat ∧ c.toNat ≤ 122 := by
  have hcase : c.isUpper = true ∨ c.isLower = true := Bool.or_eq_true_iff.mp h
  rcases hcase with hupper | hlower
  · have hbounds : c.val ≥ 65 ∧ c.val ≤ 90 := of_decide_eq_true hupper
    exact .inl ⟨UInt32.le_iff_toNat_le.mp hbounds.1, UInt32.le_iff_toNat_le.mp hbounds.2⟩
  · have hboth : (decide (c.val ≥ 97) && decide (c.val ≤ 122)) = true := hlower
    have hbounds : c.val ≥ 97 ∧ c.val ≤ 122 := by simpa using hboth
    exact .inr ⟨UInt32.le_iff_toNat_le.mp hbounds.1, UInt32.le_iff_toNat_le.mp hbounds.2⟩

theorem isDigit_of_isAlpha (h : c.isAlpha = true) : c.isDigit = false := by
  rw [Bool.eq_false_iff]
  intro hdigit
  have hletter := toNat_of_isAlpha h
  have hbounds := toNat_of_isDigit hdigit
  omega

/-- What is neither a letter nor a digit is told apart from letters by itself. -/
theorem ne_of_isAlpha {d : Char} (h : c.isAlpha = true) (hd : d.isAlpha = false) : c ≠ d := by
  rintro rfl
  rw [h] at hd
  cases hd

/-! ## Blanks -/

/-- The code points of blanks are none of those of the ASCII characters that are seen. -/
theorem toNat_of_isBlank (h : isBlank c = true) : c.toNat ≤ 32 ∨ 133 ≤ c.toNat := by
  simp only [isBlank, Bool.or_eq_true, Bool.and_eq_true, decide_eq_true_eq, beq_iff_eq] at h
  omega

theorem isDigit_of_isBlank (h : isBlank c = true) : c.isDigit = false := by
  rw [Bool.eq_false_iff]
  intro hdigit
  have hblank := toNat_of_isBlank h
  have hbounds := toNat_of_isDigit hdigit
  omega

theorem isAlpha_of_isBlank (h : isBlank c = true) : c.isAlpha = false := by
  rw [Bool.eq_false_iff]
  intro hletter
  have hblank := toNat_of_isBlank h
  have hbounds := toNat_of_isAlpha hletter
  omega

theorem toLower_of_isBlank (h : isBlank c = true) : c.toLower = c := by
  have hblank := toNat_of_isBlank h
  unfold Char.toLower
  rw [dif_neg]
  rintro ⟨hlow, hhigh⟩
  have hlow' : 65 ≤ c.toNat := UInt32.le_iff_toNat_le.mp hlow
  have hhigh' : c.toNat ≤ 90 := UInt32.le_iff_toNat_le.mp hhigh
  omega

theorem toUpper_of_isBlank (h : isBlank c = true) : c.toUpper = c := by
  have hblank := toNat_of_isBlank h
  unfold Char.toUpper
  rw [dif_neg]
  rintro ⟨hlow, hhigh⟩
  have hlow' : 97 ≤ c.toNat := UInt32.le_iff_toNat_le.mp hlow
  have hhigh' : c.toNat ≤ 122 := UInt32.le_iff_toNat_le.mp hhigh
  omega

theorem isBlank_of_isDigit (h : c.isDigit = true) : isBlank c = false := by
  rw [Bool.eq_false_iff]
  intro hblank
  rw [isDigit_of_isBlank hblank] at h
  cases h

/-- The code points of blanks one by one. -/
def blankCodes : List Nat :=
  [9, 10, 11, 12, 13, 0x20, 0x85, 0xA0, 0x1680, 0x2000, 0x2001, 0x2002, 0x2003, 0x2004, 0x2005,
    0x2006, 0x2007, 0x2008, 0x2009, 0x200A, 0x2028, 0x2029, 0x202F, 0x205F, 0x3000]

theorem toNat_mem_blankCodes (h : isBlank c = true) : c.toNat ∈ blankCodes := by
  simp only [isBlank, Bool.or_eq_true, Bool.and_eq_true, decide_eq_true_eq, beq_iff_eq] at h
  simp only [blankCodes, List.mem_cons, List.not_mem_nil, or_false]
  omega

/-- Blanks are not among the digits of any script. -/
theorem isAnyDigit_of_isBlank (h : isBlank c = true) : isDigit c = false := by
  have hall : blankCodes.all (fun n => !(zeros.any fun first => first ≤ n && n < first + 10)) =
    true := rfl
  have hcode := List.all_eq_true.mp hall c.toNat (toNat_mem_blankCodes h)
  rwa [Bool.not_eq_true'] at hcode

/-- Digits of any script have no case. -/
theorem toLower_of_isAnyDigit (h : isDigit c = true) : c.toLower = c := by
  have hall : zeros.all (fun first => first + 10 ≤ 65 || 90 < first) = true := rfl
  obtain ⟨first, hmem, hfirst⟩ := List.any_eq_true.mp h
  have hrange := List.all_eq_true.mp hall first hmem
  simp only [Bool.and_eq_true, Bool.or_eq_true, decide_eq_true_eq] at hfirst hrange
  unfold Char.toLower
  rw [dif_neg]
  rintro ⟨hlow, hhigh⟩
  have hlow' : 65 ≤ c.toNat := UInt32.le_iff_toNat_le.mp hlow
  have hhigh' : c.toNat ≤ 90 := UInt32.le_iff_toNat_le.mp hhigh
  omega

end Kerf.Text
