import Kerf.Text.Blank
import Kerf.Text.Radix

/-!
# Texts in any letter case

Texts that are the same but for the case of their letters are put together from such parts
(`sameIgnoringCase_append_iff`), open with the same words (`isSome_afterIgnoringCase?`),
and have digits with the same values (`digitValue?_toLower`).
-/

namespace Kerf.Text

theorem sameIgnoringCase_iff {a b : List Char} :
    sameIgnoringCase a b = true ↔ a.map Char.toLower = b.map Char.toLower :=
  beq_iff_eq

theorem sameIgnoringCase_nil_iff {text : List Char} :
    sameIgnoringCase text [] = true ↔ text = [] := by
  rw [sameIgnoringCase_iff, List.map_nil, List.map_eq_nil_iff]

theorem sameIgnoringCase_cons_iff {text rest : List Char} {c : Char} :
    sameIgnoringCase text (c :: rest) = true ↔
      ∃ first others, text = first :: others ∧ first.toLower = c.toLower ∧
        sameIgnoringCase others rest = true := by
  simp only [sameIgnoringCase_iff, List.map_cons, List.map_eq_cons_iff]

theorem sameIgnoringCase_append_iff {text a b : List Char} :
    sameIgnoringCase text (a ++ b) = true ↔
      ∃ front rest, text = front ++ rest ∧ sameIgnoringCase front a = true ∧
        sameIgnoringCase rest b = true := by
  simp only [sameIgnoringCase_iff, List.map_append, List.map_eq_append_iff]

/-- What is behind an opening word has such a word in front of it. -/
theorem afterIgnoringCase?_eq_some_iff {word text rest : List Char} :
    afterIgnoringCase? word text = some rest ↔
      ∃ front, sameIgnoringCase front word = true ∧ text = front ++ rest := by
  induction word generalizing text with
  | nil => simp [afterIgnoringCase?, sameIgnoringCase_nil_iff]
  | cons w word ih =>
    constructor
    · intro h
      cases text with
      | nil => cases h
      | cons c text =>
        rw [afterIgnoringCase?] at h
        split at h
        · next hc =>
          -- one character is taken from both
          obtain ⟨front, hfront, rfl⟩ := ih.mp h
          exact ⟨c :: front, sameIgnoringCase_cons_iff.mpr ⟨c, front, rfl, hc.symm, hfront⟩,
            rfl⟩
        · cases h
    · rintro ⟨front, hfront, rfl⟩
      obtain ⟨c, others, rfl, hc, hothers⟩ := sameIgnoringCase_cons_iff.mp hfront
      rw [List.cons_append, afterIgnoringCase?, if_pos hc.symm]
      exact ih.mpr ⟨others, hothers, rfl⟩

/-- Texts that are the same but for their case open with the same words. -/
theorem isSome_afterIgnoringCase? {a b : List Char} (h : sameIgnoringCase a b = true)
    (word : List Char) :
    (afterIgnoringCase? word a).isSome = (afterIgnoringCase? word b).isSome := by
  rw [sameIgnoringCase_iff] at h
  induction word generalizing a b with
  | nil => rfl
  | cons w word ih =>
    cases a with
    | nil =>
      cases b with
      | nil => rfl
      | cons d b => cases h
    | cons c a =>
      cases b with
      | nil => cases h
      | cons d b =>
        obtain ⟨hhead, htail⟩ := List.cons.inj h
        rw [afterIgnoringCase?, afterIgnoringCase?, hhead]
        by_cases hw : w.toLower = d.toLower
        · rw [if_pos hw, if_pos hw]
          exact ih htail
        · rw [if_neg hw, if_neg hw]

/-! ## Letters and digits -/

theorem toNat_toLower (c : Char) :
    c.toLower.toNat = if 65 ≤ c.toNat ∧ c.toNat ≤ 90 then c.toNat + 32 else c.toNat := by
  unfold Char.toLower
  split
  · next h =>
    have hlow : 65 ≤ c.toNat := UInt32.le_iff_toNat_le.mp h.1
    have hhigh : c.toNat ≤ 90 := UInt32.le_iff_toNat_le.mp h.2
    rw [if_pos ⟨hlow, hhigh⟩]
    have hsmall : c.toNat + 32 < 4294967296 := by omega
    exact (UInt32.toNat_add c.val 32).trans (Nat.mod_eq_of_lt hsmall)
  · next h =>
    rw [if_neg fun hbounds =>
      h ⟨UInt32.le_iff_toNat_le.mpr hbounds.1, UInt32.le_iff_toNat_le.mpr hbounds.2⟩]

theorem toNat_toUpper (c : Char) :
    c.toUpper.toNat = if 97 ≤ c.toNat ∧ c.toNat ≤ 122 then c.toNat - 32 else c.toNat := by
  unfold Char.toUpper
  split
  · next h =>
    have hlow : 97 ≤ c.toNat := UInt32.le_iff_toNat_le.mp h.1
    have hhigh : c.toNat ≤ 122 := UInt32.le_iff_toNat_le.mp h.2
    rw [if_pos ⟨hlow, hhigh⟩]
    -- the difference of the cases is taken off by adding what is left of the range
    have hwrap : (c.val + ('A'.val - 'a'.val)).toNat = (c.toNat + 4294967264) % 4294967296 :=
      UInt32.toNat_add c.val ('A'.val - 'a'.val)
    refine hwrap.trans ?_
    omega
  · next h =>
    rw [if_neg fun hbounds =>
      h ⟨UInt32.le_iff_toNat_le.mpr hbounds.1, UInt32.le_iff_toNat_le.mpr hbounds.2⟩]

/-- A capital letter is made of itself and of the small one. -/
theorem toUpper_eq_iff {c d : Char} (hd : 65 ≤ d.toNat ∧ d.toNat ≤ 90) :
    c.toUpper = d ↔ c = d ∨ c = d.toLower := by
  rw [← Char.toNat_inj, ← Char.toNat_inj, ← Char.toNat_inj (c := c) (d := d.toLower),
    toNat_toUpper, toNat_toLower, if_pos hd]
  split
  · omega
  · omega

/-- Only letters have a case. -/
theorem eq_of_toLower_eq {c d : Char} (hd : d.toNat < 97 ∨ 122 < d.toNat) (h : c.toLower = d) :
    c = d := by
  have hcode : c.toLower.toNat = d.toNat := congrArg Char.toNat h
  rw [toNat_toLower] at hcode
  split at hcode
  · omega
  · exact Char.toNat_inj.mp hcode

theorem digitValue?_eq (c : Char) :
    digitValue? c =
      if 48 ≤ c.toNat ∧ c.toNat ≤ 57 then some (c.toNat - 48)
      else if 97 ≤ c.toNat ∧ c.toNat ≤ 102 then some (c.toNat - 97 + 10)
      else if 65 ≤ c.toNat ∧ c.toNat ≤ 70 then some (c.toNat - 65 + 10)
      else none := by
  simp only [digitValue?, Char.le_def, UInt32.le_iff_toNat_le]
  rfl

/-- Digits have the same values in either case. -/
theorem digitValue?_toLower (c : Char) : digitValue? c.toLower = digitValue? c := by
  rw [digitValue?_eq, digitValue?_eq, toNat_toLower]
  by_cases h : 65 ≤ c.toNat ∧ c.toNat ≤ 90
  · grind
  · rw [if_neg h]

end Kerf.Text
