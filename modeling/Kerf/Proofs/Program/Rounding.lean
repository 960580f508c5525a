import Mathlib
import Kerf.Proofs.Decimal.Places
import Kerf.Proofs.Program.Words

/-!
# Numbers of programs are rounded to the nearest decimal

A number of a program is a decimal with at most ten places, without a sign on zero
(`formatNumber_of_finite`). It is the nearest of all decimals with so many places to the
number that the float stands for (`formatNumber_nearest`).
-/

namespace Kerf.Program

open Decimal
  (FixedDecimal IsNearest exactValue indexOf isNegative signed pointed unitsOf signFactor)

/-- A finite number is written as a decimal, with a sign only if the decimal is not zero. -/
theorem formatNumber_of_finite {x : Float} (h : x.isFinite = true) (places : Nat) :
    let units :=
      unitsOf (min places 10) (Decimal.mantissa (indexOf x)) (Decimal.exponent (indexOf x))
    formatNumber x places =
      signed (isNegative x && units != 0) (pointed (min places 10) units) := by
  intro units
  have hfixed : Written.fixed (min places Setup.maxPlaces) x =
      signed (isNegative x) (pointed (min places 10) units) := by
    show Decimal.fixed (min places 10) x = _
    rw [Decimal.fixed, Decimal.ofFloat_of_finite h]
  rw [formatNumber, hfixed]
  cases isNegative x with
  | false =>
    -- without a minus sign, the text starts with a digit
    obtain ⟨c, rest, hcons, hc⟩ :=
      (Decimal.isMagnitude_pointed (min places 10) units).exists_cons
    have hunsigned : ∀ text, signed false text = text := fun _ => rfl
    rw [Bool.false_and, hunsigned, hcons]
    split
    · next heq =>
      rw [(List.cons.inj heq).1] at hc
      exact absurd hc (by decide)
    · rfl
  | true =>
    show (if _ then _ else _) = _
    -- the sign is dropped where all digits are zeros
    by_cases hunits : units = 0
    · rw [if_pos ((Decimal.all_pointed_iff _ _).mpr hunits), hunits]
      rfl
    · rw [if_neg (mt (Decimal.all_pointed_iff _ _).mp hunits), Bool.true_and,
        bne_iff_ne.mpr hunits]
      rfl

/-- **Numbers of programs are rounded to the nearest decimal.** A finite number is written
as a decimal with so many places, or ten of them if more are asked for. Of all such
decimals it is the nearest to the number, or the even one of the two nearest, and it has a
minus sign exactly if the number is negative and the decimal is not zero. What is no
finite number has a name in its place. Nothing has an exponent, a plus sign or a blank. -/
theorem formatNumber_nearest (x : Float) (places : Nat) :
    (x.isFinite = true → ∃ decimal : FixedDecimal (min places 10),
      formatNumber x places = decimal.text ∧
      IsNearest (min places 10) (exactValue x) decimal.units ∧
      (decimal.negative = true ↔ exactValue x < 0 ∧ decimal.units ≠ 0)) ∧
    (x.isNaN = true → formatNumber x places = "NaN".toList) ∧
    (x.isInf = true → formatNumber x places = (if x < 0 then "-inf" else "inf").toList) ∧
    ∀ c ∈ ['e', 'E', '+', ' '], c ∉ formatNumber x places := by
  refine ⟨?_, ?_, ?_, ?_⟩
  · intro hfinite
    let mantissa := Decimal.mantissa (indexOf x)
    let exponent := Decimal.exponent (indexOf x)
    let units := unitsOf (min places 10) mantissa exponent
    refine ⟨.ofUnits (isNegative x && units != 0) (min places 10) units, ?_, ?_, ?_⟩
    · rw [FixedDecimal.text_ofUnits]
      exact formatNumber_of_finite hfinite places
    · -- of zero, the sign does not count
      have hunits : signFactor (isNegative x && units != 0) * units =
          signFactor (isNegative x) * units := by
        by_cases hzero : units = 0
        · simp [hzero]
        · rw [bne_iff_ne.mpr hzero, Bool.and_true]
      rw [FixedDecimal.units_ofUnits, hunits, Decimal.exactValue_eq hfinite]
      exact Decimal.isNearest_unitsOf (isNegative x) (min places 10) mantissa exponent
    · rw [FixedDecimal.units_ofUnits]
      show (isNegative x && units != 0) = true ↔ _
      rw [Bool.and_eq_true, bne_iff_ne, Ne, Ne, mul_eq_zero, Nat.cast_eq_zero,
        or_iff_right (Decimal.signFactor_ne_zero _)]
      refine and_congr_left fun hunits => (Decimal.exactValue_neg_iff hfinite ?_).symm
      -- a number other than zero was written, so there was one to round
      intro hmantissa
      exact hunits (Decimal.unitsOf_eq_zero (min places 10) hmantissa exponent)
  -- no number and the infinities have names, which are not rounded
  · intro hnan
    have hfixed : Written.fixed (min places Setup.maxPlaces) x = Decimal.nanText := by
      show Decimal.fixed (min places 10) x = _
      rw [Decimal.fixed, Decimal.ofFloat_of_isNaN hnan]
    rw [formatNumber, hfixed]
    rfl
  · intro hinf
    have hfixed : Written.fixed (min places Setup.maxPlaces) x =
        signed (decide (x < 0)) Decimal.infinityText := by
      show Decimal.fixed (min places 10) x = _
      rw [Decimal.fixed, Decimal.ofFloat_of_isInf hinf]
    rw [formatNumber, hfixed]
    by_cases hnegative : x < 0
    · rw [decide_eq_true hnegative, if_pos hnegative]
      rfl
    · rw [decide_eq_false hnegative, if_neg hnegative]
      rfl
  · intro c hc hmem
    -- none of the four is a character of a number or a name
    have hnone : ['e', 'E', '+', ' '].all (fun c => !Decimal.isNumberChar c) = true := rfl
    have hclass := List.all_eq_true.mp hnone c hc
    rw [isNumberChar_of_mem_formatNumber hmem] at hclass
    cases hclass

/-- A carry that goes over the point, through all digits. -/
theorem formatNumber_nearest_carry :
    Float.isFinite (-999.9996) = true ∧
      formatNumber (-999.9996 : Float) 3 = "-1000.000".toList ∧
      ∃ decimal : FixedDecimal 3, decimal.text = "-1000.000".toList ∧
        IsNearest 3 (exactValue (-999.9996)) decimal.units := by
  have hfinite : Float.isFinite (-999.9996) = true := by decide +kernel
  have htext : formatNumber (-999.9996 : Float) 3 = "-1000.000".toList := by decide +kernel
  obtain ⟨decimal, heq, hnearest, -⟩ := (formatNumber_nearest (-999.9996) 3).1 hfinite
  exact ⟨hfinite, htext, decimal, heq.symm.trans htext, hnearest⟩

/-- Halfway between two decimals, and just below zero. -/
example : formatNumber (0.125 : Float) 2 = "0.12".toList ∧
    formatNumber (-0.004 : Float) 2 = "0.00".toList := by decide +kernel

end Kerf.Program
