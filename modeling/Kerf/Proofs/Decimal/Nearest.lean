import Mathlib.Algebra.Order.Field.Power
import Mathlib.Data.Rat.Cast.Order
import Mathlib.Tactic.FieldSimp
import Mathlib.Tactic.NormNum
import Mathlib.Tactic.Positivity
import Kerf.Decimal.Shortest

/-!
# Nearest magnitudes

The index that is found for a decimal depends on the number that the decimal stands for,
and on nothing else (`nearestToDecimal_congr`): zeros at the end of its digits do not
matter, nor where the point stands, nor the shortcuts for powers far outside of the range.
A number that is a magnitude has the index of that magnitude
(`nearestToDecimal_of_eq_magnitude`). So all digits of a magnitude read back as it, and
with them the shortest ones (`nearestToDecimal_shortest`).

Numbers are compared as rational numbers here, and the quotients that the definitions work
with are taken to them.
-/

namespace Kerf.Decimal

variable {num den num' den' index coefficient coefficient' : Nat} {power power' : Int}

/-! ## Quotients -/

theorem cast_natPow (base n : Nat) : ((Nat.pow base n : Nat) : ℚ) = (base : ℚ) ^ n :=
  Nat.cast_pow base n

theorem natPow_pos {base : Nat} (h : 0 < base) (n : Nat) : 0 < Nat.pow base n :=
  Nat.pow_pos h

theorem snd_scaleDown_pos (hden : 0 < den) (num : Nat) (shift : Int) :
    0 < (scaleDown num den shift).2 := by
  unfold scaleDown
  split
  · exact Nat.mul_pos hden (natPow_pos (by decide) _)
  · exact hden

theorem scaleDown_div (num den : Nat) (shift : Int) :
    ((scaleDown num den shift).1 : ℚ) / (scaleDown num den shift).2 =
      (num : ℚ) / den / 2 ^ shift := by
  unfold scaleDown
  split
  · next h =>
    obtain ⟨n, rfl⟩ := Int.eq_ofNat_of_zero_le h
    rw [Int.toNat_natCast, zpow_natCast, Nat.cast_mul, cast_natPow, div_div]
    rfl
  · next h =>
    obtain ⟨n, rfl⟩ : ∃ n : Nat, shift = -n := ⟨(-shift).toNat, by omega⟩
    rw [neg_neg, Int.toNat_natCast, zpow_neg, zpow_natCast, div_inv_eq_mul, Nat.cast_mul,
      cast_natPow, div_mul_eq_mul_div]
    rfl

/-- The powers of two on either side of a quotient. -/
theorem floorLog2_spec (hnum : 0 < num) (hden : 0 < den) :
    (2 : ℚ) ^ floorLog2 num den ≤ num / den ∧
      (num : ℚ) / den < 2 ^ (floorLog2 num den + 1) := by
  have hden' : (0 : ℚ) < den := Nat.cast_pos.mpr hden
  have hnumLow : (2 : ℚ) ^ num.log2 ≤ num := by exact_mod_cast Nat.log2_self_le hnum.ne'
  have hnumHigh : (num : ℚ) < 2 ^ (num.log2 + 1) := by exact_mod_cast Nat.lt_log2_self
  have hdenLow : (2 : ℚ) ^ den.log2 ≤ den := by exact_mod_cast Nat.log2_self_le hden.ne'
  have hdenHigh : (den : ℚ) < 2 ^ (den.log2 + 1) := by exact_mod_cast Nat.lt_log2_self
  -- the guess is off by one at most
  have hlow : (2 : ℚ) ^ ((num.log2 : Int) - den.log2 - 1) ≤ num / den := by
    rw [le_div_iff₀ hden']
    calc (2 : ℚ) ^ ((num.log2 : Int) - den.log2 - 1) * den
        ≤ 2 ^ ((num.log2 : Int) - den.log2 - 1) * 2 ^ (den.log2 + 1) := by gcongr
      _ = 2 ^ num.log2 := by
        rw [← zpow_natCast, ← zpow_natCast, ← zpow_add₀ two_ne_zero]
        congr 1
        omega
      _ ≤ num := hnumLow
  have hhigh : (num : ℚ) / den < 2 ^ ((num.log2 : Int) - den.log2 + 1) := by
    rw [div_lt_iff₀ hden']
    calc (num : ℚ) < 2 ^ (num.log2 + 1) := hnumHigh
      _ = 2 ^ ((num.log2 : Int) - den.log2 + 1) * 2 ^ den.log2 := by
        rw [← zpow_natCast, ← zpow_natCast, ← zpow_add₀ two_ne_zero]
        congr 1
        omega
      _ ≤ 2 ^ ((num.log2 : Int) - den.log2 + 1) * den := by gcongr
  -- and comparing with the power guessed says which way
  have hguess : (scaleDown num den ((num.log2 : Int) - den.log2)).2 ≤
      (scaleDown num den ((num.log2 : Int) - den.log2)).1 ↔
        (2 : ℚ) ^ ((num.log2 : Int) - den.log2) ≤ num / den := by
    have hpos := snd_scaleDown_pos hden num ((num.log2 : Int) - den.log2)
    rw [← Nat.cast_le (α := ℚ), ← one_le_div (Nat.cast_pos.mpr hpos), scaleDown_div,
      one_le_div (by positivity)]
  show (2 : ℚ) ^ (if _ then _ else _ : Int) ≤ _ ∧ _ < (2 : ℚ) ^ ((if _ then _ else _ : Int) + 1)
  split
  · next h => exact ⟨hguess.mp h, hhigh⟩
  · next h =>
    rw [sub_add_cancel]
    exact ⟨hlow, lt_of_not_ge fun hle => h (hguess.mpr hle)⟩

theorem floorLog2_eq (hnum : 0 < num) (hden : 0 < den) {e : Int}
    (hlow : (2 : ℚ) ^ e ≤ num / den) (hhigh : (num : ℚ) / den < 2 ^ (e + 1)) :
    floorLog2 num den = e := by
  obtain ⟨hlow', hhigh'⟩ := floorLog2_spec hnum hden
  have hlt : floorLog2 num den < e + 1 :=
    (zpow_lt_zpow_iff_right₀ (one_lt_two (α := ℚ))).mp (hlow'.trans_lt hhigh)
  have hgt : e < floorLog2 num den + 1 :=
    (zpow_lt_zpow_iff_right₀ (one_lt_two (α := ℚ))).mp (hlow.trans_lt hhigh')
  omega

theorem roundHalfEven_mul_left {k : Nat} (hk : 0 < k) (num den : Nat) :
    roundHalfEven (k * num) (k * den) = roundHalfEven num den := by
  have hlt : ∀ a b : Nat, k * a < k * b ↔ a < b := fun a b => Nat.mul_lt_mul_left hk
  have htwice : 2 * (k * (num % den)) = k * (2 * (num % den)) := Nat.mul_left_comm ..
  simp only [roundHalfEven, Nat.mul_div_mul_left _ _ hk, Nat.mul_mod_mul_left, htwice, hlt]

/-- Rounding depends on the quotient only. -/
theorem roundHalfEven_congr (hden : 0 < den) (hden' : 0 < den')
    (h : (num : ℚ) / den = num' / den') : roundHalfEven num den = roundHalfEven num' den' := by
  rw [div_eq_div_iff (by positivity) (by positivity)] at h
  have hcross : num * den' = num' * den := by exact_mod_cast h
  calc roundHalfEven num den = roundHalfEven (den' * num) (den' * den) :=
        (roundHalfEven_mul_left hden' num den).symm
    _ = roundHalfEven (den * num') (den * den') := by
        rw [Nat.mul_comm den' num, hcross, Nat.mul_comm num' den, Nat.mul_comm den' den]
    _ = roundHalfEven num' den' := roundHalfEven_mul_left hden num' den'

/-! ## Indices of quotients -/

/-- The index depends on the quotient only. -/
theorem nearestIndex_congr (hden : 0 < den) (hden' : 0 < den')
    (h : (num : ℚ) / den = num' / den') : nearestIndex num den = nearestIndex num' den' := by
  have hq : (0 : ℚ) < den := Nat.cast_pos.mpr hden
  have hq' : (0 : ℚ) < den' := Nat.cast_pos.mpr hden'
  have hzero : num = 0 ↔ num' = 0 := by
    have hiff : (num : ℚ) / den = 0 ↔ (num' : ℚ) / den' = 0 := by rw [h]
    rwa [div_eq_zero_iff, div_eq_zero_iff, or_iff_left hq.ne', or_iff_left hq'.ne',
      Nat.cast_eq_zero, Nat.cast_eq_zero] at hiff
  unfold nearestIndex
  by_cases hnum : num = 0
  · rw [if_pos hnum, if_pos (hzero.mp hnum)]
  · have hnum' : num' ≠ 0 := fun hnum' => hnum (hzero.mpr hnum')
    have hlog : floorLog2 num den = floorLog2 num' den' := by
      obtain ⟨hlow, hhigh⟩ := floorLog2_spec (Nat.pos_of_ne_zero hnum') hden'
      exact floorLog2_eq (Nat.pos_of_ne_zero hnum) hden (h ▸ hlow) (h ▸ hhigh)
    rw [if_neg hnum, if_neg hnum']
    dsimp only
    rw [hlog, roundHalfEven_congr (snd_scaleDown_pos hden _ _) (snd_scaleDown_pos hden' _ _)
      (by rw [scaleDown_div, scaleDown_div, h])]

/-- Numbers from `2 ^ 1024` on have no finite magnitude next to them. -/
theorem nearestIndex_eq_infinityIndex (hden : 0 < den)
    (h : (2 : ℚ) ^ (1024 : Int) ≤ num / den) :
    nearestIndex num den = infinityIndex := by
  have hnum : 0 < num := by
    rw [Nat.pos_iff_ne_zero]
    rintro rfl
    rw [Nat.cast_zero, zero_div] at h
    exact absurd h (not_le.mpr (by positivity))
  obtain ⟨hlow, hhigh⟩ := floorLog2_spec hnum hden
  have hlog : 1024 < floorLog2 num den + 1 :=
    (zpow_lt_zpow_iff_right₀ (one_lt_two (α := ℚ))).mp (h.trans_lt hhigh)
  unfold nearestIndex
  rw [if_neg hnum.ne', max_eq_right (by omega)]
  dsimp only
  -- scaled down, the number has at least the bits of a mantissa
  have hpos := snd_scaleDown_pos hden num (floorLog2 num den - 52)
  have hbits : (2 : ℚ) ^ 52 * 2 ^ (floorLog2 num den - 52) ≤ num / den := by
    rw [← zpow_natCast, ← zpow_add₀ two_ne_zero, Nat.cast_ofNat, add_sub_cancel]
    exact hlow
  have hscaled : Nat.pow 2 52 ≤ (scaleDown num den (floorLog2 num den - 52)).1 /
      (scaleDown num den (floorLog2 num den - 52)).2 := by
    rw [Nat.le_div_iff_mul_le hpos, ← Nat.cast_le (α := ℚ), Nat.cast_mul,
      ← le_div_iff₀ (Nat.cast_pos.mpr hpos), scaleDown_div, cast_natPow, Nat.cast_ofNat,
      le_div_iff₀ (by positivity)]
    exact hbits
  have hround := roundHalfEven_eq_or (scaleDown num den (floorLog2 num den - 52)).1
    (scaleDown num den (floorLog2 num den - 52)).2
  refine Nat.min_eq_right ?_
  have h52 : Nat.pow 2 52 = 4503599627370496 := rfl
  have hplace : 2046 ≤ (floorLog2 num den - 52 + 1074).toNat := by omega
  unfold infinityIndex
  rw [h52] at hscaled ⊢
  omega

/-- Numbers below half of the least magnitude are next to zero. -/
theorem nearestIndex_eq_zero (hden : 0 < den) (h : (num : ℚ) / den < 2 ^ (-1075 : Int)) :
    nearestIndex num den = 0 := by
  unfold nearestIndex
  by_cases hnum : num = 0
  · rw [if_pos hnum]
  · obtain ⟨hlow, _⟩ := floorLog2_spec (Nat.pos_of_ne_zero hnum) hden
    have hlog : floorLog2 num den < -1075 :=
      (zpow_lt_zpow_iff_right₀ (one_lt_two (α := ℚ))).mp (hlow.trans_lt h)
    rw [if_neg hnum, max_eq_left (by omega)]
    dsimp only
    have hpos := snd_scaleDown_pos hden num (-1074)
    -- scaled down, the number is less than a half
    have hhalf :
        ((scaleDown num den (-1074)).1 : ℚ) / (scaleDown num den (-1074)).2 < 1 / 2 := by
      rw [scaleDown_div, div_lt_iff₀ (by positivity)]
      calc (num : ℚ) / den < 2 ^ (-1075 : Int) := h
        _ = 1 / 2 * 2 ^ (-1074 : Int) := by
          rw [one_div, ← zpow_neg_one, ← zpow_add₀ two_ne_zero]
          rfl
    rw [div_lt_div_iff₀ (Nat.cast_pos.mpr hpos) two_pos, one_mul] at hhalf
    have htwice : (scaleDown num den (-1074)).1 * 2 < (scaleDown num den (-1074)).2 := by
      exact_mod_cast hhalf
    have hround : roundHalfEven (scaleDown num den (-1074)).1 (scaleDown num den (-1074)).2 =
        0 := by
      have hlt : (scaleDown num den (-1074)).1 < (scaleDown num den (-1074)).2 := by omega
      simp only [roundHalfEven, Nat.mod_eq_of_lt hlt, Nat.div_eq_of_lt hlt]
      rw [if_pos (by omega)]
    rw [hround]
    rfl

/-! ## Indices of magnitudes -/

theorem mantissa_pos (hindex : index ≠ 0) : 0 < mantissa index := by
  have h52 : Nat.pow 2 52 = 4503599627370496 := rfl
  unfold mantissa
  split <;> omega

/-- Scaled down by its own exponent, a magnitude is its mantissa. -/
theorem roundHalfEven_scaleDown_exponent (hden : 0 < den)
    (h : (num : ℚ) / den = mantissa index * 2 ^ exponent index) :
    roundHalfEven (scaleDown num den (exponent index)).1
      (scaleDown num den (exponent index)).2 = mantissa index := by
  have hpos := snd_scaleDown_pos hden num (exponent index)
  have hquotient : ((scaleDown num den (exponent index)).1 : ℚ) /
      (scaleDown num den (exponent index)).2 = (mantissa index * 1 : Nat) / (1 : Nat) := by
    rw [scaleDown_div, h, mul_div_assoc, div_self (by positivity), mul_one, Nat.cast_one,
      div_one, mul_one]
  rw [roundHalfEven_congr hpos one_pos hquotient, roundHalfEven_mul_right _ one_pos]

/-- The magnitudes in front of the normal ones are below the least of those. -/
theorem floorLog2_of_subnormal (hnum : 0 < num) (hden : 0 < den)
    (hsmall : index < Nat.pow 2 52)
    (h : (num : ℚ) / den = mantissa index * 2 ^ exponent index) :
    floorLog2 num den < -1022 := by
  obtain ⟨hlow, _⟩ := floorLog2_spec hnum hden
  refine (zpow_lt_zpow_iff_right₀ (one_lt_two (α := ℚ))).mp (hlow.trans_lt ?_)
  have hbits : (mantissa index : ℚ) < 2 ^ (52 : Int) := by
    have hlt : mantissa index < 2 ^ 52 := by rw [mantissa, if_pos hsmall]; exact hsmall
    exact_mod_cast hlt
  calc (num : ℚ) / den = mantissa index * 2 ^ (-1074 : Int) := by
        rw [h, exponent, if_pos hsmall]
    _ < 2 ^ (52 : Int) * 2 ^ (-1074 : Int) := by gcongr
    _ = 2 ^ (-1022 : Int) := by
      rw [← zpow_add₀ two_ne_zero]
      rfl

/-- With its leading one the mantissa of a normal magnitude has 53 bits. -/
theorem floorLog2_of_normal (hnum : 0 < num) (hden : 0 < den)
    (hnormal : ¬index < Nat.pow 2 52)
    (h : (num : ℚ) / den = mantissa index * 2 ^ exponent index) :
    floorLog2 num den = exponent index + 52 := by
  have h52 : Nat.pow 2 52 = 4503599627370496 := rfl
  have hlow : (2 : ℚ) ^ 52 ≤ mantissa index := by
    have hle : 2 ^ 52 ≤ mantissa index := by
      rw [mantissa, if_neg hnormal]
      exact Nat.le_add_right ..
    exact_mod_cast hle
  have hhigh : (mantissa index : ℚ) < 2 ^ 53 := by
    have hlt : mantissa index < 2 ^ 53 := by
      rw [mantissa, if_neg hnormal, h52]
      omega
    exact_mod_cast hlt
  refine floorLog2_eq hnum hden ?_ ?_
  · rw [h, zpow_add₀ two_ne_zero, mul_comm]
    exact mul_le_mul_of_nonneg_right hlow (by positivity)
  · rw [h, add_assoc, zpow_add₀ two_ne_zero, mul_comm]
    exact mul_lt_mul_of_pos_left hhigh (by positivity)

/-- The place of the exponent and the bits below the leading one make up the index. -/
theorem mantissa_add_place (hnormal : ¬index < Nat.pow 2 52) :
    mantissa index + (exponent index + 1074).toNat * Nat.pow 2 52 = index := by
  have h52 : Nat.pow 2 52 = 4503599627370496 := rfl
  rw [mantissa, exponent, if_neg hnormal, if_neg hnormal]
  rw [h52] at hnormal ⊢
  have hplace : ((index / 4503599627370496 : Nat) - 1075 + 1074 : Int).toNat =
      index / 4503599627370496 - 1 := by omega
  rw [hplace]
  omega

/-- A number that is a magnitude has the index of the magnitude. -/
theorem nearestIndex_of_eq_magnitude (hden : 0 < den) (hindex : index ≠ 0)
    (hfinite : index < infinityIndex)
    (h : (num : ℚ) / den = mantissa index * 2 ^ exponent index) :
    nearestIndex num den = index := by
  have hnum : 0 < num := by
    rw [Nat.pos_iff_ne_zero]
    rintro rfl
    rw [Nat.cast_zero, zero_div] at h
    have hmantissa : (0 : ℚ) < mantissa index := Nat.cast_pos.mpr (mantissa_pos hindex)
    exact absurd h.symm (mul_pos hmantissa (by positivity)).ne'
  have hround := roundHalfEven_scaleDown_exponent hden h
  unfold nearestIndex
  rw [if_neg hnum.ne']
  dsimp only
  -- either way the power that the number is scaled down by is its own exponent
  by_cases hsmall : index < Nat.pow 2 52
  · have hexponent : exponent index = -1074 := if_pos hsmall
    have hlog := floorLog2_of_subnormal hnum hden hsmall h
    rw [max_eq_left (by omega), ← hexponent, hround, hexponent, mantissa, if_pos hsmall]
    exact Nat.min_eq_left hfinite.le
  · have hleast : -1074 ≤ exponent index := by
      have h52 : Nat.pow 2 52 = 4503599627370496 := rfl
      rw [exponent, if_neg hsmall]
      rw [h52] at hsmall ⊢
      omega
    rw [floorLog2_of_normal hnum hden hsmall h, add_sub_cancel_right, max_eq_right hleast,
      hround, mantissa_add_place hsmall]
    exact Nat.min_eq_left hfinite.le

/-! ## Indices of decimals -/

/-- Where the powers of ten that are not computed lie among the powers of two. -/
theorem two_pow_le_ten_pow : (2 : ℚ) ^ (1203 : Int) ≤ 10 ^ (401 : Int) := by
  calc (2 : ℚ) ^ (1203 : Int) = (2 ^ (3 : Int)) ^ (401 : Int) := by rw [← zpow_mul]; rfl
    _ ≤ 10 ^ (401 : Int) := zpow_le_zpow_left₀ (by norm_num) (by positivity) (by norm_num)

/-- Great powers of ten lead past all finite magnitudes. -/
theorem two_pow_le_of_great (hcoefficient : coefficient ≠ 0) (hgreat : 400 < power) :
    (2 : ℚ) ^ (1024 : Int) ≤ coefficient * 10 ^ power := by
  have hone : (1 : ℚ) ≤ coefficient := by exact_mod_cast Nat.pos_of_ne_zero hcoefficient
  calc (2 : ℚ) ^ (1024 : Int) ≤ 2 ^ (1203 : Int) :=
        zpow_le_zpow_right₀ one_le_two (by norm_num)
    _ ≤ 10 ^ (401 : Int) := two_pow_le_ten_pow
    _ ≤ 10 ^ power := zpow_le_zpow_right₀ (by norm_num) (by omega)
    _ ≤ coefficient * 10 ^ power := le_mul_of_one_le_left (by positivity) hone

/-- Small powers of ten lead below all magnitudes, whatever the coefficient adds to them. -/
theorem lt_two_pow_of_small (hsmall : power + coefficient.log2 + 1 < -400) :
    (coefficient : ℚ) * 10 ^ power < 2 ^ (-1075 : Int) := by
  have hlog : (coefficient : ℚ) < 10 ^ (coefficient.log2 + 1) := by
    calc (coefficient : ℚ) < 2 ^ (coefficient.log2 + 1) := by
          exact_mod_cast Nat.lt_log2_self
      _ ≤ 10 ^ (coefficient.log2 + 1) := by gcongr; norm_num
  calc (coefficient : ℚ) * 10 ^ power < 10 ^ (coefficient.log2 + 1) * 10 ^ power := by gcongr
    _ = 10 ^ (power + coefficient.log2 + 1) := by
      rw [← zpow_natCast, ← zpow_add₀ (by norm_num)]
      congr 1
      omega
    _ ≤ 10 ^ (-401 : Int) := zpow_le_zpow_right₀ (by norm_num) (by omega)
    _ ≤ 2 ^ (-1203 : Int) := by
      rw [zpow_neg, zpow_neg]
      exact inv_anti₀ (by positivity) two_pow_le_ten_pow
    _ < 2 ^ (-1075 : Int) := zpow_lt_zpow_right₀ one_lt_two (by norm_num)

/-- The shortcuts for great and small powers give what would be computed. -/
theorem nearestToDecimal_eq (hden : 0 < den)
    (h : (num : ℚ) / den = coefficient * 10 ^ power) :
    nearestToDecimal coefficient power = nearestIndex num den := by
  unfold nearestToDecimal
  by_cases hcoefficient : coefficient = 0
  · have hzero : (num : ℚ) / den = 0 := by rw [h, hcoefficient, Nat.cast_zero, zero_mul]
    rw [if_pos hcoefficient, nearestIndex_eq_zero hden (by rw [hzero]; positivity)]
  rw [if_neg hcoefficient]
  split
  · next hgreat =>
    rw [nearestIndex_eq_infinityIndex hden (h ▸ two_pow_le_of_great hcoefficient hgreat)]
  split
  · next hsmall => rw [nearestIndex_eq_zero hden (h ▸ lt_two_pow_of_small hsmall)]
  split
  · next hwhole =>
    obtain ⟨n, rfl⟩ := Int.eq_ofNat_of_zero_le hwhole
    refine nearestIndex_congr one_pos hden ?_
    rw [h, Int.toNat_natCast, Nat.cast_mul, cast_natPow, Nat.cast_one, div_one, zpow_natCast]
    rfl
  · next hpart =>
    obtain ⟨n, rfl⟩ : ∃ n : Nat, power = -n := ⟨(-power).toNat, by omega⟩
    refine nearestIndex_congr (natPow_pos (by decide) _) hden ?_
    rw [h, neg_neg, Int.toNat_natCast, cast_natPow, zpow_neg, zpow_natCast, ← div_eq_mul_inv]
    rfl

/-- The number that a decimal stands for, as a quotient. -/
theorem exists_quotient (coefficient : Nat) (power : Int) :
    ∃ num den : Nat, 0 < den ∧ (num : ℚ) / den = coefficient * 10 ^ power := by
  cases power with
  | ofNat n =>
    refine ⟨coefficient * 10 ^ n, 1, one_pos, ?_⟩
    rw [Nat.cast_one, div_one, Int.ofNat_eq_natCast, zpow_natCast]
    push_cast
    rfl
  | negSucc n =>
    refine ⟨coefficient, 10 ^ (n + 1), by positivity, ?_⟩
    rw [zpow_negSucc, ← div_eq_mul_inv]
    push_cast
    rfl

/-- Decimals of the same number have the same index. -/
theorem nearestToDecimal_congr
    (h : (coefficient : ℚ) * 10 ^ power = coefficient' * 10 ^ power') :
    nearestToDecimal coefficient power = nearestToDecimal coefficient' power' := by
  obtain ⟨num, den, hden, hvalue⟩ := exists_quotient coefficient power
  rw [nearestToDecimal_eq hden hvalue, nearestToDecimal_eq hden (hvalue.trans h)]

theorem nearestToDecimal_of_eq_magnitude (hindex : index ≠ 0) (hfinite : index < infinityIndex)
    (h : (coefficient : ℚ) * 10 ^ power = mantissa index * 2 ^ exponent index) :
    nearestToDecimal coefficient power = index := by
  obtain ⟨num, den, hden, hvalue⟩ := exists_quotient coefficient power
  rw [nearestToDecimal_eq hden hvalue]
  exact nearestIndex_of_eq_magnitude hden hindex hfinite (hvalue.trans h)

/-! ## Reading back -/

/-- All digits of a magnitude stand for the magnitude. -/
theorem exactDecimal_value (mantissa : Nat) (exponent : Int) :
    ((exactDecimal mantissa exponent).1 : ℚ) * 10 ^ (exactDecimal mantissa exponent).2 =
      mantissa * 2 ^ exponent := by
  unfold exactDecimal
  split
  · next h =>
    obtain ⟨n, rfl⟩ := Int.eq_ofNat_of_zero_le h
    rw [Int.toNat_natCast, Nat.cast_mul, cast_natPow, zpow_zero, mul_one, zpow_natCast]
    rfl
  · next h =>
    obtain ⟨n, rfl⟩ : ∃ n : Nat, exponent = -n := ⟨(-exponent).toNat, by omega⟩
    rw [neg_neg, Int.toNat_natCast, Nat.cast_mul, cast_natPow, zpow_neg, zpow_neg, zpow_natCast,
      zpow_natCast, mul_assoc]
    congr 1
    have hten : (10 : ℚ) ^ n = 5 ^ n * 2 ^ n := by rw [← mul_pow]; norm_num
    rw [hten, mul_inv, ← mul_assoc, Nat.cast_ofNat, mul_inv_cancel₀ (by positivity), one_mul]

/-- **The shortest digits read back** as the magnitude that they are the digits of. -/
theorem nearestToDecimal_shortest (hindex : index ≠ 0) (hfinite : index < infinityIndex) :
    nearestToDecimal (shortest index).1 (shortest index).2 = index := by
  have hexact := nearestToDecimal_of_eq_magnitude hindex hfinite
    (exactDecimal_value (mantissa index) (exponent index))
  exact beq_iff_eq.mp (readsBack_shortest (beq_iff_eq.mpr hexact))

end Kerf.Decimal
