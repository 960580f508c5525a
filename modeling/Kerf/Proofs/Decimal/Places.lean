import Mathlib
import Kerf.Proofs.Decimal.Faithful

/-!
# Decimals with a fixed number of places

A finite float stands for a rational number (`exactValue`), and the decimal that is
written for it with a fixed number of places is the one nearest to that number.

- `exactValue_eq`: the number is the magnitude at the float's index, with the float's
  sign.
- `IsNearest`: of all multiples of a power of ten, the nearest to a number, and of two
  that are as near, the even one. `isNearest_unitsOf` says that units of the last place
  are rounded like this.
- `FixedDecimal`: what is written with a fixed number of places, with the laws of its
  digits. `FixedDecimal.ofUnits` is the decimal with some units of the last place, and it
  is written as `pointed` writes them.
-/

namespace Kerf.Decimal

/-! ## Exact values -/

section Values

open Float.Model (UnpackedFloat)
open Float.Model.UnpackedFloat

/-- The number that a finite float stands for; zero for all others. -/
def exactValue (x : Float) : ℚ :=
  match x.toModel.unpack with
  | .finite sign mantissa exponent _ => sign.apply mantissa * 2 ^ exponent
  | _ => 0

/-- The factor that a sign stands for. -/
def signFactor (negative : Bool) : ℤ :=
  if negative then -1 else 1

theorem signFactor_ne_zero (negative : Bool) : signFactor negative ≠ 0 := by
  cases negative <;> decide

theorem toNat_unpackMantissa (word : BitVec 64) :
    (@unpackMantissa .binary64 word).toNat = word.toNat % Nat.pow 2 52 := by
  simp only [unpackMantissa, BitVec.toNat_cast, BitVec.extractLsb_toNat]
  rfl

theorem toNat_unpackSign (word : BitVec 64) :
    (@unpackSign .binary64 word).toNat = word.toNat / Nat.pow 2 63 % 2 := by
  simp only [unpackSign, BitVec.toNat_cast, BitVec.extractLsb_toNat]
  rw [Nat.shiftRight_eq_div_pow]

/-- The first bit of a float is its sign. -/
theorem ofBitVec_unpackSign (x : Float) :
    Sign.ofBitVec (@unpackSign .binary64 x.toBits.toBitVec) =
      if isNegative x then .negative else .positive := by
  have hword : x.toBits.toNat < Nat.pow 2 64 := x.toBits.toBitVec.isLt
  have hbit := toNat_unpackSign x.toBits.toBitVec
  rw [UInt64.toNat_toBitVec] at hbit
  have h63 : Nat.pow 2 63 = 9223372036854775808 := rfl
  have h64 : Nat.pow 2 64 = 18446744073709551616 := rfl
  rw [h63] at hbit
  rw [h64] at hword
  by_cases hnegative : Nat.pow 2 63 ≤ x.toBits.toNat
  · have hone : ¬@unpackSign .binary64 x.toBits.toBitVec = 0#1 := by
      intro hzero
      rw [hzero, BitVec.toNat_zero] at hbit
      omega
    have hsign : isNegative x = true := decide_eq_true hnegative
    rw [Sign.ofBitVec, if_neg hone, hsign, if_pos rfl]
  · have hzero : @unpackSign .binary64 x.toBits.toBitVec = 0#1 := by
      refine BitVec.eq_of_toNat_eq ?_
      rw [BitVec.toNat_zero]
      omega
    have hsign : isNegative x = false := decide_eq_false hnegative
    rw [Sign.ofBitVec, if_pos hzero, hsign, if_neg Bool.false_ne_true]

theorem apply_sign (negative : Bool) (n : ℤ) :
    (if negative then Sign.negative else .positive).apply n = signFactor negative * n := by
  cases negative with
  | false => exact (one_mul n).symm
  | true => exact (neg_one_mul n).symm

section Parts

variable {x : Float}

/-- The index of a float is its exponent and its mantissa in one number. -/
theorem indexOf_eq_parts (x : Float) :
    indexOf x = (@unpackExponent .binary64 x.toBits.toBitVec).toNat * Nat.pow 2 52 +
      (@unpackMantissa .binary64 x.toBits.toBitVec).toNat := by
  have hexponent := toNat_unpackExponent x.toBits.toBitVec
  have hmantissa := toNat_unpackMantissa x.toBits.toBitVec
  rw [UInt64.toNat_toBitVec] at hexponent hmantissa
  -- the index is the word without its sign
  have hindex : indexOf x = x.toBits.toNat % Nat.pow 2 63 := rfl
  have h11 : Nat.pow 2 11 = 2048 := rfl
  have h52 : Nat.pow 2 52 = 4503599627370496 := rfl
  have h63 : Nat.pow 2 63 = 9223372036854775808 := rfl
  rw [h52, h11] at hexponent
  rw [h52] at hmantissa ⊢
  rw [h63] at hindex
  omega

/-- Below the normal ones, the index is the mantissa. -/
theorem indexOf_of_subnormal (hzero : @unpackExponent .binary64 x.toBits.toBitVec = 0#11) :
    indexOf x = (@unpackMantissa .binary64 x.toBits.toBitVec).toNat := by
  rw [indexOf_eq_parts, hzero, BitVec.toNat_zero, Nat.zero_mul, Nat.zero_add]

theorem not_indexOf_lt_of_normal
    (hzero : @unpackExponent .binary64 x.toBits.toBitVec ≠ 0#11) :
    ¬indexOf x < Nat.pow 2 52 := by
  have hne : (@unpackExponent .binary64 x.toBits.toBitVec).toNat ≠ 0 := fun heq =>
    hzero (BitVec.eq_of_toNat_eq heq)
  have h52 : Nat.pow 2 52 = 4503599627370496 := rfl
  rw [indexOf_eq_parts, h52]
  omega

/-- The normal ones have a leading one in front of the mantissa. -/
theorem mantissa_of_normal (hzero : @unpackExponent .binary64 x.toBits.toBitVec ≠ 0#11) :
    mantissa (indexOf x) = (1#1 ++ @unpackMantissa .binary64 x.toBits.toBitVec).toNat := by
  have hbits : (@unpackMantissa .binary64 x.toBits.toBitVec).toNat < Nat.pow 2 52 :=
    (@unpackMantissa .binary64 x.toBits.toBitVec).isLt
  rw [mantissa, if_neg (not_indexOf_lt_of_normal hzero), indexOf_eq_parts,
    Nat.mul_add_mod_self_right, Nat.mod_eq_of_lt hbits, toNat_leading_append]

theorem exponent_of_normal (hzero : @unpackExponent .binary64 x.toBits.toBitVec ≠ 0#11) :
    exponent (indexOf x) =
      (@unpackExponent .binary64 x.toBits.toBitVec).toNat - (1023 + 52) := by
  have hbits : (@unpackMantissa .binary64 x.toBits.toBitVec).toNat < Nat.pow 2 52 :=
    (@unpackMantissa .binary64 x.toBits.toBitVec).isLt
  have h52 : Nat.pow 2 52 = 4503599627370496 := rfl
  rw [exponent, if_neg (not_indexOf_lt_of_normal hzero), indexOf_eq_parts]
  rw [h52] at hbits ⊢
  omega

end Parts

/-- A finite float stands for the magnitude at its index, with its sign. -/
theorem exactValue_eq {x : Float} (h : x.isFinite = true) :
    exactValue x = signFactor (isNegative x) *
      (mantissa (indexOf x) * 2 ^ exponent (indexOf x) : ℚ) := by
  have hones := (isFinite_unpack_iff x.toBits.toBitVec).mp h
  have hsign := ofBitVec_unpackSign x
  have hunpack : x.toModel.unpack = unpack .binary64 x.toBits.toBitVec := rfl
  unfold exactValue
  rw [hunpack]
  unfold unpack
  dsimp only
  rw [if_neg hones]
  by_cases hzero : @unpackExponent .binary64 x.toBits.toBitVec = 0#11
  · have hvalue := indexOf_of_subnormal hzero
    have hsmall : indexOf x < Nat.pow 2 52 := by
      rw [hvalue]
      exact (@unpackMantissa .binary64 x.toBits.toBitVec).isLt
    rw [if_pos hzero, mantissa, exponent, if_pos hsmall, if_pos hsmall, hvalue]
    by_cases hnone : @unpackMantissa .binary64 x.toBits.toBitVec = 0#52
    · rw [dif_pos hnone, hnone]
      simp
    · rw [dif_neg hnone, hzero]
      show ((Sign.ofBitVec _).apply _ : ℚ) * 2 ^ (-1074 : ℤ) = _
      rw [hsign, apply_sign, Int.cast_mul, Int.cast_natCast, mul_assoc]
  · rw [if_neg hzero, mantissa_of_normal hzero, exponent_of_normal hzero]
    show ((Sign.ofBitVec _).apply
      ((1#1 ++ @unpackMantissa .binary64 x.toBits.toBitVec).toNat : ℤ) : ℚ) *
      2 ^ (((@unpackExponent .binary64 x.toBits.toBitVec).toNat : ℤ) - (1023 + 52)) = _
    rw [hsign, apply_sign, Int.cast_mul, Int.cast_natCast, mul_assoc]

/-- The sign of a float other than zero says on which side of zero it is. -/
theorem exactValue_neg_iff {x : Float} (h : x.isFinite = true)
    (hmantissa : mantissa (indexOf x) ≠ 0) :
    exactValue x < 0 ↔ isNegative x = true := by
  have hpos : (0 : ℚ) < mantissa (indexOf x) * 2 ^ exponent (indexOf x) :=
    mul_pos (Nat.cast_pos.mpr (Nat.pos_of_ne_zero hmantissa)) (by positivity)
  rw [exactValue_eq h]
  cases isNegative x with
  | false =>
    rw [signFactor, if_neg Bool.false_ne_true, Int.cast_one, one_mul]
    exact iff_of_false hpos.le.not_gt Bool.false_ne_true
  | true =>
    rw [signFactor, if_pos rfl, Int.cast_neg, Int.cast_one, neg_one_mul]
    exact iff_of_true (neg_lt_zero.mpr hpos) rfl

/-- A float that is not finite is an infinity or no number, as its index says. -/
theorem unpack_of_not_finite {x : Float} (h : x.isFinite = false) :
    x.toModel.unpack = if indexOf x = infinityIndex
      then .infinity (if isNegative x then .negative else .positive) else .notANumber := by
  have hones : @unpackExponent .binary64 x.toBits.toBitVec = -1#11 := by
    by_contra hne
    have hfinite : x.isFinite = true := (isFinite_unpack_iff x.toBits.toBitVec).mpr hne
    rw [h] at hfinite
    cases hfinite
  -- with all bits in the exponent, the mantissa is what the index is past infinity's
  have hindex := indexOf_eq_parts x
  have hinfinity : infinityIndex = (-1#11).toNat * Nat.pow 2 52 := rfl
  rw [hones, ← hinfinity] at hindex
  have hzero : @unpackMantissa .binary64 x.toBits.toBitVec = 0#52 ↔
      indexOf x = infinityIndex := by
    rw [← BitVec.toNat_inj, BitVec.toNat_zero]
    omega
  show unpack .binary64 x.toBits.toBitVec = _
  unfold unpack
  dsimp only
  rw [if_pos hones, ofBitVec_unpackSign]
  exact if_congr hzero rfl rfl

theorem not_lt_infinityIndex {x : Float} (h : x.isFinite = false) :
    ¬indexOf x < infinityIndex := by
  rw [← isFinite_iff, h]
  exact Bool.false_ne_true

theorem ofFloat_of_isNaN {x : Float} (h : x.isNaN = true) :
    Binary64.ofFloat x = .notANumber := by
  have hfinite : x.isFinite = false := by
    rw [← Bool.not_eq_true]
    intro hfinite
    rw [isNaN_of_isFinite hfinite] at h
    cases h
  have hunpack := unpack_of_not_finite hfinite
  have hindex : ¬indexOf x = infinityIndex := by
    intro hindex
    rw [if_pos hindex] at hunpack
    have hnan : x.toModel.unpack.isNaN = true := h
    rw [hunpack] at hnan
    cases hnan
  simp only [Binary64.ofFloat, not_lt_infinityIndex hfinite, hindex, if_false]

/-- The sign of an infinity says on which side of zero it is. -/
theorem ofFloat_of_isInf {x : Float} (h : x.isInf = true) :
    Binary64.ofFloat x = .infinite (decide (x < 0)) := by
  have hfinite : x.isFinite = false := by
    rw [← Bool.not_eq_true]
    intro hfinite
    rw [isInf_of_isFinite hfinite] at h
    cases h
  have hunpack := unpack_of_not_finite hfinite
  -- what is not finite and no infinity is not a number
  have hindex : indexOf x = infinityIndex := by
    by_contra hindex
    rw [if_neg hindex] at hunpack
    have hinf : x.toModel.unpack.isInf = true := h
    rw [hunpack] at hinf
    cases hinf
  rw [if_pos hindex] at hunpack
  have hzero : (0 : Float).toModel.unpack = .zero .positive := by rfl
  have hsign : x < 0 ↔ isNegative x = true := by
    have hlt : x < 0 ↔ UnpackedFloat.lt x.toModel.unpack (0 : Float).toModel.unpack = true :=
      decide_eq_true_iff
    rw [hlt, hzero, hunpack]
    cases isNegative x <;> decide
  have hnegative : decide (x < 0) = isNegative x := by
    rw [Bool.eq_iff_iff, decide_eq_true_iff]
    exact hsign
  have hinfinite : Binary64.ofFloat x = .infinite (isNegative x) := by
    unfold Binary64.ofFloat
    dsimp only
    rw [if_neg (not_lt_infinityIndex hfinite), if_pos hindex]
  rw [hinfinite, hnegative]

end Values

/-! ## The nearest multiple -/

/-- Of the multiples of a power of ten, the nearest one to a number; if two are as near,
then the even one. -/
structure IsNearest (places : Nat) (value : ℚ) (units : ℤ) : Prop where
  closest : ∀ other : ℤ, |value - units / 10 ^ places| ≤ |value - other / 10 ^ places|
  even_of_tie : ∀ other : ℤ, other ≠ units →
    |value - other / 10 ^ places| = |value - units / 10 ^ places| → Even units

/-- What is off by half a unit at most is nearest, and there is another one as near only
if it is off by half a unit. -/
theorem isNearest_of_abs_le_half {places : Nat} {value : ℚ} {units : ℤ}
    (hhalf : |value * 10 ^ places - units| ≤ 1 / 2)
    (heven : |value * 10 ^ places - units| = 1 / 2 → Even units) :
    IsNearest places value units := by
  have hscale : (0 : ℚ) < 10 ^ places := by positivity
  have hdistance : ∀ n : ℤ, |value - n / 10 ^ places| =
      |value * 10 ^ places - n| / 10 ^ places := by
    intro n
    rw [eq_div_iff hscale.ne', ← abs_of_pos hscale, ← abs_mul, abs_of_pos hscale, sub_mul,
      div_mul_cancel₀ _ hscale.ne']
  -- another one is a unit away at least
  have hapart : ∀ other : ℤ, other ≠ units →
      1 ≤ |value * 10 ^ places - units| + |value * 10 ^ places - other| := by
    intro other hne
    have hunit : (1 : ℚ) ≤ |(other : ℚ) - units| := by
      exact_mod_cast Int.one_le_abs (sub_ne_zero.mpr hne)
    have htriangle := abs_sub_le (other : ℚ) (value * 10 ^ places) units
    rw [abs_sub_comm (other : ℚ) (value * 10 ^ places)] at htriangle
    linarith
  constructor
  -- no other one is nearer
  · intro other
    rw [hdistance, hdistance]
    refine div_le_div_of_nonneg_right ?_ hscale.le
    by_cases hother : other = units
    · rw [hother]
    · linarith [hapart other hother]
  -- and one that is as near is off by half a unit too
  · intro other hne htie
    rw [hdistance, hdistance, div_left_inj' hscale.ne'] at htie
    have hsum := hapart other hne
    exact heven (le_antisymm hhalf (by linarith))

theorem abs_div_sub_roundHalfEven_le (num : Nat) {den : Nat} (h : 0 < den) :
    |(num : ℚ) / den - roundHalfEven num den| ≤ 1 / 2 := by
  have hden : (0 : ℚ) < den := Nat.cast_pos.mpr h
  have hhigh : (2 * (roundHalfEven num den * den) : ℚ) ≤ 2 * num + den := by
    exact_mod_cast two_mul_roundHalfEven_le num h
  have hlow : (2 * num : ℚ) ≤ 2 * (roundHalfEven num den * den) + den := by
    exact_mod_cast le_two_mul_roundHalfEven num h
  rw [abs_le]
  constructor
  · rw [le_sub_iff_add_le, le_div_iff₀ hden]
    linarith
  · rw [sub_le_iff_le_add, div_le_iff₀ hden]
    linarith

/-- A quotient that is off by half a unit was halfway between two numbers. -/
theorem even_roundHalfEven {num den : Nat} (h : 0 < den)
    (htie : |(num : ℚ) / den - roundHalfEven num den| = 1 / 2) :
    Even (roundHalfEven num den) := by
  have hden : (0 : ℚ) < den := Nat.cast_pos.mpr h
  have hsplit : den * (num / den) + num % den = num := Nat.div_add_mod num den
  rw [Nat.even_iff]
  refine roundHalfEven_even_of_tie ?_
  -- twice the number lies between two even ones
  have htwice : 2 * num = 2 * (roundHalfEven num den * den) + den ∨
      2 * num + den = 2 * (roundHalfEven num den * den) := by
    rcases (abs_eq (by norm_num)).mp htie with hbelow | habove
    · left
      rw [sub_eq_iff_eq_add, div_eq_iff hden.ne'] at hbelow
      have hcast : (2 * num : ℚ) = 2 * (roundHalfEven num den * den) + den := by linarith
      exact_mod_cast hcast
    · right
      rw [sub_eq_iff_eq_add, div_eq_iff hden.ne'] at habove
      have hcast : (2 * num + den : ℚ) = 2 * (roundHalfEven num den * den) := by linarith
      exact_mod_cast hcast
  have hmod : num % den < den := Nat.mod_lt num h
  have hmul : num / den * den = den * (num / den) := Nat.mul_comm ..
  rcases roundHalfEven_eq_or num den with hdown | hup
  · rw [hdown, hmul] at htwice
    omega
  · rw [hup, Nat.add_mul, one_mul, hmul] at htwice
    omega

theorem snd_quotient_pos (mantissa : Nat) (exponent : ℤ) :
    0 < (quotient mantissa exponent).2 := by
  unfold quotient
  split
  · exact one_pos
  · exact natPow_pos (by decide) _

theorem quotient_value (mantissa : Nat) (exponent : ℤ) :
    ((quotient mantissa exponent).1 : ℚ) / (quotient mantissa exponent).2 =
      mantissa * 2 ^ exponent := by
  unfold quotient
  split
  · next h =>
    obtain ⟨n, rfl⟩ := Int.eq_ofNat_of_zero_le h
    rw [Int.toNat_natCast, Nat.cast_mul, cast_natPow, Nat.cast_one, div_one, zpow_natCast]
    rfl
  · next h =>
    obtain ⟨n, rfl⟩ : ∃ n : Nat, exponent = -n := ⟨(-exponent).toNat, by omega⟩
    rw [neg_neg, Int.toNat_natCast, cast_natPow, zpow_neg, zpow_natCast, ← div_eq_mul_inv]
    rfl

/-- Units of the last place are rounded to the nearest number of them. -/
theorem isNearest_unitsOf (negative : Bool) (places mantissa : Nat) (exponent : ℤ) :
    IsNearest places (signFactor negative * (mantissa * 2 ^ exponent))
      (signFactor negative * unitsOf places mantissa exponent) := by
  have hden := snd_quotient_pos mantissa exponent
  let num := (quotient mantissa exponent).1 * Nat.pow 10 places
  have hunits : unitsOf places mantissa exponent =
    roundHalfEven num (quotient mantissa exponent).2 := rfl
  have hquotient : (num : ℚ) / (quotient mantissa exponent).2 =
      mantissa * 2 ^ exponent * 10 ^ places := by
    rw [Nat.cast_mul, cast_natPow, mul_div_right_comm, quotient_value]
    rfl
  -- the sign does not change what is off
  have hoff : |(signFactor negative * (mantissa * 2 ^ exponent) : ℚ) * 10 ^ places -
      (signFactor negative * unitsOf places mantissa exponent : ℤ)| =
      |(num : ℚ) / (quotient mantissa exponent).2 - unitsOf places mantissa exponent| := by
    rw [hquotient, Int.cast_mul, Int.cast_natCast, mul_assoc, ← mul_sub, abs_mul]
    cases negative <;> simp [signFactor]
  -- what is rounded is off by half a unit at most
  refine isNearest_of_abs_le_half ?_ ?_
  · rw [hoff, hunits]
    exact abs_div_sub_roundHalfEven_le num hden
  · intro htie
    rw [hoff, hunits] at htie
    have heven := even_roundHalfEven hden htie
    exact ((Int.even_coe_nat _).mpr heven).mul_left _

/-- Zero is rounded to zero. -/
theorem unitsOf_eq_zero (places : Nat) {mantissa : Nat} (h : mantissa = 0) (exponent : ℤ) :
    unitsOf places mantissa exponent = 0 := by
  have hnum : (quotient mantissa exponent).1 * Nat.pow 10 places =
      0 * (quotient mantissa exponent).2 := by
    rw [h, quotient]
    split
    · rw [zero_mul, zero_mul, zero_mul]
    · rw [zero_mul, zero_mul]
  have hunits : unitsOf places mantissa exponent = roundHalfEven
    ((quotient mantissa exponent).1 * Nat.pow 10 places) (quotient mantissa exponent).2 := rfl
  rw [hunits, hnum, roundHalfEven_mul_right 0 (snd_quotient_pos mantissa exponent)]

/-! ## The layout -/

/-- A decimal as it is written with a fixed number of places. -/
structure FixedDecimal (places : Nat) where
  negative : Bool
  /-- The digits before the point. -/
  whole : List Char
  /-- The digits after the point. -/
  fraction : List Char
  isDigits_whole : IsDigits whole
  isDigit_fraction : ∀ c ∈ fraction, c.isDigit = true
  length_fraction : fraction.length = places
  /-- No zero stands in front of other digits. -/
  eq_zero_of_head? : '0' ∈ whole.head? → whole = ['0']

namespace FixedDecimal

variable {places : Nat}

/-- The characters of a decimal. There is a point only if there are places. -/
def text (decimal : FixedDecimal places) : List Char :=
  signed decimal.negative
    (decimal.whole ++ if places = 0 then [] else '.' :: decimal.fraction)

/-- The number that a decimal denotes, in units of its last place. -/
def units (decimal : FixedDecimal places) : ℤ :=
  signFactor decimal.negative * digitsValue (decimal.whole ++ decimal.fraction)

end FixedDecimal

/-- The digits of some units of the last place, with a digit before the point. -/
def digitsOf (places units : Nat) : List Char :=
  List.leftpad (places + 1) '0' (Nat.toDigits 10 units)

theorem digitsValue_digitsOf (places units : Nat) :
    digitsValue (digitsOf places units) = units := by
  rw [digitsOf, List.leftpad, digitsValue_zeros_append, digitsValue_toDigits]

theorem lt_length_digitsOf (places units : Nat) : places < (digitsOf places units).length := by
  rw [digitsOf, List.length_leftpad]
  omega

/-- Zeros are put in front only to have a digit before the point. -/
theorem take_digitsOf (places units : Nat)
    (hzero : '0' ∈
      ((digitsOf places units).take ((digitsOf places units).length - places)).head?) :
    (digitsOf places units).take ((digitsOf places units).length - places) = ['0'] := by
  have hlt := lt_length_digitsOf places units
  by_cases hshort : (Nat.toDigits 10 units).length ≤ places + 1
  · -- there is one digit before the point
    have hlength : (digitsOf places units).length = places + 1 := by
      rw [digitsOf, List.length_leftpad]
      omega
    rw [hlength, Nat.add_sub_cancel_left] at hzero ⊢
    obtain ⟨c, rest, hdigits⟩ := List.exists_cons_of_length_pos (Nat.zero_lt_of_lt hlt)
    rw [hdigits] at hzero ⊢
    rw [List.take_succ_cons, List.take_zero] at hzero ⊢
    rw [Option.mem_def.mp hzero |> Option.some.inj]
  -- all digits are those of the number, which does not start with a zero
  · have hdigits : digitsOf places units = Nat.toDigits 10 units := by
      rw [digitsOf, List.leftpad, Nat.sub_eq_zero_of_le (by omega)]
      rfl
    have hne : units ≠ 0 := by
      rintro rfl
      exact hshort (by simp [Nat.toDigits_zero])
    rw [hdigits] at hzero hlt
    rw [List.head?_take, if_neg (by omega)] at hzero
    exact absurd hzero (head?_toDigits_ne_zero hne)

namespace FixedDecimal

/-- The decimal with a sign and some units of the last place. -/
def ofUnits (negative : Bool) (places units : Nat) : FixedDecimal places where
  negative := negative
  whole := (digitsOf places units).take ((digitsOf places units).length - places)
  fraction := (digitsOf places units).drop ((digitsOf places units).length - places)
  isDigits_whole := by
    have hlt := lt_length_digitsOf places units
    refine ⟨?_, fun c hc => mem_leftpad (List.mem_of_mem_take hc)⟩
    rw [← List.length_pos_iff, List.length_take]
    omega
  isDigit_fraction := fun c hc => mem_leftpad (List.mem_of_mem_drop hc)
  length_fraction := by
    have hlt := lt_length_digitsOf places units
    rw [List.length_drop]
    omega
  eq_zero_of_head? := take_digitsOf places units

theorem text_ofUnits (negative : Bool) (places units : Nat) :
    (ofUnits negative places units).text = signed negative (pointed places units) := by
  show signed negative (_ ++ if places = 0 then [] else _) =
    signed negative (if places = 0 then _ else _)
  by_cases hplaces : places = 0
  · rw [if_pos hplaces, if_pos hplaces, List.append_nil]
    rfl
  · rw [if_neg hplaces, if_neg hplaces]
    rfl

theorem units_ofUnits (negative : Bool) (places units : Nat) :
    (ofUnits negative places units).units = signFactor negative * units := by
  show signFactor negative * (digitsValue (List.take _ _ ++ List.drop _ _) : ℤ) = _
  rw [List.take_append_drop, digitsValue_digitsOf]

end FixedDecimal

theorem mem_digitsOf_or {places units : Nat} {c : Char} (h : c ∈ pointed places units) :
    c ∈ digitsOf places units ∨ c = '.' := by
  rw [pointed] at h
  split at h
  · exact .inl (List.mem_of_mem_take h)
  · rcases List.mem_append.mp h with hwhole | hfraction
    · exact .inl (List.mem_of_mem_take hwhole)
    · rcases List.mem_cons.mp hfraction with hpoint | hdigit
      · exact .inr hpoint
      · exact .inl (List.mem_of_mem_drop hdigit)

theorem mem_pointed_of_mem_digitsOf {places units : Nat} {c : Char}
    (h : c ∈ digitsOf places units) : c ∈ pointed places units := by
  rw [pointed]
  split
  · next hplaces =>
    rw [hplaces, Nat.sub_zero, List.take_length]
    rw [hplaces] at h
    exact h
  · rw [List.mem_append, List.mem_cons]
    rw [← List.take_append_drop ((digitsOf places units).length - places)
      (digitsOf places units), List.mem_append] at h
    rcases h with hwhole | hfraction
    · exact .inl hwhole
    · exact .inr (.inr hfraction)

/-- Zero is written with zeros and a point only, and no other number is. -/
theorem all_pointed_iff (places units : Nat) :
    ((pointed places units).all fun c => c == '0' || c == '.') = true ↔ units = 0 := by
  rw [List.all_eq_true]
  constructor
  · intro hzeros
    -- all of the digits are zeros, so they stand for zero
    have hdigits : digitsOf places units =
        List.replicate (digitsOf places units).length '0' := by
      refine List.eq_replicate_iff.mpr ⟨rfl, fun c hc => ?_⟩
      have hc' := hzeros c (mem_pointed_of_mem_digitsOf hc)
      rw [Bool.or_eq_true, beq_iff_eq, beq_iff_eq] at hc'
      refine hc'.resolve_right ?_
      rintro rfl
      exact absurd (mem_leftpad hc) (by decide)
    rw [← digitsValue_digitsOf places units, hdigits, digitsValue_replicate]
  · rintro rfl c hc
    rcases mem_digitsOf_or hc with hdigit | rfl
    · have hzero : c = '0' := by
        rw [digitsOf, Nat.toDigits_zero, List.leftpad, List.mem_append] at hdigit
        exact hdigit.elim List.eq_of_mem_replicate List.mem_singleton.mp
      rw [hzero]
      rfl
    · rfl

end Kerf.Decimal
