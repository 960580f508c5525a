import Mathlib
import Kerf.Proofs.Decimal.Notation

/-!
# Floats and their indices

A finite float is determined by its sign and the index of its magnitude
(`ofIndex_indexOf`), since its word is put together from what it is taken apart into
(`pack_unpack`).
-/

namespace Kerf.Decimal

section Bits

open Float.Model (UnpackedFloat)
open Float.Model.UnpackedFloat

theorem toBitVec_ofBitVec (bit : BitVec 1) : (Sign.ofBitVec bit).toBitVec = bit := by
  have hall : ∀ bit : BitVec 1, (Sign.ofBitVec bit).toBitVec = bit := by decide
  exact hall bit

/-- A word is its sign, its exponent and its mantissa. -/
theorem packComponents_unpack (word : BitVec 64) :
    packComponents .binary64 (Sign.ofBitVec (@unpackSign .binary64 word))
      (@unpackExponent .binary64 word) (@unpackMantissa .binary64 word) = word := by
  simp only [packComponents, toBitVec_ofBitVec, unpackSign, unpackExponent, unpackMantissa,
    BitVec.extractLsb]
  ext i hi
  grind

/-- A float below the normal ones has no bits in its exponent. -/
theorem pack_subnormal (sign : Sign) (mantissa : BitVec 52) (h : 0 < mantissa.toNat) :
    pack .binary64 (.finite sign mantissa.toNat (-1074) h) =
      packComponents .binary64 sign 0#11 mantissa := by
  have hlog : mantissa.toNat.log2 < 52 := (Nat.log2_lt h.ne').mpr mantissa.isLt
  have hbits : ¬ mantissa.toNat.log2 + 1 = Float.Model.Format.mantissaBits .binary64 := by
    show ¬ mantissa.toNat.log2 + 1 = 53
    omega
  unfold pack
  dsimp only
  rw [if_neg (by decide), if_neg hbits, BitVec.ofNat_toNat, BitVec.setWidth_eq]

theorem toNat_leading_append (mantissa : BitVec 52) :
    (1#1 ++ mantissa).toNat = Nat.pow 2 52 + mantissa.toNat := by
  rw [BitVec.toNat_append]
  exact (Nat.two_pow_add_eq_or_of_lt mantissa.isLt 1).symm

/-- The bits of the mantissa of a normal float follow a leading one that is left out. -/
theorem pack_normal (sign : Sign) (mantissa : BitVec 52) {exponent : BitVec 11}
    (hones : exponent ≠ -1#11) (h : 0 < (1#1 ++ mantissa).toNat) :
    pack .binary64 (.finite sign (1#1 ++ mantissa).toNat (exponent.toNat - 1075) h) =
      packComponents .binary64 sign exponent mantissa := by
  have hmantissa : mantissa.toNat < 2 ^ 52 := mantissa.isLt
  have hexponent : exponent.toNat < 2047 := by
    have hne : exponent.toNat ≠ 2047 := fun heq => hones (BitVec.eq_of_toNat_eq heq)
    have hlt : exponent.toNat < 2048 := exponent.isLt
    omega
  have hvalue : (1#1 ++ mantissa).toNat = 2 ^ 52 + mantissa.toNat :=
    toNat_leading_append mantissa
  -- with its leading one the mantissa has all of its bits, so the float is packed as normal
  have hlog : (1#1 ++ mantissa).toNat.log2 + 1 = Float.Model.Format.mantissaBits .binary64 := by
    have hleading : (1#1 ++ mantissa).toNat.log2 = 52 :=
      (Nat.log2_eq_iff h.ne').mpr ⟨by omega, by omega⟩
    rw [hleading]
    rfl
  -- the exponent is shifted back to what the word had
  have hbiased : ((exponent.toNat : Int) - 1075 + Float.Model.Format.exponentBias .binary64 +
      (52 : Nat)).toNat = exponent.toNat := by
    show ((exponent.toNat : Int) - 1075 + 1023 + 52).toNat = exponent.toNat
    omega
  unfold pack
  dsimp only
  rw [hbiased, if_neg (by omega), if_pos hlog, BitVec.ofNat_toNat, BitVec.setWidth_eq]
  congr 1
  refine BitVec.eq_of_toNat_eq ?_
  rw [BitVec.toNat_ofNat, hvalue]
  omega

/-- A finite word is put together as it was taken apart. -/
theorem pack_unpack {word : BitVec 64} (h : (unpack .binary64 word).isFinite = true) :
    pack .binary64 (unpack .binary64 word) = word := by
  have hexponent := (isFinite_unpack_iff word).mp h
  have hparts := packComponents_unpack word
  unfold unpack
  dsimp only
  rw [if_neg hexponent]
  -- zeros and the floats below the normal ones have no exponent
  by_cases hzero : @unpackExponent .binary64 word = 0#11
  · rw [if_pos hzero]
    rw [hzero] at hparts
    by_cases hmantissa : @unpackMantissa .binary64 word = 0#52
    · rw [dif_pos hmantissa]
      rw [hmantissa] at hparts
      exact hparts
    · rw [dif_neg hmantissa]
      rw [hzero]
      exact (pack_subnormal _ _ _).trans hparts
  · rw [if_neg hzero]
    exact (pack_normal _ _ hexponent _).trans hparts

/-- A finite float is that of its own word. -/
theorem ofBits_toBits {x : Float} (h : x.isFinite = true) : Float.ofBits x.toBits = x := by
  obtain ⟨⟨word, valid⟩⟩ := x
  have hpack : pack .binary64 (unpack .binary64 word.toBitVec) = word.toBitVec := pack_unpack h
  have hword : UInt64.ofBitVec (pack .binary64 (unpack .binary64 word.toBitVec)) = word := by
    rw [hpack]
  show Float.ofModel ⟨UInt64.ofBitVec (pack .binary64 (unpack .binary64 word.toBitVec)), _⟩ = _
  congr 2

theorem isInf_of_isFinite {x : Float} (h : x.isFinite = true) : x.isInf = false := by
  show (unpack .binary64 x.toBits.toBitVec).isInf = false
  have hfinite : (unpack .binary64 x.toBits.toBitVec).isFinite = true := h
  cases hunpack : unpack .binary64 x.toBits.toBitVec with
  | infinity =>
    rw [hunpack] at hfinite
    cases hfinite
  | notANumber | zero | finite => rfl

theorem isNaN_of_isFinite {x : Float} (h : x.isFinite = true) : x.isNaN = false := by
  show (unpack .binary64 x.toBits.toBitVec).isNaN = false
  have hfinite : (unpack .binary64 x.toBits.toBitVec).isFinite = true := h
  cases hunpack : unpack .binary64 x.toBits.toBitVec with
  | notANumber =>
    rw [hunpack] at hfinite
    cases hfinite
  | infinity | zero | finite => rfl

end Bits

/-- **A finite float is determined by its sign and the index of its magnitude.** -/
theorem ofIndex_indexOf {x : Float} (h : x.isFinite = true) :
    ofIndex (isNegative x) (indexOf x) = x := by
  have hword : x.toBits.toNat < Nat.pow 2 64 := x.toBits.toBitVec.isLt
  -- the word is the index and the bit of the sign
  have hsum : indexOf x + (if isNegative x then Nat.pow 2 63 else 0) = x.toBits.toNat := by
    have h63 : Nat.pow 2 63 = 9223372036854775808 := rfl
    have h64 : Nat.pow 2 64 = 18446744073709551616 := rfl
    unfold indexOf isNegative
    rw [h63]
    rw [h64] at hword
    split
    · next hnegative =>
      have hge := of_decide_eq_true hnegative
      omega
    · next hnegative =>
      have hlt := mt decide_eq_true hnegative
      omega
  rw [ofIndex, hsum, UInt64.ofNat_toNat, ofBits_toBits h]

end Kerf.Decimal
