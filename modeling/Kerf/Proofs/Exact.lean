import Mathlib.Analysis.SpecialFunctions.Complex.Arg
import Kerf.Plane.Point

/-!
# Exact arithmetic

Real numbers are scalars, with the true roots, sines, cosines and angles. What holds of a
formula up to rounding is proved of it over them.

- `Scalar.Exact`: scalars that stand for real numbers and are computed with exactly,
  whatever numbers they have for sines and cosines. The real numbers are the first of
  them.
- `Scalar.same_iff`, `Scalar.max_eq`: among real numbers there is none that is no number.
- `Scalar.cos_atan2`, `Scalar.sin_atan2`: a point of the unit circle has the cosine and
  the sine of its angle as coordinates.
-/

namespace Kerf

noncomputable instance : Scalar ℝ where
  decidableLT := Classical.decRel _
  decidableLE := Classical.decRel _
  abs := fun a => |a|
  sqrt := Real.sqrt
  sin := Real.sin
  cos := Real.cos
  atan2 := fun y x => Complex.arg ⟨x, y⟩
  pi := Real.pi
  radiansPerDegree := Real.pi / 180
  isFinite := fun _ => true

/-- Scalars that stand for real numbers, and with which the four operations and
comparisons are those of real numbers. Of roots, sines, cosines and angles nothing is
asked: they may be any of the scalars. -/
class Scalar.Exact (α : Type) [Scalar α] where
  /-- The real number that a scalar stands for. -/
  value : α → ℝ
  value_injective : Function.Injective value
  value_add : ∀ a b : α, value (a + b) = value a + value b
  value_sub : ∀ a b : α, value (a - b) = value a - value b
  value_mul : ∀ a b : α, value (a * b) = value a * value b
  value_div : ∀ a b : α, value (a / b) = value a / value b
  value_neg : ∀ a : α, value (-a) = -value a
  value_natCast : ∀ n : ℕ, value (n : α) = n
  value_ofScientific : ∀ (digits : ℕ) (negative : Bool) (exponent : ℕ),
    value (OfScientific.ofScientific digits negative exponent) =
      OfScientific.ofScientific digits negative exponent
  value_lt_iff : ∀ a b : α, value a < value b ↔ a < b
  value_le_iff : ∀ a b : α, value a ≤ value b ↔ a ≤ b

noncomputable instance : Scalar.Exact ℝ where
  value := id
  value_injective := Function.injective_id
  value_add _ _ := rfl
  value_sub _ _ := rfl
  value_mul _ _ := rfl
  value_div _ _ := rfl
  value_neg _ := rfl
  value_natCast _ := rfl
  value_ofScientific _ _ _ := rfl
  value_lt_iff _ _ := Iff.rfl
  value_le_iff _ _ := Iff.rfl

namespace Point

open Scalar (Exact)
open Scalar.Exact (value)

variable {α : Type} [Scalar α] [Exact α] {p q : Point α}

/-- Points are the same if their coordinates stand for the same real numbers. -/
theorem eq_of_value_eq (hx : value p.x = value q.x) (hy : value p.y = value q.y) : p = q := by
  obtain ⟨px, py⟩ := p
  obtain ⟨qx, qy⟩ := q
  rw [Point.mk.injEq]
  exact ⟨Exact.value_injective hx, Exact.value_injective hy⟩

protected theorem add_assoc (p q r : Point α) : p + q + r = p + (q + r) := by
  refine eq_of_value_eq ?_ ?_
  · simp only [add_def, Exact.value_add, add_assoc]
  · simp only [add_def, Exact.value_add, add_assoc]

end Point

@[simp] theorem Scalar.same_iff {a b : ℝ} : Scalar.same a b = true ↔ a = b := by
  rw [Scalar.same, Bool.and_eq_true, decide_eq_true_iff, decide_eq_true_iff]
  exact le_antisymm_iff.symm

namespace Scalar

theorem abs_eq (a : ℝ) : abs a = |a| := rfl

theorem sqrt_eq (a : ℝ) : sqrt a = Real.sqrt a := rfl

theorem sin_eq (a : ℝ) : sin a = Real.sin a := rfl

theorem cos_eq (a : ℝ) : cos a = Real.cos a := rfl

theorem pi_eq : (pi : ℝ) = Real.pi := rfl

theorem isNaN_eq_false (a : ℝ) : isNaN a = false := by
  rw [isNaN, Bool.not_eq_false', same_iff]

theorem max_eq (a b : ℝ) : max a b = Max.max a b := by
  rw [max, isNaN_eq_false, if_neg Bool.false_ne_true]
  split
  · next h => exact (max_eq_right (le_of_lt h)).symm
  · next h => exact (max_eq_left (not_lt.mp h)).symm

theorem norm_eq_one {x y : ℝ} (h : x ^ 2 + y ^ 2 = 1) : ‖(⟨x, y⟩ : ℂ)‖ = 1 := by
  rw [Complex.norm_def, Complex.normSq_mk, ← sq, ← sq, h, Real.sqrt_one]

theorem cos_atan2 {x y : ℝ} (h : x ^ 2 + y ^ 2 = 1) : Real.cos (atan2 y x) = x := by
  have hne : (⟨x, y⟩ : ℂ) ≠ 0 := by
    rw [← norm_ne_zero_iff, norm_eq_one h]
    exact one_ne_zero
  show Real.cos (Complex.arg ⟨x, y⟩) = x
  rw [Complex.cos_arg hne, norm_eq_one h, div_one]

theorem sin_atan2 {x y : ℝ} (h : x ^ 2 + y ^ 2 = 1) : Real.sin (atan2 y x) = y := by
  show Real.sin (Complex.arg ⟨x, y⟩) = y
  rw [Complex.sin_arg, norm_eq_one h, div_one]

end Scalar

theorem Point.distance_eq (p q : Point ℝ) :
    p.distance q = √((p.x - q.x) ^ 2 + (p.y - q.y) ^ 2) := by
  rw [distance, Scalar.sqrt_eq, sq, sq]

end Kerf
