import Mathlib
import Kerf.Proofs.Decimal.Notation
import Kerf.Proofs.Ordered

/-!
# The order of floats

A float has a rank, by its sign first, then its exponent and then its mantissa; what is no
number has none (`rank?`).

- `compare_eq`: floats compare as their ranks do.
- `le_iff_rank`, `lt_iff_rank`: so the order of floats is that of their ranks, and floats
  are ordered scalars.
- `scalarIsNaN_of_isFinite`: finite floats are numbers, and the greater of two of them is
  finite (`isFinite_max`).
-/

namespace Kerf.Decimal

section Compare

open Float.Model (UnpackedFloat)

/-- The place of a float among all that are numbers. -/
def rank? : UnpackedFloat → Option (ℤ ×ₗ ℤ ×ₗ ℤ)
  | .notANumber => none
  | .infinity .negative => some (toLex (-2, toLex (0, 0)))
  | .finite .negative mantissa exponent _ =>
    some (toLex (-1, toLex (-exponent, -(mantissa : ℤ))))
  | .zero _ => some (toLex (0, toLex (0, 0)))
  | .finite .positive mantissa exponent _ => some (toLex (1, toLex (exponent, (mantissa : ℤ))))
  | .infinity .positive => some (toLex (2, toLex (0, 0)))

theorem compare_cast (m m' : ℕ) : compare (m : ℤ) m' = compare m m' := by
  simp only [compare, compareOfLessAndEq, Nat.cast_lt, Nat.cast_inj]

theorem compare_magnitude (e e' : ℤ) (m m' : ℕ) :
    compare (toLex (e, (m : ℤ)) : ℤ ×ₗ ℤ) (toLex (e', (m' : ℤ))) =
      (compare e e').then (compare m m') := by
  rw [← compare_cast]
  rfl

/-- Magnitudes compare the other way around below zero. -/
theorem compare_neg_magnitude (e e' : ℤ) (m m' : ℕ) :
    compare (toLex (-e, -(m : ℤ)) : ℤ ×ₗ ℤ) (toLex (-e', -(m' : ℤ))) =
      ((compare e e').then (compare m m')).swap := by
  have hneg (i j : ℤ) : compare (-i) (-j) = compare j i := by
    simp only [compare, compareOfLessAndEq, neg_lt_neg_iff, neg_inj, eq_comm]
  rw [Ordering.swap_then, Int.compare_swap, Nat.compare_swap, ← compare_cast, ← hneg e,
    ← hneg (m : ℤ)]
  rfl

/-- Floats compare as their ranks do. The kinds of floats differ in the first part of the
rank; of one kind, only those that are neither zero nor infinite have to be told apart. -/
theorem compare_eq (a b : UnpackedFloat) :
    a.compare b = (rank? a).bind fun i => (rank? b).map fun j => compare i j := by
  cases a with
  | notANumber => rfl
  | infinity s => cases s <;> rcases b with (_ | _) | _ | _ | (_ | _) <;> rfl
  | zero s => rcases b with (_ | _) | _ | _ | (_ | _) <;> rfl
  | finite s m e =>
    cases b with
    | notANumber => cases s <;> rfl
    | infinity t => cases s <;> cases t <;> rfl
    | zero t => cases s <;> rfl
    -- of one sign the magnitudes are compared, the other way round below zero
    | finite t m' e' =>
      cases s with
      | positive =>
        cases t with
        | positive => exact congrArg some (compare_magnitude e e' m m').symm
        | negative => rfl
      | negative =>
        cases t with
        | positive => rfl
        | negative => exact congrArg some (compare_neg_magnitude e e' m m').symm

theorem isSome_rank?_of_isFinite {a : UnpackedFloat} (h : a.isFinite = true) :
    (rank? a).isSome = true := by
  cases a with
  | infinity | notANumber => cases h
  | zero => rfl
  | finite s => cases s <;> rfl

end Compare

/-! ## Order -/

variable {x y : Float}

theorem le_iff_rank :
    x ≤ y ↔ ∃ i ∈ rank? x.toModel.unpack, ∃ j ∈ rank? y.toModel.unpack, i ≤ j := by
  have hle : x ≤ y ↔ (x.toModel.unpack.compare y.toModel.unpack).any (·.isLE) = true :=
    decide_eq_true_iff
  rw [hle, compare_eq]
  cases rank? x.toModel.unpack with
  | none => simp
  | some i =>
    cases rank? y.toModel.unpack with
    | none => simp
    | some j =>
      have hranks : (compare i j).isLE = true ↔ i ≤ j :=
        Ordering.ne_gt_iff_isLE.symm.trans compare_le_iff_le
      simpa using hranks

theorem lt_iff_rank :
    x < y ↔ ∃ i ∈ rank? x.toModel.unpack, ∃ j ∈ rank? y.toModel.unpack, i < j := by
  have hlt : x < y ↔ x.toModel.unpack.compare y.toModel.unpack = some .lt :=
    decide_eq_true_iff.trans beq_iff_eq
  rw [hlt, compare_eq]
  cases rank? x.toModel.unpack with
  | none => simp
  | some i =>
    cases rank? y.toModel.unpack with
    | none => simp
    | some j =>
      have hranks : compare i j = .lt ↔ i < j := compare_lt_iff_lt
      simpa using hranks

/-- A float is a number if it has a rank. -/
theorem isNaN_eq_false_iff_rank :
    Scalar.isNaN x = false ↔ (rank? x.toModel.unpack).isSome = true := by
  have hle : Scalar.isNaN x = false ↔ x ≤ x := Scalar.isNaN_eq_false_iff
  rw [hle, le_iff_rank]
  cases rank? x.toModel.unpack with
  | none => simp
  | some i => simp

instance : Scalar.Ordered Float where
  le_trans := by
    intro x y z hxy hyz
    obtain ⟨i, hi, j, hj, hij⟩ := le_iff_rank.mp hxy
    obtain ⟨j', hj', k, hk, hjk⟩ := le_iff_rank.mp hyz
    obtain rfl := Option.some.inj (hj.symm.trans hj')
    exact le_iff_rank.mpr ⟨i, hi, k, hk, hij.trans hjk⟩
  le_total := by
    intro x y hx hy
    obtain ⟨i, hi⟩ := Option.isSome_iff_exists.mp (isNaN_eq_false_iff_rank.mp hx)
    obtain ⟨j, hj⟩ := Option.isSome_iff_exists.mp (isNaN_eq_false_iff_rank.mp hy)
    exact (le_total i j).imp (fun hij => le_iff_rank.mpr ⟨i, hi, j, hj, hij⟩)
      (fun hji => le_iff_rank.mpr ⟨j, hj, i, hi, hji⟩)
  lt_iff := by
    intro x y
    have hranks : x < y ↔ x ≤ y ∧ ¬y ≤ x := by
      rw [lt_iff_rank, le_iff_rank, le_iff_rank]
      cases rank? x.toModel.unpack with
      | none => simp
      | some i =>
        cases rank? y.toModel.unpack with
        | none => simp
        | some j => simpa using le_of_lt
    exact hranks

/-! ## Finite floats -/

/-- Finite floats are numbers. -/
theorem scalarIsNaN_of_isFinite (hx : x.isFinite = true) : Scalar.isNaN x = false :=
  isNaN_eq_false_iff_rank.mpr (isSome_rank?_of_isFinite hx)

/-- The greater of two finite floats is one of them, and it is at least the second one. -/
theorem isFinite_max (hx : x.isFinite = true) (hy : y.isFinite = true) :
    (Scalar.max x y).isFinite = true ∧ y ≤ Scalar.max x y := by
  have hxNumber := scalarIsNaN_of_isFinite hx
  have hyNumber := scalarIsNaN_of_isFinite hy
  have hmax := Scalar.isNaN_max hxNumber hyNumber
  refine ⟨?_, ((Scalar.max_le_iff hxNumber hyNumber).mp (Scalar.isNaN_eq_false_iff.mp hmax)).2⟩
  rw [Scalar.max_of_number hxNumber]
  split
  · exact hy
  · exact hx

end Kerf.Decimal
