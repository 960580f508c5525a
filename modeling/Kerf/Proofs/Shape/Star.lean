import Mathlib
import Kerf.Proofs.Exact
import Kerf.Shape.Basic

/-!
# Outlines of stars

A star has two corners for each tip, on the outer and on the inner radius in turn, at
equal angles around the center. Its outline goes through the corners in their order and
back to the first (`starPoints_outline`).

Corners are counted in the 32 bits that hold the number of tips. With `2 ^ 31` tips or
more the count starts anew (`toNat_mul_two`), and the outline stops after the corners that
are left: `starPoints_half_range` has none at all.
-/

namespace Kerf.Shape

/-! ## Closed outlines -/

section Closed

variable {α : Type}

theorem length_closed (points : List (Point α)) :
    (closed points).length = if points.length = 0 then 0 else points.length + 1 := by
  cases points with
  | nil => rfl
  | cons first rest =>
    have hne : (first :: rest).length ≠ 0 := Nat.succ_ne_zero rest.length
    rw [if_neg hne]
    exact List.length_append

/-- A closed outline ends where it starts. -/
theorem getLast?_closed (points : List (Point α)) :
    (closed points).getLast? = (closed points).head? := by
  cases points with
  | nil => rfl
  | cons first rest =>
    show (first :: rest ++ [first]).getLast? = some first
    rw [List.getLast?_concat]

theorem getElem?_closed {points : List (Point α)} {index : Nat} (h : index < points.length) :
    (closed points)[index]? = points[index]? :=
  List.getElem?_append_left h

end Closed

/-! ## Corners -/

/-- The number of corners that are counted: two for each tip, in 32 bits. -/
def cornerCount (tips : UInt32) : Nat :=
  2 * tips.toNat % 2 ^ 32

theorem toNat_mul_two (tips : UInt32) : (tips * 2).toNat = cornerCount tips := by
  rw [UInt32.toNat_mul, Nat.mul_comm]
  rfl

/-- The count is right as long as it fits. -/
theorem cornerCount_eq_iff (tips : UInt32) :
    cornerCount tips = 2 * tips.toNat ↔ tips.toNat < 2 ^ 31 := by
  have hrange : tips.toNat < 2 ^ 32 := tips.toNat_lt
  unfold cornerCount
  omega

theorem starPoints_eq {α : Type} [Scalar α] (center : Point α) (outer inner : α) {tips : UInt32}
    (h : 2 ≤ tips) :
    starPoints center outer inner tips =
      closed ((List.range (cornerCount tips)).map
        (starCorner center outer inner (Scalar.pi / (tips.toNat : α)))) := by
  rw [starPoints, if_neg (UInt32.not_lt.mpr h), toNat_mul_two]

/-- The corners that are counted stand where they should, whatever the scalars. -/
theorem getElem?_starPoints {α : Type} [Scalar α] (center : Point α) (outer inner : α)
    {tips : UInt32} (h : 2 ≤ tips) {index : Nat} (hindex : index < cornerCount tips) :
    (starPoints center outer inner tips)[index]? =
      some (starCorner center outer inner (Scalar.pi / (tips.toNat : α)) index) := by
  rw [starPoints_eq center outer inner h, getElem?_closed (by simpa using hindex),
    List.getElem?_map, List.getElem?_range hindex, Option.map_some]

/-- In exact arithmetic, the angles of the corners are the even parts of a whole turn. -/
theorem starCorner_eq (center : Point ℝ) (outer inner : ℝ) (tips index : ℕ) :
    starCorner center outer inner (Scalar.pi / (tips : ℝ)) index =
      ⟨center.x + (if index % 2 = 0 then outer else inner) * Real.cos (index * Real.pi / tips),
        center.y + (if index % 2 = 0 then outer else inner) *
          Real.sin (index * Real.pi / tips)⟩ := by
  rw [mul_div_assoc]
  rfl

/-- **The outline of a star** with at least two tips: each corner that is counted, in its
order, at its angle and on its radius, and the first corner once more. The corners are
counted modulo `2 ^ 32`, so there are two for each tip as long as there are fewer than
`2 ^ 31` tips. Floats take the angle as the index times the float nearest to a step; in
exact arithmetic it is the index times half a turn, divided by the tips. -/
theorem starPoints_outline {tips : UInt32} (h : 2 ≤ tips) :
    (cornerCount tips = 2 * tips.toNat ↔ tips.toNat < 2 ^ 31) ∧
    (∀ (α : Type) [Scalar α] (center : Point α) (outer inner : α),
      let points := starPoints center outer inner tips
      points.length = (if cornerCount tips = 0 then 0 else cornerCount tips + 1) ∧
      points.getLast? = points.head? ∧
      ∀ index < cornerCount tips,
        let radius := if index % 2 = 0 then outer else inner
        let angle := (index : α) * (Scalar.pi / (tips.toNat : α))
        points[index]? =
          some ⟨center.x + radius * Scalar.cos angle, center.y + radius * Scalar.sin angle⟩) ∧
    ∀ (center : Point ℝ) (outer inner : ℝ), ∀ index < cornerCount tips,
      let radius := if index % 2 = 0 then outer else inner
      let angle := index * Real.pi / tips.toNat
      (starPoints center outer inner tips)[index]? =
        some ⟨center.x + radius * Real.cos angle, center.y + radius * Real.sin angle⟩ := by
  refine ⟨cornerCount_eq_iff tips, ?_, ?_⟩
  · intro α _ center outer inner points
    refine ⟨?_, ?_, fun index hindex => getElem?_starPoints center outer inner h hindex⟩
    · show (starPoints center outer inner tips).length = _
      rw [starPoints_eq center outer inner h, length_closed, List.length_map, List.length_range]
    · show (starPoints center outer inner tips).getLast? =
        (starPoints center outer inner tips).head?
      rw [starPoints_eq center outer inner h, getLast?_closed]
  · intro center outer inner index hindex radius angle
    rw [getElem?_starPoints center outer inner h hindex, starCorner_eq]

/-- The most tips for which all corners are counted. -/
theorem starPoints_outline_most_tips :
    (2 : UInt32) ≤ 2147483647 ∧
      (starPoints (⟨0, 0⟩ : Point Float) 1 1 2147483647).length = 4294967295 ∧
      (starPoints (⟨0, 0⟩ : Point ℝ) 1 3 2147483647)[2147483647]? =
        some ⟨0 + 3 * Real.cos (2147483647 * Real.pi / 2147483647),
          0 + 3 * Real.sin (2147483647 * Real.pi / 2147483647)⟩ := by
  have h : (2 : UInt32) ≤ 2147483647 := by decide
  obtain ⟨-, hall, hexact⟩ := starPoints_outline h
  exact ⟨h, (hall Float ⟨0, 0⟩ 1 1).1, hexact ⟨0, 0⟩ 1 3 2147483647 (by decide)⟩

/-- With `2 ^ 31` tips no corner is counted, and the star has no outline. -/
theorem starPoints_half_range {α : Type} [Scalar α] (center : Point α) (outer inner : α) :
    starPoints center outer inner 2147483648 = [] :=
  starPoints_eq center outer inner (by decide)

theorem not_forall_length_starPoints :
    ¬ ∀ (center : Point Float) (outer inner : Float) (tips : UInt32), 2 ≤ tips →
      (starPoints center outer inner tips).length = 2 * tips.toNat + 1 := by
  intro h
  have hlength := h ⟨0, 0⟩ 1 1 2147483648 (by decide)
  rw [starPoints_half_range] at hlength
  exact absurd hlength (by decide)

end Kerf.Shape
