import Mathlib
import Kerf.Proofs.Curve.Extent

/-!
# Curves drawn backwards

A curve that is drawn from its end to its start goes through the same points in the
opposite order, in exact arithmetic.

- `samples_reverse`: samples at evenly spaced parameters are as far from the end as from
  the start, so the samples of the curve at `1 - t` are those of the curve at `t`, the
  last one first.
- `quadraticAt_swap`, `cubicAt_swap`: a Bézier curve with its control points in the
  opposite order is at `t` where the curve is at `1 - t`.
- `Arc.backward`: an arc from its finish to its start, the other way round. The half chord
  and the side of the center both change their signs, so the center stays
  (`Arc.center_backward`), and the extent changes its sign (`Arc.extent_backward`).
-/

namespace Kerf

theorem Point.near_comm (p q : Point ℝ) : p.near q = q.near p := by
  rw [Bool.eq_iff_iff, near_iff, near_iff, abs_sub_comm p.x, abs_sub_comm p.y]

namespace Curve

/-! ## Samples -/

theorem overSteps_reverse {β : Type} (steps : Nat) (value : Nat → β) :
    (overSteps steps value).reverse = overSteps steps fun i => value (stepCount steps - i) := by
  unfold overSteps
  rw [← List.map_reverse, List.range_eq_range', List.reverse_range', List.map_map,
    ← List.range_eq_range']
  refine List.map_congr_left fun i _ => ?_
  rw [Function.comp_apply, Nat.zero_add, Nat.add_sub_cancel]

/-- As far from the end as from the start. -/
theorem samples_reverse (steps : Nat) (curve : ℝ → Point ℝ) :
    (samples steps curve).reverse = samples steps fun t => curve (1 - t) := by
  have hpos : 1 ≤ stepCount steps := le_max_right _ _
  have hne : ((stepCount steps : ℕ) : ℝ) ≠ 0 := Nat.cast_ne_zero.mpr (by omega)
  unfold samples
  rw [overSteps_reverse]
  unfold overSteps
  refine List.map_congr_left fun i hi => ?_
  have hle : i ≤ stepCount steps := Nat.lt_succ_iff.mp (List.mem_range.mp hi)
  have hparameter : ((stepCount steps - i : ℕ) : ℝ) / (stepCount steps : ℕ) =
      1 - (i : ℝ) / (stepCount steps : ℕ) := by
    rw [Nat.cast_sub hle, sub_div, div_self hne]
  exact congrArg curve hparameter

/-! ## Bézier curves -/

theorem quadraticAt_swap (p0 p1 p2 : Point ℝ) (t : ℝ) :
    quadraticAt p2 p1 p0 t = quadraticAt p0 p1 p2 (1 - t) := by
  have hone : (1.0 : ℝ) = 1 := by norm_num
  have htwo : (2.0 : ℝ) = 2 := by norm_num
  simp only [quadraticAt, Point.scale, Point.add_def, hone, htwo, Point.mk.injEq]
  constructor
  · ring
  · ring

theorem cubicAt_swap (p0 p1 p2 p3 : Point ℝ) (t : ℝ) :
    cubicAt p3 p2 p1 p0 t = cubicAt p0 p1 p2 p3 (1 - t) := by
  have hone : (1.0 : ℝ) = 1 := by norm_num
  have hthree : (3.0 : ℝ) = 3 := by norm_num
  simp only [cubicAt, Point.scale, Point.add_def, hone, hthree, Point.mk.injEq]
  constructor
  · ring
  · ring

theorem quadratic_swap (p0 p1 p2 : Point ℝ) (steps : Nat) :
    quadratic p2 p1 p0 steps = (quadratic p0 p1 p2 steps).reverse := by
  unfold quadratic
  rw [samples_reverse, funext (quadraticAt_swap p0 p1 p2)]

theorem cubic_swap (p0 p1 p2 p3 : Point ℝ) (steps : Nat) :
    cubic p3 p2 p1 p0 steps = (cubic p0 p1 p2 p3 steps).reverse := by
  unfold cubic
  rw [samples_reverse, funext (cubicAt_swap p0 p1 p2 p3)]

/-! ## Arcs -/

namespace Arc

/-- An arc from its finish to its start, the other way round. -/
def backward {α : Type} (arc : Arc α) : Arc α :=
  { arc with start := arc.finish, finish := arc.start, sweep := !arc.sweep }

theorem near_backward (arc : Arc ℝ) :
    arc.backward.start.near arc.backward.finish = arc.start.near arc.finish :=
  Point.near_comm _ _

theorem middle_backward (arc : Arc ℝ) : arc.backward.middle = arc.middle := by
  simp only [middle, backward, add_comm]

theorem halfChord_backward (arc : Arc ℝ) : arc.backward.halfChord = -arc.halfChord := by
  have htwo : (2.0 : ℝ) = 2 := by norm_num
  simp only [halfChord, backward, htwo, Point.neg_def, Point.mk.injEq]
  constructor
  · ring
  · ring

theorem reach_neg (half : Point ℝ) (rx ry : ℝ) : reach (-half) rx ry = reach half rx ry := by
  rw [reach_eq, reach_eq, Point.neg_def]
  ring

theorem radii_backward (arc : Arc ℝ) : arc.backward.radii = arc.radii := by
  unfold radii enlargement
  rw [halfChord_backward, reach_neg]
  rfl

/-- A half chord in the opposite direction has the same center on its other side. -/
theorem centerOffset_neg (half : Point ℝ) (rx ry : ℝ) (sameSide : Bool) :
    centerOffset (-half) rx ry (!sameSide) = centerOffset half rx ry sameSide := by
  have hsign : (if !sameSide then -1.0 else 1.0 : ℝ) = -(if sameSide then -1.0 else 1.0) := by
    cases sameSide
    · norm_num
    · norm_num
  -- the half chord counts by its squares under the root
  have hsquare (a b : ℝ) : a * -b * -b = a * b * b := by ring
  simp only [centerOffset, Point.neg_def, hsquare, hsign, Point.mk.injEq]
  constructor
  · ring
  · ring

theorem center_backward (arc : Arc ℝ) : arc.backward.center = arc.center := by
  have hside : (arc.backward.large == arc.backward.sweep) = !(arc.large == arc.sweep) := by
    show (arc.large == !arc.sweep) = !(arc.large == arc.sweep)
    cases arc.large <;> cases arc.sweep <;> rfl
  unfold center
  rw [halfChord_backward, radii_backward, hside, centerOffset_neg, middle_backward]
  rfl

/-- Between the same angles, the other way round is the same extent with the other sign. -/
theorem extent_backward (sweep : Bool) (startAngle endAngle : ℝ) :
    extent (!sweep) endAngle startAngle = -extent sweep startAngle endAngle := by
  -- turning the arc round makes of a negative difference a positive one
  have hfalse (a b : ℝ) : extent true b a = -extent false a b := by
    have hzero : (0.0 : ℝ) = 0 := by norm_num
    have htwo : (2.0 : ℝ) = 2 := by norm_num
    have hnegative : a - b < 0 ↔ 0 < b - a := by rw [sub_pos, sub_neg]
    simp only [extent, hzero, htwo, hnegative, Bool.not_false, Bool.not_true, Bool.true_and,
      Bool.false_and, decide_eq_true_eq, Bool.false_eq_true, if_false]
    split
    · ring
    · ring
  cases sweep with
  | false => exact hfalse startAngle endAngle
  | true =>
    show extent false endAngle startAngle = -extent true startAngle endAngle
    rw [hfalse endAngle startAngle, neg_neg]

/-- The center form of an arc drawn backwards: it starts at the angle of the finish and
has the opposite extent. -/
theorem toCentered_backward (arc : Arc ℝ) :
    arc.backward.toCentered =
      { arc.toCentered with
        startAngle := polarAngle arc.center arc.radii.1 arc.radii.2 arc.angle arc.finish
        sweepAngle := -arc.toCentered.sweepAngle } := by
  rw [toCentered_eq, toCentered_eq, center_backward, radii_backward]
  show CenteredArc.mk _ _ _ _ _ (extent (!arc.sweep) _ _) = _
  rw [extent_backward]
  rfl

/-- An arc drawn backwards is at `t` where the arc is at `1 - t`, perhaps a turn away. -/
theorem at_backward (arc : Arc ℝ) (t : ℝ) :
    arc.backward.toCentered.at t = arc.toCentered.at (1 - t) := by
  let startAngle := polarAngle arc.center arc.radii.1 arc.radii.2 arc.angle arc.start
  let endAngle := polarAngle arc.center arc.radii.1 arc.radii.2 arc.angle arc.finish
  let sweepAngle := extent arc.sweep startAngle endAngle
  obtain ⟨turns, hturns⟩ := exists_extent_eq arc.sweep startAngle endAngle
  have hangle : startAngle + sweepAngle * (1 - t) =
      endAngle + -sweepAngle * t + turns * (2 * Real.pi) := by
    linear_combination hturns
  rw [toCentered_backward, at_eq_seenFrom, at_eq_seenFrom, toCentered_eq]
  show seenFrom _ _ ⟨_ * Real.cos (endAngle + -sweepAngle * t), _⟩ =
    seenFrom _ _ ⟨_ * Real.cos (startAngle + sweepAngle * (1 - t)),
      _ * Real.sin (startAngle + sweepAngle * (1 - t))⟩
  rw [hangle, Real.cos_add_int_mul_two_pi, Real.sin_add_int_mul_two_pi]

theorem points_backward {arc : Arc ℝ} (hends : arc.start.near arc.finish = false)
    (hrx : arc.rx ≠ 0) (hry : arc.ry ≠ 0) (steps : Nat) :
    arc.backward.points steps = (arc.points steps).reverse := by
  have hback := arc.near_backward.trans hends
  rw [points_eq_samples hends hrx hry, points_eq_samples hback hrx hry, samples_reverse,
    funext (at_backward arc)]

end Arc

/-- **Curves drawn backwards** go through the same points in the opposite order, in exact
arithmetic: Bézier curves with their control points in the opposite order, and arcs
between ends that are told apart, with radii other than zero, from the finish to the start
and the other way round. The center form of such an arc has the same center, radii and
rotation, and the opposite extent. -/
theorem points_of_backward :
    (∀ (p0 p1 p2 : Point ℝ) (steps : Nat),
      quadratic p2 p1 p0 steps = (quadratic p0 p1 p2 steps).reverse) ∧
    (∀ (p0 p1 p2 p3 : Point ℝ) (steps : Nat),
      cubic p3 p2 p1 p0 steps = (cubic p0 p1 p2 p3 steps).reverse) ∧
    ∀ arc : Arc ℝ, arc.start.near arc.finish = false → arc.rx ≠ 0 → arc.ry ≠ 0 →
      ∃ there back, arc.toCentered? = some there ∧ arc.backward.toCentered? = some back ∧
        back.center = there.center ∧ back.rx = there.rx ∧ back.ry = there.ry ∧
        back.rotation = there.rotation ∧ back.sweepAngle = -there.sweepAngle ∧
        ∀ steps, arc.backward.points steps = (arc.points steps).reverse := by
  refine ⟨quadratic_swap, cubic_swap, ?_⟩
  intro arc hends hrx hry
  have hback := arc.near_backward.trans hends
  refine ⟨arc.toCentered, arc.backward.toCentered, Arc.toCentered?_eq_some hends hrx hry,
    Arc.toCentered?_eq_some hback hrx hry, ?_⟩
  rw [Arc.toCentered_backward]
  exact ⟨rfl, rfl, rfl, rfl, rfl, Arc.points_backward hends hrx hry⟩

/-- The longer way round an ellipse with a radius that is too small and one with a minus
sign, turned by an eighth. -/
theorem points_of_backward_long_way :
    let arc : Arc ℝ := ⟨⟨0, 0⟩, ⟨4, 0⟩, 1, -2, 45, true, true⟩
    arc.start.near arc.finish = false ∧ arc.rx ≠ 0 ∧ arc.ry ≠ 0 ∧
      (Arc.mk ⟨4, 0⟩ ⟨0, 0⟩ 1 (-2) 45 true false).points 7 = (arc.points 7).reverse := by
  intro arc
  have hends : arc.start.near arc.finish = false := by
    rw [← Bool.not_eq_true, Point.near_iff, not_and_or]
    left
    show ¬|(0 : ℝ) - 4| < 1e-10
    norm_num
  have hrx : arc.rx ≠ 0 := by norm_num [arc]
  have hry : arc.ry ≠ 0 := by norm_num [arc]
  obtain ⟨_, _, -, -, -, -, -, -, -, hpoints⟩ := points_of_backward.2.2 arc hends hrx hry
  exact ⟨hends, hrx, hry, hpoints 7⟩

end Curve

end Kerf
