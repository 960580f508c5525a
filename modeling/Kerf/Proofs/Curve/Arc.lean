import Mathlib
import Kerf.Curve.Arc
import Kerf.Proofs.Curve.Sampling

/-!
# Arcs pass through their ends

An elliptical arc is given by its ends and sampled from its center. In exact arithmetic
nothing is lost on the way.

- `alongAxes` looks at a place from a center along the axes of an ellipse, and `seenFrom`
  goes back. Seen from the middle between the ends, the start is the half chord and the
  finish its opposite.
- `isOnEllipse_ends`: both ends are on the ellipse around the center that is found, if the
  half chord reaches no farther than the radii do. An ellipse through both ends exists in
  no other case (`exists_isOnEllipse_iff`), so the radii are enlarged by as little as can
  be (`isLeast_enlargement`).
- `IsOnEllipse.seenFrom_polar`: a place on an ellipse is found again at its angle, the
  turns made on the way not counting.
-/

namespace Kerf.Curve

/-! ## Ellipses -/

/-- A place as it is seen from a center, along the axes of an ellipse. -/
noncomputable def alongAxes (rotation : ℝ) (center p : Point ℝ) : Point ℝ :=
  let dx := p.x - center.x
  let dy := p.y - center.y
  ⟨Real.cos rotation * dx + Real.sin rotation * dy,
    -Real.sin rotation * dx + Real.cos rotation * dy⟩

/-- The place that is seen like this from a center, along the axes of an ellipse. -/
noncomputable def seenFrom (rotation : ℝ) (center offset : Point ℝ) : Point ℝ :=
  ⟨Real.cos rotation * offset.x - Real.sin rotation * offset.y + center.x,
    Real.sin rotation * offset.x + Real.cos rotation * offset.y + center.y⟩

/-- Whether a place is on the ellipse with a center, radii and a rotation. -/
def IsOnEllipse (center : Point ℝ) (rx ry rotation : ℝ) (p : Point ℝ) : Prop :=
  ((alongAxes rotation center p).x / rx) ^ 2 + ((alongAxes rotation center p).y / ry) ^ 2 = 1

/-- The angle at which a place stands on an ellipse. -/
noncomputable def polarAngle (center : Point ℝ) (rx ry rotation : ℝ) (p : Point ℝ) : ℝ :=
  Scalar.atan2 ((alongAxes rotation center p).y / ry) ((alongAxes rotation center p).x / rx)

theorem seenFrom_alongAxes (rotation : ℝ) (center p : Point ℝ) :
    seenFrom rotation center (alongAxes rotation center p) = p := by
  have hcircle := Real.sin_sq_add_cos_sq rotation
  obtain ⟨x, y⟩ := p
  simp only [seenFrom, alongAxes, Point.mk.injEq]
  constructor
  · linear_combination (x - center.x) * hcircle
  · linear_combination (y - center.y) * hcircle

/-- A place on an ellipse is found again at its angle, and after any number of turns. -/
theorem IsOnEllipse.seenFrom_polar {center : Point ℝ} {rx ry rotation : ℝ} {p : Point ℝ}
    (h : IsOnEllipse center rx ry rotation p) (hrx : rx ≠ 0) (hry : ry ≠ 0) (turns : ℤ) :
    let angle := polarAngle center rx ry rotation p + turns * (2 * Real.pi)
    seenFrom rotation center ⟨rx * Real.cos angle, ry * Real.sin angle⟩ = p := by
  have hcos : Real.cos (polarAngle center rx ry rotation p) =
      (alongAxes rotation center p).x / rx := Scalar.cos_atan2 h
  have hsin : Real.sin (polarAngle center rx ry rotation p) =
      (alongAxes rotation center p).y / ry := Scalar.sin_atan2 h
  simp only [Real.cos_add_int_mul_two_pi, Real.sin_add_int_mul_two_pi, hcos, hsin,
    mul_div_cancel₀ _ hrx, mul_div_cancel₀ _ hry]
  exact seenFrom_alongAxes rotation center p

theorem at_eq_seenFrom (centered : CenteredArc ℝ) (t : ℝ) :
    centered.at t = seenFrom centered.rotation centered.center
      ⟨centered.rx * Real.cos (centered.startAngle + centered.sweepAngle * t),
        centered.ry * Real.sin (centered.startAngle + centered.sweepAngle * t)⟩ := by
  simp only [CenteredArc.at, seenFrom, Scalar.cos_eq, Scalar.sin_eq, Point.mk.injEq]
  constructor
  · ring
  · ring

namespace Arc

/-! ## Enlarged radii -/

theorem reach_eq (half : Point ℝ) (rx ry : ℝ) :
    reach half rx ry = (half.x / rx) ^ 2 + (half.y / ry) ^ 2 := by
  unfold reach
  ring

/-- What the radii of an ellipse are multiplied by so that it passes through both ends. -/
noncomputable def enlargement (half : Point ℝ) (rx ry : ℝ) : ℝ :=
  max 1 (Real.sqrt (reach half rx ry))

theorem enlargement_pos (half : Point ℝ) (rx ry : ℝ) : 0 < enlargement half rx ry :=
  lt_max_of_lt_left one_pos

theorem enlarged_eq (half : Point ℝ) (rx ry : ℝ) :
    enlarged half rx ry = (rx * enlargement half rx ry, ry * enlargement half rx ry) := by
  have hone : (1.0 : ℝ) = 1 := by norm_num
  simp only [enlarged, enlargement, hone, Scalar.sqrt_eq]
  split
  · next h => rw [max_eq_right (Real.one_le_sqrt.mpr (le_of_lt h))]
  · next h => rw [max_eq_left (Real.sqrt_le_one.mpr (not_lt.mp h)), mul_one, mul_one]

theorem reach_mul (half : Point ℝ) (rx ry factor : ℝ) :
    reach half (rx * factor) (ry * factor) = reach half rx ry / factor ^ 2 := by
  rw [reach_eq, reach_eq, ← div_div, ← div_div, div_pow _ factor, div_pow _ factor, add_div]

/-- Radii times a factor are large enough if the factor is. -/
theorem reach_mul_le_one_iff (half : Point ℝ) (rx ry : ℝ) {factor : ℝ} (h : 0 < factor) :
    reach half (rx * factor) (ry * factor) ≤ 1 ↔ Real.sqrt (reach half rx ry) ≤ factor := by
  rw [reach_mul, div_le_one (by positivity), Real.sqrt_le_left h.le]

/-! ## The center -/

/-- Measured in radii, the center's offset is the half chord turned by a right angle and
made so long that the two span a radius. The turn is to one side or to the other. -/
theorem exists_centerOffset_eq {half : Point ℝ} {rx ry : ℝ} (hrx : rx ≠ 0) (hry : ry ≠ 0)
    (hpos : 0 < reach half rx ry) (hreach : reach half rx ry ≤ 1) (sameSide : Bool) :
    ∃ k : ℝ, (1 + k ^ 2) * reach half rx ry = 1 ∧ (if sameSide then k ≤ 0 else 0 ≤ k) ∧
      centerOffset half rx ry sameSide =
        ⟨rx * (k * (half.y / ry)), -(ry * (k * (half.x / rx)))⟩ := by
  let lambda := reach half rx ry
  let root := Real.sqrt ((1 - lambda) / lambda)
  let sign : ℝ := if sameSide then -1 else 1
  have hnonneg : 0 ≤ (1 - lambda) / lambda := div_nonneg (sub_nonneg.mpr hreach) hpos.le
  have hroot : root ^ 2 = (1 - lambda) / lambda := Real.sq_sqrt hnonneg
  have hsign : sign ^ 2 = 1 := by
    cases sameSide
    · norm_num [sign]
    · norm_num [sign]
  -- the quotient under the root, reduced by the squares of the radii
  have hquotient :
    (rx * rx * (ry * ry) - rx * rx * half.y * half.y - ry * ry * half.x * half.x) /
      (rx * rx * half.y * half.y + ry * ry * half.x * half.x) = (1 - lambda) / lambda := by
    have hlambda : lambda = (half.x / rx) ^ 2 + (half.y / ry) ^ 2 := reach_eq half rx ry
    have hscale : rx ^ 2 * ry ^ 2 ≠ 0 := by positivity
    rw [← mul_div_mul_left (1 - lambda) lambda hscale, hlambda]
    congr 1
    · field_simp
      ring
    · field_simp
      ring
  have hmax : Scalar.max ((1 - lambda) / lambda) 0.0 = (1 - lambda) / lambda := by
    have hzero : (0.0 : ℝ) = 0 := by norm_num
    rw [Scalar.max_eq, hzero, max_eq_left hnonneg]
  have hcoefficient : (if sameSide then -1.0 else 1.0 : ℝ) = sign := by
    cases sameSide
    · norm_num [sign]
    · norm_num [sign]
  -- the factor is the root, with the sign of the side
  refine ⟨sign * root, ?_, ?_, ?_⟩
  · have hne : lambda ≠ 0 := hpos.ne'
    show (1 + (sign * root) ^ 2) * lambda = 1
    rw [mul_pow, hsign, hroot, one_mul]
    field_simp
    ring
  · have hrootNonneg : 0 ≤ root := Real.sqrt_nonneg _
    cases sameSide
    · simpa [sign] using hrootNonneg
    · simpa [sign] using hrootNonneg
  · simp only [centerOffset, hquotient, hmax, hcoefficient, Scalar.sqrt_eq, Point.mk.injEq]
    constructor
    · ring
    · ring

/-- Both ends of a chord are as far from the center that is found for it as the radii say. -/
theorem ends_of_centerOffset {half : Point ℝ} {rx ry : ℝ} (hrx : rx ≠ 0) (hry : ry ≠ 0)
    (hpos : 0 < reach half rx ry) (hreach : reach half rx ry ≤ 1) (sameSide : Bool) :
    let offset := centerOffset half rx ry sameSide
    ((half.x - offset.x) / rx) ^ 2 + ((half.y - offset.y) / ry) ^ 2 = 1 ∧
      ((-half.x - offset.x) / rx) ^ 2 + ((-half.y - offset.y) / ry) ^ 2 = 1 := by
  obtain ⟨k, hk, -, hoffset⟩ := exists_centerOffset_eq hrx hry hpos hreach sameSide
  have hx : ∀ a b : ℝ, (a - rx * b) / rx = a / rx - b := fun a b => by field_simp
  have hy : ∀ a b : ℝ, (a - -(ry * b)) / ry = a / ry + b := fun a b => by
    field_simp
    ring
  rw [reach_eq] at hk
  simp only [hoffset, hx, hy]
  constructor
  · linear_combination hk
  · linear_combination hk

/-! ## The ends -/

section Ends

variable {arc : Arc ℝ}

/-- The middle between the ends. -/
noncomputable def middle (arc : Arc ℝ) : Point ℝ :=
  ⟨(arc.start.x + arc.finish.x) / 2, (arc.start.y + arc.finish.y) / 2⟩

/-- The rotation in radians. -/
noncomputable def angle (arc : Arc ℝ) : ℝ :=
  Scalar.radians arc.rotation

theorem halfChord_eq (arc : Arc ℝ) :
    arc.halfChord = alongAxes arc.angle arc.middle arc.start := by
  have htwo : (2.0 : ℝ) = 2 := by norm_num
  simp only [halfChord, alongAxes, middle, angle, htwo, Scalar.cos_eq, Scalar.sin_eq,
    Point.mk.injEq]
  constructor
  · ring
  · ring

/-- The start is half a chord away from the middle. -/
theorem alongAxes_start (arc : Arc ℝ) (offset : Point ℝ) :
    alongAxes arc.angle (seenFrom arc.angle arc.middle offset) arc.start =
      ⟨arc.halfChord.x - offset.x, arc.halfChord.y - offset.y⟩ := by
  have hcircle := Real.sin_sq_add_cos_sq arc.angle
  simp only [halfChord_eq, alongAxes, seenFrom, Point.mk.injEq]
  constructor
  · linear_combination -offset.x * hcircle
  · linear_combination -offset.y * hcircle

/-- The finish is as far away on the other side. -/
theorem alongAxes_finish (arc : Arc ℝ) (offset : Point ℝ) :
    alongAxes arc.angle (seenFrom arc.angle arc.middle offset) arc.finish =
      ⟨-arc.halfChord.x - offset.x, -arc.halfChord.y - offset.y⟩ := by
  have hcircle := Real.sin_sq_add_cos_sq arc.angle
  simp only [halfChord_eq, alongAxes, seenFrom, middle, Point.mk.injEq]
  constructor
  · linear_combination -offset.x * hcircle
  · linear_combination -offset.y * hcircle

/-- Ends that are told apart have a chord. -/
theorem reach_pos (hends : arc.start.near arc.finish = false) {rx ry : ℝ} (hrx : rx ≠ 0)
    (hry : ry ≠ 0) : 0 < reach arc.halfChord rx ry := by
  have hx := sq_nonneg (arc.halfChord.x / rx)
  have hy := sq_nonneg (arc.halfChord.y / ry)
  rw [reach_eq]
  -- a sum of squares is positive unless both are zero
  by_contra hzero
  -- without a chord, the start is in the middle
  have hhalf : alongAxes arc.angle arc.middle arc.start = ⟨0, 0⟩ := by
    have hxzero : arc.halfChord.x / rx = 0 := by nlinarith
    have hyzero : arc.halfChord.y / ry = 0 := by nlinarith
    rw [← halfChord_eq]
    show Point.mk arc.halfChord.x arc.halfChord.y = ⟨0, 0⟩
    rw [(div_eq_zero_iff.mp hxzero).resolve_right hrx,
      (div_eq_zero_iff.mp hyzero).resolve_right hry]
  have hstart := seenFrom_alongAxes arc.angle arc.middle arc.start
  rw [hhalf] at hstart
  have hsame : arc.start = arc.finish := by
    obtain ⟨⟨sx, sy⟩, ⟨fx, fy⟩⟩ := arc
    simp only [seenFrom, middle, mul_zero, sub_zero, zero_add, add_zero,
      Point.mk.injEq] at hstart ⊢
    constructor
    · linarith
    · linarith
  rw [hsame, Point.near_self] at hends
  cases hends

theorem isOnEllipse_ends {rx ry : ℝ} (hends : arc.start.near arc.finish = false) (hrx : rx ≠ 0)
    (hry : ry ≠ 0) (hreach : reach arc.halfChord rx ry ≤ 1) (sameSide : Bool) :
    let center := seenFrom arc.angle arc.middle (centerOffset arc.halfChord rx ry sameSide)
    IsOnEllipse center rx ry arc.angle arc.start ∧
      IsOnEllipse center rx ry arc.angle arc.finish := by
  obtain ⟨hstart, hfinish⟩ :=
    ends_of_centerOffset hrx hry (reach_pos hends hrx hry) hreach sameSide
  simp only [IsOnEllipse, alongAxes_start, alongAxes_finish]
  exact ⟨hstart, hfinish⟩

/-- There is an ellipse through both ends if the half chord reaches no farther than the
radii, and only then. -/
theorem exists_isOnEllipse_iff (hends : arc.start.near arc.finish = false) {rx ry : ℝ}
    (hrx : rx ≠ 0) (hry : ry ≠ 0) :
    (∃ center, IsOnEllipse center rx ry arc.angle arc.start ∧
      IsOnEllipse center rx ry arc.angle arc.finish) ↔ reach arc.halfChord rx ry ≤ 1 := by
  constructor
  · rintro ⟨center, hstart, hfinish⟩
    let offset := alongAxes arc.angle arc.middle center
    rw [← seenFrom_alongAxes arc.angle arc.middle center] at hstart hfinish
    rw [IsOnEllipse, alongAxes_start, sub_div, sub_div] at hstart
    rw [IsOnEllipse, alongAxes_finish, sub_div, sub_div, neg_div, neg_div] at hfinish
    rw [reach_eq]
    -- in the mean of the two equations the offset counts by its squares alone
    have hx := sq_nonneg (offset.x / rx)
    have hy := sq_nonneg (offset.y / ry)
    linarith
  · intro hreach
    exact ⟨_, isOnEllipse_ends hends hrx hry hreach false⟩

/-- Radii that are enlarged less belong to no ellipse through both ends. -/
theorem isLeast_enlargement (hends : arc.start.near arc.finish = false) {rx ry : ℝ}
    (hrx : rx ≠ 0) (hry : ry ≠ 0) :
    IsLeast {factor : ℝ | 1 ≤ factor ∧ ∃ center,
        IsOnEllipse center (rx * factor) (ry * factor) arc.angle arc.start ∧
          IsOnEllipse center (rx * factor) (ry * factor) arc.angle arc.finish}
      (enlargement arc.halfChord rx ry) := by
  have hexists : ∀ factor : ℝ, 0 < factor →
      ((∃ center, IsOnEllipse center (rx * factor) (ry * factor) arc.angle arc.start ∧
          IsOnEllipse center (rx * factor) (ry * factor) arc.angle arc.finish) ↔
        Real.sqrt (reach arc.halfChord rx ry) ≤ factor) := by
    intro factor hfactor
    rw [exists_isOnEllipse_iff hends (mul_ne_zero hrx hfactor.ne')
      (mul_ne_zero hry hfactor.ne'), reach_mul_le_one_iff _ _ _ hfactor]
  constructor
  · exact ⟨le_max_left _ _, (hexists _ (enlargement_pos _ _ _)).mpr (le_max_right _ _)⟩
  · rintro factor ⟨hone, hellipse⟩
    exact max_le hone ((hexists factor (by linarith)).mp hellipse)

end Ends

/-! ## Center form -/

/-- The radii of the ellipse that is sampled. -/
noncomputable def radii (arc : Arc ℝ) : ℝ × ℝ :=
  let factor := enlargement arc.halfChord |arc.rx| |arc.ry|
  (|arc.rx| * factor, |arc.ry| * factor)

/-- The radii that are sampled are large enough for both ends. -/
theorem radii_reach (arc : Arc ℝ) (hrx : arc.rx ≠ 0) (hry : arc.ry ≠ 0) :
    arc.radii.1 ≠ 0 ∧ arc.radii.2 ≠ 0 ∧
      reach arc.halfChord arc.radii.1 arc.radii.2 ≤ 1 := by
  have hfactor := enlargement_pos arc.halfChord |arc.rx| |arc.ry|
  exact ⟨mul_ne_zero (abs_ne_zero.mpr hrx) hfactor.ne',
    mul_ne_zero (abs_ne_zero.mpr hry) hfactor.ne',
    (reach_mul_le_one_iff _ _ _ hfactor).mpr (le_max_right _ _)⟩

/-- The center of the ellipse that is sampled. -/
noncomputable def center (arc : Arc ℝ) : Point ℝ :=
  seenFrom arc.angle arc.middle
    (centerOffset arc.halfChord arc.radii.1 arc.radii.2 (arc.large == arc.sweep))

/-- The center form, with the angles of both ends. -/
theorem toCentered_eq (arc : Arc ℝ) :
    let angleOf := polarAngle arc.center arc.radii.1 arc.radii.2 arc.angle
    arc.toCentered =
      { center := arc.center
        rx := arc.radii.1
        ry := arc.radii.2
        rotation := arc.angle
        startAngle := angleOf arc.start
        sweepAngle := extent arc.sweep (angleOf arc.start) (angleOf arc.finish) } := by
  have htwo : (2.0 : ℝ) = 2 := by norm_num
  simp only [toCentered, enlarged_eq, htwo, Scalar.abs_eq, polarAngle, center, alongAxes_start,
    alongAxes_finish]
  rfl

/-- The extent leads from one angle to the other, perhaps by a turn more or less. -/
theorem exists_extent_eq (sweep : Bool) (startAngle endAngle : ℝ) :
    ∃ turns : ℤ,
      startAngle + extent sweep startAngle endAngle = endAngle + turns * (2 * Real.pi) := by
  have htwo : (2.0 : ℝ) = 2 := by norm_num
  simp only [extent, htwo, Scalar.pi_eq]
  split
  · refine ⟨-1, ?_⟩
    push_cast
    ring
  · split
    · refine ⟨1, ?_⟩
      push_cast
      ring
    · refine ⟨0, ?_⟩
      push_cast
      ring

theorem isFlat_iff (arc : Arc ℝ) : arc.isFlat = true ↔ arc.rx = 0 ∨ arc.ry = 0 := by
  have hzero : (0.0 : ℝ) = 0 := by norm_num
  rw [isFlat, Bool.or_eq_true, Scalar.same_iff, Scalar.same_iff, hzero, Scalar.abs_eq,
    Scalar.abs_eq, abs_eq_zero, abs_eq_zero]

section Ends

variable {arc : Arc ℝ} (hends : arc.start.near arc.finish = false) (hrx : arc.rx ≠ 0)
  (hry : arc.ry ≠ 0)

include hends hrx hry

theorem toCentered?_eq_some : arc.toCentered? = some arc.toCentered := by
  have hflat : arc.isFlat = false := by
    rw [← Bool.not_eq_true, isFlat_iff]
    exact not_or.mpr ⟨hrx, hry⟩
  rw [toCentered?, hends, hflat]
  rfl

theorem toCentered_at_ends :
    arc.toCentered.at 0 = arc.start ∧ arc.toCentered.at 1 = arc.finish := by
  obtain ⟨hx, hy, hreach⟩ := arc.radii_reach hrx hry
  obtain ⟨hstart, hfinish⟩ := isOnEllipse_ends hends hx hy hreach (arc.large == arc.sweep)
  rw [toCentered_eq, at_eq_seenFrom, at_eq_seenFrom, mul_zero, mul_one]
  constructor
  · have hzero := hstart.seenFrom_polar hx hy 0
    rw [Int.cast_zero, zero_mul] at hzero
    exact hzero
  -- the extent is the difference of the angles, perhaps a turn more or less
  · obtain ⟨turns, hturns⟩ := exists_extent_eq arc.sweep
      (polarAngle arc.center arc.radii.1 arc.radii.2 arc.angle arc.start)
      (polarAngle arc.center arc.radii.1 arc.radii.2 arc.angle arc.finish)
    rw [hturns]
    exact hfinish.seenFrom_polar hx hy turns

/-- Such an arc is sampled in its center form. -/
theorem points_eq_samples (steps : Nat) :
    arc.points steps = samples steps arc.toCentered.at := by
  rw [points, hends, toCentered?_eq_some hends hrx hry]
  rfl

/-- A polyline of an arc starts and ends where the arc does. -/
theorem points_ends (steps : Nat) :
    (arc.points steps).head? = some arc.start ∧
      (arc.points steps).getLast? = some arc.finish := by
  obtain ⟨hzero, hone⟩ := toCentered_at_ends hends hrx hry
  rw [points_eq_samples hends hrx hry, head?_samples, getLast?_samples, hzero, hone]
  exact ⟨rfl, rfl⟩

end Ends

/-- **Arcs pass through their ends**: between ends that are told apart, and with radii
other than zero, an arc has a center form. Its radii are those that are given, without
their signs and enlarged by a common factor, the least one from which on there is an
ellipse through both ends. At zero it is at the start and at one at the finish, and so are
the first and the last of its points. -/
theorem toCentered?_passes_through_ends {arc : Arc ℝ}
    (hends : arc.start.near arc.finish = false) (hrx : arc.rx ≠ 0) (hry : arc.ry ≠ 0) :
    let factor := max 1 (Real.sqrt (reach arc.halfChord |arc.rx| |arc.ry|))
    ∃ centered, arc.toCentered? = some centered ∧
      centered.rx = |arc.rx| * factor ∧ centered.ry = |arc.ry| * factor ∧
      IsLeast {larger : ℝ | 1 ≤ larger ∧ ∃ center,
          IsOnEllipse center (|arc.rx| * larger) (|arc.ry| * larger) arc.angle arc.start ∧
            IsOnEllipse center (|arc.rx| * larger)
              (|arc.ry| * larger) arc.angle arc.finish} factor ∧
      centered.at 0 = arc.start ∧ centered.at 1 = arc.finish ∧
      ∀ steps, (arc.points steps).head? = some arc.start ∧
        (arc.points steps).getLast? = some arc.finish := by
  have hform := toCentered_eq arc
  obtain ⟨hzero, hone⟩ := toCentered_at_ends hends hrx hry
  refine ⟨arc.toCentered, toCentered?_eq_some hends hrx hry, ?_, ?_,
    isLeast_enlargement hends (abs_ne_zero.mpr hrx) (abs_ne_zero.mpr hry), hzero, hone,
    points_ends hends hrx hry⟩
  · rw [hform]
    rfl
  · rw [hform]
    rfl

/-- A quarter of a turn and a radius with a minus sign: the half chord is five times as
long as the radius along it. -/
theorem toCentered?_passes_through_ends_small_radii :
    let arc : Arc ℝ := ⟨⟨0, 0⟩, ⟨0, 100⟩, -10, 20, 90, true, false⟩
    arc.start.near arc.finish = false ∧ arc.rx ≠ 0 ∧ arc.ry ≠ 0 ∧
      ∃ centered, arc.toCentered? = some centered ∧ centered.rx = 50 ∧ centered.ry = 100 ∧
        centered.at 0 = ⟨0, 0⟩ ∧ centered.at 1 = ⟨0, 100⟩ := by
  intro arc
  have hends : arc.start.near arc.finish = false := by
    rw [← Bool.not_eq_true, Point.near_iff, not_and_or]
    right
    show ¬|(0 : ℝ) - 100| < 1e-10
    norm_num
  have hrx : arc.rx ≠ 0 := by norm_num [arc]
  have hry : arc.ry ≠ 0 := by norm_num [arc]
  -- the chord stands upright, which is along the turned first axis
  have hreach : reach arc.halfChord |arc.rx| |arc.ry| = 5 ^ 2 := by
    have hangle : arc.angle = Real.pi / 2 := by
      show (90 : ℝ) * (Real.pi / 180) = Real.pi / 2
      ring
    rw [reach_eq, halfChord_eq, hangle]
    simp only [alongAxes, middle, Real.cos_pi_div_two, Real.sin_pi_div_two, arc]
    norm_num
  obtain ⟨centered, hsome, hx, hy, -, hzero, hone, -⟩ :=
    toCentered?_passes_through_ends hends hrx hry
  rw [hreach, Real.sqrt_sq (by norm_num)] at hx hy
  refine ⟨hends, hrx, hry, centered, hsome, ?_, ?_, hzero, hone⟩
  · rw [hx]
    norm_num [arc]
  · rw [hy]
    norm_num [arc]

/-! ## Degenerate arcs -/

theorem points_of_near {arc : Arc ℝ} (h : arc.start.near arc.finish = true) (steps : Nat) :
    arc.points steps = [] :=
  if_pos h

/-- An arc with a radius of zero is the straight segment to its finish. -/
theorem points_of_isFlat {arc : Arc ℝ} (hends : arc.start.near arc.finish = false)
    (h : arc.isFlat = true) (steps : Nat) : arc.points steps = [arc.finish] := by
  have hnone : arc.toCentered? = none := by rw [toCentered?, hends, h]; rfl
  rw [points, hends, hnone]
  rfl

/-- However an arc is drawn, if it leaves points then the last one is its finish. -/
theorem getLast?_points_or (arc : Arc ℝ) (steps : Nat) :
    (arc.points steps).getLast? = some arc.finish ∨
      arc.points steps = [] ∧ arc.start.near arc.finish = true := by
  cases hends : arc.start.near arc.finish with
  | true => exact .inr ⟨points_of_near hends steps, rfl⟩
  | false =>
    left
    cases hflat : arc.isFlat with
    | true => rw [points_of_isFlat hends hflat, List.getLast?_singleton]
    | false =>
      rw [← Bool.not_eq_true, isFlat_iff, not_or] at hflat
      exact (points_ends hends hflat.1 hflat.2 steps).2

end Arc

end Kerf.Curve
