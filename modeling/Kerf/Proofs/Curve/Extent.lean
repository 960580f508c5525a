import Mathlib
import Kerf.Proofs.Curve.Arc

/-!
# Which of the arcs is drawn

Two ellipses with given radii and rotation pass through both ends of an arc, and each is
cut by the ends into two arcs. The flags choose among the four: one says which way round,
the other whether the longer way. In exact arithmetic the extent that is found belongs to
the arc that they choose.

- `exists_turn_eq`: how far it is from the start to the finish, seen from the center, by
  its sine and cosine. Both follow from how far the center is off the chord, and on which
  side.
- `extent_mem`: the extent between two angles goes the way that it should, and never round
  a whole turn.
- `pi_lt_iff_sin_neg`: within a turn, the sine tells the longer half from the shorter one.
-/

namespace Kerf.Curve

theorem IsOnEllipse.cos_polarAngle {center : Point ℝ} {rx ry rotation : ℝ} {p : Point ℝ}
    (h : IsOnEllipse center rx ry rotation p) :
    Real.cos (polarAngle center rx ry rotation p) = (alongAxes rotation center p).x / rx :=
  Scalar.cos_atan2 h

theorem IsOnEllipse.sin_polarAngle {center : Point ℝ} {rx ry rotation : ℝ} {p : Point ℝ}
    (h : IsOnEllipse center rx ry rotation p) :
    Real.sin (polarAngle center rx ry rotation p) = (alongAxes rotation center p).y / ry :=
  Scalar.sin_atan2 h

/-- The angle of a place is the one within half a turn to either side. -/
theorem polarAngle_mem (center : Point ℝ) (rx ry rotation : ℝ) (p : Point ℝ) :
    polarAngle center rx ry rotation p ∈ Set.Ioc (-Real.pi) Real.pi :=
  Complex.arg_mem_Ioc _

namespace Arc

/-! ## Extents between angles -/

/-- Extents that go one way round, less than a whole turn. -/
def extents (sweep : Bool) : Set ℝ :=
  if sweep then Set.Ioo 0 (Real.pi + Real.pi) else Set.Ioo (-(Real.pi + Real.pi)) 0

/-- The extent between two angles of points goes the way round that it should. -/
theorem extent_mem {startAngle endAngle : ℝ} (hstart : startAngle ∈ Set.Ioc (-Real.pi) Real.pi)
    (hend : endAngle ∈ Set.Ioc (-Real.pi) Real.pi) (hne : startAngle ≠ endAngle)
    (sweep : Bool) :
    extent sweep startAngle endAngle ∈ extents sweep := by
  obtain ⟨hstartLow, hstartHigh⟩ := hstart
  obtain ⟨hendLow, hendHigh⟩ := hend
  have hzero : (0.0 : ℝ) = 0 := by norm_num
  have htwo : (2.0 : ℝ) = 2 := by norm_num
  -- a turn is added or taken off if the difference has the wrong sign for the sweep
  rcases lt_or_gt_of_ne (sub_ne_zero.mpr hne.symm) with hneg | hpos
  · cases sweep with
    | false =>
      have hextent : extent false startAngle endAngle = endAngle - startAngle := by
        simp [extent, hzero, not_lt.mpr hneg.le, -sub_pos, -sub_neg]
      rw [hextent]
      exact ⟨by linarith, hneg⟩
    | true =>
      have hextent : extent true startAngle endAngle = endAngle - startAngle + 2 * Real.pi := by
        simp [extent, hzero, htwo, hneg, Scalar.pi_eq]
      rw [hextent]
      exact ⟨by linarith, by linarith⟩
  · cases sweep with
    | false =>
      have hextent : extent false startAngle endAngle =
          endAngle - startAngle - 2 * Real.pi := by
        simp [extent, hzero, htwo, hpos, Scalar.pi_eq]
      rw [hextent]
      exact ⟨by linarith, by linarith⟩
    | true =>
      have hextent : extent true startAngle endAngle = endAngle - startAngle := by
        simp [extent, hzero, not_lt.mpr hpos.le, -sub_pos, -sub_neg]
      rw [hextent]
      exact ⟨hpos, by linarith⟩

/-- A turn more or less does not count for the sine. -/
theorem sin_extent (sweep : Bool) (startAngle endAngle : ℝ) :
    Real.sin (extent sweep startAngle endAngle) = Real.sin (endAngle - startAngle) := by
  obtain ⟨turns, hturns⟩ := exists_extent_eq sweep startAngle endAngle
  have hextent : extent sweep startAngle endAngle =
      endAngle - startAngle + turns * (2 * Real.pi) := by linear_combination hturns
  rw [hextent, Real.sin_add_int_mul_two_pi]

/-- Within a turn, the sine is negative in the second half. -/
theorem pi_lt_iff_sin_neg {x : ℝ} (h : x ∈ Set.Ioo 0 (2 * Real.pi)) :
    Real.pi < x ↔ Real.sin x < 0 := by
  constructor
  · intro hlong
    rw [← Real.sin_sub_two_pi]
    exact Real.sin_neg_of_neg_of_neg_pi_lt (by linarith [h.2]) (by linarith)
  · intro hneg
    by_contra hshort
    have hnonneg := Real.sin_nonneg_of_nonneg_of_le_pi h.1.le (not_lt.mp hshort)
    linarith

/-- Within a turn, the sine is zero in the middle only. -/
theorem eq_pi_iff_sin_eq_zero {x : ℝ} (h : x ∈ Set.Ioo 0 (2 * Real.pi)) :
    x = Real.pi ↔ Real.sin x = 0 := by
  constructor
  · rintro rfl
    exact Real.sin_pi
  · intro hzero
    have hlong : ¬Real.pi < x := by
      rw [pi_lt_iff_sin_neg h, hzero]
      exact lt_irrefl 0
    have hshort : ¬x < Real.pi := fun hlt =>
      (Real.sin_pos_of_pos_of_lt_pi h.1 hlt).ne' hzero
    exact le_antisymm (not_lt.mp hlong) (not_lt.mp hshort)

/-- An extent without its sign, and the sine of that. -/
theorem abs_extents {sweep : Bool} {x : ℝ} (h : x ∈ extents sweep) :
    |x| ∈ Set.Ioo 0 (2 * Real.pi) ∧
      Real.sin |x| = if sweep then Real.sin x else -Real.sin x := by
  cases sweep with
  | true =>
    obtain ⟨hlow, hhigh⟩ := h
    rw [abs_of_pos hlow]
    exact ⟨⟨hlow, by linarith⟩, rfl⟩
  | false =>
    obtain ⟨hlow, hhigh⟩ := h
    rw [abs_of_neg hhigh, Real.sin_neg]
    exact ⟨⟨by linarith, by linarith⟩, rfl⟩

/-! ## From the start to the finish -/

/-- Once the radii are enlarged, the half chord reaches across them as before, but no
farther than once. -/
theorem reach_radii (arc : Arc ℝ) :
    reach arc.halfChord arc.radii.1 arc.radii.2 =
      min 1 (reach arc.halfChord |arc.rx| |arc.ry|) := by
  have hnonneg : 0 ≤ reach arc.halfChord |arc.rx| |arc.ry| := by
    rw [reach_eq]
    positivity
  show reach arc.halfChord (|arc.rx| * enlargement _ _ _) (|arc.ry| * enlargement _ _ _) = _
  rw [reach_mul, enlargement]
  by_cases hreach : reach arc.halfChord |arc.rx| |arc.ry| ≤ 1
  · rw [max_eq_left (Real.sqrt_le_one.mpr hreach), one_pow, div_one, min_eq_right hreach]
  · have hfar : 1 ≤ reach arc.halfChord |arc.rx| |arc.ry| := (not_le.mp hreach).le
    rw [max_eq_right (Real.one_le_sqrt.mpr hfar), Real.sq_sqrt hnonneg,
      div_self (by linarith), min_eq_left hfar]

section Ends

variable {arc : Arc ℝ} (hends : arc.start.near arc.finish = false)

include hends

/-- Seen from the center, the finish is turned against the start by an angle that the
center's offset determines. With `u` for the half chord measured in radii and `u'` for it
turned by a right angle, the start is seen at `u + k * u'` and the finish at
`-u + k * u'`. -/
theorem exists_turn_eq {rx ry : ℝ} (hrx : rx ≠ 0) (hry : ry ≠ 0)
    (hreach : reach arc.halfChord rx ry ≤ 1) (sameSide : Bool) :
    let offset := centerOffset arc.halfChord rx ry sameSide
    let angleOf := polarAngle (seenFrom arc.angle arc.middle offset) rx ry arc.angle
    ∃ k : ℝ, (1 + k ^ 2) * reach arc.halfChord rx ry = 1 ∧ (if sameSide then k ≤ 0 else 0 ≤ k) ∧
      offset = ⟨rx * (k * (arc.halfChord.y / ry)), -(ry * (k * (arc.halfChord.x / rx)))⟩ ∧
      Real.sin (angleOf arc.finish - angleOf arc.start) = 2 * k * reach arc.halfChord rx ry ∧
      Real.cos (angleOf arc.finish - angleOf arc.start) =
        (k ^ 2 - 1) * reach arc.halfChord rx ry := by
  intro offset angleOf
  obtain ⟨k, hk, hside, hoffset⟩ :=
    exists_centerOffset_eq hrx hry (reach_pos hends hrx hry) hreach sameSide
  obtain ⟨hstart, hfinish⟩ := isOnEllipse_ends hends hrx hry hreach sameSide
  have hx : ∀ a b : ℝ, (a - rx * b) / rx = a / rx - b := fun a b => by field_simp
  have hy : ∀ a b : ℝ, (a - -(ry * b)) / ry = a / ry + b := fun a b => by
    field_simp
    ring
  -- the ends lie on the ellipse, so their coordinates in radii are a cosine and a sine
  have hcosStart : Real.cos (angleOf arc.start) =
      arc.halfChord.x / rx - k * (arc.halfChord.y / ry) := by
    rw [← hx, hstart.cos_polarAngle, alongAxes_start, hoffset]
  have hsinStart : Real.sin (angleOf arc.start) =
      arc.halfChord.y / ry + k * (arc.halfChord.x / rx) := by
    rw [← hy, hstart.sin_polarAngle, alongAxes_start, hoffset]
  have hcosFinish : Real.cos (angleOf arc.finish) =
      -arc.halfChord.x / rx - k * (arc.halfChord.y / ry) := by
    rw [← hx, hfinish.cos_polarAngle, alongAxes_finish, hoffset]
  have hsinFinish : Real.sin (angleOf arc.finish) =
      -arc.halfChord.y / ry + k * (arc.halfChord.x / rx) := by
    rw [← hy, hfinish.sin_polarAngle, alongAxes_finish, hoffset]
  -- and the turn is the difference of the two angles
  refine ⟨k, hk, hside, hoffset, ?_, ?_⟩
  · rw [Real.sin_sub, hcosStart, hsinStart, hcosFinish, hsinFinish, reach_eq]
    ring
  · rw [Real.cos_sub, hcosStart, hsinStart, hcosFinish, hsinFinish, reach_eq]
    ring

/-- Seen from the center, the two ends stand at different angles. -/
theorem polarAngle_ends_ne {rx ry : ℝ} (hrx : rx ≠ 0) (hry : ry ≠ 0)
    (hreach : reach arc.halfChord rx ry ≤ 1) (sameSide : Bool) :
    let angleOf := polarAngle
      (seenFrom arc.angle arc.middle (centerOffset arc.halfChord rx ry sameSide)) rx
        ry arc.angle
    angleOf arc.start ≠ angleOf arc.finish := by
  intro angleOf hsame
  obtain ⟨k, hk, -, -, -, hcos⟩ := exists_turn_eq hends hrx hry hreach sameSide
  have hpos := reach_pos hends hrx hry
  -- without a turn the cosine is one, and that is more than the equation for the center admits
  have hone : (k ^ 2 - 1) * reach arc.halfChord rx ry = 1 := by
    rw [← hcos, show polarAngle _ rx ry arc.angle arc.finish =
      polarAngle _ rx ry arc.angle arc.start from hsame.symm, sub_self, Real.cos_zero]
  linarith

/-- The extent of an arc goes its way round. It is half a turn if the center is on the
chord, and else the sine says on which side of half a turn it is: on the far one for the
longer arc. -/
theorem exists_sin_abs_sweepAngle_eq (hrx : arc.rx ≠ 0) (hry : arc.ry ≠ 0) :
    let lambda := reach arc.halfChord arc.radii.1 arc.radii.2
    arc.toCentered.sweepAngle ∈ extents arc.sweep ∧
      ∃ k : ℝ, 0 ≤ k ∧ (1 + k ^ 2) * lambda = 1 ∧
        Real.sin |arc.toCentered.sweepAngle| =
          (if arc.large then -1 else 1) * (2 * k * lambda) ∧
        (k = 0 → arc.toCentered.center = arc.middle) := by
  intro lambda
  obtain ⟨hx, hy, hreach⟩ := arc.radii_reach hrx hry
  obtain ⟨k, hk, hside, hoffset, hturn, -⟩ :=
    exists_turn_eq hends hx hy hreach (arc.large == arc.sweep)
  have hne := polarAngle_ends_ne hends hx hy hreach (arc.large == arc.sweep)
  have hmem : arc.toCentered.sweepAngle ∈ extents arc.sweep := by
    rw [toCentered_eq]
    exact extent_mem (polarAngle_mem ..) (polarAngle_mem ..) hne arc.sweep
  have hsin : Real.sin arc.toCentered.sweepAngle = 2 * k * lambda := by
    rw [toCentered_eq, ← hturn]
    exact sin_extent _ _ _
  refine ⟨hmem, |k|, abs_nonneg k, ?_, ?_, ?_⟩
  · rw [sq_abs]
    exact hk
  · -- the way round and the side of the center together make up the sign
    rw [(abs_extents hmem).2, hsin]
    cases hsweep : arc.sweep <;> cases hlarge : arc.large <;> rw [hsweep, hlarge] at hside
    · rw [abs_of_nonpos hside]
      show -(2 * k * lambda) = 1 * (2 * -k * lambda)
      ring
    · rw [abs_of_nonneg hside]
      show -(2 * k * lambda) = -1 * (2 * k * lambda)
      ring
    · rw [abs_of_nonneg hside]
      show 2 * k * lambda = 1 * (2 * k * lambda)
      ring
    · rw [abs_of_nonpos hside]
      show 2 * k * lambda = -1 * (2 * -k * lambda)
      ring
  -- no offset leaves the center where the middle is
  · intro hzero
    rw [abs_eq_zero.mp hzero] at hoffset
    rw [toCentered_eq]
    show seenFrom arc.angle arc.middle _ = arc.middle
    rw [hoffset]
    simp [seenFrom]

end Ends

/-- **The flags select the arc**: between ends that are told apart, and with radii other
than zero, the extent has the sign that the sweep asks for and is less than a whole turn.
If the half chord reaches less far than the radii, it is more than half a turn for the
longer arc and less for the shorter one. If it reaches as far or farther, both arcs are
half a turn around the middle between the ends. -/
theorem sweepAngle_of_flags {arc : Arc ℝ} (hends : arc.start.near arc.finish = false)
    (hrx : arc.rx ≠ 0) (hry : arc.ry ≠ 0) :
    let lambda := reach arc.halfChord |arc.rx| |arc.ry|
    ∃ centered, arc.toCentered? = some centered ∧
      (arc.sweep = true → 0 < centered.sweepAngle) ∧
      (arc.sweep = false → centered.sweepAngle < 0) ∧
      |centered.sweepAngle| < 2 * Real.pi ∧
      (lambda < 1 → (Real.pi < |centered.sweepAngle| ↔ arc.large = true) ∧
        |centered.sweepAngle| ≠ Real.pi) ∧
      (1 ≤ lambda → |centered.sweepAngle| = Real.pi ∧ centered.center = arc.middle) := by
  intro lambda
  obtain ⟨hmem, k, hnonneg, hk, hsin, hcenter⟩ := exists_sin_abs_sweepAngle_eq hends hrx hry
  have hturn := (abs_extents hmem).1
  have hpos : 0 < lambda := reach_pos hends (abs_ne_zero.mpr hrx) (abs_ne_zero.mpr hry)
  rw [reach_radii] at hk hsin
  refine ⟨arc.toCentered, toCentered?_eq_some hends hrx hry, ?_, ?_, hturn.2, ?_, ?_⟩
  · intro hsweep
    rw [hsweep] at hmem
    exact hmem.1
  · intro hsweep
    rw [hsweep] at hmem
    exact hmem.2
  · intro hnear
    rw [min_eq_right hnear.le] at hk hsin
    -- the center is off the chord
    have hk0 : 0 < k := by
      refine lt_of_le_of_ne hnonneg ?_
      rintro rfl
      linarith
    have hproduct : 0 < 2 * k * lambda := by positivity
    rw [pi_lt_iff_sin_neg hturn, Ne, eq_pi_iff_sin_eq_zero hturn, hsin]
    cases arc.large with
    | false =>
      rw [if_neg Bool.false_ne_true, one_mul]
      exact ⟨iff_of_false hproduct.le.not_gt Bool.false_ne_true, hproduct.ne'⟩
    | true =>
      rw [if_pos rfl, neg_one_mul]
      exact ⟨iff_of_true (neg_lt_zero.mpr hproduct) rfl, (neg_lt_zero.mpr hproduct).ne⟩
  · intro hfar
    rw [min_eq_left hfar] at hk hsin
    -- no length is left for the offset of the center
    have hzero : k = 0 := by nlinarith
    rw [eq_pi_iff_sin_eq_zero hturn, hsin, hzero]
    exact ⟨by ring, hcenter hzero⟩

/-- The longer way round against the sweep, between ends that are as far apart as a radius. -/
theorem sweepAngle_of_flags_long_way :
    let arc : Arc ℝ := ⟨⟨0, 0⟩, ⟨1, 0⟩, 1, -1, 0, true, false⟩
    arc.start.near arc.finish = false ∧ arc.rx ≠ 0 ∧ arc.ry ≠ 0 ∧
      reach arc.halfChord |arc.rx| |arc.ry| = 1 / 4 ∧
      ∃ centered, arc.toCentered? = some centered ∧
        -(2 * Real.pi) < centered.sweepAngle ∧ centered.sweepAngle < -Real.pi := by
  intro arc
  have hends : arc.start.near arc.finish = false := by
    rw [← Bool.not_eq_true, Point.near_iff, not_and_or]
    left
    show ¬|(0 : ℝ) - 1| < 1e-10
    norm_num
  have hrx : arc.rx ≠ 0 := by norm_num [arc]
  have hry : arc.ry ≠ 0 := by norm_num [arc]
  have hreach : reach arc.halfChord |arc.rx| |arc.ry| = 1 / 4 := by
    have hangle : arc.angle = 0 := by
      show (0 : ℝ) * (Real.pi / 180) = 0
      ring
    rw [reach_eq, halfChord_eq, hangle]
    simp only [alongAxes, middle, Real.cos_zero, Real.sin_zero, arc]
    norm_num
  obtain ⟨centered, hsome, -, hneg, hturn, hlong, -⟩ := sweepAngle_of_flags hends hrx hry
  rw [hreach] at hlong
  have hhalf : Real.pi < |centered.sweepAngle| := (hlong (by norm_num)).1.mpr rfl
  rw [abs_of_neg (hneg rfl)] at hturn hhalf
  exact ⟨hends, hrx, hry, hreach, centered, hsome, by linarith, by linarith⟩

end Arc

end Kerf.Curve
