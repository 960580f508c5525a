import Mathlib.Tactic.NormNum
import Kerf.Curve.Bezier
import Kerf.Proofs.Exact

/-!
# Where sampled curves start and end

In exact arithmetic the first and the last point of a sampled curve are its points at zero
and at one (`Curve.head?_samples`, `Curve.getLast?_samples`), however many steps there
are. For a Bézier curve these are its first and its last control point.
-/

namespace Kerf

/-- Places that are not told apart on either axis. -/
theorem Point.near_iff {p q : Point ℝ} :
    p.near q = true ↔ |p.x - q.x| < (Point.tolerance : ℝ) ∧
      |p.y - q.y| < (Point.tolerance : ℝ) := by
  rw [Point.near, Bool.and_eq_true, decide_eq_true_iff, decide_eq_true_iff]
  rfl

theorem Point.tolerance_pos : (0 : ℝ) < Point.tolerance := by
  show (0 : ℝ) < 1e-10
  norm_num

theorem Point.near_self (p : Point ℝ) : p.near p = true := by
  rw [near_iff, sub_self, sub_self, abs_zero]
  exact ⟨tolerance_pos, tolerance_pos⟩

namespace Curve

theorem head?_samples (steps : Nat) (curve : ℝ → Point ℝ) :
    (samples steps curve).head? = some (curve 0) := by
  unfold samples overSteps
  rw [List.range_succ_eq_map, List.map_cons, List.head?_cons]
  show some (curve ((0 : ℕ) / _)) = _
  rw [Nat.cast_zero, zero_div]

theorem getLast?_samples (steps : Nat) (curve : ℝ → Point ℝ) :
    (samples steps curve).getLast? = some (curve 1) := by
  have hne : ((stepCount steps : ℕ) : ℝ) ≠ 0 := by
    have hpos : 1 ≤ stepCount steps := le_max_right _ _
    exact Nat.cast_ne_zero.mpr (by omega)
  unfold samples overSteps
  rw [List.range_succ, List.map_append, List.map_singleton, List.getLast?_concat]
  show some (curve ((stepCount steps : ℕ) / (stepCount steps : ℕ))) = _
  rw [div_self hne]

theorem quadraticAt_zero (p0 p1 p2 : Point ℝ) : quadraticAt p0 p1 p2 0 = p0 := by
  simp only [quadraticAt, Point.scale, Point.add_def]
  norm_num

theorem quadraticAt_one (p0 p1 p2 : Point ℝ) : quadraticAt p0 p1 p2 1 = p2 := by
  simp only [quadraticAt, Point.scale, Point.add_def]
  norm_num

theorem cubicAt_zero (p0 p1 p2 p3 : Point ℝ) : cubicAt p0 p1 p2 p3 0 = p0 := by
  simp only [cubicAt, Point.scale, Point.add_def]
  norm_num

theorem cubicAt_one (p0 p1 p2 p3 : Point ℝ) : cubicAt p0 p1 p2 p3 1 = p3 := by
  simp only [cubicAt, Point.scale, Point.add_def]
  norm_num

end Curve

end Kerf
