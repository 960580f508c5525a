import Kerf.Curve.Fineness

/-!
# Ellipses

A whole ellipse with axes along the coordinates, as a closed polyline that starts and ends
at angle zero.
-/

namespace Kerf.Curve

/-- An ellipse as a closed polyline. -/
def ellipse {α : Type} [Scalar α] (center : Point α) (rx ry : α) (segments : Nat) :
    List (Point α) :=
  overSteps segments fun i =>
    let angle := 2.0 * Scalar.pi * (i : α) / (stepCount segments : α)
    ⟨center.x + rx * Scalar.cos angle, center.y + ry * Scalar.sin angle⟩

end Kerf.Curve
