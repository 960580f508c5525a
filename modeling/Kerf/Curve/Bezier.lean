import Kerf.Curve.Fineness

/-!
# Bézier curves

The Bernstein form of quadratic and cubic curves: at `t` each control point is weighed by
a product of powers of `1 - t` and `t`. A weight is multiplied onto the point factor by
factor, from the left.
-/

namespace Kerf.Curve

variable {α : Type} [Scalar α]

/-- The point of a quadratic curve at a parameter. -/
def quadraticAt (p0 p1 p2 : Point α) (t : α) : Point α :=
  let t2 := t * t
  let u := 1.0 - t
  let u2 := u * u
  p0.scale u2 + ((p1.scale 2.0).scale u).scale t + p2.scale t2

/-- The point of a cubic curve at a parameter. -/
def cubicAt (p0 p1 p2 p3 : Point α) (t : α) : Point α :=
  let t2 := t * t
  let t3 := t2 * t
  let u := 1.0 - t
  let u2 := u * u
  let u3 := u2 * u
  p0.scale u3 + ((p1.scale 3.0).scale u2).scale t + ((p2.scale 3.0).scale u).scale t2 +
    p3.scale t3

/-- A quadratic curve as a polyline. -/
def quadratic (p0 p1 p2 : Point α) (steps : Nat) : List (Point α) :=
  samples steps (quadraticAt p0 p1 p2)

/-- A cubic curve as a polyline. -/
def cubic (p0 p1 p2 p3 : Point α) (steps : Nat) : List (Point α) :=
  samples steps (cubicAt p0 p1 p2 p3)

end Kerf.Curve
