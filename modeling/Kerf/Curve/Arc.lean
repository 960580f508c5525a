import Kerf.Curve.Fineness

/-!
# Elliptical arcs

An arc of a drawing is given by its two ends, the radii and rotation of its ellipse, and
two flags that choose among the four arcs of such ellipses between the ends (`Arc`). To
sample it, it is brought to center form (`Arc.toCentered?`): a center, a start angle and a
signed extent. Radii too small for any ellipse through both ends are first enlarged by a
common factor.

An arc without center form is degenerate. With a zero radius it is the straight segment to
its end, and between ends that are not told apart it is nothing at all.
-/

namespace Kerf.Curve

variable {α : Type} [Scalar α]

/-- An elliptical arc between two places. -/
structure Arc (α : Type) where
  start : Point α
  finish : Point α
  rx : α
  ry : α
  /-- The rotation of the ellipse's first axis, in degrees. -/
  rotation : α
  /-- Whether the arc is the longer way round. -/
  large : Bool
  /-- Whether the angle grows along the arc. -/
  sweep : Bool

/-- An elliptical arc by center and angles. -/
structure CenteredArc (α : Type) where
  center : Point α
  rx : α
  ry : α
  /-- The rotation of the ellipse's first axis, in radians. -/
  rotation : α
  startAngle : α
  /-- The signed extent of the arc's angle. -/
  sweepAngle : α

namespace Arc

/-- Half of the way from the finish back to the start, in the frame of the ellipse's axes. -/
def halfChord (arc : Arc α) : Point α :=
  let phi := Scalar.radians arc.rotation
  let dx := (arc.start.x - arc.finish.x) / 2.0
  let dy := (arc.start.y - arc.finish.y) / 2.0
  ⟨Scalar.cos phi * dx + Scalar.sin phi * dy, -Scalar.sin phi * dx + Scalar.cos phi * dy⟩

/-- How far the half chord reaches across the ellipse with the given radii: beyond one, no
ellipse with these radii passes through both ends. -/
def reach (half : Point α) (rx ry : α) : α :=
  (half.x * half.x) / (rx * rx) + (half.y * half.y) / (ry * ry)

/-- Radii large enough for an ellipse through both ends. -/
def enlarged (half : Point α) (rx ry : α) : α × α :=
  let lambda := reach half rx ry
  if 1.0 < lambda then
    let factor := Scalar.sqrt lambda
    (rx * factor, ry * factor)
  else (rx, ry)

/-- The center seen from the chord's midpoint, in the frame of the ellipse's axes. -/
def centerOffset (half : Point α) (rx ry : α) (sameSide : Bool) : Point α :=
  let rx2 := rx * rx
  let ry2 := ry * ry
  let numerator := rx2 * ry2 - rx2 * half.y * half.y - ry2 * half.x * half.x
  let denominator := rx2 * half.y * half.y + ry2 * half.x * half.x
  let sign : α := if sameSide then -1.0 else 1.0
  let coefficient := sign * Scalar.sqrt (Scalar.max (numerator / denominator) 0.0)
  ⟨coefficient * (rx * half.y / ry), coefficient * -(ry * half.x / rx)⟩

/-- The extent between two angles that has the sign of the sweep. -/
def extent (sweep : Bool) (startAngle endAngle : α) : α :=
  let difference := endAngle - startAngle
  if !sweep && decide (0.0 < difference) then difference - 2.0 * Scalar.pi
  else if sweep && decide (difference < 0.0) then difference + 2.0 * Scalar.pi
  else difference

/-- The center form of an arc with ends that are told apart and radii other than zero. -/
def toCentered (arc : Arc α) : CenteredArc α :=
  let phi := Scalar.radians arc.rotation
  let half := arc.halfChord
  let (rx, ry) := enlarged half (Scalar.abs arc.rx) (Scalar.abs arc.ry)
  let offset := centerOffset half rx ry (arc.large == arc.sweep)
  let startAngle := Scalar.atan2 ((half.y - offset.y) / ry) ((half.x - offset.x) / rx)
  let endAngle := Scalar.atan2 ((-half.y - offset.y) / ry) ((-half.x - offset.x) / rx)
  { center :=
      ⟨Scalar.cos phi * offset.x - Scalar.sin phi * offset.y +
          (arc.start.x + arc.finish.x) / 2.0,
        Scalar.sin phi * offset.x + Scalar.cos phi * offset.y +
          (arc.start.y + arc.finish.y) / 2.0⟩
    rx := rx
    ry := ry
    rotation := phi
    startAngle := startAngle
    sweepAngle := extent arc.sweep startAngle endAngle }

/-- Whether one of the radii is zero. -/
def isFlat (arc : Arc α) : Bool :=
  Scalar.same (Scalar.abs arc.rx) 0.0 || Scalar.same (Scalar.abs arc.ry) 0.0

/-- The center form of an arc, unless it is degenerate. -/
def toCentered? (arc : Arc α) : Option (CenteredArc α) :=
  if arc.start.near arc.finish || arc.isFlat then none else some arc.toCentered

end Arc

/-- The point of an arc at a parameter from zero to one. -/
def CenteredArc.at (arc : CenteredArc α) (t : α) : Point α :=
  let angle := arc.startAngle + arc.sweepAngle * t
  let x := arc.rx * Scalar.cos angle
  let y := arc.ry * Scalar.sin angle
  let c := Scalar.cos arc.rotation
  let s := Scalar.sin arc.rotation
  ⟨arc.center.x + (x * c - y * s), arc.center.y + (y * c + x * s)⟩

/-- An arc as a polyline. -/
def Arc.points (arc : Arc α) (steps : Nat) : List (Point α) :=
  if arc.start.near arc.finish then []
  else
    match arc.toCentered? with
    | none => [arc.finish]
    | some centered => samples steps centered.at

end Kerf.Curve
