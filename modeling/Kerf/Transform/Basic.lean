import Kerf.Plane.Point

/-!
# Transforms

A `Transform` scales, then rotates about a center, then shifts, always in that order. Rotations
too small to matter are left out.
-/

namespace Kerf

/-- A scaling, a rotation about a center and a shift. -/
structure Transform (α : Type) where
  shift : Point α
  scaling : Point α
  /-- The angle of the rotation, in degrees. -/
  rotation : α
  /-- The fixed point of the rotation. -/
  center : Point α
  deriving DecidableEq, Repr

namespace Transform

variable {α : Type} [Scalar α]

/-- The transform that moves nothing. -/
def identity : Transform α := ⟨⟨0.0, 0.0⟩, ⟨1.0, 1.0⟩, 0.0, ⟨0.0, 0.0⟩⟩

instance : Inhabited (Transform α) := ⟨identity⟩

def ofShift (offset : Point α) : Transform α :=
  { (identity : Transform α) with shift := offset }

def ofScaling (factors : Point α) : Transform α :=
  { (identity : Transform α) with scaling := factors }

def ofRotation (degrees : α) (center : Point α) : Transform α :=
  { (identity : Transform α) with rotation := degrees, center := center }

/-- Whether the coordinates of two points are equal as numbers. -/
def samePoint (p q : Point α) : Bool :=
  Scalar.same p.x q.x && Scalar.same p.y q.y

/-- Whether a transform has the parts of the identity. -/
def isIdentity (t : Transform α) : Bool :=
  samePoint t.shift (identity : Transform α).shift &&
    samePoint t.scaling (identity : Transform α).scaling &&
    Scalar.same t.rotation (identity : Transform α).rotation &&
    samePoint t.center (identity : Transform α).center

/-- The angle, in degrees, that a rotation must exceed to be carried out. -/
def leastRotation : α := 0.001

/-- A point turned about a center. -/
def rotate (degrees : α) (center p : Point α) : Point α :=
  let angle := Scalar.radians degrees
  let s := Scalar.sin angle
  let c := Scalar.cos angle
  let dx := p.x - center.x
  let dy := p.y - center.y
  ⟨center.x + dx * c - dy * s, center.y + dx * s + dy * c⟩

/-- Where a transform takes a point. -/
def apply (t : Transform α) (p : Point α) : Point α :=
  let scaled : Point α := ⟨p.x * t.scaling.x, p.y * t.scaling.y⟩
  let turned :=
    if leastRotation < Scalar.abs t.rotation then rotate t.rotation t.center scaled else scaled
  turned + t.shift

end Transform

end Kerf
