import Kerf.Scalar

/-!
# Points of the drawing plane

A `Point` is a place or an offset. `Point.near` is the comparison that geometry uses: it
forgives differences below `Point.tolerance` on each axis, so that round-off in a curve's
last sample does not make two equal places differ.
-/

namespace Kerf

/-- A place in the drawing plane, or an offset between two places. -/
structure Point (α : Type) where
  x : α
  y : α
  deriving DecidableEq, Repr, Inhabited

namespace Point

variable {α : Type} [Scalar α]

/-- The place that coordinates are counted from. -/
def origin : Point α := ⟨0.0, 0.0⟩

instance : Add (Point α) := ⟨fun p q => ⟨p.x + q.x, p.y + q.y⟩⟩

instance : Sub (Point α) := ⟨fun p q => ⟨p.x - q.x, p.y - q.y⟩⟩

instance : Neg (Point α) := ⟨fun p => ⟨-p.x, -p.y⟩⟩

theorem add_def (p q : Point α) : p + q = ⟨p.x + q.x, p.y + q.y⟩ := rfl

theorem sub_def (p q : Point α) : p - q = ⟨p.x - q.x, p.y - q.y⟩ := rfl

theorem neg_def (p : Point α) : -p = ⟨-p.x, -p.y⟩ := rfl

/-- Both coordinates times a factor. -/
def scale (p : Point α) (factor : α) : Point α :=
  ⟨p.x * factor, p.y * factor⟩

/-- The straight-line distance between two places. -/
def distance (p q : Point α) : α :=
  let dx := p.x - q.x
  let dy := p.y - q.y
  Scalar.sqrt (dx * dx + dy * dy)

/-- The difference on one axis below which two places are not told apart. -/
def tolerance : α := 1e-10

/-- Whether two places are within the tolerance of each other on both axes. -/
def near (p q : Point α) : Bool :=
  decide (Scalar.abs (p.x - q.x) < tolerance) && decide (Scalar.abs (p.y - q.y) < tolerance)

/-- Whether both coordinates are finite. -/
def isFinite (p : Point α) : Bool :=
  Scalar.isFinite p.x && Scalar.isFinite p.y

/-- The coordinates with two places, in parentheses. -/
def text {β : Type} [Written β] (p : Point β) : List Char :=
  '(' :: (Written.fixed 2 p.x ++ ", ".toList ++ Written.fixed 2 p.y ++ [')'])

end Point

end Kerf
