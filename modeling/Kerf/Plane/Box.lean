import Kerf.Plane.Point

/-!
# Boxes

A `Box` is an axis-aligned rectangle given by two corners. Building one does not order the
corners, so a box may be inverted; `Box.ofPoints?` gives the box of least and greatest
coordinates of some points.
-/

namespace Kerf

/-- An axis-aligned rectangle between two corners. -/
structure Box (α : Type) where
  topLeft : Point α
  bottomRight : Point α
  deriving DecidableEq, Repr, Inhabited

namespace Box

variable {α : Type} [Scalar α]

/-- The box that holds the origin alone. -/
def empty : Box α := ⟨.origin, .origin⟩

/-- The box with a corner and a size. -/
def ofRect (x y width height : α) : Box α :=
  ⟨⟨x, y⟩, ⟨x + width, y + height⟩⟩

/-- The least box that covers a box and a point. -/
def insert (box : Box α) (p : Point α) : Box α :=
  ⟨⟨Scalar.min box.topLeft.x p.x, Scalar.min box.topLeft.y p.y⟩,
    ⟨Scalar.max box.bottomRight.x p.x, Scalar.max box.bottomRight.y p.y⟩⟩

/-- The box of the least and greatest coordinates of some points, if there is a point. -/
def ofPoints? : List (Point α) → Option (Box α)
  | [] => none
  | p :: points => some (points.foldl insert ⟨p, p⟩)

def width (box : Box α) : α :=
  box.bottomRight.x - box.topLeft.x

def height (box : Box α) : α :=
  box.bottomRight.y - box.topLeft.y

def center (box : Box α) : Point α :=
  ⟨(box.topLeft.x + box.bottomRight.x) / 2.0, (box.topLeft.y + box.bottomRight.y) / 2.0⟩

/-- Whether a point is inside or on the border. -/
def contains (box : Box α) (p : Point α) : Bool :=
  decide (box.topLeft.x ≤ p.x) && decide (p.x ≤ box.bottomRight.x) &&
    decide (box.topLeft.y ≤ p.y) && decide (p.y ≤ box.bottomRight.y)

/-- The box with each side moved out by a margin. -/
def expand (box : Box α) (margin : α) : Box α :=
  ⟨box.topLeft - ⟨margin, margin⟩, box.bottomRight + ⟨margin, margin⟩⟩

/-- The least box that covers two boxes. -/
def union (a b : Box α) : Box α :=
  ⟨⟨Scalar.min a.topLeft.x b.topLeft.x, Scalar.min a.topLeft.y b.topLeft.y⟩,
    ⟨Scalar.max a.bottomRight.x b.bottomRight.x, Scalar.max a.bottomRight.y b.bottomRight.y⟩⟩

/-- Whether the corners of two boxes are near each other. -/
def near (a b : Box α) : Bool :=
  a.topLeft.near b.topLeft && a.bottomRight.near b.bottomRight

/-- The two corners in brackets. -/
def text {β : Type} [Written β] (box : Box β) : List Char :=
  "Bounds[".toList ++ box.topLeft.text ++ " - ".toList ++ box.bottomRight.text ++ [']']

theorem insert_eq_union (box : Box α) (p : Point α) : box.insert p = box.union ⟨p, p⟩ := rfl

end Box

end Kerf
