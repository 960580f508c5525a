import Kerf.Plane.Box
import Kerf.Shape.Basic

/-!
# Pieces

A `Piece` is a shape placed on the work area: it has a name, an offset and a visibility, and an
identity that moving it keeps.
-/

namespace Kerf

/-- A shape placed on the work area. -/
structure Piece (α : Type) where
  /-- What tells pieces apart that are alike otherwise. -/
  id : Nat
  name : List Char
  /-- What is added to every point of the shape. -/
  position : Point α
  /-- A piece that is not visible is not cut. -/
  visible : Bool
  shape : Shape α
  deriving Repr

namespace Piece

variable {α : Type} [Scalar α]

/-- The points of a piece where it lies. -/
def points (piece : Piece α) (fineness : Fineness) : List (Point α) :=
  (piece.shape.points fineness).map (· + piece.position)

/-- The box of a piece, if it has points. -/
def box? (piece : Piece α) (fineness : Fineness) : Option (Box α) :=
  Box.ofPoints? (piece.points fineness)

/-- A piece moved by an offset. -/
def translate (piece : Piece α) (offset : Point α) : Piece α :=
  { piece with position := piece.position + offset }

/-- Whether a place is in the box of a piece. -/
def contains (piece : Piece α) (place : Point α) (fineness : Fineness) : Bool :=
  (piece.box? fineness).any fun box => box.contains place

end Piece

end Kerf
