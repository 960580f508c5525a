import Kerf.Drawing.Outline
import Kerf.Piece

/-!
# Contours

A contour is one cut in one go: the tool goes to its first point, is lowered and switched
on, and follows the other points. Programs are made from contours, and contours from any
`Source` of geometry.
-/

namespace Kerf.Program

/-- Points to be cut through in one go, and a label that tells where they come from. -/
structure Contour (α : Type) where
  label : List Char
  points : List (Point α)
  deriving DecidableEq, Repr

/-- Geometry to be cut. -/
inductive Source (α : Type) where
  | points (points : List (Point α))
  | outlines (outlines : List (Outline α))
  | pieces (pieces : List (Piece α))

variable {α : Type}

/-- The label of an outline. -/
def outlineLabel (outline : Outline α) : List Char :=
  outline.tag ++ " (".toList ++ Nat.toDigits 10 outline.points.length ++ " points)".toList

/-- The label of a piece. -/
def pieceLabel [Written α] (piece : Piece α) : List Char :=
  piece.name ++ " (Type: ".toList ++ piece.shape.kind.name.toList ++ ") at X".toList ++
    Written.plain piece.position.x ++ " Y".toList ++ Written.plain piece.position.y

/-- The contours of a source. A list of points is one contour, or none if it is empty;
each outline is one, be it empty or not, and so is each visible piece. -/
def Source.contours [Written α] (fineness : Fineness) : Source α → List (Contour α)
  | .points [] => []
  | .points (p :: ps) => [⟨"point sequence".toList, p :: ps⟩]
  | .outlines drawn => drawn.map fun outline => ⟨outlineLabel outline, outline.points⟩
  | .pieces placed =>
    (placed.filter (·.visible)).map fun piece => ⟨pieceLabel piece, piece.points fineness⟩

end Kerf.Program
