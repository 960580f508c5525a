import Kerf.Curve.Ellipse
import Kerf.Path.Pen
import Kerf.Shape.Kind
import Kerf.Text.Words

/-!
# Shapes

A `Shape` is what can be drawn, and `Shape.points` draws it as one polyline. Closed shapes
end where they start; a polyline stays open. `readPointList` reads the vertex lists of
drawings.
-/

namespace Kerf

/-- A shape of the drawing plane. -/
inductive Shape (α : Type) where
  | rect (x y width height : α)
  | circle (center : Point α) (radius : α)
  | ellipse (center : Point α) (rx ry : α)
  | line (start finish : Point α)
  | polyline (vertices : List (Point α))
  | polygon (vertices : List (Point α))
  | path (commands : List (Path.Command α))
  /-- Tips on the outer radius and notches on the inner one, taking turns. -/
  | star (center : Point α) (outerRadius innerRadius : α) (tips : UInt32)
  deriving Repr

namespace Shape

variable {α : Type}

/-- The kind of a shape. -/
def kind : Shape α → Kind
  | rect .. => .rect
  | circle .. => .circle
  | ellipse .. => .ellipse
  | line .. => .line
  | polyline .. => .polyline
  | polygon .. => .polygon
  | path .. => .path
  | star .. => .star

/-- The corners of a rectangle, from its origin and back to it. -/
def rectPoints [Scalar α] (x y width height : α) : List (Point α) :=
  [⟨x, y⟩, ⟨x + width, y⟩, ⟨x + width, y + height⟩, ⟨x, y + height⟩, ⟨x, y⟩]

/-- A list with its first point once more at the end. -/
def closed (points : List (Point α)) : List (Point α) :=
  points ++ points.head?.toList

/-- The corner of a star with an index; even ones are tips. -/
def starCorner [Scalar α] (center : Point α) (outerRadius innerRadius step : α) (index : Nat) :
    Point α :=
  let radius := if index % 2 = 0 then outerRadius else innerRadius
  let angle := (index : α) * step
  ⟨center.x + radius * Scalar.cos angle, center.y + radius * Scalar.sin angle⟩

/-- The outline of a star, from the tip at angle zero and back to it; with fewer than two
tips it has none. The number of corners is counted in the 32 bits that hold the number of
tips. -/
def starPoints [Scalar α] (center : Point α) (outerRadius innerRadius : α) (tips : UInt32) :
    List (Point α) :=
  if tips < 2 then []
  else
    let step : α := Scalar.pi / (tips.toNat : α)
    closed ((List.range (tips * 2).toNat).map
      (starCorner center outerRadius innerRadius step))

/-- A shape as a polyline. -/
def points [Scalar α] (fineness : Fineness) : Shape α → List (Point α)
  | rect x y width height => rectPoints x y width height
  | circle center radius => Curve.ellipse center radius radius fineness.ellipseSegments.toNat
  | ellipse center rx ry => Curve.ellipse center rx ry fineness.ellipseSegments.toNat
  | line start finish => [start, finish]
  | polyline vertices => vertices
  | polygon vertices => closed vertices
  | path commands => Path.points commands fineness
  | star center outerRadius innerRadius tips => starPoints center outerRadius innerRadius tips

/-! ## Vertex lists -/

/-- Reads the pairs of a list of numerals; a pair with an unreadable member is left out,
and so is a numeral without a partner. -/
def readPairs [Written α] : List (List Char) → List (Point α)
  | x :: y :: rest =>
    match Written.read? x, Written.read? y with
    | some x, some y => ⟨x, y⟩ :: readPairs rest
    | _, _ => readPairs rest
  | _ => []

/-- Reads a vertex list: numerals between blanks and commas, two for each vertex. -/
def readPointList [Written α] (text : List Char) : List (Point α) :=
  readPairs (Text.words (fun c => Text.isBlank c || c == ',') text)

end Shape

end Kerf
