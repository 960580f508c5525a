import Kerf.Paint
import Kerf.Plane.Box
import Kerf.Shape.Basic
import Kerf.Transform.Reading
import Kerf.Xml.Element

/-!
# Outlines

An `Outline` is what a drawing holds of one shape: its points in the drawing's own
coordinates, its paint, and the tag it was drawn with.

`outlinesOf` gives the outlines of an element. A group gives those of the elements inside
of it, moved by its transform; a shape gives its own, if it has points; all other elements
give none, and neither does what is inside of them or of a shape. What is wrong with an
element stays with that element.
-/

namespace Kerf

/-- A shape of a drawing as a painted polyline. -/
structure Outline (α : Type) where
  points : List (Point α)
  paint : Paint α
  /-- The local name of the shape's element, as it is written. -/
  tag : List Char
  deriving DecidableEq, Repr

namespace Outline

variable {α : Type}

/-- The box of an outline, if it has points. -/
def box? [Scalar α] (outline : Outline α) : Option (Box α) :=
  Box.ofPoints? outline.points

/-- An outline moved by a transform. -/
def transform [Scalar α] (outline : Outline α) (t : Transform α) : Outline α :=
  { outline with points := outline.points.map t.apply }

/-- The points of all outlines in their order. -/
def allPoints (outlines : List (Outline α)) : List (Point α) :=
  outlines.flatMap (·.points)

end Outline

namespace Drawing

open Xml (Element)

variable {α : Type} [Written α]

/-- The number in an attribute; zero if it is missing or unreadable. -/
def number (element : Element) (name : String) : α :=
  (element.attribute? name >>= fun value => Written.read? (Text.trim value)).getD 0.0

/-- The place whose coordinates are in two attributes. -/
def place (element : Element) (x y : String) : Point α :=
  ⟨number element x, number element y⟩

/-- The shape of a kind that an element describes, if it does. -/
def shapeOf? (kind : Shape.Kind) (element : Element) : Option (Shape α) :=
  match kind with
  | .rect =>
    some (.rect (number element "x") (number element "y") (number element "width")
      (number element "height"))
  | .circle => some (.circle (place element "cx" "cy") (number element "r"))
  | .ellipse =>
    some (.ellipse (place element "cx" "cy") (number element "rx") (number element "ry"))
  | .line => some (.line (place element "x1" "y1") (place element "x2" "y2"))
  | .polyline =>
    (element.attribute? "points").map fun value => .polyline (Shape.readPointList value)
  | .polygon =>
    (element.attribute? "points").map fun value => .polygon (Shape.readPointList value)
  | .path =>
    element.attribute? "d" >>= fun value => (Path.commands value).toOption.map Shape.path
  | .star => none

/-- The transform of an element; without the attribute, the identity. -/
def transformOf (element : Element) : Transform α :=
  ((element.attribute? "transform").map Transform.read).getD .identity

/-- The paint of an element. -/
def paintOf (element : Element) : Paint α :=
  .read (element.attribute? "fill") (element.attribute? "stroke")
    (element.attribute? "stroke-width")

/-- The outline that an element gives by its own tag, if it is a shape with points. -/
def outlineOf? (fineness : Fineness) (element : Element) : Option (Outline α) := do
  let kind ← Shape.Kind.ofTag? element.tag
  let shape ← shapeOf? kind element
  let points := shape.points fineness
  if points.isEmpty then none
  else some ⟨points.map (transformOf element).apply, paintOf element, element.tag⟩

/-- Whether an element is a group. -/
def isGroup (element : Element) : Bool :=
  Text.sameIgnoringCase element.tag ['g']

/-- The outlines of a group's content in the place of the group. -/
def placeAll (t : Transform α) (outlines : List (Outline α)) : List (Outline α) :=
  if t.isIdentity then outlines else outlines.map (·.transform t)

mutual

/-- The outlines of an element. -/
def outlinesOf (fineness : Fineness) : Element → List (Outline α)
  | .node tag attributes children =>
    let element := Element.node tag attributes children
    if isGroup element then placeAll (transformOf element) (outlinesIn fineness children)
    else (outlineOf? fineness element).toList

/-- The outlines of some elements in their order. -/
def outlinesIn (fineness : Fineness) : List Element → List (Outline α)
  | [] => []
  | element :: rest => outlinesOf fineness element ++ outlinesIn fineness rest

end

end Drawing

end Kerf
