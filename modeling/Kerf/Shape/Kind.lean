import Kerf.Text.Blank

/-!
# Kinds of shapes

Each kind has a name. Seven of the names are also tags of drawings, in any letter case; a
star is made only by other means and has no tag.
-/

namespace Kerf

/-- The kinds of shapes. -/
inductive Shape.Kind where
  | rect
  | circle
  | ellipse
  | line
  | polyline
  | polygon
  | path
  | star
  deriving DecidableEq, Repr

namespace Shape.Kind

/-- The name of a kind. -/
def name : Kind → String
  | rect => "rect"
  | circle => "circle"
  | ellipse => "ellipse"
  | line => "line"
  | polyline => "polyline"
  | polygon => "polygon"
  | path => "path"
  | star => "star"

/-- The kinds that a drawing can hold. -/
def drawable : List Kind :=
  [rect, circle, ellipse, line, polyline, polygon, path]

/-- The kind that a tag stands for, in any letter case. -/
def ofTag? (tag : List Char) : Option Kind :=
  drawable.find? fun kind => Text.sameIgnoringCase tag kind.name.toList

end Shape.Kind

end Kerf
