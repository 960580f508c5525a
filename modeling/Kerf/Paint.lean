import Kerf.Color.Reading
import Kerf.Scalar

/-!
# Paint

How an outline is painted: a fill and a stroke, each with a color and with a note of
whether there is any, and the width of the stroke. An outline is filled black and not
stroked unless it says otherwise.
-/

namespace Kerf

/-- The fill and the stroke of an outline. -/
structure Paint (α : Type) where
  fillColor : Color
  strokeColor : Color
  strokeWidth : α
  hasFill : Bool
  hasStroke : Bool
  deriving DecidableEq, Repr

namespace Paint

/-- Whether a character can belong to the unit of a width. -/
def isUnit (c : Char) : Bool :=
  c.isAlpha || c == '%'

/-- Reads a stroke width. All ASCII letters and percent signs are taken for parts of a unit and
dropped; a negative width counts as zero, and one for a width that is absent or unreadable. -/
def readWidth {α : Type} [Written α] : Option (List Char) → α
  | none => 1.0
  | some text =>
    match Written.read? (Text.trim (text.filter fun c => !isUnit c)) with
    | some width => if Scalar.isFinite width then Scalar.max width 0.0 else 1.0
    | none => 1.0

/-- Paint from the texts of a fill, a stroke and a stroke width. -/
def read {α : Type} [Written α] (fill stroke width : Option (List Char)) : Paint α :=
  let fill := (fill.getD []) |> Text.trim
  let stroke := (stroke.getD []) |> Text.trim
  let hasFill := !Color.isNone fill
  let hasStroke := !stroke.isEmpty && !Color.isNone stroke
  { fillColor := if fill.isEmpty then .black else Color.readOr .black fill
    strokeColor := if hasStroke then Color.readOr .black stroke else .transparent
    strokeWidth := readWidth width
    hasFill := hasFill
    hasStroke := hasStroke }

end Paint

end Kerf
