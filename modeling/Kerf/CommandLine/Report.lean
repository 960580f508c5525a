import Kerf.Data.Datum
import Kerf.Drawing.Outline
import Kerf.Program.Estimate

/-!
# Reports

What commands print besides programs: the data of outlines, and the lines of an estimate.
-/

namespace Kerf.CommandLine

/-! ## Outlines as data -/

/-- A record with names written as strings. -/
def recordOf (members : List (String × Datum)) : Datum :=
  .record (members.map fun (name, value) => (name.toList, value))

def pointDatum (point : Point Float) : Datum :=
  recordOf [("x", .real point.x), ("y", .real point.y)]

def colorDatum (color : Color) : Datum :=
  recordOf [("r", .whole color.red.toNat), ("g", .whole color.green.toNat),
    ("b", .whole color.blue.toNat), ("a", .whole color.alpha.toNat)]

def paintDatum (paint : Paint Float) : Datum :=
  recordOf [("fill_color", colorDatum paint.fillColor),
    ("stroke_color", colorDatum paint.strokeColor), ("stroke_width", .real paint.strokeWidth),
    ("has_fill", .flag paint.hasFill), ("has_stroke", .flag paint.hasStroke)]

def outlineDatum (outline : Outline Float) : Datum :=
  recordOf [("points", .sequence (outline.points.map pointDatum)),
    ("style", paintDatum outline.paint), ("element_type", .text outline.tag)]

/-! ## Estimates -/

/-- A float with so many places, filled up with blanks before it. -/
def column (width places : Nat) (value : Float) : List Char :=
  List.leftpad width ' ' (Decimal.fixed places value)

/-- The line of the moves of one kind. -/
def moveLine (title : String) (distance seconds : Float) : List Char :=
  title.toList ++ column 10 2 distance ++ " mm ".toList ++ column 10 1 seconds ++ " s\n".toList

/-- The lines of an estimate. -/
def estimateLines (estimate : Program.Estimate Float) : List Char :=
  moveLine "Rapid moves:   " estimate.rapidDistance estimate.rapidSeconds ++
    moveLine "Cutting moves: " estimate.cutDistance estimate.cutSeconds ++
    "Total:         ".toList ++ column 24 1 estimate.totalSeconds ++ " s\n".toList

end Kerf.CommandLine
