import Kerf.Drawing.Reading
import Kerf.Program.Assembly
import Kerf.Program.Estimate

/-!
# Conversion of drawings

A drawing is converted into a program, which is checked and timed at once. The setup is
checked before the drawing is looked at.
-/

namespace Kerf

/-- What a conversion gives. -/
structure Conversion (α : Type) where
  program : List Char
  /-- The number of outlines in the drawing. -/
  outlineCount : Nat
  /-- Whether the program passes its check. -/
  valid : Bool
  estimate : Program.Estimate α

namespace Conversion

/-- Why there is no conversion. -/
inductive Error (α : Type) where
  | parameter (cause : ParameterError α)
  | drawing (cause : Drawing.Error)

/-- The wording of an error. -/
def Error.message {α : Type} [Written α] : Error α → String
  | parameter cause => "Parameter error: " ++ cause.message
  | drawing cause => "SVG error: " ++ cause.message

variable {α : Type} [Written α]

/-- The conversion of some outlines. -/
def ofOutlines (setup : Setup α) (fineness : Fineness) (stamp : List Char)
    (outlines : List (Outline α)) : Conversion α :=
  let program := Program.generate setup fineness stamp (.outlines outlines)
  { program := program
    outlineCount := outlines.length
    valid := Program.isValid program
    estimate := Program.estimate setup program }

/-- Converts the drawing in a text. -/
def ofText (setup : Setup α) (fineness : Fineness) (stamp text : List Char) :
    Except (Error α) (Conversion α) := do
  setup.check.mapError .parameter
  let outlines ← (Drawing.readText fineness text).mapError .drawing
  return ofOutlines setup fineness stamp outlines

/-- Converts the drawing in a file. -/
def ofFile {m : Type → Type} [Monad m] [FileAccess m] (setup : Setup α) (fineness : Fineness)
    (stamp : List Char) (location : Location) : m (Except (Error α) (Conversion α)) := do
  match setup.check with
  | .error cause => return .error (.parameter cause)
  | .ok () =>
    match ← Drawing.load fineness location with
    | .error cause => return .error (.drawing cause)
    | .ok outlines => return .ok (ofOutlines setup fineness stamp outlines)

end Conversion

end Kerf
