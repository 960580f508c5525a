import Kerf.Data.Datum
import Kerf.Decimal.Layout
import Kerf.Toml.Number

/-!
# Writing TOML

`write?` writes a record of records, each as a table with a header, with an empty line
between tables. The members of the tables are truth values and numbers. Floats have a
point and no exponent; a whole number must fit in 64 bits with a sign.
-/

namespace Kerf.Toml

/-- The layout of floats. -/
def layout : Decimal.Layout where
  positional _ := true
  wholeEnd := ['.', '0']
  positiveMark := []

/-- The text of a float. -/
def writeFloat (value : Float) : List Char :=
  if value.isNaN then ['n', 'a', 'n'] else layout.write value

/-- The text of a whole number, if it fits. -/
def writeWhole? (value : Int) : Option (List Char) :=
  if value < -wholeLimit ∨ wholeLimit ≤ value then none
  else some (Decimal.signed (decide (value < 0)) (Nat.toDigits 10 value.natAbs))

/-- The text of a value. -/
def writeValue? : Datum → Option (List Char)
  | .flag true => some ['t', 'r', 'u', 'e']
  | .flag false => some ['f', 'a', 'l', 's', 'e']
  | .whole value => writeWhole? value
  | .real value => some (writeFloat value)
  | _ => none

/-- The line of an entry. -/
def writeEntry? (entry : List Char × Datum) : Option (List Char) :=
  (writeValue? entry.2).map fun value => entry.1 ++ ' ' :: '=' :: ' ' :: (value ++ ['\n'])

/-- The lines of a table with its header. -/
def writeTable? : List Char × Datum → Option (List Char)
  | (name, .record entries) =>
    (entries.mapM writeEntry?).map fun lines => '[' :: (name ++ [']', '\n'] ++ lines.flatten)
  | _ => none

/-- The text of a record of records. -/
def write? : Datum → Option (List Char)
  | .record tables => (tables.mapM writeTable?).map fun texts => List.intercalate ['\n'] texts
  | _ => none

end Kerf.Toml
