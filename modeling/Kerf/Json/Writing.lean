import Kerf.Data.Datum
import Kerf.Decimal.Layout

/-!
# Writing JSON

`write` lays a datum out over lines, two spaces deeper for each level, with no line feed
at the end. Floats have a point or an exponent, so that they are told from whole numbers;
one that is no finite number is written as nothing.
-/

namespace Kerf.Json

/-- The layout of floats: an exponent below a hundred-thousandth and from ten thousand
million million on. -/
def layout : Decimal.Layout where
  positional point := decide (-4 ≤ point ∧ point ≤ 16)
  wholeEnd := ['.', '0']
  positiveMark := ['+']

/-- The text of a float. -/
def writeFloat (value : Float) : List Char :=
  if value.isFinite then layout.write value else ['n', 'u', 'l', 'l']

/-- The text of a whole number. -/
def writeWhole : Int → List Char
  | .ofNat n => Nat.toDigits 10 n
  | .negSucc n => '-' :: Nat.toDigits 10 (n + 1)

/-- A character inside of a string. -/
def writeChar (c : Char) : List Char :=
  if c = '"' then ['\\', '"']
  else if c = '\\' then ['\\', '\\']
  else if c = '\x08' then ['\\', 'b']
  else if c = '\x0c' then ['\\', 'f']
  else if c = '\n' then ['\\', 'n']
  else if c = '\r' then ['\\', 'r']
  else if c = '\t' then ['\\', 't']
  else if c.toNat < 0x20 then
    ['\\', 'u', '0', '0'] ++ List.leftpad 2 '0' (Nat.toDigits 16 c.toNat)
  else [c]

/-- A string in quotes. -/
def writeString (text : List Char) : List Char :=
  '"' :: (text.flatMap writeChar ++ ['"'])

/-- A line feed and the spaces of a level. -/
def newLine (level : Nat) : List Char :=
  '\n' :: List.replicate (2 * level) ' '

/-- Parts on lines of their own between two brackets; without parts the brackets stand
next to each other. -/
def enclose (first last : Char) (level : Nat) (parts : List (List Char)) : List Char :=
  if parts.isEmpty then [first, last]
  else
    first :: (List.intercalate [','] (parts.map fun part => newLine (level + 1) ++ part) ++
      newLine level ++ [last])

mutual

/-- The text of a datum at a level. -/
def writeAt (level : Nat) : Datum → List Char
  | .null => ['n', 'u', 'l', 'l']
  | .invalid => ['n', 'u', 'l', 'l']
  | .flag true => ['t', 'r', 'u', 'e']
  | .flag false => ['f', 'a', 'l', 's', 'e']
  | .whole value => writeWhole value
  | .real value => writeFloat value
  | .text value => writeString value
  | .moment written => writeString written
  | .sequence items => enclose '[' ']' level (writeItems (level + 1) items)
  | .record members => enclose '{' '}' level (writeMembers (level + 1) members)

/-- The texts of items at a level. -/
def writeItems (level : Nat) : List Datum → List (List Char)
  | [] => []
  | item :: items => writeAt level item :: writeItems level items

/-- The texts of members at a level. -/
def writeMembers (level : Nat) : List (List Char × Datum) → List (List Char)
  | [] => []
  | (name, value) :: members =>
    (writeString name ++ [':', ' '] ++ writeAt level value) :: writeMembers level members

end

/-- The text of a datum. -/
def write (datum : Datum) : List Char :=
  writeAt 0 datum

end Kerf.Json
