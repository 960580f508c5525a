import Kerf.Text.Blank

/-!
# Checking programs

`check` finds the first line of a program that is no command: one that has something in
it, is no comment, and does not start with the letter of a word. A program without any
content is refused as well.
-/

namespace Kerf.Program

/-- Why a text is not a program. -/
inductive CheckError where
  | empty
  /-- A line, by its number from one on and without the blanks around it. -/
  | invalidLine (number : Nat) (line : List Char)
  deriving DecidableEq, Repr

/-- The wording of an error. -/
def CheckError.message : CheckError → String
  | empty => "Program is empty"
  | invalidLine number line =>
    "Invalid G-Code at line " ++ toString number ++ ": " ++ String.ofList line

/-- The letters that the words of a command start with. -/
def leadingLetters : List Char :=
  ['G', 'M', 'X', 'Y', 'Z', 'F', 'S']

/-- What comments start with. -/
def startsComment (c : Char) : Bool :=
  c == ';' || c == '('

/-- Whether a line without blanks around it may stand in a program. -/
def isLineAllowed : List Char → Bool
  | [] => true
  | c :: _ => startsComment c || leadingLetters.contains c.toUpper

/-- Checks lines that are numbered from a number on. -/
def checkLines (number : Nat) : List (List Char) → Except CheckError Unit
  | [] => .ok ()
  | line :: rest =>
    if isLineAllowed (Text.trim line) then checkLines (number + 1) rest
    else .error (.invalidLine number (Text.trim line))

/-- Checks a program. -/
def check (program : List Char) : Except CheckError Unit :=
  if (Text.trim program).isEmpty then .error .empty else checkLines 1 (Text.lines program)

/-- Whether a text is a program. -/
def isValid (program : List Char) : Bool :=
  (check program).isOk

end Kerf.Program
