import Kerf.Text.Blank
import Kerf.Transform.Basic

/-!
# Reading transforms

A transform is written as a list of functions with arguments in parentheses. The first
`translate`, the first `scale` and the first `rotate` count, wherever they stand
(`findCall?`); all else is passed over. A function is recognized by its form alone
(`fitCall?`), so one whose arguments are no numbers still is the first; each unreadable
argument leaves its part of the identity.
-/

namespace Kerf.Transform

/-- What an argument is made of. -/
def isArgumentChar (c : Char) : Bool :=
  !(c == ',' || Text.isBlank c || c == '(' || c == ')')

/-- Splits off what separates two arguments: a comma among blanks, or blanks alone. -/
def afterSeparator? (text : List Char) : Option (List Char) :=
  match Text.trimStart text with
  | ',' :: rest => some (Text.trimStart rest)
  | rest => if rest.length < text.length then some rest else none

/-- The arguments after the first, up to the closing parenthesis; `count` bounds their
number. -/
def fitArguments? : (count : Nat) → List Char → Option (List (List Char))
  | 0, text => if (Text.trimStart text).head? = some ')' then some [] else none
  | count + 1, text =>
    if (Text.trimStart text).head? = some ')' then some []
    else do
      let rest ← afterSeparator? text
      let argument := rest.takeWhile isArgumentChar
      if argument.isEmpty then none
      else
        let arguments ← fitArguments? count (rest.dropWhile isArgumentChar)
        return argument :: arguments

/-- Fits a function with a name and one of the allowed numbers of arguments to the front
of a text. -/
def fitCall? (name : List Char) (counts : List Nat) (text : List Char) :
    Option (List (List Char)) := do
  let text ← Text.after? name text
  match Text.trimStart text with
  | '(' :: text =>
    let text := Text.trimStart text
    let argument := text.takeWhile isArgumentChar
    if argument.isEmpty then none
    else
      let rest ← fitArguments? 2 (text.dropWhile isArgumentChar)
      if (rest.length + 1) ∈ counts then some (argument :: rest) else none
  | _ => none

/-- The arguments at the first place where a function fits. -/
def findCall? (name : List Char) (counts : List Nat) : List Char → Option (List (List Char))
  | [] => none
  | c :: text =>
    match fitCall? name counts (c :: text) with
    | some arguments => some arguments
    | none => findCall? name counts text

variable {α : Type} [Written α]

/-- The number at a place of an argument list, if it is there and readable. -/
def argument? (arguments : List (List Char)) (index : Nat) : Option α :=
  arguments[index]? >>= Written.read?

/-- The shift by a text's first `translate`. -/
def readShift (text : List Char) : Point α :=
  let arguments := (findCall? "translate".toList [1, 2] text).getD []
  ⟨(argument? arguments 0).getD 0.0, (argument? arguments 1).getD 0.0⟩

/-- The factors of a text's first `scale`; one factor counts for both axes. -/
def readScaling (text : List Char) : Point α :=
  let arguments := (findCall? "scale".toList [1, 2] text).getD []
  let factor := (argument? arguments 0).getD 1.0
  ⟨factor, (argument? arguments 1).getD factor⟩

/-- The angle and the center of a text's first `rotate`. -/
def readRotation (text : List Char) : α × Point α :=
  let arguments := (findCall? "rotate".toList [1, 3] text).getD []
  let center : Point α :=
    match argument? arguments 1, argument? arguments 2 with
    | some x, some y => ⟨x, y⟩
    | _, _ => ⟨0.0, 0.0⟩
  ((argument? arguments 0).getD 0.0, center)

/-- Reads a transform. -/
def read (text : List Char) : Transform α :=
  let (degrees, center) := readRotation text
  { shift := readShift text
    scaling := readScaling text
    rotation := degrees
    center := center }

end Kerf.Transform
