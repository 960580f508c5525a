import Kerf.Setup.Basic

/-!
# Lines of programs

A program is a list of lines, each a command with a note, a remark of its own, or nothing.
The text of a command is a few words with a blank between them, each a letter and a
number; notes and remarks follow a semicolon and are left out of programs without
comments.
-/

namespace Kerf.Program

/-- What a machine is told to do. Places and heights are in the machine's own coordinates. -/
inductive Command (α : Type) where
  /-- Lengths are in millimetres. -/
  | millimetres
  /-- Coordinates are counted from the origin. -/
  | absolute
  /-- Feeds are in lengths a minute. -/
  | feedPerMinute
  /-- The tool is made ready without power. -/
  | arm
  /-- Travel over the origin. -/
  | home
  /-- Travel to a place. -/
  | rapidTo (place : Point α)
  /-- Travel up or down. -/
  | heightTo (height : α)
  /-- The tool is switched on. -/
  | engage (power : UInt32)
  /-- A cut to a place. -/
  | cutTo (place : Point α) (feed : α)
  /-- The tool is switched off. -/
  | disengage
  /-- The program ends. -/
  | finish
  deriving DecidableEq, Repr

/-- A line of a program. -/
inductive Line (α : Type) where
  | command (command : Command α) (note : List Char)
  | remark (text : List Char)
  | blank
  deriving DecidableEq, Repr

variable {α : Type} [Written α]

/-- A number with a fixed number of places, at most `Setup.maxPlaces` of them; a minus
sign before zeros alone is dropped. -/
def formatNumber (value : α) (places : Nat) : List Char :=
  match Written.fixed (min places Setup.maxPlaces) value with
  | '-' :: digits => if digits.all fun c => c == '0' || c == '.' then digits else '-' :: digits
  | text => text

/-- A coordinate or height as a setup has it written. -/
def coordinate (setup : Setup α) (value : α) : List Char :=
  formatNumber value setup.places.toNat

/-- The words for a place. -/
def placeText (setup : Setup α) (place : Point α) : List Char :=
  'X' :: (coordinate setup place.x ++ [' ', 'Y'] ++ coordinate setup place.y)

/-- The text of a command. -/
def Command.text (setup : Setup α) : Command α → List Char
  | .millimetres => ['G', '2', '1']
  | .absolute => ['G', '9', '0']
  | .feedPerMinute => ['G', '9', '4']
  | .arm => ['M', '3', ' ', 'S', '0']
  | .home => ['G', '0', ' ', 'X', '0', ' ', 'Y', '0']
  | .rapidTo place => ['G', '0', ' '] ++ placeText setup place
  | .heightTo height => ['G', '0', ' ', 'Z'] ++ coordinate setup height
  | .engage power => ['M', '3', ' ', 'S'] ++ Nat.toDigits 10 power.toNat
  | .cutTo place feed =>
    ['G', '1', ' '] ++ placeText setup place ++ [' ', 'F'] ++ Written.plain feed
  | .disengage => ['M', '5']
  | .finish => ['M', '3', '0']

/-- The text of a line with the line feed that ends it. A remark that is left out leaves
no line. -/
def Line.text (setup : Setup α) : Line α → List Char
  | .command action note =>
    let comment := if setup.comments && !note.isEmpty then [' ', ';', ' '] ++ note else []
    action.text setup ++ comment ++ ['\n']
  | .remark text => if setup.comments then [';', ' '] ++ text ++ ['\n'] else []
  | .blank => ['\n']

/-- The text of a program. -/
def render (setup : Setup α) (lines : List (Line α)) : List Char :=
  lines.flatMap (Line.text setup)

end Kerf.Program
