import Kerf.Program.Check
import Kerf.Setup.Basic
import Kerf.Text.Digit

/-!
# Estimating the run time of programs

`estimate` walks through a program line by line, from the origin on. A line is a motion if
it starts with the word `G0` or `G1`, written with any number of zeros before the last
digit (`motion?`); its target keeps each coordinate for which it has no word (`axis?`).
Travel and cuts are summed up apart, in length and in time. Comments are cut off first,
and a feed that is not positive and finite adds length but no time.
-/

namespace Kerf.Program

/-- A line without the comment that ends it. -/
def withoutComment (line : List Char) : List Char :=
  line.takeWhile fun c => !startsComment c

/-- What is commanded by a line: the line without its comment and without blanks at its ends. -/
def code (line : List Char) : List Char :=
  Text.trim (withoutComment line)

/-- How a machine moves. -/
inductive Motion where
  | rapid
  | cut
  deriving DecidableEq, Repr

/-- The motion that a digit run names: zeros, and then a zero or a one. -/
def motionOf? (digits : List Char) : Option Motion :=
  if digits.dropLast.all (· == '0') then
    match digits.getLast? with
    | some '0' => some .rapid
    | some '1' => some .cut
    | _ => none
  else none

/-- The motion that a line starts with. -/
def motion? : List Char → Option Motion
  | [] => none
  | c :: text =>
    if c.toUpper = 'G' ∧ (text.dropWhile Char.isDigit).head? ≠ some '.' then
      motionOf? (text.takeWhile Char.isDigit)
    else none

/-- Takes the number of a word off: a sign, and digits with at most one point. -/
def wordNumber? (text : List Char) : Option (List Char) :=
  let (sign, unsigned) := match text with
    | '-' :: rest => (['-'], rest)
    | '+' :: rest => (['+'], rest)
    | rest => ([], rest)
  let whole := unsigned.takeWhile Text.isDigit
  let fraction := match unsigned.dropWhile Text.isDigit with
    | '.' :: rest => '.' :: rest.takeWhile Text.isDigit
    | _ => []
  if whole.isEmpty && fraction.length ≤ 1 then none else some (sign ++ whole ++ fraction)

/-- The number of the first word with a letter, in either case; blanks may stand between
the two. -/
def findWord? (letter : Char) : List Char → Option (List Char)
  | [] => none
  | c :: text =>
    if c.toUpper = letter then
      match wordNumber? (Text.trimStart text) with
      | some number => some number
      | none => findWord? letter text
    else findWord? letter text

variable {α : Type} [Written α]

/-- The coordinate that a line gives on an axis. -/
def axis? (letter : Char) (line : List Char) : Option α :=
  findWord? letter line >>= Written.read?

/-- The lengths and times of a program's motion. -/
structure Estimate (α : Type) where
  rapidDistance : α
  cutDistance : α
  rapidSeconds : α
  cutSeconds : α
  deriving DecidableEq, Repr

namespace Estimate

/-- The estimate of a program that does not move. -/
def zero : Estimate α := ⟨0.0, 0.0, 0.0, 0.0⟩

/-- The time of all motion. -/
def totalSeconds (estimate : Estimate α) : α :=
  estimate.rapidSeconds + estimate.cutSeconds

/-- The seconds that a distance takes at a feed, if the feed is positive and finite. -/
def secondsAt? (distance feed : α) : Option α :=
  if 0.0 < feed ∧ Scalar.isFinite feed = true then some (distance / feed * 60.0) else none

/-- A time with the seconds of a distance added, if there are any. -/
def addSeconds (seconds distance feed : α) : α :=
  match secondsAt? distance feed with
  | some more => seconds + more
  | none => seconds

/-- An estimate with one more move. -/
def addMove (setup : Setup α) (estimate : Estimate α) (motion : Motion) (distance : α) :
    Estimate α :=
  match motion with
  | .rapid =>
    { estimate with
      rapidDistance := estimate.rapidDistance + distance
      rapidSeconds := addSeconds estimate.rapidSeconds distance setup.rapidFeed }
  | .cut =>
    { estimate with
      cutDistance := estimate.cutDistance + distance
      cutSeconds := addSeconds estimate.cutSeconds distance setup.cutFeed }

end Estimate

/-- Where a machine is, and the estimate of the way there. -/
structure Progress (α : Type) where
  position : Point α
  estimate : Estimate α
  deriving DecidableEq, Repr

/-- A machine that has not moved. -/
def Progress.start : Progress α := ⟨.origin, .zero⟩

/-- A machine after one more move. -/
def Progress.move (setup : Setup α) (progress : Progress α) (motion : Motion)
    (target : Point α) : Progress α :=
  ⟨target, progress.estimate.addMove setup motion (progress.position.distance target)⟩

/-- A machine after one more line. -/
def Progress.step (setup : Setup α) (progress : Progress α) (line : List Char) : Progress α :=
  let line := code line
  match motion? line with
  | none => progress
  | some motion =>
    progress.move setup motion
      ⟨(axis? 'X' line).getD progress.position.x, (axis? 'Y' line).getD progress.position.y⟩

/-- A machine after some text, its lines one after the other. -/
def Progress.run (setup : Setup α) (progress : Progress α) (program : List Char) : Progress α :=
  (Text.lines program).foldl (Progress.step setup) progress

/-- The estimate of a program. -/
def estimate (setup : Setup α) (program : List Char) : Estimate α :=
  (Progress.run setup .start program).estimate

end Kerf.Program
