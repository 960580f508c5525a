import Kerf.Path.Token

/-!
# Commands of path data

A command is a letter with the numbers that follow it. Numbers before the first letter
belong to no command and are dropped. `Command.list` reads path data; a letter without a
meaning is still a command, which draws nothing.
-/

namespace Kerf.Path

/-- A letter with the numbers that follow it. -/
structure Command (α : Type) where
  letter : Char
  parameters : List α
  deriving DecidableEq, Repr

/-- Whether the coordinates of a command are counted from the pen: those of small letters
are. -/
def Command.isRelative {α : Type} (command : Command α) : Bool :=
  command.letter.isLower

/-- The numbers before the first letter, and the commands. -/
def group {α : Type} : List (Token α) → List α × List (Command α)
  | [] => ([], [])
  | .number value :: tokens =>
    let (values, commands) := group tokens
    (value :: values, commands)
  | .letter c :: tokens =>
    let (values, commands) := group tokens
    ([], ⟨c, values⟩ :: commands)

/-- Reads path data as commands. -/
def commands {α : Type} [Written α] (text : List Char) : Except Fault (List (Command α)) :=
  (tokens text).map fun tokens => (group tokens).2

end Kerf.Path
