import Kerf.Text.Encoding

/-!
# Access to files

What the library asks of a file system, as operations that a monad provides
(`FileAccess`), and the ways in which they fail (`FileError`). A location is named by
text, relative to the working directory unless it starts with a slash.
-/

namespace Kerf

/-- The text that names a file or a directory. -/
abbrev Location := List Char

/-- Why an operation on a location fails. -/
inductive FileError where
  | notFound
  /-- The permissions do not allow it. -/
  | denied
  | alreadyExists
  | notADirectory
  | isADirectory
  | noRoom
  | nameTooLong
  /-- The bytes are there but are not text. -/
  | notText
  /-- Any other cause, in the words of the system. -/
  | other (words : String)
  deriving DecidableEq, Repr

/-- The wording of an error. -/
def FileError.message : FileError → String
  | notFound => "No such file or directory (os error 2)"
  | denied => "Permission denied (os error 13)"
  | alreadyExists => "File exists (os error 17)"
  | notADirectory => "Not a directory (os error 20)"
  | isADirectory => "Is a directory (os error 21)"
  | noRoom => "No space left on device (os error 28)"
  | nameTooLong => "File name too long (os error 36)"
  | notText => "stream did not contain valid UTF-8"
  | other words => words

/-- The operations on files. -/
class FileAccess (m : Type → Type) where
  /-- Whether a file or a directory is found; where looking it up fails, none is. -/
  isPresent : Location → m Bool
  read : Location → m (Except FileError ByteArray)
  /-- Makes the whole content of a file, which need not be there before. A failure can leave the
  file with a part of the content. -/
  write : Location → ByteArray → m (Except FileError Unit)
  /-- Makes a directory, and those above it that are missing; one that is there is left as it
  is. -/
  makeDirectories : Location → m (Except FileError Unit)

/-- Reads the text of a file. -/
def FileAccess.readText {m : Type → Type} [Monad m] [FileAccess m] (location : Location) :
    m (Except FileError String) := do
  match ← read location with
  | .error e => return .error e
  | .ok bytes =>
    match Text.decode bytes with
    | .ok text => return .ok text
    | .error _ => return .error .notText

end Kerf
