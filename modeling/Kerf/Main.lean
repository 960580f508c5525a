import Kerf.CommandLine.Run
import Std.Time.DateTime.PlainDateTime
import Std.Time.DateTime.Timestamp

/-!
# The program

The command line on the files of the system: `main` gives `CommandLine.run` the arguments,
prints what it is given back and ends with its exit code.
-/

namespace Kerf.Main

/-- The number of an error of the system, which some operations give with its sign changed. -/
def codeOf : IO.Error → UInt32
  | .noFileOrDirectory _ code _ | .alreadyExists _ code _ | .permissionDenied _ code _
  | .inappropriateType _ code _ | .resourceExhausted _ code _ | .invalidArgument _ code _ =>
    if code < 0 - code then code else 0 - code
  | _ => 0

/-- The cause that an error of the system stands for. -/
def causeOf (error : IO.Error) : FileError :=
  match codeOf error with
  | 2 => .notFound
  | 13 => .denied
  | 17 => .alreadyExists
  | 20 => .notADirectory
  | 21 => .isADirectory
  | 28 => .noRoom
  | 36 => .nameTooLong
  | _ => .other error.toString

/-- Carries out an operation on files. -/
def attempt {β : Type} (operation : IO β) : IO (Except FileError β) := do
  try return .ok (← operation)
  catch e => return .error (causeOf e)

/-- The files of the system. -/
instance : FileAccess IO where
  isPresent location := do
    -- following a location to its end takes no permission to read what is there
    let found ← attempt (IO.FS.realPath (String.ofList location))
    return location.size < 4096 && found.isOk
  read location := attempt (IO.FS.readBinFile (String.ofList location))
  write location content := attempt do
    IO.FS.withFile (String.ofList location) .write fun file => do
      file.write content
      file.flush
  makeDirectories location := attempt (IO.FS.createDirAll (String.ofList location))

/-- The directory for configurations: the one that is set, or the usual one, or else the working
directory. -/
def configurations : IO Location := do
  match ← IO.getEnv "XDG_CONFIG_HOME", ← IO.getEnv "HOME" with
  | some directory, home =>
    if directory.startsWith "/" then return directory.toList
    else return (home.map fun home => home ++ "/.config").getD "." |>.toList
  | none, some home => return (home ++ "/.config").toList
  | none, none => return ['.']

/-- A number with at least so many digits. -/
def padded (length : Nat) (n : Int) : List Char :=
  List.leftpad length '0' (Nat.toDigits 10 n.toNat)

/-- A time as it is written in programs: the date and the time of day in universal time. -/
def stamp (time : Std.Time.Timestamp) : List Char :=
  let now := Std.Time.PlainDateTime.ofWallTime (.ofSeconds time.toSecondsSinceUnixEpoch)
  padded 4 now.year ++ '-' :: padded 2 now.month.val ++ '-' :: padded 2 now.day.val ++
    ' ' :: padded 2 now.hour.val ++ ':' :: padded 2 now.minute.val ++
    ':' :: padded 2 now.second.val ++ " UTC".toList

end Kerf.Main

/-- Carries out what the arguments ask for. -/
def main (arguments : List String) : IO UInt32 := do
  let now ← Std.Time.Timestamp.now
  let environment : Kerf.CommandLine.Environment :=
    { configurations := ← Kerf.Main.configurations
      stamp := Kerf.Main.stamp now }
  let outcome ← Kerf.CommandLine.run environment (arguments.map String.toList)
  IO.print (String.ofList outcome.output)
  IO.eprint (String.ofList outcome.complaint)
  return outcome.exitCode
