import Kerf.Configuration.Format
import Kerf.Files.Access

/-!
# Storage of configurations

`load` reads the configuration in a file and `save` writes one, each giving the first
thing that goes wrong as an `Error`. Only a configuration that makes sense is loaded or
saved, and what can be known without touching files is looked at before any file is: a
save that fails for such a reason changes nothing.
-/

namespace Kerf.Configuration

/-- Why a configuration is not loaded or saved. -/
inductive Error where
  | notLoaded (location : Location) (cause : FileError)
  | notSaved (location : Location) (cause : FileError)
  /-- The extension, if there is one, stands for no format. -/
  | noFormat (extension : Option (List Char))
  /-- The directories above a file cannot be made. -/
  | noDirectory (cause : FileError)
  /-- The text of a file is no configuration. -/
  | notRead (format : Format)
  /-- The format cannot hold the configuration. -/
  | notWritten (format : Format)
  | invalid (cause : ParameterError Float)

/-- The name of a format in running text. -/
def Format.title : Format → String
  | json => "JSON"
  | toml => "TOML"

/-- The wording of an error. -/
def Error.message : Error → String
  | notLoaded location cause =>
    "Failed to load settings: " ++ String.ofList location ++ ": " ++ cause.message
  | notSaved location cause =>
    "Failed to save settings: " ++ String.ofList location ++ ": " ++ cause.message
  | noFormat (some extension) => "Unsupported config format: " ++ String.ofList extension
  | noFormat none => "Unsupported config format: config file must be .json or .toml"
  | noDirectory cause => "I/O error: " ++ cause.message
  | notRead format => format.title ++ " error: not a configuration"
  | notWritten format => format.title ++ " error: a number is too great"
  | invalid cause => "Invalid settings: " ++ cause.message

/-- The format of the file at a location. -/
def formatOf (location : Location) : Except Error Format :=
  match Format.ofLocation? location with
  | some format => .ok format
  | none => .error (.noFormat location.extension?)

/-- A configuration that makes sense, from the text of a file. -/
def ofText (format : Format) (text : List Char) : Except Error Configuration :=
  match format.read? text with
  | none => .error (.notRead format)
  | some configuration =>
    match configuration.check with
    | .ok () => .ok configuration
    | .error cause => .error (.invalid cause)

/-- The text of a configuration that makes sense, for the file at a location. -/
def textFor (location : Location) (configuration : Configuration) :
    Except Error (List Char) := do
  configuration.check.mapError .invalid
  let format ← formatOf location
  match format.write? configuration with
  | some text => .ok text
  | none => .error (.notWritten format)

variable {m : Type → Type} [Monad m] [FileAccess m]

/-- Loads the configuration in a file. -/
def load (location : Location) : m (Except Error Configuration) := do
  match formatOf location with
  | .error e => return .error e
  | .ok format =>
    match ← FileAccess.readText location with
    | .error cause => return .error (.notLoaded location cause)
    | .ok text => return ofText format text.toList

/-- Loads the configuration in a file if the file is there. -/
def loadOrDefault (location : Location) : m (Except Error Configuration) := do
  if ← FileAccess.isPresent location then load location else return .ok default

/-- Makes the directories that a file is to lie in. -/
def makeParents (location : Location) : m (Except FileError Unit) :=
  match location.parent? with
  | none | some [] => return .ok ()
  | some parent => FileAccess.makeDirectories parent

/-- Saves a configuration in a file, making the directories above it. -/
def save (location : Location) (configuration : Configuration) : m (Except Error Unit) := do
  match textFor location configuration with
  | .error e => return .error e
  | .ok text =>
    match ← makeParents location with
    | .error cause => return .error (.noDirectory cause)
    | .ok () =>
      match ← FileAccess.write location (String.ofList text).toUTF8 with
      | .error cause => return .error (.notSaved location cause)
      | .ok () => return .ok ()

/-- The location of the configuration that is used where none is named, in a directory for
configurations. -/
def defaultLocation (directory : Location) : Location :=
  directory ++ "/vectorcut/config.toml".toList

end Kerf.Configuration
