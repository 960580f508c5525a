import Kerf.Configuration.Basic
import Kerf.Files.Location
import Kerf.Json.Reading
import Kerf.Json.Writing
import Kerf.Toml.Document
import Kerf.Toml.Writing

/-!
# Formats of configurations

A configuration is written in one of two formats. The extension of a file says which, in
any letter case.
-/

namespace Kerf.Configuration

/-- A format of configurations. -/
inductive Format where
  | json
  | toml
  deriving DecidableEq, Repr

namespace Format

/-- The extension of files in a format. -/
def extension : Format → List Char
  | json => ['j', 's', 'o', 'n']
  | toml => ['t', 'o', 'm', 'l']

/-- The format that an extension stands for. -/
def ofExtension? (extension : List Char) : Option Format :=
  [json, toml].find? fun format => extension.map Char.toLower == format.extension

/-- The format of the file at a location. -/
def ofLocation? (location : Location) : Option Format :=
  location.extension? >>= ofExtension?

/-- Reads a configuration. Items too many spoil a sequence in one format only. -/
def read? (text : List Char) : Format → Option Configuration
  | json => Json.read? text >>= Configuration.read? true
  | toml => Toml.read? text >>= Configuration.read? false

/-- The text of a configuration, if the format can hold it. -/
def write? (configuration : Configuration) : Format → Option (List Char)
  | json => some (Json.write configuration.write)
  | toml => Toml.write? configuration.write

end Format

end Kerf.Configuration
