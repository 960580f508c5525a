import Kerf.CommandLine.Report
import Kerf.CommandLine.Request
import Kerf.Configuration.Storage
import Kerf.Conversion
import Kerf.Program.Check

/-!
# Carrying out requests

`run` reads a command line and carries its request out. Each command is an operation on
files that gives the text to print, or a `Failure`. A command writes files only as its
last step, so that one that fails earlier has changed none.
-/

namespace Kerf.CommandLine

/-- What a command is carried out in. -/
structure Environment where
  /-- The directory for configurations. -/
  configurations : Location
  /-- The date and time for programs. -/
  stamp : List Char

/-- The location of the configuration that is used where none is named. -/
def Environment.configuration (environment : Environment) : Location :=
  Configuration.defaultLocation environment.configurations

/-- Why a command is not carried out: what was to be done, and what kept it from being done. -/
structure Failure where
  context : List Char
  cause : Option String

/-- A failure to do something with a file. -/
def Failure.of (verb : String) (location : Location) (cause : String) : Failure :=
  ⟨verb.toList ++ ' ' :: location, some cause⟩

/-- The text of a failure; its first line says what was to be done. -/
def Failure.text (failure : Failure) : List Char :=
  "Error: ".toList ++ failure.context ++ '\n' ::
    (failure.cause.map fun cause =>
      "\nCaused by:\n    ".toList ++ cause.toList ++ ['\n']).getD []

section Commands

variable {m : Type → Type} [Monad m] [FileAccess m]

/-- Loads the configuration that is named, or else the one that is used without a name. -/
def loadConfiguration (environment : Environment) :
    Option Location → m (Except Failure Configuration)
  | some location => do
    return (← Configuration.load location).mapError fun e =>
      .of "Failed to load config" location e.message
  | none => do
    return (← Configuration.loadOrDefault environment.configuration).mapError fun e =>
      ⟨"Failed to load default config".toList, some e.message⟩

/-- Gives a program out: into a file, or as text to print. -/
def deliver (program : List Char) : Option Location → m (Except Failure (List Char))
  | none => return .ok program
  | some location => do
    match ← FileAccess.write location (String.ofList program).toUTF8 with
    | .error cause => return .error (.of "Failed to write" location cause.message)
    | .ok () => return .ok []

def convert (environment : Environment) (input : Location)
    (output configuration : Option Location) (overrides : Overrides) :
    m (Except Failure (List Char)) := do
  match ← loadConfiguration environment configuration with
  | .error failure => return .error failure
  | .ok configuration =>
    let setup := overrides.apply configuration.setup
    match ← Conversion.ofFile setup configuration.fineness environment.stamp input with
    | .error cause => return .error (.of "Failed to convert" input cause.message)
    | .ok conversion => deliver conversion.program output

def validate (file : Location) : m (Except Failure (List Char)) := do
  match ← FileAccess.readText file with
  | .error cause => return .error (.of "Failed to read" file cause.message)
  | .ok program =>
    match Program.check program.toList with
    | .error e => return .error ⟨file ++ ':' :: ' ' :: e.message.toList, none⟩
    | .ok () => return .ok (file ++ ": valid\n".toList)

def estimate (environment : Environment) (file : Location) (configuration : Option Location) :
    m (Except Failure (List Char)) := do
  match ← loadConfiguration environment configuration with
  | .error failure => return .error failure
  | .ok configuration =>
    match ← FileAccess.readText file with
    | .error cause => return .error (.of "Failed to read" file cause.message)
    | .ok program =>
      return .ok (estimateLines (Program.estimate configuration.setup program.toList))

def inspect (environment : Environment) (input : Location) :
    m (Except Failure (List Char)) := do
  match ← loadConfiguration environment none with
  | .error failure => return .error failure
  | .ok configuration =>
    match ← Drawing.load configuration.fineness input with
    | .error cause => return .error (.of "Failed to parse" input cause.message)
    | .ok outlines =>
      return .ok (Json.write (.sequence (outlines.map outlineDatum)) ++ ['\n'])

def writeDefault (environment : Environment) (path : Option Location) (force : Bool) :
    m (Except Failure (List Char)) := do
  let location := path.getD environment.configuration
  if (← FileAccess.isPresent location) && !force then
    return .error
      ⟨location ++ " already exists (use --force to overwrite)".toList, none⟩
  else
    match ← Configuration.save location .default with
    | .error e => return .error (.of "Failed to write" location e.message)
    | .ok () => return .ok ("Wrote ".toList ++ location ++ ['\n'])

/-- Carries a request out. -/
def Request.perform (environment : Environment) : Request → m (Except Failure (List Char))
  | .convert input output configuration overrides =>
    CommandLine.convert environment input output configuration overrides
  | .validate file => CommandLine.validate file
  | .estimate file configuration => CommandLine.estimate environment file configuration
  | .inspect input => CommandLine.inspect environment input
  | .writeDefault path force => CommandLine.writeDefault environment path force

end Commands

/-! ## Command lines -/

/-- How a command line ends. -/
structure Outcome where
  exitCode : UInt32
  output : List Char
  complaint : List Char

/-- The name of the program and its version. -/
def versionLine : String := "vectorcut 0.4.0\n"

/-- How the program is used. -/
def usage : String :=
  "Convert SVG drawings into G-Code\n\n" ++
  "Usage: vectorcut [OPTIONS] <COMMAND>\n\n" ++
  "Commands:\n" ++
  "  convert <INPUT>       Convert an SVG file to G-Code\n" ++
  "  validate <FILE>       Check a G-Code file for unrecognized lines\n" ++
  "  estimate <FILE>       Estimate the run time of a G-Code file\n" ++
  "  inspect <INPUT>       Print the parsed elements of an SVG file as JSON\n" ++
  "  config init           Write a default configuration file\n" ++
  "  help [COMMAND]        Print this message\n\n" ++
  "Options of convert:\n" ++
  "  -o, --output <FILE>   Output file (printed when omitted)\n" ++
  "  -c, --config <FILE>   Configuration file (.toml or .json), also of estimate\n" ++
  "      --scale <FACTOR>  Scale factor applied to X and Y\n" ++
  "      --x-offset <MM>   X offset after scaling\n" ++
  "      --y-offset <MM>   Y offset after scaling\n" ++
  "      --feed <RATE>     Cutting feed rate (mm/min)\n" ++
  "      --power <POWER>   Laser power or spindle speed\n" ++
  "      --decimals <N>    Fractional digits in coordinates\n" ++
  "      --no-comments     Omit comments from the program\n" ++
  "      --spindle         Spindle mode instead of laser mode\n\n" ++
  "Options of config init:\n" ++
  "  -p, --path <FILE>     Destination\n" ++
  "  -f, --force           Overwrite an existing file\n\n" ++
  "Options:\n" ++
  "  -v, --verbose         Say more\n" ++
  "  -h, --help            Print help\n" ++
  "  -V, --version         Print version\n"

/-- How a command line ends that is no request. -/
def Stop.outcome : Stop → Outcome
  | misuse => ⟨2, [], usage.toList⟩
  | help => ⟨0, usage.toList, []⟩
  | version => ⟨0, versionLine.toList, []⟩

/-- How a request ends. -/
def outcomeOf : Except Failure (List Char) → Outcome
  | .ok output => ⟨0, output, []⟩
  | .error failure => ⟨1, [], failure.text⟩

/-- Carries out what a command line asks for. -/
def run {m : Type → Type} [Monad m] [FileAccess m] (environment : Environment)
    (arguments : List (List Char)) : m Outcome :=
  match Request.read arguments with
  | .error stop => return stop.outcome
  | .ok request => do return outcomeOf (← request.perform environment)

end Kerf.CommandLine
