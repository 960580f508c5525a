import Kerf.CommandLine.Argument
import Kerf.Files.Access
import Kerf.Setup.Basic

/-!
# Requests

A `Request` is what a command line asks for, with every value read.
-/

namespace Kerf.CommandLine

/-- What a command line says about the setup, in place of what the configuration says. -/
structure Overrides where
  scale : Option Float
  xOffset : Option Float
  yOffset : Option Float
  cutFeed : Option Float
  power : Option UInt32
  places : Option UInt64
  withoutComments : Bool
  spindle : Bool
  deriving DecidableEq, Repr

/-- The setup with what a command line says about it. -/
def Overrides.apply (overrides : Overrides) (setup : Setup Float) : Setup Float :=
  { setup with
    scale := overrides.scale.getD setup.scale
    offset := ⟨overrides.xOffset.getD setup.offset.x, overrides.yOffset.getD setup.offset.y⟩
    cutFeed := overrides.cutFeed.getD setup.cutFeed
    power := overrides.power.getD setup.power
    places := overrides.places.getD setup.places
    comments := setup.comments && !overrides.withoutComments
    laser := setup.laser && !overrides.spindle }

/-- What a command line asks for. -/
inductive Request where
  /-- Convert a drawing; without a place for it, the program is printed. -/
  | convert (input : Location) (output configuration : Option Location) (overrides : Overrides)
  /-- Check the lines of a program. -/
  | validate (file : Location)
  /-- Estimate how long a program runs. -/
  | estimate (file : Location) (configuration : Option Location)
  /-- Print the outlines of a drawing. -/
  | inspect (input : Location)
  /-- Write a configuration to start from; what is there already is overwritten only by
  force. -/
  | writeDefault (path : Option Location) (force : Bool)
  deriving DecidableEq, Repr

/-! ## Grammars -/

/-- The options of every command. -/
def commonSwitches : List Switch :=
  [⟨"verbose", some 'v', .flag⟩, ⟨"help", some 'h', .help⟩]

/-- The options that stand before a command. -/
def topSwitches : List Switch :=
  ⟨"version", some 'V', .version⟩ :: commonSwitches

def configSwitch : Switch := ⟨"config", some 'c', .value .location false⟩

def convertGrammar : Grammar where
  operandCount := 1
  switches :=
    [⟨"output", some 'o', .value .location false⟩, configSwitch,
      ⟨"scale", none, .value .number true⟩, ⟨"x-offset", none, .value .number true⟩,
      ⟨"y-offset", none, .value .number true⟩, ⟨"feed", none, .value .number false⟩,
      ⟨"power", none, .value .word false⟩, ⟨"decimals", none, .value .count false⟩,
      ⟨"no-comments", none, .flag⟩, ⟨"spindle", none, .flag⟩] ++ commonSwitches

def estimateGrammar : Grammar := ⟨configSwitch :: commonSwitches, 1⟩

/-- The grammar of commands that have but an operand. -/
def fileGrammar : Grammar := ⟨commonSwitches, 1⟩

def writeDefaultGrammar : Grammar where
  operandCount := 0
  switches :=
    [⟨"path", some 'p', .value .location false⟩, ⟨"force", some 'f', .flag⟩] ++ commonSwitches

/-! ## Reading -/

/-- The only operand of a command. -/
def Given.operand (given : Given) : List Char :=
  given.operands.headD []

/-- The number that an option is given. -/
def Given.number? (given : Given) (long : String) : Option Float :=
  given.value? long >>= Decimal.readFloat?

/-- What the options of a conversion say about the setup. -/
def Overrides.ofGiven (given : Given) : Overrides where
  scale := given.number? "scale"
  xOffset := given.number? "x-offset"
  yOffset := given.number? "y-offset"
  cutFeed := given.number? "feed"
  power := given.value? "power" >>= readWord?
  places := given.value? "decimals" >>= readCount?
  withoutComments := given.has "no-comments"
  spindle := given.has "spindle"

/-- Reads a command for the configuration. -/
def Request.readConfig (arguments : List (List Char)) : Except Stop Request := do
  let (name, arguments) ← splitCommand commonSwitches .nothing arguments
  if name = "init".toList then
    let given ← writeDefaultGrammar.read arguments
    return .writeDefault (given.value? "path") (given.has "force")
  else if name = "help".toList then
    throw <| if arguments.all fun name => name ∈ ["init".toList, "help".toList] then .help
      else .misuse
  else throw .misuse

/-- The names of commands. -/
def commandNames : List (List Char) :=
  ["convert", "validate", "estimate", "inspect", "config", "help"].map String.toList

/-- Reads a command line. -/
def Request.read (arguments : List (List Char)) : Except Stop Request := do
  let (name, arguments) ← splitCommand topSwitches .nothing arguments
  if name = "convert".toList then
    let given ← convertGrammar.read arguments
    return .convert given.operand (given.value? "output") (given.value? "config")
      (.ofGiven given)
  else if name = "validate".toList then
    return .validate (← fileGrammar.read arguments).operand
  else if name = "estimate".toList then
    let given ← estimateGrammar.read arguments
    return .estimate given.operand (given.value? "config")
  else if name = "inspect".toList then
    return .inspect (← fileGrammar.read arguments).operand
  else if name = "config".toList then Request.readConfig arguments
  else if name = "help".toList then
    throw (helpOn arguments)
  else throw .misuse
where
  /-- The answer to a request for help on a command. -/
  helpOn : List (List Char) → Stop
    | [] => .help
    | [name] => if name ∈ commandNames then .help else .misuse
    | [name, part] =>
      if name = "config".toList ∧ part ∈ ["init".toList, "help".toList] then .help else .misuse
    | _ => .misuse

end Kerf.CommandLine
