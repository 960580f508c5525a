import Kerf.Decimal.Numeral

/-!
# Arguments

The arguments of a command are operands and options. An option has a long name after two
hyphens and often a letter after one; letters may share a hyphen. Its value follows an
equality sign, or is the next argument, or what follows its letter. Two hyphens alone say
that nothing after them is an option.

`Grammar.read` sorts the arguments of a command by a `Grammar`. Arguments are looked at
one after the other, so the first one that asks for help or has no place decides how
reading stops.
-/

namespace Kerf.CommandLine

/-- Why reading arguments stops before a command is known. -/
inductive Stop where
  /-- The arguments make no command. -/
  | misuse
  /-- They ask for help. -/
  | help
  /-- They ask for the version. -/
  | version
  deriving DecidableEq, Repr

/-! ## Values -/

/-- What the value of an option has to be. -/
inductive Content where
  | location
  | number
  /-- A whole number of 32 bits. -/
  | word
  /-- A whole number of 64 bits. -/
  | count
  deriving DecidableEq, Repr

/-- Reads a whole number of 32 bits, which may have a sign. -/
def readWord? (text : List Char) : Option UInt32 :=
  match Decimal.readSigned? text with
  | some (.ofNat n) => if n < Nat.pow 2 32 then some (UInt32.ofNat n) else none
  | _ => none

/-- Reads a whole number of 64 bits, which may have a plus sign. -/
def readCount? (text : List Char) : Option UInt64 :=
  match Decimal.readSigned? text with
  | some (.ofNat n) =>
    if text.head? != some '-' && n < Nat.pow 2 64 then some (UInt64.ofNat n) else none
  | _ => none

/-- Whether a text can be a value. -/
def Content.admits (text : List Char) : Content → Bool
  | location => !text.isEmpty
  | number => (Decimal.readFloat? text).isSome
  | word => (readWord? text).isSome
  | count => (readCount? text).isSome

/-! ## Options -/

/-- What an option does. -/
inductive Role where
  | flag
  /-- It has a value; one that is a negative number may be an argument of its own if the
  option says so. -/
  | value (content : Content) (signed : Bool)
  | help
  | version
  deriving DecidableEq, Repr

/-- An option that a command knows. -/
structure Switch where
  long : String
  letter : Option Char
  role : Role
  deriving DecidableEq, Repr

/-- What a command has been given. -/
structure Given where
  operands : List (List Char)
  /-- The long names of options with their values; flags have none. -/
  options : List (String × Option (List Char))
  deriving Repr

namespace Given

def nothing : Given := ⟨[], []⟩

/-- Whether an option is given. -/
def has (given : Given) (long : String) : Bool :=
  (given.options.lookup long).isSome

/-- The value that an option is given. -/
def value? (given : Given) (long : String) : Option (List Char) :=
  (given.options.lookup long).join

/-- Adds an option, which must not be there yet. -/
def add (given : Given) (switch : Switch) (value : Option (List Char)) : Except Stop Given :=
  if given.has switch.long then .error .misuse
  else .ok { given with options := (switch.long, value) :: given.options }

/-- Adds an option with a value that it may have. -/
def addValue (given : Given) (switch : Switch) (content : Content) (text : List Char) :
    Except Stop Given :=
  if content.admits text then given.add switch (some text) else .error .misuse

/-- Adds an operand, if there may be so many. -/
def addOperand (given : Given) (limit : Nat) (operand : List Char) : Except Stop Given :=
  if given.operands.length < limit && Content.location.admits operand then
    .ok { given with operands := given.operands ++ [operand] }
  else .error .misuse

end Given

/-- The options of a command, and how many operands it has. -/
structure Grammar where
  switches : List Switch
  operandCount : Nat

/-! ## Reading -/

/-- An option whose value is to be the next argument. -/
structure Pending where
  switch : Switch
  content : Content
  signed : Bool

/-- What has been given, and the option that waits for a value. -/
abbrev Progress := Given × Option Pending

/-- Meets an option, to which a value may be attached. -/
def meet (given : Given) (switch : Switch) (attached : Option (List Char)) :
    Except Stop Progress :=
  match switch.role, attached with
  | .value content _, some text => do return (← given.addValue switch content text, none)
  | .value content signed, none => .ok (given, some ⟨switch, content, signed⟩)
  | _, some _ => .error .misuse
  | .flag, none => do return (← given.add switch none, none)
  | .help, none => .error .help
  | .version, none => .error .version

/-- The text without the equality sign it starts with. -/
def skipEquals : List Char → List Char
  | '=' :: text => text
  | text => text

/-- Meets the options that some letters stand for. -/
def meetLetters (switches : List Switch) (given : Given) : List Char → Except Stop Progress
  | [] => .ok (given, none)
  | letter :: letters =>
    match switches.find? fun switch => switch.letter == some letter with
    | none => .error .misuse
    | some switch =>
      match switch.role with
      | .value _ _ =>
        meet given switch (if letters.isEmpty then none else some (skipEquals letters))
      | _ => do
        let (given, _) ← meet given switch none
        meetLetters switches given letters

/-- Meets the option that a long name stands for, which an equality sign and a value may
follow. -/
def meetLong (switches : List Switch) (given : Given) (text : List Char) :
    Except Stop Progress :=
  let name := text.takeWhile (· != '=')
  let attached := (text.drop name.length).tail?
  match switches.find? fun switch => switch.long.toList == name with
  | none => .error .misuse
  | some switch => meet given switch attached

/-- Whether a text is digits with at most one point after the first of them, and an exponent. -/
def isUnsignedNumber (text : List Char) : Bool :=
  let whole := text.takeWhile Char.isDigit
  let rest := text.drop whole.length
  let afterPoint := match rest with
    | '.' :: rest => if whole.isEmpty then '.' :: rest else rest.dropWhile Char.isDigit
    | rest => rest
  match afterPoint with
  | [] => true
  | c :: digits =>
    (c == 'e' || c == 'E') && !whole.isEmpty && !digits.isEmpty && digits.all Char.isDigit

/-- Whether an argument can be the value that an option waits for. -/
def Pending.takes (pending : Pending) : List Char → Bool
  | ['-'] => true
  | '-' :: text => pending.signed && isUnsignedNumber text
  | _ => true

/-- Adds what comes after two hyphens. -/
def addOperands (grammar : Grammar) (given : Given) (arguments : List (List Char)) :
    Except Stop Given :=
  arguments.foldlM (fun given => given.addOperand grammar.operandCount) given

/-- Sorts arguments. -/
def sort (grammar : Grammar) (given : Given) :
    Option Pending → List (List Char) → Except Stop Given
  | none, [] => .ok given
  | some _, [] => .error .misuse
  | some pending, argument :: arguments => do
    if pending.takes argument then
      let given ← given.addValue pending.switch pending.content argument
      sort grammar given none arguments
    else .error .misuse
  | none, ['-', '-'] :: arguments => addOperands grammar given arguments
  | none, ('-' :: '-' :: text) :: arguments => do
    let (given, pending) ← meetLong grammar.switches given text
    sort grammar given pending arguments
  | none, ('-' :: c :: letters) :: arguments => do
    let (given, pending) ← meetLetters grammar.switches given (c :: letters)
    sort grammar given pending arguments
  | none, operand :: arguments => do
    let given ← given.addOperand grammar.operandCount operand
    sort grammar given none arguments

/-- Reads the arguments of a command. -/
def Grammar.read (grammar : Grammar) (arguments : List (List Char)) : Except Stop Given := do
  let given ← sort grammar .nothing none arguments
  if given.operands.length = grammar.operandCount then .ok given else .error .misuse

/-- Splits arguments at the name of a command; only options without values may stand
before it. -/
def splitCommand (switches : List Switch) (given : Given) :
    List (List Char) → Except Stop (List Char × List (List Char))
  | [] => .error .misuse
  | ['-', '-'] :: _ => .error .misuse
  | ('-' :: '-' :: text) :: arguments => do
    let (given, _) ← meetLong switches given text
    splitCommand switches given arguments
  | ('-' :: c :: letters) :: arguments => do
    let (given, _) ← meetLetters switches given (c :: letters)
    splitCommand switches given arguments
  | name :: arguments => .ok (name, arguments)

end Kerf.CommandLine
