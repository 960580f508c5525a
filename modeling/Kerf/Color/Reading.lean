import Kerf.Color.Basic
import Kerf.Decimal.Numeral
import Kerf.Text.Digit
import Kerf.Text.Radix

/-!
# Reading colors

A color is written in one of three notations: hexadecimal after a hash (`readHex`),
functional with decimal channels and an optional opacity between zero and one
(`readFunctional`), or by name (`named?`). `readOr` tries the notation that the text
announces and settles for a given color where it fails; nothing, or `none`, is
transparent.

The functional notation is looked for anywhere in the text, and the first place where its
form fits is the one that is read, though a channel may then be out of range.
-/

namespace Kerf.Color

/-- Why text is not a color of the notation it was read in. -/
inductive Fault where
  | notHex (text : List Char)
  | notFunctional (text : List Char)
  deriving DecidableEq, Repr

/-- The wording of a fault. -/
def Fault.message : Fault → String
  | notHex text => "invalid hex color '" ++ String.ofList text ++ "'"
  | notFunctional text => "invalid rgb color '" ++ String.ofList text ++ "'"

/-! ## Hexadecimal notation -/

/-- The channel that two digit values give. -/
def channelOf (high low : Nat) : UInt8 :=
  UInt8.ofNat (16 * high + low)

/-- The color of three, six or eight digit values: a single digit stands for a pair of it,
and eight start with the opacity. -/
def ofHexValues? : List Nat → Option Color
  | [r, g, b] => some (opaqueOf (channelOf r r) (channelOf g g) (channelOf b b))
  | [r1, r0, g1, g0, b1, b0] =>
    some (opaqueOf (channelOf r1 r0) (channelOf g1 g0) (channelOf b1 b0))
  | [a1, a0, r1, r0, g1, g0, b1, b0] =>
    some ⟨channelOf r1 r0, channelOf g1 g0, channelOf b1 b0, channelOf a1 a0⟩
  | _ => none

/-- Reads the hexadecimal notation; blanks around it and any number of hashes before it
are no part of the digits. -/
def readHex (text : List Char) : Except Fault Color :=
  match ((Text.trim text).dropWhile (· == '#')).mapM Text.digitValue? >>= ofHexValues? with
  | some color => .ok color
  | none => .error (.notHex text)

/-! ## Functional notation -/

/-- Splits a run of digits of any script off, if there is one. -/
def takeDigits? (text : List Char) : Option (List Char × List Char) :=
  let digits := text.takeWhile Text.isDigit
  if digits.isEmpty then none else some (digits, text.dropWhile Text.isDigit)

/-- The text after blanks and a character, if that comes next. -/
def afterMark? (mark : Char) (text : List Char) : Option (List Char) :=
  match Text.trimStart text with
  | [] => none
  | c :: rest => if c = mark then some rest else none

/-- The text after blanks and a digit run, with the run. -/
def takeArgument? (text : List Char) : Option (List Char × List Char) :=
  takeDigits? (Text.trimStart text)

/-- Splits a run of digits and points off, if there is one. -/
def takeOpacity? (text : List Char) : Option (List Char × List Char) :=
  let inside (c : Char) : Bool := Text.isDigit c || c == '.'
  let run := (Text.trimStart text).takeWhile inside
  if run.isEmpty then none else some (run, (Text.trimStart text).dropWhile inside)

/-- The three channels and the opacity of the functional notation, as they are written. -/
structure Arguments where
  red : List Char
  green : List Char
  blue : List Char
  opacity : Option (List Char)

/-- Fits the functional notation to the front of a text. -/
def fitFunctional? (text : List Char) : Option Arguments := do
  let text ← Text.afterIgnoringCase? ['r', 'g', 'b'] text
  let text := (Text.afterIgnoringCase? ['a'] text).getD text
  let text ← afterMark? '(' text
  let (red, text) ← takeArgument? text
  let text ← afterMark? ',' text
  let (green, text) ← takeArgument? text
  let text ← afterMark? ',' text
  let (blue, text) ← takeArgument? text
  match afterMark? ',' text with
  | none =>
    let _ ← afterMark? ')' text
    return ⟨red, green, blue, none⟩
  | some text =>
    let (opacity, text) ← takeOpacity? text
    let _ ← afterMark? ')' text
    return ⟨red, green, blue, some opacity⟩

/-- The first place where the functional notation fits. -/
def findFunctional? : List Char → Option Arguments
  | [] => none
  | c :: text =>
    match fitFunctional? (c :: text) with
    | some arguments => some arguments
    | none => findFunctional? text

/-- Reads a channel: ASCII digits with a value of at most 255. -/
def readChannel? (digits : List Char) : Option UInt8 :=
  if digits.all Char.isDigit && Decimal.digitsValue digits ≤ 255 then
    some (UInt8.ofNat (Decimal.digitsValue digits))
  else none

/-- The channel of an opacity, which is held between zero and one. -/
def opacityChannel (opacity : Float) : UInt8 :=
  let held := if opacity < 0.0 then 0.0 else if 1.0 < opacity then 1.0 else opacity
  (held * 255.0).toUInt8

/-- The color of functional arguments, if each is readable. -/
def ofArguments? (arguments : Arguments) : Option Color := do
  let red ← readChannel? arguments.red
  let green ← readChannel? arguments.green
  let blue ← readChannel? arguments.blue
  match arguments.opacity with
  | none => return opaqueOf red green blue
  | some opacity =>
    let opacity ← Decimal.readFloat? opacity
    return ⟨red, green, blue, opacityChannel opacity⟩

/-- Reads the functional notation. -/
def readFunctional (text : List Char) : Except Fault Color :=
  match findFunctional? text >>= ofArguments? with
  | some color => .ok color
  | none => .error (.notFunctional text)

/-! ## Names -/

/-- The named colors. -/
def names : List (String × Color) :=
  [("black", black), ("white", opaqueOf 255 255 255), ("red", opaqueOf 255 0 0),
    ("green", opaqueOf 0 128 0), ("blue", opaqueOf 0 0 255), ("yellow", opaqueOf 255 255 0),
    ("cyan", opaqueOf 0 255 255), ("magenta", opaqueOf 255 0 255),
    ("orange", opaqueOf 255 165 0), ("purple", opaqueOf 128 0 128),
    ("pink", opaqueOf 255 192 203), ("brown", opaqueOf 165 42 42),
    ("gray", opaqueOf 128 128 128), ("grey", opaqueOf 128 128 128),
    ("darkred", opaqueOf 139 0 0), ("darkgreen", opaqueOf 0 100 0),
    ("darkblue", opaqueOf 0 0 139), ("lightgray", opaqueOf 211 211 211),
    ("lightgrey", opaqueOf 211 211 211), ("transparent", transparent)]

/-- The color with a name, in any letter case and with blanks around it. -/
def named? (text : List Char) : Option Color :=
  (names.find? fun (name, _) => Text.sameIgnoringCase (Text.trim text) name.toList).map (·.2)

/-! ## Any notation -/

/-- Whether a text says that nothing is painted. -/
def isNone (text : List Char) : Bool :=
  Text.sameIgnoringCase text "none".toList

/-- Reads a color in the notation that its text announces. -/
def read? (text : List Char) : Option Color :=
  if text.head? = some '#' then (readHex text).toOption
  else if (Text.afterIgnoringCase? ['r', 'g', 'b'] text).isSome then
    (readFunctional text).toOption
  else named? text

/-- Reads a color, or gives another where there is none to read. -/
def readOr (default : Color) (text : List Char) : Color :=
  let text := Text.trim text
  if text.isEmpty || isNone text then transparent else (read? text).getD default

end Kerf.Color
