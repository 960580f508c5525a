import Kerf.Decimal.Binary64

/-!
# Numerals

The text of a number: an optional sign, then `inf`, `infinity` or `nan` in any letter
case, or digits with an optional point (at least one digit on either side of it) and an
optional exponent. Nothing may surround it. `Numeral.read?` reads the text,
`Numeral.toFloat` gives the nearest float, and `readFloat?` does both.
-/

namespace Kerf.Decimal

/-- What a numeral says. -/
inductive Numeral where
  | notANumber
  | infinite (negative : Bool)
  /-- The number `coefficient * 10 ^ power`, with its sign. -/
  | decimal (negative : Bool) (coefficient : Nat) (power : Int)
  deriving DecidableEq, Repr

/-- The value of one ASCII digit. -/
def digitValue (c : Char) : Nat :=
  c.toNat - '0'.toNat

/-- The value of a run of ASCII digits. -/
def digitsValue (digits : List Char) : Nat :=
  digits.foldl (fun value digit => 10 * value + digitValue digit) 0

/-- Splits a sign off: whether it is a minus, and what follows. -/
def takeSign : List Char → Bool × List Char
  | '-' :: text => (true, text)
  | '+' :: text => (false, text)
  | text => (false, text)

/-- Splits the digits after a point off, if there is a point. -/
def takeFraction : List Char → List Char × List Char
  | '.' :: text => (text.takeWhile Char.isDigit, text.dropWhile Char.isDigit)
  | text => ([], text)

/-- Reads a signed run of digits. -/
def readSigned? (text : List Char) : Option Int :=
  let (negative, digits) := takeSign text
  if digits.isEmpty || !digits.all Char.isDigit then none
  else some (if negative then -(digitsValue digits : Int) else digitsValue digits)

/-- Reads the end of a decimal: nothing, or an exponent. -/
def readExponent? : List Char → Option Int
  | [] => some 0
  | c :: text => if c = 'e' ∨ c = 'E' then readSigned? text else none

/-- Reads an unsigned decimal as a coefficient and a power of ten. -/
def readDecimal? (text : List Char) : Option (Nat × Int) :=
  let whole := text.takeWhile Char.isDigit
  let (fraction, rest) := takeFraction (text.dropWhile Char.isDigit)
  if whole.isEmpty && fraction.isEmpty then none
  else
    (readExponent? rest).map fun power =>
      (digitsValue (whole ++ fraction), power - fraction.length)

/-- Reads a numeral. -/
def Numeral.read? (text : List Char) : Option Numeral :=
  let (negative, unsigned) := takeSign text
  let word := unsigned.map Char.toLower
  if word = "inf".toList ∨ word = "infinity".toList then some (.infinite negative)
  else if word = "nan".toList then some .notANumber
  else (readDecimal? unsigned).map fun (coefficient, power) =>
    .decimal negative coefficient power

/-- The float nearest to what a numeral says. -/
def Numeral.toFloat : Numeral → Float
  | .notANumber => ofIndex false (infinityIndex + Nat.pow 2 51)
  | .infinite negative => ofIndex negative infinityIndex
  | .decimal negative coefficient power => ofIndex negative (nearestToDecimal coefficient power)

/-- Reads a numeral as a float. -/
def readFloat? (text : List Char) : Option Float :=
  (Numeral.read? text).map Numeral.toFloat

end Kerf.Decimal
