import Kerf.Data.Datum
import Kerf.Decimal.Numeral
import Kerf.Text.Radix

/-!
# Numbers of TOML

Whole numbers are written in the decimal system, or without a sign in another one that a
prefix names, and must fit in 64 bits with a sign. A number with a point or an exponent is
the nearest float; it must not be too great for one, but it may be too far below zero.
Between digits there may be single underscores.
-/

namespace Kerf.Toml

/-! ## Digits -/

/-- Takes off the digits that follow a digit, without the underscores between them. -/
def takeMoreDigits (isDigit : Char → Bool) : List Char → List Char × List Char
  | [] => ([], [])
  | '_' :: c :: text =>
    if isDigit c then
      let (digits, rest) := takeMoreDigits isDigit text
      (c :: digits, rest)
    else ([], '_' :: c :: text)
  | c :: text =>
    if isDigit c then
      let (digits, rest) := takeMoreDigits isDigit text
      (c :: digits, rest)
    else ([], c :: text)

/-- Takes digits off, of which there must be one. -/
def takeDigits? (isDigit : Char → Bool) : List Char → Option (List Char × List Char)
  | [] => none
  | c :: text =>
    if isDigit c then
      let (digits, rest) := takeMoreDigits isDigit text
      some (c :: digits, rest)
    else none

/-- Takes off the digits before the point: a zero alone, or digits that do not start with
one. -/
def takeWhole? : List Char → Option (List Char × List Char)
  | '0' :: rest => some (['0'], rest)
  | text => takeDigits? Char.isDigit text

/-- Takes a point and the digits after it off, if both are there. -/
def takeFraction : List Char → Option (List Char) × List Char
  | '.' :: text =>
    match takeDigits? Char.isDigit text with
    | some (digits, rest) => (some digits, rest)
    | none => (none, '.' :: text)
  | text => (none, text)

/-- Takes an exponent off, if there is one. -/
def takeExponent : List Char → Option Int × List Char
  | [] => (none, [])
  | c :: text =>
    if c = 'e' ∨ c = 'E' then
      let (negative, unsigned) := Decimal.takeSign text
      match takeDigits? Char.isDigit unsigned with
      | some (digits, rest) =>
        let value : Int := Decimal.digitsValue digits
        (some (if negative then -value else value), rest)
      | none => (none, c :: text)
    else (none, c :: text)

/-! ## Whole numbers -/

/-- The limit of the magnitude of whole numbers. -/
def wholeLimit : Int := Int.pow 2 63

/-- A whole number as a datum, if it fits. -/
def whole? (value : Int) : Option Datum :=
  if -wholeLimit ≤ value ∧ value < wholeLimit then some (.whole value) else none

/-- The base that a letter after a zero names. -/
def base? : Char → Option Nat
  | 'x' => some 16
  | 'o' => some 8
  | 'b' => some 2
  | _ => none

/-- Takes off the digits that follow a prefix. -/
def takeInBase? (base : Nat) (text : List Char) : Option (Datum × List Char) := do
  let (digits, rest) ← takeDigits? (Text.isDigitIn base) text
  let datum ← whole? (Text.valueIn base digits)
  return (datum, rest)

/-! ## Numbers -/

/-- A float as a datum, if it is not too great. -/
def real? (negative : Bool) (whole fraction : List Char) (exponent : Int) : Option Datum :=
  let power := exponent - fraction.length
  let value :=
    (Decimal.Numeral.decimal negative (Decimal.digitsValue (whole ++ fraction)) power).toFloat
  if value.isInf && !negative then none else some (.real value)

/-- Takes a number in the decimal system off, whose sign is read already. -/
def takeDecimal? (negative : Bool) (text : List Char) : Option (Datum × List Char) := do
  let (whole, text) ← takeWhole? text
  let (fraction, text) := takeFraction text
  let (exponent, rest) := takeExponent text
  let datum ←
    if fraction.isNone && exponent.isNone then
      let value : Int := Decimal.digitsValue whole
      whole? (if negative then -value else value)
    else real? negative whole (fraction.getD []) (exponent.getD 0)
  return (datum, rest)

/-- Takes off what may follow a sign. -/
def takeUnsigned? (negative : Bool) : List Char → Option (Datum × List Char)
  | 'i' :: 'n' :: 'f' :: rest => some (.real (Decimal.Numeral.infinite negative).toFloat, rest)
  | 'n' :: 'a' :: 'n' :: rest => some (.real Decimal.Numeral.notANumber.toFloat, rest)
  | text => takeDecimal? negative text

/-- Takes a number off. -/
def takeNumber? : List Char → Option (Datum × List Char)
  | '-' :: text => takeUnsigned? true text
  | '+' :: text => takeUnsigned? false text
  | '0' :: c :: text =>
    match base? c with
    | some base => takeInBase? base text
    | none => takeUnsigned? false ('0' :: c :: text)
  | text => takeUnsigned? false text

end Kerf.Toml
