import Kerf.Json.Number
import Kerf.Text.Radix

/-!
# Reading JSON

`read?` reads a text of JSON, strictly: one value with nothing but blanks around it, no
comments and no commas too many. A string whose escapes name half of a character is
well-formed but has no value, and a record with such a name has none either.
-/

namespace Kerf.Json

/-- Space, tab, line feed and carriage return. -/
def isBlank (c : Char) : Bool :=
  c == ' ' || c == '\t' || c == '\n' || c == '\r'

/-- The text without the blanks it starts with. -/
def skipBlank (text : List Char) : List Char :=
  text.dropWhile isBlank

/-! ## Strings -/

/-- The value of four hexadecimal digits. -/
def unit? (digits : List Char) : Option Nat :=
  if digits.all (Text.isDigitIn 16) then some (Text.valueIn 16 digits) else none

/-- The character that a backslash and a letter stand for. -/
def escaped? : Char → Option Char
  | '"' => some '"'
  | '\\' => some '\\'
  | '/' => some '/'
  | 'b' => some '\x08'
  | 'f' => some '\x0c'
  | 'n' => some '\n'
  | 'r' => some '\r'
  | 't' => some '\t'
  | _ => none

/-- Takes a string off, whose opening quote is read already, as code points and halves of
them. -/
def takeUnits? : List Char → Option (List Nat × List Char)
  | [] => none
  | '"' :: rest => some ([], rest)
  | '\\' :: 'u' :: a :: b :: c :: d :: rest => do
    let unit ← unit? [a, b, c, d]
    let (units, rest) ← takeUnits? rest
    return (unit :: units, rest)
  | '\\' :: c :: rest => do
    let c ← escaped? c
    let (units, rest) ← takeUnits? rest
    return (c.toNat :: units, rest)
  | c :: rest =>
    if c.toNat < 0x20 ∨ c = '\\' then none
    else (takeUnits? rest).map fun (units, rest) => (c.toNat :: units, rest)

/-- The text of code points, two halves that follow each other being joined. -/
def joinUnits? : List Nat → Option (List Char)
  | [] => some []
  | high :: low :: units =>
    if 0xD800 ≤ high ∧ high < 0xDC00 then
      if 0xDC00 ≤ low ∧ low < 0xE000 then
        (joinUnits? units).map fun text =>
          Char.ofNat (0x10000 + 0x400 * (high - 0xD800) + (low - 0xDC00)) :: text
      else none
    else if 0xDC00 ≤ high ∧ high < 0xE000 then none
    else (joinUnits? (low :: units)).map fun text => Char.ofNat high :: text
  | [unit] => if 0xD800 ≤ unit ∧ unit < 0xE000 then none else some [Char.ofNat unit]

/-- Takes a string off; what it says may be nothing. -/
def takeString? (text : List Char) : Option (Option (List Char) × List Char) :=
  (takeUnits? text).map fun (units, rest) => (joinUnits? units, rest)

/-! ## Numbers -/

/-- Takes the digits of a whole part off: a zero alone, or digits that do not start with one. -/
def takeWhole? : List Char → Option (List Char × List Char)
  | '0' :: rest => if (rest.head?.map Char.isDigit).getD false then none else some (['0'], rest)
  | text =>
    let digits := text.takeWhile Char.isDigit
    if digits.isEmpty then none else some (digits, text.dropWhile Char.isDigit)

/-- Takes a point and digits off, if there is a point. -/
def takeFraction? : List Char → Option (Option (List Char) × List Char)
  | '.' :: text =>
    let digits := text.takeWhile Char.isDigit
    if digits.isEmpty then none else some (some digits, text.dropWhile Char.isDigit)
  | text => some (none, text)

/-- Takes an exponent off, if there is its mark. -/
def takeExponent? : List Char → Option (Option Int × List Char)
  | [] => some (none, [])
  | c :: text =>
    if c = 'e' ∨ c = 'E' then
      let (negative, unsigned) := Decimal.takeSign text
      let digits := unsigned.takeWhile Char.isDigit
      let value : Int := Decimal.digitsValue digits
      if digits.isEmpty then none
      else some (some (if negative then -value else value), unsigned.dropWhile Char.isDigit)
    else some (none, c :: text)

/-- Takes a number off. -/
def takeNumber? (text : List Char) : Option (Number × List Char) := do
  let (negative, text) := match text with
    | '-' :: text => (true, text)
    | text => (false, text)
  let (whole, text) ← takeWhole? text
  let (fraction, text) ← takeFraction? text
  let (exponent, rest) ← takeExponent? text
  return (⟨negative, whole, fraction, exponent⟩, rest)

/-! ## Values -/

/-- The record of some members, if each name has a value. -/
def recordOf (members : List (Option (List Char) × Datum)) : Datum :=
  match members.mapM fun (name, datum) => name.map fun name => (name, datum) with
  | some members => .record members
  | none => .invalid

mutual

/-- Takes a value off; `fuel` bounds the depth and the number of its parts. -/
def takeValue? : (fuel : Nat) → List Char → Option (Datum × List Char)
  | 0, _ => none
  | fuel + 1, text =>
    match skipBlank text with
    | 'n' :: 'u' :: 'l' :: 'l' :: rest => some (.null, rest)
    | 't' :: 'r' :: 'u' :: 'e' :: rest => some (.flag true, rest)
    | 'f' :: 'a' :: 'l' :: 's' :: 'e' :: rest => some (.flag false, rest)
    | '"' :: text =>
      (takeString? text).map fun (value, rest) =>
        ((value.map Datum.text).getD .invalid, rest)
    | '[' :: text =>
      match skipBlank text with
      | ']' :: rest => some (.sequence [], rest)
      | text => (takeItems? fuel text).map fun (items, rest) => (.sequence items, rest)
    | '{' :: text =>
      match skipBlank text with
      | '}' :: rest => some (.record [], rest)
      | text => (takeMembers? fuel text).map fun (members, rest) => (recordOf members, rest)
    | text => (takeNumber? text).map fun (number, rest) => (number.datum, rest)

/-- Takes the items of a sequence off, with the bracket after them. -/
def takeItems? : (fuel : Nat) → List Char → Option (List Datum × List Char)
  | 0, _ => none
  | fuel + 1, text => do
    let (item, text) ← takeValue? fuel text
    match skipBlank text with
    | ',' :: text =>
      let (items, rest) ← takeItems? fuel text
      return (item :: items, rest)
    | ']' :: rest => return ([item], rest)
    | _ => none

/-- Takes the members of a record off, with the brace after them. -/
def takeMembers? : (fuel : Nat) → List Char →
    Option (List (Option (List Char) × Datum) × List Char)
  | 0, _ => none
  | fuel + 1, text => do
    let (name, text) ← match skipBlank text with
      | '"' :: text => takeString? text
      | _ => none
    let (value, text) ← match skipBlank text with
      | ':' :: text => takeValue? fuel text
      | _ => none
    match skipBlank text with
    | ',' :: text =>
      let (members, rest) ← takeMembers? fuel text
      return ((name, value) :: members, rest)
    | '}' :: rest => return ([(name, value)], rest)
    | _ => none

end

/-- Reads a text of JSON. -/
def read? (text : List Char) : Option Datum := do
  let (datum, rest) ← takeValue? (text.length + 1) text
  if (skipBlank rest).isEmpty then some datum else none

end Kerf.Json
