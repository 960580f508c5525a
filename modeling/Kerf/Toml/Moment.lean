import Kerf.Decimal.Numeral

/-!
# Dates and times of TOML

A moment is a date, a time of day, or a date with a time, which may say how far it is from
universal time. Months have the days they have in the Gregorian calendar, and a minute may
have a leap second.
-/

namespace Kerf.Toml

/-- Takes a number of so many digits off, if it lies between two bounds. -/
def takeBetween? (length least greatest : Nat) (text : List Char) : Option (Nat × List Char) :=
  let digits := text.take length
  let value := Decimal.digitsValue digits
  if digits.length = length ∧ digits.all Char.isDigit ∧ least ≤ value ∧ value ≤ greatest then
    some (value, text.drop length)
  else none

/-- The text after a character. -/
def afterMark? (mark : Char) : List Char → Option (List Char)
  | [] => none
  | c :: text => if c = mark then some text else none

/-- Whether a year has a leap day. -/
def isLeapYear (year : Nat) : Bool :=
  year % 4 = 0 ∧ (year % 100 ≠ 0 ∨ year % 400 = 0)

/-- The number of days in a month. -/
def daysInMonth (year month : Nat) : Nat :=
  if month = 2 then if isLeapYear year then 29 else 28
  else if month = 4 ∨ month = 6 ∨ month = 9 ∨ month = 11 then 30
  else 31

/-- The text after a date. -/
def afterDate? (text : List Char) : Option (List Char) := do
  let (year, text) ← takeBetween? 4 0 9999 text
  let text ← afterMark? '-' text
  let (month, text) ← takeBetween? 2 1 12 text
  let text ← afterMark? '-' text
  let (_, text) ← takeBetween? 2 1 (daysInMonth year month) text
  return text

/-- The text after a time of day. -/
def afterTime? (text : List Char) : Option (List Char) := do
  let (_, text) ← takeBetween? 2 0 23 text
  let text ← afterMark? ':' text
  let (_, text) ← takeBetween? 2 0 59 text
  let text ← afterMark? ':' text
  let (_, text) ← takeBetween? 2 0 60 text
  match text with
  | '.' :: c :: text =>
    if c.isDigit then some (text.dropWhile Char.isDigit) else some ('.' :: c :: text)
  | text => some text

/-- The text after hours and minutes. -/
def afterDistance? (text : List Char) : Option (List Char) := do
  let (_, text) ← takeBetween? 2 0 23 text
  let text ← afterMark? ':' text
  let (_, text) ← takeBetween? 2 0 59 text
  return text

/-- The text without the distance from universal time that it starts with, if there is one. -/
def skipDistance : List Char → List Char
  | [] => []
  | c :: text =>
    if c = 'Z' ∨ c = 'z' then text
    else if c = '+' ∨ c = '-' then (afterDistance? text).getD (c :: text)
    else c :: text

/-- The text without the time that it starts with, if a date can go on with it. -/
def skipTime : List Char → List Char
  | [] => []
  | c :: text =>
    if c = 'T' ∨ c = 't' ∨ c = ' ' then ((afterTime? text).map skipDistance).getD (c :: text)
    else c :: text

/-- The text after a moment. -/
def afterMoment? (text : List Char) : Option (List Char) :=
  match afterDate? text with
  | some text => some (skipTime text)
  | none => afterTime? text

/-- Takes a moment off, as it is written. -/
def takeMoment? (text : List Char) : Option (List Char × List Char) :=
  (afterMoment? text).map fun rest => (text.take (text.length - rest.length), rest)

end Kerf.Toml
