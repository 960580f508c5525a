import Kerf.Data.Datum
import Kerf.Decimal.Numeral

/-!
# Numbers of JSON

A number without a fraction and an exponent is whole if it fits in 64 bits. Any other is a
float, which is found in two roundings: as many leading digits as fit in 64 bits make a
whole number, and that is multiplied or divided by a power of ten. So the result can be
off the nearest float in its last bit. A number too great for a float is none.
-/

namespace Kerf.Json

open Decimal (digitValue digitsValue)

/-- A number as it is written. -/
structure Number where
  negative : Bool
  whole : List Char
  fraction : Option (List Char)
  exponent : Option Int
  deriving DecidableEq, Repr

/-- The limit of whole numbers. -/
def wordLimit : Nat := Nat.pow 2 64

/-- Takes digits into a whole number as long as they fit; the digits that are left over
come with it. -/
def takeDigits (value : Nat) : List Char → Nat × List Char
  | [] => (value, [])
  | digit :: digits =>
    let next := 10 * value + digitValue digit
    if next < wordLimit then takeDigits next digits else (value, digit :: digits)

/-- The leading digits of a number as a whole number, and the power of ten to scale it by. -/
def significand (whole fraction : List Char) : Nat × Int :=
  let (head, dropped) := takeDigits 0 whole
  let (value, left) := takeDigits head fraction
  (value, (dropped.length : Int) - (fraction.length - left.length : Nat))

/-- A power of ten as a float. -/
def powerOfTen (power : Nat) : Float :=
  Decimal.ofIndex false (Decimal.nearestToDecimal 1 power)

/-- The greatest power of ten that is a float. -/
def maxPower : Nat := 308

/-- A float divided by a power of ten, in steps of the greatest power; `fuel` bounds the
steps, after a few of which nothing is left. -/
def scaleDown (value : Float) : (fuel power : Nat) → Float
  | 0, _ => value
  | fuel + 1, power =>
    if power ≤ maxPower then value / powerOfTen power
    else if value == 0.0 then value
    else scaleDown (value / powerOfTen maxPower) fuel (power - maxPower)

/-- A float multiplied or divided by a power of ten, if the result is finite. -/
def scale? (value : Float) (power : Int) : Option Float :=
  match power with
  | .ofNat power =>
    if power ≤ maxPower then
      let result := value * powerOfTen power
      if result.isInf then none else some result
    else if value == 0.0 then some value
    else none
  | .negSucc power => some (scaleDown value 4 (power + 1))

/-- The float of a number, if it is not too great. -/
def Number.float? (number : Number) : Option Float :=
  let (value, power) := significand number.whole (number.fraction.getD [])
  (scale? (Float.ofNat value) (power + number.exponent.getD 0)).map fun result =>
    if number.negative then -result else result

/-- The datum of a number. -/
def Number.datum (number : Number) : Datum :=
  let value := digitsValue number.whole
  if number.fraction.isNone && number.exponent.isNone && value < wordLimit then
    if number.negative then
      if value = 0 then .real (-0.0) else .whole (-(value : Int))
    else .whole value
  else
    match number.float? with
    | some result => .real result
    | none => .invalid

end Kerf.Json
