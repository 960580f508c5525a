import Kerf.Decimal.Binary64

/-!
# Decimals with a fixed number of places

`fixed places x` is the decimal with so many places nearest to the exact value of `x`, a
tie going to the even last digit. The sign of a negative value is kept even if all its
digits are zero.
-/

namespace Kerf.Decimal

/-- The digits of a number of units of the last place, with a point before the last `places`. -/
def pointed (places units : Nat) : List Char :=
  let digits := List.leftpad (places + 1) '0' (Nat.toDigits 10 units)
  let whole := digits.take (digits.length - places)
  let fraction := digits.drop (digits.length - places)
  if places = 0 then whole else whole ++ '.' :: fraction

/-- How many units of the last place a magnitude is nearest to. -/
def unitsOf (places mantissa : Nat) (exponent : Int) : Nat :=
  let (num, den) := quotient mantissa exponent
  roundHalfEven (num * Nat.pow 10 places) den

/-- The text of a sign. -/
def signed (negative : Bool) (text : List Char) : List Char :=
  if negative then '-' :: text else text

/-- The text of what is no finite number. -/
def nanText : List Char := ['N', 'a', 'N']

@[inherit_doc nanText] def infinityText : List Char := ['i', 'n', 'f']

/-- The decimal with a fixed number of places nearest to a float. -/
def fixed (places : Nat) (x : Float) : List Char :=
  match Binary64.ofFloat x with
  | .notANumber => nanText
  | .infinite negative => signed negative infinityText
  | .finite negative mantissa exponent =>
    signed negative (pointed places (unitsOf places mantissa exponent))

end Kerf.Decimal
