/-!
# Digits of number systems

The digits of number systems with a base of up to sixteen: the ASCII digits and the first
letters of the alphabet in either case.
-/

namespace Kerf.Text

/-- The value of a digit. -/
def digitValue? (c : Char) : Option Nat :=
  if '0' ≤ c ∧ c ≤ '9' then some (c.toNat - '0'.toNat)
  else if 'a' ≤ c ∧ c ≤ 'f' then some (c.toNat - 'a'.toNat + 10)
  else if 'A' ≤ c ∧ c ≤ 'F' then some (c.toNat - 'A'.toNat + 10)
  else none

/-- Whether a character is a digit of the system with a base. -/
def isDigitIn (base : Nat) (c : Char) : Bool :=
  ((digitValue? c).map fun value => decide (value < base)).getD false

/-- The value of digits in the system with a base. -/
def valueIn (base : Nat) (digits : List Char) : Nat :=
  digits.foldl (fun value c => base * value + (digitValue? c).getD 0) 0

end Kerf.Text
