import Kerf.Decimal.Rounding

/-!
# Binary floating point in exact arithmetic

A float is taken apart into a sign and `mantissa * 2 ^ exponent` (`Binary64.ofFloat`) and
put together from the nearest one of all floats to a quotient (`nearestFloat`), both with
natural numbers only.

The finite magnitudes in increasing order have the indices `0, 1, 2, …`, and the index is
their encoding: `mantissa index * 2 ^ exponent index` is the value at an index, the
magnitudes below `2 ^ 52` being the evenly spaced ones next to zero. Rounding up past the
last magnitude with one exponent is therefore rounding to the first one with the next, and
past the last of all to infinity.
-/

namespace Kerf.Decimal

/-- What a float stands for. -/
inductive Binary64 where
  | notANumber
  | infinite (negative : Bool)
  /-- The number `mantissa * 2 ^ exponent`, with its sign. -/
  | finite (negative : Bool) (mantissa : Nat) (exponent : Int)
  deriving DecidableEq, Repr

/-! ## Magnitudes by index -/

/-- The index of infinity, the first one that is not finite. -/
def infinityIndex : Nat := 2047 * Nat.pow 2 52

/-- The mantissa of the finite magnitude at an index. -/
def mantissa (index : Nat) : Nat :=
  if index < Nat.pow 2 52 then index else Nat.pow 2 52 + index % Nat.pow 2 52

/-- The exponent of the finite magnitude at an index. -/
def exponent (index : Nat) : Int :=
  if index < Nat.pow 2 52 then -1074 else (index / Nat.pow 2 52 : Nat) - 1075

/-- The float with a sign and a magnitude. -/
def ofIndex (negative : Bool) (index : Nat) : Float :=
  Float.ofBits (UInt64.ofNat (index + if negative then Nat.pow 2 63 else 0))

/-- Whether a float carries a minus sign, be it zero or not. -/
def isNegative (x : Float) : Bool :=
  Nat.pow 2 63 ≤ x.toBits.toNat

/-- The index of a float's magnitude. -/
def indexOf (x : Float) : Nat :=
  x.toBits.toNat % Nat.pow 2 63

/-- Takes a float apart. -/
def Binary64.ofFloat (x : Float) : Binary64 :=
  let index := indexOf x
  if index < infinityIndex then .finite (isNegative x) (mantissa index) (exponent index)
  else if index = infinityIndex then .infinite (isNegative x)
  else .notANumber

/-! ## Quotients -/

/-- The quotient `num / den / 2 ^ shift`, as a numerator and a denominator. -/
def scaleDown (num den : Nat) (shift : Int) : Nat × Nat :=
  if 0 ≤ shift then (num, den * Nat.pow 2 shift.toNat)
  else (num * Nat.pow 2 (-shift).toNat, den)

/-- The greatest exponent of a power of two that is at most a positive quotient. -/
def floorLog2 (num den : Nat) : Int :=
  let guess : Int := (num.log2 : Int) - den.log2
  let (n, d) := scaleDown num den guess
  if d ≤ n then guess else guess - 1

/-- The index of the magnitude nearest to a quotient, a tie going to the even index. -/
def nearestIndex (num den : Nat) : Nat :=
  if num = 0 then 0
  else
    let shift := max (-1074) (floorLog2 num den - 52)
    let (n, d) := scaleDown num den shift
    min (roundHalfEven n d + (shift + 1074).toNat * Nat.pow 2 52) infinityIndex

/-- The index of the magnitude nearest to `coefficient * 10 ^ power`. Powers far outside
of the range of finite magnitudes are settled without computing them. -/
def nearestToDecimal (coefficient : Nat) (power : Int) : Nat :=
  if coefficient = 0 then 0
  else if 400 < power then infinityIndex
  else if power + coefficient.log2 + 1 < -400 then 0
  else if 0 ≤ power then nearestIndex (coefficient * Nat.pow 10 power.toNat) 1
  else nearestIndex coefficient (Nat.pow 10 (-power).toNat)

/-- The numerator and denominator of a magnitude. -/
def quotient (mantissa : Nat) (exponent : Int) : Nat × Nat :=
  if 0 ≤ exponent then (mantissa * Nat.pow 2 exponent.toNat, 1)
  else (mantissa, Nat.pow 2 (-exponent).toNat)

end Kerf.Decimal
