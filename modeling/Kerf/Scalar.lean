import Kerf.Decimal.Layout
import Kerf.Decimal.Numeral

/-!
# Scalars

Geometry is written once, over any type with the operations of `Scalar`. `Float` is the
type that programs run on; each formula fixes the order of its operations, so a float
result is determined to the last bit. The same formulas can be read over an exact type.

`Written` adds what connects a scalar to text: numerals are read as scalars, and scalars
are written with the fewest digits (`Written.plain`) or with a fixed number of places
(`Written.fixed`).
-/

namespace Kerf

/-- The operations that geometry needs of a number. -/
class Scalar (α : Type) extends Add α, Sub α, Mul α, Div α, Neg α, LT α, LE α, NatCast α,
    OfScientific α where
  decidableLT : DecidableLT α
  decidableLE : DecidableLE α
  abs : α → α
  sqrt : α → α
  sin : α → α
  cos : α → α
  /-- The angle of the point with the second argument as abscissa and the first as ordinate. -/
  atan2 : α → α → α
  pi : α
  /-- What a number of degrees is multiplied by to give radians. -/
  radiansPerDegree : α
  isFinite : α → Bool

instance Scalar.instDecidableLT {α : Type} [Scalar α] : DecidableLT α := Scalar.decidableLT

instance Scalar.instDecidableLE {α : Type} [Scalar α] : DecidableLE α := Scalar.decidableLE

namespace Scalar

variable {α : Type} [Scalar α]

/-- Numeric equality: a value that is no number equals nothing, itself included. -/
def same (a b : α) : Bool :=
  decide (a ≤ b) && decide (b ≤ a)

/-- Whether a value is no number. -/
def isNaN (a : α) : Bool :=
  !same a a

/-- The lesser of two numbers, or the one that is a number; of equal ones, the first. -/
def min (a b : α) : α :=
  if isNaN a then b else if b < a then b else a

/-- The greater of two numbers, or the one that is a number; of equal ones, the first. -/
def max (a b : α) : α :=
  if isNaN a then b else if a < b then b else a

/-- Degrees as radians. -/
def radians (degrees : α) : α :=
  degrees * radiansPerDegree

end Scalar

instance : Scalar Float where
  natCast := Float.ofNat
  decidableLT := fun a b => Float.decLt a b
  decidableLE := fun a b => Float.decLe a b
  abs := Float.abs
  sqrt := Float.sqrt
  sin := Float.sin
  cos := Float.cos
  atan2 := Float.atan2
  pi := 3.141592653589793
  radiansPerDegree := 0.017453292519943295
  isFinite := Float.isFinite

/-- A scalar that is read from text and written as text. -/
class Written (α : Type) extends Scalar α where
  /-- Reads a numeral with nothing around it. -/
  read? : List Char → Option α
  /-- Writes the fewest digits that read back, without an exponent. -/
  plain : α → List Char
  /-- Writes the nearest decimal with a fixed number of places. -/
  fixed : Nat → α → List Char

instance : Written Float where
  read? := Decimal.readFloat?
  plain := Decimal.Layout.plain.write
  fixed := Decimal.fixed

end Kerf
