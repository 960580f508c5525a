import Kerf.Decimal.Fixed
import Kerf.Decimal.Shortest

/-!
# Layouts of shortest decimals

The digits of a float are the same in every text that holds it; what differs is how they
are laid out. A `Layout` records those decisions: where the point may stand in positional
notation, what follows a whole number, and how a positive exponent is marked. Each text
format states its own layout.
-/

namespace Kerf.Decimal

/-- The decisions of a text format on how a float looks. -/
structure Layout where
  /-- Whether a number below `10 ^ point` but not below `10 ^ (point - 1)` is written without an
  exponent. -/
  positional : Int → Bool
  /-- What follows a whole number in positional notation. -/
  wholeEnd : List Char
  /-- What stands before a positive exponent. -/
  positiveMark : List Char

/-- Positional notation of digits with the point at a position counted from the first digit. -/
def positionalText (wholeEnd digits : List Char) (point : Int) : List Char :=
  if point ≤ 0 then '0' :: '.' :: (List.replicate (-point).toNat '0' ++ digits)
  else if digits.length ≤ point.toNat then
    digits ++ List.replicate (point.toNat - digits.length) '0' ++ wholeEnd
  else digits.take point.toNat ++ '.' :: digits.drop point.toNat

/-- Digits with the point after the first one, and an exponent. -/
def exponentText (positiveMark digits : List Char) (point : Int) : List Char :=
  let power := point - 1
  let fraction := if digits.length ≤ 1 then [] else '.' :: digits.drop 1
  let mark := if power < 0 then ['-'] else positiveMark
  digits.take 1 ++ fraction ++ 'e' :: (mark ++ Nat.toDigits 10 power.natAbs)

/-- The digits of a coefficient without the zeros they end with. -/
def significant (coefficient : Nat) : List Char :=
  ((Nat.toDigits 10 coefficient).reverse.dropWhile (· == '0')).reverse

/-- The text of a magnitude. -/
def Layout.magnitude (layout : Layout) (index : Nat) : List Char :=
  if index = 0 then '0' :: layout.wholeEnd
  else
    let (coefficient, power) := shortest index
    let digits := significant coefficient
    let point : Int := power + digitCount coefficient
    if layout.positional point then positionalText layout.wholeEnd digits point
    else exponentText layout.positiveMark digits point

/-- The text of a float in a layout. -/
def Layout.write (layout : Layout) (x : Float) : List Char :=
  match Binary64.ofFloat x with
  | .notANumber => nanText
  | .infinite negative => signed negative infinityText
  | .finite negative _ _ => signed negative (layout.magnitude (indexOf x))

/-- The layout of running text: never an exponent, and no point in a whole number. -/
def Layout.plain : Layout where
  positional _ := true
  wholeEnd := []
  positiveMark := []

end Kerf.Decimal
