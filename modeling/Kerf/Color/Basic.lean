import Kerf.Text.Blank

/-!
# Colors

A `Color` has four channels of eight bits. It is written as a hash and eight hexadecimal
digits, the opacity first.
-/

namespace Kerf

/-- A color with an opacity. -/
structure Color where
  red : UInt8
  green : UInt8
  blue : UInt8
  alpha : UInt8
  deriving DecidableEq, Repr

namespace Color

/-- An opaque color. -/
def opaqueOf (red green blue : UInt8) : Color := ⟨red, green, blue, 255⟩

def black : Color := opaqueOf 0 0 0

/-- The color of what is not painted. -/
def transparent : Color := ⟨0, 0, 0, 0⟩

instance : Inhabited Color := ⟨black⟩

/-- Whether nothing of a color is seen. -/
def isTransparent (color : Color) : Bool :=
  color.alpha == 0

/-- The hexadecimal digit of a number below sixteen. -/
def hexDigit (n : Nat) : Char :=
  if n < 10 then Char.ofNat ('0'.toNat + n) else Char.ofNat ('A'.toNat + (n - 10))

/-- The two hexadecimal digits of a channel. -/
def hexByte (channel : UInt8) : List Char :=
  [hexDigit (channel.toNat / 16), hexDigit (channel.toNat % 16)]

/-- The text of a color. -/
def text (color : Color) : List Char :=
  '#' :: (hexByte color.alpha ++ hexByte color.red ++ hexByte color.green ++ hexByte color.blue)

end Color

end Kerf
