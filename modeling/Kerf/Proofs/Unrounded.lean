import Mathlib
import Kerf.Proofs.Decimal.Characters
import Kerf.Proofs.Exact
import Kerf.Setup.Basic

/-!
# Arithmetic without rounding

Floats are real numbers, infinities and what is no number, and their operations round to
the nearest float. `Unrounded` is the same arithmetic over all real numbers, so nothing is
rounded and nothing overflows; there is one zero only. Settings and texts that name no
finite number can be given to it as they can to floats.

- `Unrounded.finite_add`, `finite_sub`, ...: among real numbers, the operations are those
  of the real numbers. A quotient needs a divisor that is not zero, and a root a radicand
  that is not negative.
- `Unrounded.finite_lt_iff`, `finite_le_iff`: so are the comparisons.
- `Unrounded.isFinite_and_pos_iff`: which values are finite and positive.
- `Unrounded.ofNumeral`: a numeral is read as exactly what it says.
-/

namespace Kerf

/-- A real number, or what arithmetic gives in its place. -/
inductive Unrounded where
  | notANumber
  | infinite (negative : Bool)
  | finite (value : ℝ)

namespace Unrounded

/-! ## Operations -/

/-- The infinity that has a sign times that of a factor. -/
noncomputable def unbounded (negative : Bool) (factor : ℝ) : Unrounded :=
  if factor = 0 then notANumber else infinite (negative != decide (factor < 0))

/-- A sum. Infinities of both signs have none. -/
def add : Unrounded → Unrounded → Unrounded
  | finite a, finite b => finite (a + b)
  | infinite s, infinite t => if s = t then infinite s else notANumber
  | infinite s, finite _ => infinite s
  | finite _, infinite s => infinite s
  | _, _ => notANumber

/-- The opposite of a value. -/
def neg : Unrounded → Unrounded
  | notANumber => notANumber
  | infinite s => infinite !s
  | finite a => finite (-a)

/-- A product. Zero and an infinity have none. -/
noncomputable def mul : Unrounded → Unrounded → Unrounded
  | finite a, finite b => finite (a * b)
  | infinite s, infinite t => infinite (s != t)
  | infinite s, finite b => unbounded s b
  | finite a, infinite s => unbounded s a
  | _, _ => notANumber

/-- A quotient. By zero, it is infinite unless the dividend is zero as well. -/
noncomputable def div : Unrounded → Unrounded → Unrounded
  | finite a, finite b => if b = 0 then unbounded false a else finite (a / b)
  | infinite s, finite b => infinite (s != decide (b < 0))
  | finite _, infinite _ => finite 0
  | _, _ => notANumber

/-- The order of values. What is no number is not below anything, and nothing is below it. -/
def lt : Unrounded → Unrounded → Prop
  | finite a, finite b => a < b
  | infinite s, infinite t => s = true ∧ t = false
  | infinite s, finite _ => s = true
  | finite _, infinite s => s = false
  | _, _ => False

/-- A value is at most itself and what it is below; what is no number is not even that. -/
def le (a b : Unrounded) : Prop :=
  lt a b ∨ a = b ∧ a ≠ notANumber

/-- The size of a value. -/
def abs : Unrounded → Unrounded
  | notANumber => notANumber
  | infinite _ => infinite false
  | finite a => finite |a|

/-- The root of a value, if it is not negative. -/
noncomputable def sqrt : Unrounded → Unrounded
  | finite a => if a < 0 then notANumber else finite √a
  | infinite false => infinite false
  | _ => notANumber

/-- A function of angles, which has no limit at the infinities. -/
def angular (f : ℝ → ℝ) : Unrounded → Unrounded
  | finite a => finite (f a)
  | _ => notANumber

/-- The direction of an infinity on its axis. -/
def direction (negative : Bool) : ℝ :=
  if negative then -1 else 1

/-- The angle of a point, or its limit on the way to a point that is infinitely far off. -/
noncomputable def atan2 : Unrounded → Unrounded → Unrounded
  | finite y, finite x => finite (Complex.arg ⟨x, y⟩)
  | finite y, infinite s => finite (if s then (if y < 0 then -Real.pi else Real.pi) else 0)
  | infinite s, finite _ => finite (Complex.arg ⟨0, direction s⟩)
  | infinite s, infinite t => finite (Complex.arg ⟨direction t, direction s⟩)
  | _, _ => notANumber

/-- Whether a value is a real number. -/
def isFinite : Unrounded → Bool
  | finite _ => true
  | _ => false

/-- The real number that a value is. -/
def real? : Unrounded → Option ℝ
  | finite a => some a
  | _ => none

noncomputable instance : Scalar Unrounded where
  add := add
  sub := fun a b => add a (neg b)
  mul := mul
  div := div
  neg := neg
  lt := lt
  le := le
  natCast := fun n => finite n
  ofScientific := fun digits negative exponent =>
    finite (OfScientific.ofScientific digits negative exponent)
  decidableLT := Classical.decRel _
  decidableLE := Classical.decRel _
  abs := abs
  sqrt := sqrt
  sin := angular Real.sin
  cos := angular Real.cos
  atan2 := atan2
  pi := finite Scalar.pi
  radiansPerDegree := finite Scalar.radiansPerDegree
  isFinite := isFinite

/-! ## Real numbers among the values -/

section Finite

variable (a b : ℝ)

@[simp] theorem finite_add : finite a + finite b = finite (a + b) := rfl

@[simp] theorem finite_sub : finite a - finite b = finite (a - b) :=
  congrArg finite (sub_eq_add_neg a b).symm

@[simp] theorem finite_mul : finite a * finite b = finite (a * b) := rfl

theorem finite_div {b : ℝ} (hb : b ≠ 0) : finite a / finite b = finite (a / b) :=
  if_neg hb

theorem sqrt_finite {a : ℝ} (ha : 0 ≤ a) : Scalar.sqrt (finite a) = finite √a :=
  if_neg (not_lt.mpr ha)

@[simp] theorem finite_lt_iff : finite a < finite b ↔ a < b := Iff.rfl

@[simp] theorem finite_le_iff : finite a ≤ finite b ↔ a ≤ b := by
  have hle : finite a ≤ finite b ↔ a < b ∨ finite a = finite b ∧ finite a ≠ notANumber :=
    Iff.rfl
  rw [hle, le_iff_lt_or_eq, finite.injEq]
  simp

@[simp] theorem isFinite_finite : Scalar.isFinite (finite a) = true := rfl

theorem ofScientific_eq (digits : ℕ) (negative : Bool) (exponent : ℕ) :
    (OfScientific.ofScientific digits negative exponent : Unrounded) =
      finite (OfScientific.ofScientific digits negative exponent) := rfl

end Finite

theorem zero_eq : (0.0 : Unrounded) = finite 0 := by
  rw [ofScientific_eq]
  norm_num

/-- The finite and positive values. -/
theorem isFinite_and_pos_iff {a : Unrounded} :
    Scalar.isFinite a = true ∧ 0.0 < a ↔ ∃ r : ℝ, 0 < r ∧ a = finite r := by
  rw [zero_eq]
  constructor
  · rintro ⟨hfinite, hpos⟩
    cases a with
    | notANumber | infinite => cases hfinite
    | finite r => exact ⟨r, hpos, rfl⟩
  · rintro ⟨r, hr, rfl⟩
    exact ⟨rfl, hr⟩

/-- Nothing changes when zero is added to it. -/
theorem add_zero (a : Unrounded) : a + 0.0 = a := by
  rw [zero_eq]
  cases a with
  | notANumber => rfl
  | infinite s => rfl
  | finite r => simp

/-! ## Numbers as text -/

/-- What a numeral says. -/
noncomputable def ofNumeral : Decimal.Numeral → Unrounded
  | .notANumber => notANumber
  | .infinite negative => infinite negative
  | .decimal negative coefficient power =>
    finite ((if negative then -1 else 1) * coefficient * 10 ^ power)

/-- The natural number nearest to a real number that is not negative, a tie going to the
even one. -/
noncomputable def nearest (a : ℝ) : ℕ :=
  let below := a - ⌊a⌋₊
  let above := ⌊a⌋₊ + 1 - a
  if below < above ∨ below = above ∧ Even ⌊a⌋₊ then ⌊a⌋₊ else ⌊a⌋₊ + 1

/-- The decimal with a fixed number of places nearest to a value. -/
noncomputable def fixed (places : ℕ) : Unrounded → List Char
  | notANumber => Decimal.nanText
  | infinite negative => Decimal.signed negative Decimal.infinityText
  | finite a =>
    Decimal.signed (decide (a < 0)) (Decimal.pointed places (nearest (|a| * 10 ^ places)))

/-- Whether a value is a decimal with a number of places. -/
def HasPlaces (a : ℝ) (places : ℕ) : Prop :=
  ∃ units : ℤ, a * 10 ^ places = units

open Classical in
/-- The fewest places with which a value is a decimal. What is no decimal has as many
places as are ever written in programs. -/
noncomputable def fewestPlaces : Unrounded → ℕ
  | finite a => if h : ∃ places, HasPlaces a places then Nat.find h else Setup.maxPlaces
  | _ => 0

noncomputable instance : Written Unrounded where
  read? := fun text => (Decimal.Numeral.read? text).map ofNumeral
  plain := fun a => fixed (fewestPlaces a) a
  fixed := fixed

theorem mem_fixed {places : ℕ} {a : Unrounded} {c : Char} (h : c ∈ fixed places a) :
    Decimal.isNumberChar c = true := by
  cases a with
  | notANumber => exact Decimal.mem_nanText c h
  | infinite s => exact Decimal.mem_signed Decimal.mem_infinityText h
  | finite r => exact Decimal.mem_signed (fun _ => Decimal.mem_pointed) h

instance : Written.Compact Unrounded where
  mem_plain := mem_fixed
  mem_fixed := mem_fixed

end Unrounded

end Kerf
