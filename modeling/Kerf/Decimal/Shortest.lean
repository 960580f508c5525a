import Kerf.Decimal.Binary64

/-!
# The fewest digits that read back

`shortest index` gives the digits of the shortest decimal that is read as the magnitude at
an index (`Decimal.nearestToDecimal`); among decimals of that length it is the one nearest
to the magnitude, and of two equally near the greater. Lengths are tried in turn. On the
grid of decimals of one length, a magnitude has two neighbours, and if any point of the
grid reads back then one of these does. No more than seventeen digits are ever needed; the
exact expansion stands behind them so that the result reads back by construction.
-/

namespace Kerf.Decimal

/-- How many decimal digits a number has. -/
def digitCount (n : Nat) : Nat :=
  (Nat.toDigits 10 n).length

/-- Where the decimal point of a positive quotient stands: the quotient is at least
`10 ^ (point - 1)` and below `10 ^ point`. -/
def pointOf (num den : Nat) : Int :=
  if den ≤ num then digitCount (num / den) else 1 - (digitCount ((den - 1) / num) : Int)

/-- A positive quotient in units of `10 ^ power`, as a numerator and a denominator. -/
def inUnits (num den : Nat) (power : Int) : Nat × Nat :=
  if 0 ≤ power then (num, den * Nat.pow 10 power.toNat)
  else (num * Nat.pow 10 (-power).toNat, den)

/-- Of the two whole numbers next to a quotient, the nearer one that is accepted; a tie
goes up. -/
def pick? (accepted : Nat → Bool) (num den : Nat) : Option Nat :=
  let below := num / den
  if accepted below && (2 * (num % den) < den || !accepted (below + 1)) then some below
  else if accepted (below + 1) then some (below + 1)
  else none

theorem pick?_accepted {accepted : Nat → Bool} {num den found : Nat}
    (h : pick? accepted num den = some found) : accepted found = true := by
  simp only [pick?] at h
  split at h
  · next hb =>
    cases h
    exact (Bool.and_eq_true .. ▸ hb).1
  · split at h
    · next hb =>
      cases h
      exact hb
    · cases h

/-- Whether a decimal reads back as the magnitude at an index. -/
def readsBack (index : Nat) (power : Int) (coefficient : Nat) : Bool :=
  nearestToDecimal coefficient power == index

/-- The decimal with `length` digits that reads back as the magnitude at an index, as a
coefficient and a power of ten, if there is one. -/
def ofLength? (index num den length : Nat) : Option (Nat × Int) :=
  let power : Int := pointOf num den - length
  let (n, d) := inUnits num den power
  (pick? (readsBack index power) n d).map fun coefficient => (coefficient, power)

theorem readsBack_of_ofLength? {index num den length : Nat} {found : Nat × Int}
    (h : ofLength? index num den length = some found) :
    readsBack index found.2 found.1 = true := by
  obtain ⟨coefficient, hc, rfl⟩ := Option.map_eq_some_iff.mp h
  exact pick?_accepted hc

/-- All digits of a magnitude. -/
def exactDecimal (mantissa : Nat) (exponent : Int) : Nat × Int :=
  if 0 ≤ exponent then (mantissa * Nat.pow 2 exponent.toNat, 0)
  else (mantissa * Nat.pow 5 (-exponent).toNat, exponent)

/-- The shortest decimal that reads back as the magnitude at an index. -/
def shortest (index : Nat) : Nat × Int :=
  let (num, den) := quotient (mantissa index) (exponent index)
  ((List.range' 1 17).findSome? (ofLength? index num den)).getD
    (exactDecimal (mantissa index) (exponent index))

/-- A shortest decimal reads back, if the exact expansion does. -/
theorem readsBack_shortest {index : Nat}
    (h : readsBack index (exactDecimal (mantissa index) (exponent index)).2
      (exactDecimal (mantissa index) (exponent index)).1 = true) :
    readsBack index (shortest index).2 (shortest index).1 = true := by
  unfold shortest
  cases hs : (List.range' 1 17).findSome? (ofLength? index (quotient (mantissa index)
      (exponent index)).1 (quotient (mantissa index) (exponent index)).2) with
  | none => simpa [hs] using h
  | some found =>
    obtain ⟨length, -, hlength⟩ := List.exists_of_findSome?_eq_some hs
    simpa [hs] using readsBack_of_ofLength? hlength

end Kerf.Decimal
