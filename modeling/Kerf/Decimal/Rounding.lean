/-!
# Rounding a quotient

`roundHalfEven num den` is the natural number nearest to `num / den`; a tie goes to the
even neighbour. `two_mul_roundHalfEven_le` and `le_two_mul_roundHalfEven` say "nearest"
without a fraction, `roundHalfEven_even_of_tie` says where a tie goes, and
`roundHalfEven_mul_right` that a whole quotient stays what it is.
-/

namespace Kerf.Decimal

/-- The natural number nearest to a quotient, a tie going to the even one. -/
def roundHalfEven (num den : Nat) : Nat :=
  let quotient := num / den
  let twice := 2 * (num % den)
  if twice < den then quotient
  else if den < twice then quotient + 1
  else if quotient % 2 = 0 then quotient
  else quotient + 1

theorem roundHalfEven_eq_or (num den : Nat) :
    roundHalfEven num den = num / den ∨ roundHalfEven num den = num / den + 1 := by
  simp only [roundHalfEven]
  split
  · exact .inl rfl
  · split
    · exact .inr rfl
    · split
      · exact .inl rfl
      · exact .inr rfl

/-- The rounded value is at most half a unit above the quotient. -/
theorem two_mul_roundHalfEven_le (num : Nat) {den : Nat} (h : 0 < den) :
    2 * (roundHalfEven num den * den) ≤ 2 * num + den := by
  have hdiv : den * (num / den) + num % den = num := Nat.div_add_mod num den
  have hmul : num / den * den = den * (num / den) := Nat.mul_comm ..
  have hsucc : (num / den + 1) * den = den * (num / den) + den := by
    rw [Nat.add_mul, Nat.one_mul, hmul]
  simp only [roundHalfEven]
  split
  · omega
  · split
    · omega
    · split <;> omega

/-- The rounded value is at most half a unit below the quotient. -/
theorem le_two_mul_roundHalfEven (num : Nat) {den : Nat} (h : 0 < den) :
    2 * num ≤ 2 * (roundHalfEven num den * den) + den := by
  have hdiv : den * (num / den) + num % den = num := Nat.div_add_mod num den
  have hmod : num % den < den := Nat.mod_lt _ h
  have hmul : num / den * den = den * (num / den) := Nat.mul_comm ..
  have hsucc : (num / den + 1) * den = den * (num / den) + den := by
    rw [Nat.add_mul, Nat.one_mul, hmul]
  simp only [roundHalfEven]
  split
  · omega
  · split
    · omega
    · split <;> omega

/-- A quotient halfway between two numbers is rounded to the even one. -/
theorem roundHalfEven_even_of_tie {num den : Nat} (h : 2 * (num % den) = den) :
    roundHalfEven num den % 2 = 0 := by
  simp only [roundHalfEven, h, Nat.lt_irrefl, if_false]
  split <;> omega

@[simp] theorem roundHalfEven_mul_right (n : Nat) {den : Nat} (h : 0 < den) :
    roundHalfEven (n * den) den = n := by
  simp [roundHalfEven, Nat.mul_div_cancel _ h, h]

end Kerf.Decimal
