import Mathlib.Tactic.Ring
import Kerf.Proofs.Decimal.Encoding
import Kerf.Proofs.Decimal.Literal
import Kerf.Proofs.Decimal.Nearest

/-!
# Floats as they are written

In a layout that tells floats from whole numbers (`Layout.IsPointed`), a finite float is
written as a literal that the strict grammars of data formats admit (`Literal.IsStrict`)
and whose value is the float itself (`Layout.exists_literal`). The digits are those of a
shortest decimal without the zeros at its end, and wherever the point is put, the number
that they stand for stays the same. A run of digits is told by its value up to the zeros
in front (`IsDigits.digitsValue_eq_iff`).
-/

namespace Kerf.Decimal

/-! ## Values of digits -/

theorem foldl_digits (digits : List Char) (value : Nat) :
    digits.foldl (fun value digit => 10 * value + digitValue digit) value =
      value * 10 ^ digits.length + digitsValue digits := by
  induction digits generalizing value with
  | nil => simp [digitsValue]
  | cons digit digits ih =>
    rw [digitsValue, List.foldl_cons, List.foldl_cons, ih, ih (10 * 0 + digitValue digit),
      List.length_cons, Nat.pow_succ]
    ring

theorem digitsValue_append (a b : List Char) :
    digitsValue (a ++ b) = digitsValue a * 10 ^ b.length + digitsValue b := by
  rw [digitsValue, List.foldl_append]
  exact foldl_digits b (digitsValue a)

theorem digitsValue_replicate (n : Nat) : digitsValue (List.replicate n '0') = 0 := by
  induction n with
  | zero => rfl
  | succ n ih => rw [List.replicate_succ', digitsValue_append, ih]; rfl

/-- Zeros in front do not change the value of digits. -/
theorem digitsValue_zeros_append (zeros : Nat) (digits : List Char) :
    digitsValue (List.replicate zeros '0' ++ digits) = digitsValue digits := by
  rw [digitsValue_append, digitsValue_replicate, Nat.zero_mul, Nat.zero_add]

theorem digitsValue_toDigits (n : Nat) : digitsValue (Nat.toDigits 10 n) = n := by
  induction n using Nat.strongRecOn with
  | ind n ih =>
    have hdigit : ∀ d < 10, digitsValue [d.digitChar] = d := by decide
    by_cases hsmall : n < 10
    · rw [Nat.toDigits_of_lt_base hsmall]
      exact hdigit n hsmall
    · rw [Nat.toDigits_of_base_le (by omega) (by omega), digitsValue_append,
        ih (n / 10) (by omega), hdigit (n % 10) (by omega)]
      show n / 10 * 10 + n % 10 = n
      omega

theorem digitsValue_concat (digits : List Char) (last : Char) :
    digitsValue (digits ++ [last]) = digitsValue digits * 10 + digitValue last := by
  rw [digitsValue_append, List.length_singleton, Nat.pow_one]
  simp [digitsValue]

/-- A digit is the one that its value is written with. -/
theorem digitChar_digitValue {c : Char} (h : c.isDigit = true) :
    digitValue c < 10 ∧ (digitValue c).digitChar = c := by
  obtain ⟨hlow, hhigh⟩ := Text.toNat_of_isDigit h
  have hzero : '0'.toNat = 48 := rfl
  have hsmall : digitValue c < 10 := by
    rw [digitValue, hzero]
    omega
  have hall : ∀ d < 10, d.digitChar.toNat = 48 + d := by decide
  refine ⟨hsmall, ?_⟩
  rw [← Char.toNat_inj, hall _ hsmall, digitValue, hzero]
  omega

/-- A run of digits is the digits of its value, with zeros in front. -/
theorem IsDigits.exists_eq_zeros_append {digits : List Char} (h : IsDigits digits) :
    ∃ zeros, digits = List.replicate zeros '0' ++ Nat.toDigits 10 (digitsValue digits) := by
  obtain ⟨hne, hdigits⟩ := h
  -- digits are taken off where the digits of a number are put on, at the end
  induction digits using List.reverseRecOn with
  | nil => exact absurd rfl hne
  | append_singleton front last ih =>
    obtain ⟨hfront, hlast⟩ := List.forall_mem_append.mp hdigits
    obtain ⟨hsmall, hchar⟩ := digitChar_digitValue (hlast last (List.mem_singleton_self last))
    rw [digitsValue_concat]
    by_cases hzero : digitsValue front = 0
    · -- there is one digit in the value, and what is in front of it are zeros
      have hzeros : ∃ zeros, front = List.replicate zeros '0' := by
        by_cases hnil : front = []
        · exact ⟨0, hnil⟩
        · obtain ⟨zeros, hzeros⟩ := ih hnil hfront
          rw [hzero, Nat.toDigits_zero, ← List.replicate_succ'] at hzeros
          exact ⟨zeros + 1, hzeros⟩
      obtain ⟨zeros, rfl⟩ := hzeros
      refine ⟨zeros, ?_⟩
      rw [hzero, Nat.zero_mul, Nat.zero_add, Nat.toDigits_of_lt_base hsmall, hchar]
    · have hnil : front ≠ [] := by
        rintro rfl
        exact hzero rfl
      have hdiv : (digitsValue front * 10 + digitValue last) / 10 = digitsValue front := by
        omega
      have hmod : (digitsValue front * 10 + digitValue last) % 10 = digitValue last := by omega
      obtain ⟨zeros, hzeros⟩ := ih hnil hfront
      refine ⟨zeros, ?_⟩
      rw [Nat.toDigits_of_base_le (by omega) (by omega), hdiv, hmod, hchar,
        ← List.append_assoc, ← hzeros]

/-- Runs of digits with a value differ in the zeros in front only. -/
theorem IsDigits.digitsValue_eq_iff {digits : List Char} (h : IsDigits digits) {n : Nat} :
    digitsValue digits = n ↔ ∃ zeros, digits = List.replicate zeros '0' ++
      Nat.toDigits 10 n := by
  constructor
  · rintro rfl
    exact h.exists_eq_zeros_append
  · rintro ⟨zeros, rfl⟩
    rw [digitsValue_zeros_append, digitsValue_toDigits]

/-- The first digit of a number is no zero, unless the number is zero. -/
theorem head?_toDigits_ne_zero {n : Nat} (h : n ≠ 0) :
    (Nat.toDigits 10 n).head? ≠ some '0' := by
  induction n using Nat.strongRecOn with
  | ind n ih =>
    by_cases hsmall : n < 10
    · rw [Nat.toDigits_of_lt_base hsmall]
      have hall : ∀ d < 10, d ≠ 0 → [d.digitChar].head? ≠ some '0' := by decide
      exact hall n hsmall h
    · rw [Nat.toDigits_of_base_le (by omega) (by omega),
        List.head?_append_of_ne_nil _ Nat.toDigits_ne_nil]
      exact ih (n / 10) (by omega) (by omega)

/-- All that is left out of the digits of a number are zeros at their end. -/
theorem toDigits_eq_significant_append (n : Nat) :
    ∃ zeros, Nat.toDigits 10 n = significant n ++ List.replicate zeros '0' := by
  let reversed := (Nat.toDigits 10 n).reverse
  have hzeros : reversed.takeWhile (· == '0') =
      List.replicate (reversed.takeWhile (· == '0')).length '0' := by
    refine List.eq_replicate_iff.mpr ⟨rfl, fun c hc => ?_⟩
    have hzero := List.mem_takeWhile_imp hc
    exact beq_iff_eq.mp hzero
  refine ⟨(reversed.takeWhile (· == '0')).length, ?_⟩
  calc Nat.toDigits 10 n = reversed.reverse := (List.reverse_reverse _).symm
    _ = (reversed.takeWhile (· == '0') ++ reversed.dropWhile (· == '0')).reverse := by
      rw [List.takeWhile_append_dropWhile]
    _ = significant n ++ List.replicate (reversed.takeWhile (· == '0')).length '0' := by
      rw [hzeros, List.reverse_append, List.reverse_replicate, List.length_replicate]
      rfl

/-- The number that digits stand for with the point at a position counted from the first
digit. -/
def valueAt (digits : List Char) (point : Int) : ℚ :=
  digitsValue digits * 10 ^ (point - digits.length)

/-- Without the zeros at their end the digits of a coefficient stand for the same number. -/
theorem valueAt_significant (coefficient : Nat) (power : Int) :
    valueAt (significant coefficient) (power + digitCount coefficient) =
      coefficient * 10 ^ power := by
  obtain ⟨zeros, hdigits⟩ := toDigits_eq_significant_append coefficient
  have hlength : digitCount coefficient = (significant coefficient).length + zeros := by
    rw [digitCount, hdigits, List.length_append, List.length_replicate]
  have hvalue : coefficient = digitsValue (significant coefficient) * 10 ^ zeros := by
    conv_lhs => rw [← digitsValue_toDigits coefficient, hdigits, digitsValue_append,
      digitsValue_replicate, List.length_replicate, Nat.add_zero]
  have hpower : power + digitCount coefficient - (significant coefficient).length =
      zeros + power := by omega
  rw [valueAt, hpower, zpow_add₀ (by norm_num), zpow_natCast, ← mul_assoc]
  conv_rhs => rw [hvalue]
  push_cast
  rfl

/-! ## Literals -/

namespace Literal

variable (literal : Literal)

/-- The digits of a literal as a whole number. -/
def coefficient : Nat :=
  digitsValue (literal.whole ++ literal.fraction.getD [])

/-- The power of ten that the digits of a literal are counted in. -/
def power : Int :=
  literal.exponent.elim 0 Exponent.value - (literal.fraction.getD []).length

theorem value_eq :
    literal.value =
      ofIndex literal.sign.isMinus (nearestToDecimal literal.coefficient literal.power) := rfl

/-- What data formats demand of a number: no plus sign, no zeros in front of the digits,
and digits on both sides of the point if there is one. -/
structure IsStrict : Prop where
  sign : literal.sign ≠ .plus
  whole : literal.whole = ['0'] ∨ ∃ c rest, literal.whole = c :: rest ∧ c ≠ '0'
  fraction : literal.fraction ≠ some []

/-- A strict literal starts with a digit or with a minus sign. -/
theorem IsStrict.exists_text_eq_cons {literal : Literal} (hstrict : literal.IsStrict) :
    ∃ c tail, literal.text = c :: tail ∧ ∀ d : Char, d.isDigit = false → d ≠ '-' → c ≠ d := by
  have hwhole : literal.whole ≠ [] := by
    rcases hstrict.whole with hzero | ⟨c, rest, hcons, -⟩
    · rw [hzero]
      exact List.cons_ne_nil _ _
    · rw [hcons]
      exact List.cons_ne_nil _ _
  obtain ⟨c, digits, hcons⟩ := List.exists_cons_of_ne_nil hwhole
  have hc : c.isDigit = true :=
    literal.isDigit_whole c (by rw [hcons]; exact List.mem_cons_self)
  rw [Parts.text, Parts.unsigned, hcons]
  cases hsign : literal.sign with
  | plus => exact absurd hsign hstrict.sign
  | minus => exact ⟨'-', _, rfl, fun _ _ hminus => hminus.symm⟩
  | unsigned =>
    refine ⟨c, _, rfl, ?_⟩
    rintro d hdigit - rfl
    rw [hdigit] at hc
    cases hc

/-- Whether there is a point or an exponent, by which data formats tell a float from a
whole number. -/
def IsReal : Prop :=
  literal.fraction.isSome = true ∨ literal.exponent.isSome = true

/-- What comes behind a literal in data, if anything does: a comma or a line feed. -/
def Stops (rest : List Char) : Prop :=
  ∀ c ∈ rest.head?, c = ',' ∨ c = '\n'

theorem stops_nil : Stops [] := nofun

theorem stops_cons {c : Char} (hc : c = ',' ∨ c = '\n') (rest : List Char) :
    Stops (c :: rest) := by
  rintro _ ⟨⟩
  exact hc

/-- What can come behind the digits after the point. -/
theorem mem_head?_exponentText_append {rest : List Char} (hrest : Stops rest) {c : Char}
    (hc : c ∈ (literal.exponentText ++ rest).head?) :
    c = 'e' ∨ c = 'E' ∨ c = ',' ∨ c = '\n' := by
  rw [List.head?_append, Option.mem_def, Option.or_eq_some_iff] at hc
  rcases hc with hexponent | ⟨-, hc⟩
  · rcases literal.eq_of_mem_head?_exponentText hexponent with rfl | rfl <;> simp
  · rcases hrest c hc with rfl | rfl <;> simp

/-- What can come behind the digits before the point. -/
theorem mem_head?_fractionText_append {rest : List Char} (hrest : Stops rest) {c : Char}
    (hc : c ∈ (literal.fractionText ++ (literal.exponentText ++ rest)).head?) :
    c = '.' ∨ c = 'e' ∨ c = 'E' ∨ c = ',' ∨ c = '\n' := by
  rcases literal.eq_of_mem_head?_append hc with rfl | hc
  · exact .inl rfl
  · exact .inr (literal.mem_head?_exponentText_append hrest hc)

/-- A whole number as it is written. -/
def ofNat (n : Nat) : Literal where
  sign := .unsigned
  whole := Nat.toDigits 10 n
  fraction := none
  exponent := none
  isDigit_whole := fun _ => mem_toDigits
  isDigit_fraction := Parts.isDigit_of_mem_none
  has_digit := .inl Nat.toDigits_ne_nil

theorem isStrict_ofNat (n : Nat) : (ofNat n).IsStrict where
  sign := nofun
  whole := by
    by_cases hzero : n = 0
    · exact .inl (hzero ▸ rfl)
    · obtain ⟨c, rest, hcons⟩ :=
        List.exists_cons_of_ne_nil (Nat.toDigits_ne_nil (n := n) (b := 10))
      refine .inr ⟨c, rest, hcons, ?_⟩
      rintro rfl
      exact head?_toDigits_ne_zero hzero (by rw [hcons]; rfl)
  fraction := nofun

end Literal

/-- Layouts in which whole numbers have a point and a zero after it, and exponents have no
marks but signs. -/
structure Layout.IsPointed (layout : Layout) : Prop where
  wholeEnd : layout.wholeEnd = ['.', '0']
  positiveMark : layout.positiveMark = [] ∨ layout.positiveMark = ['+']

/-- Without the zeros at its end, a number goes on starting with a digit that is no zero. -/
theorem exists_significant_eq_cons {coefficient : Nat} (h : coefficient ≠ 0) :
    ∃ c rest, significant coefficient = c :: rest ∧ c ≠ '0' := by
  obtain ⟨c, rest, hcons⟩ := List.exists_cons_of_ne_nil (isDigits_significant h).1
  obtain ⟨zeros, hdigits⟩ := toDigits_eq_significant_append coefficient
  refine ⟨c, rest, hcons, ?_⟩
  rintro rfl
  rw [hcons, List.cons_append] at hdigits
  exact head?_toDigits_ne_zero h (by rw [hdigits]; rfl)

/-- Digits with a point at a position, as what is written before the point and what is
written after it. -/
structure IsPointedAt (digits : List Char) (point : Int) (whole fraction : List Char) :
    Prop where
  isDigits_whole : IsDigits whole
  isDigits_fraction : IsDigits fraction
  start : whole = ['0'] ∨ ∃ c rest, whole = c :: rest ∧ c ≠ '0'
  text : positionalText ['.', '0'] digits point = whole ++ '.' :: fraction
  value : (digitsValue (whole ++ fraction) : ℚ) * 10 ^ (-(fraction.length : Int)) =
    valueAt digits point

section Pointed

variable {c : Char} {rest : List Char} {point : Int}

/-- In front of the digits, the point has a zero before it and zeros after it. -/
theorem isPointedAt_of_le_zero (hdigits : IsDigits (c :: rest)) (hpoint : point ≤ 0) :
    IsPointedAt (c :: rest) point ['0'] (List.replicate (-point).toNat '0' ++ c :: rest) where
  isDigits_whole := by decide
  isDigits_fraction := hdigits.zeros_append _
  start := .inl rfl
  text := by
    rw [positionalText, if_pos hpoint]
    rfl
  value := by
    have hzeros : digitsValue (['0'] ++ (List.replicate (-point).toNat '0' ++ c :: rest)) =
        digitsValue (c :: rest) :=
      (digitsValue_zeros_append 1 _).trans (digitsValue_zeros_append _ _)
    rw [hzeros, valueAt]
    congr 2
    rw [List.length_append, List.length_replicate]
    omega

/-- Behind the digits, the point has zeros before it and a zero after it. -/
theorem isPointedAt_of_length_le (hdigits : IsDigits (c :: rest)) (hc : c ≠ '0')
    (hpoint : ¬point ≤ 0) (hlength : (c :: rest).length ≤ point.toNat) :
    IsPointedAt (c :: rest) point
      (c :: rest ++ List.replicate (point.toNat - (c :: rest).length) '0') ['0'] where
  isDigits_whole := hdigits.append isDigit_of_mem_replicate
  isDigits_fraction := by decide
  start := .inr ⟨c, _, rfl, hc⟩
  text := by
    rw [positionalText, if_neg hpoint, if_pos hlength, List.append_assoc]
  value := by
    have hpower : point - (c :: rest).length =
        ((point.toNat - (c :: rest).length : Nat) : Int) := by omega
    have hlast : digitsValue ['0'] = 0 := rfl
    rw [digitsValue_append, digitsValue_append, digitsValue_replicate, List.length_replicate,
      valueAt, hpower, zpow_natCast, hlast, List.length_singleton, Nat.cast_one, zpow_neg_one]
    push_cast
    field_simp
    ring

/-- Among the digits, the point has the first of them before it and the others after it. -/
theorem isPointedAt_of_lt_length (hdigits : IsDigits (c :: rest)) (hc : c ≠ '0')
    (hpoint : ¬point ≤ 0) (hlength : ¬(c :: rest).length ≤ point.toNat) :
    IsPointedAt (c :: rest) point ((c :: rest).take point.toNat)
      ((c :: rest).drop point.toNat) := by
  have hcons : (c :: rest).take point.toNat = c :: rest.take (point.toNat - 1) :=
    List.take_cons (by omega)
  have hwhole : (c :: rest).take point.toNat ≠ [] := by
    rw [hcons]
    exact List.cons_ne_nil _ _
  have hfraction : (c :: rest).drop point.toNat ≠ [] := by
    rw [← List.length_pos_iff, List.length_drop]
    omega
  refine ⟨⟨hwhole, fun d hd => hdigits.2 d (List.mem_of_mem_take hd)⟩,
    ⟨hfraction, fun d hd => hdigits.2 d (List.mem_of_mem_drop hd)⟩, .inr ⟨c, _, hcons, hc⟩,
    ?_, ?_⟩
  · rw [positionalText, if_neg hpoint, if_neg hlength]
  · rw [List.take_append_drop, valueAt, List.length_drop]
    congr 2
    omega

/-- Wherever the point is put, there are digits on both sides of it. -/
theorem exists_isPointedAt (hdigits : IsDigits (c :: rest)) (hc : c ≠ '0') (point : Int) :
    ∃ whole fraction, IsPointedAt (c :: rest) point whole fraction := by
  by_cases hpoint : point ≤ 0
  · exact ⟨_, _, isPointedAt_of_le_zero hdigits hpoint⟩
  · by_cases hlength : (c :: rest).length ≤ point.toNat
    · exact ⟨_, _, isPointedAt_of_length_le hdigits hc hpoint hlength⟩
    · exact ⟨_, _, isPointedAt_of_lt_length hdigits hc hpoint hlength⟩

end Pointed

/-- The sign of what is written is never a plus. -/
theorem ite_minus_ne_plus (negative : Bool) :
    (if negative then Sign.minus else .unsigned) ≠ .plus := by
  split <;> decide

/-- Digits in positional notation, which keep the number that they stand for. -/
theorem exists_literal_positionalText {c : Char} {rest : List Char}
    (hdigits : IsDigits (c :: rest)) (hc : c ≠ '0') (point : Int) (negative : Bool) :
    ∃ literal : Literal, literal.unsigned = positionalText ['.', '0'] (c :: rest) point ∧
      literal.sign = (if negative then .minus else .unsigned) ∧ literal.IsStrict ∧
      literal.IsReal ∧
      (literal.coefficient : ℚ) * 10 ^ literal.power = valueAt (c :: rest) point := by
  obtain ⟨whole, fraction, hpointed⟩ := exists_isPointedAt hdigits hc point
  let literal : Literal :=
    { sign := if negative then .minus else .unsigned
      whole := whole
      fraction := some fraction
      exponent := none
      isDigit_whole := hpointed.isDigits_whole.2
      isDigit_fraction := fun digits h => Option.some.inj h ▸ hpointed.isDigits_fraction.2
      has_digit := .inl hpointed.isDigits_whole.1 }
  have hstrict : literal.IsStrict :=
    ⟨ite_minus_ne_plus negative, hpointed.start,
      fun h => hpointed.isDigits_fraction.1 (Option.some.inj h)⟩
  refine ⟨literal, ?_, rfl, hstrict, .inl rfl, ?_⟩
  · show whole ++ ('.' :: fraction ++ []) = _
    rw [hpointed.text, List.append_nil]
  · show (digitsValue (whole ++ fraction) : ℚ) * 10 ^ (0 - (fraction.length : Int)) = _
    rw [zero_sub]
    exact hpointed.value

/-- The exponent that stands for a power, with its mark in a layout. -/
theorem exists_exponent {positiveMark : List Char}
    (h : positiveMark = [] ∨ positiveMark = ['+']) (power : Int) :
    ∃ exponent : Exponent, exponent.value = power ∧ exponent.text =
      'e' :: ((if power < 0 then ['-'] else positiveMark) ++ Nat.toDigits 10 power.natAbs) := by
  obtain ⟨sign, htext, hminus⟩ : ∃ sign : Sign,
      sign.text = (if power < 0 then ['-'] else positiveMark) ∧
        (sign.isMinus = true ↔ power < 0) := by
    by_cases hpower : power < 0
    · exact ⟨.minus, (if_pos hpower).symm, iff_of_true rfl hpower⟩
    · rw [if_neg hpower]
      rcases h with rfl | rfl
      · exact ⟨.unsigned, rfl, iff_of_false Bool.false_ne_true hpower⟩
      · exact ⟨.plus, rfl, iff_of_false Bool.false_ne_true hpower⟩
  refine ⟨⟨'e', sign, Nat.toDigits 10 power.natAbs, .inl rfl, isDigits_toDigits _⟩, ?_, ?_⟩
  · unfold Exponent.value
    dsimp only
    rw [digitsValue_toDigits]
    split
    · next h => have hpower := hminus.mp h; omega
    · next h => have hpower := mt hminus.mpr h; omega
  · unfold Exponent.text
    rw [htext]

/-- Digits with an exponent, which keep the number that they stand for. -/
theorem exists_literal_exponentText {positiveMark : List Char}
    (hmark : positiveMark = [] ∨ positiveMark = ['+']) {c : Char} {rest : List Char}
    (hdigits : IsDigits (c :: rest)) (hc : c ≠ '0') (point : Int) (negative : Bool) :
    ∃ literal : Literal, literal.unsigned = exponentText positiveMark (c :: rest) point ∧
      literal.sign = (if negative then .minus else .unsigned) ∧ literal.IsStrict ∧
      literal.IsReal ∧
      (literal.coefficient : ℚ) * 10 ^ literal.power = valueAt (c :: rest) point := by
  obtain ⟨exponent, hexponent, htext⟩ := exists_exponent hmark (point - 1)
  have hrest : ∀ d ∈ rest, d.isDigit = true := fun d hd =>
    hdigits.2 d (List.mem_cons_of_mem c hd)
  let literal : Literal :=
    { sign := if negative then .minus else .unsigned
      whole := [c]
      fraction := if rest = [] then none else some rest
      exponent := some exponent
      isDigit_whole := fun d hd => hdigits.2 d (List.mem_singleton.mp hd ▸ List.mem_cons_self)
      isDigit_fraction := by
        intro digits h
        split at h
        · cases h
        · cases h
          exact hrest
      has_digit := .inl (List.cons_ne_nil c []) }
  have hfraction : literal.fraction.getD [] = rest := by
    show (if rest = [] then none else some rest : Option (List Char)).getD [] = rest
    split
    · next h => exact h.symm
    · rfl
  refine ⟨literal, ?_, rfl, ⟨?_, .inr ⟨c, [], rfl, hc⟩, ?_⟩, .inr rfl, ?_⟩
  · show [c] ++
      ((if rest = [] then none else some rest : Option (List Char)).elim [] ('.' :: ·) ++
      exponent.text) = _
    have hpointed : (if (c :: rest).length ≤ 1 then [] else '.' :: (c :: rest).drop 1) =
        (if rest = [] then none else some rest : Option (List Char)).elim [] ('.' :: ·) := by
      cases rest with
      | nil => rfl
      | cons d rest => simp
    rw [htext, exponentText, hpointed, List.append_assoc]
    rfl
  · exact ite_minus_ne_plus negative
  · show (if rest = [] then none else some rest : Option (List Char)) ≠ some []
    split
    · exact nofun
    · next hnil => exact fun h => hnil (Option.some.inj h)
  · show (digitsValue ([c] ++ literal.fraction.getD []) : ℚ) *
      10 ^ (exponent.value - ((literal.fraction.getD []).length : Int)) = _
    rw [hfraction, hexponent, valueAt, List.singleton_append, List.length_cons]
    congr 2
    omega

/-! ## Floats -/

/-- The magnitude at an index is written as a literal that is read as it. -/
theorem Layout.exists_literal_magnitude {layout : Layout} (hlayout : layout.IsPointed)
    {index : Nat} (hfinite : index < infinityIndex) (negative : Bool) :
    ∃ literal : Literal, literal.unsigned = layout.magnitude index ∧
      literal.sign = (if negative then .minus else .unsigned) ∧ literal.IsStrict ∧
      literal.IsReal ∧
      nearestToDecimal literal.coefficient literal.power = index := by
  unfold Layout.magnitude
  by_cases hindex : index = 0
  · rw [if_pos hindex, hlayout.wholeEnd, hindex]
    have hzero : ∀ c ∈ ['0'], c.isDigit = true := List.all_eq_true.mp rfl
    let parts : Parts :=
      ⟨if negative then .minus else .unsigned, ['0'], some ['0'], none, hzero,
      fun digits hdigits => Option.some.inj hdigits ▸ hzero⟩
    have hfraction : parts.fraction ≠ some [] := by
      show some ['0'] ≠ some []
      decide
    exact ⟨⟨parts, .inl (List.cons_ne_nil _ _)⟩, rfl, rfl,
      ⟨ite_minus_ne_plus negative, .inl rfl, hfraction⟩, .inl rfl, rfl⟩
  · rw [if_neg hindex]
    have hreads := nearestToDecimal_shortest hindex hfinite
    have hne := shortest_ne_zero hindex
    generalize shortest index = decimal at hreads hne
    obtain ⟨coefficient, power⟩ := decimal
    obtain ⟨c, rest, hcons, hc⟩ := exists_significant_eq_cons hne
    have hdigits := isDigits_significant hne
    have hvalue := valueAt_significant coefficient power
    rw [hcons] at hdigits hvalue
    dsimp only
    rw [hcons, hlayout.wholeEnd]
    split
    · obtain ⟨literal, htext, hsign, hstrict, hreal, hsame⟩ :=
        exists_literal_positionalText hdigits hc (power + digitCount coefficient) negative
      exact ⟨literal, htext, hsign, hstrict, hreal,
        (nearestToDecimal_congr (hsame.trans hvalue)).trans hreads⟩
    · obtain ⟨literal, htext, hsign, hstrict, hreal, hsame⟩ :=
        exists_literal_exponentText hlayout.positiveMark hdigits hc
          (power + digitCount coefficient) negative
      exact ⟨literal, htext, hsign, hstrict, hreal,
        (nearestToDecimal_congr (hsame.trans hvalue)).trans hreads⟩

/-- **A finite float is written as a literal whose value it is.** -/
theorem Layout.exists_literal {layout : Layout} (hlayout : layout.IsPointed) {x : Float}
    (h : x.isFinite = true) :
    ∃ literal : Literal, literal.text = layout.write x ∧ literal.IsStrict ∧ literal.IsReal ∧
      literal.value = x := by
  obtain ⟨literal, htext, hsign, hstrict, hreal, hreads⟩ :=
    exists_literal_magnitude hlayout ((isFinite_iff x).mp h) (isNegative x)
  refine ⟨literal, ?_, hstrict, hreal, ?_⟩
  · rw [Layout.write, ofFloat_of_finite h, Parts.text, htext, hsign]
    cases isNegative x <;> rfl
  · rw [Literal.value_eq, hreads, hsign]
    have hminus : (if isNegative x then Sign.minus else .unsigned).isMinus = isNegative x := by
      cases isNegative x <;> rfl
    rw [hminus, ofIndex_indexOf h]

end Kerf.Decimal
