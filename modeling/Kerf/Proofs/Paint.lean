import Mathlib
import Kerf.Paint
import Kerf.Proofs.Decimal.Faithful
import Kerf.Proofs.Decimal.Order

/-!
# Widths of strokes

The unit of a width is dropped by leaving out all characters that a unit may have,
wherever they stand. A number without an exponent has none of them, so it is kept whole.
Of an exponent the mark is dropped, and its digits run together with those before it
(`Literal.runTogether`); an exponent with a sign makes the width unreadable
(`Literal.readFloat?_unmarked_of_sign`).

- `filter_text`: what is left of a number is the number without the mark of its exponent
  (`Literal.unmarked`).
- `readWidth_of_unsigned`, `readWidth_of_sign`: what is read of a number with a unit and
  with blanks around both.
- `isFinite_readWidth`: a width is finite and not negative, whatever the text says.
-/

namespace Kerf

namespace Decimal.Literal

/-! ## Literals without the mark of their exponent -/

variable (literal : Literal)

/-- The digits of the exponent. -/
def exponentDigits : List Char :=
  literal.exponent.elim [] Exponent.digits

/-- The exponent as it is written, without its mark. -/
def exponentRest : List Char :=
  literal.exponent.elim [] fun exponent => exponent.sign.text ++ exponent.digits

/-- A literal as it is written, without the mark of its exponent. -/
def unmarked : List Char :=
  literal.sign.text ++ (literal.whole ++ (literal.fractionText ++ literal.exponentRest))

theorem isDigit_of_mem_exponentDigits {c : Char} (hc : c ∈ literal.exponentDigits) :
    c.isDigit = true := by
  unfold exponentDigits at hc
  cases hexponent : literal.exponent with
  | none =>
    rw [hexponent] at hc
    cases hc
  | some exponent =>
    rw [hexponent] at hc
    exact exponent.isDigits.2 c hc

/-- The literal in which the digits of the exponent continue those before it. -/
def runTogether : Literal where
  sign := literal.sign
  whole := if literal.fraction = none then literal.whole ++ literal.exponentDigits
    else literal.whole
  fraction := literal.fraction.map (· ++ literal.exponentDigits)
  exponent := none
  isDigit_whole := by
    intro c hc
    split at hc
    · exact (List.mem_append.mp hc).elim
        (literal.isDigit_whole c) literal.isDigit_of_mem_exponentDigits
    · exact literal.isDigit_whole c hc
  isDigit_fraction := by
    intro digits hdigits c hc
    obtain ⟨fraction, hfraction, rfl⟩ := Option.mem_map.mp hdigits
    exact (List.mem_append.mp hc).elim (literal.isDigit_fraction fraction hfraction c)
      literal.isDigit_of_mem_exponentDigits
  -- the digits are still there, with more behind them
  has_digit := by
    rcases literal.has_digit with hwhole | ⟨digits, hdigits, hne⟩
    · left
      split
      · exact List.append_ne_nil_of_left_ne_nil hwhole _
      · exact hwhole
    · exact .inr ⟨_, Option.mem_map_of_mem _ hdigits, List.append_ne_nil_of_left_ne_nil hne _⟩

theorem runTogether_of_exponent_eq_none (h : literal.exponent = none) :
    literal.runTogether = literal := by
  have hdigits : literal.exponentDigits = [] := by rw [exponentDigits, h, Option.elim_none]
  obtain ⟨⟨sign, whole, fraction, exponent, _, _⟩, _⟩ := literal
  obtain rfl : exponent = none := h
  simp [runTogether, hdigits]

/-- Digits without a sign continue those before them. -/
theorem unmarked_eq_text_runTogether
    (h : ∀ exponent ∈ literal.exponent, exponent.sign = .unsigned) :
    literal.unmarked = literal.runTogether.text := by
  have hrest : literal.exponentRest = literal.exponentDigits := by
    unfold exponentRest exponentDigits
    cases hexponent : literal.exponent with
    | none => rfl
    | some exponent =>
      have hsign : exponent.sign = .unsigned := h exponent hexponent
      simp [hsign, Sign.text]
  cases hfraction : literal.fraction <;>
    simp [unmarked, Parts.text, Parts.unsigned, Parts.fractionText, Parts.exponentText,
      runTogether, hrest, hfraction]

/-- A sign behind digits is not read. -/
theorem readFloat?_unmarked_of_sign {exponent : Exponent} (h : exponent ∈ literal.exponent)
    (hsign : exponent.sign ≠ .unsigned) : readFloat? literal.unmarked = none := by
  have hrest : literal.exponentRest = exponent.sign.text ++ exponent.digits := by
    rw [exponentRest, Option.mem_def.mp h, Option.elim_some]
  -- without its letter the exponent starts with the sign, where the number has ended
  obtain ⟨c, hc, hcons⟩ : ∃ c ∈ ['-', '+'], literal.exponentRest = c :: exponent.digits := by
    rw [hrest]
    cases hcase : exponent.sign with
    | unsigned => exact absurd hcase hsign
    | plus => exact ⟨'+', by decide, rfl⟩
    | minus => exact ⟨'-', by decide, rfl⟩
  have hall : ∀ c ∈ ['-', '+'], (c.isDigit = false ∧ c ≠ '.') ∧ ¬ (c = 'e' ∨ c = 'E') := by simp
  obtain ⟨hstop, hmark⟩ := hall c hc
  have hafter : ∀ d ∈ literal.exponentRest.head?, d.isDigit = false ∧ d ≠ '.' := by
    rw [hcons]
    rintro d ⟨⟩
    exact hstop
  rw [readFloat?, unmarked, literal.read?_append hafter, hcons, readExponent?, if_neg hmark]
  rfl

theorem isDigit_or_of_mem_exponentRest {c : Char} (hc : c ∈ literal.exponentRest) :
    c.isDigit = true ∨ c ∈ ['-', '+', '.'] := by
  unfold exponentRest at hc
  cases hexponent : literal.exponent with
  | none =>
    rw [hexponent] at hc
    cases hc
  | some exponent =>
    rw [hexponent] at hc
    rcases List.mem_append.mp hc with hsign | hdigit
    · exact .inr (Sign.mem_text hsign)
    · exact .inl (exponent.isDigits.2 c hdigit)

/-- Without the mark of its exponent, a literal has digits, signs and a point. -/
theorem isDigit_or_of_mem_unmarked {c : Char} (hc : c ∈ literal.unmarked) :
    c.isDigit = true ∨ c ∈ ['-', '+', '.'] := by
  simp only [unmarked, List.mem_append] at hc
  rcases hc with hsign | hwhole | hfraction | hexponent
  · exact .inr (Sign.mem_text hsign)
  · exact .inl (literal.isDigit_whole c hwhole)
  · exact (literal.isDigit_or_of_mem_fractionText hfraction).imp_right fun hpoint => by
      simp [hpoint]
  · exact literal.isDigit_or_of_mem_exponentRest hexponent

theorem isBlank_of_mem_unmarked {c : Char} (hc : c ∈ literal.unmarked) :
    Text.isBlank c = false := by
  have hall : ∀ c ∈ ['-', '+', '.'], Text.isBlank c = false := by simp [Text.isBlank]
  exact (literal.isDigit_or_of_mem_unmarked hc).elim Text.isBlank_of_isDigit (hall c)

end Decimal.Literal

namespace Paint

open Decimal (Sign Exponent Parts Literal)

/-! ## Dropping units -/

theorem isUnit_of_isDigit {c : Char} (h : c.isDigit = true) : isUnit c = false := by
  rw [isUnit, Bool.or_eq_false_iff, beq_eq_false_iff_ne]
  refine ⟨Bool.eq_false_iff.mpr fun hletter => ?_, ?_⟩
  · rw [Text.isDigit_of_isAlpha hletter] at h
    cases h
  · rintro rfl
    cases h

theorem isUnit_of_isBlank {c : Char} (h : Text.isBlank c = true) : isUnit c = false := by
  rw [isUnit, Text.isAlpha_of_isBlank h, Bool.false_or, beq_eq_false_iff_ne]
  rintro rfl
  cases h

theorem isUnit_of_mem_unmarked {literal : Literal} {c : Char} (hc : c ∈ literal.unmarked) :
    isUnit c = false := by
  have hall : ∀ c ∈ ['-', '+', '.'], isUnit c = false := by simp [isUnit]
  exact (literal.isDigit_or_of_mem_unmarked hc).elim isUnit_of_isDigit (hall c)

theorem filter_eq_self_of_isUnit {text : List Char} (h : ∀ c ∈ text, isUnit c = false) :
    (text.filter fun c => !isUnit c) = text :=
  List.filter_eq_self.mpr fun c hc => by rw [h c hc, Bool.not_false]

/-- What is left of a literal has no mark of an exponent. -/
theorem filter_text (literal : Literal) :
    (literal.text.filter fun c => !isUnit c) = literal.unmarked := by
  have hmark : ∀ exponent : Exponent, isUnit exponent.mark = true := by
    intro exponent
    rcases exponent.mark_eq with hmark | hmark <;> rw [hmark] <;> rfl
  have hexponent : (literal.exponentText.filter fun c => !isUnit c) =
      literal.exponentRest.filter fun c => !isUnit c := by
    unfold Parts.exponentText Literal.exponentRest
    cases literal.exponent with
    | none => rfl
    | some exponent => exact List.filter_cons_of_neg (by simp [hmark])
  have hkept : ∀ c ∈ literal.unmarked, isUnit c = false := fun _ => isUnit_of_mem_unmarked
  rw [← filter_eq_self_of_isUnit hkept]
  simp only [Parts.text, Parts.unsigned, Literal.unmarked, List.filter_append, hexponent]

/-! ## Widths -/

theorem readWidth_of_read?_eq_some {text : List Char} {width : Float}
    (h : Decimal.readFloat? (Text.trim (text.filter fun c => !isUnit c)) = some width) :
    readWidth (some text) = if width.isFinite then Scalar.max width 0.0 else 1.0 := by
  have hread : Written.read? (Text.trim (text.filter fun c => !isUnit c)) = some width := h
  simp only [readWidth, hread]
  rfl

theorem readWidth_of_read?_eq_none {text : List Char}
    (h : Decimal.readFloat? (Text.trim (text.filter fun c => !isUnit c)) = none) :
    readWidth (some text) = (1.0 : Float) := by
  have hread : (Written.read? (Text.trim (text.filter fun c => !isUnit c)) : Option Float) =
    none := h
  simp only [readWidth, hread]

section Surrounded

variable (literal : Literal) {unit before after : List Char}
    (hunit : ∀ c ∈ unit, isUnit c = true)
  (hbefore : ∀ c ∈ before, Text.isBlank c = true) (hafter : ∀ c ∈ after, Text.isBlank c = true)

include hunit hbefore hafter

/-- Of a literal with a unit and with blanks around both, the literal is left without the
mark of its exponent. -/
theorem trim_filter_surrounded :
    Text.trim ((before ++ (literal.text ++ unit ++ after)).filter fun c => !isUnit c) =
      literal.unmarked := by
  have hdropped : (unit.filter fun c => !isUnit c) = [] :=
    List.filter_eq_nil_iff.mpr fun c hc => by simp [hunit c hc]
  rw [List.filter_append, List.filter_append, List.filter_append, filter_text, hdropped,
    List.append_nil, filter_eq_self_of_isUnit fun c hc => isUnit_of_isBlank (hbefore c hc),
    filter_eq_self_of_isUnit fun c hc => isUnit_of_isBlank (hafter c hc)]
  exact Text.trim_surrounded hbefore
    (fun c hc => literal.isBlank_of_mem_unmarked (List.mem_of_mem_head? hc))
    (fun c hc => literal.isBlank_of_mem_unmarked (List.mem_of_mem_getLast? hc)) hafter

/-- Without a sign in its exponent, the literal is read with all digits run together. -/
theorem readWidth_of_unsigned (h : ∀ exponent ∈ literal.exponent, exponent.sign = .unsigned) :
    readWidth (some (before ++ (literal.text ++ unit ++ after))) =
      if literal.runTogether.value.isFinite then Scalar.max literal.runTogether.value 0.0
      else 1.0 := by
  refine readWidth_of_read?_eq_some ?_
  rw [trim_filter_surrounded literal hunit hbefore hafter,
    literal.unmarked_eq_text_runTogether h, Literal.readFloat?_text]

theorem readWidth_of_sign {exponent : Exponent} (hexponent : exponent ∈ literal.exponent)
    (hsign : exponent.sign ≠ .unsigned) :
    readWidth (some (before ++ (literal.text ++ unit ++ after))) = (1.0 : Float) := by
  refine readWidth_of_read?_eq_none ?_
  rw [trim_filter_surrounded literal hunit hbefore hafter,
    literal.readFloat?_unmarked_of_sign hexponent hsign]

end Surrounded

/-- A width is finite and not negative, whatever the text says. -/
theorem isFinite_readWidth (text : Option (List Char)) :
    (readWidth text : Float).isFinite = true ∧ (0.0 : Float) ≤ readWidth text := by
  have hzero : (0.0 : Float).isFinite = true := by decide +kernel
  have hone : (1.0 : Float).isFinite = true ∧ (0.0 : Float) ≤ 1.0 := by decide +kernel
  -- the width is one unless a finite number is read
  cases text with
  | none => exact hone
  | some text =>
    cases hread : Decimal.readFloat? (Text.trim (text.filter fun c => !isUnit c)) with
    | none =>
      rw [readWidth_of_read?_eq_none hread]
      exact hone
    | some width =>
      rw [readWidth_of_read?_eq_some hread]
      split
      · next hfinite => exact Decimal.isFinite_max hfinite hzero
      · exact hone

/-- **Reading widths.** Of a number with a unit and with blanks around both, the number is
read, and a negative one as zero, if it is finite and has no exponent. Otherwise the
digits of the exponent are read as if they continued those before it, and the width is one
if they have a sign. All widths are finite and not negative. -/
theorem readWidth_literal_unit (literal : Literal) {unit before after : List Char}
    (hunit : ∀ c ∈ unit, isUnit c = true) (hbefore : ∀ c ∈ before, Text.isBlank c = true)
    (hafter : ∀ c ∈ after, Text.isBlank c = true) :
    (literal.exponent = none →
      readWidth (some (before ++ (literal.text ++ unit ++ after))) =
        if literal.value.isFinite then Scalar.max literal.value 0.0 else 1.0) ∧
    (∀ exponent ∈ literal.exponent,
      readWidth (some (before ++ (literal.text ++ unit ++ after))) =
        if exponent.sign = .unsigned ∧ literal.runTogether.value.isFinite = true then
          Scalar.max literal.runTogether.value 0.0
        else 1.0) ∧
    ∀ text : Option (List Char),
      (readWidth text : Float).isFinite = true ∧ (0.0 : Float) ≤ readWidth text := by
  refine ⟨?_, ?_, isFinite_readWidth⟩
  -- without an exponent there is nothing to run together
  · intro hnone
    have hexponent : ∀ exponent ∈ literal.exponent, exponent.sign = .unsigned := by simp [hnone]
    rw [readWidth_of_unsigned literal hunit hbefore hafter hexponent,
      literal.runTogether_of_exponent_eq_none hnone]
  · intro exponent hexponent
    by_cases hsign : exponent.sign = .unsigned
    -- the literal has one exponent only
    · have hall : ∀ other ∈ literal.exponent, other.sign = .unsigned := by
        intro other hother
        rw [Option.mem_unique hother hexponent, hsign]
      rw [readWidth_of_unsigned literal hunit hbefore hafter hall]
      simp only [hsign, true_and]
    · rw [if_neg fun h => hsign h.1,
        readWidth_of_sign literal hunit hbefore hafter hexponent hsign]

/-- The number `1e3`. -/
def thousand : Literal :=
  { Literal.ofNat 1 with exponent := some ⟨'e', .unsigned, ['3'], .inl rfl, by decide⟩ }

/-- Thousand pixels, with a blank before them, are read as thirteen, and so are thirteen. -/
theorem readWidth_literal_unit_thousand :
    (∀ c ∈ ['p', 'x'], isUnit c = true) ∧ (∀ c ∈ [' '], Text.isBlank c = true) ∧
      readWidth (some [' ', '1', 'e', '3', 'p', 'x']) = (13.0 : Float) ∧
      readWidth (some [' ', '1', '3', 'p', 'x']) = (13.0 : Float) := by
  have hunit : ∀ c ∈ ['p', 'x'], isUnit c = true := by simp [isUnit]
  have hblank : ∀ c ∈ [' '], Text.isBlank c = true := by simp [Text.isBlank]
  have hnone := List.forall_mem_nil fun c => Text.isBlank c = true
  have hthousand := (readWidth_literal_unit thousand hunit hblank hnone).2.1 _ rfl
  have hthirteen := (readWidth_literal_unit thousand.runTogether hunit hblank hnone).1 rfl
  exact ⟨hunit, hblank, hthousand.trans (by decide +kernel),
    hthirteen.trans (by decide +kernel)⟩

/-- It is not the number that is read if it has an exponent, not even without a unit. -/
theorem not_forall_readWidth_literal_unit :
    ¬ ∀ (literal : Literal) (unit before after : List Char), literal.value.isFinite = true →
      (unit = ['%'] ∨
        (∀ c ∈ unit, c.isAlpha = true) ∧ ∀ c ∈ unit.head?, c ≠ 'e' ∧ c ≠ 'E') →
      (∀ c ∈ before, Text.isBlank c = true) → (∀ c ∈ after, Text.isBlank c = true) →
      readWidth (some (before ++ (literal.text ++ unit ++ after))) =
        Scalar.max literal.value 0.0 := by
  intro h
  have hread :=
    h thousand [] [] [] (by decide +kernel) (.inr ⟨by simp, by simp⟩) (by simp) (by simp)
  exact absurd hread (by decide +kernel)

end Paint

end Kerf
