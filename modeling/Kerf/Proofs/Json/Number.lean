import Kerf.Json.Reading
import Kerf.Json.Writing
import Kerf.Proofs.Decimal.Faithful

/-!
# Numbers of JSON are taken off as they are written

A strict literal is taken off part by part (`takeNumber?_append`). A whole number that
fits is what it was then (`datum_ofNat`). A float is read with two roundings from the
digits that it is written with, and `reread` is what comes of that: it need not be the
float itself.
-/

namespace Kerf.Json

open Decimal

/-- A literal by its parts. -/
def numberOf (literal : Literal) : Number where
  negative := literal.sign.isMinus
  whole := literal.whole
  fraction := literal.fraction
  exponent := literal.exponent.map Exponent.value

section Literals

variable {literal : Literal} {rest : List Char}

theorem takeWhole?_append (hstrict : literal.IsStrict) (hrest : Literal.Stops rest) :
    takeWhole? (literal.unsigned ++ rest) =
      some (literal.whole, literal.fractionText ++ (literal.exponentText ++ rest)) := by
  have hafter : ∀ c ∈ (literal.fractionText ++ (literal.exponentText ++ rest)).head?,
      c.isDigit = false := by
    intro c hc
    rcases literal.mem_head?_fractionText_append hrest hc with
      rfl | rfl | rfl | rfl | rfl <;> rfl
  have htake := Text.takeWhile_run_append literal.isDigit_whole hafter
  have hdrop := Text.dropWhile_run_append literal.isDigit_whole hafter
  rw [Parts.unsigned, List.append_assoc, List.append_assoc]
  -- zero stands alone, and what does not start with zero may go on
  rcases hstrict.whole with hzero | ⟨c, digits, hcons, hc⟩
  · rw [hzero, List.singleton_append, takeWhole?, if_neg]
    cases htail : (literal.fractionText ++ (literal.exponentText ++ rest)).head? with
    | none => exact Bool.false_ne_true
    | some c =>
      show ¬ c.isDigit = true
      rw [hafter c htail]
      exact Bool.false_ne_true
  · rw [hcons, List.cons_append] at htake hdrop ⊢
    rw [takeWhole?, htake, hdrop]
    · rfl
    · exact fun _ heq => hc (List.cons.inj heq).1

theorem takeFraction?_append (hstrict : literal.IsStrict) (hrest : Literal.Stops rest) :
    takeFraction? (literal.fractionText ++ (literal.exponentText ++ rest)) =
      some (literal.fraction, literal.exponentText ++ rest) := by
  have hafter : ∀ c ∈ (literal.exponentText ++ rest).head?, c.isDigit = false := by
    intro c hc
    rcases literal.mem_head?_exponentText_append hrest hc with rfl | rfl | rfl | rfl <;> rfl
  unfold Parts.fractionText
  -- where there is no point, none follows that could be taken for one
  cases hfraction : literal.fraction with
  | some digits =>
    have hdigits := literal.isDigit_fraction digits hfraction
    have hempty : digits.isEmpty = false := by
      rw [List.isEmpty_eq_false_iff]
      rintro rfl
      exact hstrict.fraction hfraction
    show takeFraction? ('.' :: (digits ++ (literal.exponentText ++ rest))) = _
    rw [takeFraction?, Text.takeWhile_run_append hdigits hafter,
      Text.dropWhile_run_append hdigits hafter, hempty]
    rfl
  | none =>
    show takeFraction? (literal.exponentText ++ rest) = _
    cases htail : literal.exponentText ++ rest with
    | nil => rfl
    | cons c tail =>
      have hpoint : c ≠ '.' := by
        rintro rfl
        have hc := literal.mem_head?_exponentText_append hrest (by rw [htail]; rfl)
        exact absurd hc (by decide)
      simp [takeFraction?, hpoint]

theorem takeExponent?_append (hrest : Literal.Stops rest) :
    takeExponent? (literal.exponentText ++ rest) =
      some (literal.exponent.map Exponent.value, rest) := by
  unfold Parts.exponentText
  -- the same for the letter of an exponent
  cases literal.exponent with
  | some exponent =>
    have hsign := exponent.ne_sign_of_mem_head?_digits_append rest
    have hafter : ∀ c ∈ rest.head?, c.isDigit = false := by
      intro c hc
      rcases hrest c hc with rfl | rfl <;> rfl
    have hempty : exponent.digits.isEmpty = false :=
      List.isEmpty_eq_false_iff.mpr exponent.isDigits.1
    show takeExponent? (exponent.mark :: (exponent.sign.text ++ exponent.digits) ++ rest) = _
    rw [List.cons_append, takeExponent?, if_pos exponent.mark_eq, List.append_assoc,
      Sign.takeSign_append exponent.sign hsign]
    dsimp only
    rw [Text.takeWhile_run_append exponent.isDigits.2 hafter,
      Text.dropWhile_run_append exponent.isDigits.2 hafter, hempty]
    rfl
  | none =>
    show takeExponent? rest = _
    cases rest with
    | nil => rfl
    | cons c rest =>
      have hmark : ¬(c = 'e' ∨ c = 'E') := by
        rcases hrest c rfl with rfl | rfl <;> decide
      rw [takeExponent?, if_neg hmark]
      rfl

/-- A strict literal is taken off as the number that it says. -/
theorem takeNumber?_append (hstrict : literal.IsStrict) (hrest : Literal.Stops rest) :
    takeNumber? (literal.text ++ rest) = some (numberOf literal, rest) := by
  have hwhole := takeWhole?_append hstrict hrest
  have hfraction := takeFraction?_append hstrict hrest
  have hexponent : takeExponent? (literal.exponentText ++ rest) = _ :=
    takeExponent?_append hrest
  rw [Parts.text, List.append_assoc, numberOf]
  -- a plus is not allowed here, and a number without a sign starts with a digit
  cases hsign : literal.sign with
  | plus => exact absurd hsign hstrict.sign
  | minus =>
    show takeNumber? ('-' :: (literal.unsigned ++ rest)) = _
    simp only [takeNumber?, hwhole, hfraction, hexponent, Option.bind_eq_bind, Option.bind_some]
    rfl
  | unsigned =>
    show takeNumber? (literal.unsigned ++ rest) = _
    obtain ⟨c, tail, htext, hc⟩ := literal.exists_unsigned_eq_cons
    have hminus : ∀ text, literal.unsigned ++ rest ≠ '-' :: text := by
      intro text heq
      rw [htext] at heq
      rw [(List.cons.inj heq).1] at hc
      exact absurd hc (by decide)
    simp only [takeNumber?, hwhole, hfraction, hexponent, Option.bind_eq_bind, Option.bind_some]
    rfl

end Literals

/-! ## Numbers that are written -/

theorem writeWhole_eq_text (n : Nat) : writeWhole n = (Literal.ofNat n).text :=
  (List.append_nil _).symm

/-- A whole number that fits is what it was. -/
theorem datum_ofNat {n : Nat} (h : n < wordLimit) :
    (numberOf (Literal.ofNat n)).datum = .whole n := by
  have hvalue : digitsValue (numberOf (Literal.ofNat n)).whole = n := digitsValue_toDigits n
  have hnone : ((numberOf (Literal.ofNat n)).fraction.isNone &&
      (numberOf (Literal.ofNat n)).exponent.isNone) = true := rfl
  have hsign : (numberOf (Literal.ofNat n)).negative = false := rfl
  simp only [Number.datum, hvalue, hnone, hsign, h, decide_true, Bool.and_self, if_true,
    Bool.false_eq_true, if_false]

theorem isPointed_layout : layout.IsPointed := ⟨rfl, .inr rfl⟩

/-- What the text of a float is read as. -/
def reread (x : Float) : Datum :=
  ((takeNumber? (writeFloat x)).map fun (number, _) => number.datum).getD .invalid

/-- A finite float is written as a literal, whose number is what the float is read as. -/
theorem exists_literal_writeFloat {x : Float} (hfinite : x.isFinite = true) :
    ∃ literal : Literal, literal.text = writeFloat x ∧ literal.IsStrict ∧
      (numberOf literal).datum = reread x := by
  obtain ⟨literal, htext, hstrict, -, -⟩ := Layout.exists_literal isPointed_layout hfinite
  have hwrite : writeFloat x = literal.text := by rw [writeFloat, if_pos hfinite, htext]
  refine ⟨literal, hwrite.symm, hstrict, ?_⟩
  have halone := takeNumber?_append hstrict Literal.stops_nil
  rw [List.append_nil] at halone
  rw [reread, hwrite, halone]
  rfl

end Kerf.Json
