import Kerf.Proofs.Path.Writing

/-!
# Maximal munch

A scan takes as much of a text as can be one number: a sign, digits with at most one
point, and an exponent (`Munch`). Any of them may be missing, so not all that is taken is
a number.

- `Munch.text_prefix_scanNumber`: the scan goes on at least to the end of every such
  beginning of the text.
- `Munch.isLongest_iff`: so it takes the longest one, and nothing else is the longest.
- `Munch.isSome_readFloat?_text_iff`: what is taken is read as a number if there is a
  digit in it before the exponent.
-/

namespace Kerf.Path

open Decimal (Sign Exponent Parts Literal)

/-- What may be taken for one number. -/
abbrev Munch := Parts

namespace Munch

/-- As much of a text is taken as can be. -/
structure IsLongest (munch : Munch) (text : List Char) : Prop where
  front : munch.text <+: text
  length_le : ∀ other : Munch, other.text <+: text → other.text.length ≤ munch.text.length

/-! ## What comes next -/

variable (munch : Munch)

/-- No sign stands behind the sign. -/
theorem ne_sign_of_mem_head? {c : Char} (hc : c ∈ (munch.whole ++ munch.tail).head?) :
    c ≠ '-' ∧ c ≠ '+' := by
  rw [List.head?_append, Option.mem_def, Option.or_eq_some_iff] at hc
  rcases hc with hwhole | ⟨-, htail⟩
  · exact Decimal.ne_sign_of_isDigit (munch.isDigit_whole c (List.mem_of_mem_head? hwhole))
  · rcases munch.eq_of_mem_head?_tail htail with rfl | rfl | rfl
    · decide
    · decide
    · decide

/-! ## Scanning -/

theorem scanSign_text_append (hne : munch.text ≠ []) (after : List Char) :
    scanSign (munch.text ++ after) = (munch.sign.text, munch.whole ++ munch.tail ++ after) := by
  have htext : munch.text = munch.sign.text ++ (munch.whole ++ munch.tail) := rfl
  rw [htext, List.append_assoc]
  cases hsign : munch.sign with
  | plus => rfl
  | minus => rfl
  | unsigned =>
    refine scanSign_append_text .unsigned fun c hc => munch.ne_sign_of_mem_head? ?_
    rw [htext, hsign, Sign.text, List.nil_append] at hne
    rwa [List.head?_append_of_ne_nil _ hne] at hc

theorem exponent_prefix_scanExponent (exponent : Exponent) (after : List Char) :
    exponent.text <+: (scanExponent (exponent.text ++ after)).1 := by
  obtain ⟨hne, hdigits⟩ := exponent.isDigits
  -- the digits start with no sign, so the sign ends where they start
  have hhead := exponent.ne_sign_of_mem_head?_digits_append after
  have htake : (exponent.digits ++ after).takeWhile Char.isDigit =
      exponent.digits ++ after.takeWhile Char.isDigit :=
    List.takeWhile_append_of_pos hdigits
  have hdigit : exponent.digits ++ after.takeWhile Char.isDigit ≠ [] :=
    List.append_ne_nil_of_left_ne_nil hne _
  rw [Exponent.text, List.cons_append, List.append_assoc, scanExponent,
    scanSign_append_text exponent.sign hhead]
  simp only [htake]
  rw [if_pos ⟨exponent.mark_eq, hdigit⟩, ← List.append_assoc]
  exact List.prefix_append (exponent.mark :: (exponent.sign.text ++ exponent.digits)) _

/-- Where the exponent may stand, the scan goes on to its end. -/
theorem exponentText_prefix_scan (after : List Char) :
    munch.exponentText <+: (munch.exponentText ++ after).takeWhile Char.isDigit ++
      (scanExponent ((munch.exponentText ++ after).dropWhile Char.isDigit)).1 := by
  cases hexponent : munch.exponent with
  | none =>
    rw [Parts.exponentText_of_none hexponent]
    exact List.nil_prefix
  | some exponent =>
    have htext := Parts.exponentText_of_some hexponent
    have hmark : ¬exponent.mark.isDigit = true :=
      Bool.eq_false_iff.mp (munch.isDigit_of_mem_head?_exponentText (by rw [htext]; rfl))
    rw [htext, Exponent.text, List.cons_append, List.takeWhile_cons_of_neg hmark,
      List.dropWhile_cons_of_neg hmark]
    exact exponent_prefix_scanExponent exponent after

/-- Where a point or an exponent may stand, the scan goes on to the end of both. -/
theorem tail_prefix_scan (hne : munch.tail ≠ []) (after : List Char) :
    munch.tail <+: (scanFraction (munch.tail ++ after)).1 ++
      (scanExponent (scanFraction (munch.tail ++ after)).2).1 := by
  -- a point is scanned with the digits behind it, and then an exponent is
  cases hfraction : munch.fraction with
  | some digits =>
    have hdigits := munch.isDigit_fraction digits hfraction
    have htake : (digits ++ (munch.exponentText ++ after)).takeWhile Char.isDigit = _ :=
      List.takeWhile_append_of_pos hdigits
    have hdrop : (digits ++ (munch.exponentText ++ after)).dropWhile Char.isDigit = _ :=
      List.dropWhile_append_of_pos hdigits
    rw [Parts.tail_of_some hfraction, List.cons_append, List.append_assoc, scanFraction, htake,
      hdrop, List.cons_append, List.append_assoc, List.cons_prefix_cons,
      List.prefix_append_right_inj]
    exact ⟨rfl, munch.exponentText_prefix_scan after⟩
  | none =>
    have htail := Parts.tail_of_none hfraction
    cases hexponent : munch.exponent with
    | none =>
      rw [htail, Parts.exponentText_of_none hexponent] at hne
      exact absurd rfl hne
    | some exponent =>
      have htext : munch.tail = exponent.text :=
        htail.trans (Parts.exponentText_of_some hexponent)
      have hscan : scanFraction (exponent.text ++ after) = ([], exponent.text ++ after) := by
        have hpoint : exponent.mark ≠ '.' := by
          rcases exponent.mark_eq with hmark | hmark <;> rw [hmark] <;> decide
        simp [Exponent.text, scanFraction, hpoint]
      rw [htext, hscan]
      exact exponent_prefix_scanExponent exponent after

/-- The scan goes on at least to the end of what may be taken for one number. -/
theorem text_prefix_scanNumber (after : List Char) :
    munch.text <+: (scanNumber (munch.text ++ after)).1 := by
  by_cases hne : munch.text = []
  · rw [hne]
    exact List.nil_prefix
  · rw [scanNumber, munch.scanSign_text_append hne]
    dsimp only
    have htext : munch.text = munch.sign.text ++ (munch.whole ++ munch.tail) := rfl
    -- sign and digits are taken off on both sides, which leaves the tail
    rw [htext, List.append_assoc, List.append_assoc, List.append_assoc,
      List.prefix_append_right_inj, List.takeWhile_append_of_pos munch.isDigit_whole,
      List.dropWhile_append_of_pos munch.isDigit_whole, List.append_assoc,
      List.prefix_append_right_inj]
    cases htail : munch.tail with
    | nil => exact List.nil_prefix
    | cons c rest =>
      have hc : ¬c.isDigit = true :=
        Bool.eq_false_iff.mp (munch.isDigit_of_mem_head?_tail (by rw [htail]; rfl))
      rw [List.cons_append, List.takeWhile_cons_of_neg hc, List.dropWhile_cons_of_neg hc,
        List.nil_append, ← List.cons_append, ← htail]
      exact munch.tail_prefix_scan (by rw [htail]; exact List.cons_ne_nil c rest) after

/-! ## What is scanned -/

theorem exists_sign_scanSign (text : List Char) :
    ∃ sign : Sign, (scanSign text).1 = sign.text := by
  unfold scanSign
  split
  · exact ⟨.minus, rfl⟩
  · exact ⟨.plus, rfl⟩
  · exact ⟨.unsigned, rfl⟩

theorem exists_fraction_scanFraction (text : List Char) :
    ∃ fraction : Option (List Char), (∀ digits ∈ fraction, ∀ c ∈ digits, c.isDigit = true) ∧
      (scanFraction text).1 = fraction.elim [] ('.' :: ·) := by
  unfold scanFraction
  split
  · next rest =>
    refine ⟨some (rest.takeWhile Char.isDigit), ?_, rfl⟩
    rintro _ ⟨⟩ c hc
    exact List.mem_takeWhile_imp hc
  · exact ⟨none, by simp, rfl⟩

theorem exists_exponent_scanExponent (text : List Char) :
    ∃ exponent : Option Exponent, (scanExponent text).1 = exponent.elim [] Exponent.text := by
  cases text with
  | nil => exact ⟨none, rfl⟩
  | cons mark text =>
    obtain ⟨sign, hsign⟩ := exists_sign_scanSign text
    rw [scanExponent]
    dsimp only
    split
    · next h =>
      refine ⟨some ⟨mark, sign, _, h.1, h.2, fun c hc => List.mem_takeWhile_imp hc⟩, ?_⟩
      rw [hsign]
      rfl
    · exact ⟨none, rfl⟩

/-- What is scanned may be taken for one number. -/
theorem exists_text_eq_scanNumber (text : List Char) :
    ∃ munch : Munch, munch.text = (scanNumber text).1 := by
  obtain ⟨sign, hsign⟩ := exists_sign_scanSign text
  let unsigned := (scanSign text).2
  obtain ⟨fraction, hdigits, hfraction⟩ :=
    exists_fraction_scanFraction (unsigned.dropWhile Char.isDigit)
  obtain ⟨exponent, hexponent⟩ :=
    exists_exponent_scanExponent (scanFraction (unsigned.dropWhile Char.isDigit)).2
  refine ⟨⟨sign, unsigned.takeWhile Char.isDigit, fraction, exponent,
    fun c hc => List.mem_takeWhile_imp hc, hdigits⟩, ?_⟩
  rw [scanNumber]
  dsimp only
  rw [hsign, hfraction, hexponent, List.append_assoc, List.append_assoc]
  rfl

/-- The scan takes the longest beginning that may be taken for one number. -/
theorem isLongest_iff {munch : Munch} {text : List Char} :
    munch.IsLongest text ↔ munch.text = (scanNumber text).1 := by
  have hfront : (scanNumber text).1 <+: text := ⟨(scanNumber text).2, scanNumber_append text⟩
  -- nothing that may be taken for a number is longer than the scan
  have hlongest : ∀ other : Munch, other.text <+: text →
      other.text <+: (scanNumber text).1 := by
    rintro other ⟨after, rfl⟩
    exact other.text_prefix_scanNumber after
  constructor
  · intro h
    obtain ⟨scanned, hscanned⟩ := exists_text_eq_scanNumber text
    have hlength := h.length_le scanned (hscanned ▸ hfront)
    rw [hscanned] at hlength
    exact (hlongest munch h.front).eq_of_length_le hlength
  · intro h
    refine ⟨h ▸ hfront, fun other hother => ?_⟩
    rw [h]
    exact (hlongest other hother).length_le

/-- A longest beginning stays the longest when the text ends sooner behind it. -/
theorem IsLongest.shorten {munch : Munch} {before after : List Char}
    (h : munch.IsLongest (munch.text ++ after)) (hbefore : before <+: after) :
    munch.IsLongest (munch.text ++ before) :=
  ⟨List.prefix_append _ _, fun other hother => h.length_le other
    (hother.trans ((List.prefix_append_right_inj munch.text).mpr hbefore))⟩

/-! ## Reading -/

/-- What is taken is a literal, if there are digits before the exponent. -/
def toLiteral (h : munch.mantissa ≠ []) : Literal where
  toParts := munch
  has_digit := by
    rw [Parts.mantissa, ne_eq, List.append_eq_nil_iff, not_and_or] at h
    refine h.imp_right fun hfraction => ?_
    cases hsome : munch.fraction with
    | none =>
      rw [hsome] at hfraction
      exact absurd rfl hfraction
    | some digits =>
      rw [hsome] at hfraction
      exact ⟨digits, rfl, hfraction⟩

theorem text_toLiteral (h : munch.mantissa ≠ []) : (munch.toLiteral h).text = munch.text := rfl

/-- Runs of digits that would start where none starts are empty. -/
theorem takeWhile_isDigit_of_head {text : List Char} (h : ∀ c ∈ text.head?, c.isDigit = false) :
    text.takeWhile Char.isDigit = [] ∧ text.dropWhile Char.isDigit = text := by
  have hnone : ∀ c ∈ ([] : List Char), c.isDigit = true := by simp
  exact ⟨Text.takeWhile_run_append hnone h, Text.dropWhile_run_append hnone h⟩

theorem takeFraction_tail (h : munch.fraction.getD [] = []) :
    (Decimal.takeFraction munch.tail).1 = [] := by
  -- behind the point stands the exponent, if anything does
  cases hfraction : munch.fraction with
  | some digits =>
    rw [hfraction, Option.getD_some] at h
    rw [Parts.tail_of_some hfraction, h, List.nil_append, Decimal.takeFraction]
    exact (takeWhile_isDigit_of_head fun _ => munch.isDigit_of_mem_head?_exponentText).1
  | none =>
    rw [Parts.tail_of_none hfraction]
    cases htext : munch.exponentText with
    | nil => rfl
    | cons c rest =>
      have hpoint : c ≠ '.' := by
        rintro rfl
        exact absurd (munch.eq_of_mem_head?_exponentText (by rw [htext]; rfl)) (by decide)
      simp [Decimal.takeFraction, hpoint]

/-- Without digits before the exponent, there is nothing to read. -/
theorem readFloat?_text_of_mantissa (h : munch.mantissa = []) :
    Decimal.readFloat? munch.text = none := by
  rw [Parts.mantissa, List.append_eq_nil_iff] at h
  obtain ⟨hwhole, hdigits⟩ := h
  have htext : munch.text = munch.sign.text ++ munch.tail := by
    rw [Parts.text, Parts.unsigned, hwhole, List.nil_append, Parts.tail]
  have hsign : Decimal.takeSign munch.text = (munch.sign.isMinus, munch.tail) := by
    rw [htext]
    refine Sign.takeSign_append munch.sign fun c hc => ?_
    exact munch.ne_sign_of_mem_head? (by rwa [hwhole, List.nil_append])
  -- what is left starts with a point or with the letter of an exponent, as no word does
  have hhead : ∀ c ∈ munch.tail.head?, c.toLower ≠ 'i' ∧ c.toLower ≠ 'n' := by
    intro c hc
    rcases munch.eq_of_mem_head?_tail hc with rfl | rfl | rfl <;> decide
  have hdecimal : Decimal.readDecimal? munch.tail = none := by
    obtain ⟨htake, hdrop⟩ :=
      takeWhile_isDigit_of_head fun _ => munch.isDigit_of_mem_head?_tail
    simp only [Decimal.readDecimal?, htake, hdrop, munch.takeFraction_tail hdigits,
      List.isEmpty_nil, Bool.and_self, if_true]
  rw [Decimal.readFloat?, Decimal.Numeral.read?_of_head hsign hhead, hdecimal, Option.map_none,
    Option.map_none]

/-- What is taken is read as a number if there is a digit in it before the exponent. -/
theorem isSome_readFloat?_text_iff :
    (Decimal.readFloat? munch.text).isSome = true ↔ munch.mantissa ≠ [] := by
  constructor
  · intro hread hmantissa
    rw [munch.readFloat?_text_of_mantissa hmantissa] at hread
    cases hread
  · intro hmantissa
    rw [← munch.text_toLiteral hmantissa, Literal.readFloat?_text]
    rfl

end Munch

end Kerf.Path
