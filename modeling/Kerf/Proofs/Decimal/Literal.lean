import Kerf.Proofs.Decimal.Notation

/-!
# Literals

The `Parts` of a number are a sign, digits with at most one point, which may stand before
or after all of them, and an exponent. Their `text` puts them together. With a digit on
either side of the point they are a `Literal`, and its `numeral` is what it says: the
digits as a whole number, times a power of ten that counts the places off.

- `Literal.exists_unsigned_eq_cons`: a literal starts with a digit or a point once its
  sign is taken off, so it is not one of the words that stand for numbers.
- `Literal.read?_append`: what follows the digits has to be an exponent.
- `Literal.readFloat?_text`: the text of a literal is read as the float nearest to what it
  says.
- `exists_literal_of_readFloat?`: without signs and letters, only literals are read.
-/

namespace Kerf.Decimal

/-! ## Parts of literals -/

/-- What stands in front of a number. -/
inductive Sign where
  | unsigned
  | plus
  | minus
  deriving DecidableEq, Repr

theorem ne_sign_of_isDigit {c : Char} (h : c.isDigit = true) : c ≠ '-' ∧ c ≠ '+' := by
  constructor
  · rintro rfl
    exact absurd h (by decide)
  · rintro rfl
    exact absurd h (by decide)

namespace Sign

/-- A sign as it is written. -/
def text : Sign → List Char
  | unsigned => []
  | plus => ['+']
  | minus => ['-']

/-- Whether a sign makes a number negative. -/
def isMinus : Sign → Bool
  | unsigned | plus => false
  | minus => true

theorem mem_text {sign : Sign} {c : Char} (hc : c ∈ sign.text) : c ∈ ['-', '+', '.'] := by
  cases sign with
  | unsigned => cases hc
  | plus | minus =>
    rw [List.mem_singleton.mp hc]
    decide

/-- A sign is taken off, whatever follows it but another sign. -/
theorem takeSign_append (sign : Sign) {text : List Char}
    (h : ∀ c ∈ text.head?, c ≠ '-' ∧ c ≠ '+') :
    takeSign (sign.text ++ text) = (sign.isMinus, text) := by
  cases sign with
  | plus | minus => rfl
  | unsigned =>
    cases text with
    | nil => rfl
    | cons c text =>
      obtain ⟨hminus, hplus⟩ := h c rfl
      simp [Sign.text, Sign.isMinus, takeSign, hminus, hplus]

end Sign

/-- The power of ten behind a number. -/
structure Exponent where
  mark : Char
  sign : Sign
  digits : List Char
  mark_eq : mark = 'e' ∨ mark = 'E'
  isDigits : IsDigits digits

namespace Exponent

/-- An exponent as it is written. -/
def text (exponent : Exponent) : List Char :=
  exponent.mark :: (exponent.sign.text ++ exponent.digits)

/-- No sign stands behind the sign of an exponent, whatever follows its digits. -/
theorem ne_sign_of_mem_head?_digits_append (exponent : Exponent) (rest : List Char) :
    ∀ c ∈ (exponent.digits ++ rest).head?, c ≠ '-' ∧ c ≠ '+' := by
  obtain ⟨hne, hdigits⟩ := exponent.isDigits
  intro c hc
  rw [List.head?_append, Option.mem_def, Option.or_eq_some_iff, List.head?_eq_none_iff] at hc
  rcases hc with hc | ⟨hempty, -⟩
  · exact ne_sign_of_isDigit (hdigits c (List.mem_of_mem_head? hc))
  · exact absurd hempty hne

/-- An exponent starts with its mark, if there is one. -/
theorem eq_of_mem_head?_elim {exponent : Option Exponent} {c : Char}
    (hc : c ∈ (exponent.elim [] text).head?) : c = 'e' ∨ c = 'E' := by
  cases exponent with
  | none => cases hc
  | some exponent =>
    obtain rfl := Option.some.inj hc
    exact exponent.mark_eq

/-- The power that an exponent says. -/
def value (exponent : Exponent) : Int :=
  if exponent.sign.isMinus then -(digitsValue exponent.digits : Int)
  else digitsValue exponent.digits

theorem readSigned?_append (exponent : Exponent) :
    readSigned? (exponent.sign.text ++ exponent.digits) = some exponent.value := by
  obtain ⟨hne, hdigits⟩ := exponent.isDigits
  have hhead : ∀ c ∈ exponent.digits.head?, c ≠ '-' ∧ c ≠ '+' := by
    simpa using exponent.ne_sign_of_mem_head?_digits_append []
  have hempty : exponent.digits.isEmpty = false := List.isEmpty_eq_false_iff.mpr hne
  have hall : exponent.digits.all Char.isDigit = true := List.all_eq_true.mpr hdigits
  simp [readSigned?, Sign.takeSign_append _ hhead, hempty, hall, Exponent.value]

end Exponent

/-- The parts of a number as it is written, any of which may be missing. -/
structure Parts where
  sign : Sign
  /-- The digits before the point. -/
  whole : List Char
  /-- The digits after the point, if there is a point. -/
  fraction : Option (List Char)
  exponent : Option Exponent
  isDigit_whole : ∀ c ∈ whole, c.isDigit = true
  isDigit_fraction : ∀ digits ∈ fraction, ∀ c ∈ digits, c.isDigit = true

namespace Parts

theorem isDigit_of_mem_none :
    ∀ digits ∈ (none : Option (List Char)), ∀ c ∈ digits, c.isDigit = true :=
  nofun

variable (parts : Parts)

/-- The digits on both sides of the point. -/
def mantissa : List Char :=
  parts.whole ++ parts.fraction.getD []

/-- The point and the digits after it. -/
def fractionText : List Char :=
  parts.fraction.elim [] ('.' :: ·)

/-- The exponent as it is written. -/
def exponentText : List Char :=
  parts.exponent.elim [] Exponent.text

/-- What is written after the digits before the point. -/
def tail : List Char :=
  parts.fractionText ++ parts.exponentText

/-- What is written after the sign. -/
def unsigned : List Char :=
  parts.whole ++ (parts.fractionText ++ parts.exponentText)

/-- All that is written. -/
def text : List Char :=
  parts.sign.text ++ parts.unsigned

section Written

variable {parts : Parts} {digits : List Char} {exponent : Exponent}

theorem fractionText_of_some (h : parts.fraction = some digits) :
    parts.fractionText = '.' :: digits := by
  rw [fractionText, h, Option.elim_some]

theorem fractionText_of_none (h : parts.fraction = none) : parts.fractionText = [] := by
  rw [fractionText, h, Option.elim_none]

theorem exponentText_of_some (h : parts.exponent = some exponent) :
    parts.exponentText = exponent.text := by
  rw [exponentText, h, Option.elim_some]

theorem exponentText_of_none (h : parts.exponent = none) : parts.exponentText = [] := by
  rw [exponentText, h, Option.elim_none]

theorem tail_of_some (h : parts.fraction = some digits) :
    parts.tail = '.' :: (digits ++ parts.exponentText) := by
  rw [tail, fractionText_of_some h, List.cons_append]

theorem tail_of_none (h : parts.fraction = none) : parts.tail = parts.exponentText := by
  rw [tail, fractionText_of_none h, List.nil_append]

end Written

/-- A point stands between the digits before and after it. -/
theorem eq_of_mem_head?_fractionText {c : Char} (hc : c ∈ parts.fractionText.head?) :
    c = '.' := by
  cases hfraction : parts.fraction with
  | none =>
    rw [fractionText_of_none hfraction] at hc
    cases hc
  | some digits =>
    rw [fractionText_of_some hfraction] at hc
    exact (Option.some.inj hc).symm

theorem eq_of_mem_head?_exponentText {c : Char} (hc : c ∈ parts.exponentText.head?) :
    c = 'e' ∨ c = 'E' :=
  Exponent.eq_of_mem_head?_elim hc

theorem isDigit_of_mem_head?_exponentText {c : Char} (hc : c ∈ parts.exponentText.head?) :
    c.isDigit = false := by
  rcases parts.eq_of_mem_head?_exponentText hc with rfl | rfl
  · rfl
  · rfl

/-- What comes after the digits before the point is a point or what follows the digits, if it is
anything. -/
theorem eq_of_mem_head?_append {after : List Char} {c : Char}
    (hc : c ∈ (parts.fractionText ++ after).head?) : c = '.' ∨ c ∈ after.head? := by
  rw [List.head?_append, Option.mem_def, Option.or_eq_some_iff] at hc
  rcases hc with hfraction | ⟨-, hc⟩
  · exact .inl (parts.eq_of_mem_head?_fractionText hfraction)
  · exact .inr hc

theorem isDigit_of_mem_head?_append {after : List Char}
    (hafter : ∀ c ∈ after.head?, c.isDigit = false) {c : Char}
    (hc : c ∈ (parts.fractionText ++ after).head?) : c.isDigit = false := by
  rcases parts.eq_of_mem_head?_append hc with rfl | hc
  · rfl
  · exact hafter c hc

/-- Behind the digits before the point there is a point or the mark of an exponent, if
anything. -/
theorem eq_of_mem_head?_tail {c : Char} (hc : c ∈ parts.tail.head?) :
    c = '.' ∨ c = 'e' ∨ c = 'E' :=
  (parts.eq_of_mem_head?_append hc).imp_right parts.eq_of_mem_head?_exponentText

theorem isDigit_of_mem_head?_tail {c : Char} (hc : c ∈ parts.tail.head?) : c.isDigit = false :=
  parts.isDigit_of_mem_head?_append (fun _ => parts.isDigit_of_mem_head?_exponentText) hc

/-! ## Characters of numbers -/

theorem isDigit_or_of_mem_fractionText {c : Char} (hc : c ∈ parts.fractionText) :
    c.isDigit = true ∨ c = '.' := by
  unfold fractionText at hc
  cases hfraction : parts.fraction with
  | none =>
    rw [hfraction] at hc
    cases hc
  | some digits =>
    rw [hfraction] at hc
    rcases List.mem_cons.mp hc with rfl | hdigit
    · exact .inr rfl
    · exact .inl (parts.isDigit_fraction digits hfraction c hdigit)

theorem isDigit_or_of_mem_exponentText {c : Char} (hc : c ∈ parts.exponentText) :
    c.isDigit = true ∨ c ∈ ['-', '+', '.', 'e', 'E'] := by
  unfold exponentText at hc
  cases hexponent : parts.exponent with
  | none =>
    rw [hexponent] at hc
    cases hc
  | some exponent =>
    rw [hexponent] at hc
    rcases List.mem_cons.mp hc with rfl | hrest
    · rcases exponent.mark_eq with hmark | hmark
      · exact .inr (by simp [hmark])
      · exact .inr (by simp [hmark])
    · rcases List.mem_append.mp hrest with hsign | hdigit
      · exact .inr (List.mem_append_left ['e', 'E'] (Sign.mem_text hsign))
      · exact .inl (exponent.isDigits.2 c hdigit)

/-- A number has digits, signs, a point and the mark of an exponent. -/
theorem isDigit_or_of_mem_text {c : Char} (hc : c ∈ parts.text) :
    c.isDigit = true ∨ c ∈ ['-', '+', '.', 'e', 'E'] := by
  simp only [text, unsigned, List.mem_append] at hc
  rcases hc with hsign | hwhole | hfraction | hexponent
  · exact .inr (List.mem_append_left ['e', 'E'] (Sign.mem_text hsign))
  · exact .inl (parts.isDigit_whole c hwhole)
  · exact (parts.isDigit_or_of_mem_fractionText hfraction).imp_right fun hpoint => by
      simp [hpoint]
  · exact parts.isDigit_or_of_mem_exponentText hexponent

/-- What holds of digits and of the other characters of literals holds of every parts. -/
theorem all_text {p : Char → Bool} (hdigit : ∀ c : Char, c.isDigit = true → p c = true)
    (hother : ['-', '+', '.', 'e', 'E'].all p = true) : ∀ c ∈ parts.text, p c = true := by
  intro c hc
  rcases parts.isDigit_or_of_mem_text hc with hc | hc
  · exact hdigit c hc
  · exact List.all_eq_true.mp hother c hc

/-! ## Reading parts -/

theorem readExponent?_exponentText :
    readExponent? parts.exponentText = some (parts.exponent.elim 0 Exponent.value) := by
  unfold exponentText
  cases parts.exponent with
  | none => rfl
  | some exponent =>
    show readExponent? (exponent.mark :: (exponent.sign.text ++ exponent.digits)) =
      some exponent.value
    rw [readExponent?, if_pos exponent.mark_eq, Exponent.readSigned?_append]

/-- What follows the digits is no digit and no point, so they end there. -/
theorem takeFraction_append {after : List Char}
    (hafter : ∀ c ∈ after.head?, c.isDigit = false ∧ c ≠ '.') :
    takeFraction (parts.fractionText ++ after) = (parts.fraction.getD [], after) := by
  have hdigit : ∀ c ∈ after.head?, c.isDigit = false := fun c hc => (hafter c hc).1
  -- a point is written only if there are digits for it
  cases hfraction : parts.fraction with
  | some digits =>
    have hdigits := parts.isDigit_fraction digits hfraction
    rw [fractionText_of_some hfraction, List.cons_append, takeFraction,
      Text.takeWhile_run_append hdigits hdigit, Text.dropWhile_run_append hdigits hdigit,
      Option.getD_some]
  | none =>
    rw [fractionText_of_none hfraction, List.nil_append, Option.getD_none]
    cases after with
    | nil => rfl
    | cons c rest =>
      have hpoint : c ≠ '.' := (hafter c rfl).2
      simp [takeFraction, hpoint]

end Parts

/-- A number as it is written. -/
structure Literal extends Parts where
  /-- There is a digit on either side of the point. -/
  has_digit : whole ≠ [] ∨ ∃ digits ∈ fraction, digits ≠ []

namespace Literal

variable (literal : Literal)

/-- What a literal says. -/
def numeral : Numeral :=
  let fraction := literal.fraction.getD []
  .decimal literal.sign.isMinus (digitsValue (literal.whole ++ fraction))
    (literal.exponent.elim 0 Exponent.value - fraction.length)

/-- The float nearest to what a literal says. -/
def value : Float :=
  literal.numeral.toFloat

/-! ## How literals start -/

/-- Without its sign, a literal starts with a digit or a point, whatever follows its digits. -/
theorem exists_append_eq_cons (after : List Char) :
    ∃ c rest, literal.whole ++ (literal.fractionText ++ after) = c :: rest ∧
      (c.isDigit = true ∨ c = '.') := by
  cases hwhole : literal.whole with
  | cons c rest =>
    refine ⟨c, rest ++ (literal.fractionText ++ after), rfl, .inl ?_⟩
    exact literal.isDigit_whole c (hwhole ▸ List.mem_cons_self)
  | nil =>
    -- all digits are after the point
    rcases literal.has_digit with hdigit | ⟨digits, hfraction, -⟩
    · exact absurd hwhole hdigit
    · refine ⟨'.', digits ++ after, ?_, .inr rfl⟩
      rw [Parts.fractionText_of_some hfraction]
      rfl

theorem exists_unsigned_eq_cons :
    ∃ c rest, literal.unsigned = c :: rest ∧ (c.isDigit = true ∨ c = '.') :=
  literal.exists_append_eq_cons literal.exponentText

/-- No sign stands behind a sign. -/
theorem ne_of_mem_head?_append {after : List Char} {c : Char}
    (hc : c ∈ (literal.whole ++ (literal.fractionText ++ after)).head?) :
    c ≠ '-' ∧ c ≠ '+' := by
  obtain ⟨d, rest, htext, hd⟩ := literal.exists_append_eq_cons after
  rw [htext] at hc
  obtain rfl := Option.some.inj hc
  rcases hd with hdigit | rfl
  · exact ne_sign_of_isDigit hdigit
  · exact ⟨by decide, by decide⟩

theorem ne_of_mem_head?_unsigned {c : Char} (hc : c ∈ literal.unsigned.head?) :
    c ≠ '-' ∧ c ≠ '+' :=
  literal.ne_of_mem_head?_append hc

/-- The words for numbers start with letters, and literals do not. -/
theorem toLower_ne_of_mem_head?_append {after : List Char} {c : Char}
    (hc : c ∈ (literal.whole ++ (literal.fractionText ++ after)).head?) :
    c.toLower ≠ 'i' ∧ c.toLower ≠ 'n' := by
  obtain ⟨d, rest, htext, hd⟩ := literal.exists_append_eq_cons after
  rw [htext] at hc
  obtain rfl := Option.some.inj hc
  rcases hd with hdigit | rfl
  · exact ⟨Text.toLower_ne_of_isDigit hdigit rfl, Text.toLower_ne_of_isDigit hdigit rfl⟩
  · exact ⟨by decide, by decide⟩

/-! ## Reading literals -/

section After

/-! What follows the digits is read as an exponent, if it does not continue the digits. -/

variable {after : List Char} (hafter : ∀ c ∈ after.head?, c.isDigit = false ∧ c ≠ '.')

include hafter

theorem readDecimal?_append :
    readDecimal? (literal.whole ++ (literal.fractionText ++ after)) =
      (readExponent? after).map fun power : Int =>
        (digitsValue (literal.whole ++ literal.fraction.getD []),
          power - (literal.fraction.getD []).length) := by
  have hhead : ∀ c ∈ (literal.fractionText ++ after).head?, c.isDigit = false :=
    fun _ => literal.isDigit_of_mem_head?_append fun c hc => (hafter c hc).1
  have htake := Text.takeWhile_run_append literal.isDigit_whole hhead
  have hdrop := Text.dropWhile_run_append literal.isDigit_whole hhead
  -- there is a digit before the point or after it
  have hdigit : (literal.whole.isEmpty && (literal.fraction.getD []).isEmpty) = false := by
    rw [Bool.and_eq_false_iff, List.isEmpty_eq_false_iff, List.isEmpty_eq_false_iff]
    rcases literal.has_digit with hwhole | ⟨digits, hfraction, hne⟩
    · exact .inl hwhole
    · rw [Option.mem_def.mp hfraction]
      exact .inr hne
  unfold readDecimal?
  simp only [htake, hdrop, literal.takeFraction_append hafter, hdigit,
    Bool.false_eq_true, if_false]

theorem read?_append :
    Numeral.read? (literal.sign.text ++ (literal.whole ++ (literal.fractionText ++ after))) =
      (readExponent? after).map fun power : Int =>
        .decimal literal.sign.isMinus (digitsValue (literal.whole ++ literal.fraction.getD []))
          (power - (literal.fraction.getD []).length) := by
  let unsigned := literal.whole ++ (literal.fractionText ++ after)
  have hsign : takeSign (literal.sign.text ++ unsigned) = (literal.sign.isMinus, unsigned) :=
    Sign.takeSign_append literal.sign fun _ => literal.ne_of_mem_head?_append
  have hhead : ∀ c ∈ unsigned.head?, c.toLower ≠ 'i' ∧ c.toLower ≠ 'n' :=
    fun _ => literal.toLower_ne_of_mem_head?_append
  rw [Numeral.read?_of_head hsign hhead, literal.readDecimal?_append hafter, Option.map_map]
  rfl

end After

theorem read?_text : Numeral.read? literal.text = some literal.numeral := by
  have hafter : ∀ c ∈ literal.exponentText.head?, c.isDigit = false ∧ c ≠ '.' := by
    intro c hc
    rcases literal.eq_of_mem_head?_exponentText hc with rfl | rfl
    · exact ⟨rfl, by decide⟩
    · exact ⟨rfl, by decide⟩
  exact (literal.read?_append hafter).trans (by rw [Parts.readExponent?_exponentText]; rfl)

/-- A literal is read as the float nearest to what it says. -/
theorem readFloat?_text : readFloat? literal.text = some literal.value := by
  rw [readFloat?, read?_text, Option.map_some, value]

end Literal

/-! ## Plain decimals -/

theorem IsMagnitude.exists_literal {text : List Char} (h : IsMagnitude text) (sign : Sign) :
    ∃ literal : Literal, literal.exponent = none ∧ literal.text = sign.text ++ text := by
  cases h with
  | whole h =>
    refine ⟨⟨⟨sign, text, none, none, h.2, Parts.isDigit_of_mem_none⟩, .inl h.1⟩, rfl, ?_⟩
    rw [Parts.text, Parts.unsigned, Parts.fractionText, Parts.exponentText]
    simp
  | @pointed digits fraction h hfraction =>
    refine ⟨⟨⟨sign, digits, some fraction, none, h.2, by simpa using hfraction.2⟩, .inl h.1⟩,
      rfl, ?_⟩
    rw [Parts.text, Parts.unsigned, Parts.fractionText, Parts.exponentText]
    simp

/-- Plain decimals are literals without exponents. -/
theorem IsPlainDecimal.exists_literal {text : List Char} (h : IsPlainDecimal text) :
    ∃ literal : Literal, literal.exponent = none ∧ literal.text = text := by
  cases h with
  | unsigned h => exact h.exists_literal .unsigned
  | minus h => exact h.exists_literal .minus

/-! ## What is read without signs and letters -/

theorem takeFraction_cases (text : List Char) :
    (∃ fraction tail, takeFraction text = (fraction, tail) ∧ text = '.' :: (fraction ++ tail) ∧
        ∀ c ∈ fraction, c.isDigit = true) ∨
      takeFraction text = ([], text) := by
  unfold takeFraction
  split
  · next text =>
    refine .inl ⟨_, _, rfl, ?_, fun _ hc => List.mem_takeWhile_imp hc⟩
    rw [List.takeWhile_append_dropWhile]
  · exact .inr rfl

/-- Decimals have a digit on either side of the point, and behind it nothing but an exponent. -/
theorem of_isSome_readDecimal? {text fraction tail : List Char}
    (htake : takeFraction (text.dropWhile Char.isDigit) = (fraction, tail))
    (h : (readDecimal? text).isSome = true) :
    (text.takeWhile Char.isDigit ≠ [] ∨ fraction ≠ []) ∧
      (readExponent? tail).isSome = true := by
  unfold readDecimal? at h
  simp only [htake] at h
  split at h
  · cases h
  · next hdigit =>
    rw [Option.isSome_map] at h
    simp only [Bool.and_eq_true, List.isEmpty_iff, not_and_or] at hdigit
    exact ⟨hdigit, h⟩

section Unmarked

variable {text : List Char} (hchars : ∀ c ∈ text, c.toLower ∉ ['-', '+', 'i', 'n', 'e'])

include hchars

/-- No exponent stands behind the digits. -/
theorem eq_nil_of_isSome_readExponent? (h : (readExponent? text).isSome = true) :
    text = [] := by
  cases text with
  | nil => rfl
  | cons c tail =>
    have hc := hchars c List.mem_cons_self
    rw [readExponent?] at h
    split at h
    · next hmark =>
      rcases hmark with rfl | rfl
      · exact absurd (by decide) hc
      · exact absurd (by decide) hc
    · cases h

theorem exists_literal_of_readDecimal? (h : (readDecimal? text).isSome = true) :
    ∃ literal : Literal, literal.sign = .unsigned ∧ literal.exponent = none ∧
      literal.text = text := by
  have htext : text.takeWhile Char.isDigit ++ text.dropWhile Char.isDigit = text :=
    List.takeWhile_append_dropWhile
  have hwhole : ∀ c ∈ text.takeWhile Char.isDigit, c.isDigit = true :=
    fun _ hc => List.mem_takeWhile_imp hc
  have hbehind : ∀ c ∈ text.dropWhile Char.isDigit, c.toLower ∉ ['-', '+', 'i', 'n', 'e'] :=
    fun c hc => hchars c ((List.dropWhile_sublist _).mem hc)
  rcases takeFraction_cases (text.dropWhile Char.isDigit) with
    ⟨fraction, tail, htake, hpoint, hfraction⟩ | htake
  -- digits, a point and digits, and no exponent as the text has no letter for it
  · obtain ⟨hdigit, hsome⟩ := of_isSome_readDecimal? htake h
    have htail : tail = [] := by
      refine eq_nil_of_isSome_readExponent? (fun c hc => hbehind c ?_) hsome
      rw [hpoint]
      exact List.mem_cons_of_mem _ (List.mem_append_right _ hc)
    let literal : Literal :=
      ⟨⟨.unsigned, text.takeWhile Char.isDigit, some fraction, none, hwhole,
        by simpa using hfraction⟩, by simpa using hdigit⟩
    refine ⟨literal, rfl, rfl, ?_⟩
    show [] ++ (text.takeWhile Char.isDigit ++ ('.' :: fraction ++ [])) = text
    rw [htail] at hpoint
    rw [List.nil_append, List.cons_append, ← hpoint, htext]
  -- digits and nothing else
  · obtain ⟨hdigit, hsome⟩ := of_isSome_readDecimal? htake h
    have htail : text.dropWhile Char.isDigit = [] :=
      eq_nil_of_isSome_readExponent? hbehind hsome
    let literal : Literal :=
      ⟨⟨.unsigned, text.takeWhile Char.isDigit, none, none, hwhole, Parts.isDigit_of_mem_none⟩,
        by simpa using hdigit⟩
    refine ⟨literal, rfl, rfl, ?_⟩
    show [] ++ (text.takeWhile Char.isDigit ++ ([] ++ [])) = text
    rw [htail] at htext
    exact htext

/-- What is read without signs and letters is a literal without a sign or an exponent. -/
theorem exists_literal_of_readFloat? {x : Float} (h : readFloat? text = some x) :
    ∃ literal : Literal, literal.sign = .unsigned ∧ literal.exponent = none ∧
      literal.text = text ∧
      literal.value = x := by
  -- neither a sign nor the word for an infinity or for no number can start the text
  have hhead : ∀ c ∈ text.head?, c ≠ '-' ∧ c ≠ '+' ∧ c.toLower ≠ 'i' ∧ c.toLower ≠ 'n' := by
    intro c hc
    have hnot := hchars c (List.mem_of_mem_head? hc)
    refine ⟨?_, ?_, ?_, ?_⟩
    · rintro rfl
      exact hnot (by decide)
    · rintro rfl
      exact hnot (by decide)
    · intro heq
      exact hnot (by simp [heq])
    · intro heq
      exact hnot (by simp [heq])
  have hsign : takeSign text = (false, text) :=
    Sign.takeSign_append .unsigned fun c hc => ⟨(hhead c hc).1, (hhead c hc).2.1⟩
  have hsome : (readDecimal? text).isSome = true := by
    have hread := congrArg Option.isSome h
    rw [readFloat?, Option.isSome_map,
      Numeral.read?_of_head hsign fun c hc => (hhead c hc).2.2, Option.isSome_map] at hread
    exact hread
  obtain ⟨literal, hunsigned, hexponent, rfl⟩ := exists_literal_of_readDecimal? hchars hsome
  rw [literal.readFloat?_text] at h
  exact ⟨literal, hunsigned, hexponent, rfl, Option.some.inj h⟩

end Unmarked

end Kerf.Decimal
