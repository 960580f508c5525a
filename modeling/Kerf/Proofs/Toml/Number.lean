import Kerf.Proofs.Decimal.Faithful
import Kerf.Toml.Document
import Kerf.Toml.Writing

/-!
# Numbers of TOML are read back

A strict literal in front of a line feed is taken off as a number: a whole number if it
has neither a point nor an exponent, and else the float that is its value
(`takeNumber?_text`). It is not mistaken for a date or a time, since its digits are
followed by none of the marks of these (`takeMoment?_text`). So the text of each whole
number that can be written is read as that number (`takeSimple?_writeWhole`), and the text
of each finite float as that float (`takeSimple?_writeFloat`).
-/

namespace Kerf.Toml

open Decimal

/-! ## Digits -/

theorem takeMoreDigits_cons {isDigit : Char → Bool} {c : Char} (h : c ≠ '_')
    (text : List Char) :
    takeMoreDigits isDigit (c :: text) =
      if isDigit c then (c :: (takeMoreDigits isDigit text).1, (takeMoreDigits isDigit text).2)
      else ([], c :: text) := by
  cases text <;> simp [takeMoreDigits, h]

theorem takeMoreDigits_append {digits rest : List Char} (h : ∀ c ∈ digits, c.isDigit = true)
    (hrest : ∀ c ∈ rest.head?, c.isDigit = false ∧ c ≠ '_') :
    takeMoreDigits Char.isDigit (digits ++ rest) = (digits, rest) := by
  induction digits with
  | nil =>
    cases rest with
    | nil => rfl
    | cons c rest =>
      obtain ⟨hdigit, hmark⟩ := hrest c rfl
      rw [List.nil_append, takeMoreDigits_cons hmark, hdigit, if_neg Bool.false_ne_true]
  | cons c digits ih =>
    have hc : c.isDigit = true := h c List.mem_cons_self
    have hmark : c ≠ '_' := by
      rintro rfl
      exact absurd hc (by decide)
    rw [List.cons_append, takeMoreDigits_cons hmark, if_pos hc,
      ih fun d hd => h d (List.mem_cons_of_mem c hd)]

theorem takeDigits?_append {digits rest : List Char} (h : IsDigits digits)
    (hrest : ∀ c ∈ rest.head?, c.isDigit = false ∧ c ≠ '_') :
    takeDigits? Char.isDigit (digits ++ rest) = some (digits, rest) := by
  obtain ⟨c, digits, rfl⟩ := List.exists_cons_of_ne_nil h.1
  rw [List.cons_append, takeDigits?, if_pos (h.2 c List.mem_cons_self),
    takeMoreDigits_append (fun d hd => h.2 d (List.mem_cons_of_mem c hd)) hrest]

/-! ## Literals -/

section Literals

variable {literal : Literal} {rest : List Char}

theorem takeFraction_append (hstrict : literal.IsStrict) (hrest : Literal.Stops rest) :
    takeFraction (literal.fractionText ++ (literal.exponentText ++ rest)) =
      (literal.fraction, literal.exponentText ++ rest) := by
  have hafter : ∀ c ∈ (literal.exponentText ++ rest).head?, c.isDigit = false ∧ c ≠ '_' := by
    intro c hc
    rcases literal.mem_head?_exponentText_append hrest hc with rfl | rfl | rfl | rfl <;> decide
  unfold Parts.fractionText
  cases hfraction : literal.fraction with
  | some digits =>
    have hdigits : IsDigits digits := by
      refine ⟨?_, literal.isDigit_fraction digits hfraction⟩
      rintro rfl
      exact hstrict.fraction hfraction
    show takeFraction ('.' :: (digits ++ (literal.exponentText ++ rest))) = _
    rw [takeFraction, takeDigits?_append hdigits hafter]
  | none =>
    show takeFraction (literal.exponentText ++ rest) = _
    cases htail : literal.exponentText ++ rest with
    | nil => rfl
    | cons c tail =>
      -- neither an exponent nor what comes behind a literal starts with a point
      have hpoint : c ≠ '.' := by
        rintro rfl
        have hc := literal.mem_head?_exponentText_append hrest (by rw [htail]; rfl)
        exact absurd hc (by decide)
      simp [takeFraction, hpoint]

theorem takeExponent_append (hrest : Literal.Stops rest) :
    takeExponent (literal.exponentText ++ rest) =
      (literal.exponent.map Exponent.value, rest) := by
  unfold Parts.exponentText
  -- where there is no exponent, none of its letters follows
  cases literal.exponent with
  | some exponent =>
    have hsign := exponent.ne_sign_of_mem_head?_digits_append rest
    have hafter : ∀ c ∈ rest.head?, c.isDigit = false ∧ c ≠ '_' := by
      intro c hc
      rcases hrest c hc with rfl | rfl <;> decide
    show takeExponent (exponent.mark :: (exponent.sign.text ++ exponent.digits) ++ rest) = _
    rw [List.cons_append, takeExponent, if_pos exponent.mark_eq, List.append_assoc,
      Sign.takeSign_append exponent.sign hsign]
    dsimp only
    rw [takeDigits?_append exponent.isDigits hafter]
    rfl
  | none =>
    show takeExponent rest = _
    cases rest with
    | nil => rfl
    | cons c rest =>
      have hmark : ¬(c = 'e' ∨ c = 'E') := by
        rcases hrest c rfl with rfl | rfl <;> decide
      rw [takeExponent, if_neg hmark]
      rfl

theorem takeWhole?_append (hstrict : literal.IsStrict) (hrest : Literal.Stops rest) :
    takeWhole? (literal.unsigned ++ rest) =
      some (literal.whole, literal.fractionText ++ (literal.exponentText ++ rest)) := by
  have hafter : ∀ c ∈ (literal.fractionText ++ (literal.exponentText ++ rest)).head?,
      c.isDigit = false ∧ c ≠ '_' := by
    intro c hc
    rcases literal.mem_head?_fractionText_append hrest hc with
      rfl | rfl | rfl | rfl | rfl <;> decide
  rw [Parts.unsigned, List.append_assoc, List.append_assoc]
  -- zero stands alone, and what does not start with zero may go on
  rcases hstrict.whole with hzero | ⟨c, digits, hcons, hc⟩
  · rw [hzero]
    rfl
  · have hdigits : IsDigits literal.whole :=
      ⟨by rw [hcons]; exact List.cons_ne_nil c digits, literal.isDigit_whole⟩
    have htake := takeDigits?_append hdigits hafter
    rw [hcons, List.cons_append] at htake ⊢
    rw [takeWhole?, htake]
    exact fun _ heq => hc (List.cons.inj heq).1

/-- The datum of a literal: a whole number, or a float if there is a point or an exponent. -/
def datumOf? (literal : Literal) : Option Datum :=
  if literal.fraction.isNone && literal.exponent.isNone then
    whole? (if literal.sign.isMinus then -(digitsValue literal.whole : Int)
      else digitsValue literal.whole)
  else
    real? literal.sign.isMinus literal.whole (literal.fraction.getD [])
      ((literal.exponent.map Exponent.value).getD 0)

theorem takeDecimal?_append (hstrict : literal.IsStrict) (hrest : Literal.Stops rest) :
    takeDecimal? literal.sign.isMinus (literal.unsigned ++ rest) =
      (datumOf? literal).map (·, rest) := by
  unfold takeDecimal? datumOf?
  rw [takeWhole?_append hstrict hrest]
  simp only [Option.bind_eq_bind, Option.bind_some, takeFraction_append hstrict hrest,
    takeExponent_append hrest, Option.isNone_map]
  split
  · exact (Option.map_eq_bind ..).symm
  · exact (Option.map_eq_bind ..).symm

theorem takeUnsigned?_append (hstrict : literal.IsStrict) (hrest : Literal.Stops rest) :
    takeUnsigned? literal.sign.isMinus (literal.unsigned ++ rest) =
      (datumOf? literal).map (·, rest) := by
  obtain ⟨c, tail, htext, hc⟩ := literal.exists_unsigned_eq_cons
  rw [← takeDecimal?_append hstrict hrest, htext, List.cons_append]
  -- the words for what is no finite number start with letters
  have hi : c ≠ 'i' := by rintro rfl; exact absurd hc (by decide)
  have hn : c ≠ 'n' := by rintro rfl; exact absurd hc (by decide)
  rw [takeUnsigned?]
  · exact fun _ heq => hi (List.cons.inj heq).1
  · exact fun _ heq => hn (List.cons.inj heq).1

/-- What comes behind a zero in front is no letter for a base. -/
theorem base?_of_mem_head? (hrest : Literal.Stops rest) {c : Char}
    (hc : c ∈ (literal.fractionText ++ (literal.exponentText ++ rest)).head?) :
    base? c = none := by
  rcases literal.mem_head?_fractionText_append hrest hc with rfl | rfl | rfl | rfl | rfl <;> rfl

theorem takeNumber?_append (hstrict : literal.IsStrict) (hrest : Literal.Stops rest) :
    takeNumber? (literal.text ++ rest) = (datumOf? literal).map (·, rest) := by
  rw [← takeUnsigned?_append hstrict hrest, Parts.text, List.append_assoc]
  cases hsign : literal.sign with
  | plus => exact absurd hsign hstrict.sign
  | minus => rfl
  | unsigned =>
    show takeNumber? (literal.unsigned ++ rest) = takeUnsigned? false (literal.unsigned ++ rest)
    rw [Parts.unsigned, List.append_assoc, List.append_assoc]
    -- a zero could be the first character of a base, and any other digit is not
    rcases hstrict.whole with hzero | ⟨c, digits, hcons, hc⟩
    · rw [hzero, List.singleton_append]
      cases htail : literal.fractionText ++ (literal.exponentText ++ rest) with
      | nil => rfl
      | cons c tail =>
        have hbase : base? c = none := base?_of_mem_head? hrest (by rw [htail]; rfl)
        rw [takeNumber?, hbase]
    · have hdigit : c.isDigit = true :=
        literal.isDigit_whole c (by rw [hcons]; exact List.mem_cons_self)
      obtain ⟨hminus, hplus⟩ := ne_sign_of_isDigit hdigit
      rw [hcons, List.cons_append, takeNumber?]
      · exact fun _ heq => hminus (List.cons.inj heq).1
      · exact fun _ heq => hplus (List.cons.inj heq).1
      · exact fun _ _ heq => hc (List.cons.inj heq).1

/-! ## Dates and times -/

/-- No mark of a date or a time follows digits that other characters end. -/
theorem afterMark?_eq_none {mark : Char} (hmark : mark.isDigit = false)
    {whole tail after : List Char} (hwhole : ∀ c ∈ whole, c.isDigit = true)
    (htail : ∀ c ∈ tail.head?, c.isDigit = false ∧ c ≠ mark) {length least greatest value : Nat}
    (h : takeBetween? length least greatest (whole ++ tail) = some (value, after)) :
    afterMark? mark after = none := by
  dsimp only [takeBetween?] at h
  split at h
  · next hdigits =>
    obtain ⟨hlength, hall, _, _⟩ := hdigits
    cases h
    -- as many digits as asked for are there only within the run
    have hwithin : length ≤ whole.length := by
      by_contra hbeyond
      rw [List.take_append, List.take_of_length_le (by omega)] at hlength hall
      cases tail with
      | nil =>
        rw [List.take_nil, List.append_nil] at hlength
        omega
      | cons c tail =>
        have hmem : c ∈ whole ++ (c :: tail).take (length - whole.length) := by
          rw [List.take_cons (by omega)]
          exact List.mem_append_right _ List.mem_cons_self
        have hc := List.all_eq_true.mp hall c hmem
        rw [(htail c rfl).1] at hc
        cases hc
    rw [List.drop_append_of_le_length hwithin]
    -- so the mark would have to be a digit, or be behind the run
    cases hdrop : whole.drop length with
    | nil =>
      cases tail with
      | nil => rfl
      | cons c tail => exact if_neg (htail c rfl).2
    | cons c rest =>
      have hc : c.isDigit = true :=
        hwhole c (List.mem_of_mem_drop (by rw [hdrop]; exact List.mem_cons_self))
      refine if_neg ?_
      rintro rfl
      rw [hc] at hmark
      cases hmark
  · cases h

theorem takeMoment?_of_digits {whole tail : List Char} (hwhole : ∀ c ∈ whole, c.isDigit = true)
    (htail : ∀ c ∈ tail.head?, c.isDigit = false ∧ c ≠ '-' ∧ c ≠ ':') :
    takeMoment? (whole ++ tail) = none := by
  -- a date has a hyphen behind its year, and a time a colon behind its hour
  have hdate : afterDate? (whole ++ tail) = none := by
    unfold afterDate?
    cases htake : takeBetween? 4 0 9999 (whole ++ tail) with
    | none => rfl
    | some taken =>
      have hmark : afterMark? '-' taken.2 = none :=
        afterMark?_eq_none rfl hwhole (fun c hc => ⟨(htail c hc).1, (htail c hc).2.1⟩) htake
      simp [hmark]
  have htime : afterTime? (whole ++ tail) = none := by
    unfold afterTime?
    cases htake : takeBetween? 2 0 23 (whole ++ tail) with
    | none => rfl
    | some taken =>
      have hmark : afterMark? ':' taken.2 = none :=
        afterMark?_eq_none rfl hwhole (fun c hc => ⟨(htail c hc).1, (htail c hc).2.2⟩) htake
      simp [hmark]
  rw [takeMoment?, afterMoment?, hdate, htime]
  rfl

theorem takeBetween?_cons {c : Char} (hc : c.isDigit = false) (length least greatest : Nat)
    (text : List Char) : takeBetween? (length + 1) least greatest (c :: text) = none := by
  refine if_neg fun h => ?_
  have hdigit := List.all_eq_true.mp h.2.1 c List.mem_cons_self
  rw [hc] at hdigit
  cases hdigit

/-- A literal is no date and no time. -/
theorem takeMoment?_append (hstrict : literal.IsStrict) (hrest : Literal.Stops rest) :
    takeMoment? (literal.text ++ rest) = none := by
  rw [Parts.text, List.append_assoc]
  cases hsign : literal.sign with
  | plus => exact absurd hsign hstrict.sign
  | minus =>
    -- the sign stands in the place of the first digit
    show takeMoment? ('-' :: (literal.unsigned ++ rest)) = none
    rw [takeMoment?, afterMoment?, afterDate?, afterTime?, takeBetween?_cons rfl,
      takeBetween?_cons rfl]
    rfl
  | unsigned =>
    show takeMoment? (literal.unsigned ++ rest) = none
    rw [Parts.unsigned, List.append_assoc, List.append_assoc]
    refine takeMoment?_of_digits literal.isDigit_whole fun c hc => ?_
    rcases literal.mem_head?_fractionText_append hrest hc with
      rfl | rfl | rfl | rfl | rfl <;> decide

/-! ## Values -/

/-- Literals start neither like strings nor like truth values. -/
theorem takeSimple?_append (hstrict : literal.IsStrict) (hrest : Literal.Stops rest) :
    takeSimple? (literal.text ++ rest) = (datumOf? literal).map (·, rest) := by
  obtain ⟨c, tail, htext, hne⟩ := hstrict.exists_text_eq_cons
  have hmoment := takeMoment?_append hstrict hrest
  have hnumber := takeNumber?_append hstrict hrest
  rw [htext, List.cons_append] at hmoment hnumber ⊢
  rw [takeSimple?, hmoment]
  · exact hnumber
  · exact fun _ heq => hne '"' rfl (by decide) (List.cons.inj heq).1
  · exact fun _ heq => hne '\'' rfl (by decide) (List.cons.inj heq).1
  · exact fun _ heq => hne 't' rfl (by decide) (List.cons.inj heq).1
  · exact fun _ heq => hne 'f' rfl (by decide) (List.cons.inj heq).1

end Literals

/-! ## Numbers that are written -/

variable {rest : List Char}

/-- **Whole numbers are read back**, if they can be written. -/
theorem takeSimple?_of_writeWhole? {n : Nat} {text : List Char} (h : writeWhole? n = some text)
    (hrest : Literal.Stops rest) : takeSimple? (text ++ rest) = some (.whole n, rest) := by
  unfold writeWhole? at h
  split at h
  · cases h
  · next hfits =>
    have htext : text = (Literal.ofNat n).text := by
      rw [← Option.some.inj h, decide_eq_false (by omega), Int.natAbs_natCast]
      exact (List.append_nil _).symm
    rw [htext, takeSimple?_append (Literal.isStrict_ofNat n) hrest]
    -- without a point and an exponent it is a whole number, and not too great for one
    have hdatum : datumOf? (Literal.ofNat n) = some (.whole n) := by
      have hvalue : digitsValue (Literal.ofNat n).whole = n := digitsValue_toDigits n
      have hminus : ¬(Literal.ofNat n).sign.isMinus = true := Bool.false_ne_true
      have hwhole : ((Literal.ofNat n).fraction.isNone && (Literal.ofNat n).exponent.isNone) =
        true :=
        rfl
      rw [datumOf?, if_pos hwhole, if_neg hminus, hvalue, whole?, if_pos (by omega)]
    rw [hdatum]
    rfl

theorem isPointed_layout : layout.IsPointed := ⟨rfl, .inl rfl⟩

/-- **Finite floats are read back.** -/
theorem takeSimple?_writeFloat {x : Float} (hfinite : x.isFinite = true)
    (hrest : Literal.Stops rest) :
    takeSimple? (writeFloat x ++ rest) = some (.real x, rest) := by
  obtain ⟨literal, htext, hstrict, hreal, hvalue⟩ :=
    Layout.exists_literal isPointed_layout hfinite
  -- a point or an exponent makes it a float
  have hdatum : datumOf? literal = some (.real x) := by
    have hnot : (literal.fraction.isNone && literal.exponent.isNone) = false := by
      rw [Bool.and_eq_false_iff, Option.isNone_eq_false_iff, Option.isNone_eq_false_iff]
      exact hreal
    have hpower :
      (literal.exponent.map Exponent.value).getD 0 - ((literal.fraction.getD []).length : Int) =
        literal.power := by
      rw [Literal.power]
      cases literal.exponent <;> rfl
    rw [datumOf?, hnot, if_neg Bool.false_ne_true, real?, hpower]
    show (if literal.value.isInf && !literal.sign.isMinus then none
      else some (Datum.real literal.value)) =
      some (Datum.real x)
    rw [hvalue, isInf_of_isFinite hfinite]
    rfl
  rw [writeFloat, isNaN_of_isFinite hfinite, if_neg Bool.false_ne_true, ← htext,
    takeSimple?_append hstrict hrest, hdatum]
  rfl

end Kerf.Toml
