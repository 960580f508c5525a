import Mathlib
import Kerf.Path.Command
import Kerf.Proofs.Decimal.Literal

/-!
# Written path data

Path data may be written in many ways: between two lexemes stands any run of blanks and
commas, and none where the two cannot be taken for one. What is read back does not depend
on the way.

- `Lexeme.mayTouch`: where no run is needed. A letter may touch all that comes after it; a
  number may touch what cannot go on with it.
- `IsWritingAfter`: the texts that lexemes are written as, and `IsWriting`, those at the
  start of path data.
- `scanNumber_text_append`: a literal is scanned up to its end, if what comes after it
  cannot go on with it (`EndsBefore`), and in a writing nothing can
  (`endsBefore_of_isWritingAfter`).
- `commands_of_isWriting`: commands are read back from all their writings.
-/

namespace Kerf.Path

open Decimal (Sign Exponent Parts Literal)

/-! ## Lexemes -/

/-- A letter or a number as it is written. -/
inductive Lexeme where
  | letter (c : Char) (h : c.isAlpha = true)
  | number (literal : Literal)

namespace Lexeme

/-- The characters of a lexeme. -/
def text : Lexeme → List Char
  | letter c _ => [c]
  | number literal => literal.text

/-- Whether the second of two lexemes may be written right after the first. -/
def mayTouch : Lexeme → Lexeme → Prop
  | letter .., _ => True
  | number _, letter c _ => c ≠ 'e' ∧ c ≠ 'E'
  | number first, number second =>
    second.sign ≠ .unsigned ∨
      second.whole = [] ∧ (first.fraction.isSome = true ∨ first.exponent.isSome = true)

instance (first second : Lexeme) : Decidable (first.mayTouch second) :=
  match first, second with
  | letter .., _ => inferInstanceAs (Decidable True)
  | number _, letter c _ => inferInstanceAs (Decidable (c ≠ 'e' ∧ c ≠ 'E'))
  | number first, number second => inferInstanceAs (Decidable (second.sign ≠ .unsigned ∨
      second.whole = [] ∧ (first.fraction.isSome = true ∨ first.exponent.isSome = true)))

end Lexeme

/-- The texts that some lexemes are written as, after a lexeme or at the start of a text. -/
inductive IsWritingAfter : Option Lexeme → List Lexeme → List Char → Prop
  | nil {previous : Option Lexeme} {run : List Char} (hrun : ∀ c ∈ run, isSeparator c = true) :
    IsWritingAfter previous [] run
  | cons {previous : Option Lexeme} {run : List Char} {lexeme : Lexeme} {rest : List Lexeme}
    {text : List Char} (hrun : ∀ c ∈ run, isSeparator c = true)
    (htouch : run = [] → ∀ before ∈ previous, before.mayTouch lexeme)
    (hrest : IsWritingAfter (some lexeme) rest text) :
    IsWritingAfter previous (lexeme :: rest) (run ++ (lexeme.text ++ text))

/-- The texts that some lexemes are written as. -/
def IsWriting (lexemes : List Lexeme) (text : List Char) : Prop :=
  IsWritingAfter none lexemes text

/-- With a blank in front of each lexeme, nothing touches. -/
theorem isWritingAfter_spaced (previous : Option Lexeme) (lexemes : List Lexeme) :
    IsWritingAfter previous lexemes (lexemes.flatMap fun lexeme => ' ' :: lexeme.text) := by
  induction lexemes generalizing previous with
  | nil => exact .nil (by simp)
  | cons lexeme rest ih =>
    have hrun : ∀ c ∈ [' '], isSeparator c = true := List.all_eq_true.mp rfl
    exact .cons hrun (fun hempty => absurd hempty (by decide)) (ih (some lexeme))

/-- More separators in front make no difference. -/
theorem IsWritingAfter.run_append {previous : Option Lexeme} {lexemes : List Lexeme}
    {text : List Char} (h : IsWritingAfter previous lexemes text) {run : List Char}
    (hrun : ∀ c ∈ run, isSeparator c = true) :
    IsWritingAfter previous lexemes (run ++ text) := by
  cases h with
  | nil hmore => exact .nil (List.forall_mem_append.mpr ⟨hrun, hmore⟩)
  | @cons _ more lexeme rest text hmore htouch hrest =>
    rw [← List.append_assoc]
    refine .cons (List.forall_mem_append.mpr ⟨hrun, hmore⟩) (fun hempty => htouch ?_) hrest
    exact (List.append_eq_nil_iff.mp hempty).2

/-! ## Classes of characters -/

theorem isSeparator_of_isAlpha {c : Char} (h : c.isAlpha = true) : isSeparator c = false := by
  simp [isSeparator, Text.isAsciiBlank, Text.ne_of_isAlpha h]

theorem isSeparator_of_isDigit {c : Char} (h : c.isDigit = true) : isSeparator c = false := by
  have hne : ∀ d : Char, d.isDigit = false → c ≠ d := by
    rintro d hd rfl
    rw [h] at hd
    cases hd
  simp [isSeparator, Text.isAsciiBlank, hne]

/-- A number starts with something that is neither a separator nor a letter. -/
theorem not_of_isNumberStart {c : Char} (h : isNumberStart c = true) :
    isSeparator c = false ∧ c.isAlpha = false := by
  simp only [isNumberStart, Bool.or_eq_true, beq_iff_eq] at h
  rcases h with ((hdigit | rfl) | rfl) | rfl
  · refine ⟨isSeparator_of_isDigit hdigit, ?_⟩
    rw [Bool.eq_false_iff]
    intro hletter
    rw [Text.isDigit_of_isAlpha hletter] at hdigit
    cases hdigit
  · exact ⟨rfl, rfl⟩
  · exact ⟨rfl, rfl⟩
  · exact ⟨rfl, rfl⟩

/-- A separator is no part of a number. -/
theorem not_of_isSeparator {c : Char} (h : isSeparator c = true) :
    c.isDigit = false ∧ c ≠ 'e' ∧ c ≠ 'E' ∧ c ≠ '.' := by
  simp only [isSeparator, Text.isAsciiBlank, Bool.or_eq_true, beq_iff_eq] at h
  rcases h with ((((rfl | rfl) | rfl) | rfl) | rfl) | rfl
  all_goals decide

/-! ## Scanning literals -/

/-- A text that a literal does not go on with. -/
structure EndsBefore (literal : Literal) (after : List Char) : Prop where
  digit : ∀ c ∈ after.head?, c.isDigit = false
  mark : ∀ c ∈ after.head?, c ≠ 'e' ∧ c ≠ 'E'
  point : '.' ∈ after.head? → literal.fraction.isSome = true ∨ literal.exponent.isSome = true

theorem scanSign_append_text (sign : Sign) {text : List Char}
    (h : ∀ c ∈ text.head?, c ≠ '-' ∧ c ≠ '+') :
    scanSign (sign.text ++ text) = (sign.text, text) := by
  cases sign with
  | plus | minus => rfl
  | unsigned =>
    cases text with
    | nil => rfl
    | cons c text =>
      obtain ⟨hminus, hplus⟩ := h c rfl
      simp [Sign.text, scanSign, hminus, hplus]

theorem scanExponent_exponentText (literal : Literal) {after : List Char}
    (h : EndsBefore literal after) :
    scanExponent (literal.exponentText ++ after) = (literal.exponentText, after) := by
  -- what is behind the literal is no exponent, and does not go on with its digits
  cases hexponent : literal.exponent with
  | none =>
    rw [Parts.exponentText_of_none hexponent, List.nil_append]
    cases after with
    | nil => rfl
    | cons c after =>
      obtain ⟨hsmall, hcapital⟩ := h.mark c rfl
      simp [scanExponent, hsmall, hcapital]
  | some exponent =>
    have htext : literal.exponentText =
        exponent.mark :: (exponent.sign.text ++ exponent.digits) :=
      Parts.exponentText_of_some hexponent
    obtain ⟨hne, hdigits⟩ := exponent.isDigits
    have hhead := exponent.ne_sign_of_mem_head?_digits_append after
    have htake := Text.takeWhile_run_append hdigits h.digit
    have hdrop := Text.dropWhile_run_append hdigits h.digit
    rw [htext, List.cons_append, List.append_assoc, scanExponent,
      scanSign_append_text exponent.sign hhead]
    simp only [htake, hdrop]
    exact if_pos ⟨exponent.mark_eq, hne⟩

theorem scanFraction_fractionText (literal : Literal) {after : List Char}
    (h : EndsBefore literal after) :
    scanFraction (literal.fractionText ++ (literal.exponentText ++ after)) =
      (literal.fractionText, literal.exponentText ++ after) := by
  -- the exponent stands behind the fraction, or nothing does and the literal ends
  have hexponentHead : ∀ c ∈ (literal.exponentText ++ after).head?,
      c ∈ literal.exponentText.head? ∨ literal.exponentText = [] ∧ c ∈ after.head? := by
    intro c hc
    rw [List.head?_append, Option.mem_def, Option.or_eq_some_iff] at hc
    rwa [List.head?_eq_none_iff] at hc
  cases hfraction : literal.fraction with
  | some digits =>
    have htext := Parts.fractionText_of_some hfraction
    have hdigits := literal.isDigit_fraction digits hfraction
    have hafter : ∀ c ∈ (literal.exponentText ++ after).head?, c.isDigit = false := by
      intro c hc
      rcases hexponentHead c hc with hmark | ⟨-, hc⟩
      · exact literal.isDigit_of_mem_head?_exponentText hmark
      · exact h.digit c hc
    rw [htext, List.cons_append, scanFraction, Text.takeWhile_run_append hdigits hafter,
      Text.dropWhile_run_append hdigits hafter]
  | none =>
    rw [Parts.fractionText_of_none hfraction, List.nil_append]
    cases hrest : literal.exponentText ++ after with
    | nil => rfl
    | cons c rest =>
      have hpoint : c ≠ '.' := by
        rintro rfl
        have hhead : '.' ∈ (literal.exponentText ++ after).head? := by rw [hrest]; rfl
        rcases hexponentHead '.' hhead with hmark | ⟨hempty, hafter⟩
        · exact absurd (literal.eq_of_mem_head?_exponentText hmark) (by decide)
        · -- a point that comes right after the digits would go on with them
          rcases h.point hafter with hsome | hsome
          · rw [hfraction] at hsome
            cases hsome
          · obtain ⟨exponent, hexponent⟩ := Option.isSome_iff_exists.mp hsome
            rw [Parts.exponentText_of_some hexponent] at hempty
            cases hempty
      simp [scanFraction, hpoint]

/-- A literal is scanned up to its end. -/
theorem scanNumber_text_append (literal : Literal) {after : List Char}
    (h : EndsBefore literal after) :
    scanNumber (literal.text ++ after) = (literal.text, after) := by
  have hsign : scanSign (literal.text ++ after) =
      (literal.sign.text, literal.unsigned ++ after) := by
    rw [Parts.text, List.append_assoc]
    refine scanSign_append_text literal.sign ?_
    obtain ⟨d, rest, hunsigned, -⟩ := literal.exists_unsigned_eq_cons
    have hd := literal.ne_of_mem_head?_unsigned (c := d) (by rw [hunsigned]; rfl)
    rw [hunsigned]
    rintro _ ⟨⟩
    exact hd
  -- neither what is written behind the digits nor what follows the literal is a digit
  have htail : ∀ c ∈ (literal.fractionText ++ (literal.exponentText ++ after)).head?,
      c.isDigit = false := by
    intro c hc
    rw [← List.append_assoc, List.head?_append, Option.mem_def, Option.or_eq_some_iff] at hc
    rcases hc with hc | ⟨-, hc⟩
    · exact literal.isDigit_of_mem_head?_tail hc
    · exact h.digit c hc
  have hunsigned : literal.unsigned ++ after =
      literal.whole ++ (literal.fractionText ++ (literal.exponentText ++ after)) := by
    rw [Parts.unsigned, List.append_assoc, List.append_assoc]
  have htake := Text.takeWhile_run_append literal.isDigit_whole htail
  have hdrop := Text.dropWhile_run_append literal.isDigit_whole htail
  simp only [scanNumber, hsign, hunsigned, htake, hdrop, scanFraction_fractionText literal h,
    scanExponent_exponentText literal h]
  rw [Parts.text, Parts.unsigned, List.append_assoc, List.append_assoc]

theorem exists_text_eq_cons (literal : Literal) :
    ∃ c rest, literal.text = c :: rest ∧ isNumberStart c = true := by
  obtain ⟨d, rest, htext, hd⟩ := literal.exists_unsigned_eq_cons
  have hstart : isNumberStart d = true := by
    rcases hd with hdigit | rfl
    · simp [isNumberStart, hdigit]
    · rfl
  cases hsign : literal.sign with
  | unsigned => exact ⟨d, rest, by rw [Parts.text, hsign, htext]; rfl, hstart⟩
  | plus => exact ⟨'+', d :: rest, by rw [Parts.text, hsign, htext]; rfl, rfl⟩
  | minus => exact ⟨'-', d :: rest, by rw [Parts.text, hsign, htext]; rfl, rfl⟩

/-! ## What comes after a number -/

theorem endsBefore_of_isSeparator (literal : Literal) {c : Char} (h : isSeparator c = true)
    (rest : List Char) : EndsBefore literal (c :: rest) := by
  obtain ⟨hdigit, hsmall, hcapital, hpoint⟩ := not_of_isSeparator h
  constructor
  · rintro _ ⟨⟩
    exact hdigit
  · rintro _ ⟨⟩
    exact ⟨hsmall, hcapital⟩
  · rintro ⟨⟩
    exact absurd rfl hpoint

/-- What may touch a number does not go on with it. -/
theorem endsBefore_of_mayTouch {literal : Literal} {next : Lexeme}
    (h : (Lexeme.number literal).mayTouch next) (rest : List Char) :
    EndsBefore literal (next.text ++ rest) := by
  cases next with
  | letter c hletter =>
    -- a letter other than that of an exponent
    constructor
    · rintro _ ⟨⟩
      exact Text.isDigit_of_isAlpha hletter
    · rintro _ ⟨⟩
      exact h
    · rintro ⟨⟩
      cases hletter
  | number second =>
    cases hsign : second.sign with
    | plus | minus =>
      -- a sign ends every number
      have htext : ∃ mark, second.text ++ rest = mark :: (second.unsigned ++ rest) ∧
          (mark = '+' ∨ mark = '-') := by
        rw [Parts.text, hsign]
        exact ⟨_, rfl, by decide⟩
      obtain ⟨mark, htext, hmark⟩ := htext
      rw [Lexeme.text, htext]
      constructor
      · rintro _ ⟨⟩
        rcases hmark with rfl | rfl <;> rfl
      · rintro _ ⟨⟩
        rcases hmark with rfl | rfl <;> decide
      · rintro ⟨⟩
        exact absurd hmark (by decide)
    | unsigned =>
      -- it starts with a point, and the first number has had its own
      obtain ⟨hwhole, hpoint⟩ := h.resolve_left (not_not.mpr hsign)
      have htext : ∃ tail, second.text ++ rest = '.' :: tail := by
        rcases second.has_digit with hdigit | ⟨digits, hfraction, -⟩
        · exact absurd hwhole hdigit
        · refine ⟨digits ++ second.exponentText ++ rest, ?_⟩
          rw [Parts.text, Parts.unsigned, hsign, hwhole, Parts.fractionText_of_some hfraction]
          rfl
      obtain ⟨tail, htext⟩ := htext
      rw [Lexeme.text, htext]
      constructor
      · rintro _ ⟨⟩
        rfl
      · rintro _ ⟨⟩
        decide
      · exact fun _ => hpoint

/-- In a writing, nothing goes on with the number before it. -/
theorem endsBefore_of_isWritingAfter {literal : Literal} {lexemes : List Lexeme}
    {text : List Char} (h : IsWritingAfter (some (.number literal)) lexemes text) :
    EndsBefore literal text := by
  cases h with
  | nil hrun =>
    cases text with
    | nil => exact ⟨by simp, by simp, by simp⟩
    | cons c text => exact endsBefore_of_isSeparator literal (hrun c List.mem_cons_self) text
  | @cons _ run lexeme rest text hrun htouch hrest =>
    cases run with
    | nil => exact endsBefore_of_mayTouch (htouch rfl _ rfl) text
    | cons c run => exact endsBefore_of_isSeparator literal (hrun c List.mem_cons_self) _

/-! ## Tokens -/

section Tokens

variable {α : Type} [Written α]

theorem tokensFrom_run_append {run : List Char} (h : ∀ c ∈ run, isSeparator c = true)
    (position : Nat) (text : List Char) :
    (tokensFrom position (run ++ text) : Except Fault (List (Token α))) =
      tokensFrom (position + run.length) text := by
  induction run generalizing position with
  | nil => rfl
  | cons c run ih =>
    rw [List.forall_mem_cons] at h
    rw [List.cons_append, tokensFrom, if_pos h.1, ih h.2, List.length_cons, Nat.add_assoc,
      Nat.add_comm 1]

theorem tokensFrom_letter {c : Char} (h : c.isAlpha = true) (position : Nat)
    (text : List Char) :
    (tokensFrom position (c :: text) : Except Fault (List (Token α))) =
      andThen (.letter c) (tokensFrom (position + 1) text) := by
  have hseparator : ¬ isSeparator c = true := by
    rw [isSeparator_of_isAlpha h]
    exact Bool.false_ne_true
  rw [tokensFrom, if_neg hseparator, if_pos h]

theorem tokensFrom_number (literal : Literal) {after : List Char} (h : EndsBefore literal after)
    {value : α} (hread : Written.read? literal.text = some value) (position : Nat) :
    (tokensFrom position (literal.text ++ after) : Except Fault (List (Token α))) =
      andThen (.number value) (tokensFrom (position + literal.text.length) after) := by
  obtain ⟨c, rest, htext, hstart⟩ := exists_text_eq_cons literal
  obtain ⟨hseparator, hletter⟩ := not_of_isNumberStart hstart
  have hscan := scanNumber_text_append literal h
  rw [htext, List.cons_append] at hscan ⊢
  rw [htext] at hread
  rw [tokensFrom, if_neg (by simp [hseparator]), if_neg (by simp [hletter]), dif_pos hstart]
  simp only [hscan, hread]

/-- The token of a lexeme, with a value for each number. -/
def Lexeme.token (value : Literal → α) : Lexeme → Token α
  | .letter c _ => .letter c
  | .number literal => .number (value literal)

/-- The tokens of a writing are those of its lexemes. The induction is on how the writing
is put together. -/
theorem tokensFrom_of_isWritingAfter {value : Literal → α}
    (hread : ∀ literal : Literal, Written.read? literal.text = some (value literal))
    {previous : Option Lexeme} {lexemes : List Lexeme} {text : List Char}
    (h : IsWritingAfter previous lexemes text) (position : Nat) :
    tokensFrom position text = .ok (lexemes.map (Lexeme.token value)) := by
  induction h generalizing position with
  | nil hrun =>
    have hend := tokensFrom_run_append (α := α) hrun position []
    rw [List.append_nil] at hend
    rw [hend, tokensFrom]
    rfl
  | @cons _ run lexeme rest text hrun _ hrest ih =>
    -- the separators in front are passed over
    rw [tokensFrom_run_append hrun]
    cases lexeme with
    | letter c hletter =>
      rw [Lexeme.text, List.singleton_append, tokensFrom_letter hletter, ih]
      rfl
    | number literal =>
      have hends := endsBefore_of_isWritingAfter hrest
      rw [Lexeme.text, tokensFrom_number literal hends (hread literal), ih]
      rfl

omit [Written α] in
theorem group_numbers_append (values : List α) (tokens : List (Token α)) :
    group (values.map .number ++ tokens) = (values ++ (group tokens).1, (group tokens).2) := by
  induction values with
  | nil => rfl
  | cons value values ih => rw [List.map_cons, List.cons_append, group, ih]; rfl

end Tokens

/-! ## Commands -/

/-- A command as it is written. -/
structure Phrase where
  letter : Char
  isAlpha_letter : letter.isAlpha = true
  numbers : List Literal

namespace Phrase

/-- The lexemes of a command. -/
def lexemes (phrase : Phrase) : List Lexeme :=
  .letter phrase.letter phrase.isAlpha_letter :: phrase.numbers.map .number

/-- What a command says. -/
def command (phrase : Phrase) : Command Float :=
  ⟨phrase.letter, phrase.numbers.map Literal.value⟩

end Phrase

theorem group_phrases (phrases : List Phrase) :
    group ((phrases.flatMap Phrase.lexemes).map (Lexeme.token Literal.value)) =
      ([], phrases.map Phrase.command) := by
  induction phrases with
  | nil => rfl
  | cons phrase phrases ih =>
    have hnumbers : (phrase.numbers.map Lexeme.number).map (Lexeme.token Literal.value) =
        (phrase.numbers.map Literal.value).map Token.number := by
      rw [List.map_map, List.map_map]
      rfl
    have hgroup := group_numbers_append (phrase.numbers.map Literal.value)
      ((phrases.flatMap Phrase.lexemes).map (Lexeme.token Literal.value))
    rw [List.flatMap_cons, List.map_append, Phrase.lexemes, List.map_cons, hnumbers,
      List.cons_append, Lexeme.token, group, hgroup, ih, List.append_nil]
    rfl

/-- **Commands are read back from all their writings**: each with its letter and its
numbers, in order, and each number as the float that is read from its text alone. Two
writings of the same commands are read alike. -/
theorem commands_of_isWriting {phrases : List Phrase} {text : List Char}
    (h : IsWriting (phrases.flatMap Phrase.lexemes) text) :
    commands text = .ok (phrases.map Phrase.command) ∧
      (∀ literal : Literal, Written.read? literal.text = some literal.value) ∧
      ∀ other, IsWriting (phrases.flatMap Phrase.lexemes) other →
        (commands other : Except Fault (List (Command Float))) = commands text := by
  have hread : ∀ literal : Literal, Written.read? literal.text = some literal.value :=
    Literal.readFloat?_text
  have hcommands : ∀ text, IsWriting (phrases.flatMap Phrase.lexemes) text →
      commands text = .ok (phrases.map Phrase.command) := by
    intro text h
    rw [commands, tokens, tokensFrom_of_isWritingAfter hread h 0, Except.map, group_phrases]
  refine ⟨hcommands text h, hread, ?_⟩
  intro other hother
  rw [hcommands other hother, hcommands text h]

/-- Five numbers, a name that might be an exponent, and one more number. -/
def packed : List Phrase :=
  let point : Literal := ⟨⟨.unsigned, [], some ['5'], none, by simp, by simp⟩, by simp⟩
  let exponent : Exponent := ⟨'E', .minus, ['1'], .inr rfl, List.cons_ne_nil _ _, by simp⟩
  [ ⟨'M', rfl, [⟨⟨.unsigned, ['1'], some [], none, by simp, by simp⟩, by simp⟩,
      ⟨⟨.minus, ['2', '0'], none, none, by simp, by simp⟩, by simp⟩]⟩,
    ⟨'L', rfl,
      [point, point, ⟨⟨.minus, ['1'], none, some exponent, by simp, by simp⟩, by simp⟩]⟩,
    ⟨'e', rfl, [⟨⟨.unsigned, ['5'], none, none, by simp, by simp⟩, by simp⟩]⟩ ]

/-- The text `M1.-20L.5.5-1E-1,e5` says the same as with a blank in front of each letter
and number. -/
theorem commands_of_isWriting_packed :
    IsWriting (packed.flatMap Phrase.lexemes) "M1.-20L.5.5-1E-1,e5".toList ∧
      commands "M1.-20L.5.5-1E-1,e5".toList = .ok (packed.map Phrase.command) ∧
      (commands " M 1. -20 L .5 .5 -1E-1 e 5".toList : Except Fault (List (Command Float))) =
        commands "M1.-20L.5.5-1E-1,e5".toList := by
  have hnone : ∀ c ∈ ([] : List Char), isSeparator c = true := List.all_eq_true.mp rfl
  have hcomma : ∀ c ∈ [','], isSeparator c = true := List.all_eq_true.mp rfl
  have h : IsWriting (packed.flatMap Phrase.lexemes) "M1.-20L.5.5-1E-1,e5".toList := by
    refine .cons hnone (by decide) (.cons hnone (by decide) (.cons hnone (by decide) ?_))
    refine .cons hnone (by decide) (.cons hnone (by decide) (.cons hnone (by decide) ?_))
    refine .cons hnone (by decide) (.cons hcomma (by decide) (.cons hnone (by decide) ?_))
    exact .nil hnone
  obtain ⟨hcommands, -, hother⟩ := commands_of_isWriting h
  exact ⟨h, hcommands, hother _ (isWritingAfter_spaced none _)⟩

end Kerf.Path
