import Mathlib
import Kerf.Proofs.Decimal.Faithful
import Kerf.Proofs.Path.Pattern
import Kerf.Proofs.Program.LineComments
import Kerf.Proofs.Program.Rejection

/-!
# The codes of motions

A line opens with a code if it starts with the letter G, in either case, and digits; all
the digits that follow one another belong to the code (`Opening`). The motion of a line is
looked for by a pattern, zeros and a last digit with neither a digit nor a point behind
it. What is found that way is told by the number of the code, since a run of digits is the
digits of its value with zeros in front.

- `motion?_eq_some_iff_pattern`: what is looked for is `[Gg]0*[01]([^0-9.]|$)`, with the
  last digit of the motion.
- `Opening.motion?_text_eq_some_iff`: a line that opens with a code has the motion with
  its number, if no point follows.
- `estimate_insert_other`: wherever a line with another code is put into a program, the
  machine moves as without it.
- `motion?_by_number`: all of this in one, and that zeros in front do not matter.
-/

namespace Kerf.Program

open Decimal (IsDigits digitsValue)
open Kerf.Path (oneOf mem_oneOf_iff mem_comp_iff mem_star_iff)
open RegularExpression (star)

/-! ## Motions and their codes -/

/-- The number of the code of a motion. -/
def Motion.number : Motion → Nat
  | .rapid => 0
  | .cut => 1

/-- The last digit of the code of a motion. -/
def Motion.digit : Motion → Char
  | .rapid => '0'
  | .cut => '1'

theorem Motion.toDigits_number (motion : Motion) :
    Nat.toDigits 10 motion.number = [motion.digit] := by
  cases motion <;> rfl

theorem Motion.isDigits_digit (motion : Motion) : IsDigits [motion.digit] := by
  cases motion <;> decide

theorem Motion.number_le (motion : Motion) : motion.number ≤ 1 := by
  cases motion <;> decide

/-- The letters of codes. -/
def codeLetters : List Char :=
  ['G', 'g']

theorem mem_codeLetters_iff {c : Char} : c ∈ codeLetters ↔ c.toUpper = 'G' := by
  rw [Text.toUpper_eq_iff (by decide), codeLetters, List.mem_pair]
  rfl

/-- A text that opens with a code: a letter, all the digits behind it, and what follows
these. -/
structure Opening where
  letter : Char
  digits : List Char
  rest : List Char
  letter_mem : letter ∈ codeLetters
  isDigits : IsDigits digits
  rest_starts : ∀ c ∈ rest.head?, c.isDigit = false

namespace Opening

/-- The characters of the text. -/
def text (opening : Opening) : List Char :=
  opening.letter :: (opening.digits ++ opening.rest)

/-- The number of the code. -/
def number (opening : Opening) : Nat :=
  digitsValue opening.digits

/-- Whether a point follows the digits. -/
def IsPointed (opening : Opening) : Prop :=
  opening.rest.head? = some '.'

/-- Whether the code is none of those of motions. -/
def IsOther (opening : Opening) : Prop :=
  1 < opening.number ∨ opening.IsPointed

/-- The text with some more zeros in front of the digits. -/
def padded (opening : Opening) (zeros : Nat) : Opening where
  letter := opening.letter
  digits := List.replicate zeros '0' ++ opening.digits
  rest := opening.rest
  letter_mem := opening.letter_mem
  isDigits := opening.isDigits.zeros_append zeros
  rest_starts := opening.rest_starts

@[simp] theorem number_padded (opening : Opening) (zeros : Nat) :
    (opening.padded zeros).number = opening.number :=
  Decimal.digitsValue_zeros_append zeros opening.digits

@[simp] theorem isPointed_padded (opening : Opening) (zeros : Nat) :
    (opening.padded zeros).IsPointed ↔ opening.IsPointed :=
  Iff.rfl

/-- A text opens with one code at most. -/
theorem eq_of_text_eq {a b : Opening} (h : a.text = b.text) : a = b := by
  obtain ⟨hletter, htail⟩ := List.cons.inj h
  have htake := congrArg (List.takeWhile Char.isDigit) htail
  rw [Text.takeWhile_run_append a.isDigits.2 a.rest_starts,
    Text.takeWhile_run_append b.isDigits.2 b.rest_starts] at htake
  have hdrop := congrArg (List.dropWhile Char.isDigit) htail
  rw [Text.dropWhile_run_append a.isDigits.2 a.rest_starts,
    Text.dropWhile_run_append b.isDigits.2 b.rest_starts] at hdrop
  cases a
  cases b
  obtain rfl := hletter
  obtain rfl := htake
  obtain rfl := hdrop
  rfl

end Opening

/-! ## The pattern of motions -/

/-- `[Gg]0*` and the last digit of a motion. -/
def motionPattern (motion : Motion) : RegularExpression Char :=
  oneOf codeLetters * (star (oneOf ['0']) * oneOf [motion.digit])

/-- Whether a number does not go on with a text: it is empty, or it starts with neither a
digit nor a point. -/
def EndsNumber (text : List Char) : Prop :=
  ∀ c ∈ text.head?, c.isDigit = false ∧ c ≠ '.'

theorem mem_motionPattern_iff {motion : Motion} {word : List Char} :
    word ∈ (motionPattern motion).matches' ↔
      ∃ letter ∈ codeLetters, ∃ zeros, word =
        letter :: (List.replicate zeros '0' ++ [motion.digit]) := by
  simp only [motionPattern, mem_comp_iff, mem_oneOf_iff, mem_star_iff mem_oneOf_iff,
    List.mem_singleton]
  constructor
  · rintro ⟨_, ⟨letter, hletter, rfl⟩, _, ⟨zeros, hzeros, _, ⟨_, rfl, rfl⟩, rfl⟩, rfl⟩
    refine ⟨letter, hletter, zeros.length, ?_⟩
    rw [← List.eq_replicate_iff.mpr ⟨rfl, hzeros⟩, List.singleton_append]
  · rintro ⟨letter, hletter, zeros, rfl⟩
    exact ⟨_, ⟨letter, hletter, rfl⟩, _, ⟨_, fun c hc => List.eq_of_mem_replicate hc, _,
      ⟨motion.digit, rfl, rfl⟩, rfl⟩, rfl⟩

theorem motionOf?_eq_some_iff_getLast? {digits : List Char} {motion : Motion} :
    motionOf? digits = some motion ↔
      (∀ c ∈ digits.dropLast, c = '0') ∧ digits.getLast? = some motion.digit := by
  have hzeros : digits.dropLast.all (· == '0') = true ↔ ∀ c ∈ digits.dropLast, c = '0' := by
    simp
  -- zeros in front of the last digit, which alone says the motion
  by_cases hall : ∀ c ∈ digits.dropLast, c = '0'
  · rw [motionOf?, if_pos (hzeros.mpr hall), and_iff_right hall]
    split
    · next hlast => cases motion <;> simp [hlast, Motion.digit]
    · next hlast => cases motion <;> simp [hlast, Motion.digit]
    · next hzero hone =>
      refine iff_of_false (by rintro ⟨⟩) fun hlast => ?_
      cases motion with
      | rapid => exact hzero hlast
      | cut => exact hone hlast
  · rw [motionOf?, if_neg (mt hzeros.mp hall)]
    exact iff_of_false (by rintro ⟨⟩) fun h => hall h.1

/-- A run of digits names a motion if it is zeros and the digit of the motion. -/
theorem motionOf?_eq_some_iff {digits : List Char} {motion : Motion} :
    motionOf? digits = some motion ↔
      ∃ zeros, digits = List.replicate zeros '0' ++ [motion.digit] := by
  rw [motionOf?_eq_some_iff_getLast?, List.getLast?_eq_some_iff]
  constructor
  · rintro ⟨hzeros, front, rfl⟩
    rw [List.dropLast_concat] at hzeros
    have hfront : front = List.replicate front.length '0' :=
      List.eq_replicate_iff.mpr ⟨rfl, hzeros⟩
    exact ⟨front.length, by rw [← hfront]⟩
  · rintro ⟨zeros, rfl⟩
    rw [List.dropLast_concat]
    exact ⟨fun c hc => List.eq_of_mem_replicate hc, _, rfl⟩

/-- **What is looked for**: a line has a motion if it starts with the pattern of the
motion and the number does not go on. -/
theorem motion?_eq_some_iff_pattern {line : List Char} {motion : Motion} :
    motion? line = some motion ↔
      ∃ word ∈ (motionPattern motion).matches', ∃ rest, EndsNumber rest ∧
        word ++ rest = line := by
  constructor
  · intro h
    cases line with
    | nil => cases h
    | cons c text =>
      rw [motion?, Option.ite_none_right_eq_some, ← mem_codeLetters_iff,
        motionOf?_eq_some_iff] at h
      obtain ⟨⟨hletter, hpoint⟩, zeros, hzeros⟩ := h
      -- what is taken off are all the digits, so there is nothing to be given back to
      -- what follows
      have hends : EndsNumber (text.dropWhile Char.isDigit) := by
        intro d hd
        refine ⟨Text.not_of_mem_head?_dropWhile d hd, ?_⟩
        rintro rfl
        exact hpoint hd
      refine ⟨c :: text.takeWhile Char.isDigit,
        mem_motionPattern_iff.mpr ⟨c, hletter, zeros, ?_⟩,
        text.dropWhile Char.isDigit, hends, ?_⟩
      · rw [hzeros]
      · rw [List.cons_append, List.takeWhile_append_dropWhile]
  · rintro ⟨_, hword, rest, hends, rfl⟩
    obtain ⟨letter, hletter, zeros, rfl⟩ := mem_motionPattern_iff.mp hword
    have hrun : ∀ c ∈ List.replicate zeros '0' ++ [motion.digit], c.isDigit = true :=
      (motion.isDigits_digit.zeros_append zeros).2
    have hrest : ∀ c ∈ rest.head?, c.isDigit = false := fun c hc => (hends c hc).1
    have hpoint : rest.head? ≠ some '.' := fun h => (hends '.' h).2 rfl
    rw [List.cons_append, motion?, Text.takeWhile_run_append hrun hrest,
      Text.dropWhile_run_append hrun hrest, if_pos ⟨mem_codeLetters_iff.mp hletter, hpoint⟩,
      motionOf?_eq_some_iff]
    exact ⟨zeros, rfl⟩

/-! ## Motions by their numbers -/

namespace Opening

/-- The pattern of a motion is in front of a line if it opens with the number of the motion. -/
theorem exists_pattern_iff {line : List Char} {motion : Motion} :
    (∃ word ∈ (motionPattern motion).matches', ∃ rest, EndsNumber rest ∧ word ++ rest = line) ↔
      ∃ opening : Opening, opening.text = line ∧ opening.number = motion.number ∧
        ¬opening.IsPointed := by
  constructor
  · rintro ⟨_, hword, rest, hends, rfl⟩
    obtain ⟨letter, hletter, zeros, rfl⟩ := mem_motionPattern_iff.mp hword
    have hdigits : IsDigits (List.replicate zeros '0' ++ [motion.digit]) :=
      motion.isDigits_digit.zeros_append zeros
    refine ⟨⟨letter, _, rest, hletter, hdigits, fun c hc => (hends c hc).1⟩, rfl, ?_,
      fun h => (hends '.' h).2 rfl⟩
    -- digits of the same value differ in the zeros in front
    rw [number, hdigits.digitsValue_eq_iff, motion.toDigits_number]
    exact ⟨zeros, rfl⟩
  · rintro ⟨opening, rfl, hnumber, hpoint⟩
    rw [number, opening.isDigits.digitsValue_eq_iff, motion.toDigits_number] at hnumber
    obtain ⟨zeros, hzeros⟩ := hnumber
    refine ⟨opening.letter :: opening.digits,
      mem_motionPattern_iff.mpr ⟨opening.letter, opening.letter_mem, zeros, by rw [hzeros]⟩,
      opening.rest, fun c hc => ⟨opening.rest_starts c hc, ?_⟩, rfl⟩
    rintro rfl
    exact hpoint hc

/-- A line that opens with a code has the motion with the number of the code, if no point
follows. -/
theorem motion?_text_eq_some_iff (opening : Opening) {motion : Motion} :
    motion? opening.text = some motion ↔
      opening.number = motion.number ∧ ¬opening.IsPointed := by
  rw [motion?_eq_some_iff_pattern, exists_pattern_iff]
  constructor
  · rintro ⟨other, htext, hother⟩
    rwa [eq_of_text_eq htext] at hother
  · intro h
    exact ⟨opening, rfl, h⟩

theorem motion?_text_padded (opening : Opening) (zeros : Nat) :
    motion? (opening.padded zeros).text = motion? opening.text := by
  refine Option.ext fun motion => ?_
  rw [motion?_text_eq_some_iff, motion?_text_eq_some_iff, number_padded, isPointed_padded]

theorem motion?_text_of_isOther {opening : Opening} (h : opening.IsOther) :
    motion? opening.text = none := by
  rw [Option.eq_none_iff_forall_ne_some]
  intro motion hmotion
  obtain ⟨hnumber, hpoint⟩ := opening.motion?_text_eq_some_iff.mp hmotion
  rcases h with hgreater | hpointed
  · exact absurd (hnumber ▸ motion.number_le) (Nat.not_le.mpr hgreater)
  · exact hpoint hpointed

example :
    ["G10", "G17", "G100", "G1.5"].all (fun line => (motion? line.toList).isNone) = true := by
  decide

end Opening

/-! ## Programs with other codes -/

section Estimates

variable {α : Type} [Written α] (setup : Setup α) {line : List Char} {opening : Opening}

theorem Progress.step_of_isOther (progress : Progress α) (htext : opening.text = code line)
    (h : opening.IsOther) : progress.step setup line = progress := by
  refine progress.step_of_motion?_eq_none setup ?_
  rw [← htext]
  exact Opening.motion?_text_of_isOther h

/-- Lines that open with other codes may stand anywhere in a program. -/
theorem estimate_insert_other {before after : List Char} (htext : opening.text = code line)
    (h : opening.IsOther) (hfeed : '\n' ∉ line) (hbefore : ∀ c ∈ before.getLast?, c = '\n')
    (hafter : ∀ c ∈ after.head?, c = '\n') :
    estimate setup (before ++ (line ++ after)) = estimate setup (before ++ after) := by
  refine estimate_line_congr setup hbefore hafter hfeed List.not_mem_nil fun progress => ?_
  show progress.step setup line = progress
  exact progress.step_of_isOther setup htext h

end Estimates

/-- **Motions are told by the numbers of codes.** A line has a motion if and only if it
starts with the letter of codes, in either case, and a run of digits that is not followed
by a point and has the number of the motion, 0 for rapid motions and 1 for cuts; the run
goes as far as the digits do. So any number of zeros may stand in front of the digits. A
line that opens with another code has no motion, be it that its number is greater or that
a point follows, and in a program it may be left out without a change of the estimate. -/
theorem motion?_by_number (line : List Char) :
    (∀ motion, motion? line = some motion ↔
      ∃ opening : Opening, opening.text = line ∧ opening.number = motion.number ∧
        ¬opening.IsPointed) ∧
    (∀ (opening : Opening) (zeros : Nat), motion? (opening.padded zeros).text =
      motion? opening.text) ∧
    (∀ opening : Opening, opening.IsOther → motion? opening.text = none) ∧
    ∀ (α : Type) [Written α] (setup : Setup α) (opening : Opening) (before after : List Char),
      opening.text = code line → opening.IsOther → '\n' ∉ line →
      (∀ c ∈ before.getLast?, c = '\n') → (∀ c ∈ after.head?, c = '\n') →
      estimate setup (before ++ (line ++ after)) = estimate setup (before ++ after) := by
  refine ⟨fun motion => ?_, Opening.motion?_text_padded,
    fun opening => Opening.motion?_text_of_isOther,
    fun α _ setup opening before after htext hother => estimate_insert_other setup htext hother⟩
  rw [motion?_eq_some_iff_pattern, Opening.exists_pattern_iff]

/-- A digit of another script ends the run of digits, and so does a letter. In the comment
there is a code of a motion. -/
theorem motion?_by_number_hundred :
    motion? "g0001\u0660X5".toList = some .cut ∧
      ∃ opening : Opening, opening.text = code "G0100X9 ; G1".toList ∧ opening.number = 100 ∧
        motion? opening.text = none ∧
        estimate (Setup.default : Setup Float)
          ("X5\n".toList ++ ("G0100X9 ; G1".toList ++ "\nG1".toList)) =
          estimate .default ("X5\n".toList ++ "\nG1".toList) := by
  obtain ⟨hmotion, -, -, -⟩ := motion?_by_number "g0001\u0660X5".toList
  obtain ⟨-, -, hother, hestimate⟩ := motion?_by_number "G0100X9 ; G1".toList
  have hscript : ∀ c ∈ "\u0660X5".toList.head?, c.isDigit = false := by
    rintro c ⟨⟩
    rfl
  have hletter : ∀ c ∈ "X9".toList.head?, c.isDigit = false := by
    rintro c ⟨⟩
    rfl
  have hpoint : "\u0660X5".toList.head? ≠ some '.' := by decide
  have hcode : code "G0100X9 ; G1".toList = "G0100X9".toList := by decide
  obtain ⟨hundred, htext, hnumber⟩ : ∃ opening : Opening,
      opening.text = "G0100X9".toList ∧ opening.number = 100 :=
    ⟨⟨'G', "0100".toList, "X9".toList, by decide, by decide, hletter⟩, rfl, rfl⟩
  -- its first three digits would be a cut
  have hgreater : hundred.IsOther := .inl (by rw [hnumber]; decide)
  rw [← hcode] at htext
  refine ⟨(hmotion .cut).mpr
    ⟨⟨'g', "0001".toList, "\u0660X5".toList, by decide, by decide, hscript⟩,
    rfl, rfl, hpoint⟩, hundred, htext, hnumber, hother hundred hgreater, ?_⟩
  refine hestimate Float .default hundred _ _ htext hgreater (by decide) ?_ ?_
  · rintro c ⟨⟩
    rfl
  · rintro c ⟨⟩
    rfl

end Kerf.Program
