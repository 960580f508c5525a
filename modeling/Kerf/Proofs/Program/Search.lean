import Kerf.Proofs.Decimal.Literal
import Kerf.Proofs.Program.Numbers

/-!
# Finding the numbers of a line

The estimator finds a coordinate by its letter, wherever it stands in a line, and takes as
much of what follows as reads as a number. In a line of words with a blank between each
two it finds the numbers of whole words: letters and numbers have no characters in common
with the letters of the axes but these.

- `wordNumber?_literal_append`: the number of a word is taken whole if it is a literal
  without an exponent, as plain decimals are (`wordNumber?_append`), and nothing is taken
  of what is no finite number (`wordNumber?_notFinite_append`).
- `exists_decimal_of_findWord?`: whatever the line, what is found says a finite number, or
  nothing.
- `findWord?_intercalate`: what is found is the first number among the words with the
  letter.
- `findWord?_text`: so it is in the text of any command.
-/

namespace Kerf.Program

open Decimal (IsPlainDecimal notFiniteTexts IsNumberText Sign Parts Literal)

/-! ## The number of a word -/

section Numbers

variable {after : List Char}

/-- The part of a word's number behind the sign. -/
def magnitude? (text : List Char) : Option (List Char) :=
  let whole := text.takeWhile Text.isDigit
  let fraction := match text.dropWhile Text.isDigit with
    | '.' :: rest => '.' :: rest.takeWhile Text.isDigit
    | _ => []
  if whole.isEmpty && fraction.length ≤ 1 then none else some (whole ++ fraction)

/-- A word's number is its sign and the part behind it. -/
theorem wordNumber?_sign_append (sign : Sign) {text : List Char}
    (h : ∀ c ∈ text.head?, c ≠ '-' ∧ c ≠ '+') :
    wordNumber? (sign.text ++ text) = (magnitude? text).map (sign.text ++ ·) := by
  cases sign with
  | minus | plus =>
    simp only [Sign.text, List.singleton_append, wordNumber?, magnitude?,
      apply_ite (Option.map _), Option.map_none, Option.map_some]
    rfl
  | unsigned =>
    simp only [Sign.text, List.nil_append, Option.map_id']
    unfold wordNumber?
    -- what follows a sign that is not there is no sign either
    split
    next heq =>
      split at heq
      · next htext => exact absurd rfl (h '-' rfl).1
      · next htext => exact absurd rfl (h '+' rfl).2
      · obtain ⟨rfl, rfl⟩ := Prod.mk.inj heq
        rfl

/-- The part of a literal behind its sign is taken whole if neither a digit nor a point
follows. -/
theorem magnitude?_append (literal : Literal)
    (hafter : ∀ c ∈ after.head?, Text.isDigit c = false ∧ c ≠ '.') :
    magnitude? (literal.whole ++ (literal.fractionText ++ after)) =
      some (literal.whole ++ literal.fractionText) := by
  have hdigit : ∀ c ∈ after.head?, Text.isDigit c = false := fun c hc => (hafter c hc).1
  have hwhole : ∀ c ∈ literal.whole, Text.isDigit c = true :=
    fun c hc => Text.isDigit_of_ascii (literal.isDigit_whole c hc)
  cases hfraction : literal.fraction with
  | none =>
    have htext := Parts.fractionText_of_none hfraction
    have hne : literal.whole ≠ [] := literal.has_digit.resolve_right (by simp [hfraction])
    have htake := Text.takeWhile_run_append hwhole hdigit
    have hdrop := Text.dropWhile_run_append hwhole hdigit
    -- what follows is not a point, so there is no fraction
    have hnone : (match after with
        | '.' :: rest => '.' :: rest.takeWhile Text.isDigit
        | _ => []) = [] := by
      split
      · next rest => exact absurd rfl (hafter '.' rfl).2
      · rfl
    simp [htext, magnitude?, htake, hdrop, hnone, hne]
  | some digits =>
    have htext := Parts.fractionText_of_some hfraction
    have hdigits : ∀ c ∈ digits, Text.isDigit c = true :=
      fun c hc => Text.isDigit_of_ascii (literal.isDigit_fraction digits hfraction c hc)
    have hpoint : ∀ c ∈ ('.' :: (digits ++ after)).head?, Text.isDigit c = false := by
      rintro c ⟨⟩
      rfl
    have htake := Text.takeWhile_run_append hwhole hpoint
    have hdrop := Text.dropWhile_run_append hwhole hpoint
    have hfractionTake := Text.takeWhile_run_append hdigits hdigit
    -- a point alone would be no number
    have hne : literal.whole = [] → digits ≠ [] := by
      intro hnil
      rcases literal.has_digit with hdigit | ⟨_, hmem, hne⟩
      · exact absurd hnil hdigit
      · obtain rfl := Option.some.inj (hfraction.symm.trans hmem)
        exact hne
    simpa [htext, magnitude?, htake, hdrop, hfractionTake] using hne

/-- A literal without an exponent is taken whole if neither a digit nor a point follows. -/
theorem wordNumber?_literal_append {literal : Literal} (hexponent : literal.exponent = none)
    (hafter : ∀ c ∈ after.head?, Text.isDigit c = false ∧ c ≠ '.') :
    wordNumber? (literal.text ++ after) = some literal.text := by
  have htext : literal.text = literal.sign.text ++ (literal.whole ++ literal.fractionText) := by
    rw [Parts.text, Parts.unsigned, Parts.exponentText_of_none hexponent, List.append_nil]
  have hhead : ∀ c ∈ (literal.whole ++ (literal.fractionText ++ after)).head?,
      c ≠ '-' ∧ c ≠ '+' :=
    fun _ => literal.ne_of_mem_head?_append
  rw [htext, List.append_assoc, List.append_assoc, wordNumber?_sign_append _ hhead,
    magnitude?_append literal hafter, Option.map_some]

/-- A plain decimal is taken whole if a blank or nothing follows. -/
theorem wordNumber?_append {number : List Char} (h : IsPlainDecimal number)
    (hafter : ∀ c ∈ after.head?, c = ' ') : wordNumber? (number ++ after) = some number := by
  obtain ⟨literal, hexponent, rfl⟩ := h.exists_literal
  refine wordNumber?_literal_append hexponent ?_
  intro c hc
  rw [hafter c hc]
  exact ⟨rfl, by decide⟩

theorem mem_magnitude? {text magnitude : List Char} (h : magnitude? text = some magnitude) :
    ∀ c ∈ magnitude, c = '.' ∨ Text.isDigit c = true := by
  simp only [magnitude?, Option.ite_none_left_eq_some, Option.some.injEq] at h
  obtain ⟨-, rfl⟩ := h
  refine List.forall_mem_append.mpr ⟨fun c hc => .inr (List.mem_takeWhile_imp hc), ?_⟩
  intro c hc
  split at hc
  · rcases List.mem_cons.mp hc with hpoint | hdigit
    · exact .inl hpoint
    · exact .inr (List.mem_takeWhile_imp hdigit)
  · exact absurd hc List.not_mem_nil

theorem exists_sign_of_wordNumber? {text number : List Char}
    (h : wordNumber? text = some number) :
    ∃ (sign : Sign) (rest magnitude : List Char),
      magnitude? rest = some magnitude ∧ number = sign.text ++ magnitude := by
  unfold wordNumber? at h
  split at h
  next sign unsigned heq =>
    have hsign : ∃ written : Sign, sign = written.text := by
      split at heq
      · exact ⟨.minus, (Prod.mk.inj heq).1.symm⟩
      · exact ⟨.plus, (Prod.mk.inj heq).1.symm⟩
      · exact ⟨.unsigned, (Prod.mk.inj heq).1.symm⟩
    obtain ⟨written, rfl⟩ := hsign
    simp only [Option.ite_none_left_eq_some, Option.some.injEq] at h
    obtain ⟨hsome, rfl⟩ := h
    exact ⟨written, unsigned, _, if_neg hsome, List.append_assoc ..⟩

/-- The number of a word starts with a digit or a point behind its sign, so it is none of
the words that stand for what is no finite number. -/
theorem exists_decimal_of_wordNumber? {text number : List Char}
    (h : wordNumber? text = some number) {numeral : Decimal.Numeral}
    (hread : Decimal.Numeral.read? number = some numeral) :
    ∃ negative coefficient power, numeral = .decimal negative coefficient power := by
  obtain ⟨sign, rest, magnitude, hmagnitude, rfl⟩ := exists_sign_of_wordNumber? h
  -- no digit of any script is a sign or one of the first letters of the words
  have hhead : ∀ c ∈ magnitude.head?, c ≠ '-' ∧ c ≠ '+' ∧ c.toLower ≠ 'i' ∧
      c.toLower ≠ 'n' := by
    intro c hc
    rcases mem_magnitude? hmagnitude c (List.mem_of_mem_head? hc) with rfl | hdigit
    · decide
    · rw [Text.toLower_of_isAnyDigit hdigit]
      refine ⟨?_, ?_, ?_, ?_⟩
      all_goals
        rintro rfl
        cases hdigit
  have hsign : Decimal.takeSign (sign.text ++ magnitude) = (sign.isMinus, magnitude) :=
    Sign.takeSign_append sign fun c hc => ⟨(hhead c hc).1, (hhead c hc).2.1⟩
  rw [Decimal.Numeral.read?_of_head hsign fun c hc => (hhead c hc).2.2] at hread
  obtain ⟨decimal, -, rfl⟩ := Option.map_eq_some_iff.mp hread
  exact ⟨_, _, _, rfl⟩

/-- Nothing is taken of what is no finite number. -/
theorem wordNumber?_notFinite_append {text : List Char} (h : text ∈ notFiniteTexts)
    (after : List Char) : wordNumber? (text ++ after) = none := by
  simp only [notFiniteTexts, List.mem_cons, List.not_mem_nil, or_false] at h
  rcases h with rfl | rfl | rfl <;> rfl

end Numbers

/-! ## Words with a letter -/

/-- A text, unless it says that something is no finite number. -/
def finite? (text : List Char) : Option (List Char) :=
  if notFiniteTexts.contains text then none else some text

theorem finite?_of_mem {text : List Char} (h : text ∈ notFiniteTexts) : finite? text = none :=
  if_pos (List.contains_iff_mem.mpr h)

theorem finite?_of_not_mem {text : List Char} (h : text ∉ notFiniteTexts) :
    finite? text = some text :=
  if_neg (mt List.contains_iff_mem.mp h)

/-- The number of a word with a letter, if it is a finite one. -/
def finiteAfter? (letter : Char) (word : List Char) : Option (List Char) :=
  numberAfter? letter word >>= finite?

/-- A capital, and the text of a number or of what is no finite number. -/
inductive IsNumberWord : List Char → Prop
  | intro {letter : Char} {text : List Char} (hletter : letter.toUpper = letter)
    (htext : IsNumberText text) : IsNumberWord (letter :: text)

theorem trimStart_append {text : List Char} (h : IsNumberText text) (after : List Char) :
    Text.trimStart (text ++ after) = text ++ after := by
  obtain ⟨c, rest, rfl⟩ := List.exists_cons_of_ne_nil h.ne_nil
  have hword : isWordChar c = true :=
    isWordChar_of_isNumberChar (h.isNumberChar c List.mem_cons_self)
  simp only [isWordChar, Bool.and_eq_true, Bool.not_eq_true'] at hword
  refine Text.trimStart_of_head ?_
  rintro d ⟨⟩
  exact hword.1

/-- Numbers are written without the letters of the axes. -/
theorem toUpper_ne_of_isNumberChar {c : Char} (hc : Decimal.isNumberChar c = true)
    {letter : Char} (h : letter ∈ ['X', 'Y']) : c.toUpper ≠ letter := by
  simp only [Decimal.isNumberChar, Bool.or_eq_true, beq_iff_eq, List.contains_iff_mem] at hc
  rintro rfl
  rcases hc with (((hdigit | rfl) | rfl) | hnan) | hinf
  · rw [Text.toUpper_of_isDigit hdigit] at h
    simp only [List.mem_cons, List.not_mem_nil, or_false] at h
    rcases h with rfl | rfl <;> exact absurd hdigit (by decide)
  · exact absurd h (by decide)
  · exact absurd h (by decide)
  · have hall : Decimal.nanText.all (fun d => !(['X', 'Y'].contains d.toUpper)) = true := rfl
    simpa [h] using List.all_eq_true.mp hall c hnan
  · have hall : Decimal.infinityText.all (fun d => !(['X', 'Y'].contains d.toUpper)) = true :=
      rfl
    simpa [h] using List.all_eq_true.mp hall c hinf

section Letters

variable {letter : Char}

theorem exists_wordNumber?_of_findWord? {line number : List Char}
    (h : findWord? letter line = some number) : ∃ text, wordNumber? text = some number := by
  induction line with
  | nil => cases h
  | cons c text ih =>
    rw [findWord?] at h
    split at h
    · split at h
      · next found hword =>
        obtain rfl := Option.some.inj h
        exact ⟨_, hword⟩
      · exact ih h
    · exact ih h

/-- In any line, only decimals are found. -/
theorem exists_decimal_of_findWord? {line number : List Char}
    (h : findWord? letter line = some number) {numeral : Decimal.Numeral}
    (hread : Decimal.Numeral.read? number = some numeral) :
    ∃ negative coefficient power, numeral = .decimal negative coefficient power := by
  obtain ⟨text, htext⟩ := exists_wordNumber?_of_findWord? h
  exact exists_decimal_of_wordNumber? htext hread

/-- Text without a letter, in either case, is skipped in the search for it. -/
theorem findWord?_append_of_lacks {before : List Char} (h : ∀ c ∈ before, c.toUpper ≠ letter)
    (text : List Char) : findWord? letter (before ++ text) = findWord? letter text := by
  induction before with
  | nil => rfl
  | cons c before ih =>
    have hc : c.toUpper ≠ letter := h c List.mem_cons_self
    rw [List.cons_append, findWord?, if_neg hc]
    exact ih fun d hd => h d (List.mem_cons_of_mem _ hd)

/-- A word is found by its letter if its number is finite, and passed by if not. -/
theorem findWord?_word_append
    (hletter : ∀ c, Decimal.isNumberChar c = true → c.toUpper ≠ letter) {word : List Char}
    (h : IsNumberWord word) {after : List Char} (hafter : ∀ c ∈ after.head?, c = ' ') :
    findWord? letter (word ++ after) =
      (finiteAfter? letter word).or (findWord? letter after) := by
  obtain @⟨first, text, hfirst, htext⟩ := h
  -- the letter is not among the characters of the number, so nothing is found inside of it
  have hlacks : ∀ c ∈ text, c.toUpper ≠ letter := fun c hc =>
    hletter c (htext.isNumberChar c hc)
  have hskip : findWord? letter (text ++ after) = findWord? letter after :=
    findWord?_append_of_lacks hlacks after
  rw [List.cons_append, findWord?, hfirst]
  by_cases heq : first = letter
  · rw [if_pos heq, trimStart_append htext]
    rcases htext with hplain | hmem
    · rw [wordNumber?_append hplain hafter]
      simp [finiteAfter?, numberAfter?, heq, finite?_of_not_mem hplain.not_mem_notFiniteTexts]
    · rw [wordNumber?_notFinite_append hmem, hskip]
      simp [finiteAfter?, numberAfter?, heq, finite?_of_mem hmem]
  · rw [if_neg heq, hskip]
    simp [finiteAfter?, numberAfter?, heq]

/-- What is found in words with a blank between each two is the first number among those
with the letter. -/
theorem findWord?_intercalate
    (hletter : ∀ c, Decimal.isNumberChar c = true → c.toUpper ≠ letter) (hblank : letter ≠ ' ')
    {words : List (List Char)} (h : ∀ word ∈ words, IsNumberWord word) :
    findWord? letter (List.intercalate [' '] words) =
      words.findSome? (finiteAfter? letter) := by
  induction words with
  | nil => rfl
  | cons word words ih =>
    have hword : IsNumberWord word := h word List.mem_cons_self
    have hwords := ih fun w hw => h w (List.mem_cons_of_mem _ hw)
    rw [List.findSome?_cons]
    cases words with
    | nil =>
      -- nothing follows the last word
      have hend : ∀ c ∈ ([] : List Char).head?, c = ' ' := by
        rintro c ⟨⟩
      have hfound := findWord?_word_append hletter hword hend
      rw [List.append_nil] at hfound
      rw [List.intercalate_singleton, hfound]
      cases finiteAfter? letter word <;> rfl
    | cons next words =>
      -- the blank between the words is passed by
      have hskip : findWord? letter ([' '] ++ List.intercalate [' '] (next :: words)) =
          findWord? letter (List.intercalate [' '] (next :: words)) :=
        findWord?_append_of_lacks (by simpa using hblank.symm) _
      rw [List.intercalate_cons_cons, List.append_assoc,
        findWord?_word_append hletter hword (by simp), hskip, hwords]
      cases finiteAfter? letter word <;> rfl

end Letters

/-! ## Words of commands -/

section Commands

variable {α : Type} [Written α]

/-- Every word of a command starts with one of the letters of commands. -/
theorem Command.exists_letter_of_mem_words (setup : Setup α) (command : Command α) :
    ∀ word ∈ command.words setup, ∃ letter ∈ leadingLetters, ∃ text, word = letter :: text := by
  cases command <;> simp [Command.words, placeWords, leadingLetters]

variable [Written.Legible α]

theorem Command.isNumberWord_words (setup : Setup α) (command : Command α) :
    ∀ word ∈ command.words setup, IsNumberWord word := by
  intro word hword
  obtain ⟨letter, hletter, text, rfl⟩ := command.exists_letter_of_mem_words setup word hword
  have hcapitals : leadingLetters.all (fun c => c.toUpper == c) = true := rfl
  refine ⟨beq_iff_eq.mp (List.all_eq_true.mp hcapitals letter hletter), ?_⟩
  rcases command.isDigits_or_of_mem_words setup hword with hdigits | ⟨value, -, rfl⟩
  · exact .inl (.unsigned (.whole hdigits))
  · exact isNumberText_valueText setup letter value

/-- The letters of the axes are found in the words of a command and nowhere else in its text. -/
theorem findWord?_text (setup : Setup α) (command : Command α) {letter : Char}
    (h : letter ∈ ['X', 'Y']) :
    findWord? letter (command.text setup) =
      (command.words setup).findSome? (finiteAfter? letter) := by
  have hblank : letter ≠ ' ' := by
    rintro rfl
    exact absurd h (by decide)
  rw [command.text_eq_intercalate setup]
  exact findWord?_intercalate (fun c hc => toUpper_ne_of_isNumberChar hc h) hblank
    (command.isNumberWord_words setup)

end Commands

end Kerf.Program
