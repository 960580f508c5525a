import Kerf.Program.Estimate
import Kerf.Program.Line
import Kerf.Proofs.Decimal.Characters
import Kerf.Proofs.Text.Spacing

/-!
# Words of commands

The text of a command is words with a blank between each two
(`Command.text_eq_intercalate`), each a letter with a number or a code. They hold no
blanks and no comment marks, whatever the numbers are (`Command.isWord_words`), so they
are read back from the text (`Command.words_text`), and so is the text from a line with a
note after it (`Command.code_text_append_note`).

A reader of lines looks for the code that a line starts with (`code?`) and for numbers by
their letters (`word?`).
-/

namespace Kerf.Program

/-! ## Words of lines -/

/-- The word that a line starts with. -/
def code? (line : List Char) : Option (List Char) :=
  (Text.words Text.isBlank line).head?

/-- The text after the letter, in a word with that letter. -/
def numberAfter? (letter : Char) : List Char → Option (List Char)
  | [] => none
  | c :: number => if c = letter then some number else none

/-- The text after the letter, in the first word of a line with that letter. -/
def word? (letter : Char) (line : List Char) : Option (List Char) :=
  (Text.words Text.isBlank line).findSome? (numberAfter? letter)

/-! ## Words of commands -/

variable {α : Type}

/-- The first word of a command. -/
def Command.head : Command α → List Char
  | .millimetres => ['G', '2', '1']
  | .absolute => ['G', '9', '0']
  | .feedPerMinute => ['G', '9', '4']
  | .arm | .engage _ => ['M', '3']
  | .home | .rapidTo _ | .heightTo _ => ['G', '0']
  | .cutTo .. => ['G', '1']
  | .disengage => ['M', '5']
  | .finish => ['M', '3', '0']

theorem Command.head_eq_finish_iff (command : Command α) :
    command.head = ['M', '3', '0'] ↔ command = .finish := by
  cases command <;> simp [Command.head]

variable [Written α]

/-- The words for a place. -/
def placeWords (setup : Setup α) (place : Point α) : List (List Char) :=
  ['X' :: coordinate setup place.x, 'Y' :: coordinate setup place.y]

/-- The words of a command. -/
def Command.words (setup : Setup α) : Command α → List (List Char)
  | .millimetres => [['G', '2', '1']]
  | .absolute => [['G', '9', '0']]
  | .feedPerMinute => [['G', '9', '4']]
  | .arm => [['M', '3'], ['S', '0']]
  | .home => [['G', '0'], ['X', '0'], ['Y', '0']]
  | .rapidTo place => ['G', '0'] :: placeWords setup place
  | .heightTo height => [['G', '0'], 'Z' :: coordinate setup height]
  | .engage power => [['M', '3'], 'S' :: Nat.toDigits 10 power.toNat]
  | .cutTo place feed => ['G', '1'] :: (placeWords setup place ++ ['F' :: Written.plain feed])
  | .disengage => [['M', '5']]
  | .finish => [['M', '3', '0']]

theorem Command.text_eq_intercalate (setup : Setup α) (command : Command α) :
    command.text setup = List.intercalate [' '] (command.words setup) := by
  cases command <;>
    simp [Command.text, Command.words, placeText, placeWords, List.intercalate_cons_cons,
      List.intercalate_singleton]

theorem Command.text_ne_nil (setup : Setup α) (command : Command α) :
    command.text setup ≠ [] := by
  cases command <;> simp [Command.text, placeText]

/-- What a word is made of: neither blanks, nor line ends among them, nor comment marks. -/
def isWordChar (c : Char) : Bool :=
  !Text.isBlank c && !startsComment c

theorem isWordChar_of_isDigit {c : Char} (h : c.isDigit = true) : isWordChar c = true := by
  obtain ⟨hlow, hhigh⟩ := Text.toNat_of_isDigit h
  have hblank : Text.isBlank c = false := Text.isBlank_of_isDigit h
  -- no comment mark has a code point among those of the digits
  have hsemicolon : c ≠ ';' := by rintro rfl; exact absurd hhigh (by decide)
  have hparenthesis : c ≠ '(' := by rintro rfl; exact absurd hlow (by decide)
  simp [isWordChar, startsComment, hblank, hsemicolon, hparenthesis]

theorem isWordChar_of_isNumberChar {c : Char} (h : Decimal.isNumberChar c = true) :
    isWordChar c = true := by
  simp only [Decimal.isNumberChar, Bool.or_eq_true, beq_iff_eq, List.contains_iff_mem] at h
  rcases h with (((hdigit | rfl) | rfl) | hnan) | hinf
  · exact isWordChar_of_isDigit hdigit
  · rfl
  · rfl
  · have hall : Decimal.nanText.all isWordChar = true := rfl
    exact List.all_eq_true.mp hall c hnan
  · have hall : Decimal.infinityText.all isWordChar = true := rfl
    exact List.all_eq_true.mp hall c hinf

/-- A word of a command has a letter and no blanks. -/
def IsWord (word : List Char) : Prop :=
  word ≠ [] ∧ ∀ c ∈ word, isWordChar c = true

instance (word : List Char) : Decidable (IsWord word) :=
  decidable_of_iff ((!word.isEmpty && word.all isWordChar) = true) (by simp [IsWord])

theorem isWord_cons {letter : Char} {number : List Char} (hletter : isWordChar letter = true)
    (hnumber : ∀ c ∈ number, isWordChar c = true) : IsWord (letter :: number) := by
  refine ⟨by simp, fun c hc => ?_⟩
  rcases List.mem_cons.mp hc with rfl | hc
  · exact hletter
  · exact hnumber c hc

variable [Written.Compact α]

theorem isNumberChar_of_mem_formatNumber {value : α} {places : Nat} {c : Char}
    (h : c ∈ formatNumber value places) : Decimal.isNumberChar c = true := by
  have hmem : c ∈ Written.fixed (min places Setup.maxPlaces) value := by
    unfold formatNumber at h
    split at h
    · next digits heq =>
      rw [heq]
      split at h
      · exact List.mem_cons_of_mem _ h
      · exact h
    · exact h
  exact Written.Compact.mem_fixed hmem

theorem isWord_coordinate {letter : Char} (hletter : isWordChar letter = true) (setup : Setup α)
    (value : α) : IsWord (letter :: coordinate setup value) :=
  isWord_cons hletter fun _ hc =>
    isWordChar_of_isNumberChar (isNumberChar_of_mem_formatNumber hc)

theorem isWord_placeWords (setup : Setup α) (place : Point α) :
    ∀ word ∈ placeWords setup place, IsWord word := by
  simp only [placeWords, List.mem_cons, List.not_mem_nil, or_false, forall_eq_or_imp, forall_eq]
  exact ⟨isWord_coordinate rfl setup place.x, isWord_coordinate rfl setup place.y⟩

theorem Command.isWord_words (setup : Setup α) (command : Command α) :
    ∀ word ∈ command.words setup, IsWord word := by
  -- words without a number are looked at one by one, the others are a letter and a number
  cases command with
  | millimetres | absolute | feedPerMinute | arm | home | disengage | finish =>
    simp only [Command.words, List.forall_mem_cons]
    decide
  | rapidTo place =>
    simp only [Command.words, List.forall_mem_cons]
    exact ⟨by decide, isWord_placeWords setup place⟩
  | heightTo height =>
    simp only [Command.words, List.forall_mem_cons]
    exact ⟨by decide, isWord_coordinate rfl setup height, by simp⟩
  | engage power =>
    have hpower : IsWord ('S' :: Nat.toDigits 10 power.toNat) :=
      isWord_cons rfl fun _ hc => isWordChar_of_isDigit (Decimal.mem_toDigits hc)
    simp only [Command.words, List.forall_mem_cons]
    exact ⟨by decide, hpower, by simp⟩
  | cutTo place feed =>
    have hfeed : IsWord ('F' :: Written.plain feed) :=
      isWord_cons rfl fun _ hc => isWordChar_of_isNumberChar (Written.Compact.mem_plain hc)
    simp only [Command.words, List.forall_mem_cons, List.forall_mem_append]
    exact ⟨by decide, isWord_placeWords setup place, hfeed, by simp⟩

/-! ## Texts of commands -/

/-- Words with a blank between each two. -/
theorem isWordChar_or_of_mem_intercalate {words : List (List Char)}
    (h : ∀ word ∈ words, IsWord word) {c : Char} (hc : c ∈ List.intercalate [' '] words) :
    isWordChar c = true ∨ c = ' ' := by
  induction words with
  | nil => simp [List.intercalate_nil] at hc
  | cons word words ih =>
    have hword := (h word List.mem_cons_self).2
    cases words with
    | nil =>
      rw [List.intercalate_singleton] at hc
      exact .inl (hword c hc)
    | cons next words =>
      rw [List.intercalate_cons_cons, List.append_assoc, List.singleton_append, List.mem_append,
        List.mem_cons] at hc
      rcases hc with hc | rfl | hc
      · exact .inl (hword c hc)
      · exact .inr rfl
      · exact ih (fun w hw => h w (List.mem_cons_of_mem _ hw)) hc

theorem isWordChar_of_mem_head? {words : List (List Char)} (h : ∀ word ∈ words, IsWord word)
    {c : Char} (hc : c ∈ (List.intercalate [' '] words).head?) : isWordChar c = true := by
  cases words with
  | nil => simp [List.intercalate_nil] at hc
  | cons word words =>
    obtain ⟨hne, hword⟩ := h word List.mem_cons_self
    obtain ⟨d, word, rfl⟩ := List.exists_cons_of_ne_nil hne
    have hcd : c = d := by
      cases words <;>
        simpa [List.intercalate_singleton, List.intercalate_cons_cons, eq_comm] using hc
    exact hcd ▸ hword d List.mem_cons_self

theorem isWordChar_of_mem_getLast? {words : List (List Char)} (h : ∀ word ∈ words, IsWord word)
    {c : Char} (hc : c ∈ (List.intercalate [' '] words).getLast?) : isWordChar c = true := by
  induction words with
  | nil => simp [List.intercalate_nil] at hc
  | cons word words ih =>
    cases words with
    | nil =>
      rw [List.intercalate_singleton] at hc
      exact (h word List.mem_cons_self).2 c (List.mem_of_getLast? hc)
    | cons next words =>
      have hnext : ∀ w ∈ next :: words, IsWord w := fun w hw => h w (List.mem_cons_of_mem _ hw)
      have hne : List.intercalate [' '] (next :: words) ≠ [] := by
        obtain ⟨d, rest, hd⟩ := List.exists_cons_of_ne_nil (hnext next List.mem_cons_self).1
        cases words <;> simp [List.intercalate_singleton, List.intercalate_cons_cons, hd]
      rw [List.intercalate_cons_cons, List.getLast?_append, List.getLast?_eq_some_getLast hne,
        Option.some_or] at hc
      exact ih hnext (by rwa [List.getLast?_eq_some_getLast hne])

variable (setup : Setup α) (command : Command α)

theorem Command.isWordChar_or_of_mem_text {c : Char} (hc : c ∈ command.text setup) :
    isWordChar c = true ∨ c = ' ' :=
  isWordChar_or_of_mem_intercalate (command.isWord_words setup)
    (command.text_eq_intercalate setup ▸ hc)

/-- A command line holds no character for which a predicate holds neither of word
characters nor of blanks between them. -/
theorem Command.not_mem_text {bad : Char} (hword : isWordChar bad = false)
    (hblank : bad ≠ ' ') :
    bad ∉ command.text setup := by
  intro hmem
  rcases command.isWordChar_or_of_mem_text setup hmem with hc | rfl
  · rw [hword] at hc
    cases hc
  · exact hblank rfl

theorem Command.not_startsComment {c : Char} (hc : c ∈ command.text setup) :
    startsComment c = false := by
  rcases command.isWordChar_or_of_mem_text setup hc with hword | rfl
  · simp only [isWordChar, Bool.and_eq_true, Bool.not_eq_true'] at hword
    exact hword.2
  · rfl

theorem Command.isBlank_of_mem_head? {c : Char} (hc : c ∈ (command.text setup).head?) :
    Text.isBlank c = false := by
  rw [command.text_eq_intercalate setup] at hc
  have hword := isWordChar_of_mem_head? (command.isWord_words setup) hc
  simp only [isWordChar, Bool.and_eq_true, Bool.not_eq_true'] at hword
  exact hword.1

theorem Command.isBlank_of_mem_getLast? {c : Char} (hc : c ∈ (command.text setup).getLast?) :
    Text.isBlank c = false := by
  rw [command.text_eq_intercalate setup] at hc
  have hword := isWordChar_of_mem_getLast? (command.isWord_words setup) hc
  simp only [isWordChar, Bool.and_eq_true, Bool.not_eq_true'] at hword
  exact hword.1

/-- The words of a command are read back from its text. -/
theorem Command.words_text :
    Text.words Text.isBlank (command.text setup) = command.words setup := by
  rw [command.text_eq_intercalate setup]
  refine Text.words_intercalate rfl fun word hword => ?_
  obtain ⟨hne, hchars⟩ := command.isWord_words setup word hword
  refine ⟨hne, fun c hc => ?_⟩
  have := hchars c hc
  simp only [isWordChar, Bool.and_eq_true, Bool.not_eq_true'] at this
  exact this.1

theorem code?_text : code? (command.text setup) = some command.head := by
  cases command <;> simp [code?, Command.words_text, Command.words, Command.head]

/-! ## Lines of commands -/

theorem withoutComment_append {text : List Char} (h : ∀ c ∈ text, startsComment c = false)
    (rest : List Char) : withoutComment (text ++ rest) = text ++ withoutComment rest :=
  List.takeWhile_append_of_pos fun c hc => by simp [h c hc]

/-- What a line commands has no comment and no blanks at its ends any more. -/
theorem code_code (line : List Char) : code (code line) = code line := by
  have hcode : withoutComment (code line) = code line := by
    refine List.takeWhile_eq_self_iff.mpr fun c hc => ?_
    have hcut : c ∈ withoutComment line := Text.mem_of_mem_trim hc
    exact List.mem_takeWhile_imp (p := fun c => !startsComment c) hcut
  rw [code, hcode, code, Text.trim_trim]

theorem Command.code_text : code (command.text setup) = command.text setup := by
  have hcut := withoutComment_append (fun _ => command.not_startsComment setup) []
  rw [List.append_nil] at hcut
  rw [code, hcut]
  simpa [withoutComment] using Text.trim_of_ends (fun _ => command.isBlank_of_mem_head? setup)
    (fun _ => command.isBlank_of_mem_getLast? setup)

/-- A note does not matter, whatever it says. -/
theorem Command.code_text_append_note (note : List Char) :
    code (command.text setup ++ ' ' :: ';' :: note) = command.text setup := by
  have hcut : withoutComment (' ' :: ';' :: note) = [' '] := rfl
  rw [code, withoutComment_append fun _ => command.not_startsComment setup, hcut]
  have hblank : ∀ c ∈ [' '], Text.isBlank c = true := List.all_eq_true.mp rfl
  exact Text.trim_surrounded (List.forall_mem_nil _)
    (fun _ => command.isBlank_of_mem_head? setup)
    (fun _ => command.isBlank_of_mem_getLast? setup) hblank

end Kerf.Program
