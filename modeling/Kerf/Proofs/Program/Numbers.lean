import Kerf.Proofs.Decimal.Notation
import Kerf.Proofs.Program.Listing

/-!
# Numbers in programs

The words of a command are a letter and a number each. Whether the number is a plain
decimal depends on the value that it is written from: it is one exactly if the value is
finite.

- `Command.values`: the values that a command is written from, with their letters.
- `holdsNumbers_text_iff`: the words of a command with some letters hold plain decimals
  exactly if its values with these letters are finite.
- `holdsNumbers_amounts`, `holdsNumbers_places_iff`: heights, feeds and powers of a
  program come from the setup, and coordinates from the points of the contours.
-/

namespace Kerf.Program

open Decimal (IsPlainDecimal IsNumberText)

variable {α : Type}

/-! ## Coordinates -/

section Coordinates

variable [Written α] [Written.Legible α]

/-- A minus sign before zeros is dropped, so what is left still is a plain decimal. -/
theorem isPlainDecimal_formatNumber {value : α} (h : Scalar.isFinite value = true)
    (places : Nat) :
    IsPlainDecimal (formatNumber value places) := by
  have hfixed : IsPlainDecimal (Written.fixed (min places Setup.maxPlaces) value) :=
    Written.Legible.isPlainDecimal_fixed _ h
  unfold formatNumber
  split
  · next digits heq =>
    rw [heq] at hfixed
    have hdigits := hfixed.isMagnitude_of_minus
    split
    · exact .unsigned hdigits
    · exact .minus hdigits
  · exact hfixed

theorem formatNumber_mem_notFiniteTexts {value : α} (h : Scalar.isFinite value = false)
    (places : Nat) : formatNumber value places ∈ Decimal.notFiniteTexts := by
  have hfixed : Written.fixed (min places Setup.maxPlaces) value ∈ Decimal.notFiniteTexts :=
    Written.Legible.fixed_mem_notFiniteTexts _ h
  unfold formatNumber
  split
  · next digits heq =>
    -- the only such text with a minus sign has no digits behind it
    rw [heq] at hfixed
    have hdigits : digits = Decimal.infinityText := by
      simpa [Decimal.notFiniteTexts, Decimal.nanText, Decimal.infinityText] using hfixed
    subst hdigits
    rw [if_neg (by decide)]
    exact hfixed
  · exact hfixed

/-- Coordinates are plain decimals exactly if they are finite. -/
theorem isPlainDecimal_coordinate_iff (setup : Setup α) (value : α) :
    IsPlainDecimal (coordinate setup value) ↔ Scalar.isFinite value = true := by
  constructor
  · intro hplain
    rw [← Bool.not_eq_false]
    intro hvalue
    exact hplain.not_mem_notFiniteTexts (formatNumber_mem_notFiniteTexts hvalue _)
  · intro hvalue
    exact isPlainDecimal_formatNumber hvalue _

theorem isPlainDecimal_plain_iff (value : α) :
    IsPlainDecimal (Written.plain value) ↔ Scalar.isFinite value = true := by
  constructor
  · intro hplain
    rw [← Bool.not_eq_false]
    intro hvalue
    exact hplain.not_mem_notFiniteTexts (Written.Legible.plain_mem_notFiniteTexts hvalue)
  · exact Written.Legible.isPlainDecimal_plain

theorem isNumberText_coordinate (setup : Setup α) (value : α) :
    IsNumberText (coordinate setup value) := by
  cases hvalue : Scalar.isFinite value with
  | true => exact .inl (isPlainDecimal_formatNumber hvalue _)
  | false => exact .inr (formatNumber_mem_notFiniteTexts hvalue _)

theorem isNumberText_plain (value : α) : IsNumberText (Written.plain value) := by
  cases hvalue : Scalar.isFinite value with
  | true => exact .inl (Written.Legible.isPlainDecimal_plain hvalue)
  | false => exact .inr (Written.Legible.plain_mem_notFiniteTexts hvalue)

end Coordinates

/-! ## Words with numbers -/

/-- Every word of a line with one of some letters goes on with a plain decimal. -/
def HoldsNumbers (letters : List Char) (line : List Char) : Prop :=
  ∀ letter ∈ letters, ∀ number, letter :: number ∈ Text.words Text.isBlank line →
    IsPlainDecimal number

/-- The letters of words with numbers: places and heights, feeds and powers. -/
def numberLetters : List Char :=
  ['X', 'Y', 'Z', 'F', 'S']

theorem holdsNumbers_append {a b : List Char} {line : List Char} :
    HoldsNumbers (a ++ b) line ↔ HoldsNumbers a line ∧ HoldsNumbers b line :=
  List.forall_mem_append

/-- The values that a command is written from, each with the letter of its word. -/
def Command.values : Command α → List (Char × α)
  | .rapidTo place => [('X', place.x), ('Y', place.y)]
  | .heightTo height => [('Z', height)]
  | .cutTo place feed => [('X', place.x), ('Y', place.y), ('F', feed)]
  | .millimetres | .absolute | .feedPerMinute | .arm | .home | .engage _ | .disengage
  | .finish => []

section Words

variable [Written α]

/-- The text of a value in the word with a letter: feeds have as many digits as they need. -/
def valueText (setup : Setup α) (letter : Char) (value : α) : List Char :=
  if letter = 'F' then Written.plain value else coordinate setup value

/-- What follows the letter in a word of a command is digits or the text of one of its
values. -/
theorem Command.isDigits_or_of_mem_words (setup : Setup α) (command : Command α) {letter : Char}
    {number : List Char} (h : letter :: number ∈ command.words setup) :
    Decimal.IsDigits number ∨
      ∃ value, (letter, value) ∈ command.values ∧ number = valueText setup letter value := by
  cases command with
  | millimetres | absolute | feedPerMinute | arm | home | disengage | finish =>
    -- the words are known, so each of them can be looked at
    left
    show Decimal.IsDigits (letter :: number).tail
    generalize letter :: number = word at h
    revert word
    simp only [Command.words, List.forall_mem_cons]
    decide
  | engage power =>
    simp only [Command.words, List.mem_cons, List.cons.injEq, List.not_mem_nil, or_false] at h
    -- the code, and the power, which is a whole number
    rcases h with ⟨-, rfl⟩ | ⟨-, rfl⟩
    · exact .inl (by decide)
    · exact .inl (Decimal.isDigits_toDigits _)
  | rapidTo place =>
    simp only [Command.words, placeWords, List.mem_cons, List.cons.injEq, List.not_mem_nil,
      or_false] at h
    rcases h with ⟨-, rfl⟩ | ⟨rfl, rfl⟩ | ⟨rfl, rfl⟩
    · exact .inl (by decide)
    · exact .inr ⟨place.x, by simp [Command.values], rfl⟩
    · exact .inr ⟨place.y, by simp [Command.values], rfl⟩
  | heightTo height =>
    simp only [Command.words, List.mem_cons, List.cons.injEq, List.not_mem_nil, or_false] at h
    rcases h with ⟨-, rfl⟩ | ⟨rfl, rfl⟩
    · exact .inl (by decide)
    · exact .inr ⟨height, by simp [Command.values], rfl⟩
  | cutTo place feed =>
    simp only [Command.words, placeWords, List.cons_append, List.nil_append, List.mem_cons,
      List.cons.injEq, List.not_mem_nil, or_false] at h
    -- the code, two coordinates and the feed
    rcases h with ⟨-, rfl⟩ | ⟨rfl, rfl⟩ | ⟨rfl, rfl⟩ | ⟨rfl, rfl⟩
    · exact .inl (by decide)
    · exact .inr ⟨place.x, by simp [Command.values], rfl⟩
    · exact .inr ⟨place.y, by simp [Command.values], rfl⟩
    · exact .inr ⟨feed, by simp [Command.values], rfl⟩

/-- Each value of a command is written in a word of its own. -/
theorem Command.mem_words_of_mem_values (setup : Setup α) {command : Command α} {letter : Char}
    {value : α} (h : (letter, value) ∈ command.values) :
    letter :: valueText setup letter value ∈ command.words setup := by
  cases command with
  | millimetres | absolute | feedPerMinute | arm | home | engage | disengage | finish => cases h
  | rapidTo place =>
    simp only [Command.values, List.mem_cons, Prod.mk.injEq, List.not_mem_nil, or_false] at h
    rcases h with ⟨rfl, rfl⟩ | ⟨rfl, rfl⟩ <;> simp [Command.words, placeWords, valueText]
  | heightTo height =>
    simp only [Command.values, List.mem_cons, Prod.mk.injEq, List.not_mem_nil, or_false] at h
    obtain ⟨rfl, rfl⟩ := h
    simp [Command.words, valueText]
  | cutTo place feed =>
    simp only [Command.values, List.mem_cons, Prod.mk.injEq, List.not_mem_nil, or_false] at h
    rcases h with ⟨rfl, rfl⟩ | ⟨rfl, rfl⟩ | ⟨rfl, rfl⟩ <;>
      simp [Command.words, placeWords, valueText]

variable [Written.Legible α]

theorem isPlainDecimal_valueText_iff (setup : Setup α) (letter : Char) (value : α) :
    IsPlainDecimal (valueText setup letter value) ↔ Scalar.isFinite value = true := by
  unfold valueText
  split
  · exact isPlainDecimal_plain_iff value
  · exact isPlainDecimal_coordinate_iff setup value

theorem isNumberText_valueText (setup : Setup α) (letter : Char) (value : α) :
    IsNumberText (valueText setup letter value) := by
  unfold valueText
  split
  · exact isNumberText_plain value
  · exact isNumberText_coordinate setup value

/-- The words of a command with some letters hold numbers exactly if its values with these
letters are finite. -/
theorem holdsNumbers_text_iff (setup : Setup α) (letters : List Char) (command : Command α) :
    HoldsNumbers letters (command.text setup) ↔
      ∀ entry ∈ command.values, entry.1 ∈ letters → Scalar.isFinite entry.2 = true := by
  unfold HoldsNumbers
  rw [Command.words_text]
  constructor
  · rintro hnumbers ⟨letter, value⟩ hvalue hletter
    have hword := Command.mem_words_of_mem_values setup hvalue
    exact (isPlainDecimal_valueText_iff setup letter value).mp (hnumbers letter hletter _ hword)
  · intro hfinite letter hletter number hword
    rcases command.isDigits_or_of_mem_words setup hword with hdigits | ⟨value, hvalue, rfl⟩
    · exact .unsigned (.whole hdigits)
    · exact (isPlainDecimal_valueText_iff setup letter value).mpr
        (hfinite (letter, value) hvalue hletter)

end Words

/-! ## Places and amounts -/

/-- The place that a command sends the tool to. -/
def Command.place? : Command α → Option (Point α)
  | .rapidTo place | .cutTo place _ => some place
  | .millimetres | .absolute | .feedPerMinute | .arm | .home | .heightTo _ | .engage _
  | .disengage | .finish => none

/-- The height or the feed of a command. -/
def Command.amount? : Command α → Option α
  | .heightTo height => some height
  | .cutTo _ feed => some feed
  | .millimetres | .absolute | .feedPerMinute | .arm | .home | .rapidTo _ | .engage _
  | .disengage | .finish => none

section Programs

variable [Written α]

theorem holdsNumbers_place_iff [Written.Legible α] (setup : Setup α) (command : Command α) :
    HoldsNumbers ['X', 'Y'] (command.text setup) ↔
      ∀ place ∈ command.place?, place.isFinite = true := by
  rw [holdsNumbers_text_iff]
  cases command <;> simp [Command.values, Command.place?, Point.isFinite]

theorem holdsNumbers_amount_iff [Written.Legible α] (setup : Setup α) (command : Command α) :
    HoldsNumbers ['Z', 'F', 'S'] (command.text setup) ↔
      ∀ amount ∈ command.amount?, Scalar.isFinite amount = true := by
  rw [holdsNumbers_text_iff]
  cases command <;> simp [Command.values, Command.amount?]

/-- A contour sends the tool to each of its points once. -/
theorem places_contourCommands (setup : Setup α) (contour : Contour α) :
    (contourCommands setup contour).filterMap Command.place? =
      contour.points.map (placed setup) := by
  unfold contourCommands
  cases contour.points with
  | nil => rfl
  | cons first rest =>
    have hcuts := filterMap_cutCommands Command.place? setup (fun _ => rfl) rest
    simp [List.filterMap_append, hcuts, List.filterMap_cons, Command.place?]

theorem places_programCommands (setup : Setup α) (contours : List (Contour α)) :
    (programCommands setup contours).filterMap Command.place? =
      (contours.flatMap (·.points)).map (placed setup) := by
  have hopening : (openingCommands setup).filterMap Command.place? = [] := by
    unfold openingCommands
    cases setup.laser <;> rfl
  have hclosing : (closingCommands setup).filterMap Command.place? = [] := rfl
  rw [filterMap_programCommands, hopening, hclosing, List.nil_append, List.append_nil,
    funext (places_contourCommands setup), List.map_flatMap]

/-- All heights and feeds of a program are those of the setup. -/
theorem amount_mem_of_mem_programCommands {setup : Setup α} {contours : List (Contour α)}
    {command : Command α} (h : command ∈ programCommands setup contours) :
    ∀ amount ∈ command.amount?, amount ∈
      [setup.safeHeight, setup.workHeight, setup.cutFeed] := by
  revert command
  simp only [programCommands, List.forall_mem_append, List.forall_mem_flatMap]
  refine ⟨⟨?_, fun contour _ => ?_⟩, ?_⟩
  · unfold openingCommands
    split <;> simp [Command.amount?]
  · unfold contourCommands
    split
    · simp
    · simp [Command.amount?, or_imp, forall_and]
  · simp [closingCommands, Command.amount?]

variable [Written.Legible α]

/-- With a setup that has finite heights and a finite feed, no command has another height
or feed. -/
theorem holdsNumbers_amounts {setup : Setup α} (hsafe : Scalar.isFinite setup.safeHeight = true)
    (hwork : Scalar.isFinite setup.workHeight = true)
    (hfeed : Scalar.isFinite setup.cutFeed = true) (contours : List (Contour α)) :
    ∀ line ∈ (programCommands setup contours).map (Command.text setup),
      HoldsNumbers ['Z', 'F', 'S'] line := by
  rw [List.forall_mem_map]
  intro command hcommand
  rw [holdsNumbers_amount_iff]
  intro amount hamount
  have hmem := amount_mem_of_mem_programCommands hcommand amount hamount
  simp only [List.mem_cons, List.not_mem_nil, or_false] at hmem
  rcases hmem with rfl | rfl | rfl
  · exact hsafe
  · exact hwork
  · exact hfeed

/-- The coordinates in a program are numbers exactly if those of all points are, where
they are placed. -/
theorem holdsNumbers_places_iff (setup : Setup α) (contours : List (Contour α)) :
    (∀ line ∈ (programCommands setup contours).map (Command.text setup),
        HoldsNumbers ['X', 'Y'] line) ↔
      ∀ contour ∈ contours, ∀ p ∈ contour.points, (placed setup p).isFinite = true := by
  have hplaces := places_programCommands setup contours
  rw [List.forall_mem_map]
  constructor
  · intro hlines contour hcontour p hp
    -- some command goes to where the point is placed
    have hplace :
        placed setup p ∈ (programCommands setup contours).filterMap Command.place? := by
      rw [hplaces]
      exact List.mem_map_of_mem (List.mem_flatMap.mpr ⟨contour, hcontour, hp⟩)
    obtain ⟨command, hcommand, hgives⟩ := List.mem_filterMap.mp hplace
    exact (holdsNumbers_place_iff setup command).mp (hlines command hcommand) _ hgives
  · intro hpoints command hcommand
    rw [holdsNumbers_place_iff]
    intro place hgives
    -- and every command goes to where some point is
    have hplace : place ∈ (contours.flatMap (·.points)).map (placed setup) := by
      rw [← hplaces]
      exact List.mem_filterMap.mpr ⟨command, hcommand, hgives⟩
    obtain ⟨p, hp, rfl⟩ := List.mem_map.mp hplace
    obtain ⟨contour, hcontour, hpcontour⟩ := List.mem_flatMap.mp hp
    exact hpoints contour hcontour p hpcontour

end Programs

end Kerf.Program
