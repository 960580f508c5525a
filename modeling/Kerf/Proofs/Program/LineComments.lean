import Mathlib.Data.List.Basic
import Kerf.Proofs.Program.Itinerary
import Kerf.Proofs.Text.Classes

/-!
# Comments within lines

A line of a program is words with blanks between them, and a comment may be put at any
place among the words (`Place`). The estimator takes a comment to reach up to the end of
its line, also one in parentheses.

- `Progress.run_line_append`: a line moves the machine by one step, whatever stands around
  it.
- `Progress.step_of_isLineOf`: the step of a line of words is told by the words
  (`Progress.obey`).
- `estimate_insert`: with a comment in it, a program is estimated as one with the line cut
  off there, which is the same as without the comment where the words behind it add
  nothing (`AddsNothing`).
-/

namespace Kerf.Program

open Decimal (Literal Parts)

/-! ## Lines of a program -/

section Lines

/-- A carriage return at the end of a line is a blank like others. -/
theorem code_dropReturn (line : List Char) : code (Text.dropReturn line) = code line := by
  unfold Text.dropReturn
  -- the return is in front of a comment, and trimmed, or it is in the comment
  split
  · next hlast =>
    obtain ⟨start, rfl⟩ := List.getLast?_eq_some_iff.mp hlast
    have hreturn : ∀ c ∈ ['\r'], Text.isBlank c = true := List.all_eq_true.mp rfl
    rw [List.dropLast_concat, code, code, withoutComment, withoutComment, List.takeWhile_append]
    split
    · next hlength =>
      have hwhole : start.takeWhile (fun c => !startsComment c) = start :=
        List.takeWhile_prefix _ |>.eq_of_length hlength
      rw [hwhole]
      exact (Text.trim_append_of_blank hreturn start).symm
    · rfl
  · rfl

variable {α : Type} [Written α] (setup : Setup α) (progress : Progress α)

namespace Progress

theorem run_nil : progress.run setup [] = progress := rfl

theorem run_append {before : List Char} (h : ∀ c ∈ before.getLast?, c = '\n')
    (text : List Char) :
    progress.run setup (before ++ text) = (progress.run setup before).run setup text := by
  rcases List.eq_nil_or_concat before with rfl | ⟨lines, c, rfl⟩
  · rfl
  · obtain rfl : c = '\n' := h c (by simp)
    rw [List.concat_eq_append, List.append_assoc, List.singleton_append, run, run, run,
      Text.lines_append, Text.lines_append, List.foldl_append, List.foldl_append]
    rfl

/-- A line moves the machine by one step, and what follows it moves the machine on. -/
theorem run_line_append {line after : List Char} (hline : '\n' ∉ line)
    (hafter : ∀ c ∈ after.head?, c = '\n') :
    progress.run setup (line ++ after) = (progress.step setup line).run setup after := by
  have hreturn : progress.step setup (Text.dropReturn line) = progress.step setup line := by
    rw [← step_code, code_dropReturn, step_code]
  cases after with
  | nil =>
    rw [List.append_nil, run_nil, run]
    -- the last line has no feed behind it, and without characters it is no line
    cases line with
    | nil => rfl
    | cons c line =>
      rw [Text.lines_of_not_mem hline (List.cons_ne_nil c line)]
      rfl
  | cons c after =>
    obtain rfl : c = '\n' := hafter c rfl
    -- the feed belongs to the line, and what follows starts a new one
    have hempty : '\n' ∉ ([] : List Char) := List.not_mem_nil
    have hafter := Text.lines_append_feed hempty after
    rw [List.nil_append] at hafter
    rw [run, run, Text.lines_append_feed hline, hafter, List.foldl_cons,
      List.foldl_cons, hreturn]
    rfl

end Progress

/-- A line may be put in place of another that moves the machine in the same way. -/
theorem estimate_line_congr {before a b after : List Char}
    (hbefore : ∀ c ∈ before.getLast?, c = '\n') (hafter : ∀ c ∈ after.head?, c = '\n')
    (ha : '\n' ∉ a) (hb : '\n' ∉ b)
    (h : ∀ progress : Progress α, progress.step setup a = progress.step setup b) :
    estimate setup (before ++ (a ++ after)) = estimate setup (before ++ (b ++ after)) := by
  rw [estimate, estimate, Progress.run_append setup _ hbefore,
    Progress.run_append setup _ hbefore, Progress.run_line_append setup _ ha hafter,
    Progress.run_line_append setup _ hb hafter, h]

end Lines

/-! ## Words -/

/-- A letter with a number behind it. -/
structure Word where
  letter : Char
  number : Literal
  isAlpha_letter : letter.isAlpha = true
  exponent_eq : number.exponent = none

namespace Word

variable (word : Word)

/-- A word as it is written. -/
def text : List Char :=
  word.letter :: word.number.text

theorem isSolid_number : Text.IsSolid word.number.text := by
  constructor
  · obtain ⟨c, rest, hunsigned, -⟩ := word.number.exists_unsigned_eq_cons
    rw [Parts.text, hunsigned]
    exact List.append_ne_nil_of_right_ne_nil _ (List.cons_ne_nil c rest)
  · have hall : ∀ c ∈ word.number.text, (!Text.isBlank c) = true := by
      refine word.number.all_text ?_ rfl
      intro c hc
      rw [Text.isBlank_of_isDigit hc, Bool.not_false]
    simpa using hall

theorem isSolid : Text.IsSolid word.text := by
  refine ⟨List.cons_ne_nil _ _, List.forall_mem_cons.mpr ⟨?_, word.isSolid_number.2⟩⟩
  rw [Bool.eq_false_iff]
  intro hblank
  have hletter := Text.isAlpha_of_isBlank hblank
  rw [word.isAlpha_letter] at hletter
  cases hletter

theorem not_startsComment : ∀ c ∈ word.text, startsComment c = false := by
  -- neither a digit nor what else is in a number starts a comment
  have hall : ∀ c ∈ word.number.text, (!startsComment c) = true := by
    refine word.number.all_text ?_ rfl
    intro c hc
    rw [Bool.not_eq_true', startsComment, Bool.or_eq_false_iff, beq_eq_false_iff_ne,
      beq_eq_false_iff_ne]
    constructor
    · rintro rfl
      cases hc
    · rintro rfl
      cases hc
  have hletter : startsComment word.letter = false := by
    rw [startsComment, Bool.or_eq_false_iff, beq_eq_false_iff_ne, beq_eq_false_iff_ne]
    exact ⟨Text.ne_of_isAlpha word.isAlpha_letter rfl,
      Text.ne_of_isAlpha word.isAlpha_letter rfl⟩
  rw [text, List.forall_mem_cons]
  exact ⟨hletter, by simpa using hall⟩

/-- The letters of the axes are not in numbers. -/
theorem toUpper_ne_of_mem_number {c : Char} (hc : c ∈ word.number.text) {axis : Char}
    (haxis : axis ∈ ['X', 'Y']) : c.toUpper ≠ axis := by
  have hall : ∀ c ∈ word.number.text, (!(['X', 'Y'].contains c.toUpper)) = true := by
    refine word.number.all_text ?_ rfl
    intro c hc
    have hletters : ['X', 'Y'].all (fun c => !c.isDigit) = true := rfl
    rw [Text.toUpper_of_isDigit hc, Bool.not_eq_true', Bool.eq_false_iff]
    intro hmem
    have hletter := List.all_eq_true.mp hletters c (List.contains_iff_mem.mp hmem)
    rw [hc] at hletter
    cases hletter
  rintro rfl
  have hletter := hall c hc
  rw [List.contains_iff_mem.mpr haxis] at hletter
  cases hletter

end Word

/-- What separates the words of a line. -/
def isGap (c : Char) : Bool :=
  Text.isBlank c && c != '\n'

theorem isBlank_of_isGap {c : Char} (h : isGap c = true) : Text.isBlank c = true :=
  (Bool.and_eq_true_iff.mp h).1

/-- The lines that some words are written as. -/
def IsLineOf (words : List Word) (line : List Char) : Prop :=
  Text.IsSpaced isGap (words.map Word.text) line

section Searching

variable {words : List Word} {line : List Char}

theorem IsLineOf.not_startsComment (h : IsLineOf words line) :
    ∀ c ∈ line, startsComment c = false := by
  refine Text.IsSpaced.forall_mem ?_ h ?_
  · intro c hc
    rw [startsComment, Bool.or_eq_false_iff, beq_eq_false_iff_ne, beq_eq_false_iff_ne]
    constructor
    · rintro rfl
      cases hc
    · rintro rfl
      cases hc
  · intro part hpart
    obtain ⟨word, -, rfl⟩ := List.mem_map.mp hpart
    exact word.not_startsComment

theorem IsLineOf.not_mem_feed (h : IsLineOf words line) : '\n' ∉ line := by
  have hall : ∀ c ∈ line, c ≠ '\n' := by
    refine Text.IsSpaced.forall_mem ?_ h ?_
    · rintro c hc rfl
      cases hc
    · intro part hpart
      obtain ⟨word, -, rfl⟩ := List.mem_map.mp hpart
      rintro c hc rfl
      have hfeed := word.isSolid.2 '\n' hc
      cases hfeed
  exact fun hfeed => hall '\n' hfeed rfl

/-- The motion that the first of some words names. -/
def openingMotion? (words : List Word) : Option Motion :=
  words.head?.bind fun word => motion? word.text

/-- The number of the first word with a letter, in either case. -/
def numberOf? (letter : Char) (words : List Word) : Option (List Char) :=
  (words.find? fun word => word.letter.toUpper == letter).map fun word => word.number.text

/-- What is behind a word does not change the motion that it names. -/
theorem motion?_append {text rest : List Char} (hne : text ≠ [])
    (hrest : ∀ c ∈ rest.head?, c.isDigit = false ∧ c ≠ '.') :
    motion? (text ++ rest) = motion? text := by
  obtain ⟨c, text, rfl⟩ := List.exists_cons_of_ne_nil hne
  have hdigit : ∀ c ∈ rest.head?, c.isDigit = false := fun c hc => (hrest c hc).1
  -- the digits of the code end where they did
  have htake : (text ++ rest).takeWhile Char.isDigit = text.takeWhile Char.isDigit := by
    have hnone : rest.takeWhile Char.isDigit = [] :=
      Text.takeWhile_run_append (List.forall_mem_nil _) hdigit
    rw [List.takeWhile_append, hnone, List.append_nil]
    split
    · next hlength => exact (List.takeWhile_prefix _ |>.eq_of_length hlength).symm
    · rfl
  -- and what is behind them is a point only if it was one
  have hpoint : ((text ++ rest).dropWhile Char.isDigit).head? = some '.' ↔
      (text.dropWhile Char.isDigit).head? = some '.' := by
    rw [List.dropWhile_append]
    split
    · next hall =>
      rw [Text.dropWhile_of_head hdigit, List.isEmpty_iff.mp hall]
      refine iff_of_false ?_ (by simp)
      intro hhead
      exact (hrest '.' hhead).2 rfl
    · next hsome =>
      rw [List.head?_append_of_ne_nil _ (by simpa using hsome)]
  simp only [List.cons_append, motion?, Ne, htake, hpoint]

variable {axis : Char} (haxis : axis ∈ ['X', 'Y'])

include haxis

/-- A word is found by its letter. -/
theorem findWord?_word (word : Word) {after : List Char}
    (hafter : ∀ c ∈ after.head?, isGap c = true) :
    findWord? axis (word.text ++ after) =
      if word.letter.toUpper = axis then some word.number.text else findWord? axis after := by
  rw [Word.text, List.cons_append, findWord?]
  by_cases hletter : word.letter.toUpper = axis
  · have hends : ∀ c ∈ after.head?, Text.isDigit c = false ∧ c ≠ '.' := by
      intro c hc
      refine ⟨Text.isAnyDigit_of_isBlank (isBlank_of_isGap (hafter c hc)), ?_⟩
      rintro rfl
      cases hafter '.' hc
    rw [if_pos hletter, if_pos hletter,
      Text.trimStart_of_head (word.isSolid_number.head?_append after),
      wordNumber?_literal_append word.exponent_eq hends]
  · rw [if_neg hletter, if_neg hletter]
    exact findWord?_append_of_lacks (fun c hc => word.toUpper_ne_of_mem_number hc haxis) after

/-- In a line of words, what is found is the number of the first word with the letter. -/
theorem findWord?_of_isLineOf (h : IsLineOf words line) :
    findWord? axis line = numberOf? axis words := by
  -- no axis is found in a gap
  have hgap : ∀ {run : List Char}, (∀ c ∈ run, isGap c = true) →
      ∀ c ∈ run, c.toUpper ≠ axis := by
    intro run hrun c hc
    rw [Text.toUpper_of_isBlank (isBlank_of_isGap (hrun c hc))]
    rintro rfl
    have hall : ['X', 'Y'].all (fun c => !isGap c) = true := rfl
    have haxis := List.all_eq_true.mp hall c haxis
    rw [hrun c hc] at haxis
    cases haxis
  induction words generalizing line with
  | nil =>
    rw [IsLineOf, List.map_nil] at h
    cases h with
    | nil hrun =>
      have hskip := findWord?_append_of_lacks (hgap hrun) []
      rw [List.append_nil] at hskip
      rw [hskip]
      rfl
  | cons word words ih =>
    rw [IsLineOf, List.map_cons] at h
    cases h with
    | cons hrun hafter hrest =>
      -- either the first word has the letter, or it is passed over
      rw [findWord?_append_of_lacks (hgap hrun), findWord?_word haxis word hafter,
        ih hrest, numberOf?, numberOf?, List.find?_cons]
      by_cases hletter : word.letter.toUpper = axis
      · rw [if_pos hletter, beq_iff_eq.mpr hletter]
        rfl
      · rw [if_neg hletter, beq_eq_false_iff_ne.mpr hletter]

end Searching

/-! ## Lines of words -/

section Obeying

variable {α : Type} [Written α] (setup : Setup α) (progress : Progress α)

/-- A machine after one more line of some words. -/
def Progress.obey (words : List Word) : Progress α :=
  (openingMotion? words).elim progress fun motion =>
    progress.move setup motion
      ⟨((numberOf? 'X' words).bind Written.read?).getD progress.position.x,
        ((numberOf? 'Y' words).bind Written.read?).getD progress.position.y⟩

/-- The step of a line is told by its words. -/
theorem Progress.step_of_isLineOf {words : List Word} {line : List Char}
    (h : IsLineOf words line) :
    progress.step setup line = progress.obey setup words := by
  -- there is no comment in the line
  have hcode : code line = Text.trim line := by
    have hcut := withoutComment_append h.not_startsComment []
    rw [List.append_nil] at hcut
    rw [code, hcut]
    exact congrArg Text.trim (List.append_nil line)
  cases words with
  | nil =>
    rw [IsLineOf, List.map_nil] at h
    cases h with
    | nil hrun =>
      have hnil : Text.trim line = [] :=
        Text.trim_eq_nil_iff.mpr fun c hc => isBlank_of_isGap (hrun c hc)
      rw [step, hcode, hnil]
      rfl
  | cons word words =>
    have hsolid : ∀ part ∈ (word :: words).map Word.text, Text.IsSolid part := by
      intro part hpart
      obtain ⟨word, -, rfl⟩ := List.mem_map.mp hpart
      exact word.isSolid
    obtain ⟨rest, htrim, hgap, hspaced⟩ :=
      Text.IsSpaced.exists_trim (fun _ => isBlank_of_isGap) h hsolid
    have hline : IsLineOf (word :: words) (word.text ++ rest) :=
      .cons (List.forall_mem_nil _) hgap hspaced
    -- the gap behind the first word ends its number
    have hends : ∀ c ∈ rest.head?, c.isDigit = false ∧ c ≠ '.' := by
      intro c hc
      refine ⟨Text.isDigit_of_isBlank (isBlank_of_isGap (hgap c hc)), ?_⟩
      rintro rfl
      cases hgap '.' hc
    have hx : findWord? 'X' (word.text ++ rest) = numberOf? 'X' (word :: words) :=
      findWord?_of_isLineOf (by decide) hline
    have hy : findWord? 'Y' (word.text ++ rest) = numberOf? 'Y' (word :: words) :=
      findWord?_of_isLineOf (by decide) hline
    rw [step, hcode, htrim]
    simp only [motion?_append word.isSolid.1 hends, axis?, hx, hy]
    rw [obey, openingMotion?, List.head?_cons, Option.bind_some]
    cases motion? word.text with
    | none => rfl
    | some motion => rfl

end Obeying

/-! ## Comments among words -/

/-- Words behind others add nothing to the step of a line: there are none, or the line is
no motion, or the others name the motion and have a number for each axis that the words
have one for. -/
def AddsNothing (ahead behind : List Word) : Prop :=
  behind = [] ∨ openingMotion? (ahead ++ behind) = none ∨
    ahead ≠ [] ∧ ∀ word ∈ behind, word.letter.toUpper ∈ ['X', 'Y'] →
      ∃ other ∈ ahead, other.letter.toUpper = word.letter.toUpper

section Adding

variable {ahead behind : List Word}

theorem openingMotion?_append (h : ahead ≠ []) :
    openingMotion? (ahead ++ behind) = openingMotion? ahead := by
  rw [openingMotion?, List.head?_append_of_ne_nil _ h, openingMotion?]

/-- The numbers of an axis are looked for in the words behind only if there are none among
the others. -/
theorem numberOf?_append {axis : Char}
    (h : ∀ word ∈ behind, word.letter.toUpper = axis →
      ∃ other ∈ ahead, other.letter.toUpper = axis) :
    numberOf? axis (ahead ++ behind) = numberOf? axis ahead := by
  rw [numberOf?, numberOf?, List.find?_append]
  cases hahead : ahead.find? fun word => word.letter.toUpper == axis with
  | some word => rfl
  | none =>
    have hbehind : (behind.find? fun word => word.letter.toUpper == axis) = none := by
      rw [List.find?_eq_none] at hahead ⊢
      intro word hword hletter
      obtain ⟨other, hother, hsame⟩ := h word hword (beq_iff_eq.mp hletter)
      exact hahead other hother (beq_iff_eq.mpr hsame)
    rw [hbehind]
    rfl

theorem Progress.obey_append {α : Type} [Written α] (setup : Setup α) (progress : Progress α)
    (h : AddsNothing ahead behind) :
    progress.obey setup (ahead ++ behind) = progress.obey setup ahead := by
  rcases h with rfl | hnone | ⟨hne, hletters⟩
  · rw [List.append_nil]
  · -- what is left of the line is no motion either
    have hahead : openingMotion? ahead = none := by
      cases ahead with
      | nil => rfl
      | cons word ahead => exact hnone
    rw [obey, obey, hnone, hahead]
    rfl
  -- the motion is the same, and what is behind has no coordinate that is not there already
  · have hx : numberOf? 'X' (ahead ++ behind) = numberOf? 'X' ahead := by
      refine numberOf?_append fun word hword hletter => ?_
      have hother := hletters word hword (by simp [hletter])
      rwa [hletter] at hother
    have hy : numberOf? 'Y' (ahead ++ behind) = numberOf? 'Y' ahead := by
      refine numberOf?_append fun word hword hletter => ?_
      have hother := hletters word hword (by simp [hletter])
      rwa [hletter] at hother
    rw [obey, obey, openingMotion?_append hne, hx, hy]

end Adding

/-- A place among the words of one of the lines of a program. -/
structure Place where
  /-- The lines before this one. -/
  before : List Char
  /-- The words in front of the place. -/
  ahead : List Word
  front : List Char
  /-- The words behind the place. -/
  behind : List Word
  back : List Char
  /-- The end of the line, and the lines after it. -/
  after : List Char
  before_ends : ∀ c ∈ before.getLast?, c = '\n'
  isLineOf_front : IsLineOf ahead front
  isLineOf_line : IsLineOf (ahead ++ behind) (front ++ back)
  after_starts : ∀ c ∈ after.head?, c = '\n'

namespace Place

variable (place : Place)

/-- The program with something put in at the place. -/
def insert (text : List Char) : List Char :=
  place.before ++ (place.front ++ (text ++ place.back) ++ place.after)

/-- The program with the line cut off at the place. -/
def cutOff : List Char :=
  place.before ++ (place.front ++ place.after)

theorem not_mem_feed_insert {text : List Char} (h : '\n' ∉ text) :
    '\n' ∉ place.front ++ (text ++ place.back) := by
  have hline := place.isLineOf_line.not_mem_feed
  simp only [List.mem_append, not_or] at hline ⊢
  exact ⟨hline.1, h, hline.2⟩

variable {α : Type} [Written α] (setup : Setup α)

/-- What stands behind the mark of a comment is not read. -/
theorem estimate_insert_mark {mark : Char} (hmark : startsComment mark = true)
    {text : List Char} (htext : '\n' ∉ mark :: text) :
    estimate setup (place.insert (mark :: text)) = estimate setup place.cutOff := by
  refine estimate_line_congr setup place.before_ends place.after_starts
    (place.not_mem_feed_insert htext)
    place.isLineOf_front.not_mem_feed ?_
  intro progress
  have hcut : code (place.front ++ (mark :: text ++ place.back)) = code place.front := by
    have hfront := withoutComment_append place.isLineOf_front.not_startsComment
    have hmarked : withoutComment (mark :: text ++ place.back) = [] := by
      rw [List.cons_append, withoutComment, List.takeWhile_cons_of_neg (by simp [hmark])]
    have hwhole := hfront []
    rw [List.append_nil] at hwhole
    rw [code, code, hfront, hmarked, hwhole]
    rfl
  rw [← Progress.step_code, hcut, Progress.step_code]

/-- Words that add nothing may be cut off. -/
theorem estimate_cutOff (h : AddsNothing place.ahead place.behind) :
    estimate setup place.cutOff = estimate setup (place.insert []) := by
  refine estimate_line_congr setup place.before_ends place.after_starts
    place.isLineOf_front.not_mem_feed (place.not_mem_feed_insert List.not_mem_nil) ?_
  intro progress
  rw [List.nil_append, Progress.step_of_isLineOf setup progress place.isLineOf_front,
    Progress.step_of_isLineOf setup progress place.isLineOf_line, progress.obey_append setup h]

end Place

/-- **Comments among words**: with a comment in parentheses, a program is estimated as if
the line ended in front of the comment. So the comment does not matter where the words
behind it add nothing; nor does one behind a semicolon at the end of a line. -/
theorem estimate_insert {α : Type} [Written α] (setup : Setup α) (place : Place)
    {comment : List Char} (hcomment : '\n' ∉ comment) :
    estimate setup (place.insert ('(' :: (comment ++ [')']))) = estimate setup place.cutOff ∧
      (AddsNothing place.ahead place.behind →
        estimate setup (place.insert ('(' :: (comment ++ [')']))) =
          estimate setup (place.insert [])) ∧
      (place.behind = [] →
        estimate setup (place.insert (';' :: comment)) = estimate setup (place.insert [])) := by
  have hopen : '\n' ∉ '(' :: (comment ++ [')']) := by simpa using hcomment
  have hsemicolon : '\n' ∉ ';' :: comment := by simpa using hcomment
  have hcut := place.estimate_insert_mark setup (by decide) hopen
  refine ⟨hcut, ?_, ?_⟩
  · intro h
    rw [hcut, place.estimate_cutOff setup h]
  · intro hnone
    rw [place.estimate_insert_mark setup (by decide) hsemicolon,
      place.estimate_cutOff setup (.inl hnone)]

/-- A word with a whole number. -/
def Word.whole (letter : Char) (hletter : letter.isAlpha = true) (digits : List Char)
    (h : Decimal.IsDigits digits) : Word :=
  ⟨letter, ⟨⟨.unsigned, digits, none, none, h.2, Parts.isDigit_of_mem_none⟩, .inl h.1⟩,
    hletter, rfl⟩

/-- A comment in front of a feed does not matter: the cuts go to (0, 5) and to (10, 5). -/
theorem estimate_insert_before_feed :
    ∃ place : Place, place.insert [] = "G1 Y5\nG1 X10\tF9".toList ∧
      AddsNothing place.ahead place.behind ∧
      (estimate (.default : Setup Float) (place.insert "(X7)".toList)).cutDistance = 15.0 := by
  let cut : List Word :=
    [.whole 'G' rfl ['1'] (by decide), .whole 'X' rfl ['1', '0'] (by decide)]
  let feed : Word := .whole 'F' rfl ['9'] (by decide)
  have hnone : ∀ c ∈ ([] : List Char), isGap c = true := List.forall_mem_nil _
  have hblank : ∀ c ∈ [' '], isGap c = true := List.all_eq_true.mp rfl
  have htab : ∀ c ∈ ['\t'], isGap c = true := List.all_eq_true.mp rfl
  -- the comment comes between the two words of the cut and the feed
  have hfront : IsLineOf cut "G1 X10".toList :=
    .cons_separator hnone rfl (.cons hblank (by simp) (.nil hnone))
  have hline : IsLineOf (cut ++ [feed]) "G1 X10\tF9".toList :=
    .cons_separator hnone rfl (.cons_separator hblank rfl (.cons htab (by simp) (.nil hnone)))
  have hlines : ∀ c ∈ "G1 Y5\n".toList.getLast?, c = '\n' := by
    rintro _ ⟨⟩
    rfl
  let place : Place :=
    ⟨"G1 Y5\n".toList, cut, "G1 X10".toList, [feed], "\tF9".toList, [], hlines, hfront,
      hline, by simp⟩
  have h : AddsNothing place.ahead place.behind := by
    refine .inr (.inr ⟨List.cons_ne_nil _ _, ?_⟩)
    intro word hword haxis
    rw [List.mem_singleton.mp hword] at haxis
    exact absurd haxis (by decide)
  have hfeed : '\n' ∉ "X7".toList := by decide
  obtain ⟨-, hsame, -⟩ := estimate_insert (.default : Setup Float) place hfeed
  have hcut : (estimate (.default : Setup Float) "G1 Y5\nG1 X10\tF9".toList).cutDistance =
      15.0 := by
    decide +kernel
  exact ⟨place, rfl, h, (congrArg Estimate.cutDistance (hsame h)).trans hcut⟩

/-- A comment in parentheses hides the words behind it. -/
theorem not_forall_estimate_insert :
    ¬ ∀ (setup : Setup Float) (place : Place) (comment : List Char),
      '\n' ∉ comment → '(' ∉ comment → ')' ∉ comment →
        estimate setup (place.insert ('(' :: (comment ++ [')']))) =
          estimate setup (place.insert []) ∧
          (place.behind = [] →
            estimate setup (place.insert (';' :: comment)) =
              estimate setup (place.insert [])) := by
  intro h
  let cut : List Word :=
    [.whole 'G' rfl ['1'] (by decide), .whole 'X' rfl ['1', '0'] (by decide)]
  have hnone : ∀ c ∈ ([] : List Char), isGap c = true := List.forall_mem_nil _
  have hblank : ∀ c ∈ [' '], isGap c = true := List.all_eq_true.mp rfl
  have hline : IsLineOf cut " G1 X10".toList :=
    .cons_separator hblank rfl (.cons hblank (by simp) (.nil hnone))
  let place : Place :=
    ⟨[], [], [], cut, " G1 X10".toList, [], by simp, .nil hnone, hline, by simp⟩
  obtain ⟨hsame, -⟩ := h .default place ['c'] (by decide) (by decide) (by decide)
  -- all words of the line are behind the comment
  have hhidden : (estimate (.default : Setup Float) "(c) G1 X10".toList).cutDistance = 0.0 := by
    decide +kernel
  have hcut : (estimate (.default : Setup Float) " G1 X10".toList).cutDistance = 10.0 := by
    decide +kernel
  have heq : (estimate (.default : Setup Float) "(c) G1 X10".toList).cutDistance =
      (estimate (.default : Setup Float) " G1 X10".toList).cutDistance :=
    congrArg Estimate.cutDistance hsame
  rw [hhidden, hcut] at heq
  exact absurd heq (by decide +kernel)

end Kerf.Program
