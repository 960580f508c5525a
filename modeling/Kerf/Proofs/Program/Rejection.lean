import Mathlib
import Kerf.Proofs.Program.Itinerary
import Kerf.Proofs.Program.Validity
import Kerf.Proofs.Text.Case
import Kerf.Proofs.Text.Lines

/-!
# Lines that are foreign to programs

A line is foreign if there is something in it and it starts neither as a comment nor with
the letter of a word, whatever follows (`IsForeign`). The check reports the first such
line by its number.

- `isLineAllowed_eq_false_iff`: the lines that are not allowed are the foreign ones.
- `checkLines_eq_error_iff`: the one that is reported has none before it.
- `head?_code`: the estimator reads a line without its comment, but what is left starts as
  the line does. So what moves a machine is not foreign (`not_isForeign_of_motion`).
- `check_reports_first_foreign`: the three answers of the check, and that foreign lines do
  not matter to estimates.
-/

namespace Kerf.Program

/-! ## Foreign lines -/

/-- The letters of words, in either case. -/
def wordLetters : List Char :=
  ['G', 'M', 'X', 'Y', 'Z', 'F', 'S', 'g', 'm', 'x', 'y', 'z', 'f', 's']

/-- Whether a line without blanks around it starts with something, and not as lines of
programs do. -/
def IsForeign (line : List Char) : Prop :=
  ∃ c ∈ line.head?, c ≠ ';' ∧ c ≠ '(' ∧ c ∉ wordLetters

/-- Whether some lines have a foreign one at a number, counted from one on, and what is in
it. -/
def ForeignAt (lines : List (List Char)) (number : Nat) (content : List Char) : Prop :=
  0 < number ∧ ∃ line, lines[number - 1]? = some line ∧ Text.trim line = content ∧
    IsForeign content

theorem toUpper_mem_leadingLetters_iff {c : Char} :
    c.toUpper ∈ leadingLetters ↔ c ∈ wordLetters := by
  have hcapital : leadingLetters.all fun letter =>
    decide (65 ≤ letter.toNat ∧ letter.toNat ≤ 90) := rfl
  -- of a capital letter only it and its small letter are raised to it
  have hcase {letter : Char} (h : letter ∈ leadingLetters) :
      c.toUpper = letter ↔ c = letter ∨ c = letter.toLower :=
    Text.toUpper_eq_iff (of_decide_eq_true (List.all_eq_true.mp hcapital letter h))
  have hletters : wordLetters = leadingLetters ++ leadingLetters.map Char.toLower := by decide
  rw [hletters, List.mem_append, List.mem_map]
  constructor
  · intro h
    rcases (hcase h).mp rfl with hc | hc
    · exact .inl (hc ▸ h)
    · exact .inr ⟨c.toUpper, h, hc.symm⟩
  · rintro (h | ⟨letter, h, hc⟩)
    · rwa [(hcase h).mpr (.inl rfl)]
    · rwa [(hcase h).mpr (.inr hc.symm)]

theorem isLineAllowed_eq_false_iff {line : List Char} :
    isLineAllowed line = false ↔ IsForeign line := by
  cases line with
  | nil => simp [isLineAllowed, IsForeign]
  | cons c rest =>
    rw [isLineAllowed, Bool.or_eq_false_iff, startsComment, List.contains_eq_mem,
      decide_eq_false_iff_not, toUpper_mem_leadingLetters_iff]
    simp [IsForeign, and_assoc]

/-! ## The first one -/

/-- The line that is reported is foreign, and none before it is. -/
theorem checkLines_eq_error_iff {number : Nat} {lines : List (List Char)} {error : CheckError} :
    checkLines number lines = .error error ↔
      ∃ index line, lines[index]? = some line ∧ IsForeign (Text.trim line) ∧
        (∀ before other, lines[before]? = some other → before < index →
          ¬IsForeign (Text.trim other)) ∧
        error = .invalidLine (number + index) (Text.trim line) := by
  induction lines generalizing number with
  | nil => simp [checkLines]
  | cons first lines ih =>
    rw [checkLines]
    -- a foreign line ends it, and after any other the count goes on
    cases hallowed : isLineAllowed (Text.trim first) with
    | false =>
      have hforeign := isLineAllowed_eq_false_iff.mp hallowed
      rw [if_neg Bool.false_ne_true, Except.error.injEq]
      constructor
      · rintro rfl
        exact ⟨0, first, rfl, hforeign, by simp, rfl⟩
      · rintro ⟨index, line, hline, -, hbefore, rfl⟩
        cases index with
        | zero => cases hline; rfl
        | succ index => exact absurd hforeign (hbefore 0 first rfl (Nat.succ_pos index))
    | true =>
      have hfirst : ¬IsForeign (Text.trim first) := by
        rw [← isLineAllowed_eq_false_iff, hallowed, Bool.true_eq_false]
        exact not_false
      rw [if_pos rfl, ih]
      constructor
      · rintro ⟨index, line, hline, hforeign, hbefore, rfl⟩
        refine ⟨index + 1, line, hline, hforeign, fun before other hother hlt => ?_, ?_⟩
        · cases before with
          | zero => cases hother; exact hfirst
          | succ before => exact hbefore before other hother (Nat.lt_of_succ_lt_succ hlt)
        · rw [Nat.add_right_comm, Nat.add_assoc]
      · rintro ⟨index, line, hline, hforeign, hbefore, rfl⟩
        cases index with
        | zero => cases hline; exact absurd hforeign hfirst
        | succ index =>
          refine ⟨index, line, hline, hforeign, fun before other hother hlt => ?_, ?_⟩
          · exact hbefore (before + 1) other hother (Nat.succ_lt_succ hlt)
          · rw [Nat.add_right_comm, Nat.add_assoc]

theorem trim_isEmpty_iff {program : List Char} :
    (Text.trim program).isEmpty = true ↔ ∀ c ∈ program, Text.isBlank c = true := by
  rw [List.isEmpty_iff, Text.trim_eq_nil_iff]

theorem check_eq_empty_iff {program : List Char} :
    check program = .error .empty ↔ ∀ c ∈ program, Text.isBlank c = true := by
  rw [← trim_isEmpty_iff, check]
  split
  · next hblank => exact iff_of_true rfl hblank
  · next hblank =>
    refine iff_of_false (fun herror => ?_) hblank
    obtain ⟨index, line, -, -, -, hinvalid⟩ := checkLines_eq_error_iff.mp herror
    cases hinvalid

theorem check_eq_invalidLine_iff {program : List Char} {number : Nat} {content : List Char} :
    check program = .error (.invalidLine number content) ↔
      (∃ c ∈ program, Text.isBlank c = false) ∧ ForeignAt (Text.lines program) number content ∧
        IsLeast {n | ∃ other, ForeignAt (Text.lines program) n other} number := by
  -- a program without content is not looked at line by line
  have hblank : (∃ c ∈ program, Text.isBlank c = false) ↔
      ¬(Text.trim program).isEmpty = true := by
    rw [trim_isEmpty_iff]
    simp
  rw [check, hblank]
  split
  · next hempty => exact iff_of_false (by rintro ⟨⟩) fun h => h.1 hempty
  · next hempty =>
    rw [and_iff_right hempty, checkLines_eq_error_iff]
    constructor
    · rintro ⟨index, line, hline, hforeign, hbefore, herror⟩
      obtain ⟨rfl, rfl⟩ := CheckError.invalidLine.inj herror
      have hat : ForeignAt (Text.lines program) (1 + index) (Text.trim line) := by
        refine ⟨by omega, line, ?_, rfl, hforeign⟩
        rwa [Nat.add_sub_cancel_left]
      refine ⟨hat, ⟨_, hat⟩, ?_⟩
      rintro n ⟨content, hn, other, hother, rfl, hotherForeign⟩
      -- a foreign line before it would have been reported
      by_contra hlt
      exact hbefore (n - 1) other hother (by omega) hotherForeign
    · rintro ⟨⟨hpos, line, hline, rfl, hforeign⟩, -, hleast⟩
      refine ⟨number - 1, line, hline, hforeign,
        fun before other hother hlt hotherForeign => ?_, ?_⟩
      · have hle :=
          hleast ⟨Text.trim other, Nat.succ_pos before, other, hother, rfl, hotherForeign⟩
        omega
      · rw [Nat.add_sub_cancel' hpos]

theorem forall_isLineAllowed_iff {lines : List (List Char)} :
    (∀ line ∈ lines, isLineAllowed (Text.trim line) = true) ↔
      ∀ number content, ¬ForeignAt lines number content := by
  constructor
  · rintro hallowed number _ ⟨-, line, hline, rfl, hforeign⟩
    have hfalse := isLineAllowed_eq_false_iff.mpr hforeign
    rw [hallowed line (List.mem_of_getElem? hline)] at hfalse
    cases hfalse
  · intro hnone line hline
    rw [← Bool.not_eq_false, isLineAllowed_eq_false_iff]
    intro hforeign
    obtain ⟨index, hindex⟩ := List.mem_iff_getElem?.mp hline
    exact hnone (index + 1) _ ⟨Nat.succ_pos index, line, hindex, rfl, hforeign⟩

/-! ## Motions -/

/-- What is left of a line without its comment starts as the line does. -/
theorem head?_code {line : List Char} {c : Char} (hc : c ∈ (code line).head?) :
    c ∈ (Text.trim line).head? := by
  rw [code, Text.head?_trim] at hc
  rw [Text.head?_trim]
  obtain ⟨rest, hstart⟩ := List.head?_eq_some_iff.mp hc
  have hwhole : withoutComment line ++ line.dropWhile (fun c => !startsComment c) = line :=
    List.takeWhile_append_dropWhile
  rw [Text.trimStart] at hstart ⊢
  rw [← hwhole, List.dropWhile_append, hstart]
  rfl

/-- A line that moves a machine starts with the letter of motions. -/
theorem exists_head?_of_motion {line : List Char} (h : motion? (code line) ≠ none) :
    ∃ c ∈ (Text.trim line).head?, c.toUpper = 'G' := by
  cases hcode : code line with
  | nil =>
    rw [hcode] at h
    exact absurd rfl h
  | cons c rest =>
    refine ⟨c, head?_code (by rw [hcode]; rfl), ?_⟩
    by_contra hletter
    rw [hcode, motion?, if_neg fun hboth => hletter hboth.1] at h
    exact h rfl

theorem isLineAllowed_of_motion {line : List Char} (h : motion? (code line) ≠ none) :
    isLineAllowed (Text.trim line) = true := by
  obtain ⟨c, hc, hletter⟩ := exists_head?_of_motion h
  obtain ⟨rest, hline⟩ := List.head?_eq_some_iff.mp hc
  rw [hline, isLineAllowed, hletter]
  exact Bool.or_true _

/-- A line that moves a machine passes the check by itself. -/
theorem check_of_motion {line : List Char} (hfeed : '\n' ∉ line)
    (h : motion? (code line) ≠ none) :
    check line = .ok () := by
  obtain ⟨c, hc, -⟩ := exists_head?_of_motion h
  have hsome : Text.trim line ≠ [] := List.ne_nil_of_mem (List.mem_of_mem_head? hc)
  have hne : line ≠ [] := by
    rintro rfl
    exact hsome rfl
  rw [check_eq_ok_iff, Text.lines_of_not_mem hfeed hne, List.forall_mem_singleton]
  refine ⟨?_, isLineAllowed_of_motion h⟩
  rw [ne_eq, Text.trim_eq_nil_iff] at hsome
  simpa using hsome

section Estimates

variable {α : Type} [Written α] (setup : Setup α)

theorem Progress.step_of_motion?_eq_none (progress : Progress α) {line : List Char}
    (h : motion? (code line) = none) : progress.step setup line = progress := by
  simp only [step, h]

/-- Only lines that pass the check are counted in an estimate. -/
theorem estimate_eq_foldl_filter (program : List Char) :
    estimate setup program =
      (((Text.lines program).filter isValid).foldl (Progress.step setup) .start).estimate := by
  rw [estimate, Progress.run, List.foldl_filter]
  refine congrArg Progress.estimate (List.foldl_ext _ _ _ fun progress line hline => ?_)
  by_cases hvalid : isValid line = true
  · rw [if_pos hvalid]
  · rw [if_neg hvalid]
    refine progress.step_of_motion?_eq_none setup (not_not.mp fun hmotion => hvalid ?_)
    rw [isValid, check_of_motion ((Text.isLines_lines program).not_mem_feed line hline) hmotion]
    rfl

end Estimates

/-! ## Checks and estimates -/

/-- **The check reports the first foreign line, and estimates do not count foreign
lines.** The lines of a text are the parts that end with a line feed, with or without a
carriage return before it, and what follows the last one. A text without anything but
blanks is refused as empty; otherwise the foreign line with the least number is reported
with that number and without the blanks around it, and if there is none, the text passes.
A line that the estimator takes for a motion passes the check by itself, a foreign line
moves nothing, and an estimate is that of the lines that pass the check. -/
theorem check_reports_first_foreign (program : List Char) :
    (∀ parts, Text.IsLines program parts ↔ Text.lines program = parts) ∧
    (check program = .error .empty ↔ ∀ c ∈ program, Text.isBlank c = true) ∧
    (∀ number content, check program = .error (.invalidLine number content) ↔
      (∃ c ∈ program, Text.isBlank c = false) ∧ ForeignAt (Text.lines program) number content ∧
        IsLeast {n | ∃ other, ForeignAt (Text.lines program) n other} number) ∧
    (check program = .ok () ↔ (∃ c ∈ program, Text.isBlank c = false) ∧
      ∀ number content, ¬ForeignAt (Text.lines program) number content) ∧
    (∀ line ∈ Text.lines program, motion? (code line) ≠ none → check line = .ok ()) ∧
    ∀ (α : Type) [Written α] (setup : Setup α),
      (∀ (progress : Progress α) (line : List Char), IsForeign (Text.trim line) →
        progress.step setup line = progress) ∧
      estimate setup program =
        (((Text.lines program).filter isValid).foldl
          (Progress.step setup) .start).estimate := by
  refine ⟨fun parts => Text.isLines_iff, check_eq_empty_iff,
    fun number content => check_eq_invalidLine_iff, ?_,
    fun line hline => check_of_motion ((Text.isLines_lines program).not_mem_feed line hline),
    fun α _ setup => ⟨fun progress line hforeign => ?_, estimate_eq_foldl_filter setup program⟩⟩
  · rw [check_eq_ok_iff, forall_isLineAllowed_iff]
  · refine progress.step_of_motion?_eq_none setup (not_not.mp fun hmotion => ?_)
    have hfalse := isLineAllowed_eq_false_iff.mpr hforeign
    rw [isLineAllowed_of_motion hmotion] at hfalse
    cases hfalse

/-- The third line starts with a blank of another script and with a letter that is none of
those of words. A carriage return alone ends no line. -/
theorem check_reports_first_foreign_third_line :
    let program := "G1 X5\r\n\r;\n\u3000T1 M6 \r\n$H".toList
    motion? (code "G1 X5".toList) ≠ none ∧ check "G1 X5".toList = .ok () ∧
      ForeignAt (Text.lines program) 3 "T1 M6".toList ∧
      IsLeast {n | ∃ other, ForeignAt (Text.lines program) n other} 3 ∧
      IsForeign (Text.trim "$H".toList) ∧
      ∀ progress : Progress Float, progress.step .default "$H".toList = progress := by
  intro program
  have hmotion : motion? (code "G1 X5".toList) ≠ none := by decide
  have hmem : "G1 X5".toList ∈ Text.lines program := by decide +kernel
  have hreported : check program = .error (.invalidLine 3 "T1 M6".toList) := by decide +kernel
  have hforeign : IsForeign (Text.trim "$H".toList) := isLineAllowed_eq_false_iff.mp (by decide)
  obtain ⟨-, -, hfirst, -, haccepted, hestimates⟩ := check_reports_first_foreign program
  obtain ⟨-, hat, hleast⟩ := (hfirst 3 "T1 M6".toList).mp hreported
  exact ⟨hmotion, haccepted _ hmem hmotion, hat, hleast, hforeign,
    fun progress => (hestimates Float .default).1 progress _ hforeign⟩

end Kerf.Program
