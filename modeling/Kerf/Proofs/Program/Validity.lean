import Kerf.Program.Check
import Kerf.Proofs.Program.Listing

/-!
# Programs pass their check

The check looks at the first character of each line that is no blank. The lines of a
listing start with the first letter of a command or with a comment mark, or have nothing
in them, so they are all allowed, whatever the numbers and the comments are.

- `check_eq_ok_iff`: what passes the check. There is something in the program, and every
  line of it is allowed.
- `Line.text_eq_nil_or`: how the lines of a listing start.
- `check_generate`: generated programs pass the check, as long as no label has a line
  feed.
-/

namespace Kerf.Program

/-! ## What passes -/

theorem checkLines_eq_ok_iff {number : Nat} {lines : List (List Char)} :
    checkLines number lines = .ok () ↔
      ∀ line ∈ lines, isLineAllowed (Text.trim line) = true := by
  -- the numbers of lines are for errors only
  induction lines generalizing number with
  | nil => simp [checkLines]
  | cons line lines ih =>
    rw [checkLines, List.forall_mem_cons]
    split
    · next hline => rw [ih, and_iff_right hline]
    · next hline => exact iff_of_false (by rintro ⟨⟩) fun h => hline h.1

theorem check_eq_ok_iff {program : List Char} :
    check program = .ok () ↔ (∃ c ∈ program, Text.isBlank c = false) ∧
      ∀ line ∈ Text.lines program, isLineAllowed (Text.trim line) = true := by
  have hblank : (Text.trim program).isEmpty = true ↔
      ¬ ∃ c ∈ program, Text.isBlank c = false := by
    rw [List.isEmpty_iff, Text.trim_eq_nil_iff]
    simp
  unfold check
  split
  · next h => exact iff_of_false (by rintro ⟨⟩) fun hok => hblank.mp h hok.1
  · next h => rw [checkLines_eq_ok_iff, and_iff_right (not_not.mp (mt hblank.mpr h))]

/-- The first character of a line tells whether it is allowed, if it is no blank. -/
theorem isLineAllowed_trim_cons {c : Char} (hblank : Text.isBlank c = false)
    (hallowed : isLineAllowed [c] = true) (rest : List Char) :
    isLineAllowed (Text.trim (c :: rest)) = true := by
  rw [Text.trim_cons hblank]
  exact hallowed

/-! ## How lines start -/

variable {α : Type} [Written α]

/-- The characters that the lines of programs start with. -/
def startLetters : List Char :=
  ['G', 'M', ';']

theorem Command.exists_text_eq_cons (setup : Setup α) (command : Command α) :
    ∃ c rest, command.text setup = c :: rest ∧ c ∈ startLetters := by
  cases command <;> exact ⟨_, _, rfl, by decide⟩

/-- A line of a listing is left out, or it is empty or starts as lines of programs do. -/
theorem Line.text_eq_nil_or (setup : Setup α) {line : Line α} [Written.Compact α]
    (h : line.IsSingle) :
    line.text setup = [] ∨ ∃ body, line.text setup = body ++ ['\n'] ∧ '\n' ∉ body ∧
      ∀ c ∈ body.head?, c ∈ startLetters := by
  -- a command starts with its letter, a remark with the mark of a comment
  cases line with
  | command action note =>
    have hfeed : '\n' ∉ action.text setup := action.not_mem_text setup rfl (by decide)
    obtain ⟨c, rest, htext, hc⟩ := action.exists_text_eq_cons setup
    have hnote : '\n' ∉ note := h
    refine .inr ⟨action.text setup ++
      if setup.comments && !note.isEmpty then [' ', ';', ' '] ++ note else [], rfl, ?_, ?_⟩
    · split <;> simp [hfeed, hnote]
    · simpa [htext] using hc
  | remark text =>
    have htext : '\n' ∉ text := h
    simp only [Line.text]
    split
    · exact .inr ⟨[';', ' '] ++ text, rfl, by simp [htext], by simp [startLetters]⟩
    · exact .inl rfl
  | blank => exact .inr ⟨[], rfl, List.not_mem_nil, by simp⟩

theorem isLineAllowed_of_head? {body : List Char} (h : ∀ c ∈ body.head?, c ∈ startLetters) :
    isLineAllowed (Text.trim (Text.dropReturn body)) = true := by
  -- of the first characters, none is dropped or trimmed off, and each makes its line allowed
  have hletters : startLetters.all fun c =>
      c != '\r' && !Text.isBlank c && isLineAllowed [c] := by decide
  cases body with
  | nil => rfl
  | cons c rest =>
    have hc := List.all_eq_true.mp hletters c (h c rfl)
    simp only [Bool.and_eq_true, bne_iff_ne, ne_eq, Bool.not_eq_true'] at hc
    rw [Text.dropReturn_cons hc.1.1]
    exact isLineAllowed_trim_cons hc.1.2 hc.2 _

/-! ## Programs -/

/-- There is a letter in every program: its first command sets the unit of length. -/
theorem mem_generate (setup : Setup α) (fineness : Fineness) (stamp : List Char)
    (source : Source α) : 'G' ∈ generate setup fineness stamp source := by
  have hfirst : Command.millimetres ∈
      (assemble setup stamp (source.contours fineness)).filterMap Line.command? := by
    rw [filterMap_assemble]
    exact List.mem_append_left _ List.mem_cons_self
  obtain ⟨line, hline, hcommand⟩ := List.mem_filterMap.mp hfirst
  refine List.mem_flatMap.mpr ⟨line, hline, ?_⟩
  cases line with
  | command action note =>
    obtain rfl := Option.some.inj hcommand
    exact List.mem_cons_self
  | remark | blank => cases hcommand

variable [Written.Compact α]

theorem isLineAllowed_of_mem_lines_render (setup : Setup α) {lines : List (Line α)}
    (h : ∀ line ∈ lines, line.IsSingle) :
    ∀ line ∈ Text.lines (render setup lines), isLineAllowed (Text.trim line) = true := by
  induction lines with
  | nil => exact List.forall_mem_nil _
  | cons line lines ih =>
    have hrest := ih fun l hl => h l (List.mem_cons_of_mem _ hl)
    rw [render, List.flatMap_cons, ← render]
    rcases Line.text_eq_nil_or setup (h line List.mem_cons_self) with htext | ⟨body, htext,
      hfeed, hhead⟩
    · rw [htext, List.nil_append]
      exact hrest
    · rw [htext, List.append_assoc, List.singleton_append, Text.lines_append_feed hfeed,
        List.forall_mem_cons]
      exact ⟨isLineAllowed_of_head? hhead, hrest⟩

/-- Generated programs pass their check, whatever the setup is and whatever the labels of
contours say. -/
theorem check_generate (setup : Setup α) (fineness : Fineness) {stamp : List Char}
    {source : Source α} (hstamp : '\n' ∉ stamp)
    (hlabels : ∀ contour ∈ source.contours fineness, '\n' ∉ contour.label) :
    check (generate setup fineness stamp source) = .ok () := by
  rw [check_eq_ok_iff]
  refine ⟨⟨'G', mem_generate setup fineness stamp source, by decide⟩, ?_⟩
  exact isLineAllowed_of_mem_lines_render setup
    (isSingle_assemble setup hstamp fun contour hcontour _ => hlabels contour hcontour)

end Kerf.Program
