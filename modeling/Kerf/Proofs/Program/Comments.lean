import Kerf.Proofs.Program.Itinerary
import Kerf.Proofs.Program.Validity

/-!
# Programs with and without comments

A setup says whether programs have comments. All else that is said of a program is the
same either way.

- `Setup.silent`: a setup with its comments left out. Two setups that are the same then
  differ in their comments at most.
- `generate_of_silent_eq`: programs made with such setups have the same command lines, the
  same answer of the check and the same estimate. The stamps may differ as well, since a
  stamp is a comment.
- `not_startsComment_of_mem_generate`: where comments are left out, nothing in the program
  starts one.
-/

namespace Kerf

/-- A setup with its comments left out. -/
def Setup.silent {α : Type} (setup : Setup α) : Setup α :=
  { setup with comments := false }

namespace Program

variable {α : Type} [Written α]

/-! ## What does not depend on comments -/

theorem text_silent (setup : Setup α) (command : Command α) :
    command.text setup.silent = command.text setup := by
  cases command <;> rfl

theorem contourCommands_silent (setup : Setup α) (contour : Contour α) :
    contourCommands setup.silent contour = contourCommands setup contour := by
  unfold contourCommands
  cases contour.points <;> rfl

theorem programCommands_silent (setup : Setup α) (contours : List (Contour α)) :
    programCommands setup.silent contours = programCommands setup contours := by
  unfold programCommands
  rw [funext (contourCommands_silent setup)]
  rfl

/-- Two setups that are the same but for their comments have the same commands written in
the same way. -/
theorem map_text_programCommands_of_silent_eq {a b : Setup α} (hsame : a.silent = b.silent)
    (contours : List (Contour α)) :
    (programCommands a contours).map (Command.text a) =
      (programCommands b contours).map (Command.text b) := by
  rw [← programCommands_silent a, ← programCommands_silent b, hsame,
    ← funext (text_silent a), ← funext (text_silent b), hsame]

theorem step_silent (setup : Setup α) (progress : Progress α) (line : List Char) :
    progress.step setup.silent line = progress.step setup line := by
  unfold Progress.step
  cases motion? (code line) with
  | none => rfl
  | some motion => cases motion <;> rfl

theorem estimate_silent (setup : Setup α) (program : List Char) :
    estimate setup.silent program = estimate setup program := by
  have hstep : Progress.step setup.silent = Progress.step setup := by
    funext progress line
    exact step_silent setup progress line
  rw [estimate, estimate, Progress.run, Progress.run, hstep]

/-- Only the command lines of a program are estimated. -/
theorem estimate_congr (setup : Setup α) {a b : List Char}
    (h : commandLines a = commandLines b) :
    estimate setup a = estimate setup b := by
  rw [estimate, estimate, Progress.run_eq_foldl_commandLines, h,
    ← Progress.run_eq_foldl_commandLines]

/-! ## Programs without comments -/

variable [Written.Compact α]

theorem Line.not_startsComment {setup : Setup α} (hcomments : setup.comments = false)
    (line : Line α) {c : Char} (hc : c ∈ line.text setup) : startsComment c = false := by
  -- without comments only the command and the end of the line are written
  cases line with
  | command action note =>
    have htext : (Line.command action note).text setup = action.text setup ++ ['\n'] := by
      simp [Line.text, hcomments]
    rw [htext, List.mem_append, List.mem_singleton] at hc
    rcases hc with haction | rfl
    · exact action.not_startsComment setup haction
    · rfl
  | remark text =>
    have htext : (Line.remark text : Line α).text setup = [] := by
      simp [Line.text, hcomments]
    rw [htext] at hc
    cases hc
  | blank =>
    rw [List.mem_singleton.mp hc]
    rfl

/-- A program that is to have no comments has none. -/
theorem not_startsComment_of_mem_generate {setup : Setup α} (hcomments : setup.comments = false)
    {fineness : Fineness} {stamp : List Char} {source : Source α} {c : Char}
    (hc : c ∈ generate setup fineness stamp source) : startsComment c = false := by
  obtain ⟨line, -, hline⟩ := List.mem_flatMap.mp hc
  exact line.not_startsComment hcomments hline

/-! ## Comments do not matter -/

/-- **Comments do not matter**: programs made with setups that differ in their comments at
most have the same command lines, get the same answer from the check and are estimated the
same, whatever the labels say. Where comments are left out, there are none. -/
theorem generate_of_silent_eq {a b : Setup α} (hsame : a.silent = b.silent)
    (fineness : Fineness) {stamp₁ stamp₂ : List Char} (hstamp₁ : '\n' ∉ stamp₁)
    (hstamp₂ : '\n' ∉ stamp₂) {source : Source α}
    (hlabels : ∀ contour ∈ source.contours fineness, '\n' ∉ contour.label) :
    commandLines (generate a fineness stamp₁ source) =
        commandLines (generate b fineness stamp₂ source) ∧
      check (generate a fineness stamp₁ source) = check (generate b fineness stamp₂ source) ∧
      estimate a (generate a fineness stamp₁ source) =
        estimate b (generate b fineness stamp₂ source) ∧
      (a.comments = false →
        ∀ c ∈ generate a fineness stamp₁ source, startsComment c = false) := by
  have hlines : commandLines (generate a fineness stamp₁ source) =
      commandLines (generate b fineness stamp₂ source) := by
    rw [commandLines_generate a fineness hstamp₁ hlabels,
      commandLines_generate b fineness hstamp₂ hlabels]
    exact map_text_programCommands_of_silent_eq hsame _
  refine ⟨hlines, ?_, ?_, ?_⟩
  · rw [check_generate a fineness hstamp₁ hlabels, check_generate b fineness hstamp₂ hlabels]
  · -- the estimate looks at the feeds of the setup only
    rw [← estimate_silent a, ← estimate_silent b, hsame]
    exact estimate_congr b.silent hlines
  · intro hcomments c hc
    exact not_startsComment_of_mem_generate hcomments hc

/-- The label of a contour may look like a cut behind a comment: with comments or without,
one cut is estimated. -/
theorem generate_of_silent_eq_tag_like_cut :
    ∃ (a b : Setup Float) (source : Source Float),
      a.comments = true ∧ b.comments = false ∧ a.silent = b.silent ∧
      (∀ contour ∈ source.contours .default, '\n' ∉ contour.label) ∧
      generate a .default [] source ≠ generate b .default [] source ∧
      check (generate a .default [] source) = check (generate b .default [] source) ∧
      estimate a (generate a .default [] source) = estimate b (generate b .default [] source) ∧
      (estimate b (generate b .default [] source)).cutDistance = 5.0 := by
  let a : Setup Float := .default
  let b : Setup Float := Setup.silent .default
  let source : Source Float :=
    .outlines [⟨[⟨0.0, 0.0⟩, ⟨3.0, 4.0⟩], .read none none none, ");G1 X9 (".toList⟩]
  have hstamp : '\n' ∉ ([] : List Char) := List.not_mem_nil
  have hsame : a.silent = b.silent := rfl
  have hlabels : ∀ contour ∈ source.contours .default, '\n' ∉ contour.label := by decide +kernel
  obtain ⟨-, hcheck, hestimate, -⟩ :=
    generate_of_silent_eq hsame .default hstamp hstamp hlabels
  exact ⟨a, b, source, rfl, rfl, hsame, hlabels, by decide +kernel, hcheck, hestimate,
    by decide +kernel⟩

end Program

end Kerf
