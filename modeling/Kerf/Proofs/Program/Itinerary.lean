import Kerf.Program.Estimate
import Kerf.Proofs.Program.Search

/-!
# Estimates of generated programs

The estimator knows programs as texts only. What it reads in a generated one is the way of
the tool along the contours: an itinerary of `Leg`s, each a motion with the coordinates
that it gives anew.

- `Progress.run_eq_foldl_commandLines`: only the command lines of a program move the
  machine.
- `readBack?`: a coordinate as it is read back from its text, unless that says that it is
  no finite number.
- `Progress.step_text`: a command moves the machine along its leg, if it has one.
- `legs`: the itinerary along some contours, and `legs_programCommands`: it is that of
  their program.
- `estimate_generate`: the estimate of a generated program is that of the itinerary.
-/

namespace Kerf.Program

variable {α : Type} [Written α]

/-! ## Command lines -/

namespace Progress

variable (setup : Setup α) (progress : Progress α)

/-- Only what a line commands matters. -/
theorem step_code (line : List Char) :
    progress.step setup (code line) = progress.step setup line := by
  rw [step, code_code, step]

theorem step_nil : progress.step setup [] = progress := rfl

/-- A machine is moved by the command lines of a program and by nothing else in it. -/
theorem run_eq_foldl_commandLines (program : List Char) :
    progress.run setup program = (commandLines program).foldl
      (Progress.step setup) progress := by
  rw [run, commandLines, List.foldl_filter, List.foldl_map]
  congr 1
  funext progress line
  cases hcode : code line with
  | nil =>
    -- the line is no command line, and it moves nothing
    rw [← step_code, hcode, step_nil]
    rfl
  | cons c rest =>
    rw [← step_code, hcode]
    rfl

end Progress

/-! ## Legs -/

/-- A motion of the machine, with the coordinates that it does not keep. -/
structure Leg (α : Type) where
  motion : Motion
  x : Option α
  y : Option α
  deriving DecidableEq, Repr

/-- A coordinate as it is read back from its text; none, if it is written as no finite
number. -/
def readBack? (setup : Setup α) (value : α) : Option α :=
  finite? (coordinate setup value) >>= Written.read?

/-- A rapid motion that leaves the machine in its place, as seen from above. -/
def Leg.stay : Leg α := ⟨.rapid, none, none⟩

/-- A rapid motion to the origin. -/
def Leg.home : Leg α := ⟨.rapid, some 0.0, some 0.0⟩

/-- A motion to a place, as far as its coordinates are read back. -/
def Leg.to (setup : Setup α) (motion : Motion) (place : Point α) : Leg α :=
  ⟨motion, readBack? setup place.x, readBack? setup place.y⟩

/-- A machine after one more leg. -/
def Progress.follow (setup : Setup α) (progress : Progress α) (leg : Leg α) : Progress α :=
  progress.move setup leg.motion
    ⟨leg.x.getD progress.position.x, leg.y.getD progress.position.y⟩

/-- The legs of a contour: none, if it has no points. -/
def contourLegs (setup : Setup α) (contour : Contour α) : List (Leg α) :=
  match contour.points with
  | [] => []
  | first :: rest =>
    [.to setup .rapid (placed setup first), .stay] ++
      rest.map (fun p => .to setup .cut (placed setup p)) ++ [.stay]

/-- The itinerary along some contours. -/
def legs (setup : Setup α) (contours : List (Contour α)) : List (Leg α) :=
  [.stay, .home] ++ contours.flatMap (contourLegs setup) ++ [.stay, .home]

/-! ## Commands and their legs -/

/-- The leg that a command sends the machine on, if any. -/
def Command.leg? (setup : Setup α) : Command α → Option (Leg α)
  | .home => some .home
  | .rapidTo place => some (.to setup .rapid place)
  | .heightTo _ => some .stay
  | .cutTo place _ => some (.to setup .cut place)
  | .millimetres | .absolute | .feedPerMinute | .arm | .engage _ | .disengage | .finish => none

theorem motion?_text (setup : Setup α) (command : Command α) :
    motion? (command.text setup) = (command.leg? setup).map (·.motion) := by
  cases command <;> rfl

section Reading

variable [Written.Legible α]

/-- The coordinates that are found in the text of a command are those of its leg. -/
theorem axis?_text (setup : Setup α) {command : Command α} {leg : Leg α}
    (h : command.leg? setup = some leg) :
    axis? 'X' (command.text setup) = leg.x ∧ axis? 'Y' (command.text setup) = leg.y := by
  rw [axis?, axis?, findWord?_text setup command (by decide),
    findWord?_text setup command (by decide)]
  cases command with
  | millimetres | absolute | feedPerMinute | arm | engage | disengage | finish => cases h
  | home =>
    cases h
    exact ⟨Written.Legible.read?_zero, Written.Legible.read?_zero⟩
  | heightTo height =>
    cases h
    exact ⟨rfl, rfl⟩
  | rapidTo place | cutTo place =>
    cases h
    constructor
    -- if the coordinate is no finite number, no other word has its letter
    · cases hx : finite? (coordinate setup place.x) <;>
        simp [Command.words, placeWords, finiteAfter?, numberAfter?, Leg.to, readBack?, hx]
    · cases hy : finite? (coordinate setup place.y) <;>
        simp [Command.words, placeWords, finiteAfter?, numberAfter?, Leg.to, readBack?, hy]

/-- A command moves the machine along its leg, if it has one. -/
theorem Progress.step_text (setup : Setup α) (progress : Progress α) (command : Command α) :
    progress.step setup (command.text setup) =
      (command.leg? setup).elim progress (progress.follow setup) := by
  have hmotion := motion?_text setup command
  cases hleg : command.leg? setup with
  | none =>
    rw [hleg] at hmotion
    simp [Progress.step, command.code_text, hmotion]
  | some leg =>
    obtain ⟨hx, hy⟩ := axis?_text setup hleg
    rw [hleg] at hmotion
    simp [Progress.step, command.code_text, hmotion, hx, hy, Progress.follow]

/-- Some commands move the machine along their legs. -/
theorem foldl_step_text (setup : Setup α) (progress : Progress α)
    (commands : List (Command α)) :
    (commands.map (Command.text setup)).foldl (Progress.step setup) progress =
      (commands.filterMap (Command.leg? setup)).foldl (Progress.follow setup) progress := by
  induction commands generalizing progress with
  | nil => rfl
  | cons command commands ih =>
    rw [List.map_cons, List.foldl_cons, Progress.step_text, ih, List.filterMap_cons]
    cases command.leg? setup <;> rfl

end Reading

/-! ## Programs and their itineraries -/

theorem legs_contourCommands (setup : Setup α) (contour : Contour α) :
    (contourCommands setup contour).filterMap (Command.leg? setup) =
      contourLegs setup contour := by
  unfold contourCommands contourLegs
  cases contour.points with
  | nil => rfl
  | cons first rest =>
    have hcuts := filterMap_cutCommands (Command.leg? setup) setup (fun _ => rfl) rest
    rw [List.filterMap_append, List.filterMap_append, hcuts]
    rfl

theorem legs_programCommands (setup : Setup α) (contours : List (Contour α)) :
    (programCommands setup contours).filterMap (Command.leg? setup) = legs setup contours := by
  have hopening : (openingCommands setup).filterMap (Command.leg? setup) = [.stay, .home] := by
    unfold openingCommands
    cases setup.laser <;> rfl
  have hclosing : (closingCommands setup).filterMap (Command.leg? setup) = [.stay, .home] := rfl
  rw [filterMap_programCommands, hopening, hclosing, funext (legs_contourCommands setup), legs]

/-! ## Estimates -/

variable [Written.Legible α]

theorem readBack?_eq_none_iff (setup : Setup α) (value : α) :
    readBack? setup value = none ↔ coordinate setup value ∈ Decimal.notFiniteTexts := by
  by_cases hmem : coordinate setup value ∈ Decimal.notFiniteTexts
  · rw [readBack?, finite?_of_mem hmem]
    exact iff_of_true rfl hmem
  · have hplain := (isNumberText_coordinate setup value).resolve_right hmem
    have hread := Written.Legible.isSome_read? (α := α) hplain
    rw [readBack?, finite?_of_not_mem hmem]
    exact iff_of_false (Option.ne_none_iff_isSome.mpr hread) hmem

/-- **Estimates of generated programs**: the estimate is that of the itinerary along the
contours, whatever the labels say. Coordinates are as they are read back from their texts,
and one is kept from before exactly if its text says that it is no finite number. -/
theorem estimate_generate (setup : Setup α) (fineness : Fineness) {stamp : List Char}
    {source : Source α} (hstamp : '\n' ∉ stamp)
    (hlabels : ∀ contour ∈ source.contours fineness, '\n' ∉ contour.label) :
    estimate setup (generate setup fineness stamp source) =
        ((legs setup (source.contours fineness)).foldl
          (Progress.follow setup) .start).estimate ∧
      ∀ value : α, readBack? setup value = none ↔
        coordinate setup value ∈ Decimal.notFiniteTexts := by
  refine ⟨?_, readBack?_eq_none_iff setup⟩
  rw [estimate, Progress.run_eq_foldl_commandLines,
    commandLines_generate setup fineness hstamp hlabels, foldl_step_text, legs_programCommands]

/-- A coordinate that is no number is kept from before, so the cut goes straight down the
other axis, from (3, 4) to (3, 0). -/
theorem estimate_generate_cut_to_no_number :
    ∃ source : Source Float,
      (∀ contour ∈ source.contours .default, '\n' ∉ contour.label) ∧
      legs .default (source.contours .default) =
        [.stay, .home, ⟨.rapid, some 3.0, some 4.0⟩, .stay, ⟨.cut, none, some 0.0⟩,
          .stay, .stay, .home] ∧
      (estimate .default (generate .default .default [] source)).rapidDistance = 8.0 ∧
      (estimate .default (generate .default .default [] source)).cutDistance = 4.0 := by
  let source : Source Float :=
    .outlines [⟨[⟨3.0, 4.0⟩, ⟨0.0 / 0.0, 0.0⟩], .read none none none, "; G1 X9 Y9 (".toList⟩]
  have hlabels : ∀ contour ∈ source.contours .default, '\n' ∉ contour.label := by decide +kernel
  have hstamp : '\n' ∉ ([] : List Char) := List.not_mem_nil
  -- the cut has no number for its first coordinate
  have hlegs : legs .default (source.contours .default) =
      [.stay, .home, ⟨.rapid, some 3.0, some 4.0⟩, .stay, ⟨.cut, none, some 0.0⟩, .stay, .stay,
        .home] := by
    decide +kernel
  have hestimate := (estimate_generate (.default : Setup Float) .default hstamp hlabels).1
  refine ⟨source, hlabels, hlegs, ?_, ?_⟩
  · rw [hestimate, hlegs]
    decide +kernel
  · rw [hestimate, hlegs]
    decide +kernel

end Kerf.Program
