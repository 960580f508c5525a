import Kerf.Proofs.Program.Listing

/-!
# Machine safety of generated programs

A `Machine` is what a controller keeps from one command line to the next: whether the tool
is on and with which `S` word, and the last `Z`, `X` and `Y` words. It knows nothing of
how programs are made; numbers are compared as they are written.

- `Permits`: what must hold where a line travels, cuts or switches the tool on. A tool at
  `S0` has no power, so lasers may be armed with it before they move.
- `permits_text`: the one place where commands are looked at one by one.
- `RunsSafely`: every line of a run is permitted in the state it meets. Contours take the
  raised tool (`IsRaised`) back to the raised tool (`safelyTo_contourCommands`), so any
  number of them does.
- `generate_runs_safely`: programs run safely from start to end, whatever the setup, and
  leave the tool off, raised and over the origin.
-/

namespace Kerf.Program

/-! ## Machines -/

/-- What a machine keeps from one command line to the next. -/
structure Machine where
  /-- The `S` word of the last `M3`; none while the tool is off. -/
  tool : Option (List Char)
  /-- The last `Z` word. -/
  height : Option (List Char)
  /-- The last `X` word. -/
  x : Option (List Char)
  /-- The last `Y` word. -/
  y : Option (List Char)
  deriving DecidableEq, Repr

namespace Machine

/-- A machine that was told nothing yet: the tool is off. -/
def start : Machine := ⟨none, none, none, none⟩

/-- What a line leaves the tool in. -/
def toolAfter (machine : Machine) (line : List Char) : Option (List Char) :=
  if code? line = some ['M', '3'] then some ((word? 'S' line).getD [])
  else if code? line = some ['M', '5'] then none
  else machine.tool

/-- A machine after one more line. -/
def step (machine : Machine) (line : List Char) : Machine where
  tool := machine.toolAfter line
  height := (word? 'Z' line).or machine.height
  x := (word? 'X' line).or machine.x
  y := (word? 'Y' line).or machine.y

/-- A machine after some lines. -/
def run (machine : Machine) (lines : List (List Char)) : Machine :=
  lines.foldl step machine

@[simp] theorem run_nil (machine : Machine) : machine.run [] = machine := rfl

@[simp] theorem run_cons (machine : Machine) (line : List Char) (lines : List (List Char)) :
    machine.run (line :: lines) = (machine.step line).run lines := rfl

theorem run_append (machine : Machine) (a b : List (List Char)) :
    machine.run (a ++ b) = (machine.run a).run b := by
  simp [run]

end Machine

variable {α : Type} [Written α]

/-! ## What is permitted -/

/-- The text of the power that a setup cuts with. -/
def powerText (setup : Setup α) : List Char :=
  Nat.toDigits 10 setup.power.toNat

/-- Nothing can be cut: the tool has no power and is at the height for travel. -/
structure Machine.IsRaised (setup : Setup α) (machine : Machine) : Prop where
  tool : machine.tool = none ∨ machine.tool = some ['0']
  height : machine.height = some (coordinate setup setup.safeHeight)

/-- The tool is on with the power of the setup and is at the height for cutting. -/
structure Machine.IsCutting (setup : Setup α) (machine : Machine) : Prop where
  tool : machine.tool = some (powerText setup)
  height : machine.height = some (coordinate setup setup.workHeight)

/-- What a setup permits a line to do to a machine. -/
structure Permits (setup : Setup α) (machine : Machine) (line : List Char) : Prop where
  /-- Travel in the plane is with the tool raised and without power. -/
  travel : code? line = some ['G', '0'] → word? 'X' line ≠ none ∨ word? 'Y' line ≠ none →
    machine.IsRaised setup
  /-- Cuts are with the tool lowered and with the power of the setup. -/
  cut : code? line = some ['G', '1'] → machine.IsCutting setup
  /-- The tool is switched on when it is lowered, with the power of the setup. Before all
  that, a laser may be armed without power. -/
  switch : code? line = some ['M', '3'] →
    word? 'S' line = some ['0'] ∧ setup.laser = true ∧ machine = .start ∨
      word? 'S' line = some (powerText setup) ∧
        machine.height = some (coordinate setup setup.workHeight)

/-- Every line of a run is permitted in the state that it meets. -/
def RunsSafely (setup : Setup α) : Machine → List (List Char) → Prop
  | _, [] => True
  | machine, line :: rest => Permits setup machine line ∧
    RunsSafely setup (machine.step line) rest

theorem runsSafely_append {setup : Setup α} {machine : Machine} {a b : List (List Char)} :
    RunsSafely setup machine (a ++ b) ↔
      RunsSafely setup machine a ∧ RunsSafely setup (machine.run a) b := by
  induction a generalizing machine with
  | nil => simp [RunsSafely]
  | cons line a ih => simp [RunsSafely, ih, and_assoc]

/-- Any line of a safe run is permitted after those before it. -/
theorem RunsSafely.permits {setup : Setup α} {machine : Machine} {done rest : List (List Char)}
    {line : List Char} (h : RunsSafely setup machine (done ++ line :: rest)) :
    Permits setup (machine.run done) line :=
  (runsSafely_append.mp h).2.1

/-! ## Commands one by one -/

/-- What a command does to a machine. -/
def Command.effect (setup : Setup α) (machine : Machine) : Command α → Machine
  | .arm => { machine with tool := some ['0'] }
  | .home => { machine with x := some ['0'], y := some ['0'] }
  | .rapidTo place | .cutTo place _ =>
    { machine with x := some (coordinate setup place.x), y := some (coordinate setup place.y) }
  | .heightTo height => { machine with height := some (coordinate setup height) }
  | .engage power => { machine with tool := some (Nat.toDigits 10 power.toNat) }
  | .disengage => { machine with tool := none }
  | .millimetres | .absolute | .feedPerMinute | .finish => machine

/-- When a command is permitted. -/
def Command.IsPermitted (setup : Setup α) (machine : Machine) : Command α → Prop
  | .arm => setup.laser = true ∧ machine = .start
  | .home | .rapidTo _ => machine.IsRaised setup
  | .cutTo .. => machine.IsCutting setup
  | .engage power =>
    power = setup.power ∧ machine.height = some (coordinate setup setup.workHeight)
  | .millimetres | .absolute | .feedPerMinute | .heightTo _ | .disengage | .finish => True

variable [Written.Compact α] {setup : Setup α} {machine : Machine}

theorem step_text (setup : Setup α) (machine : Machine) (command : Command α) :
    machine.step (command.text setup) = command.effect setup machine := by
  -- a command's words are known, so what the machine looks up in them is computed
  cases command <;>
    simp [Machine.step, Machine.toolAfter, code?_text, Command.head, word?, Command.words_text,
      Command.words, placeWords, numberAfter?, Command.effect]

theorem permits_text {command : Command α} (h : command.IsPermitted setup machine) :
    Permits setup machine (command.text setup) := by
  -- by the first word: what does not move, arms, travels, cuts, or lets the tool down
  cases command with
  | millimetres | absolute | feedPerMinute | heightTo | disengage | finish =>
    constructor <;>
      simp [code?_text, Command.head, word?, Command.words_text, Command.words, numberAfter?]
  | arm =>
    refine ⟨?_, ?_, fun _ => .inl ⟨?_, h⟩⟩ <;>
      simp [code?_text, Command.head, word?, Command.words_text, Command.words, numberAfter?]
  | home | rapidTo => refine ⟨fun _ _ => h, ?_, ?_⟩ <;> simp [code?_text, Command.head]
  | cutTo => refine ⟨?_, fun _ => h, ?_⟩ <;> simp [code?_text, Command.head]
  | engage power =>
    obtain ⟨rfl, hheight⟩ := h
    refine ⟨?_, ?_, fun _ => .inr ⟨?_, hheight⟩⟩ <;>
      simp [code?_text, Command.head, word?, Command.words_text, Command.words,
        numberAfter?, powerText]

/-- The first command of a safe run may be any that is permitted. -/
theorem runsSafely_text_cons {command : Command α} (h : command.IsPermitted setup machine)
    {rest : List (List Char)} (hrest : RunsSafely setup (command.effect setup machine) rest) :
    RunsSafely setup machine (command.text setup :: rest) :=
  ⟨permits_text h, (step_text setup machine command).symm ▸ hrest⟩

/-! ## Whole programs -/

/-- Some commands run safely on a machine and take it to a state. -/
def SafelyTo (setup : Setup α) (machine : Machine) (commands : List (Command α))
    (state : Machine → Prop) : Prop :=
  RunsSafely setup machine (commands.map (Command.text setup)) ∧
    state (machine.run (commands.map (Command.text setup)))

omit [Written.Compact α] in
theorem safelyTo_nil {state : Machine → Prop} (h : state machine) :
    SafelyTo setup machine [] state :=
  ⟨trivial, h⟩

theorem safelyTo_cons {command : Command α} {rest : List (Command α)} {state : Machine → Prop}
    (h : command.IsPermitted setup machine)
    (hrest : SafelyTo setup (command.effect setup machine) rest state) :
    SafelyTo setup machine (command :: rest) state := by
  refine ⟨runsSafely_text_cons h hrest.1, ?_⟩
  rw [List.map_cons, Machine.run_cons, step_text]
  exact hrest.2

omit [Written.Compact α] in
theorem safelyTo_append {a b : List (Command α)} (middle : Machine → Prop)
    {state : Machine → Prop} (ha : SafelyTo setup machine a middle)
    (hb : ∀ machine, middle machine → SafelyTo setup machine b state) :
    SafelyTo setup machine (a ++ b) state := by
  obtain ⟨hsafe, hstate⟩ := hb _ ha.2
  rw [SafelyTo, List.map_append, Machine.run_append]
  exact ⟨runsSafely_append.mpr ⟨ha.1, hsafe⟩, hstate⟩

/-- Cuts keep the tool on and lowered. -/
theorem safelyTo_cuts (points : List (Point α)) (h : machine.IsCutting setup) :
    SafelyTo setup machine (points.map fun p => .cutTo (placed setup p) setup.cutFeed)
      (·.IsCutting setup) := by
  induction points generalizing machine with
  | nil => exact safelyTo_nil h
  | cons p points ih => exact safelyTo_cons h (ih ⟨h.tool, h.height⟩)

/-- A contour takes a machine with the tool raised back to one. -/
theorem safelyTo_contourCommands (contour : Contour α) (h : machine.IsRaised setup) :
    SafelyTo setup machine (contourCommands setup contour) (·.IsRaised setup) := by
  unfold contourCommands
  cases contour.points with
  | nil => exact safelyTo_nil h
  | cons first rest =>
    refine safelyTo_append (·.IsCutting setup) (safelyTo_append (·.IsCutting setup) ?_
      fun _ hcutting => safelyTo_cuts rest hcutting) ?_
    · -- to the first point, down, and on
      refine safelyTo_cons h
        (safelyTo_cons trivial (safelyTo_cons ⟨rfl, rfl⟩ (safelyTo_nil ?_)))
      exact ⟨rfl, rfl⟩
    · -- off, and up
      intro machine _
      exact safelyTo_cons trivial (safelyTo_cons trivial (safelyTo_nil ⟨.inl rfl, rfl⟩))

theorem safelyTo_contours (contours : List (Contour α)) (h : machine.IsRaised setup) :
    SafelyTo setup machine (contours.flatMap (contourCommands setup)) (·.IsRaised setup) := by
  induction contours generalizing machine with
  | nil => exact safelyTo_nil h
  | cons contour contours ih =>
    exact safelyTo_append _ (safelyTo_contourCommands contour h) fun _ => ih

/-- The opening raises the tool; a laser may be armed, without power, before it. -/
theorem safelyTo_openingCommands (setup : Setup α) :
    SafelyTo setup .start (openingCommands setup) (·.IsRaised setup) := by
  have hraise : ∀ machine : Machine, (machine.tool = none ∨ machine.tool = some ['0']) →
      SafelyTo setup machine [.heightTo setup.safeHeight, .home] (·.IsRaised setup) :=
    fun machine htool =>
      safelyTo_cons trivial (safelyTo_cons ⟨htool, rfl⟩ (safelyTo_nil ⟨htool, rfl⟩))
  have hmodes : SafelyTo setup .start [.millimetres, .absolute, .feedPerMinute] (· = .start) :=
    safelyTo_cons trivial (safelyTo_cons trivial (safelyTo_cons trivial (safelyTo_nil rfl)))
  refine safelyTo_append (fun machine => machine.tool = none ∨ machine.tool = some ['0'])
    (safelyTo_append _ hmodes ?_) hraise
  rintro _ rfl
  split
  · next hlaser => exact safelyTo_cons ⟨hlaser, rfl⟩ (safelyTo_nil (.inr rfl))
  · exact safelyTo_nil (.inl rfl)

/-- Where a program leaves the machine: off, raised and over the origin. -/
def restState (setup : Setup α) : Machine :=
  ⟨none, some (coordinate setup setup.safeHeight), some ['0'], some ['0']⟩

theorem safelyTo_closingCommands (setup : Setup α) (machine : Machine) :
    SafelyTo setup machine (closingCommands setup) (· = restState setup) := by
  refine safelyTo_cons trivial (safelyTo_cons trivial (safelyTo_cons ⟨.inl rfl, rfl⟩
    (safelyTo_cons trivial (safelyTo_nil ?_))))
  rfl

theorem safelyTo_programCommands (setup : Setup α) (contours : List (Contour α)) :
    SafelyTo setup .start (programCommands setup contours) (· = restState setup) :=
  safelyTo_append _ (safelyTo_append _ (safelyTo_openingCommands setup) fun _ =>
    safelyTo_contours contours) fun machine _ => safelyTo_closingCommands setup machine

/-! ## The end of programs -/

omit [Written.Compact α] in
theorem finish_not_mem_contourCommands (setup : Setup α) (contour : Contour α) :
    Command.finish ∉ contourCommands setup contour := by
  unfold contourCommands
  split <;> simp

omit [Written α] [Written.Compact α] in
theorem finish_not_mem_openingCommands (setup : Setup α) :
    Command.finish ∉ openingCommands setup := by
  unfold openingCommands
  split <;> simp

/-- The last command of a program ends it, and no other one does. -/
theorem exists_body_finish (setup : Setup α) (contours : List (Contour α)) :
    ∃ body, (programCommands setup contours).map (Command.text setup) =
      body ++ [['M', '3', '0']] ∧
      ∀ line ∈ body, code? line ≠ some ['M', '3', '0'] := by
  -- all commands but the last
  let before : List (Command α) := openingCommands setup ++
    contours.flatMap (contourCommands setup) ++ [.disengage, .heightTo setup.safeHeight, .home]
  have hsplit : programCommands setup contours = before ++ [.finish] := by
    simp [before, programCommands, closingCommands]
  have hbefore : Command.finish ∉ before := by
    simp only [before, List.mem_append, List.mem_flatMap, not_or, not_exists, not_and]
    exact ⟨⟨finish_not_mem_openingCommands setup,
      fun contour _ => finish_not_mem_contourCommands setup contour⟩, by simp⟩
  refine ⟨before.map (Command.text setup), by rw [hsplit, List.map_append]; rfl, ?_⟩
  intro line hline hcode
  obtain ⟨command, hmem, rfl⟩ := List.mem_map.mp hline
  rw [code?_text, Option.some_inj, Command.head_eq_finish_iff] at hcode
  exact hbefore (hcode ▸ hmem)

/-! ## Generated programs -/

/-- **Machine safety**: on the way through a generated program every line is permitted in
the state that it meets; the program leaves the tool off, raised and over the origin, and
its last command, and no other, ends it. This holds for all setups, sensible or not, as
long as no label has a line feed. -/
theorem generate_runs_safely (setup : Setup α) (fineness : Fineness) {stamp : List Char}
    {source : Source α} (hstamp : '\n' ∉ stamp)
    (hlabels : ∀ contour ∈ source.contours fineness, '\n' ∉ contour.label) :
    (∀ done line rest,
        commandLines (generate setup fineness stamp source) = done ++ line :: rest →
          Permits setup (Machine.start.run done) line) ∧
      Machine.start.run (commandLines (generate setup fineness stamp source)) =
        ⟨none, some (coordinate setup setup.safeHeight), some ['0'], some ['0']⟩ ∧
      ∃ body, commandLines (generate setup fineness stamp source) = body ++ [['M', '3', '0']] ∧
        ∀ line ∈ body, code? line ≠ some ['M', '3', '0'] := by
  obtain ⟨hsafe, hrest⟩ := safelyTo_programCommands setup (source.contours fineness)
  rw [commandLines_generate setup fineness hstamp hlabels]
  refine ⟨fun done line rest hsplit => ?_, hrest, exists_body_finish setup _⟩
  rw [hsplit] at hsafe
  exact hsafe.permits

/-- An outline whose tag looks like a cut and holds comment marks does not matter to the
machine. -/
theorem generate_runs_safely_tag_like_cut :
    ∃ source : Source Float,
      (∀ contour ∈ source.contours .default, '\n' ∉ contour.label) ∧
      Machine.start.run (commandLines (generate .default .default [] source)) =
        ⟨none, some "5.000".toList, some ['0'], some ['0']⟩ := by
  let source : Source Float :=
    .outlines [⟨[⟨0.0, 0.0⟩, ⟨1.0, 0.5⟩], .read none none none, ";G1 X9 (".toList⟩]
  have hlabels : ∀ contour ∈ source.contours .default, '\n' ∉ contour.label := by decide +kernel
  have hstamp : '\n' ∉ ([] : List Char) := List.not_mem_nil
  have hsafe := generate_runs_safely (.default : Setup Float) .default hstamp hlabels
  have hheight : coordinate (.default : Setup Float) (Setup.default : Setup Float).safeHeight =
      "5.000".toList := by decide +kernel
  exact ⟨source, hlabels, hheight ▸ hsafe.2.1⟩

end Kerf.Program
