import Kerf.Program.Assembly
import Kerf.Proofs.Program.Words

/-!
# Command lines of programs

What a program tells the machine are its `commandLines`: its lines without comments, and
without those that say nothing then. All that is proved of programs as texts goes through
them.

- `commandLines_render`: the command lines of a listing are the texts of its commands, as
  long as its notes and remarks have no line feeds. Comments may be written or left out.
- `commandLines_generate`: those of a generated program are the texts of
  `programCommands`, a list that knows of no labels.
-/

namespace Kerf.Program

/-- The lines of a program without their comments and without blanks at their ends, as far
as anything is left of them. -/
def commandLines (program : List Char) : List (List Char) :=
  ((Text.lines program).map code).filter fun line => !line.isEmpty

theorem commandLines_append_feed {line : List Char} (h : '\n' ∉ line) (rest : List Char) :
    commandLines (line ++ '\n' :: rest) =
      [code (Text.dropReturn line)].filter (fun line => !line.isEmpty) ++
        commandLines rest := by
  rw [commandLines, Text.lines_append_feed h, List.map_cons, ← List.singleton_append,
    List.filter_append]
  rfl

variable {α : Type}

/-- What a line commands, if anything. -/
def Line.command? : Line α → Option (Command α)
  | .command action _ => some action
  | .remark _ | .blank => none

/-- Whether what a line says to its reader has no line feed. -/
def Line.IsSingle : Line α → Prop
  | .command _ note => '\n' ∉ note
  | .remark text => '\n' ∉ text
  | .blank => True

@[simp] theorem Line.isSingle_command (action : Command α) (note : List Char) :
    (Line.command action note).IsSingle ↔ '\n' ∉ note := Iff.rfl

@[simp] theorem Line.isSingle_remark (text : List Char) :
    (Line.remark text : Line α).IsSingle ↔ '\n' ∉ text := Iff.rfl

@[simp] theorem Line.isSingle_blank : (Line.blank : Line α).IsSingle := trivial

/-! ## Listings -/

section Listings

variable [Written α] [Written.Compact α]

/-- A line with a command is a command line, with or without its note; all others are not. -/
theorem commandLines_line_append (setup : Setup α) {line : Line α} (h : line.IsSingle)
    (rest : List Char) :
    commandLines (line.text setup ++ rest) =
      (line.command?.map (Command.text setup)).toList ++ commandLines rest := by
  cases line with
  | command action note =>
    have hreturn : '\r' ∉ action.text setup := action.not_mem_text setup rfl (by decide)
    have hfeed : '\n' ∉ action.text setup := action.not_mem_text setup rfl (by decide)
    have hne : (!(action.text setup).isEmpty) = true := by simp [action.text_ne_nil setup]
    simp only [Line.text, Line.command?, Option.map_some, Option.toList_some]
    split
    · -- the note may end in a carriage return, which the end of the line takes along
      have hline : '\n' ∉ action.text setup ++ ' ' :: ';' :: ' ' :: note := by
        simpa [hfeed, Line.IsSingle] using h
      have hdrop : Text.dropReturn (' ' :: ';' :: ' ' :: note) =
          ' ' :: ';' :: ' ' :: Text.dropReturn note := by simp [Text.dropReturn_cons]
      have happ := commandLines_append_feed hline rest
      rw [Text.dropReturn_append hreturn, hdrop, action.code_text_append_note setup] at happ
      simpa [hne] using happ
    · have happ := commandLines_append_feed hfeed rest
      rw [Text.dropReturn_of_not_mem hreturn, action.code_text setup] at happ
      simpa [hne] using happ
  | remark text =>
    simp only [Line.text, Line.command?, Option.map_none, Option.toList_none, List.nil_append]
    split
    -- a remark is a comment from its first character on
    · have hline : '\n' ∉ ';' :: ' ' :: text := by simpa [Line.IsSingle] using h
      have hdrop : Text.dropReturn (';' :: ' ' :: text) =
          ';' :: ' ' :: Text.dropReturn text := by
        simp [Text.dropReturn_cons]
      have hcode : code (';' :: ' ' :: Text.dropReturn text) = [] := rfl
      have happ := commandLines_append_feed hline rest
      rw [hdrop, hcode] at happ
      simpa using happ
    · rfl
  | blank =>
    exact commandLines_append_feed (List.not_mem_nil) rest

/-- The command lines of a listing are the texts of its commands. -/
theorem commandLines_render (setup : Setup α) {lines : List (Line α)}
    (h : ∀ line ∈ lines, line.IsSingle) :
    commandLines (render setup lines) =
      (lines.filterMap Line.command?).map (Command.text setup) := by
  induction lines with
  | nil => rfl
  | cons line lines ih =>
    have hrest := ih fun l hl => h l (List.mem_cons_of_mem _ hl)
    have hline :=
      commandLines_line_append setup (h line List.mem_cons_self) (render setup lines)
    rw [render, List.flatMap_cons, ← render, hline, hrest]
    cases hcommand : line.command? <;> simp [hcommand]

end Listings

/-! ## Commands of generated programs -/

section Commands

/-- The commands before the first contour. -/
def openingCommands (setup : Setup α) : List (Command α) :=
  [.millimetres, .absolute, .feedPerMinute] ++ (if setup.laser then [.arm] else []) ++
    [.heightTo setup.safeHeight, .home]

variable [Written α]

/-- The commands that cut a contour: none, if it has no points. -/
def contourCommands (setup : Setup α) (contour : Contour α) : List (Command α) :=
  match contour.points with
  | [] => []
  | first :: rest =>
    [.rapidTo (placed setup first), .heightTo setup.workHeight, .engage setup.power] ++
      rest.map (fun p => .cutTo (placed setup p) setup.cutFeed) ++
      [.disengage, .heightTo setup.safeHeight]

/-- The commands after the last contour. -/
def closingCommands (setup : Setup α) : List (Command α) :=
  [.disengage, .heightTo setup.safeHeight, .home, .finish]

/-- The commands of the program that cuts some contours. -/
def programCommands (setup : Setup α) (contours : List (Contour α)) : List (Command α) :=
  openingCommands setup ++ contours.flatMap (contourCommands setup) ++ closingCommands setup

theorem filterMap_header (setup : Setup α) (stamp : List Char) :
    (header setup stamp).filterMap Line.command? = openingCommands setup := by
  simp only [header, openingCommands]
  cases setup.comments <;> cases setup.laser <;> rfl

theorem filterMap_contourLines (setup : Setup α) (number : Nat) (contour : Contour α) :
    (contourLines setup number contour).filterMap Line.command? =
      contourCommands setup contour := by
  cases hpoints : contour.points with
  | nil => simp [contourLines, contourCommands, hpoints]
  | cons first rest =>
    have hcuts : (rest.map fun p => Line.command (.cutTo (placed setup p) setup.cutFeed)
        []).filterMap Line.command? = rest.map fun p =>
          .cutTo (placed setup p) setup.cutFeed := by
      simp [List.filterMap_map, Function.comp_def, Line.command?]
    simp only [contourLines, contourCommands, hpoints, List.filterMap_append, hcuts]
    rfl

theorem filterMap_cutting (setup : Setup α) (number : Nat) (contours : List (Contour α)) :
    (cutting setup number contours).filterMap Line.command? =
      contours.flatMap (contourCommands setup) := by
  induction contours generalizing number with
  | nil => rfl
  | cons contour contours ih =>
    rw [cutting, List.filterMap_append, filterMap_contourLines, ih, List.flatMap_cons]

theorem filterMap_assemble (setup : Setup α) (stamp : List Char) (contours : List (Contour α)) :
    (assemble setup stamp contours).filterMap Line.command? =
      programCommands setup contours := by
  rw [assemble, List.filterMap_append, List.filterMap_append, filterMap_header,
    filterMap_cutting]
  rfl

/-- What is picked from each cut is picked point by point. -/
theorem filterMap_cutCommands {β : Type} (pick : Command α → Option β) (setup : Setup α)
    {picked : Point α → β}
    (h : ∀ p, pick (.cutTo (placed setup p) setup.cutFeed) = some (picked p))
    (points : List (Point α)) :
    (points.map fun p => Command.cutTo (placed setup p) setup.cutFeed).filterMap pick =
      points.map picked := by
  simp only [List.filterMap_map, Function.comp_def, h]
  exact congrFun List.filterMap_eq_map' points

/-- What is picked from the commands of a program is picked from its parts one after the
other. -/
theorem filterMap_programCommands {β : Type} (pick : Command α → Option β) (setup : Setup α)
    (contours : List (Contour α)) :
    (programCommands setup contours).filterMap pick =
      (openingCommands setup).filterMap pick ++
        contours.flatMap (fun contour => (contourCommands setup contour).filterMap pick) ++
          (closingCommands setup).filterMap pick := by
  rw [programCommands, List.filterMap_append, List.filterMap_append, List.filterMap_flatMap]

end Commands

/-! ## Notes and remarks of generated programs -/

theorem not_mem_toolName (setup : Setup α) : '\n' ∉ toolName setup := by
  unfold toolName
  split <;> decide

theorem not_mem_toDigits (n : Nat) : '\n' ∉ Nat.toDigits 10 n := fun h =>
  absurd (Decimal.mem_toDigits h) (by decide)

theorem isSingle_footer (setup : Setup α) : ∀ line ∈ footer setup, line.IsSingle := by
  simp [footer, switchOff, raise, not_mem_toolName]

variable [Written α]

theorem isSingle_contourLines (setup : Setup α) (number : Nat) {contour : Contour α}
    (h : contour.points ≠ [] → '\n' ∉ contour.label) :
    ∀ line ∈ contourLines setup number contour, line.IsSingle := by
  unfold contourLines
  split
  · simp
  · next first rest hpoints =>
    have hlabel : '\n' ∉ contour.label := h (by rw [hpoints]; exact List.cons_ne_nil first rest)
    simp only [List.forall_mem_append]
    refine ⟨⟨?_, ?_⟩, ?_⟩
    · simp [hlabel, not_mem_toDigits, not_mem_toolName]
    · simp
    · simp [switchOff, raise, not_mem_toolName]

theorem isSingle_cutting (setup : Setup α) (number : Nat) {contours : List (Contour α)}
    (hlabels : ∀ contour ∈ contours, contour.points ≠ [] → '\n' ∉ contour.label) :
    ∀ line ∈ cutting setup number contours, line.IsSingle := by
  induction contours generalizing number with
  | nil => simp [cutting]
  | cons contour contours ih =>
    rw [cutting, List.forall_mem_append]
    exact ⟨isSingle_contourLines setup number (hlabels contour List.mem_cons_self),
      ih (number + 1) fun c hc => hlabels c (List.mem_cons_of_mem _ hc)⟩

variable [Written.Compact α]

theorem not_mem_plain (value : α) : '\n' ∉ Written.plain value := fun h =>
  absurd (Written.Compact.mem_plain h) (by decide)

theorem isSingle_header (setup : Setup α) {stamp : List Char} (hstamp : '\n' ∉ stamp) :
    ∀ line ∈ header setup stamp, line.IsSingle := by
  have hremarks : ∀ line ∈ headRemarks setup stamp ++ [.blank], line.IsSingle := by
    simp [headRemarks, hstamp, not_mem_plain, not_mem_toDigits, not_mem_toolName]
  simp only [header, List.forall_mem_append]
  refine ⟨⟨⟨?_, ?_⟩, ?_⟩, ?_⟩
  · split
    · exact hremarks
    · simp
  · simp
  · split <;> simp
  · simp [raise]

theorem isSingle_assemble (setup : Setup α) {stamp : List Char} (hstamp : '\n' ∉ stamp)
    {contours : List (Contour α)}
    (hlabels : ∀ contour ∈ contours, contour.points ≠ [] → '\n' ∉ contour.label) :
    ∀ line ∈ assemble setup stamp contours, line.IsSingle := by
  simp only [assemble, List.forall_mem_append]
  exact ⟨⟨isSingle_header setup hstamp, isSingle_cutting setup 1 hlabels⟩,
    isSingle_footer setup⟩

/-- The command lines of a generated program, whatever the labels of its contours say. The
labels of contours without points are not even written. -/
theorem commandLines_generate_of_labels (setup : Setup α) (fineness : Fineness)
    {stamp : List Char} {source : Source α} (hstamp : '\n' ∉ stamp)
    (hlabels : ∀ contour ∈ source.contours fineness, contour.points ≠ [] →
      '\n' ∉ contour.label) :
    commandLines (generate setup fineness stamp source) =
      (programCommands setup (source.contours fineness)).map (Command.text setup) := by
  rw [generate, commandLines_render setup (isSingle_assemble setup hstamp hlabels),
    filterMap_assemble]

theorem commandLines_generate (setup : Setup α) (fineness : Fineness) {stamp : List Char}
    {source : Source α} (hstamp : '\n' ∉ stamp)
    (hlabels : ∀ contour ∈ source.contours fineness, '\n' ∉ contour.label) :
    commandLines (generate setup fineness stamp source) =
      (programCommands setup (source.contours fineness)).map (Command.text setup) :=
  commandLines_generate_of_labels setup fineness hstamp fun contour hcontour _ =>
    hlabels contour hcontour

end Kerf.Program
