import Mathlib
import Kerf.Proofs.Program.Listing

/-!
# Passes of the tool

What a program cuts is read back from its command lines. A line with an `X` or a `Y` word
is a `Move`. A `Pass` is what the tool does between being switched on and the next time it
is switched: it starts where the tool was sent before, and goes on with the moves in
between. A tool that is switched on before it was sent anywhere makes no pass, which is
how lasers are armed.

- `CutsExactly`: lines whose passes are those of some contours, one for each contour with
  points and in their order, and whose other moves are a trip home at either end.
- `cutsExactly_programCommands`: the commands of a program are such lines. A contour is
  read back as its own pass whatever comes after it (`passesFrom_contourCommands`).
- `generate_cuts_exactly`: generated programs cut the contours of their source, and what
  is not to be cut (`Source.drawn`) leaves no command behind.
-/

namespace Kerf.Program

/-! ## Reading moves and passes -/

/-- A line that moves in the plane, by the texts of its words. -/
structure Move where
  code : Option (List Char)
  x : Option (List Char)
  y : Option (List Char)
  feed : Option (List Char)
  deriving DecidableEq, Repr

/-- The move of a line with a word for either axis. -/
def move? (line : List Char) : Option Move :=
  if word? 'X' line = none ∧ word? 'Y' line = none then none
  else some ⟨code? line, word? 'X' line, word? 'Y' line, word? 'F' line⟩

/-- What the tool does from being switched on to being switched off. -/
structure Pass where
  /-- The move that sent the tool to the start. -/
  start : Move
  /-- The moves while the tool is on. -/
  cuts : List Move
  deriving DecidableEq, Repr

/-- The moves of a pass, the one to its start included. -/
def Pass.moves (pass : Pass) : List Move :=
  pass.start :: pass.cuts

/-- Whether a line switches the tool on or off. -/
def switchesTool (line : List Char) : Bool :=
  code? line == some ['M', '3'] || code? line == some ['M', '5']

/-- The passes of some lines, with the tool sent to a place by the lines before. -/
def passesFrom (sent : Option Move) : List (List Char) → List Pass
  | [] => []
  | line :: rest =>
    if code? line = some ['M', '3'] then
      (sent.map fun start =>
        ⟨start, (rest.takeWhile (!switchesTool ·)).filterMap move?⟩).toList ++
        passesFrom sent rest
    else passesFrom ((move? line).or sent) rest

/-- The passes of a program's command lines. -/
def passes (lines : List (List Char)) : List Pass :=
  passesFrom none lines

/-- Lines that do not switch the tool on make no pass. -/
theorem exists_passesFrom_append {lines : List (List Char)}
    (h : ∀ line ∈ lines, code? line ≠ some ['M', '3']) (sent : Option Move)
    (rest : List (List Char)) :
    ∃ after, passesFrom sent (lines ++ rest) = passesFrom after rest := by
  induction lines generalizing sent with
  | nil => exact ⟨sent, rfl⟩
  | cons line lines ih =>
    have hline : code? line ≠ some ['M', '3'] := h line List.mem_cons_self
    obtain ⟨after, hafter⟩ :=
      ih (fun l hl => h l (List.mem_cons_of_mem _ hl)) ((move? line).or sent)
    exact ⟨after, by rw [List.cons_append, passesFrom, if_neg hline, hafter]⟩

/-! ## The passes of contours -/

variable {α : Type} [Written α]

/-- The move to where a setup has a point, by a code. -/
def moveTo (setup : Setup α) (code : List Char) (feed : Option (List Char)) (p : Point α) :
    Move where
  code := some code
  x := some (formatNumber (p.x * setup.scale + setup.offset.x) setup.places.toNat)
  y := some (formatNumber (p.y * setup.scale + setup.offset.y) setup.places.toNat)
  feed := feed

/-- The trip home. -/
def homeMove : Move :=
  ⟨some ['G', '0'], some ['0'], some ['0'], none⟩

/-- The pass that cuts a contour, if it has points: travel to the first of them, and cuts
to the others. -/
def passOf? (setup : Setup α) (contour : Contour α) : Option Pass :=
  match contour.points with
  | [] => none
  | first :: rest =>
    some ⟨moveTo setup ['G', '0'] none first,
      rest.map (moveTo setup ['G', '1'] (some (Written.plain setup.cutFeed)))⟩

/-- Lines that cut some contours and nothing else. -/
structure CutsExactly (setup : Setup α) (contours : List (Contour α))
  (lines : List (List Char)) :
    Prop where
  passes_eq : passes lines = contours.filterMap (passOf? setup)
  moves_eq : lines.filterMap move? =
    homeMove :: (contours.filterMap (passOf? setup)).flatMap Pass.moves ++ [homeMove]
  cut_count : lines.countP (fun line => code? line == some ['G', '1']) =
    (contours.map fun contour => contour.points.length - 1).sum

/-! ## Moves of commands -/

/-- The move of a command. -/
def Command.move? (setup : Setup α) : Command α → Option Move
  | .home => some homeMove
  | .rapidTo place =>
    some ⟨some ['G', '0'], some (coordinate setup place.x),
      some (coordinate setup place.y), none⟩
  | .cutTo place feed =>
    some ⟨some ['G', '1'], some (coordinate setup place.x), some (coordinate setup place.y),
      some (Written.plain feed)⟩
  | .millimetres | .absolute | .feedPerMinute | .arm | .heightTo _ | .engage _ | .disengage
  | .finish => none

/-- Cuts are read back as moves, one for each point. -/
theorem filterMap_cuts (setup : Setup α) (points : List (Point α)) :
    (points.map fun p => Command.cutTo (placed setup p) setup.cutFeed).filterMap
        (Command.move? setup) =
      points.map (moveTo setup ['G', '1'] (some (Written.plain setup.cutFeed))) := by
  simp only [List.filterMap_map, Function.comp_def, Command.move?]
  exact congrFun List.filterMap_eq_map' points

theorem filterMap_contourCommands (setup : Setup α) (contour : Contour α) :
    (contourCommands setup contour).filterMap (Command.move? setup) =
      (passOf? setup contour).toList.flatMap Pass.moves := by
  unfold contourCommands passOf?
  cases contour.points with
  | nil => rfl
  | cons first rest =>
    simp only [List.filterMap_append, filterMap_cuts, Option.toList_some,
      List.flatMap_singleton, Pass.moves]
    simp [List.filterMap_cons, Command.move?, moveTo, coordinate, placed]

variable [Written.Compact α]

theorem move?_text (setup : Setup α) (command : Command α) :
    move? (command.text setup) = command.move? setup := by
  cases command <;>
    simp [move?, code?_text, Command.head, word?, Command.words_text, Command.words, placeWords,
      numberAfter?, Command.move?, homeMove]

theorem filterMap_move?_text (setup : Setup α) (commands : List (Command α)) :
    (commands.map (Command.text setup)).filterMap move? =
      commands.filterMap (Command.move? setup) := by
  simp only [List.filterMap_map, Function.comp_def, move?_text]

/-! ## Passes of commands -/

theorem passesFrom_text_cons {setup : Setup α} {command : Command α}
    (h : command.head ≠ ['M', '3']) (sent : Option Move) (rest : List (List Char)) :
    passesFrom sent (command.text setup :: rest) =
      passesFrom ((command.move? setup).or sent) rest := by
  rw [passesFrom, code?_text, if_neg (by simpa using h), move?_text]

theorem passesFrom_engage_cons (setup : Setup α) (power : UInt32) (sent : Option Move)
    (rest : List (List Char)) :
    passesFrom sent ((Command.engage power).text setup :: rest) =
      (sent.map fun start =>
        ⟨start, (rest.takeWhile (!switchesTool ·)).filterMap move?⟩).toList ++
        passesFrom sent rest := by
  rw [passesFrom, code?_text, if_pos (by rfl)]

/-- A contour with points is read back as its pass, whatever the tool did before and does
then. -/
theorem passesFrom_contourCommands (setup : Setup α) (contour : Contour α) (sent : Option Move)
    (rest : List (List Char)) :
    ∃ after,
      passesFrom sent ((contourCommands setup contour).map (Command.text setup) ++ rest) =
        (passOf? setup contour).toList ++ passesFrom after rest := by
  cases hpoints : contour.points with
  | nil => exact ⟨sent, by simp [contourCommands, passOf?, hpoints]⟩
  | cons first others =>
    let cuts : List (Command α) :=
      others.map fun p => .cutTo (placed setup p) setup.cutFeed
    let ending : List (Command α) := [.disengage, .heightTo setup.safeHeight]
    have hcommands : contourCommands setup contour = .rapidTo (placed setup first) ::
        .heightTo setup.workHeight :: .engage setup.power :: (cuts ++ ending) := by
      simp [contourCommands, hpoints, cuts, ending]
    have hpass : passOf? setup contour = some ⟨moveTo setup ['G', '0'] none first,
        others.map (moveTo setup ['G', '1'] (some (Written.plain setup.cutFeed)))⟩ := by
      simp [passOf?, hpoints]
    have hcuts : ∀ line ∈ cuts.map (Command.text setup), (!switchesTool line) = true := by
      simp [cuts, switchesTool, code?_text, Command.head]
    -- the pass takes all cuts, and stops where the tool is switched off
    have htake :
      ((cuts ++ ending).map (Command.text setup) ++ rest).takeWhile (!switchesTool ·) =
        cuts.map (Command.text setup) := by
      rw [List.map_append, List.append_assoc, List.takeWhile_append_of_pos hcuts]
      simp [ending, switchesTool, code?_text, Command.head]
    -- no further pass begins before the contour ends
    have hoff : ∀ line ∈ (cuts ++ ending).map (Command.text setup),
        code? line ≠ some ['M', '3'] := by
      simp only [List.forall_mem_map, code?_text]
      simp [cuts, ending, Command.head, or_imp, forall_and]
    obtain ⟨after, hafter⟩ := exists_passesFrom_append hoff
      (some (moveTo setup ['G', '0'] none first)) rest
    refine ⟨after, ?_⟩
    rw [hcommands, hpass, List.map_cons, List.map_cons, List.map_cons, List.cons_append,
      List.cons_append, List.cons_append]
    rw [passesFrom_text_cons (by simp [Command.head]),
      passesFrom_text_cons (by simp [Command.head]), passesFrom_engage_cons, htake,
      filterMap_move?_text, filterMap_cuts]
    simpa [Command.move?, moveTo, placed, coordinate] using hafter

theorem passesFrom_contours (setup : Setup α) (contours : List (Contour α)) (sent : Option Move)
    (rest : List (List Char)) :
    ∃ after,
      passesFrom sent
          ((contours.flatMap (contourCommands setup)).map (Command.text setup) ++ rest) =
        contours.filterMap (passOf? setup) ++ passesFrom after rest := by
  induction contours generalizing sent with
  | nil => exact ⟨sent, rfl⟩
  | cons contour contours ih =>
    rw [List.flatMap_cons, List.map_append, List.append_assoc]
    obtain ⟨middle, hmiddle⟩ := passesFrom_contourCommands setup contour sent
      ((contours.flatMap (contourCommands setup)).map (Command.text setup) ++ rest)
    obtain ⟨after, hafter⟩ := ih middle
    refine ⟨after, ?_⟩
    rw [hmiddle, hafter]
    cases hpass : passOf? setup contour <;> simp [hpass]

/-! ## Passes of programs -/

/-- A laser that is armed before it was sent anywhere makes no pass. -/
theorem passesFrom_arm_cons (setup : Setup α) (rest : List (List Char)) :
    passesFrom none ((Command.arm : Command α).text setup :: rest) = passesFrom none rest := by
  rw [passesFrom, code?_text, if_pos (by rfl)]
  rfl

theorem passesFrom_openingCommands (setup : Setup α) (rest : List (List Char)) :
    passesFrom none ((openingCommands setup).map (Command.text setup) ++ rest) =
      passesFrom (some homeMove) rest := by
  -- the modes send the tool nowhere
  have hmodes : ∀ lines, passesFrom none (([.millimetres, .absolute, .feedPerMinute] :
      List (Command α)).map (Command.text setup) ++ lines) = passesFrom none lines := by
    intro lines
    simp only [List.map_cons, List.map_nil, List.cons_append, List.nil_append]
    rw [passesFrom_text_cons (by simp [Command.head]),
      passesFrom_text_cons (by simp [Command.head]),
      passesFrom_text_cons (by simp [Command.head])]
    rfl
  -- the tool is sent home last
  have hhome : ∀ lines, passesFrom none (([.heightTo setup.safeHeight, .home] :
      List (Command α)).map (Command.text setup) ++ lines) =
        passesFrom (some homeMove) lines := by
    intro lines
    simp only [List.map_cons, List.map_nil, List.cons_append, List.nil_append]
    rw [passesFrom_text_cons (by simp [Command.head]),
      passesFrom_text_cons (by simp [Command.head])]
    rfl
  rw [openingCommands, List.map_append, List.map_append, List.append_assoc,
    List.append_assoc, hmodes]
  split
  · rw [List.map_singleton, List.singleton_append, passesFrom_arm_cons, hhome]
  · exact hhome rest

theorem passes_programCommands (setup : Setup α) (contours : List (Contour α)) :
    passes ((programCommands setup contours).map (Command.text setup)) =
      contours.filterMap (passOf? setup) := by
  have hclosing : ∀ line ∈ (closingCommands setup).map (Command.text setup),
      code? line ≠ some ['M', '3'] := by
    simp only [List.forall_mem_map, code?_text]
    simp [closingCommands, Command.head]
  rw [passes, programCommands, List.map_append, List.map_append, List.append_assoc,
    passesFrom_openingCommands]
  obtain ⟨middle, hmiddle⟩ := passesFrom_contours setup contours (some homeMove)
    ((closingCommands setup).map (Command.text setup))
  obtain ⟨after, hafter⟩ := exists_passesFrom_append hclosing middle []
  rw [hmiddle]
  rw [List.append_nil] at hafter
  rw [hafter, passesFrom, List.append_nil]

theorem moves_programCommands (setup : Setup α) (contours : List (Contour α)) :
    ((programCommands setup contours).map (Command.text setup)).filterMap move? =
      homeMove :: (contours.filterMap (passOf? setup)).flatMap Pass.moves ++ [homeMove] := by
  have hopening : (openingCommands setup).filterMap (Command.move? setup) = [homeMove] := by
    unfold openingCommands
    cases setup.laser <;> rfl
  have hclosing : (closingCommands setup).filterMap (Command.move? setup) = [homeMove] := by
    rfl
  -- the contours that are not empty each have a pass, and the others have no move
  have hcontours : (contours.flatMap (contourCommands setup)).filterMap (Command.move? setup) =
      (contours.filterMap (passOf? setup)).flatMap Pass.moves := by
    induction contours with
    | nil => rfl
    | cons contour contours ih =>
      rw [List.flatMap_cons, List.filterMap_append, ih, filterMap_contourCommands]
      cases hpass : passOf? setup contour <;> simp [hpass]
  rw [filterMap_move?_text, programCommands, List.filterMap_append,
    List.filterMap_append, hopening, hcontours, hclosing, List.singleton_append]

omit [Written.Compact α] in
/-- A contour is cut once for each of its points but the first. -/
theorem countP_contourCommands (setup : Setup α) (contour : Contour α) :
    (contourCommands setup contour).countP (fun command => command.head == ['G', '1']) =
      contour.points.length - 1 := by
  unfold contourCommands
  cases contour.points with
  | nil => rfl
  | cons first rest =>
    simp [List.countP_append, Command.head]

theorem countP_programCommands (setup : Setup α) (contours : List (Contour α)) :
    ((programCommands setup contours).map (Command.text setup)).countP
        (fun line => code? line == some ['G', '1']) =
      (contours.map fun contour => contour.points.length - 1).sum := by
  have hopening : (openingCommands setup).countP (fun command => command.head == ['G', '1']) =
      0 := by
    cases hlaser : setup.laser <;> simp [openingCommands, hlaser, Command.head]
  have hclosing : (closingCommands setup).countP (fun command => command.head == ['G', '1']) =
      0 := by
    simp [closingCommands, Command.head]
  simp only [List.countP_map, Function.comp_def, code?_text, Option.some_beq_some,
    programCommands, List.countP_append, List.countP_flatMap, hopening, hclosing,
    countP_contourCommands]
  simp

/-- The commands of a program cut its contours and nothing else. -/
theorem cutsExactly_programCommands (setup : Setup α) (contours : List (Contour α)) :
    CutsExactly setup contours ((programCommands setup contours).map (Command.text setup)) where
  passes_eq := passes_programCommands setup contours
  moves_eq := moves_programCommands setup contours
  cut_count := countP_programCommands setup contours

/-! ## Generated programs -/

/-- The part of a source that there is something to cut of: neither hidden pieces nor
anything without points. -/
def Source.drawn (fineness : Fineness) : Source α → Source α
  | .points track => .points track
  | .outlines drawing => .outlines (drawing.filter fun outline => !outline.points.isEmpty)
  | .pieces placed =>
    .pieces (placed.filter fun piece => piece.visible && !(piece.points fineness).isEmpty)

omit [Written.Compact α] in
theorem Source.contours_drawn (fineness : Fineness) (source : Source α) :
    (source.drawn fineness).contours fineness =
      (source.contours fineness).filter fun contour => !contour.points.isEmpty := by
  cases source with
  | points track => cases track <;> rfl
  | outlines drawing =>
    simp only [Source.drawn, Source.contours, List.filter_map]
    rfl
  | pieces placed =>
    simp only [Source.drawn, Source.contours, List.filter_map, List.filter_filter]
    congr 2
    funext piece
    cases piece.visible <;> simp

omit [Written.Compact α] in
theorem programCommands_filter (setup : Setup α) (contours : List (Contour α)) :
    programCommands setup (contours.filter fun contour => !contour.points.isEmpty) =
      programCommands setup contours := by
  have hcontours : (contours.filter fun contour => !contour.points.isEmpty).flatMap
      (contourCommands setup) = contours.flatMap (contourCommands setup) := by
    induction contours with
    | nil => rfl
    | cons contour contours ih =>
      cases hpoints : contour.points with
      | nil => simp [hpoints, ih, contourCommands]
      | cons => simp [hpoints, ih]
  rw [programCommands, hcontours, programCommands]

/-- **Cutting the given geometry**: a generated program cuts each contour of its source
that has points, in their order and point by point, and moves over the work only for that.
Nothing is left in it of hidden pieces, nor of outlines and pieces without points. -/
theorem generate_cuts_exactly (setup : Setup α) (fineness : Fineness) {stamp : List Char}
    {source : Source α} (hstamp : '\n' ∉ stamp)
    (hlabels : ∀ contour ∈ source.contours fineness, '\n' ∉ contour.label) :
    CutsExactly setup (source.contours fineness)
        (commandLines (generate setup fineness stamp source)) ∧
      commandLines (generate setup fineness stamp (source.drawn fineness)) =
        commandLines (generate setup fineness stamp source) := by
  have hdrawn : ∀ contour ∈ (source.drawn fineness).contours fineness,
      '\n' ∉ contour.label := by
    rw [Source.contours_drawn]
    exact fun contour hcontour => hlabels contour (List.mem_filter.mp hcontour).1
  rw [commandLines_generate setup fineness hstamp hlabels,
    commandLines_generate setup fineness hstamp hdrawn, Source.contours_drawn,
    programCommands_filter]
  exact ⟨cutsExactly_programCommands setup _, rfl⟩

/-- Of a hidden piece, a piece without points and a visible one, whose name starts a
comment, only the last is cut. -/
theorem generate_cuts_exactly_visible_piece :
    ∃ source : Source Float,
      (∀ contour ∈ source.contours .default, '\n' ∉ contour.label) ∧
      passes (commandLines (generate .default .default [] source)) =
        [⟨⟨some ['G', '0'], some "1.000".toList, some "-2.000".toList, none⟩,
          [⟨some ['G', '1'], some "3.500".toList, some "-2.000".toList,
            some "1000".toList⟩]⟩] := by
  let line : Shape Float := .line ⟨0.0, 0.0⟩ ⟨2.5, 0.0⟩
  let source : Source Float :=
    .pieces [⟨0, [], .origin, false, line⟩, ⟨1, [], .origin, true, .polyline []⟩,
      ⟨2, ";(".toList, ⟨1.0, -2.0⟩, true, line⟩]
  have hlabels : ∀ contour ∈ source.contours .default, '\n' ∉ contour.label := by decide +kernel
  have hstamp : '\n' ∉ ([] : List Char) := List.not_mem_nil
  have hcuts :=
    (generate_cuts_exactly (.default : Setup Float) .default hstamp hlabels).1.passes_eq
  exact ⟨source, hlabels, hcuts.trans (by decide +kernel)⟩

end Kerf.Program
