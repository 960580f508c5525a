import Kerf.Proofs.Drawing.Walk
import Kerf.Proofs.Program.Listing

/-!
# Labels of contours

Labels are written into programs as comments, so a program means the same whatever they
say, as long as each of them stays on its line. It does if it has no line feed.

- `not_mem_feed_outlineLabel_of_readText`: outlines that were read from a drawing have
  such labels, since only shapes are drawn and their tags are known words.
- `commandLines_generate_of_unnamed_eq`: pieces that differ in their names only are cut by
  the same commands, if the names have no line feeds or are not written at all.
- `not_forall_commandLines_generate_eq`: a name with a line feed is a line of its own, and
  may be a command.
-/

namespace Kerf.Program

/-! ## Labels on one line -/

variable {α : Type}

theorem not_mem_feed_outlineLabel {outline : Outline α} (h : '\n' ∉ outline.tag) :
    '\n' ∉ outlineLabel outline := by
  simp [outlineLabel, h, not_mem_toDigits]

variable [Written α]

theorem not_mem_feed_outlineLabel_of_readText {fineness : Fineness} {text : List Char}
    {outlines : List (Outline α)} (h : Drawing.readText fineness text = .ok outlines) :
    ∀ contour ∈ (Source.outlines outlines).contours fineness, '\n' ∉ contour.label := by
  intro contour hcontour
  obtain ⟨outline, houtline, rfl⟩ := List.mem_map.mp hcontour
  have htag := Drawing.isShapeTag_of_mem_readText fineness h houtline
  exact not_mem_feed_outlineLabel (Drawing.not_mem_feed_of_isShapeTag htag)

theorem not_mem_feed_kind_name (kind : Shape.Kind) : '\n' ∉ kind.name.toList := by
  cases kind <;> decide

theorem not_mem_feed_pieceLabel [Written.Compact α] {piece : Piece α} (h : '\n' ∉ piece.name) :
    '\n' ∉ pieceLabel piece := by
  simp [pieceLabel, h, not_mem_feed_kind_name, not_mem_plain]

/-! ## Programs without labels -/

/-- Only the points of contours are cut. -/
theorem flatMap_contourCommands (setup : Setup α) (contours : List (Contour α)) :
    contours.flatMap (contourCommands setup) =
      (contours.map (·.points)).flatMap fun points => contourCommands setup ⟨[], points⟩ := by
  rw [List.flatMap_map]
  rfl

theorem programCommands_congr (setup : Setup α) {as bs : List (Contour α)}
    (h : as.map (·.points) = bs.map (·.points)) :
    programCommands setup as = programCommands setup bs := by
  rw [programCommands, flatMap_contourCommands, h, ← flatMap_contourCommands, programCommands]

/-- Without comments, nothing is written of a contour but what is cut. -/
theorem render_contourLines_congr {setup : Setup α} (hcomments : setup.comments = false)
    {a b : Contour α} (h : a.points = b.points) (number : Nat) :
    render setup (contourLines setup number a) =
      render setup (contourLines setup number b) := by
  unfold contourLines
  rw [h]
  split
  · rfl
  · simp [render, Line.text, hcomments]

theorem render_cutting_congr {setup : Setup α} (hcomments : setup.comments = false)
    {as bs : List (Contour α)} (h : as.map (·.points) = bs.map (·.points)) (number : Nat) :
    render setup (cutting setup number as) = render setup (cutting setup number bs) := by
  induction as generalizing bs number with
  | nil =>
    rw [List.map_nil, eq_comm, List.map_eq_nil_iff] at h
    rw [h]
  | cons a as ih =>
    cases bs with
    | nil => cases h
    | cons b bs =>
      obtain ⟨hpoints, hrest⟩ := List.cons.inj h
      have hfirst := render_contourLines_congr hcomments hpoints number
      have hothers := ih hrest (number + 1)
      unfold render at hfirst hothers ⊢
      rw [cutting, cutting, List.flatMap_append, List.flatMap_append, hfirst, hothers]

theorem generate_congr {setup : Setup α} (hcomments : setup.comments = false)
    {fineness : Fineness} {a b : Source α}
    (h : (a.contours fineness).map (·.points) = (b.contours fineness).map (·.points))
    (stamp : List Char) :
    generate setup fineness stamp a = generate setup fineness stamp b := by
  have hcutting := render_cutting_congr hcomments h 1
  unfold render at hcutting
  simp only [generate, render, assemble, List.flatMap_append, hcutting]

/-! ## Names of pieces -/

/-- A piece without its name. -/
def unnamed (piece : Piece α) : Piece α :=
  { piece with name := [] }

/-- What is cut of some pieces does not depend on their names. -/
theorem map_points_contours_pieces (fineness : Fineness) (pieces : List (Piece α)) :
    ((Source.pieces pieces).contours fineness).map (·.points) =
      ((pieces.map unnamed).filter (·.visible)).map (·.points fineness) := by
  rw [Source.contours, List.map_map, List.filter_map, List.map_map]
  rfl

/-- Hidden pieces have no contour, and all others have one with their name in its label. -/
theorem not_mem_feed_label_of_pieces [Written.Compact α] {fineness : Fineness}
    {pieces : List (Piece α)}
    (h : ∀ piece ∈ pieces, piece.visible = true → piece.points fineness ≠ [] →
      '\n' ∉ piece.name) :
    ∀ contour ∈ (Source.pieces pieces).contours fineness,
      contour.points ≠ [] → '\n' ∉ contour.label := by
  intro contour hcontour hpoints
  obtain ⟨piece, hpiece, rfl⟩ := List.mem_map.mp hcontour
  obtain ⟨hmem, hvisible⟩ := List.mem_filter.mp hpiece
  exact not_mem_feed_pieceLabel (h piece hmem hvisible hpoints)

/-- **Names do not reach the machine**: two lists of pieces that are the same but for the
names have the same command lines, if what is cut has names without line feeds. If
comments are left out, names may be any texts, and the programs are the same to the
letter. -/
theorem commandLines_generate_of_unnamed_eq [Written.Compact α] (setup : Setup α)
    (fineness : Fineness) {stamp : List Char} (hstamp : '\n' ∉ stamp) {as bs : List (Piece α)}
    (hsame : as.map unnamed = bs.map unnamed) :
    ((∀ piece ∈ as ++ bs, piece.visible = true → piece.points fineness ≠ [] →
      '\n' ∉ piece.name) →
        commandLines (generate setup fineness stamp (.pieces as)) =
          commandLines (generate setup fineness stamp (.pieces bs))) ∧
      (setup.comments = false →
        generate setup fineness stamp (.pieces as) =
          generate setup fineness stamp (.pieces bs)) := by
  have hpoints : ((Source.pieces as).contours fineness).map (·.points) =
      ((Source.pieces bs).contours fineness).map (·.points) := by
    rw [map_points_contours_pieces, map_points_contours_pieces, hsame]
  refine ⟨fun hnames => ?_, fun hcomments => generate_congr hcomments hpoints stamp⟩
  -- both programs come down to the commands for the same points
  obtain ⟨has, hbs⟩ := List.forall_mem_append.mp hnames
  rw [commandLines_generate_of_labels setup fineness hstamp (not_mem_feed_label_of_pieces has),
    commandLines_generate_of_labels setup fineness hstamp (not_mem_feed_label_of_pieces hbs),
    programCommands_congr setup hpoints]

/-- Names with comment marks, a carriage return and the text of a cut are as good as any
other. -/
theorem commandLines_generate_of_unnamed_eq_cut_after_return :
    ∃ a b : Piece Float, a.name ≠ b.name ∧ unnamed a = unnamed b ∧ '\n' ∉ a.name ∧
      '\n' ∉ b.name ∧
      commandLines (generate .default .default [] (.pieces [a])) =
        commandLines (generate .default .default [] (.pieces [b])) := by
  let line : Shape Float := .line ⟨0.0, 0.0⟩ ⟨2.5, 0.0⟩
  let a : Piece Float := ⟨0, ";(\rG1 X9 Y9 F1000".toList, .origin, true, line⟩
  let b : Piece Float := ⟨0, "part".toList, .origin, true, line⟩
  have hstamp : '\n' ∉ ([] : List Char) := List.not_mem_nil
  have hsame : [a].map unnamed = [b].map unnamed := rfl
  have ha : '\n' ∉ a.name := by decide
  have hb : '\n' ∉ b.name := by decide
  have hnames : ∀ piece ∈ [a] ++ [b], piece.visible = true →
      piece.points .default ≠ [] → '\n' ∉ piece.name := by
    simp [ha, hb]
  refine ⟨a, b, by decide, rfl, ha, hb, ?_⟩
  exact (commandLines_generate_of_unnamed_eq .default .default hstamp hsame).1 hnames

/-- A name with a line feed ends the comment that it stands in, and what follows is a
command. -/
theorem not_forall_commandLines_generate_eq :
    ¬ ∀ (setup : Setup Float) (fineness : Fineness) (stamp : List Char), '\n' ∉ stamp →
      ∀ as bs : List (Piece Float), as.map unnamed = bs.map unnamed →
        commandLines (generate setup fineness stamp (.pieces as)) =
          commandLines (generate setup fineness stamp (.pieces bs)) := by
  intro h
  let line : Shape Float := .line ⟨0.0, 0.0⟩ ⟨1.0, 0.0⟩
  let a : Piece Float := ⟨0, "part\nG1 X9 Y9 F1000".toList, .origin, true, line⟩
  let b : Piece Float := ⟨0, "part".toList, .origin, true, line⟩
  have hlines := h .default .default [] List.not_mem_nil [a] [b] rfl
  exact absurd hlines (by decide +kernel)

end Kerf.Program
