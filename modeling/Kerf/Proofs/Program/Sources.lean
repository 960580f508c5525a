import Kerf.Proofs.Program.Labels
import Kerf.Proofs.Program.Passes
import Kerf.Proofs.Unrounded

/-!
# Sources of the same geometry

Points to be cut can be given as they are, as outlines or as pieces, and each source makes
contours of them in its own way. What a machine is told depends on the tracks alone: the
lists of points in their order, without the empty ones.

- `Source.tracks`: the tracks of a source, and `tracks_points`, `tracks_outlines`,
  `tracks_pieces`: what they are.
- `programCommands_eq_of_tracks`: contours with the same tracks have the same commands.
- `commandLines_generate_of_tracks_eq`: so have sources, if what they cut has labels on
  one line.
- `commandLines_generate_agree`: the three sources have the same commands for the same
  points, and a piece has those of an outline whose points are shifted to the piece's
  position.
-/

namespace Kerf.Program

/-! ## Tracks -/

section Tracks

variable {α : Type} [Written α]

/-- The lists of points that some contours cut, without the empty ones. -/
def tracksOf (contours : List (Contour α)) : List (List (Point α)) :=
  (contours.map (·.points)).filter fun points => !points.isEmpty

/-- The lists of points that a source has cut, without the empty ones. -/
def Source.tracks (fineness : Fineness) (source : Source α) : List (List (Point α)) :=
  tracksOf (source.contours fineness)

/-- A contour without points leaves no command behind, and of all others the points matter. -/
theorem programCommands_eq_of_tracks (setup : Setup α) {as bs : List (Contour α)}
    (h : tracksOf as = tracksOf bs) :
    programCommands setup as = programCommands setup bs := by
  have hpoints : ∀ contours : List (Contour α),
      (contours.filter fun contour => !contour.points.isEmpty).map (·.points) =
        tracksOf contours := by
    intro contours
    rw [tracksOf, List.filter_map]
    rfl
  rw [← programCommands_filter setup as, ← programCommands_filter setup bs]
  refine programCommands_congr setup ?_
  rw [hpoints, hpoints, h]

variable (fineness : Fineness)

theorem Source.tracks_points (points : List (Point α)) :
    (Source.points points).tracks fineness = [points].filter fun points => !points.isEmpty := by
  cases points <;> rfl

theorem Source.tracks_outlines (drawn : List (Outline α)) :
    (Source.outlines drawn).tracks fineness =
      (drawn.map (·.points)).filter fun points => !points.isEmpty := by
  rw [tracks, tracksOf, contours, List.map_map]
  rfl

theorem Source.tracks_pieces (pieces : List (Piece α)) :
    (Source.pieces pieces).tracks fineness =
      ((pieces.filter (·.visible)).map fun piece =>
        (piece.shape.points fineness).map (· + piece.position)).filter fun points =>
          !points.isEmpty := by
  rw [tracks, tracksOf, contours, List.map_map]
  rfl

end Tracks

/-! ## Labels -/

section Labels

variable {α : Type} [Written α] {fineness : Fineness} {source : Source α}

/-- What a source tells of its contours stays on one line: the tags of outlines and the
names of visible pieces have no line feeds. -/
def Source.IsOnOneLine : Source α → Prop
  | .points _ => True
  | .outlines drawn => ∀ outline ∈ drawn, '\n' ∉ outline.tag
  | .pieces placed => ∀ piece ∈ placed, piece.visible = true → '\n' ∉ piece.name

variable [Written.Compact α]

theorem Source.IsOnOneLine.not_mem_feed_label (h : source.IsOnOneLine) :
    ∀ contour ∈ source.contours fineness, contour.points ≠ [] → '\n' ∉ contour.label := by
  intro contour hcontour hpoints
  -- the label of points is fixed, and the others have tags and names in theirs
  cases source with
  | points points =>
    cases points with
    | nil => cases hcontour
    | cons p ps =>
      obtain rfl := List.mem_singleton.mp hcontour
      show '\n' ∉ "point sequence".toList
      decide
  | outlines drawn =>
    obtain ⟨outline, houtline, rfl⟩ := List.mem_map.mp hcontour
    exact not_mem_feed_outlineLabel (h outline houtline)
  | pieces placed =>
    refine not_mem_feed_label_of_pieces ?_ contour hcontour hpoints
    exact fun piece hpiece hvisible _ => h piece hpiece hvisible

/-- Sources with the same tracks have the same command lines, whenever they are worked at. -/
theorem commandLines_generate_of_tracks_eq (setup : Setup α) {a b : Source α}
    (ha : a.IsOnOneLine) (hb : b.IsOnOneLine) (h : a.tracks fineness = b.tracks fineness)
    {stamp later : List Char} (hstamp : '\n' ∉ stamp) (hlater : '\n' ∉ later) :
    commandLines (generate setup fineness stamp a) =
      commandLines (generate setup fineness later b) := by
  rw [commandLines_generate_of_labels setup fineness hstamp ha.not_mem_feed_label,
    commandLines_generate_of_labels setup fineness hlater hb.not_mem_feed_label,
    programCommands_eq_of_tracks setup h]

end Labels

/-! ## The same points -/

section Agreement

variable {α : Type} [Written α]

/-- Pieces that show some lists of points where they are: as polylines at the origin, with
hidden pieces among them. -/
def ShowsInPlace (pieces : List (Piece α)) (lists : List (List (Point α))) : Prop :=
  (pieces.filter (·.visible)).map (fun piece => (piece.shape, piece.position)) =
    lists.map fun points => (.polyline points, .origin)

/-- A shape at the origin is where it is drawn. -/
theorem map_add_origin (hzero : ∀ a : α, a + 0.0 = a) (points : List (Point α)) :
    points.map (· + Point.origin) = points := by
  have hsame : ∀ p : Point α, p + Point.origin = p := fun p => by
    rw [Point.add_def, Point.origin, hzero, hzero]
  exact (List.map_congr_left fun p _ => hsame p).trans (List.map_id points)

theorem ShowsInPlace.tracks_eq (hzero : ∀ a : α, a + 0.0 = a) {pieces : List (Piece α)}
    {lists : List (List (Point α))} (h : ShowsInPlace pieces lists) (fineness : Fineness) :
    (Source.pieces pieces).tracks fineness = lists.filter fun points => !points.isEmpty := by
  have hshown : (pieces.filter (·.visible)).map
      (fun piece => (piece.shape.points fineness).map (· + piece.position)) = lists := by
    have hplaced :=
      congrArg (List.map fun placed => (placed.1.points fineness).map (· + placed.2)) h
    rw [List.map_map, List.map_map] at hplaced
    have hkept : lists.map (fun points => points.map (· + Point.origin)) = lists :=
      (List.map_congr_left fun points _ => map_add_origin hzero points).trans
        (List.map_id lists)
    exact hplaced.trans hkept
  rw [Source.tracks_pieces, hshown]

variable [Written.Compact α]

/-- **Sources agree**: where adding zero changes nothing, outlines and pieces that show
the same lists of points have the same command lines, and if there is one list only, so
have its points by themselves. A piece at any place has those of an outline whose points
are shifted there. -/
theorem commandLines_generate_agree (hzero : ∀ a : α, a + 0.0 = a) (setup : Setup α)
    (fineness : Fineness) {stamp later : List Char} (hstamp : '\n' ∉ stamp)
    (hlater : '\n' ∉ later) :
    (∀ (lists : List (List (Point α))) (outlines : List (Outline α)) (pieces : List (Piece α)),
      outlines.map (·.points) = lists → (∀ outline ∈ outlines, '\n' ∉ outline.tag) →
      ShowsInPlace pieces lists → (∀ piece ∈ pieces, piece.visible = true → '\n' ∉ piece.name) →
        commandLines (generate setup fineness stamp (.outlines outlines)) =
            commandLines (generate setup fineness later (.pieces pieces)) ∧
          ∀ points, lists = [points] →
            commandLines (generate setup fineness stamp (.outlines outlines)) =
                commandLines (generate setup fineness later (.points points)) ∧
              commandLines (generate setup fineness stamp (.pieces pieces)) =
                commandLines (generate setup fineness later (.points points))) ∧
      ∀ (outlines : List (Outline α)) (pieces : List (Piece α)),
        outlines.map (·.points) = (pieces.filter (·.visible)).map
          (fun piece => (piece.shape.points fineness).map (· + piece.position)) →
        (∀ outline ∈ outlines, '\n' ∉ outline.tag) →
        (∀ piece ∈ pieces, piece.visible = true → '\n' ∉ piece.name) →
          commandLines (generate setup fineness stamp (.pieces pieces)) =
            commandLines (generate setup fineness later (.outlines outlines)) := by
  constructor
  -- all three have the tracks of the lists that are not empty
  · intro lists outlines pieces houtlines htags hshows hnames
    have hdrawn : (Source.outlines outlines).IsOnOneLine := htags
    have hplaced : (Source.pieces pieces).IsOnOneLine := hnames
    have hdrawnTracks : (Source.outlines outlines).tracks fineness =
        lists.filter fun points => !points.isEmpty := by
      rw [Source.tracks_outlines, houtlines]
    have hplacedTracks := hshows.tracks_eq hzero fineness
    refine ⟨commandLines_generate_of_tracks_eq setup hdrawn hplaced
      (hdrawnTracks.trans hplacedTracks.symm) hstamp hlater, ?_⟩
    rintro points rfl
    have hbare : (Source.points points).IsOnOneLine := trivial
    have hbareTracks := Source.tracks_points fineness points
    constructor
    · exact commandLines_generate_of_tracks_eq setup hdrawn hbare
        (hdrawnTracks.trans hbareTracks.symm) hstamp hlater
    · exact commandLines_generate_of_tracks_eq setup hplaced hbare
        (hplacedTracks.trans hbareTracks.symm) hstamp hlater
  -- the same for shifted points, whose tracks are given as equal
  · intro outlines pieces hshifted htags hnames
    have hdrawn : (Source.outlines outlines).IsOnOneLine := htags
    have hplaced : (Source.pieces pieces).IsOnOneLine := hnames
    refine commandLines_generate_of_tracks_eq setup hplaced hdrawn ?_ hstamp hlater
    rw [Source.tracks_pieces, Source.tracks_outlines, hshifted]

end Agreement

/-- A line and nothing, with a hidden piece among the pieces that has a line feed in its
name; then the line moved away. -/
theorem commandLines_generate_agree_moved_line :
    ∃ (p q v : Point Unrounded) (outlines : List (Outline Unrounded))
      (pieces : List (Piece Unrounded))
        (shifted : Outline Unrounded) (moved : Piece Unrounded),
      p ≠ q ∧ v ≠ .origin ∧ outlines.map (·.points) = [[p, q], []] ∧
        ShowsInPlace pieces [[p, q], []] ∧
        (∃ piece ∈ pieces, '\n' ∈ piece.name) ∧
        commandLines (generate .default .default [] (.outlines outlines)) =
          commandLines (generate .default .default [] (.pieces pieces)) ∧
        moved.shape = .polyline [p, q] ∧ moved.position = v ∧ shifted.points = [p + v, q + v] ∧
        commandLines (generate .default .default [] (.pieces [moved])) =
          commandLines (generate .default .default [] (.outlines [shifted])) := by
  let p : Point Unrounded := ⟨.finite 0, .finite 0⟩
  let q : Point Unrounded := ⟨.finite 1, .finite 0⟩
  let paint : Paint Unrounded := .read none none none
  let outlines : List (Outline Unrounded) :=
    [⟨[p, q], paint, "line".toList⟩, ⟨[], paint, "path".toList⟩]
  let hidden : Piece Unrounded := ⟨1, "part\nG1 X9".toList, q, false, .line p q⟩
  let pieces : List (Piece Unrounded) :=
    [hidden, ⟨0, "part".toList, .origin, true, .polyline [p, q]⟩,
      ⟨2, [], .origin, true, .polyline []⟩]
  let shifted : Outline Unrounded := ⟨[p + q, q + q], paint, "line".toList⟩
  let moved : Piece Unrounded := ⟨0, "part".toList, q, true, .polyline [p, q]⟩
  have hstamp : '\n' ∉ ([] : List Char) := List.not_mem_nil
  have hpoints : p ≠ q := by simp [p, q]
  have haway : q ≠ .origin := by simp [q, Point.origin, Unrounded.zero_eq]
  have htags : ∀ outline ∈ outlines, '\n' ∉ outline.tag := by simp [outlines]
  have hnames : ∀ piece ∈ pieces, piece.visible = true → '\n' ∉ piece.name := by
    simp [pieces, hidden]
  have hshows : ShowsInPlace pieces [[p, q], []] := rfl
  -- the feed in the name is not on a line of the program
  have hhidden : ∃ piece ∈ pieces, '\n' ∈ piece.name := ⟨hidden, List.mem_cons_self, by decide⟩
  have htag : ∀ outline ∈ [shifted], '\n' ∉ outline.tag := by simp [shifted]
  have hname : ∀ piece ∈ [moved], piece.visible = true → '\n' ∉ piece.name := by simp [moved]
  obtain ⟨hsame, hshifted⟩ :=
    commandLines_generate_agree Unrounded.add_zero .default .default hstamp hstamp
  exact ⟨p, q, q, outlines, pieces, shifted, moved, hpoints, haway, rfl, hshows, hhidden,
    (hsame _ outlines pieces rfl htags hshows hnames).1, rfl, rfl, rfl,
    hshifted [shifted] [moved] rfl htag hname⟩

end Kerf.Program
