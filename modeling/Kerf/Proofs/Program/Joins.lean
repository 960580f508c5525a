import Kerf.Proofs.Path.Subpaths
import Kerf.Proofs.Program.Labels
import Kerf.Proofs.Program.Machine
import Kerf.Proofs.Program.Passes

/-!
# Joined subpaths

A path is one outline, be it of one subpath or of many, and an outline is one contour. So
the tool is on from the first point of a path to the last, and goes from each subpath to
the next by a cut.

- `HoldsPath`: drawings whose only shape is a path.
- `drawingLines_of_holdsPath`: their programs have the commands for one contour, whose
  points are the subpaths one after the other, moved by the transforms (`Site.subpaths`).
- `cutsExactly_apart_iff`: to cut some pieces one after the other in a single pass is to
  cut each in a pass of its own if there is one piece at most.
- `generate_joins_subpaths`: what is cut for a path, and when its subpaths are cut apart.
- `not_forall_generate_cuts_apart`: two subpaths are not.
-/

namespace Kerf

open Xml (Element)

variable {α : Type} [Written α]

/-! ## Documents that hold a path -/

namespace Drawing

/-- The elements of a document that are shapes by their tags. -/
def shapes (root : Element) : List Site :=
  (below root).filter fun site => isShapeTag site.element.tag

/-- The shape of a drawing that has just one. -/
def onlyShape? (text : List Char) : Option Site :=
  match (tree? text).filter isRoot with
  | none => none
  | some root =>
    match shapes root with
    | [site] => some site
    | _ => none

/-- A drawing whose only shape is a path with some data. Around it there may be groups,
but nothing else. -/
structure HoldsPath (text : List Char) (site : Site) (data : List Char) : Prop where
  only : onlyShape? text = some site
  around : site.around.all isGroup = true
  kind : Shape.Kind.ofTag? site.element.tag = some .path
  data : site.element.attribute? "d" = some data

/-- The subpaths of the path that an element is, where the element stands. -/
def Site.subpaths (fineness : Fineness) (site : Site) (commands : List (Path.Command α)) :
    List (List (Point α)) :=
  (Path.subpaths commands fineness).map fun subpath =>
    subpath.map fun p => carry site.around ((transformOf site.element).apply p)

theorem ne_nil_of_mem_site_subpaths {fineness : Fineness} {site : Site}
    {commands : List (Path.Command α)} {subpath : List (Point α)}
    (h : subpath ∈ site.subpaths fineness commands) : subpath ≠ [] := by
  obtain ⟨source, hsource, rfl⟩ := List.mem_map.mp h
  rw [Ne, List.map_eq_nil_iff]
  exact Path.ne_nil_of_mem_subpaths hsource

variable {text data : List Char} {site : Site} {commands : List (Path.Command α)}

theorem exists_root_of_onlyShape? (h : onlyShape? text = some site) :
    ∃ root, tree? text = some root ∧ isRoot root = true ∧ shapes root = [site] := by
  unfold onlyShape? at h
  split at h
  · cases h
  · next root hroot =>
    obtain ⟨htree, hisRoot⟩ := Option.filter_eq_some_iff.mp hroot
    split at h
    · next only hshapes =>
      obtain rfl := Option.some.inj h
      exact ⟨root, htree, hisRoot, hshapes⟩
    · cases h

theorem shapePoints_of_holdsPath (h : HoldsPath text site data)
    (hdata : Path.commands data = .ok commands) (fineness : Fineness) :
    shapePoints fineness site.element = Path.points commands fineness :=
  shapePoints_of_path fineness h.kind h.data hdata

/-- The outline of a path has all its subpaths, one after the other. -/
theorem points_outline_of_holdsPath (h : HoldsPath text site data)
    (hdata : Path.commands data = .ok commands) (fineness : Fineness) :
    (site.outline fineness : Outline α).points = (site.subpaths fineness commands).flatten := by
  rw [Site.outline, shapePoints_of_holdsPath h hdata, Site.subpaths, ← List.map_flatten,
    Path.flatten_subpaths]

/-- A document that holds a path has the outline of the path, if that has points, and no
other. -/
theorem readText_of_holdsPath (h : HoldsPath text site data) (fineness : Fineness) :
    (readText fineness text : Except Error (List (Outline α))) =
      .ok (if (site.outline fineness : Outline α).points.isEmpty then []
        else [site.outline fineness]) := by
  obtain ⟨root, htree, hisRoot, hshapes⟩ := exists_root_of_onlyShape? h.only
  -- what is drawn is a shape, and the path is the only one
  have hdrawn : (below root).filter (Site.isDrawn α fineness) =
      [site].filter (Site.isDrawn α fineness) := by
    rw [← hshapes, shapes, List.filter_filter]
    refine List.filter_congr fun other _ => ?_
    cases htag : isShapeTag other.element.tag with
    | true => rw [Bool.and_true]
    | false => simp [Site.isDrawn, htag]
  have htag : isShapeTag site.element.tag = true := by
    rw [← isSome_ofTag?, h.kind]
    rfl
  simp only [readText, htree, hisRoot, if_true, ← drawn_below, drawn, hdrawn]
  by_cases hempty : (shapePoints fineness site.element : List (Point α)).isEmpty = true
  · simp [Site.isDrawn, Site.outline, hempty]
  · simp [Site.isDrawn, Site.outline, htag, h.around, hempty]

end Drawing

/-! ## Programs for paths -/

namespace Program

open Drawing (Site HoldsPath)

/-- The command lines of the program for the drawing in a text. -/
def drawingLines (setup : Setup α) (fineness : Fineness) (stamp text : List Char) :
    Except Drawing.Error (List (List Char)) :=
  (Drawing.readText fineness text).map fun outlines =>
    commandLines (generate setup fineness stamp (.outlines outlines))

/-- The commands for a path are those for a single contour. -/
theorem drawingLines_of_holdsPath [Written.Compact α] (setup : Setup α) (fineness : Fineness)
    {stamp text data : List Char} {site : Site} {commands : List (Path.Command α)}
    (hstamp : '\n' ∉ stamp) (h : HoldsPath text site data)
    (hdata : Path.commands data = .ok commands) :
    drawingLines setup fineness stamp text =
      .ok ((programCommands setup [⟨[], (site.subpaths fineness commands).flatten⟩]).map
        (Command.text setup)) := by
  have hread := Drawing.readText_of_holdsPath (α := α) h fineness
  have hpoints := Drawing.points_outline_of_holdsPath h hdata fineness
  have hlabels := not_mem_feed_outlineLabel_of_readText hread
  rw [drawingLines, hread, Except.map,
    commandLines_generate setup fineness hstamp hlabels, ← hpoints]
  congr 2
  split
  · next hempty =>
    rw [List.isEmpty_iff.mp hempty]
    rfl
  · exact programCommands_congr setup rfl

/-- There is a pass for each piece that has points. -/
theorem length_filterMap_passOf? (setup : Setup α) {pieces : List (List (Point α))}
    (hne : ∀ piece ∈ pieces, piece ≠ []) :
    ((pieces.map fun piece => (⟨[], piece⟩ : Contour α)).filterMap (passOf? setup)).length =
      pieces.length := by
  induction pieces with
  | nil => rfl
  | cons piece pieces ih =>
    rw [List.forall_mem_cons] at hne
    obtain ⟨first, others, rfl⟩ := List.exists_cons_of_ne_nil hne.1
    rw [List.map_cons, List.filterMap_cons_some (by rfl), List.length_cons, ih hne.2,
      List.length_cons]

/-- What is cut in a single pass is cut in a pass for each piece if there is one piece at
most. -/
theorem cutsExactly_apart_iff [Written.Compact α] (setup : Setup α)
    {pieces : List (List (Point α))} (hne : ∀ piece ∈ pieces, piece ≠ []) :
    CutsExactly setup (pieces.map fun piece => ⟨[], piece⟩)
        ((programCommands setup [⟨[], pieces.flatten⟩]).map (Command.text setup)) ↔
      pieces.length ≤ 1 := by
  constructor
  · intro hapart
    -- as many passes as pieces, but the lines have one at most
    have hpasses := hapart.passes_eq
    rw [passes_programCommands] at hpasses
    rw [← length_filterMap_passOf? setup hne, ← hpasses]
    exact List.length_filterMap_le _ _
  · intro hlength
    match pieces, hlength with
    | [], _ => exact cutsExactly_programCommands setup []
    | [piece], _ =>
      rw [List.flatten_singleton]
      exact cutsExactly_programCommands setup [⟨[], piece⟩]

/-! ## What is cut for a path -/

/-- **Subpaths are joined by cuts**: the program for a drawing of one path travels with
the tool raised and without power only, and makes a single pass. It travels to the first
point of the path, whatever draws that, and cuts to all others, be they drawn or the start
of a later subpath. So the subpaths are cut apart if there is at most one, and only then:
they are not if two moves name places. -/
theorem generate_joins_subpaths [Written.Compact α] (setup : Setup α) (fineness : Fineness)
    {stamp text data : List Char} {site : Site} {commands : List (Path.Command α)}
    (hstamp : '\n' ∉ stamp) (hpath : HoldsPath text site data)
    (hdata : Path.commands data = .ok commands) :
    ∃ lines, drawingLines setup fineness stamp text = .ok lines ∧
      RunsSafely setup .start lines ∧
      CutsExactly setup [⟨[], (site.subpaths fineness commands).flatten⟩] lines ∧
      (CutsExactly setup ((site.subpaths fineness commands).map fun subpath => ⟨[], subpath⟩)
        lines ↔
        (site.subpaths fineness commands).length ≤ 1) ∧
      (2 ≤ commands.countP Path.Command.begins →
        ¬ CutsExactly setup ((site.subpaths fineness commands).map fun subpath => ⟨[], subpath⟩)
          lines) := by
  have hne : ∀ subpath ∈ site.subpaths fineness commands, subpath ≠ [] :=
    fun _ => Drawing.ne_nil_of_mem_site_subpaths
  have hapart := cutsExactly_apart_iff setup hne
  refine ⟨_, drawingLines_of_holdsPath setup fineness hstamp hpath hdata,
    (safelyTo_programCommands setup _).1, cutsExactly_programCommands setup _, hapart, ?_⟩
  intro htwo
  have hlength : (site.subpaths fineness commands).length =
      (Path.subpaths commands fineness).length := List.length_map _
  have hbegun := Path.countP_begins_le_length_subpaths commands fineness
  rw [hapart]
  omega

/-- A square with a hole, in a group: the tool cuts on its way from the one to the other. -/
theorem generate_joins_subpaths_square_with_hole :
    ∃ lines, drawingLines (.default : Setup Float) .default []
        "<svg><g transform='translate(10)'><path d='M0 0h9v9zm2 1h5v5z'/></g></svg>".toList =
          .ok lines ∧
      passes lines = [⟨moveTo (.default : Setup Float) ['G', '0'] none ⟨10.0, 0.0⟩,
        ([⟨19.0, 0.0⟩, ⟨19.0, 9.0⟩, ⟨10.0, 0.0⟩, ⟨12.0, 1.0⟩, ⟨17.0, 1.0⟩, ⟨17.0, 6.0⟩,
          ⟨12.0, 1.0⟩] :
          List (Point Float)).map (moveTo .default ['G', '1'] (some "1000".toList))⟩] := by
  let text :=
    "<svg><g transform='translate(10)'><path d='M0 0h9v9zm2 1h5v5z'/></g></svg>".toList
  let site := (Drawing.onlyShape? text).get (by decide +kernel)
  let commands : List (Path.Command Float) :=
    [⟨'M', [0.0, 0.0]⟩, ⟨'h', [9.0]⟩, ⟨'v', [9.0]⟩, ⟨'z', []⟩,
    ⟨'m', [2.0, 1.0]⟩, ⟨'h', [5.0]⟩, ⟨'v', [5.0]⟩, ⟨'z', []⟩]
  have hstamp : '\n' ∉ ([] : List Char) := List.not_mem_nil
  have hpath : HoldsPath text site "M0 0h9v9zm2 1h5v5z".toList :=
    ⟨(Option.some_get _).symm, by decide +kernel, by decide +kernel, by decide +kernel⟩
  -- the second subpath starts where the first one does, as that is closed
  have hdata : Path.commands "M0 0h9v9zm2 1h5v5z".toList = .ok commands := by decide +kernel
  obtain ⟨lines, hlines, -, hcuts, -⟩ :=
    generate_joins_subpaths (.default : Setup Float) .default hstamp hpath hdata
  refine ⟨lines, hlines, ?_⟩
  rw [hcuts.passes_eq]
  decide +kernel

/-- Two lines that do not meet are not cut apart. -/
theorem not_forall_generate_cuts_apart :
    ¬ ∀ (setup : Setup Float) (fineness : Fineness) (stamp text data : List Char) (site : Site)
        (commands : List (Path.Command Float)),
      '\n' ∉ stamp → HoldsPath text site data → Path.commands data = .ok commands →
        ∃ lines, drawingLines setup fineness stamp text = .ok lines ∧
          RunsSafely setup .start lines ∧
          CutsExactly setup ((site.subpaths fineness commands).map fun subpath => ⟨[], subpath⟩)
            lines := by
  intro h
  let setup : Setup Float := { Setup.default with comments := false }
  let text := "<svg><path d='M0 0L1 0M5 5L6 5'/></svg>".toList
  let site := (Drawing.onlyShape? text).get (by decide +kernel)
  let commands : List (Path.Command Float) :=
    [⟨'M', [0.0, 0.0]⟩, ⟨'L', [1.0, 0.0]⟩, ⟨'M', [5.0, 5.0]⟩, ⟨'L', [6.0, 5.0]⟩]
  have hstamp : '\n' ∉ ([] : List Char) := List.not_mem_nil
  have hpath : HoldsPath text site "M0 0L1 0M5 5L6 5".toList :=
    ⟨(Option.some_get _).symm, by decide +kernel, by decide +kernel, by decide +kernel⟩
  have hdata : Path.commands "M0 0L1 0M5 5L6 5".toList = .ok commands := by decide +kernel
  obtain ⟨lines, hlines, -, hcuts⟩ :=
    h setup .default [] text _ site commands hstamp hpath hdata
  rw [drawingLines_of_holdsPath _ _ hstamp hpath hdata, Except.ok.injEq] at hlines
  have hne : ∀ subpath ∈ site.subpaths .default commands, subpath ≠ [] :=
    fun _ => Drawing.ne_nil_of_mem_site_subpaths
  rw [← hlines, cutsExactly_apart_iff _ hne] at hcuts
  -- there are two subpaths, and one pass for both
  have htwo : (site.subpaths .default commands).length = 2 := by decide +kernel
  omega

end Program

end Kerf
