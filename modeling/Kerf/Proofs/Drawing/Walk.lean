import Kerf.Drawing.Reading
import Kerf.Proofs.Transform.Exact

/-!
# The walk through a drawing

What a drawing is read as, told element by element instead of group by group.

- `below`: every element below the root as a `Site`, with the elements around it, in
  document order.
- `Site.isDrawn`: whether there is an outline of an element. It is a shape with points,
  and there are only groups around it.
- `Site.outline`: that outline. Its points are moved by the element's own transform and
  then by those of the groups around it, from the innermost to the outermost (`carry`).
- `readText_eq_outlines`: the outlines of a drawing are those of its sites that are drawn.
  The proof goes down the tree with the elements around as they grow; what is around an
  element is around all that is inside of it, so nothing is drawn inside of what is no
  group.
-/

namespace Kerf.Drawing

open Xml (Element)

/-! ## Sites -/

/-- An element where it stands in a document. -/
structure Site where
  element : Element
  /-- The elements between it and the root, the innermost first. -/
  around : List Element

mutual

/-- An element and all that is inside of it, in document order. -/
def sitesOf (around : List Element) : Element → List Site
  | .node tag attributes children =>
    ⟨.node tag attributes children, around⟩ ::
      sitesIn (.node tag attributes children :: around) children

/-- Some elements and all that is inside of them, in document order. -/
def sitesIn (around : List Element) : List Element → List Site
  | [] => []
  | element :: rest => sitesOf around element ++ sitesIn around rest

end

/-- Everything below a root, in document order. -/
def below (root : Element) : List Site :=
  sitesIn [] root.children

mutual

/-- What is around an element is around all that is inside of it. -/
theorem suffix_of_mem_sitesOf {around : List Element} {site : Site} :
    ∀ {element : Element}, site ∈ sitesOf around element → around <:+ site.around
  | .node _ _ _, h => by
    rw [sitesOf, List.mem_cons] at h
    rcases h with rfl | hinside
    · exact List.suffix_rfl
    · exact (List.suffix_cons _ _).trans (suffix_of_mem_sitesIn hinside)

theorem suffix_of_mem_sitesIn {around : List Element} {site : Site} :
    ∀ {elements : List Element}, site ∈ sitesIn around elements → around <:+ site.around
  | [], h => by
    rw [sitesIn] at h
    cases h
  | _ :: _, h => by
    rw [sitesIn, List.mem_append] at h
    rcases h with hfirst | hrest
    · exact suffix_of_mem_sitesOf hfirst
    · exact suffix_of_mem_sitesIn hrest

end

/-! ## Shapes -/

/-- The tags of shapes. -/
def shapeTags : List String :=
  ["rect", "circle", "ellipse", "line", "polyline", "polygon", "path"]

/-- Whether a tag is that of a shape, in any letter case. -/
def isShapeTag (tag : List Char) : Bool :=
  shapeTags.any fun name => Text.sameIgnoringCase tag name.toList

theorem isSome_ofTag? (tag : List Char) :
    (Shape.Kind.ofTag? tag).isSome = isShapeTag tag := by
  rw [Shape.Kind.ofTag?, List.isSome_find?]
  rfl

theorem not_isShapeTag_of_isGroup {element : Element} (h : isGroup element = true) :
    isShapeTag element.tag = false := by
  simp only [isGroup, Text.sameIgnoringCase, beq_iff_eq] at h
  simp only [isShapeTag, Text.sameIgnoringCase, h]
  decide

/-- The tags of shapes are known words, none of which has a line feed. -/
theorem not_mem_feed_of_isShapeTag {tag : List Char} (h : isShapeTag tag = true) :
    '\n' ∉ tag := by
  obtain ⟨name, hname, hsame⟩ := List.any_eq_true.mp h
  have hnames : shapeTags.all fun name => !(name.toList.map Char.toLower).contains '\n' := by
    decide
  have hfeed := List.all_eq_true.mp hnames name hname
  simp only [Bool.not_eq_true', List.contains_eq_mem, decide_eq_false_iff_not] at hfeed
  rw [Text.sameIgnoringCase, beq_iff_eq] at hsame
  intro hmem
  exact hfeed (hsame ▸ List.mem_map_of_mem hmem)

/-! ## Outlines of sites -/

section Outlines

variable {α : Type} [Written α]

/-- The points of the shape that an element is; none, if it is no shape or an incomplete one. -/
def shapePoints (fineness : Fineness) (element : Element) : List (Point α) :=
  ((Shape.Kind.ofTag? element.tag >>= fun kind => shapeOf? kind element).map
    (·.points fineness)).getD []

/-- Where the groups around an element take a point. -/
def carry (around : List Element) (p : Point α) : Point α :=
  Transform.outward (around.map transformOf) p

/-- Whether there is an outline of an element where it stands. -/
def Site.isDrawn (α : Type) [Written α] (fineness : Fineness) (site : Site) : Bool :=
  isShapeTag site.element.tag && site.around.all isGroup &&
    !(shapePoints fineness site.element : List (Point α)).isEmpty

/-- The outline of an element where it stands. -/
def Site.outline (fineness : Fineness) (site : Site) : Outline α where
  points := (shapePoints fineness site.element).map fun p =>
    carry site.around ((transformOf site.element).apply p)
  paint := paintOf site.element
  tag := site.element.tag

/-- The outlines of some sites. -/
def drawn (fineness : Fineness) (sites : List Site) : List (Outline α) :=
  (sites.filter (Site.isDrawn α fineness)).map (Site.outline fineness)

variable (fineness : Fineness)

theorem drawn_append (a b : List Site) :
    (drawn fineness (a ++ b) : List (Outline α)) = drawn fineness a ++ drawn fineness b := by
  simp [drawn]

theorem drawn_cons (site : Site) (sites : List Site) :
    (drawn fineness (site :: sites) : List (Outline α)) =
      drawn fineness [site] ++ drawn fineness sites :=
  drawn_append fineness [site] sites

/-- Nothing is drawn inside of an element that is no group. -/
theorem drawn_sitesIn_of_not_isGroup {element : Element} (h : isGroup element = false)
    (around elements : List Element) :
    (drawn fineness (sitesIn (element :: around) elements) : List (Outline α)) = [] := by
  rw [drawn, List.map_eq_nil_iff, List.filter_eq_nil_iff]
  intro site hsite hdrawn
  have hmem : element ∈ site.around :=
    (suffix_of_mem_sitesIn hsite).mem List.mem_cons_self
  -- all that is around such a site would have to be groups
  simp only [Site.isDrawn, Bool.and_eq_true, List.all_eq_true] at hdrawn
  exact absurd (hdrawn.1.2 element hmem) (by simp [h])

/-- A group has no outline of its own. -/
theorem drawn_of_isGroup {element : Element} (h : isGroup element = true)
    (around : List Element) :
    (drawn fineness [⟨element, around⟩] : List (Outline α)) = [] := by
  simp [drawn, Site.isDrawn, not_isShapeTag_of_isGroup h]

/-- An outline where the groups around it put it. -/
def placeIn (around : List Element) (outline : Outline α) : Outline α :=
  { outline with points := outline.points.map (carry around) }

theorem isShapeTag_of_shapePoints {element : Element}
    (h : (shapePoints fineness element : List (Point α)) ≠ []) :
    isShapeTag element.tag = true := by
  rw [← isSome_ofTag?]
  cases hkind : Shape.Kind.ofTag? element.tag with
  | none => simp [shapePoints, hkind] at h
  | some kind => rfl

/-- The points of a path are those of its commands. -/
theorem shapePoints_of_path {element : Element} {data : List Char}
    {commands : List (Path.Command α)} (hkind : Shape.Kind.ofTag? element.tag = some .path)
    (hattribute : element.attribute? "d" = some data)
    (hdata : Path.commands data = .ok commands) :
    shapePoints fineness element = Path.points commands fineness := by
  have hshape : (shapeOf? .path element : Option (Shape α)) = some (.path commands) := by
    rw [shapeOf?, hattribute]
    show (Path.commands data).toOption.map Shape.path = _
    rw [hdata]
    rfl
  rw [shapePoints, hkind]
  show ((shapeOf? .path element : Option (Shape α)).map (·.points fineness)).getD [] = _
  rw [hshape]
  rfl

/-- By its own tag an element has an outline if it is a shape with points. -/
theorem outlineOf?_eq (element : Element) :
    (outlineOf? fineness element : Option (Outline α)) =
      if (shapePoints fineness element : List (Point α)).isEmpty then none
      else some ⟨(shapePoints fineness element).map (transformOf element).apply,
        paintOf element, element.tag⟩ := by
  cases hkind : Shape.Kind.ofTag? element.tag with
  | none => simp [outlineOf?, shapePoints, hkind]
  | some kind =>
    cases hshape : (shapeOf? kind element : Option (Shape α)) with
    | none => simp [outlineOf?, shapePoints, hkind, hshape]
    | some shape => simp [outlineOf?, shapePoints, hkind, hshape]

/-- With no group around, an outline stays where it is. -/
theorem map_placeIn_nil (outlines : List (Outline α)) :
    outlines.map (placeIn []) = outlines := by
  have hcarry : (carry [] : Point α → Point α) = id := rfl
  have hplace : (placeIn [] : Outline α → Outline α) = id := by
    funext outline
    simp [placeIn, hcarry]
  rw [hplace, List.map_id]

/-- A shape among groups is drawn as it is by its own tag, and then placed by the groups. -/
theorem drawn_singleton {around : List Element} (h : ∀ group ∈ around, isGroup group = true)
    (element : Element) :
    drawn fineness [⟨element, around⟩] =
      ((outlineOf? fineness element).toList : List (Outline α)).map (placeIn around) := by
  have hgroups : around.all isGroup = true := List.all_eq_true.mpr h
  rw [outlineOf?_eq]
  split
  · next hempty => simp [drawn, Site.isDrawn, hempty]
  · next hne =>
    have htag := isShapeTag_of_shapePoints fineness (mt List.isEmpty_iff.mpr hne)
    simp [drawn, Site.isDrawn, Site.outline, placeIn, htag, hgroups, hne]

/-- A group places its outlines before the groups around it do. -/
theorem placeIn_cons (group : Element) (around : List Element) (outlines : List (Outline α)) :
    outlines.map (placeIn (group :: around)) =
      (placeAll (transformOf group) outlines).map (placeIn around) := by
  unfold placeAll
  split
  · next h => simp [placeIn, carry, Transform.outward, Transform.applyOrSkip, h]
  · next h =>
      simp [placeIn, carry, Transform.outward, Transform.applyOrSkip, h, Outline.transform]

mutual

theorem drawn_sitesOf {around : List Element} (h : ∀ group ∈ around, isGroup group = true) :
    ∀ element : Element, drawn fineness (sitesOf around element) =
      (outlinesOf fineness element : List (Outline α)).map (placeIn around)
  | .node tag attributes children => by
    rw [sitesOf, drawn_cons, outlinesOf]
    by_cases hgroup : isGroup (.node tag attributes children) = true
    · -- a group is one more group around what is inside
      have hinside := drawn_sitesIn (List.forall_mem_cons.mpr ⟨hgroup, h⟩) children
      rw [if_pos hgroup, drawn_of_isGroup fineness hgroup, List.nil_append, hinside,
        placeIn_cons]
    · -- all else has an outline of its own at most
      rw [if_neg hgroup, drawn_singleton fineness h,
        drawn_sitesIn_of_not_isGroup fineness (Bool.eq_false_iff.mpr hgroup), List.append_nil]

theorem drawn_sitesIn {around : List Element} (h : ∀ group ∈ around, isGroup group = true) :
    ∀ elements : List Element, drawn fineness (sitesIn around elements) =
      (outlinesIn fineness elements : List (Outline α)).map (placeIn around)
  | [] => rfl
  | element :: rest => by
    rw [sitesIn, drawn_append, outlinesIn, List.map_append, drawn_sitesOf h element,
      drawn_sitesIn h rest]

end

/-- All that is drawn below a root is drawn where it stands. -/
theorem drawn_below (root : Element) :
    drawn fineness (below root) = (outlinesIn fineness root.children : List (Outline α)) := by
  rw [below, drawn_sitesIn fineness (by simp), map_placeIn_nil]

/-! ## Tags of outlines -/

/-- All that is read from a drawing has the tag of a shape. -/
theorem isShapeTag_of_mem_readText {text : List Char} {outlines : List (Outline α)}
    (h : readText fineness text = .ok outlines) {outline : Outline α}
    (hmem : outline ∈ outlines) :
    isShapeTag outline.tag = true := by
  unfold readText at h
  split at h
  · cases h
  · next root _ =>
    split at h
    · obtain rfl := Except.ok.inj h
      rw [← drawn_below, drawn, List.mem_map] at hmem
      obtain ⟨site, hsite, rfl⟩ := hmem
      have hisDrawn := (List.mem_filter.mp hsite).2
      simp only [Site.isDrawn, Bool.and_eq_true] at hisDrawn
      exact hisDrawn.1.1
    · cases h

/-! ## Drawings -/

/-- **The walk through a drawing**: a drawing is read as the outlines of its sites that
are drawn, one for each and in document order; each has points. In exact arithmetic it
does not matter that the identity is left out of the transforms of groups. -/
theorem readText_eq_outlines {text : List Char} {root : Element}
    (htree : tree? text = some root) (hroot : root.tag = ['s', 'v', 'g']) :
    (readText fineness text : Except Error (List (Outline α))) =
        .ok (((below root).filter (Site.isDrawn α fineness)).map (Site.outline fineness)) ∧
      (∀ site : Site, site.isDrawn α fineness = true →
        (site.outline fineness : Outline α).points ≠ []) ∧
      ∀ (transforms : List (Transform ℝ)) (p : Point ℝ),
        Transform.outward transforms p = transforms.foldl (fun p t => t.apply p) p := by
  refine ⟨?_, fun site hdrawn => ?_, Transform.outward_eq_foldl_apply⟩
  · have hisRoot : isRoot root = true := by simp [isRoot, hroot]
    simp only [readText, htree, hisRoot, if_true, ← drawn_below, drawn]
  · simp only [Site.isDrawn, Bool.and_eq_true, Bool.not_eq_true',
      List.isEmpty_eq_false_iff] at hdrawn
    simpa [Site.outline] using hdrawn.2

end Outlines

/-- A line in two groups is shifted by the inner one and then scaled by the outer one; a
line in a link is not drawn. -/
theorem readText_eq_outlines_nested_groups :
    readText .default
      ("<svg><G transform='scale(2)'><g transform='translate(1,3)'><LINE x2='1'/>" ++
        "</g></G><a><line/></a></svg>").toList =
      .ok [(⟨[⟨2.0, 6.0⟩, ⟨4.0, 6.0⟩], .read none none none,
        "LINE".toList⟩ : Outline Float)] := by
  let text := ("<svg><G transform='scale(2)'><g transform='translate(1,3)'><LINE x2='1'/>" ++
    "</g></G><a><line/></a></svg>").toList
  let root := (tree? text).get (by decide +kernel)
  have htree : tree? text = some root := (Option.some_get _).symm
  have hroot : root.tag = ['s', 'v', 'g'] := by decide +kernel
  rw [(readText_eq_outlines (α := Float) .default htree hroot).1]
  decide +kernel

end Kerf.Drawing
