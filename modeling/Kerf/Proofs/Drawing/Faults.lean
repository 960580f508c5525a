import Kerf.Proofs.Drawing.Walk

/-!
# Faults of elements

What is wrong with an element stays with that element: what is drawn of all others is the
same with it, without it and with any other element in its place.

- `Spot`: a place among the children of the root, or of a group that is reached from the
  root through groups.
- `exists_outlinesIn_fill`: what stands in a spot is drawn as one run. What comes before
  and after that run is drawn of the surroundings, whatever stands in the spot.
- `IsIdle`: the faults that leave nothing to be drawn of an element, and the elements that
  are not meant to be drawn. They are all there are (`outlinesOf_eq_nil_iff`).
- `readText_fill`: both said of the texts of drawings, none of which is refused for what
  its elements are.
-/

namespace Kerf.Drawing

open Xml (Element)

/-! ## Spots -/

/-- A group with a gap among the elements inside of it. -/
structure OpenGroup where
  tag : List Char
  attributes : List Xml.Attribute
  isGroup_tag : Text.sameIgnoringCase tag ['g'] = true
  /-- The elements before the gap. -/
  before : List Element
  /-- The elements after the gap. -/
  after : List Element

/-- A group with some elements in its gap. -/
def OpenGroup.fill (group : OpenGroup) (content : List Element) : Element :=
  .node group.tag group.attributes (group.before ++ content ++ group.after)

/-- Groups inside of each other, the innermost first, with some elements in the gap of the
innermost. -/
def fillGroups : List OpenGroup → List Element → List Element
  | [], content => content
  | group :: outer, content => fillGroups outer [group.fill content]

/-- A place among the elements below a root, with only groups between it and the root. -/
structure Spot where
  /-- The groups that the place is in, the innermost first. -/
  groups : List OpenGroup
  /-- What is directly below the root, before the outermost group or before the place itself. -/
  before : List Element
  /-- What is directly below the root, after the outermost group or after the place itself. -/
  after : List Element

namespace Spot

/-- The children of the root, with some elements in a spot. -/
def fill (spot : Spot) (content : List Element) : List Element :=
  spot.before ++ fillGroups spot.groups content ++ spot.after

/-- The groups around a spot, the innermost first. -/
def around (spot : Spot) : List Element :=
  spot.groups.map (·.fill [])

end Spot

/-- Whether a text is a drawing with some elements directly below its root. -/
def IsDrawingOf (text : List Char) (content : List Element) : Prop :=
  ∃ root, tree? text = some root ∧ root.tag = ['s', 'v', 'g'] ∧ root.children = content

/-! ## What is drawn around a spot -/

section Surroundings

variable {α : Type} [Written α] (fineness : Fineness)

theorem outlinesIn_append (a b : List Element) :
    (outlinesIn fineness (a ++ b) : List (Outline α)) =
      outlinesIn fineness a ++ outlinesIn fineness b := by
  induction a with
  | nil => rfl
  | cons element a ih => rw [List.cons_append, outlinesIn, outlinesIn, ih, List.append_assoc]

theorem outlinesIn_singleton (element : Element) :
    (outlinesIn fineness [element] : List (Outline α)) = outlinesOf fineness element := by
  rw [outlinesIn, outlinesIn, List.append_nil]

theorem placeAll_append (t : Transform α) (a b : List (Outline α)) :
    placeAll t (a ++ b) = placeAll t a ++ placeAll t b := by
  unfold placeAll
  split
  · rfl
  · rw [List.map_append]

/-- A group draws what is in its gap between what is drawn of the elements before and
after the gap. -/
theorem outlinesOf_fill (group : OpenGroup) (content : List Element) :
    (outlinesOf fineness (group.fill content) : List (Outline α)) =
      placeAll (transformOf (group.fill [])) (outlinesIn fineness group.before) ++
        placeAll (transformOf (group.fill [])) (outlinesIn fineness content) ++
          placeAll (transformOf (group.fill [])) (outlinesIn fineness group.after) := by
  have hgroup : isGroup (group.fill content) = true := group.isGroup_tag
  -- what a group does to its content is in its attributes
  have htransform : (transformOf (group.fill content) : Transform α) =
    transformOf (group.fill []) :=
    rfl
  rw [← placeAll_append, ← placeAll_append, ← outlinesIn_append, ← outlinesIn_append,
    ← htransform, OpenGroup.fill, outlinesOf]
  exact if_pos hgroup

theorem exists_outlinesIn_fillGroups (groups : List OpenGroup) :
    ∃ earlier later : List (Outline α), ∀ content,
      outlinesIn fineness (fillGroups groups content) =
        earlier ++ (outlinesIn fineness content).map (placeIn (groups.map (·.fill []))) ++
          later := by
  induction groups with
  | nil =>
    refine ⟨[], [], ?_⟩
    intro content
    rw [fillGroups, List.map_nil, map_placeIn_nil, List.nil_append, List.append_nil]
  | cons group outer ih =>
    obtain ⟨earlier, later, houter⟩ := ih
    -- the siblings inside the group are drawn with it, around what the groups outside add
    let place (outlines : List (Outline α)) : List (Outline α) :=
      (placeAll (transformOf (group.fill [])) outlines).map (placeIn (outer.map (·.fill [])))
    refine ⟨earlier ++ place (outlinesIn fineness group.before),
      place (outlinesIn fineness group.after) ++ later, ?_⟩
    intro content
    rw [fillGroups, houter, outlinesIn_singleton, outlinesOf_fill, List.map_cons, placeIn_cons]
    simp only [place, List.map_append, List.append_assoc]

/-- What stands in a spot is drawn as one run, placed by the groups around the spot. The
outlines before and after that run are the same whatever stands there. -/
theorem exists_outlinesIn_fill (spot : Spot) :
    ∃ earlier later : List (Outline α), ∀ content,
      outlinesIn fineness (spot.fill content) =
        earlier ++ (outlinesIn fineness content).map (placeIn spot.around) ++ later := by
  obtain ⟨earlier, later, hgroups⟩ := exists_outlinesIn_fillGroups (α := α) fineness spot.groups
  refine ⟨outlinesIn fineness spot.before ++ earlier,
    later ++ outlinesIn fineness spot.after, ?_⟩
  intro content
  rw [Spot.fill, outlinesIn_append, outlinesIn_append, hgroups, Spot.around]
  simp only [List.append_assoc]

/-- The text of a drawing is read, whatever its elements are. -/
theorem readText_of_isDrawingOf {text : List Char} {content : List Element}
    (h : IsDrawingOf text content) :
    (readText fineness text : Except Error (List (Outline α))) =
      .ok (outlinesIn fineness content) := by
  obtain ⟨root, htree, htag, rfl⟩ := h
  have hroot : isRoot root = true := by simp [isRoot, htag]
  simp only [readText, htree, hroot, if_true]

end Surroundings

/-! ## Idle elements -/

/-- An element of which nothing is drawn. -/
inductive IsIdle (α : Type) [Written α] (fineness : Fineness) : Element → Prop
  /-- The element is neither a shape nor a group, whatever its attributes are and whatever
  is inside of it. -/
  | unknown {element : Element} (hshape : isShapeTag element.tag = false)
    (hgroup : isGroup element = false) : IsIdle α fineness element
  /-- A path has no data. -/
  | dataMissing {element : Element}
    (htag : Text.sameIgnoringCase element.tag "path".toList = true)
    (hdata : element.attribute? "d" = none) : IsIdle α fineness element
  /-- The data of a path cannot be read. -/
  | dataMalformed {element : Element} {data : List Char} {fault : Path.Fault}
    (htag : Text.sameIgnoringCase element.tag "path".toList = true)
    (hdata : element.attribute? "d" = some data)
    (hfault : (Path.commands data : Except Path.Fault (List (Path.Command α))) = .error fault) :
    IsIdle α fineness element
  /-- A polyline or a polygon has no list of vertices. -/
  | verticesMissing {element : Element}
    (htag : Text.sameIgnoringCase element.tag "polyline".toList = true ∨
      Text.sameIgnoringCase element.tag "polygon".toList = true)
    (hvertices : element.attribute? "points" = none) : IsIdle α fineness element
  /-- A shape has no points. -/
  | pointless {element : Element} (hshape : isShapeTag element.tag = true)
    (hpoints : (shapePoints fineness element : List (Point α)) = []) : IsIdle α fineness element
  /-- All that is inside of a group is idle. -/
  | group {element : Element} (hgroup : isGroup element = true)
    (hinside : ∀ child ∈ element.children, IsIdle α fineness child) : IsIdle α fineness element

/-- A tag stands for a kind if it is the name of the kind, in any letter case. -/
theorem ofTag?_of_sameIgnoringCase (kind : Shape.Kind) (hkind : kind ∈ Shape.Kind.drawable)
    {tag : List Char} (htag : Text.sameIgnoringCase tag kind.name.toList = true) :
    Shape.Kind.ofTag? tag = some kind := by
  have hnames : Shape.Kind.drawable.all fun kind =>
      Shape.Kind.ofTag? kind.name.toList == some kind := by decide
  have hname := List.all_eq_true.mp hnames kind hkind
  -- the case of its letters does not matter to what a tag stands for
  simp only [Text.sameIgnoringCase, beq_iff_eq] at htag hname
  rw [← hname]
  simp only [Shape.Kind.ofTag?, Text.sameIgnoringCase, htag]

section Idle

variable {α : Type} [Written α] {fineness : Fineness}

theorem outlinesOf_of_isGroup {element : Element} (h : isGroup element = true) :
    (outlinesOf fineness element : List (Outline α)) =
      placeAll (transformOf element) (outlinesIn fineness element.children) := by
  obtain ⟨tag, attributes, children⟩ := element
  rw [outlinesOf]
  exact if_pos h

/-- Nothing is drawn of an element that is no group, exactly if it has no points of its own. -/
theorem outlinesOf_eq_nil_iff_of_not_isGroup {element : Element} (h : isGroup element = false) :
    (outlinesOf fineness element : List (Outline α)) = [] ↔
      (shapePoints fineness element : List (Point α)) = [] := by
  obtain ⟨tag, attributes, children⟩ := element
  have hown : outlinesOf fineness (.node tag attributes children) =
      ((outlineOf? fineness (.node tag attributes children)).toList : List (Outline α)) := by
    rw [outlinesOf]
    exact if_neg (Bool.eq_false_iff.mp h)
  rw [hown, outlineOf?_eq]
  split
  · next hempty => exact iff_of_true rfl (List.isEmpty_iff.mp hempty)
  · next hne => exact iff_of_false (by simp) (mt List.isEmpty_iff.mpr hne)

theorem outlinesIn_eq_nil_iff {elements : List Element} :
    (outlinesIn fineness elements : List (Outline α)) = [] ↔
      ∀ element ∈ elements, (outlinesOf fineness element : List (Outline α)) = [] := by
  induction elements with
  | nil => exact iff_of_true rfl (List.forall_mem_nil _)
  | cons element rest ih => rw [outlinesIn, List.append_eq_nil_iff, ih, List.forall_mem_cons]

theorem placeAll_eq_nil_iff {t : Transform α} {outlines : List (Outline α)} :
    placeAll t outlines = [] ↔ outlines = [] := by
  unfold placeAll
  split
  · exact Iff.rfl
  · exact List.map_eq_nil_iff

/-- A shape without points of its own is no group, so nothing is drawn of it. -/
theorem outlinesOf_of_kind {element : Element} {kind : Shape.Kind}
    (hkind : Shape.Kind.ofTag? element.tag = some kind)
    (hpoints : (shapePoints fineness element : List (Point α)) = []) :
    (outlinesOf fineness element : List (Outline α)) = [] := by
  have hshape : isShapeTag element.tag = true := by
    rw [← isSome_ofTag?, hkind]
    rfl
  have hgroup : isGroup element = false := by
    rw [Bool.eq_false_iff]
    intro hgroup
    rw [not_isShapeTag_of_isGroup hgroup] at hshape
    exact Bool.false_ne_true hshape
  exact (outlinesOf_eq_nil_iff_of_not_isGroup hgroup).mpr hpoints

/-- Nothing is drawn of an idle element. The induction is on why it is idle. -/
theorem outlinesOf_of_isIdle {element : Element} (h : IsIdle α fineness element) :
    (outlinesOf fineness element : List (Outline α)) = [] := by
  induction h with
  | @unknown element hshape hgroup =>
    rw [outlinesOf_eq_nil_iff_of_not_isGroup hgroup]
    -- only shapes have points
    by_contra hpoints
    rw [isShapeTag_of_shapePoints fineness hpoints] at hshape
    cases hshape
  | dataMissing htag hdata =>
    have hkind := ofTag?_of_sameIgnoringCase .path (by decide) htag
    exact outlinesOf_of_kind hkind (by simp [shapePoints, hkind, shapeOf?, hdata])
  | dataMalformed htag hdata hfault =>
    have hkind := ofTag?_of_sameIgnoringCase .path (by decide) htag
    refine outlinesOf_of_kind hkind ?_
    simp [shapePoints, hkind, shapeOf?, hdata, hfault, Except.toOption]
  | verticesMissing htag hvertices =>
    -- polylines and polygons keep their vertices in the same attribute
    rcases htag with htag | htag
    · have hkind := ofTag?_of_sameIgnoringCase .polyline (by decide) htag
      exact outlinesOf_of_kind hkind (by simp [shapePoints, hkind, shapeOf?, hvertices])
    · have hkind := ofTag?_of_sameIgnoringCase .polygon (by decide) htag
      exact outlinesOf_of_kind hkind (by simp [shapePoints, hkind, shapeOf?, hvertices])
  | pointless hshape hpoints =>
    rw [← isSome_ofTag?] at hshape
    -- every shape is read as the shape of its tag
    obtain ⟨kind, hkind⟩ := Option.isSome_iff_exists.mp hshape
    exact outlinesOf_of_kind hkind hpoints
  | group hgroup _ ih =>
    rw [outlinesOf_of_isGroup hgroup, placeAll_eq_nil_iff, outlinesIn_eq_nil_iff]
    exact ih

/-- An element that is no group and of which nothing is drawn is a shape without points,
or no shape. -/
theorem isIdle_of_not_isGroup {element : Element} (hgroup : isGroup element = false)
    (h : (outlinesOf fineness element : List (Outline α)) = []) :
    IsIdle α fineness element := by
  by_cases hshape : isShapeTag element.tag = true
  · exact .pointless hshape ((outlinesOf_eq_nil_iff_of_not_isGroup hgroup).mp h)
  · exact .unknown (Bool.eq_false_iff.mpr hshape) hgroup

mutual

theorem isIdle_of_outlinesOf : ∀ {element : Element},
    (outlinesOf fineness element : List (Outline α)) = [] → IsIdle α fineness element
  | .node tag attributes children, h => by
    by_cases hgroup : isGroup (.node tag attributes children) = true
    · rw [outlinesOf_of_isGroup hgroup, placeAll_eq_nil_iff] at h
      exact .group hgroup (isIdle_of_outlinesIn h)
    · exact isIdle_of_not_isGroup (Bool.eq_false_iff.mpr hgroup) h

theorem isIdle_of_outlinesIn : ∀ {elements : List Element},
    (outlinesIn fineness elements : List (Outline α)) = [] →
      ∀ element ∈ elements, IsIdle α fineness element
  | [], _ => List.forall_mem_nil _
  | element :: rest, h => by
    rw [outlinesIn, List.append_eq_nil_iff] at h
    rw [List.forall_mem_cons]
    exact ⟨isIdle_of_outlinesOf h.1, isIdle_of_outlinesIn h.2⟩

end

/-- Nothing is drawn of an element exactly if it is idle. -/
theorem outlinesOf_eq_nil_iff {element : Element} :
    (outlinesOf fineness element : List (Outline α)) = [] ↔ IsIdle α fineness element :=
  ⟨isIdle_of_outlinesOf, outlinesOf_of_isIdle⟩

end Idle

/-! ## Faults in drawings -/

/-- **Faults stay local**: whatever stands in a spot of a drawing is drawn as one run of
outlines, and those before and after that run do not depend on it. An element changes
nothing, exactly if it is idle. No drawing is refused for what its elements are. -/
theorem readText_fill {α : Type} [Written α] (fineness : Fineness) (spot : Spot) :
    (∃ earlier later : List (Outline α), ∀ text content, IsDrawingOf text (spot.fill content) →
        readText fineness text =
          .ok (earlier ++ (outlinesIn fineness content).map (placeIn spot.around) ++ later)) ∧
      (∀ without within element, IsDrawingOf without (spot.fill []) →
        IsDrawingOf within (spot.fill [element]) →
          ((readText fineness within : Except Error (List (Outline α))) =
            readText fineness without ↔ IsIdle α fineness element)) ∧
      ∀ text content, IsDrawingOf text content →
        ∃ outlines : List (Outline α), readText fineness text = .ok outlines := by
  obtain ⟨earlier, later, hfill⟩ := exists_outlinesIn_fill (α := α) fineness spot
  refine ⟨⟨earlier, later, ?_⟩, ?_, ?_⟩
  · intro text content htext
    rw [readText_of_isDrawingOf fineness htext, hfill]
  · intro without within element hwithout hwithin
    rw [readText_of_isDrawingOf fineness hwithout,
      readText_of_isDrawingOf fineness hwithin, hfill, hfill, outlinesIn_singleton,
      Except.ok.injEq, List.append_left_inj, List.append_right_inj, ← outlinesOf_eq_nil_iff,
      outlinesIn, List.map_nil, List.map_eq_nil_iff]
  · intro text content htext
    exact ⟨_, readText_of_isDrawingOf fineness htext⟩

/-- A group that holds an unknown element around a rectangle and a path that cannot be
read is idle, so it does not matter to the line beside it, nor to the group around both.
-/
theorem readText_fill_idle_group :
    ∃ (spot : Spot) (element : Element) (without within : List Char),
      IsDrawingOf without (spot.fill []) ∧ IsDrawingOf within (spot.fill [element]) ∧
      IsIdle Float .default element ∧
      (readText .default within : Except Error (List (Outline Float))) =
        readText .default without := by
  let line : Element := .node "line".toList [⟨"x2".toList, ['3']⟩] []
  let unknown : Element := .node "text".toList [] [.node "rect".toList [] []]
  let path : Element := .node "path".toList [⟨['d'], "M 0 0 L # 5".toList⟩] []
  let element : Element := .node ['G'] [] [unknown, path]
  let attributes : List Xml.Attribute := [⟨"transform".toList, "translate(1,2)".toList⟩]
  let group : OpenGroup := ⟨['g'], attributes, rfl, [], [line]⟩
  let spot : Spot := ⟨[group], [], [line]⟩
  let without :=
    ("<svg><g transform='translate(1,2)'><line x2='3'/></g><line x2='3'/></svg>").toList
  let within := ("<svg><g transform='translate(1,2)'><G><text><rect/></text>" ++
    "<path d='M 0 0 L # 5'/></G><line x2='3'/></g><line x2='3'/></svg>").toList
  have hwithout : IsDrawingOf without (spot.fill []) :=
    ⟨.node "svg".toList [] (spot.fill []), by decide +kernel, rfl, rfl⟩
  have hwithin : IsDrawingOf within (spot.fill [element]) :=
    ⟨.node "svg".toList [] (spot.fill [element]), by decide +kernel, rfl, rfl⟩
  have hunknown : IsIdle Float .default unknown := .unknown rfl rfl
  -- the path stops at the character that has no place in it
  have hfault :
    (Path.commands "M 0 0 L # 5".toList : Except Path.Fault (List (Path.Command Float))) =
      .error ⟨8, ['#']⟩ := by decide +kernel
  have hpath : IsIdle Float .default path := .dataMalformed rfl rfl hfault
  have hidle : IsIdle Float .default element := by
    refine .group rfl ?_
    show ∀ child ∈ [unknown, path], IsIdle Float .default child
    rw [List.forall_mem_cons, List.forall_mem_singleton]
    exact ⟨hunknown, hpath⟩
  refine ⟨spot, element, without, within, hwithout, hwithin, hidle, ?_⟩
  exact ((readText_fill .default spot).2.1 without within element hwithout hwithin).mpr hidle

end Kerf.Drawing
