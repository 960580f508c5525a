import Mathlib
import Kerf.Proofs.Curve.Arc
import Kerf.Proofs.Path.Desugaring
import Kerf.Proofs.Path.Subpaths

/-!
# The pen follows the points

In exact arithmetic the pen is where the last point was left, with one exception: an arc
between ends that are not told apart leaves no point, and the pen moves to its end all the
same.

- `Pen.course`: the pen before each of some commands. A command is drawn as the plain
  commands it stands for, one for each tuple, so its course says where each tuple starts.
- `Command.IsPlain.draw_cases`: what a plain command can do. It leaves a last point where
  it takes the pen, or it is an arc that moves the pen by less than the tolerance.
- `Pen.drawAll_follows`: from the last point left, the pen strays by less than the
  tolerance for each arc skipped since.
- `draw_follows_from_origin`: the same of every command of a path, with the starts of
  curves and of subpaths.
-/

namespace Kerf.Path

variable {α : Type} [Scalar α] (fineness : Fineness)

/-! ## Courses -/

/-- The pen before each of some commands, with the command. -/
def Pen.course (pen : Pen α) : List (Command α) → List (Pen α × Command α)
  | [] => []
  | command :: rest => (pen, command) :: (pen.draw fineness command).1.course rest

/-- What a command leaves where the pen is. -/
def left (stop : Pen α × Command α) : List (Point α) :=
  (stop.1.draw fineness stop.2).2

theorem Pen.drawAll_append (pen : Pen α) (before after : List (Command α)) :
    pen.drawAll fineness (before ++ after) =
      (((pen.drawAll fineness before).1.drawAll fineness after).1,
        (pen.drawAll fineness before).2 ++
          ((pen.drawAll fineness before).1.drawAll fineness after).2) :=
  collect_append _ _ _ _

theorem Pen.drawAll_singleton (pen : Pen α) (command : Command α) :
    pen.drawAll fineness [command] = pen.draw fineness command :=
  collect_singleton _ _ _

theorem Pen.course_append (pen : Pen α) (before : List (Command α)) (command : Command α) :
    pen.course fineness (before ++ [command]) =
      pen.course fineness before ++ [((pen.drawAll fineness before).1, command)] := by
  induction before generalizing pen with
  | nil => rfl
  | cons first before ih =>
    rw [List.cons_append, course, ih, course, List.cons_append]
    rfl

/-- What commands draw is what they leave on their course. -/
theorem Pen.flatMap_left_course (pen : Pen α) (commands : List (Command α)) :
    (pen.course fineness commands).flatMap (left fineness) =
      (pen.drawAll fineness commands).2 := by
  induction commands generalizing pen with
  | nil => rfl
  | cons command commands ih =>
    rw [course, List.flatMap_cons, ih]
    rfl

/-- Whether a command leaves nothing where the pen is. -/
def leavesNothing (stop : Pen α × Command α) : Bool :=
  (left fineness stop).isEmpty

/-- How many plain commands at the end of a course leave nothing. -/
def idleAtEnd (course : List (Pen α × Command α)) : Nat :=
  (course.rtakeWhile (leavesNothing fineness)).length

/-! ## Plain commands -/

omit [Scalar α] in
/-- A plain command is one of six, with the places that its numbers are. -/
theorem Command.IsPlain.cases {command : Command α} (h : command.IsPlain) :
    (∃ place, command = .moveTo place) ∨ (∃ place, command = .lineTo place) ∨ command = .close ∨
      (∃ control place, command = .quadraticTo control place) ∨
      (∃ control₁ control₂ place, command = .cubicTo control₁ control₂ place) ∨
      ∃ rx ry rotation large sweep place,
        command = .arcTo rx ry rotation large sweep place := by
  obtain ⟨letter, parameters⟩ := command
  simp only [IsPlain, List.mem_cons, Prod.mk.injEq, List.not_mem_nil, or_false] at h
  -- the letter, and how many numbers it has
  rcases h with ⟨rfl, h⟩ | ⟨rfl, h⟩ | ⟨rfl, h⟩ | ⟨rfl, h⟩ | ⟨rfl, h⟩ | ⟨rfl, h⟩
  · obtain ⟨x, y, rfl⟩ := List.length_eq_two.mp h
    exact .inl ⟨⟨x, y⟩, rfl⟩
  · obtain ⟨x, y, rfl⟩ := List.length_eq_two.mp h
    exact .inr (.inl ⟨⟨x, y⟩, rfl⟩)
  · rw [List.length_eq_zero_iff.mp h]
    exact .inr (.inr (.inl rfl))
  · obtain ⟨x₁, y₁, x, y, rfl⟩ := List.length_eq_four.mp h
    exact .inr (.inr (.inr (.inl ⟨⟨x₁, y₁⟩, ⟨x, y⟩, rfl⟩)))
  · obtain ⟨x₁, parameters, rfl⟩ := parameters.exists_of_length_succ h
    obtain ⟨y₁, parameters, rfl⟩ := parameters.exists_of_length_succ (Nat.succ.inj h)
    obtain ⟨x₂, y₂, x, y, rfl⟩ := List.length_eq_four.mp (by simpa using h)
    exact .inr (.inr (.inr (.inr (.inl ⟨⟨x₁, y₁⟩, ⟨x₂, y₂⟩, ⟨x, y⟩, rfl⟩))))
  · obtain ⟨rx, parameters, rfl⟩ := parameters.exists_of_length_succ h
    obtain ⟨ry, parameters, rfl⟩ := parameters.exists_of_length_succ (Nat.succ.inj h)
    obtain ⟨rotation, parameters, rfl⟩ :=
      parameters.exists_of_length_succ (Nat.succ.inj (Nat.succ.inj h))
    obtain ⟨large, sweep, x, y, rfl⟩ := List.length_eq_four.mp (by simpa using h)
    exact .inr (.inr (.inr (.inr (.inr ⟨rx, ry, rotation, large, sweep, ⟨x, y⟩, rfl⟩))))

/-- The arc that a plain command draws. -/
def arcOf (pen : Pen α) (rx ry rotation large sweep : α) (place : Point α) : Curve.Arc α where
  start := pen.current
  finish := place
  rx := rx
  ry := ry
  rotation := rotation
  large := !Scalar.same large 0.0
  sweep := !Scalar.same sweep 0.0

theorem draw_quadraticTo (pen : Pen α) (control place : Point α) :
    pen.draw fineness (.quadraticTo control place) =
      (pen.moved place, Curve.quadratic pen.current control place fineness.curveSteps.toNat) :=
  collect_singleton (Pen.quadraticTo false _) pen (_, _, _, _)

theorem draw_cubicTo (pen : Pen α) (control₁ control₂ place : Point α) :
    pen.draw fineness (.cubicTo control₁ control₂ place) =
      (pen.moved place,
        Curve.cubic pen.current control₁ control₂ place fineness.curveSteps.toNat) :=
  collect_singleton (Pen.cubicTo false _) pen (_, _, _, _, _, _)

theorem draw_arcTo (pen : Pen α) (rx ry rotation large sweep : α) (place : Point α) :
    pen.draw fineness (.arcTo rx ry rotation large sweep place) =
      (pen.moved place,
        (arcOf pen rx ry rotation large sweep place).points fineness.curveSteps.toNat) :=
  collect_singleton (Pen.arcTo false _) pen (_, _, _, _, _, _, _)

/-! ## Where a plain command ends -/

/-- A plain command leaves its last point where it takes the pen, unless it is an arc
between ends that are not told apart. -/
theorem Command.IsPlain.getLast?_draw_or {command : Command ℝ} (h : command.IsPlain)
    (pen : Pen ℝ) :
    (pen.draw fineness command).2.getLast? = some (pen.draw fineness command).1.current ∨
      (pen.draw fineness command).2 = [] ∧ command.letter = 'A' ∧
        pen.current.near (pen.draw fineness command).1.current = true := by
  -- curves end where they are asked to, and only an arc may not be drawn
  rcases h.cases with ⟨place, rfl⟩ | ⟨place, rfl⟩ | rfl | ⟨control, place, rfl⟩ |
    ⟨control₁, control₂, place, rfl⟩ | ⟨rx, ry, rotation, large, sweep, place, rfl⟩
  · exact .inl rfl
  · exact .inl rfl
  · exact .inl rfl
  · left
    rw [draw_quadraticTo, Curve.quadratic, Curve.getLast?_samples, Curve.quadraticAt_one]
    rfl
  · left
    rw [draw_cubicTo, Curve.cubic, Curve.getLast?_samples, Curve.cubicAt_one]
    rfl
  · rw [draw_arcTo]
    rcases (arcOf pen rx ry rotation large sweep place).getLast?_points_or
      fineness.curveSteps.toNat with hlast | ⟨hnone, hnear⟩
    · exact .inl hlast
    · exact .inr ⟨hnone, rfl, hnear⟩

/-- Whether a plain command draws a curve, where the pen is: an arc is one if its ends are
told apart and neither radius is zero. -/
def DrawsCurve (stop : Pen ℝ × Command ℝ) : Prop :=
  stop.2.letter = 'Q' ∨ stop.2.letter = 'C' ∨
    ∃ rx ry rotation large sweep place, stop.2 = .arcTo rx ry rotation large sweep place ∧
      stop.1.current.near place = false ∧ rx ≠ 0 ∧ ry ≠ 0

/-- A curve starts where the pen is. -/
theorem Command.IsPlain.head?_left {stop : Pen ℝ × Command ℝ} (h : stop.2.IsPlain)
    (hcurve : DrawsCurve stop) : (left fineness stop).head? = some stop.1.current := by
  obtain ⟨pen, command⟩ := stop
  unfold left
  rcases h.cases with ⟨place, rfl⟩ | ⟨place, rfl⟩ | rfl | ⟨control, place, rfl⟩ |
    ⟨control₁, control₂, place, rfl⟩ | ⟨rx, ry, rotation, large, sweep, place, rfl⟩
  -- moves and lines draw no curve
  · simp [DrawsCurve, Command.moveTo, Command.arcTo] at hcurve
  · simp [DrawsCurve, Command.lineTo, Command.arcTo] at hcurve
  · simp [DrawsCurve, Command.close, Command.arcTo] at hcurve
  · rw [draw_quadraticTo, Curve.quadratic, Curve.head?_samples, Curve.quadraticAt_zero]
  · rw [draw_cubicTo, Curve.cubic, Curve.head?_samples, Curve.cubicAt_zero]
  -- an arc is a curve if its ends are told apart and it has radii
  · simp only [DrawsCurve, Command.arcTo, Command.mk.injEq, List.cons.injEq] at hcurve
    obtain hletter | hletter | ⟨_, _, _, _, _, q, ⟨-, rfl, rfl, -, -, -, hx, hy, -⟩, hends,
      hrx, hry⟩ := hcurve
    · exact absurd hletter (by decide)
    · exact absurd hletter (by decide)
    · obtain rfl : place = q := by
        show Point.mk place.x place.y = ⟨q.x, q.y⟩
        rw [hx, hy]
      rw [draw_arcTo]
      exact (Curve.Arc.points_ends hends hrx hry _).1

/-! ## How far the pen strays -/

/-- Whether a place is where another one is or, after some skips, less than the tolerance
for each of them away on either axis. -/
def StraysBy (skips : Nat) (p q : Point ℝ) : Prop :=
  (skips = 0 ∧ p = q) ∨
    (0 < skips ∧ |p.x - q.x| < skips * (Point.tolerance : ℝ) ∧
      |p.y - q.y| < skips * (Point.tolerance : ℝ))

/-- A skip takes a place farther away by less than the tolerance. -/
theorem StraysBy.succ {skips : Nat} {p q : Point ℝ} (h : StraysBy skips p q) {next : Point ℝ}
    (hnear : p.near next = true) : StraysBy (skips + 1) next q := by
  obtain ⟨hx, hy⟩ := Point.near_iff.mp hnear
  rw [abs_sub_comm] at hx hy
  right
  refine ⟨Nat.succ_pos _, ?_⟩
  rw [Nat.cast_succ, add_mul, one_mul]
  rcases h with ⟨rfl, rfl⟩ | ⟨-, hpx, hpy⟩
  · rw [Nat.cast_zero, zero_mul, zero_add]
    exact ⟨hx, hy⟩
  · have htriangleX := abs_sub_le next.x p.x q.x
    have htriangleY := abs_sub_le next.y p.y q.y
    constructor
    · linarith
    · linarith

omit [Scalar α] in
theorem getLastD_append_of_getLast? {points more : List (Point α)} {last : Point α}
    (h : more.getLast? = some last) (fallback : Point α) :
    (points ++ more).getLastD fallback = last := by
  rw [List.getLastD_eq_getLast?, List.getLast?_append, h]
  rfl

/-- **The pen follows the points**: after some plain commands it is where the last point
was left, or has strayed from there by less than the tolerance for each arc skipped since.
-/
theorem Pen.drawAll_follows (pen : Pen ℝ) {commands : List (Command ℝ)}
    (h : ∀ command ∈ commands, command.IsPlain) :
    StraysBy (idleAtEnd fineness (pen.course fineness commands))
      (pen.drawAll fineness commands).1.current
      ((pen.drawAll fineness commands).2.getLastD pen.current) := by
  induction commands using List.reverseRecOn with
  | nil => exact .inl ⟨rfl, rfl⟩
  | append_singleton before command ih =>
    rw [List.forall_mem_append, List.forall_mem_singleton] at h
    have hbefore := ih h.1
    rw [course_append, drawAll_append, drawAll_singleton]
    rcases h.2.getLast?_draw_or fineness (pen.drawAll fineness before).1 with
      hlast | ⟨hnone, -, hnear⟩
    · -- a point is left here, and the count starts anew
      have hne :
          ¬ leavesNothing fineness ((pen.drawAll fineness before).1, command) = true := by
        rw [leavesNothing, left, List.isEmpty_iff]
        intro hnil
        rw [hnil] at hlast
        cases hlast
      rw [idleAtEnd, List.rtakeWhile_concat_neg (leavesNothing fineness) _ _ hne,
        getLastD_append_of_getLast? hlast]
      exact .inl ⟨rfl, rfl⟩
    -- none is left, so the pen strays by one tolerance more
    · have hidle : (left fineness ((pen.drawAll fineness before).1, command)).isEmpty = true :=
        List.isEmpty_iff.mpr hnone
      rw [idleAtEnd, List.rtakeWhile_concat_pos (leavesNothing fineness) _ _ hidle,
        List.length_append, hnone, List.append_nil]
      exact hbefore.succ hnear

omit [Scalar α] in
theorem letter_of_mem_chained {τ : Type} {letter : Char}
    {write : Point α → τ → Command α × Point α}
    (h : ∀ place tuple, (write place tuple).1.letter = letter) (place : Point α)
    (tuples : List τ) :
    ∀ command ∈ chained write place tuples, command.letter = letter := by
  induction tuples generalizing place with
  | nil => simp [chained]
  | cons tuple tuples ih =>
    rw [chained, List.forall_mem_cons]
    exact ⟨h place tuple, ih _⟩

/-- Only arcs stand for plain arcs. -/
theorem toUpper_of_mem_canonical {pen : Pen α} {command plain : Command α}
    (h : plain ∈ canonical pen command) (hletter : plain.letter = 'A') :
    command.letter.toUpper = 'A' := by
  -- the commands of one chain all have the letter of the chain
  have hother : ∀ {τ : Type} {letter : Char} {write : Point α → τ → Command α × Point α}
      {place : Point α} {tuples : List τ}, plain ∈ chained write place tuples →
      (∀ place tuple, (write place tuple).1.letter = letter) → letter = 'A' :=
    fun hmem hwrite => (letter_of_mem_chained hwrite _ _ plain hmem).symm.trans hletter
  unfold canonical at h
  simp only at h
  split at h
  · split at h
    · cases h
    · rcases List.mem_cons.mp h with rfl | hline
      · have hmove : 'M' = 'A' := hletter
        exact absurd hmove (by decide)
      · exact absurd (hother hline fun _ _ => rfl) (by decide)
  · exact absurd (hother h fun _ _ => rfl) (by decide)
  · exact absurd (hother h fun _ _ => rfl) (by decide)
  · exact absurd (hother h fun _ _ => rfl) (by decide)
  · rw [List.mem_singleton.mp h] at hletter
    have hclose : 'Z' = 'A' := hletter
    exact absurd hclose (by decide)
  · next hupper => exact hupper
  · exact absurd (hother h fun _ _ => rfl) (by decide)
  · exact absurd (hother h fun _ _ => rfl) (by decide)
  · cases h

theorem Pen.mem_of_mem_course {pen : Pen α} {commands : List (Command α)}
    {stop : Pen α × Command α} (h : stop ∈ pen.course fineness commands) :
    stop.2 ∈ commands := by
  induction commands generalizing pen with
  | nil => cases h
  | cons command commands ih =>
    rcases List.mem_cons.mp h with rfl | hlater
    · exact List.mem_cons_self
    · exact List.mem_cons_of_mem _ (ih hlater)

/-- Only arcs are skipped. -/
theorem Pen.toUpper_of_idleAtEnd_pos {pen : Pen ℝ} {command : Command ℝ}
    (h : 0 < idleAtEnd fineness (pen.course fineness (canonical pen command))) :
    command.letter.toUpper = 'A' := by
  obtain ⟨stop, hstop⟩ := List.exists_mem_of_length_pos h
  have hidle := List.mem_rtakeWhile_imp hstop
  have hmem := mem_of_mem_course fineness ((List.rtakeWhile_suffix _ _).subset hstop)
  rcases (isPlain_canonical pen command _ hmem).getLast?_draw_or fineness stop.1 with
    hlast | ⟨-, hletter, -⟩
  · rw [leavesNothing, left, List.isEmpty_iff] at hidle
    rw [hidle] at hlast
    cases hlast
  · exact toUpper_of_mem_canonical hmem hletter

/-! ## Where subpaths start -/

/-- What every step leaves as it is, steps through a list leave as it is. -/
theorem collect_invariant {σ τ β γ : Type} {step : σ → τ → σ × List β} {view : σ → γ}
    (h : ∀ state item, view (step state item).1 = view state) (state : σ) (items : List τ) :
    view (collect step state items).1 = view state := by
  induction items generalizing state with
  | nil => rfl
  | cons item items ih => rw [collect_cons, ih, h]

/-- A command that begins no subpath leaves the start of the subpath as it is. -/
theorem Pen.start_draw_of_not_begins (pen : Pen α) {command : Command α}
    (h : command.begins = false) :
    (pen.draw fineness command).1.start = pen.start := by
  rw [Command.begins, Bool.and_eq_false_iff] at h
  unfold draw
  simp only
  split
  -- a move without a complete pair does nothing, and no other letter changes the start
  · next hletter =>
    rcases h with hother | hpairs
    · rw [hletter] at hother
      exact absurd hother (by decide)
    · rw [Bool.not_eq_false', List.isEmpty_iff] at hpairs
      rw [hpairs]
      rfl
  · exact collect_invariant (fun _ _ => rfl) pen _
  · exact collect_invariant (fun _ _ => rfl) pen _
  · exact collect_invariant (fun _ _ => rfl) pen _
  · rfl
  · exact collect_invariant (fun _ _ => rfl) pen _
  · exact collect_invariant (fun _ _ => rfl) pen _
  · exact collect_invariant (fun _ _ => rfl) pen _
  · rfl

/-- A move begins a subpath at the place that it names first. -/
theorem Pen.start_draw_of_move (pen : Pen α) {command : Command α}
    (h : command.letter.toUpper = 'M') {x y : α} {others : List (α × α)}
    (hpairs : pairs command.parameters = (x, y) :: others) :
    (pen.draw fineness command).1.start = pen.resolve command.isRelative x y := by
  simp only [draw, h, hpairs, moveTo]
  exact collect_invariant (fun _ _ => rfl) _ others

/-- Whether a path's subpath starts at a place when some commands are done: at the place
that the last of its moves with a complete pair names first, or at the origin if there was
no such move. -/
inductive IsSubpathStart : List (Command α) → Point α → Prop
  | origin {commands : List (Command α)} (h : ∀ command ∈ commands, command.begins = false) :
    IsSubpathStart commands .origin
  | move {before after : List (Command α)} {move : Command α} {x y : α} {others : List (α × α)}
    (hletter : move.letter.toUpper = 'M') (hpairs : pairs move.parameters = (x, y) :: others)
    (hafter : ∀ command ∈ after, command.begins = false) :
    IsSubpathStart (before ++ move :: after)
      ((Pen.atOrigin.drawAll fineness before).1.resolve move.isRelative x y)

theorem isSubpathStart_drawAll (commands : List (Command α)) :
    IsSubpathStart fineness commands (Pen.atOrigin.drawAll fineness commands).1.start := by
  induction commands using List.reverseRecOn with
  | nil => exact .origin nofun
  | append_singleton before command ih =>
    rw [Pen.drawAll_append, Pen.drawAll_singleton]
    -- a move starts anew, and any other command goes on from the same start
    cases hbegins : command.begins with
    | true =>
      rw [Command.begins, Bool.and_eq_true, beq_iff_eq, Bool.not_eq_true',
        List.isEmpty_eq_false_iff] at hbegins
      obtain ⟨⟨x, y⟩, others, hpairs⟩ := List.exists_cons_of_ne_nil hbegins.2
      rw [Pen.start_draw_of_move fineness _ hbegins.1 hpairs]
      exact .move hbegins.1 hpairs nofun
    | false =>
      rw [Pen.start_draw_of_not_begins fineness _ hbegins]
      generalize (Pen.atOrigin.drawAll fineness before).1.start = start at ih
      cases ih with
      | origin h =>
        refine .origin ?_
        rw [List.forall_mem_append, List.forall_mem_singleton]
        exact ⟨h, hbegins⟩
      | move hletter hpairs hafter =>
        rw [List.append_assoc, List.cons_append]
        refine .move hletter hpairs ?_
        rw [List.forall_mem_append, List.forall_mem_singleton]
        exact ⟨hafter, hbegins⟩

/-! ## Paths -/

/-- **The pen follows the points** of a path, in exact arithmetic. After each command it
is where the last point was left, or where it was if the command leaves none. Only after
arcs between ends that are not told apart has it strayed from there, by less than the
tolerance on each axis for each of them that the command ends with. Every curve starts
where the pen is before it. The start of the subpath is the place that the last move with
a complete pair names first, or the origin, and closing takes the pen there and leaves
that point. -/
theorem draw_follows_from_origin (before : List (Command ℝ)) (command : Command ℝ) :
    let pen := (Pen.atOrigin.drawAll fineness before).1
    let next := (pen.draw fineness command).1
    let points := (pen.draw fineness command).2
    let course := pen.course fineness (canonical pen command)
    points = course.flatMap (left fineness) ∧
      StraysBy (idleAtEnd fineness course) next.current (points.getLastD pen.current) ∧
      (0 < idleAtEnd fineness course → command.letter.toUpper = 'A') ∧
      (∀ stop ∈ course, DrawsCurve stop → (left fineness stop).head? = some stop.1.current) ∧
      IsSubpathStart fineness before pen.start ∧
      IsSubpathStart fineness (before ++ [command]) next.start ∧
      (command.letter.toUpper = 'Z' → next.current = pen.start ∧ points = [pen.start]) := by
  intro pen next points course
  have hplain := isPlain_canonical pen command
  have hdraw := drawAll_canonical fineness pen command
  refine ⟨?_, ?_, Pen.toUpper_of_idleAtEnd_pos fineness, ?_,
    isSubpathStart_drawAll fineness before, ?_, ?_⟩
  -- the points of the plain commands are those of the command
  · rw [Pen.flatMap_left_course, hdraw]
  · have hfollows := pen.drawAll_follows fineness hplain
    rw [hdraw] at hfollows
    exact hfollows
  · intro stop hstop
    exact (hplain _ (Pen.mem_of_mem_course fineness hstop)).head?_left fineness
  -- the command is the last one of a longer run
  · have hstart := isSubpathStart_drawAll fineness (before ++ [command])
    rw [Pen.drawAll_append, Pen.drawAll_singleton] at hstart
    exact hstart
  · intro hletter
    have hclose : pen.draw fineness command = pen.close := by
      simp only [Pen.draw, hletter]
    show (pen.draw fineness command).1.current = _ ∧ (pen.draw fineness command).2 = _
    rw [hclose]
    exact ⟨rfl, rfl⟩

/-- A second arc that is too short to be drawn takes the pen away from the last point. -/
theorem not_forall_current_eq_last :
    ¬ ∀ (fineness : Fineness) (before : List (Command ℝ)) (command : Command ℝ),
      let pen := (Pen.atOrigin.drawAll fineness before).1
      (pen.draw fineness command).2 ≠ [] →
        (pen.draw fineness command).2.getLast? =
          some (pen.draw fineness command).1.current := by
  intro h
  let arc (y : ℝ) : ℝ × ℝ × ℝ × ℝ × ℝ × ℝ × ℝ := (1, 1, 0, 0, 0, 2, y)
  let command : Command ℝ :=
    ⟨'A', [1, 1, 0, 0, 0, 2, 4.9999e-7, 1, 1, 0, 0, 0, 2, 5.0001e-7]⟩
  let first : Curve.Arc ℝ := arcOf .atOrigin 1 1 0 0 0 ⟨2, 4.9999e-7⟩
  let second : Curve.Arc ℝ := arcOf (Pen.atOrigin.moved ⟨2, 4.9999e-7⟩) 1 1 0 0 0 ⟨2, 5.0001e-7⟩
  have hdraw : Pen.atOrigin.draw .default command =
      (Pen.atOrigin.moved ⟨2, 5.0001e-7⟩, first.points 100 ++ (second.points 100 ++ [])) := rfl
  -- the first arc is drawn to its end
  have hfirst : (first.points 100).getLast? = some ⟨2, 4.9999e-7⟩ := by
    have hends : first.start.near first.finish = false := by
      rw [← Bool.not_eq_true, Point.near_iff, not_and_or]
      left
      show ¬|(0.0 : ℝ) - 2| < 1e-10
      norm_num
    exact (Curve.Arc.points_ends hends one_ne_zero one_ne_zero 100).2
  -- the second one goes on by less than the tolerance
  have hsecond : second.points 100 = [] := by
    refine Curve.Arc.points_of_near (Point.near_iff.mpr ?_) 100
    show |(2 : ℝ) - 2| < 1e-10 ∧ |(4.9999e-7 : ℝ) - 5.0001e-7| < 1e-10
    norm_num
  have hlast := h .default [] command
  simp only [Pen.drawAll, collect_nil, hdraw, hsecond, List.append_nil] at hlast
  have hne : first.points 100 ≠ [] := by
    intro hnil
    rw [hnil] at hfirst
    cases hfirst
  rw [hfirst] at hlast
  have hy : (4.9999e-7 : ℝ) = 5.0001e-7 := congrArg Point.y (Option.some.inj (hlast hne))
  norm_num at hy

end Kerf.Path
