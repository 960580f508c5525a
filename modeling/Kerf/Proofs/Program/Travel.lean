import Mathlib
import Kerf.Proofs.Program.LineComments
import Kerf.Proofs.Setup
import Kerf.Proofs.Unrounded

/-!
# Travel

Without rounding, an estimate is told by the lengths of the way: what a machine has
travelled rapidly and what it has cut. `Travel` keeps these as real numbers, with the
place where the machine is. Its steps are those of the estimator, for no line names a
coordinate that is not finite.

- `timeAt`, `timeAt_add`: the time that a length takes at a feed. It is proportional to
  the length, or nothing.
- `axis?_eq_map`: the coordinates of lines are real numbers.
- `Travel.progress_run`: the estimator's machine goes where the travel goes, and its times
  are those of the lengths.
- `Travel.IsPrior`: on its way, a machine only adds to the lengths, by no less than the
  straight line to where it comes. A step does (`isPrior_step`), so a run does
  (`isPrior_run`).
- `Travel.run_eq_andThen`: what a machine adds does not depend on what it has travelled
  before.
- `estimate_additive`: estimates are proportional to lengths, and additive.
-/

namespace Kerf.Program

/-! ## Times of lengths -/

/-- The seconds that a length takes at a feed in lengths a minute: none, unless the feed
is positive and finite. -/
noncomputable def timeAt (length : ℝ) : Unrounded → ℝ
  | .finite feed => if 0 < feed then 60 * length / feed else 0
  | _ => 0

/-- A feed at which lengths take time. -/
def IsTimed (feed : Unrounded) : Prop :=
  ∃ rate : ℝ, 0 < rate ∧ feed = .finite rate

section Times

theorem timeAt_of_pos {rate : ℝ} (h : 0 < rate) (length : ℝ) :
    timeAt length (.finite rate) = 60 * length / rate :=
  if_pos h

variable (feed : Unrounded)

theorem timeAt_of_not_timed (h : ¬ IsTimed feed) (length : ℝ) :
    timeAt length feed = 0 := by
  cases feed with
  | notANumber | infinite => rfl
  | finite rate => exact if_neg fun hrate => h ⟨rate, hrate, rfl⟩

theorem timeAt_add (a b : ℝ) : timeAt (a + b) feed = timeAt a feed + timeAt b feed := by
  by_cases htimed : IsTimed feed
  · obtain ⟨rate, hrate, rfl⟩ := htimed
    rw [timeAt_of_pos hrate, timeAt_of_pos hrate, timeAt_of_pos hrate]
    ring
  · simp only [timeAt_of_not_timed feed htimed, add_zero]

theorem timeAt_zero : timeAt 0 feed = 0 := by
  have hadd := timeAt_add feed 0 0
  rw [add_zero] at hadd
  linarith

theorem timeAt_nonneg {length : ℝ} (h : 0 ≤ length) : 0 ≤ timeAt length feed := by
  by_cases htimed : IsTimed feed
  · obtain ⟨rate, hrate, rfl⟩ := htimed
    rw [timeAt_of_pos hrate]
    positivity
  · rw [timeAt_of_not_timed feed htimed]

/-- The time of a length grows by that of the next move. -/
theorem addSeconds_finite (total more : ℝ) :
    Estimate.addSeconds (.finite (timeAt total feed)) (.finite more) feed =
      .finite (timeAt (total + more) feed) := by
  have hguard : 0.0 < feed ∧ Scalar.isFinite feed = true ↔ IsTimed feed :=
    and_comm.trans Unrounded.isFinite_and_pos_iff
  unfold Estimate.addSeconds Estimate.secondsAt?
  -- a feed that is no positive number takes no time, now and before
  by_cases htimed : IsTimed feed
  · rw [if_pos (hguard.mpr htimed), timeAt_add]
    obtain ⟨rate, hrate, rfl⟩ := htimed
    have hsixty : (60.0 : Unrounded) = .finite 60 := by
      rw [Unrounded.ofScientific_eq]
      norm_num
    have hseconds : Unrounded.finite more / .finite rate * 60.0 =
        .finite (timeAt more (.finite rate)) := by
      rw [hsixty, Unrounded.finite_div more hrate.ne', Unrounded.finite_mul,
        timeAt_of_pos hrate]
      congr 1
      ring
    exact congrArg (Unrounded.finite (timeAt total (.finite rate)) + ·) hseconds
  · rw [if_neg (mt hguard.mp htimed), timeAt_add,
      timeAt_of_not_timed feed htimed more, add_zero]

end Times

/-! ## Coordinates of lines -/

/-- The coordinate that a line gives on an axis, as a real number. -/
noncomputable def given? (letter : Char) (line : List Char) : Option ℝ :=
  (axis? letter line : Option Unrounded).bind Unrounded.real?

/-- A line gives real numbers only. -/
theorem axis?_eq_map (letter : Char) (line : List Char) :
    (axis? letter line : Option Unrounded) = (given? letter line).map .finite := by
  rw [given?]
  cases haxis : (axis? letter line : Option Unrounded) with
  | none => rfl
  | some value =>
    obtain ⟨number, hnumber, hread⟩ := Option.bind_eq_some_iff.mp haxis
    obtain ⟨numeral, hnumeral, rfl⟩ := Option.map_eq_some_iff.mp hread
    obtain ⟨negative, coefficient, power, rfl⟩ := exists_decimal_of_findWord? hnumber hnumeral
    rfl

theorem getD_axis? (letter : Char) (line : List Char) (kept : ℝ) :
    (axis? letter line).getD (Unrounded.finite kept) =
      .finite ((given? letter line).getD kept) := by
  rw [axis?_eq_map]
  cases given? letter line with
  | none => rfl
  | some value => rfl

theorem given?_eq_none_iff {letter : Char} {line : List Char} :
    given? letter line = none ↔ (axis? letter line : Option Unrounded) = none := by
  rw [axis?_eq_map, Option.map_eq_none_iff]

/-! ## Real travel -/

/-- Where a machine is, and how far it has travelled and cut. -/
structure Travel where
  place : Point ℝ
  rapid : ℝ
  cut : ℝ

namespace Travel

/-- A machine that has not moved from a place. -/
def rest (place : Point ℝ) : Travel := ⟨place, 0, 0⟩

/-- A way and then another, which starts where the first one ends. -/
def andThen (a b : Travel) : Travel :=
  ⟨b.place, a.rapid + b.rapid, a.cut + b.cut⟩

/-- The length of a way. -/
def length (travel : Travel) : ℝ :=
  travel.rapid + travel.cut

/-- A machine after one more move. -/
noncomputable def move (travel : Travel) (motion : Motion) (target : Point ℝ) : Travel :=
  match motion with
  | .rapid => ⟨target, travel.rapid + travel.place.distance target, travel.cut⟩
  | .cut => ⟨target, travel.rapid, travel.cut + travel.place.distance target⟩

/-- A machine after one more line. -/
noncomputable def step (travel : Travel) (line : List Char) : Travel :=
  (motion? (code line)).elim travel fun motion =>
    travel.move motion
      ⟨(given? 'X' (code line)).getD travel.place.x,
        (given? 'Y' (code line)).getD travel.place.y⟩

/-- A machine after some text, its lines one after the other. -/
noncomputable def run (travel : Travel) (program : List Char) : Travel :=
  (Text.lines program).foldl step travel

/-- What every line of a program preserves, the program does. -/
theorem run_induction (travel : Travel) {motive : Travel → Prop} {program : List Char}
    (hstep : ∀ line ∈ Text.lines program, ∀ later, motive later → motive (step later line))
    (h : motive travel) : motive (travel.run program) := by
  rw [run]
  generalize Text.lines program = lines at hstep
  induction lines generalizing travel with
  | nil => exact h
  | cons line lines ih =>
    obtain ⟨hline, hlines⟩ := List.forall_mem_cons.mp hstep
    exact ih (travel.step line) (hline travel h) hlines

/-! ## The estimator's machine -/

/-- The estimator's machine on its way. -/
noncomputable def progress (setup : Setup Unrounded) (travel : Travel) :
    Progress Unrounded where
  position := ⟨.finite travel.place.x, .finite travel.place.y⟩
  estimate :=
    ⟨.finite travel.rapid, .finite travel.cut, .finite (timeAt travel.rapid setup.rapidFeed),
    .finite (timeAt travel.cut setup.cutFeed)⟩

section Machine

variable (setup : Setup Unrounded) (travel : Travel)

theorem distance_finite (p q : Point ℝ) :
    Point.distance ⟨.finite p.x, .finite p.y⟩ ⟨.finite q.x, .finite q.y⟩ =
      Unrounded.finite (p.distance q) := by
  have hsquares : 0 ≤ (p.x - q.x) * (p.x - q.x) + (p.y - q.y) * (p.y - q.y) :=
    add_nonneg (mul_self_nonneg _) (mul_self_nonneg _)
  simp only [Point.distance, Unrounded.finite_sub, Unrounded.finite_mul, Unrounded.finite_add]
  exact Unrounded.sqrt_finite hsquares

theorem progress_rest (place : Point ℝ) :
    (rest place).progress setup = ⟨⟨.finite place.x, .finite place.y⟩, .zero⟩ := by
  simp only [progress, rest, Estimate.zero, Unrounded.zero_eq, timeAt_zero]

theorem progress_rest_zero : (rest ⟨0, 0⟩).progress setup = .start := by
  rw [progress_rest, Progress.start, Point.origin, Unrounded.zero_eq]

theorem progress_move (motion : Motion) (target : Point ℝ) :
    (travel.progress setup).move setup motion ⟨.finite target.x, .finite target.y⟩ =
      (travel.move motion target).progress setup := by
  cases motion with
  | rapid | cut =>
    simp only [Progress.move, progress, Estimate.addMove, distance_finite, addSeconds_finite,
      Unrounded.finite_add, move]

theorem progress_step (line : List Char) :
    (travel.progress setup).step setup line = (travel.step line).progress setup := by
  rw [Progress.step, step]
  cases motion? (code line) with
  | none => rfl
  | some motion =>
    dsimp only [Option.elim_some]
    rw [← progress_move]
    simp only [progress, getD_axis?]

/-- The estimator's machine goes along with the travel. -/
theorem progress_run (program : List Char) :
    (travel.progress setup).run setup program = (travel.run program).progress setup := by
  rw [Progress.run, run]
  induction Text.lines program generalizing travel with
  | nil => rfl
  | cons line lines ih => rw [List.foldl_cons, List.foldl_cons, progress_step, ih]

end Machine

/-! ## What a way adds -/

theorem distance_eq_dist (p q : Point ℝ) :
    p.distance q = dist (⟨p.x, p.y⟩ : ℂ) ⟨q.x, q.y⟩ := by
  rw [Complex.dist_eq_re_im, Point.distance_eq]

theorem distance_from_zero (p : Point ℝ) : Point.distance ⟨0, 0⟩ p = √(p.x ^ 2 + p.y ^ 2) := by
  rw [Point.distance_eq, zero_sub, zero_sub, neg_sq, neg_sq]

theorem distance_nonneg (p q : Point ℝ) : 0 ≤ p.distance q :=
  Real.sqrt_nonneg _

/-- One way adds to the lengths of another, by no less than the straight line between
their ends. -/
structure IsPrior (a b : Travel) : Prop where
  rapid_le : a.rapid ≤ b.rapid
  cut_le : a.cut ≤ b.cut
  distance_le : a.place.distance b.place ≤ b.length - a.length

theorem IsPrior.refl (a : Travel) : a.IsPrior a := by
  refine ⟨le_refl _, le_refl _, ?_⟩
  rw [distance_eq_dist, dist_self, sub_self]

theorem IsPrior.trans {a b c : Travel} (hab : a.IsPrior b) (hbc : b.IsPrior c) :
    a.IsPrior c where
  rapid_le := hab.rapid_le.trans hbc.rapid_le
  cut_le := hab.cut_le.trans hbc.cut_le
  distance_le := by
    have hfirst := hab.distance_le
    have hsecond := hbc.distance_le
    rw [distance_eq_dist] at hfirst hsecond ⊢
    calc dist (⟨a.place.x, a.place.y⟩ : ℂ) ⟨c.place.x, c.place.y⟩
        ≤ dist (⟨a.place.x, a.place.y⟩ : ℂ) ⟨b.place.x, b.place.y⟩ +
          dist (⟨b.place.x, b.place.y⟩ : ℂ) ⟨c.place.x, c.place.y⟩ := dist_triangle _ _ _
      _ ≤ (b.length - a.length) + (c.length - b.length) := add_le_add hfirst hsecond
      _ = c.length - a.length := by ring

section Laws

variable (travel : Travel)

theorem isPrior_move (motion : Motion) (target : Point ℝ) :
    travel.IsPrior (travel.move motion target) := by
  have hdistance := distance_nonneg travel.place target
  cases motion with
  | rapid | cut =>
    refine ⟨?_, ?_, ?_⟩
    all_goals
      simp only [move, length]
      linarith

/-- A line only adds to the lengths. -/
theorem isPrior_step (line : List Char) : travel.IsPrior (travel.step line) := by
  rw [step]
  cases motion? (code line) with
  | none => exact .refl travel
  | some motion => exact travel.isPrior_move motion _

/-- A program only adds to the lengths. -/
theorem isPrior_run (program : List Char) : travel.IsPrior (travel.run program) :=
  travel.run_induction (fun line _ later h => h.trans (later.isPrior_step line)) (.refl travel)

/-! ## Ways after others -/

theorem andThen_rest : travel.andThen (rest travel.place) = travel := by
  rw [andThen, rest, add_zero, add_zero]

theorem step_andThen (next : Travel) (line : List Char) :
    (travel.andThen next).step line = travel.andThen (next.step line) := by
  rw [step, step]
  cases motion? (code line) with
  | none => rfl
  | some motion =>
    cases motion with
    | rapid | cut => simp only [Option.elim_some, andThen, move, add_assoc]

theorem run_andThen (next : Travel) (program : List Char) :
    (travel.andThen next).run program = travel.andThen (next.run program) := by
  rw [run, run]
  induction Text.lines program generalizing next with
  | nil => rfl
  | cons line lines ih => rw [List.foldl_cons, List.foldl_cons, step_andThen, ih]

/-- What a program adds depends on the place where it starts, and not on the way that
leads there. -/
theorem run_eq_andThen (program : List Char) :
    travel.run program = travel.andThen ((rest travel.place).run program) := by
  rw [← run_andThen, andThen_rest]

/-! ## Coordinates that are kept -/

theorem x_step_of_lacks {line : List Char} (h : given? 'X' (code line) = none) :
    (travel.step line).place.x = travel.place.x := by
  rw [step, h]
  cases motion? (code line) with
  | none => rfl
  | some motion => cases motion <;> rfl

theorem y_step_of_lacks {line : List Char} (h : given? 'Y' (code line) = none) :
    (travel.step line).place.y = travel.place.y := by
  rw [step, h]
  cases motion? (code line) with
  | none => rfl
  | some motion => cases motion <;> rfl

theorem x_run_of_lacks {program : List Char}
    (h : ∀ line ∈ Text.lines program, given? 'X' (code line) = none) :
    (travel.run program).place.x = travel.place.x :=
  travel.run_induction (motive := fun later => later.place.x = travel.place.x)
    (fun line hline later hlater => (later.x_step_of_lacks (h line hline)).trans hlater) rfl

theorem y_run_of_lacks {program : List Char}
    (h : ∀ line ∈ Text.lines program, given? 'Y' (code line) = none) :
    (travel.run program).place.y = travel.place.y :=
  travel.run_induction (motive := fun later => later.place.y = travel.place.y)
    (fun line hline later hlater => (later.y_step_of_lacks (h line hline)).trans hlater) rfl

end Laws

end Travel

/-! ## Estimates -/

section Estimates

variable {α : Type} [Written α]

/-- Two estimates together. -/
def Estimate.plus (a b : Estimate α) : Estimate α :=
  ⟨a.rapidDistance + b.rapidDistance, a.cutDistance + b.cutDistance,
    a.rapidSeconds + b.rapidSeconds, a.cutSeconds + b.cutSeconds⟩

/-- Where a program leaves a machine that starts at the origin. -/
def stop (setup : Setup α) (program : List Char) : Point α :=
  (Progress.run setup .start program).position

/-- The estimate of a program for a machine that starts at a place. -/
def estimateFrom (setup : Setup α) (place : Point α) (program : List Char) : Estimate α :=
  (Progress.run setup ⟨place, .zero⟩ program).estimate

end Estimates

namespace Travel

variable (setup : Setup Unrounded) (travel : Travel)

/-- The way of a program from the origin. -/
noncomputable def whole (program : List Char) : Travel :=
  (rest ⟨0, 0⟩).run program

theorem run_start (program : List Char) :
    Progress.run setup .start program = (whole program).progress setup := by
  rw [← progress_rest_zero, progress_run, whole]

/-- The lengths from the origin add up to the straight line at least. -/
theorem sqrt_le_length_whole (program : List Char) :
    √((whole program).place.x ^ 2 + (whole program).place.y ^ 2) ≤
      (whole program).rapid + (whole program).cut := by
  have hprior : (rest ⟨0, 0⟩).IsPrior (whole program) := isPrior_run _ program
  have hdistance := hprior.distance_le
  have hlength : (rest ⟨0, 0⟩).length = 0 := add_zero 0
  rw [hlength, sub_zero] at hdistance
  rw [← distance_from_zero]
  exact hdistance

/-! ### Seams -/

variable {a b : List Char} (ha : a.getLast? = some '\n')

include ha in
theorem run_seam : Progress.run setup .start (a ++ b) = ((whole a).run b).progress setup := by
  have hends : ∀ c ∈ a.getLast?, c = '\n' := by
    intro c hc
    exact (Option.some.inj (ha.symm.trans hc)).symm
  rw [Progress.run_append setup _ hends, run_start, progress_run]

theorem run_from_seam :
    Progress.run setup ⟨stop setup a, .zero⟩ b =
      ((rest (whole a).place).run b).progress setup := by
  rw [← progress_run, progress_rest, stop, run_start]
  rfl

theorem estimate_progress_andThen (travel next : Travel) :
    ((travel.andThen next).progress setup).estimate =
      (travel.progress setup).estimate.plus (next.progress setup).estimate := by
  simp only [progress, andThen, Estimate.plus, timeAt_add, Unrounded.finite_add]

include ha in
/-- What follows a seam adds what it adds from there. -/
theorem estimate_append :
    estimate setup (a ++ b) =
      (estimate setup a).plus (estimateFrom setup (stop setup a) b) := by
  rw [estimate, run_seam setup ha, estimate, run_start, estimateFrom, run_from_seam,
    run_eq_andThen, estimate_progress_andThen]

end Travel

/-- **Estimates are proportional to lengths, and additive**. Without rounding, and with
any setup: times are those of the lengths (`timeAt`), nothing is negative, and the lengths
add up to the straight line to the last place at least. If the setup is sensible, all
lengths take time. A program is estimated as one that starts it, and the rest from where
that ends; there, a coordinate that the rest does not give is that of the seam. -/
theorem estimate_additive (setup : Setup Unrounded) :
    (∀ program : List Char, ∃ x y rapid cut : ℝ,
      stop setup program = ⟨.finite x, .finite y⟩ ∧
        estimate setup program =
          ⟨.finite rapid, .finite cut, .finite (timeAt rapid setup.rapidFeed),
          .finite (timeAt cut setup.cutFeed)⟩ ∧
        (0 ≤ rapid ∧ 0 ≤ cut ∧ 0 ≤ timeAt rapid setup.rapidFeed ∧
          0 ≤ timeAt cut setup.cutFeed) ∧
        √(x ^ 2 + y ^ 2) ≤ rapid + cut) ∧
      (setup.check = .ok () → ∃ rapidRate cutRate : ℝ, 0 < rapidRate ∧ 0 < cutRate ∧
        setup.rapidFeed = .finite rapidRate ∧ setup.cutFeed = .finite cutRate ∧
          ∀ length, timeAt length setup.rapidFeed = 60 * length / rapidRate ∧
            timeAt length setup.cutFeed = 60 * length / cutRate) ∧
      ∀ a b : List Char, a.getLast? = some '\n' →
        estimate setup (a ++ b) =
          (estimate setup a).plus (estimateFrom setup (stop setup a) b) ∧
          ((∀ line ∈ Text.lines b, axis? 'X' (code line) = (none : Option Unrounded)) →
            (stop setup (a ++ b)).x = (stop setup a).x) ∧
          ((∀ line ∈ Text.lines b, axis? 'Y' (code line) = (none : Option Unrounded)) →
            (stop setup (a ++ b)).y = (stop setup a).y) := by
  refine ⟨fun program => ?_, fun hcheck => ?_, fun a b ha => ?_⟩
  -- the way without rounding is what is estimated
  · let way := Travel.whole program
    have hprior : (Travel.rest ⟨0, 0⟩).IsPrior way := Travel.isPrior_run _ program
    have hrapid : 0 ≤ way.rapid := hprior.rapid_le
    have hcut : 0 ≤ way.cut := hprior.cut_le
    refine ⟨way.place.x, way.place.y, way.rapid, way.cut, ?_, ?_, ?_,
      Travel.sqrt_le_length_whole program⟩
    · rw [stop, Travel.run_start]
      rfl
    · rw [estimate, Travel.run_start]
      rfl
    · exact ⟨hrapid, hcut, timeAt_nonneg _ hrapid, timeAt_nonneg _ hcut⟩
  -- the feeds of a sensible setup are rates
  · have hsensible := Setup.check_eq_ok_iff.mp hcheck
    obtain ⟨rapidRate, hrapidRate, hrapidFeed⟩ :=
      Unrounded.isFinite_and_pos_iff.mp hsensible.rapidFeed
    obtain ⟨cutRate, hcutRate, hcutFeed⟩ := Unrounded.isFinite_and_pos_iff.mp hsensible.cutFeed
    refine ⟨rapidRate, cutRate, hrapidRate, hcutRate, hrapidFeed, hcutFeed, fun length => ?_⟩
    rw [hrapidFeed, hcutFeed]
    exact ⟨timeAt_of_pos hrapidRate length, timeAt_of_pos hcutRate length⟩
  -- the seam, and the coordinates that are kept over it
  · refine ⟨Travel.estimate_append setup ha, fun hlacks => ?_, fun hlacks => ?_⟩
    · have hkept : ((Travel.whole a).run b).place.x = (Travel.whole a).place.x :=
        Travel.x_run_of_lacks _ fun line hline => given?_eq_none_iff.mpr (hlacks line hline)
      rw [stop, Travel.run_seam setup ha, stop, Travel.run_start]
      exact congrArg Unrounded.finite hkept
    · have hkept : ((Travel.whole a).run b).place.y = (Travel.whole a).place.y :=
        Travel.y_run_of_lacks _ fun line hline => given?_eq_none_iff.mpr (hlacks line hline)
      rw [stop, Travel.run_seam setup ha, stop, Travel.run_start]
      exact congrArg Unrounded.finite hkept

/-- The default setup is sensible without rounding as well. -/
theorem check_default : (Setup.default : Setup Unrounded).check = .ok () := by
  have hpos : ∀ rate : ℝ, 0 < rate →
      Scalar.isFinite (Unrounded.finite rate) = true ∧ 0.0 < Unrounded.finite rate :=
    fun rate h => Unrounded.isFinite_and_pos_iff.mpr ⟨rate, h, rfl⟩
  have hscale : Scalar.same (1.0 : Unrounded) 0.0 = false := by
    have hone : (1.0 : Unrounded) = .finite 1 := by
      rw [Unrounded.ofScientific_eq]
      norm_num
    simp [Scalar.same, hone, Unrounded.zero_eq]
  exact Setup.check_eq_ok_iff.mpr
    ⟨hpos _ (by norm_num), hpos _ (by norm_num), rfl, rfl, rfl, ⟨rfl, hscale⟩, by decide⟩

/-- Out along the longest side of a right triangle, and back along another: the cut keeps
the coordinate that it does not give. -/
theorem estimate_additive_triangle :
    (Setup.default : Setup Unrounded).check = .ok () ∧
      "G0 X3 Y4\n".toList.getLast? = some '\n' ∧
      ∃ rapidRate cutRate : ℝ, (Setup.default : Setup Unrounded).rapidFeed = .finite rapidRate ∧
        (Setup.default : Setup Unrounded).cutFeed = .finite cutRate ∧
        estimate (.default : Setup Unrounded) ("G0 X3 Y4\n".toList ++ "G1 Y0".toList) =
          ⟨.finite 5, .finite 4, .finite (60 * 5 / rapidRate), .finite (60 * 4 / cutRate)⟩ ∧
        (stop (.default : Setup Unrounded) ("G0 X3 Y4\n".toList ++ "G1 Y0".toList)).x =
          .finite 3 := by
  have hx : given? 'X' "G0 X3 Y4".toList = some 3 := by
    show some ((1 * (3 : ℕ)) * 10 ^ (0 : ℤ) : ℝ) = some 3
    norm_num
  have hy : given? 'Y' "G0 X3 Y4".toList = some 4 := by
    show some ((1 * (4 : ℕ)) * 10 ^ (0 : ℤ) : ℝ) = some 4
    norm_num
  have hback : given? 'Y' "G1 Y0".toList = some 0 := by
    show some ((1 * (0 : ℕ)) * 10 ^ (0 : ℤ) : ℝ) = some 0
    norm_num
  -- three, four, five
  have hout : Travel.whole "G0 X3 Y4\n".toList = ⟨⟨3, 4⟩, 5, 0⟩ := by
    have hmove : Travel.whole "G0 X3 Y4\n".toList = (Travel.rest ⟨0, 0⟩).move .rapid
      ⟨(given? 'X' "G0 X3 Y4".toList).getD 0, (given? 'Y' "G0 X3 Y4".toList).getD 0⟩ := rfl
    have hlength : Point.distance ⟨0, 0⟩ (⟨3, 4⟩ : Point ℝ) = 5 := by
      rw [Travel.distance_from_zero, Real.sqrt_eq_iff_mul_self_eq_of_pos] <;> norm_num
    rw [hmove, hx, hy]
    simp [Travel.move, Travel.rest, hlength]
  -- back to the axis, with the first coordinate kept
  have hcut : (Travel.rest ⟨3, 4⟩).run "G1 Y0".toList = ⟨⟨3, 0⟩, 0, 4⟩ := by
    have hmove : (Travel.rest ⟨3, 4⟩).run "G1 Y0".toList =
      (Travel.rest ⟨3, 4⟩).move .cut ⟨3, (given? 'Y' "G1 Y0".toList).getD 4⟩ := rfl
    have hlength : Point.distance ⟨3, 4⟩ (⟨3, 0⟩ : Point ℝ) = 4 := by
      simp only [Point.distance, Scalar.sqrt_eq]
      rw [Real.sqrt_eq_iff_mul_self_eq_of_pos] <;> norm_num
    rw [hmove, hback]
    simp [Travel.move, Travel.rest, hlength]
  have hlacks : ∀ line ∈ Text.lines "G1 Y0".toList,
      axis? 'X' (code line) = (none : Option Unrounded) := by
    intro line hline
    rw [List.mem_singleton.mp hline]
    rfl
  obtain ⟨-, htimed, hseam⟩ := estimate_additive (.default : Setup Unrounded)
  obtain ⟨hplus, hkept, -⟩ := hseam "G0 X3 Y4\n".toList "G1 Y0".toList rfl
  obtain ⟨rapidRate, cutRate, -, -, hrapidFeed, hcutFeed, htimes⟩ := htimed check_default
  refine ⟨check_default, rfl, rapidRate, cutRate, hrapidFeed, hcutFeed, ?_, ?_⟩
  · rw [hplus, estimate, estimateFrom, Travel.run_from_seam, Travel.run_start, hout, hcut,
      ← Travel.estimate_progress_andThen]
    simp only [Travel.progress, Travel.andThen, add_zero, zero_add, htimes]
  · rw [hkept hlacks, stop, Travel.run_start, hout]
    rfl

end Kerf.Program
