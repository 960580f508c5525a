import Mathlib.Data.List.Basic
import Mathlib.Data.List.TakeWhile
import Kerf.Color.Reading
import Kerf.Proofs.Text.Case
import Kerf.Proofs.Text.Classes
import Kerf.Proofs.Text.Spacing

/-!
# The functional notation of colors

A color in functional notation is a keyword, and in parentheses three channels and perhaps
an opacity, with commas between them and blanks around all but the keyword.

- `IsFunctional`: the texts that arguments are written as. The digits of a channel may be
  those of any script.
- `fitFunctional?_eq_some_iff`: the notation fits where such a text starts, whatever
  follows it.
- `findFunctional?_eq_some_iff`: it is found at the first such place.
-/

namespace Kerf.Color

/-! ## The notation -/

/-- The texts that some parts are written as, with blanks in front of each or without. -/
inductive IsLoose : List (List Char) → List Char → Prop
  | nil : IsLoose [] []
  | cons {run part : List Char} {parts : List (List Char)} {text : List Char}
    (hrun : ∀ c ∈ run, Text.isBlank c = true) (h : IsLoose parts text) :
    IsLoose (part :: parts) (run ++ (part ++ text))

/-- What an opacity is written with. -/
def isOpacityChar (c : Char) : Bool :=
  Text.isDigit c || c == '.'

/-- What stands behind the keyword. -/
def Arguments.parts : Arguments → List (List Char)
  | ⟨red, green, blue, none⟩ => [['('], red, [','], green, [','], blue, [')']]
  | ⟨red, green, blue, some opacity⟩ =>
    [['('], red, [','], green, [','], blue, [','], opacity, [')']]

/-- Channels are digits, and an opacity is digits and points. -/
structure Arguments.IsPlain (arguments : Arguments) : Prop where
  channel : ∀ run ∈ [arguments.red, arguments.green, arguments.blue],
    run ≠ [] ∧ ∀ c ∈ run, Text.isDigit c = true
  opacity : ∀ run ∈ arguments.opacity, run ≠ [] ∧ ∀ c ∈ run, isOpacityChar c = true

instance (arguments : Arguments) : Decidable arguments.IsPlain :=
  decidable_of_iff
    (([arguments.red, arguments.green, arguments.blue].all fun run =>
      !run.isEmpty && run.all Text.isDigit) &&
      arguments.opacity.all fun run => !run.isEmpty && run.all isOpacityChar)
    (by
      simp only [Bool.and_eq_true, List.all_eq_true, Option.all_eq_true, Bool.not_eq_true',
        List.isEmpty_eq_false_iff]
      exact ⟨fun h => ⟨h.1, h.2⟩, fun h => ⟨h.channel, h.opacity⟩⟩)

/-- Whether a text is one of the two keywords. -/
def IsKeyword (text : List Char) : Prop :=
  Text.sameIgnoringCase text ['r', 'g', 'b'] = true ∨
    Text.sameIgnoringCase text (['r', 'g', 'b'] ++ ['a']) = true

/-- The texts that arguments are written as in functional notation. -/
inductive IsFunctional (arguments : Arguments) : List Char → Prop
  | intro {keyword text : List Char} (hkeyword : IsKeyword keyword) (hplain : arguments.IsPlain)
    (htext : IsLoose arguments.parts text) : IsFunctional arguments (keyword ++ text)

/-! ## Taking parts off -/

/-- Behind blanks, the next character is the mark or something else. -/
theorem afterMark?_run_cons {run : List Char}
    (hrun : ∀ c ∈ run, Text.isBlank c = true) {c : Char} (hc : Text.isBlank c = false)
    (mark : Char) (rest : List Char) :
    afterMark? mark (run ++ c :: rest) = if c = mark then some rest else none := by
  have hstart : Text.trimStart (run ++ c :: rest) = c :: rest := by
    refine Text.dropWhile_run_append hrun ?_
    rintro _ ⟨⟩
    exact hc
  rw [afterMark?, hstart]

theorem afterMark?_eq_some_iff {mark : Char} (hmark : Text.isBlank mark = false)
    {text rest : List Char} :
    afterMark? mark text = some rest ↔
      ∃ run, (∀ c ∈ run, Text.isBlank c = true) ∧ text = run ++ mark :: rest := by
  constructor
  · intro h
    obtain ⟨run, hrun, htext⟩ := Text.exists_append_trimStart text
    rw [afterMark?] at h
    split at h
    · cases h
    · next c after hcons =>
      split at h
      · next hc =>
        cases h
        exact ⟨run, hrun, by rw [htext, hcons, hc]⟩
      · cases h
  · rintro ⟨run, hrun, rfl⟩
    rw [afterMark?_run_cons hrun hmark, if_pos rfl]

/-- A text starts with blanks and with a run of characters that ends there. -/
def StartsWithRun (isMember : Char → Bool) (text run rest : List Char) : Prop :=
  ∃ gap, (∀ c ∈ gap, Text.isBlank c = true) ∧ (run ≠ [] ∧ ∀ c ∈ run, isMember c = true) ∧
    (∀ c ∈ rest.head?, isMember c = false) ∧ text = gap ++ (run ++ rest)

theorem StartsWithRun.plain {isMember : Char → Bool} {text run rest : List Char}
    (h : StartsWithRun isMember text run rest) : run ≠ [] ∧ ∀ c ∈ run, isMember c = true := by
  obtain ⟨_, _, hrun, _⟩ := h
  exact hrun

section Runs

variable {isMember : Char → Bool} (hblank : ∀ c, Text.isBlank c = true → isMember c = false)

include hblank

/-- Such a run is what is taken off behind blanks, if anything is. -/
theorem takeRun_eq_some_iff {text run rest : List Char} :
    (if ((Text.trimStart text).takeWhile isMember).isEmpty = true then none
      else some ((Text.trimStart text).takeWhile isMember,
        (Text.trimStart text).dropWhile isMember)) = some (run, rest) ↔
      StartsWithRun isMember text run rest := by
  rw [Option.ite_none_left_eq_some, List.isEmpty_iff, Option.some_inj, Prod.mk.injEq]
  constructor
  · rintro ⟨hne, rfl, rfl⟩
    obtain ⟨gap, hgap, htext⟩ := Text.exists_append_trimStart text
    refine ⟨gap, hgap, ⟨hne, fun c hc => List.mem_takeWhile_imp hc⟩,
      Text.not_of_mem_head?_dropWhile, ?_⟩
    rw [List.takeWhile_append_dropWhile, ← htext]
  · rintro ⟨gap, hgap, ⟨hne, hrun⟩, hrest, rfl⟩
    -- a member of the run is no blank, so the blanks stop where the run starts
    have hstart : Text.trimStart (gap ++ (run ++ rest)) = run ++ rest := by
      refine Text.dropWhile_run_append hgap fun c hc => ?_
      rw [List.head?_append_of_ne_nil _ hne] at hc
      have hmember := hrun c (List.mem_of_mem_head? hc)
      rw [Bool.eq_false_iff]
      intro hc
      rw [hblank c hc] at hmember
      cases hmember
    have htake := Text.takeWhile_run_append hrun hrest
    rw [hstart, htake]
    exact ⟨hne, rfl, Text.dropWhile_run_append hrun hrest⟩

end Runs

theorem takeArgument?_eq_some_iff {text run rest : List Char} :
    takeArgument? text = some (run, rest) ↔ StartsWithRun Text.isDigit text run rest :=
  takeRun_eq_some_iff fun _ => Text.isAnyDigit_of_isBlank

theorem isOpacityChar_of_isBlank {c : Char} (h : Text.isBlank c = true) :
    isOpacityChar c = false := by
  rw [isOpacityChar, Text.isAnyDigit_of_isBlank h, Bool.false_or, beq_eq_false_iff_ne]
  rintro rfl
  cases h

theorem takeOpacity?_eq_some_iff {text run rest : List Char} :
    takeOpacity? text = some (run, rest) ↔ StartsWithRun isOpacityChar text run rest :=
  takeRun_eq_some_iff fun _ => isOpacityChar_of_isBlank

/-! ## Marks with what follows them -/

section Fields

variable {isMember : Char → Bool} {mark : Char} {run : List Char} {parts : List (List Char)}

/-- In front of a mark, a run ends. -/
theorem IsLoose.isMember_of_mem_head? (hblank : ∀ c, Text.isBlank c = true → isMember c = false)
    (hmark : isMember mark = false) {text : List Char} (h : IsLoose ([mark] :: parts) text)
    (after : List Char) : ∀ c ∈ (text ++ after).head?, isMember c = false := by
  cases h with
  | @cons gap _ _ text hgap _ =>
    cases gap with
    | nil =>
      rintro _ ⟨⟩
      exact hmark
    | cons c gap =>
      rintro _ ⟨⟩
      exact hblank c (hgap c List.mem_cons_self)

/-- A mark and the run behind it are taken off parts that they start. -/
theorem IsLoose.exists_field (hmark : Text.isBlank mark = false)
    (hblank : ∀ c, Text.isBlank c = true → isMember c = false)
    (hrun : run ≠ [] ∧ ∀ c ∈ run, isMember c = true) {next : Char}
    (hnext : isMember next = false) {text : List Char}
    (h : IsLoose ([mark] :: run :: [next] :: parts) text) (after : List Char) :
    ∃ behind rest, afterMark? mark (text ++ after) = some behind ∧
      StartsWithRun isMember behind run (rest ++ after) ∧ IsLoose ([next] :: parts) rest := by
  cases h with
  | @cons gap _ _ text hgap h =>
    cases h with
    | @cons inner _ _ rest hinner hrest =>
      refine ⟨inner ++ (run ++ (rest ++ after)), rest, ?_, ?_, hrest⟩
      · refine (afterMark?_eq_some_iff hmark).mpr ⟨gap, hgap, ?_⟩
        simp only [List.append_assoc, List.cons_append, List.nil_append]
      · exact ⟨inner, hinner, hrun, hrest.isMember_of_mem_head? hblank hnext after, rfl⟩

/-- A mark and the run behind it that are taken off are such parts. -/
theorem exists_isLoose_of_field (hmark : Text.isBlank mark = false)
    {text behind rest after : List Char} (hbehind : afterMark? mark text = some behind)
    (hrun : StartsWithRun isMember behind run (rest ++ after)) (hrest : IsLoose parts rest) :
    ∃ front, text = front ++ after ∧ IsLoose ([mark] :: run :: parts) front := by
  obtain ⟨gap, hgap, rfl⟩ := (afterMark?_eq_some_iff hmark).mp hbehind
  obtain ⟨inner, hinner, -, -, rfl⟩ := hrun
  refine ⟨_, ?_, .cons hgap (.cons hinner hrest)⟩
  simp only [List.append_assoc, List.cons_append, List.nil_append]

end Fields

/-- The closing parenthesis alone. -/
theorem exists_isLoose_of_close {text after : List Char}
    (h : afterMark? ')' text = some after) :
    ∃ front, text = front ++ after ∧ IsLoose [[')']] front := by
  obtain ⟨gap, hgap, rfl⟩ := (@afterMark?_eq_some_iff ')' rfl _ _).mp h
  exact ⟨gap ++ ([')'] ++ []), by simp, .cons hgap .nil⟩

theorem IsLoose.afterMark?_close {text : List Char} (h : IsLoose [[')']] text)
    (after : List Char) (mark : Char) :
    afterMark? mark (text ++ after) = if ')' = mark then some after else none := by
  cases h with
  | @cons gap _ _ text hgap h =>
    cases h
    rw [← afterMark?_run_cons hgap rfl]
    simp only [List.append_assoc, List.cons_append, List.nil_append]

/-! ## Keywords -/

/-- Behind the letters of the shorter keyword may stand the last one of the longer. -/
theorem exists_keyword_of_after {text behind : List Char}
    (h : Text.afterIgnoringCase? ['r', 'g', 'b'] text = some behind) :
    ∃ keyword, IsKeyword keyword ∧
      text = keyword ++ (Text.afterIgnoringCase? ['a'] behind).getD behind := by
  obtain ⟨letters, hletters, rfl⟩ := Text.afterIgnoringCase?_eq_some_iff.mp h
  cases hlast : Text.afterIgnoringCase? ['a'] behind with
  | none => exact ⟨letters, .inl hletters, rfl⟩
  | some rest =>
    obtain ⟨last, hsame, rfl⟩ := Text.afterIgnoringCase?_eq_some_iff.mp hlast
    refine ⟨letters ++ last, .inr ?_, (List.append_assoc ..).symm⟩
    exact Text.sameIgnoringCase_append_iff.mpr ⟨letters, last, rfl, hletters, hsame⟩

theorem exists_after_keyword {keyword : List Char} (h : IsKeyword keyword) {rest : List Char}
    (hrest : ∀ c ∈ rest.head?, c.toLower ≠ 'a') :
    ∃ behind, Text.afterIgnoringCase? ['r', 'g', 'b'] (keyword ++ rest) = some behind ∧
      (Text.afterIgnoringCase? ['a'] behind).getD behind = rest := by
  rcases h with hletters | hletters
  · refine ⟨rest, Text.afterIgnoringCase?_eq_some_iff.mpr ⟨keyword, hletters, rfl⟩, ?_⟩
    cases rest with
    | nil => rfl
    | cons c rest =>
      have hc : 'a'.toLower ≠ c.toLower := (hrest c rfl).symm
      rw [Text.afterIgnoringCase?, if_neg hc, Option.getD_none]
  · obtain ⟨letters, last, rfl, hletters, hsame⟩ := Text.sameIgnoringCase_append_iff.mp hletters
    have hlast :=
      Text.afterIgnoringCase?_eq_some_iff.mpr ⟨last, hsame, (rfl : last ++ rest = _)⟩
    refine ⟨last ++ rest, ?_, ?_⟩
    · exact Text.afterIgnoringCase?_eq_some_iff.mpr ⟨letters, hletters, List.append_assoc ..⟩
    · rw [hlast, Option.getD_some]

/-! ## Where the notation fits -/

theorem exists_isFunctional_of_fitFunctional? {text : List Char} {arguments : Arguments}
    (h : fitFunctional? text = some arguments) :
    ∃ form after, text = form ++ after ∧ IsFunctional arguments form := by
  simp only [fitFunctional?, Option.bind_eq_bind, Option.bind_eq_some_iff] at h
  obtain ⟨behind, hkeyword, _, hopen, ⟨red, _⟩, hred, _, hcomma, ⟨green, _⟩, hgreen, _, hcomma',
    ⟨blue, _⟩, hblue, hend⟩ := h
  obtain ⟨keyword, hword, htext⟩ := exists_keyword_of_after hkeyword
  rw [takeArgument?_eq_some_iff] at hred hgreen hblue
  dsimp only at hcomma hcomma' hend
  have hchannels : ∀ run ∈ [red, green, blue], run ≠ [] ∧ ∀ c ∈ run, Text.isDigit c = true := by
    simp only [List.forall_mem_cons]
    exact ⟨hred.plain, hgreen.plain, hblue.plain, List.forall_mem_nil _⟩
  -- the parts are put together from the last one on
  split at hend
  · obtain ⟨after, hclose, heq⟩ := Option.bind_eq_some_iff.mp hend
    cases heq
    obtain ⟨tail, rfl, htail⟩ := exists_isLoose_of_close hclose
    obtain ⟨tail, rfl, htail⟩ := exists_isLoose_of_field rfl hcomma' hblue htail
    obtain ⟨tail, rfl, htail⟩ := exists_isLoose_of_field rfl hcomma hgreen htail
    obtain ⟨tail, hopen, htail⟩ := exists_isLoose_of_field rfl hopen hred htail
    refine ⟨keyword ++ tail, after, by rw [htext, hopen, List.append_assoc],
      .intro hword ?_ htail⟩
    exact ⟨hchannels, by simp⟩
  · next hcomma'' =>
    -- three arguments, an opacity and the bracket
    obtain ⟨⟨opacity, _⟩, hopacity, hend⟩ := Option.bind_eq_some_iff.mp hend
    -- three arguments and the bracket
    obtain ⟨after, hclose, heq⟩ := Option.bind_eq_some_iff.mp hend
    cases heq
    rw [takeOpacity?_eq_some_iff] at hopacity
    obtain ⟨tail, rfl, htail⟩ := exists_isLoose_of_close hclose
    obtain ⟨tail, rfl, htail⟩ := exists_isLoose_of_field rfl hcomma'' hopacity htail
    obtain ⟨tail, rfl, htail⟩ := exists_isLoose_of_field rfl hcomma' hblue htail
    obtain ⟨tail, rfl, htail⟩ := exists_isLoose_of_field rfl hcomma hgreen htail
    obtain ⟨tail, hopen, htail⟩ := exists_isLoose_of_field rfl hopen hred htail
    refine ⟨keyword ++ tail, after, by rw [htext, hopen, List.append_assoc],
      .intro hword ?_ htail⟩
    refine ⟨hchannels, ?_⟩
    rintro _ ⟨⟩
    exact hopacity.plain

/-- What stands behind a keyword does not go on with it. -/
theorem Arguments.toLower_ne_of_mem_head? (arguments : Arguments) {text : List Char}
    (h : IsLoose arguments.parts text) (after : List Char) :
    ∀ c ∈ (text ++ after).head?, c.toLower ≠ 'a' := by
  have hblank : ∀ c, Text.isBlank c = true → (c.toLower == 'a') = false := by
    intro c hc
    rw [Text.toLower_of_isBlank hc, beq_eq_false_iff_ne]
    rintro rfl
    cases hc
  intro c hc
  rw [← beq_eq_false_iff_ne]
  obtain ⟨red, green, blue, _ | opacity⟩ := arguments
  · exact h.isMember_of_mem_head? hblank rfl after c hc
  · exact h.isMember_of_mem_head? hblank rfl after c hc

/-- The notation fits where arguments are written in it. -/
theorem fitFunctional?_append {form : List Char} {arguments : Arguments}
    (h : IsFunctional arguments form) (after : List Char) :
    fitFunctional? (form ++ after) = some arguments := by
  obtain ⟨hword, hplain, hloose⟩ := h
  next keyword text =>
  -- the longer keyword is not met where the shorter one is written
  obtain ⟨behind, hkeyword, hbehind⟩ :=
    exists_after_keyword hword (arguments.toLower_ne_of_mem_head? hloose after)
  rw [← List.append_assoc] at hkeyword
  have hdigit : ∀ c, Text.isBlank c = true → Text.isDigit c = false :=
    fun _ => Text.isAnyDigit_of_isBlank
  obtain ⟨red, green, blue, opacity⟩ := arguments
  obtain ⟨hchannels, hopacity⟩ := hplain
  simp only [List.forall_mem_cons] at hchannels
  obtain ⟨hred, hgreen, hblue, -⟩ := hchannels
  simp only [fitFunctional?, Option.bind_eq_bind, Option.bind_eq_some_iff]
  -- each field is met where it is written, and what is behind it is met next
  cases opacity with
  | none =>
    obtain ⟨_, tail, hopen, hr, hloose⟩ := hloose.exists_field rfl hdigit hred rfl after
    obtain ⟨_, tail', hcomma, hg, hloose⟩ := hloose.exists_field rfl hdigit hgreen rfl after
    obtain ⟨_, tail'', hcomma', hb, hloose⟩ := hloose.exists_field rfl hdigit hblue rfl after
    rw [← takeArgument?_eq_some_iff] at hr hg hb
    refine ⟨behind, hkeyword, _, hbehind ▸ hopen, (red, _), hr, _, hcomma, (green, _), hg, _,
      hcomma', (blue, _), hb, ?_⟩
    simp only [hloose.afterMark?_close after]
    rfl
  | some opacity =>
    obtain ⟨_, tail, hopen, hr, hloose⟩ := hloose.exists_field rfl hdigit hred rfl after
    obtain ⟨_, tail', hcomma, hg, hloose⟩ := hloose.exists_field rfl hdigit hgreen rfl after
    obtain ⟨_, tail'', hcomma', hb, hloose⟩ := hloose.exists_field rfl hdigit hblue rfl after
    obtain ⟨_, last, hcomma'', ho, hloose⟩ :=
      hloose.exists_field rfl (fun _ => isOpacityChar_of_isBlank)
        (hopacity opacity rfl) rfl after
    rw [← takeArgument?_eq_some_iff] at hr hg hb
    rw [← takeOpacity?_eq_some_iff] at ho
    refine ⟨behind, hkeyword, _, hbehind ▸ hopen, (red, _), hr, _, hcomma, (green, _), hg, _,
      hcomma', (blue, _), hb, ?_⟩
    simp only [hcomma'', ho, hloose.afterMark?_close after, Option.bind_some]
    rfl

/-- The notation fits where a text starts that is written in it, and nowhere else. -/
theorem fitFunctional?_eq_some_iff {text : List Char} {arguments : Arguments} :
    fitFunctional? text = some arguments ↔
      ∃ form after, text = form ++ after ∧ IsFunctional arguments form := by
  constructor
  · exact exists_isFunctional_of_fitFunctional?
  · rintro ⟨form, after, rfl, h⟩
    exact fitFunctional?_append h after

/-! ## The first place where it fits -/

/-- A text holds some arguments in functional notation, and none that start in front of them. -/
def IsFirst (arguments : Arguments) (text : List Char) : Prop :=
  ∃ before form after, text = before ++ (form ++ after) ∧ IsFunctional arguments form ∧
    ∀ earlier other behind found, text = earlier ++ (other ++ behind) →
      IsFunctional found other →
      before.length ≤ earlier.length

theorem IsFunctional.isFirst {arguments : Arguments} {form : List Char}
    (h : IsFunctional arguments form) : IsFirst arguments form :=
  ⟨[], form, [], by simp, h, fun _ _ _ _ _ _ => Nat.zero_le _⟩

/-- In functional notation there is at least the keyword. -/
theorem IsFunctional.ne_nil {arguments : Arguments} {form : List Char}
    (h : IsFunctional arguments form) : form ≠ [] := by
  obtain ⟨hword, -, -⟩ := h
  rcases hword with hletters | hletters
  · obtain ⟨c, rest, rfl, -⟩ := Text.sameIgnoringCase_cons_iff.mp hletters
    exact List.cons_ne_nil c _
  · obtain ⟨c, rest, rfl, -⟩ := Text.sameIgnoringCase_cons_iff.mp hletters
    exact List.cons_ne_nil c _

/-- What fits at the start of a text is the first form in it. -/
theorem isFirst_iff_of_fits {text : List Char} {arguments found : Arguments}
    (hfit : fitFunctional? text = some found) : IsFirst arguments text ↔ found = arguments := by
  constructor
  · rintro ⟨before, form, after, htext, hform, hfirst⟩
    obtain ⟨other, behind, hother, hfound⟩ := fitFunctional?_eq_some_iff.mp hfit
    -- nothing is in front of it, for what fits at the start would be earlier
    have hbefore : before = [] :=
      List.length_eq_zero_iff.mp (Nat.le_zero.mp (hfirst [] other behind found hother hfound))
    subst hbefore
    rw [fitFunctional?_eq_some_iff.mpr ⟨form, after, htext, hform⟩] at hfit
    exact (Option.some.inj hfit).symm
  · rintro rfl
    obtain ⟨form, after, htext, hform⟩ := fitFunctional?_eq_some_iff.mp hfit
    exact ⟨[], form, after, htext, hform, fun _ _ _ _ _ _ => Nat.zero_le _⟩

/-- If nothing fits at the start of a text, the first form in it is further on. -/
theorem isFirst_cons_iff_of_not_fits {c : Char} {text : List Char} {arguments : Arguments}
    (hfit : fitFunctional? (c :: text) = none) :
    IsFirst arguments (c :: text) ↔ IsFirst arguments text := by
  have hstart : ∀ {form after found}, c :: text = form ++ after → ¬IsFunctional found form := by
    intro form after found htext hform
    rw [fitFunctional?_eq_some_iff.mpr ⟨form, after, htext, hform⟩] at hfit
    cases hfit
  constructor
  · rintro ⟨before, form, after, htext, hform, hfirst⟩
    cases before with
    | nil => exact absurd hform (hstart htext)
    | cons d before =>
      refine ⟨before, form, after, (List.cons.inj htext).2, hform, ?_⟩
      intro earlier other behind found hother hfound
      have hlength :=
        hfirst (c :: earlier) other behind found (congrArg (List.cons c) hother) hfound
      exact Nat.le_of_succ_le_succ hlength
  · rintro ⟨before, form, after, rfl, hform, hfirst⟩
    refine ⟨c :: before, form, after, rfl, hform, ?_⟩
    intro earlier other behind found htext hother
    cases earlier with
    | nil => exact absurd hother (hstart htext)
    | cons d earlier =>
      exact Nat.succ_le_succ
        (hfirst earlier other behind found (List.cons.inj htext).2 hother)

theorem not_isFirst_nil (arguments : Arguments) : ¬IsFirst arguments [] := by
  rintro ⟨before, form, after, hnil, hform, -⟩
  have happend := (List.append_eq_nil_iff.mp hnil.symm).2
  exact hform.ne_nil (List.append_eq_nil_iff.mp happend).1

theorem findFunctional?_eq_some_iff {text : List Char} {arguments : Arguments} :
    findFunctional? text = some arguments ↔ IsFirst arguments text := by
  induction text with
  | nil => exact iff_of_false nofun (not_isFirst_nil arguments)
  | cons c text ih =>
    rw [findFunctional?]
    -- a form is looked for at the start, and further on if none fits there
    cases hfit : fitFunctional? (c :: text) with
    | none => exact ih.trans (isFirst_cons_iff_of_not_fits hfit).symm
    | some found => exact Option.some_inj.trans (isFirst_iff_of_fits hfit).symm

end Kerf.Color
