import Kerf.Conversion
import Kerf.Proofs.Program.Labels
import Kerf.Proofs.Program.Numbers
import Kerf.Proofs.Program.Validity
import Kerf.Proofs.Setup

/-!
# Converted drawings

A conversion succeeds exactly if the setup is sensible and the text is a drawing
(`ofText_eq_ok_iff`), and what it gives is the program for the outlines of the drawing,
whose labels have no line feeds.

- `valid_ofText_and_check_generate`: the program of a conversion always passes its check,
  as all programs do that are made with such labels.
- `holdsNumbers_ofText`: its heights, feeds and powers are numbers. Its coordinates are
  numbers exactly if those of all points are, once they are scaled and shifted.
- `not_forall_holdsNumbers_ofText`: they need not be, since a coordinate that is written
  as `NaN` is read as one.
-/

namespace Kerf.Conversion

open Program

variable {α : Type} [Written α]

theorem ofText_eq_ok_iff {setup : Setup α} {fineness : Fineness} {stamp text : List Char}
    {conversion : Conversion α} :
    ofText setup fineness stamp text = .ok conversion ↔
      setup.IsSensible ∧ ∃ outlines, Drawing.readText fineness text = .ok outlines ∧
        conversion = ofOutlines setup fineness stamp outlines := by
  unfold ofText
  -- the setup is checked first, whatever the text is
  rw [← Setup.check_eq_ok_iff]
  cases setup.check with
  | error cause => exact iff_of_false (by rintro ⟨⟩) (by rintro ⟨⟨⟩, _⟩)
  | ok =>
    rw [and_iff_right rfl]
    cases Drawing.readText (α := α) fineness text with
    | error cause => exact iff_of_false (by rintro ⟨⟩) (by rintro ⟨_, ⟨⟩, _⟩)
    | ok outlines =>
      constructor
      · intro h
        exact ⟨outlines, rfl, (Except.ok.inj h).symm⟩
      · rintro ⟨_, hread, rfl⟩
        rw [← Except.ok.inj hread]
        rfl

/-- With the default setup every drawing is converted. -/
theorem ofText_default {fineness : Fineness} {text : List Char} (stamp : List Char)
    {outlines : List (Outline Float)} (h : Drawing.readText fineness text = .ok outlines) :
    ofText .default fineness stamp text = .ok (ofOutlines .default fineness stamp outlines) :=
  ofText_eq_ok_iff.mpr ⟨Setup.isSensible_default, outlines, h, rfl⟩

/-! ## Checks of programs -/

/-- **Programs are valid**: if a drawing is converted, its program passes the check. So do
the programs of all other sources whose labels have no line feeds, for all setups,
sensible or not. -/
theorem valid_ofText_and_check_generate [Written.Compact α] (setup : Setup α)
    (fineness : Fineness) {stamp : List Char} (hstamp : '\n' ∉ stamp) :
    (∀ (text : List Char) (conversion : Conversion α),
        ofText setup fineness stamp text = .ok conversion → conversion.valid = true) ∧
      ∀ source : Source α, (∀ contour ∈ source.contours fineness, '\n' ∉ contour.label) →
        check (generate setup fineness stamp source) = .ok () := by
  refine ⟨fun text conversion h => ?_, fun source => check_generate setup fineness hstamp⟩
  obtain ⟨-, outlines, hread, rfl⟩ := ofText_eq_ok_iff.mp h
  have hlabels := not_mem_feed_outlineLabel_of_readText hread
  show (check (generate setup fineness stamp (.outlines outlines))).isOk = true
  rw [check_generate setup fineness hstamp hlabels]
  rfl

/-- A drawing with a coordinate that is no number has a valid program. So has an outline
whose tag starts with a carriage return, with a feed of infinity, a scale that is no
number and more places than are ever written. -/
theorem valid_ofText_and_check_generate_no_numbers :
    (∃ conversion : Conversion Float,
      ofText .default .default [] "<svg><line x1='NaN' x2='1'/></svg>".toList = .ok conversion ∧
        conversion.valid = true) ∧
      ∃ setup : Setup Float, setup.check ≠ .ok () ∧
        ∃ source : Source Float, (∀ contour ∈ source.contours .default, '\n' ∉ contour.label) ∧
          check (generate setup .default [] source) = .ok () := by
  let text := "<svg><line x1='NaN' x2='1'/></svg>".toList
  let outlines : List (Outline Float) :=
    [⟨[⟨0.0 / 0.0, 0.0⟩, ⟨1.0, 0.0⟩], .read none none none, "line".toList⟩]
  let setup : Setup Float :=
    { (Setup.default : Setup Float) with
      cutFeed := 1.0 / 0.0, scale := 0.0 / 0.0, places := -1 }
  let source : Source Float :=
    .outlines [⟨[⟨0.0, 1.0⟩, ⟨1.0, 0.5⟩], .read none none none, "\r$ ;(".toList⟩]
  have hstamp : '\n' ∉ ([] : List Char) := List.not_mem_nil
  have hread : Drawing.readText .default text = .ok outlines := by decide +kernel
  have hlabels : ∀ contour ∈ source.contours .default, '\n' ∉ contour.label := by decide +kernel
  -- first the drawing, then the setup, in which nothing makes sense
  constructor
  · have hok := ofText_default [] hread
    exact ⟨_, hok, (valid_ofText_and_check_generate .default .default hstamp).1 text _ hok⟩
  · refine ⟨setup, by decide +kernel, source, hlabels, ?_⟩
    exact (valid_ofText_and_check_generate setup .default hstamp).2 source hlabels

/-! ## Numbers in programs -/

/-- **Numbers of converted programs**: the heights, feeds and powers in the program of a
converted drawing are plain decimals. All its numbers are, exactly if every point of the
drawing has finite coordinates where it is placed. -/
theorem holdsNumbers_ofText [Written.Legible α] (setup : Setup α) (fineness : Fineness)
    {stamp : List Char} (hstamp : '\n' ∉ stamp) {text : List Char} {conversion : Conversion α}
    (h : ofText setup fineness stamp text = .ok conversion) :
    (∀ line ∈ commandLines conversion.program, HoldsNumbers ['Z', 'F', 'S'] line) ∧
      ∃ outlines, Drawing.readText fineness text = .ok outlines ∧
        ((∀ line ∈ commandLines conversion.program, HoldsNumbers numberLetters line) ↔
          ∀ outline ∈ outlines, ∀ p ∈ outline.points, (placed setup p).isFinite = true) := by
  obtain ⟨hsensible, outlines, hread, rfl⟩ := ofText_eq_ok_iff.mp h
  have hlines : commandLines (ofOutlines setup fineness stamp outlines).program =
      (programCommands setup ((Source.outlines outlines).contours fineness)).map
        (Command.text setup) :=
    commandLines_generate setup fineness hstamp (not_mem_feed_outlineLabel_of_readText hread)
  have hamounts := holdsNumbers_amounts hsensible.safeHeight hsensible.workHeight
    hsensible.cutFeed.1 ((Source.outlines outlines).contours fineness)
  have hplaces := holdsNumbers_places_iff setup ((Source.outlines outlines).contours fineness)
  have hletters : ∀ line, HoldsNumbers numberLetters line ↔
      HoldsNumbers ['X', 'Y'] line ∧ HoldsNumbers ['Z', 'F', 'S'] line :=
    fun _ => holdsNumbers_append (a := ['X', 'Y']) (b := ['Z', 'F', 'S'])
  -- the contours of outlines have their points
  have hpoints : (∀ contour ∈ (Source.outlines outlines).contours fineness,
      ∀ p ∈ contour.points, (placed setup p).isFinite = true) ↔
      ∀ outline ∈ outlines, ∀ p ∈ outline.points, (placed setup p).isFinite = true :=
    List.forall_mem_map
  rw [hlines]
  refine ⟨hamounts, outlines, hread, ?_⟩
  rw [← hpoints, ← hplaces]
  constructor
  · intro hall line hline
    exact ((hletters line).mp (hall line hline)).1
  · intro hall line hline
    exact (hletters line).mpr ⟨hall line hline, hamounts line hline⟩

/-- A long coordinate is a number all the same. -/
theorem holdsNumbers_ofText_long_coordinate :
    ∃ conversion : Conversion Float,
      ofText .default .default [] "<svg><line x2='-1e30' y2='0.0005'/></svg>".toList =
        .ok conversion ∧
        ∀ line ∈ commandLines conversion.program, HoldsNumbers numberLetters line := by
  let text := "<svg><line x2='-1e30' y2='0.0005'/></svg>".toList
  let outlines : List (Outline Float) :=
    [⟨[⟨0.0, 0.0⟩, ⟨-1e30, 0.0005⟩], .read none none none, "line".toList⟩]
  have hstamp : '\n' ∉ ([] : List Char) := List.not_mem_nil
  have hread : Drawing.readText .default text = .ok outlines := by decide +kernel
  have hok := ofText_default [] hread
  refine ⟨_, hok, ?_⟩
  obtain ⟨-, found, hfound, hnumbers⟩ := holdsNumbers_ofText .default .default hstamp hok
  obtain rfl : found = outlines := Except.ok.inj (hfound.symm.trans hread)
  rw [hnumbers]
  decide +kernel

/-- The text of no number is read as a coordinate, and written as one. -/
theorem not_forall_holdsNumbers_ofText :
    ¬ ∀ (setup : Setup Float) (fineness : Fineness) (stamp text : List Char)
      (conversion : Conversion Float), '\n' ∉ stamp →
        ofText setup fineness stamp text = .ok conversion →
          ∀ line ∈ commandLines conversion.program, HoldsNumbers numberLetters line := by
  intro h
  let text := "<svg><line x1='NaN' x2='1'/></svg>".toList
  let outlines : List (Outline Float) :=
    [⟨[⟨0.0 / 0.0, 0.0⟩, ⟨1.0, 0.0⟩], .read none none none, "line".toList⟩]
  let line := "G0 XNaN Y0.000".toList
  have hread : Drawing.readText .default text = .ok outlines := by decide +kernel
  have hok := ofText_default [] hread
  have hline : line ∈ commandLines (ofOutlines .default .default [] outlines).program := by
    decide +kernel
  have hword : 'X' :: Decimal.nanText ∈ Text.words Text.isBlank line := by decide +kernel
  have hnumber := h .default .default [] text _ List.not_mem_nil hok line hline 'X'
    List.mem_cons_self Decimal.nanText hword
  exact hnumber.not_mem_notFiniteTexts List.mem_cons_self

end Kerf.Conversion
