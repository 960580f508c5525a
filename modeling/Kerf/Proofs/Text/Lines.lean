import Mathlib.Data.List.Basic
import Kerf.Proofs.Text.Spacing

/-!
# Texts as lines

A text is its lines with what ends them: a line feed, or a carriage return and a line feed
(`IsLines`). Only the last line may have no end, and then there is something in it. Every
text is written so in one way, and `lines` finds it (`isLines_iff`).
-/

namespace Kerf.Text

/-- The lines that make up a text. A line that ends with a line feed alone has no carriage
return in front of it, for that would be part of the end. -/
inductive IsLines : (text : List Char) → (parts : List (List Char)) → Prop
  | nil : IsLines [] []
  | last {line : List Char} (hfeed : '\n' ∉ line) (hne : line ≠ []) : IsLines line [line]
  | feed {line text : List Char} {parts : List (List Char)} (hfeed : '\n' ∉ line)
    (hreturn : line.getLast? ≠ some '\r') (hrest : IsLines text parts) :
    IsLines (line ++ '\n' :: text) (line :: parts)
  | returnFeed {line text : List Char} {parts : List (List Char)} (hfeed : '\n' ∉ line)
    (hrest : IsLines text parts) : IsLines (line ++ '\r' :: '\n' :: text) (line :: parts)

theorem lines_of_isLines {text : List Char} {parts : List (List Char)}
    (h : IsLines text parts) :
    lines text = parts := by
  induction h with
  | nil => rfl
  | last hfeed hne => exact lines_of_not_mem hfeed hne
  | feed hfeed hreturn _ ih => rw [lines_append_feed hfeed, ih, dropReturn, if_neg hreturn]
  | @returnFeed line text parts hfeed _ ih =>
    have hline : '\n' ∉ line ++ ['\r'] := by simp [hfeed]
    have hdrop : dropReturn (line ++ ['\r']) = line := by
      rw [dropReturn, if_pos List.getLast?_concat, List.dropLast_concat]
    have hlines := lines_append_feed hline text
    rw [List.append_assoc, List.singleton_append] at hlines
    rw [hlines, hdrop, ih]

/-- A text up to its first line feed is a line, and the rest has its lines. The induction
is on the length of the text. -/
theorem isLines_lines (text : List Char) : IsLines text (lines text) := by
  induction hlength : text.length using Nat.strong_induction_on generalizing text with
  | h n ih =>
  subst hlength
  by_cases hfeed : '\n' ∈ text
  · obtain ⟨line, rest, rfl, hline⟩ := List.eq_append_cons_of_mem hfeed
    have hrest : IsLines rest (lines rest) := by
      refine ih rest.length ?_ rest rfl
      rw [List.length_append, List.length_cons]
      omega
    rw [lines_append_feed hline]
    by_cases hreturn : line.getLast? = some '\r'
    -- a return in front of the feed belongs to the end of the line
    · obtain ⟨start, rfl⟩ := List.getLast?_eq_some_iff.mp hreturn
      have hstart : '\n' ∉ start := fun hmem => hline (List.mem_append_left _ hmem)
      rw [dropReturn, if_pos hreturn, List.dropLast_concat, List.append_assoc,
        List.singleton_append]
      exact .returnFeed hstart hrest
    · rw [dropReturn, if_neg hreturn]
      exact .feed hline hreturn hrest
  -- without a feed the text is the last line, unless it is empty
  · by_cases hne : text = []
    · rw [hne]
      exact .nil
    · rw [lines_of_not_mem hfeed hne]
      exact .last hfeed hne

/-- Every text has its lines, and no others. -/
theorem isLines_iff {text : List Char} {parts : List (List Char)} :
    IsLines text parts ↔ lines text = parts :=
  ⟨lines_of_isLines, fun h => h ▸ isLines_lines text⟩

/-- No line has a line feed in it. -/
theorem IsLines.not_mem_feed {text : List Char} {parts : List (List Char)}
    (h : IsLines text parts) :
    ∀ line ∈ parts, '\n' ∉ line := by
  induction h with
  | nil => exact List.forall_mem_nil _
  | last hfeed => exact List.forall_mem_singleton.mpr hfeed
  | feed hfeed _ _ ih => exact List.forall_mem_cons.mpr ⟨hfeed, ih⟩
  | returnFeed hfeed _ ih => exact List.forall_mem_cons.mpr ⟨hfeed, ih⟩

end Kerf.Text
