import Mathlib.Data.List.TakeWhile
import Kerf.Text.Words

/-!
# Lines and words of written text

What is read back from text that was put together from lines and words:

- `lines_append_feed`: text up to its first line feed is the first line, less a carriage
  return at its end; what follows a line feed has its lines for itself (`lines_append`).
- `trim_of_ends`, `trim_surrounded`, `trim_cons`: trimming keeps text between characters
  that are no blanks.
- `trim_eq_nil_iff`, `trim_trim`: it leaves nothing of blanks only, and nothing to be
  trimmed again.
- `takeWhile_run_append`, `dropWhile_run_append`: a run of characters is taken off where
  something else follows.
- `words_intercalate`: words with single blanks between them are read back one by one, and
  so are words with any runs of separators between them and around them (`IsSpaced`,
  `words_of_isSpaced`), of which trimming takes off what stands around them
  (`IsSpaced.exists_trim`).
-/

namespace Kerf.Text

/-! ## Lines -/

theorem dropReturn_cons {c : Char} (h : c ≠ '\r') (line : List Char) :
    dropReturn (c :: line) = c :: dropReturn line := by
  cases line with
  | nil => simp [dropReturn, h]
  | cons d line =>
    simp only [dropReturn, List.getLast?_cons_cons, List.dropLast_cons_cons]
    split <;> rfl

/-- Only the end of a line matters to a carriage return. -/
theorem dropReturn_append {start : List Char} (h : '\r' ∉ start) (line : List Char) :
    dropReturn (start ++ line) = start ++ dropReturn line := by
  induction start with
  | nil => rfl
  | cons c start ih =>
    simp only [List.mem_cons, not_or] at h
    rw [List.cons_append, dropReturn_cons (Ne.symm h.1), ih h.2, List.cons_append]

theorem dropReturn_of_not_mem {line : List Char} (h : '\r' ∉ line) :
    dropReturn line = line := by
  simpa [dropReturn] using dropReturn_append h []

/-- A line feed ends a segment, whatever stands in front of it. -/
theorem segments_append (before text : List Char) :
    segments (before ++ '\n' :: text) = segments before ++ segments text := by
  induction before with
  | nil => rfl
  | cons c before ih =>
    rw [List.cons_append, segments, segments, ih]
    split
    · rfl
    · obtain ⟨part, parts, hparts⟩ := List.exists_cons_of_ne_nil (segments_ne_nil before)
      rw [hparts]
      rfl

theorem lines_append (before text : List Char) :
    lines (before ++ '\n' :: text) = (segments before).map dropReturn ++ lines text := by
  have hne := segments_ne_nil text
  have hlast : (segments before ++ segments text).getLast? = (segments text).getLast? := by
    rw [List.getLast?_append, List.getLast?_eq_some_getLast hne, Option.some_or]
  simp only [lines, segments_append, hlast]
  rw [List.dropLast_append_of_ne_nil hne, List.map_append, List.append_assoc]

/-- A line feed after a text without one ends the first line. -/
theorem lines_append_feed {line : List Char} (h : '\n' ∉ line) (text : List Char) :
    lines (line ++ '\n' :: text) = dropReturn line :: lines text := by
  rw [lines_append, segments_of_not_mem h]
  rfl

/-- Text without line feeds is a line, if it is anything. -/
theorem lines_of_not_mem {line : List Char} (h : '\n' ∉ line) (hne : line ≠ []) :
    lines line = [line] := by
  simp [lines, segments_of_not_mem h, hne]

/-! ## Blanks at the ends -/

theorem trimStart_of_head {text : List Char} (h : ∀ c ∈ text.head?, isBlank c = false) :
    trimStart text = text := by
  cases text with
  | nil => rfl
  | cons c text =>
    have hc : isBlank c = false := h c rfl
    simp [trimStart, hc]

theorem trimEnd_of_last {text : List Char} (h : ∀ c ∈ text.getLast?, isBlank c = false) :
    trimEnd text = text := by
  have hhead : ∀ c ∈ text.reverse.head?, isBlank c = false := by
    simpa [List.head?_reverse] using h
  have hstart : text.reverse.dropWhile isBlank = text.reverse := trimStart_of_head hhead
  rw [trimEnd, hstart, List.reverse_reverse]

/-- Text that neither starts nor ends with a blank stays as it is. -/
theorem trim_of_ends {text : List Char} (hfirst : ∀ c ∈ text.head?, isBlank c = false)
    (hlast : ∀ c ∈ text.getLast?, isBlank c = false) : trim text = text := by
  rw [trim, trimStart_of_head hfirst, trimEnd_of_last hlast]

theorem trimStart_append_of_blank {before : List Char} (h : ∀ c ∈ before, isBlank c = true)
    (text : List Char) : trimStart (before ++ text) = trimStart text :=
  List.dropWhile_append_of_pos h

theorem trimEnd_append_of_blank {after : List Char} (h : ∀ c ∈ after, isBlank c = true)
    (text : List Char) : trimEnd (text ++ after) = trimEnd text := by
  have hrun : ∀ c ∈ after.reverse, isBlank c = true := fun c hc => h c (List.mem_reverse.mp hc)
  rw [trimEnd, List.reverse_append, List.dropWhile_append_of_pos hrun, trimEnd]

/-- A text that starts with something else than a blank still starts with it when its end
is trimmed. -/
theorem trimEnd_cons {c : Char} (h : isBlank c = false) (text : List Char) :
    trimEnd (c :: text) = c :: trimEnd text := by
  have hc : [c].dropWhile isBlank = [c] := by simp [h]
  rw [trimEnd, trimEnd, List.reverse_cons, List.dropWhile_append, hc]
  split
  · next hall => rw [List.isEmpty_iff.mp hall, List.reverse_singleton, List.reverse_nil]
  · rw [List.reverse_append, List.reverse_singleton, List.singleton_append]

/-- What does not end with a blank stays when what follows it is trimmed. -/
theorem trimEnd_append_of_last {text : List Char} (h : ∀ c ∈ text.getLast?, isBlank c = false)
    (after : List Char) : trimEnd (text ++ after) = text ++ trimEnd after := by
  have hhead : ∀ c ∈ text.reverse.head?, isBlank c = false := by
    simpa [List.head?_reverse] using h
  have hstart : text.reverse.dropWhile isBlank = text.reverse := trimStart_of_head hhead
  rw [trimEnd, trimEnd, List.reverse_append, List.dropWhile_append]
  split
  · next hblank => rw [hstart, List.reverse_reverse, List.isEmpty_iff.mp hblank,
      List.reverse_nil, List.append_nil]
  · rw [List.reverse_append, List.reverse_reverse]

theorem trim_append_of_blank {after : List Char} (h : ∀ c ∈ after, isBlank c = true)
    (text : List Char) :
    trim (text ++ after) = trim text := by
  have hnone : after.dropWhile isBlank = [] := List.dropWhile_eq_nil_iff.mpr h
  rw [trim, trim, trimStart, trimStart, List.dropWhile_append]
  split
  · next hempty => rw [hnone, List.isEmpty_iff.mp hempty]
  · exact trimEnd_append_of_blank h _

theorem trim_cons {c : Char} (h : isBlank c = false) (text : List Char) :
    trim (c :: text) = c :: trimEnd text := by
  have hstart : trimStart (c :: text) = c :: text := trimStart_of_head (by simpa using h)
  rw [trim, hstart, trimEnd_cons h]

/-- A text is the blanks that it starts with, and the rest. -/
theorem exists_append_trimStart (text : List Char) :
    ∃ run, (∀ c ∈ run, isBlank c = true) ∧ text = run ++ trimStart text :=
  ⟨text.takeWhile isBlank, fun _ hc => List.mem_takeWhile_imp hc,
    List.takeWhile_append_dropWhile.symm⟩

/-- What a run is taken off from does not start with one more of its members. -/
theorem not_of_mem_head?_dropWhile {isMember : Char → Bool} {text : List Char} :
    ∀ c ∈ (text.dropWhile isMember).head?, isMember c = false := by
  intro c hc
  have hhead := List.head?_dropWhile_not isMember text
  rw [hc] at hhead
  exact hhead

theorem isBlank_of_trimStart_eq_cons {text : List Char} {c : Char} {rest : List Char}
    (h : trimStart text = c :: rest) : isBlank c = false :=
  not_of_mem_head?_dropWhile c (congrArg List.head? h)

/-- Trimming the end of a text changes nothing of how it starts. -/
theorem head?_trim (text : List Char) : (trim text).head? = (trimStart text).head? := by
  rw [trim]
  cases hstart : trimStart text with
  | nil => rfl
  | cons c rest =>
    rw [trimEnd_cons (isBlank_of_trimStart_eq_cons hstart)]
    rfl

/-- Only blanks are trimmed to nothing. -/
theorem trim_eq_nil_iff {text : List Char} : trim text = [] ↔ ∀ c ∈ text, isBlank c = true := by
  rw [trim, ← List.dropWhile_eq_nil_iff]
  constructor
  · intro hnil
    cases hstart : trimStart text with
    | nil => exact hstart
    | cons c rest =>
      have hc : isBlank c = false := isBlank_of_trimStart_eq_cons hstart
      rw [hstart, trimEnd_cons hc] at hnil
      cases hnil
  · intro hstart
    rw [trimStart, hstart, trimEnd_nil]

/-- Blanks around text that neither starts nor ends with one are trimmed off. -/
theorem trim_surrounded {before text after : List Char}
    (hbefore : ∀ c ∈ before, isBlank c = true) (hfirst : ∀ c ∈ text.head?, isBlank c = false)
    (hlast : ∀ c ∈ text.getLast?, isBlank c = false) (hafter : ∀ c ∈ after, isBlank c = true) :
    trim (before ++ (text ++ after)) = text := by
  rw [trim, trimStart_append_of_blank hbefore]
  cases text with
  | nil => exact trim_eq_nil_iff.mpr hafter
  | cons c text =>
    have hstart : trimStart (c :: text ++ after) = c :: text ++ after :=
      trimStart_of_head hfirst
    rw [hstart, trimEnd_append_of_blank hafter, trimEnd_of_last hlast]

theorem mem_of_mem_trim {text : List Char} {c : Char} (h : c ∈ trim text) : c ∈ text := by
  rw [trim, trimEnd, List.mem_reverse] at h
  have hstart : c ∈ (trimStart text).reverse := (List.dropWhile_sublist _).mem h
  exact (List.dropWhile_sublist _).mem (List.mem_reverse.mp hstart)

/-- Trimmed text has no blanks left at its ends. -/
theorem trim_trim (text : List Char) : trim (trim text) = trim text := by
  cases hstart : trimStart text with
  | nil =>
    have hnil : trim text = [] := by rw [trim, hstart, trimEnd_nil]
    rw [hnil, trim_nil]
  | cons c rest =>
    have hc : isBlank c = false := isBlank_of_trimStart_eq_cons hstart
    have hlast : ∀ d ∈ (trim text).getLast?, isBlank d = false := by
      rw [trim, trimEnd, List.getLast?_reverse]
      exact not_of_mem_head?_dropWhile
    refine trim_of_ends ?_ hlast
    rw [trim, hstart, trimEnd_cons hc]
    simpa using hc

/-! ## Runs -/

section Runs

variable {isMember : Char → Bool} {run after : List Char}

/-- A run ends where something follows that does not belong to it. -/
theorem takeWhile_run_append (hrun : ∀ c ∈ run, isMember c = true)
    (hafter : ∀ c ∈ after.head?, isMember c = false) :
    (run ++ after).takeWhile isMember = run := by
  rw [List.takeWhile_append_of_pos hrun]
  cases after with
  | nil => rw [List.takeWhile_nil, List.append_nil]
  | cons c after => rw [List.takeWhile_cons_of_neg (by simp [hafter c rfl]), List.append_nil]

theorem dropWhile_of_head (hafter : ∀ c ∈ after.head?, isMember c = false) :
    after.dropWhile isMember = after := by
  cases after with
  | nil => rfl
  | cons c after => rw [List.dropWhile_cons_of_neg (by simp [hafter c rfl])]

theorem dropWhile_run_append (hrun : ∀ c ∈ run, isMember c = true)
    (hafter : ∀ c ∈ after.head?, isMember c = false) :
    (run ++ after).dropWhile isMember = after := by
  rw [List.dropWhile_append_of_pos hrun, dropWhile_of_head hafter]

end Runs

/-! ## Words -/

variable {isSeparator : Char → Bool}

theorem cut_ne_nil (text : List Char) : cut isSeparator text ≠ [] := by
  cases text with
  | nil => simp [cut]
  | cons c text =>
    simp only [cut]
    split
    · simp
    · split <;> simp

/-- Text without separators is in front of what is cut off next. -/
theorem cut_append {word : List Char} (h : ∀ c ∈ word, isSeparator c = false)
    (text : List Char) :
    cut isSeparator (word ++ text) =
      (word ++ (cut isSeparator text).head (cut_ne_nil text)) ::
        (cut isSeparator text).tail := by
  induction word with
  | nil => simp
  | cons c word ih =>
    have hc : isSeparator c = false := h c List.mem_cons_self
    have hword : ∀ d ∈ word, isSeparator d = false := fun d hd =>
      h d (List.mem_cons_of_mem _ hd)
    simp [cut, hc, ih hword]

/-- A separator cuts a text in two, whatever is on either side. -/
theorem cut_append_cons {c : Char} (hc : isSeparator c = true) (before after : List Char) :
    cut isSeparator (before ++ c :: after) =
      cut isSeparator before ++ cut isSeparator after := by
  induction before with
  | nil =>
    show (if isSeparator c = true then _ else _) = _
    rw [if_pos hc]
    rfl
  | cons d before ih =>
    rw [List.cons_append, cut, cut, ih]
    by_cases hd : isSeparator d = true
    · rw [if_pos hd, if_pos hd, List.cons_append]
    · rw [if_neg hd, if_neg hd]
      cases hcut : cut isSeparator before with
      | nil => exact absurd hcut (cut_ne_nil before)
      | cons piece pieces => rfl

theorem words_append_cons {c : Char} (hc : isSeparator c = true) (before after : List Char) :
    words isSeparator (before ++ c :: after) =
      words isSeparator before ++ words isSeparator after := by
  rw [words, cut_append_cons hc, List.filter_append, words, words]

/-- A text has words if not all of it is separators. -/
theorem words_ne_nil {text : List Char} {c : Char} (h : c ∈ text) (hc : isSeparator c = false) :
    words isSeparator text ≠ [] := by
  induction text with
  | nil => cases h
  | cons d text ih =>
    rw [words, cut]
    by_cases hd : isSeparator d = true
    · have hne : c ≠ d := fun heq => by rw [heq, hd] at hc; cases hc
      rw [if_pos hd, List.filter_cons_of_neg (by simp)]
      exact ih (List.mem_of_ne_of_mem hne h)
    · -- the first word starts with the first character
      rw [if_neg hd]
      cases cut isSeparator text with
      | nil => simp
      | cons piece pieces => simp

theorem words_append_separator {word : List Char} (hne : word ≠ [])
    (h : ∀ c ∈ word, isSeparator c = false) {c : Char} (hc : isSeparator c = true)
    (text : List Char) :
    words isSeparator (word ++ c :: text) = word :: words isSeparator text := by
  simp [words, cut_append h, cut, hc, hne]

theorem words_of_word {word : List Char} (hne : word ≠ [])
    (h : ∀ c ∈ word, isSeparator c = false) : words isSeparator word = [word] := by
  have hcut := cut_append h []
  simp only [List.append_nil] at hcut
  simp [words, hcut, cut, hne]

/-- Words with one separator between each two are read back. -/
theorem words_intercalate {c : Char} (hc : isSeparator c = true) {parts : List (List Char)}
    (h : ∀ part ∈ parts, part ≠ [] ∧ ∀ d ∈ part, isSeparator d = false) :
    words isSeparator (List.intercalate [c] parts) = parts := by
  induction parts with
  | nil => rfl
  | cons part parts ih =>
    obtain ⟨hne, hpart⟩ := h part List.mem_cons_self
    cases parts with
    | nil => rw [List.intercalate_singleton, words_of_word hne hpart]
    | cons next parts =>
      rw [List.intercalate_cons_cons, List.append_assoc, List.singleton_append,
        words_append_separator hne hpart hc, ih fun p hp => h p (List.mem_cons_of_mem _ hp)]

/-! ## Spaced words -/

/-- The texts that some words are written as, with separators between each two and perhaps
around them. -/
inductive IsSpaced (isSeparator : Char → Bool) : List (List Char) → List Char → Prop
  | nil {run : List Char} (hrun : ∀ c ∈ run, isSeparator c = true) : IsSpaced isSeparator [] run
  | cons {run word : List Char} {words : List (List Char)} {text : List Char}
    (hrun : ∀ c ∈ run, isSeparator c = true) (hgap : ∀ c ∈ text.head?, isSeparator c = true)
    (hrest : IsSpaced isSeparator words text) :
    IsSpaced isSeparator (word :: words) (run ++ (word ++ text))

/-- A word with a separator behind it. -/
theorem IsSpaced.cons_separator {run word : List Char} {words : List (List Char)} {c : Char}
    {text : List Char} (hrun : ∀ c ∈ run, isSeparator c = true) (hc : isSeparator c = true)
    (hrest : IsSpaced isSeparator words (c :: text)) :
    IsSpaced isSeparator (word :: words) (run ++ (word ++ c :: text)) := by
  refine .cons hrun ?_ hrest
  rintro _ ⟨⟩
  exact hc

/-- What separates words in one reading still separates them in a reading with more
separators. -/
theorem IsSpaced.mono {isSeparator isOther : Char → Bool}
    (hmono : ∀ c, isSeparator c = true → isOther c = true) {words : List (List Char)}
    {text : List Char} (h : IsSpaced isSeparator words text) : IsSpaced isOther words text := by
  induction h with
  | nil hrun => exact .nil fun c hc => hmono c (hrun c hc)
  | cons hrun hgap _ ih =>
    exact .cons (fun c hc => hmono c (hrun c hc)) (fun c hc => hmono c (hgap c hc)) ih

/-- Spaced text has the characters of its words and those between them. -/
theorem IsSpaced.forall_mem {isSeparator : Char → Bool} {P : Char → Prop}
    (hseparator : ∀ c, isSeparator c = true → P c) {parts : List (List Char)} {text : List Char}
    (h : IsSpaced isSeparator parts text) (hparts : ∀ part ∈ parts, ∀ c ∈ part, P c) :
    ∀ c ∈ text, P c := by
  induction h with
  | nil hrun => exact fun c hc => hseparator c (hrun c hc)
  | cons hrun _ _ ih =>
    rw [List.forall_mem_cons] at hparts
    rw [List.forall_mem_append, List.forall_mem_append]
    exact ⟨fun c hc => hseparator c (hrun c hc), hparts.1, ih hparts.2⟩

/-- What is left of a text without the blanks at its end starts as the text does. -/
theorem mem_head?_of_trimEnd {text : List Char} {c : Char} (hc : c ∈ (trimEnd text).head?) :
    c ∈ text.head? := by
  obtain ⟨blanks, htext⟩ : trimEnd text <+: text := by
    rw [trimEnd, ← List.reverse_suffix, List.reverse_reverse]
    exact List.dropWhile_suffix _
  rw [← htext, List.head?_append, hc, Option.some_or]
  rfl

/-- A word is no blank, and has none in it. -/
def IsSolid (word : List Char) : Prop :=
  word ≠ [] ∧ ∀ c ∈ word, isBlank c = false

theorem IsSolid.trimEnd_append {word : List Char} (h : IsSolid word) (before text : List Char) :
    trimEnd (before ++ (word ++ text)) = before ++ (word ++ trimEnd text) := by
  have hlast : ∀ c ∈ (before ++ word).getLast?, isBlank c = false := by
    intro c hc
    rw [List.getLast?_append, List.getLast?_eq_some_getLast h.1, Option.some_or] at hc
    rw [← Option.some.inj hc]
    exact h.2 _ (List.getLast_mem h.1)
  rw [← List.append_assoc, trimEnd_append_of_last hlast, List.append_assoc]

theorem IsSolid.head?_append {word : List Char} (h : IsSolid word) (text : List Char) :
    ∀ c ∈ (word ++ text).head?, isBlank c = false := by
  obtain ⟨c, rest, rfl⟩ := List.exists_cons_of_ne_nil h.1
  rintro _ ⟨⟩
  exact h.2 c List.mem_cons_self

section Trimming

variable {parts : List (List Char)} {text : List Char}
  (hblank : ∀ c, isSeparator c = true → isBlank c = true)

include hblank

/-- Without the blanks at its end, spaced text is spaced. -/
theorem IsSpaced.trimEnd (h : IsSpaced isSeparator parts text)
    (hparts : ∀ part ∈ parts, IsSolid part) :
    IsSpaced isSeparator parts (Text.trimEnd text) := by
  induction h with
  | nil hrun =>
    have hend := trimEnd_append_of_blank (fun c hc => hblank c (hrun c hc)) []
    rw [List.nil_append] at hend
    rw [hend, trimEnd_nil]
    exact .nil (List.forall_mem_nil _)
  | @cons run part parts text hrun hgap _ ih =>
    rw [List.forall_mem_cons] at hparts
    obtain ⟨hpart, hparts⟩ := hparts
    rw [hpart.trimEnd_append]
    exact .cons hrun (fun c hc => hgap c (mem_head?_of_trimEnd hc)) (ih hparts)

/-- Blanks around it apart, spaced text starts with its first word. -/
theorem IsSpaced.exists_trim {word : List Char} (h : IsSpaced isSeparator (word :: parts) text)
    (hparts : ∀ part ∈ word :: parts, IsSolid part) :
    ∃ rest, trim text = word ++ rest ∧ (∀ c ∈ rest.head?, isSeparator c = true) ∧
      IsSpaced isSeparator parts rest := by
  rw [List.forall_mem_cons] at hparts
  obtain ⟨hword, hparts⟩ := hparts
  cases h with
  | @cons run _ _ text hrun hgap h =>
    have hstart : trimStart (run ++ (word ++ text)) = word ++ text :=
      dropWhile_run_append (fun c hc => hblank c (hrun c hc)) (hword.head?_append text)
    refine ⟨Text.trimEnd text, ?_, fun c hc => hgap c (mem_head?_of_trimEnd hc),
      h.trimEnd hblank hparts⟩
    have hend := hword.trimEnd_append [] text
    rw [List.nil_append, List.nil_append] at hend
    rw [trim, hstart, hend]

end Trimming

theorem words_run_append {run : List Char} (h : ∀ c ∈ run, isSeparator c = true)
    (text : List Char) : words isSeparator (run ++ text) = words isSeparator text := by
  induction run with
  | nil => rfl
  | cons c run ih =>
    rw [List.forall_mem_cons] at h
    rw [← ih h.2, List.cons_append, words, cut, if_pos h.1,
      List.filter_cons_of_neg (by simp), words]

/-- Spaced words are read back one by one. -/
theorem words_of_isSpaced {parts : List (List Char)} {text : List Char}
    (hspaced : IsSpaced isSeparator parts text)
    (h : ∀ part ∈ parts, part ≠ [] ∧ ∀ c ∈ part, isSeparator c = false) :
    words isSeparator text = parts := by
  induction hspaced with
  | nil hrun =>
    have hend := words_run_append hrun []
    rw [List.append_nil] at hend
    rw [hend]
    rfl
  | @cons run part parts text hrun hgap hrest ih =>
    obtain ⟨hne, hpart⟩ := h part List.mem_cons_self
    have hwords := ih fun p hp => h p (List.mem_cons_of_mem _ hp)
    rw [words_run_append hrun]
    cases text with
    | nil =>
      rw [List.append_nil, words_of_word hne hpart, ← hwords]
      rfl
    | cons c text =>
      have hc : isSeparator c = true := hgap c rfl
      -- the separator that ends a word is passed over with those in front of the next
      have hskip : words isSeparator ([c] ++ text) = words isSeparator text :=
        words_run_append (by simpa using hc) text
      rw [words_append_separator hne hpart hc, ← hskip, List.singleton_append, hwords]

end Kerf.Text
