import Kerf.Proofs.Path.Bytes
import Kerf.Proofs.Path.Munch

/-!
# Faults of path data

Path data is at fault in two ways: where it goes on with what starts as a number but has
no digit before the exponent, and where it goes on with a character that belongs to
nothing. The first such place from the left is what is reported.

- `Passes`: reading passes over separators, letters and numbers, and comes to what is left
  of the text.
- `Meets`: what is left starts with a fault.
- `passes_or_exists_meets`: reading passes over all of a text or comes to a fault, and it
  is read or refused accordingly (`tokensFrom_of_passes`, `tokensFrom_of_meets`).
- `Passes.before`: what comes before a fault is passed over also when nothing follows it.
- `commands_eq_error_iff`: the fault that is reported is the one that is met.
-/

namespace Kerf.Path

/-- What path data is written with. -/
def isPathChar (c : Char) : Bool :=
  c.isAlpha || c.isDigit || c == '+' || c == '-' || c == '.' || c == ',' || Text.isAsciiBlank c

/-- What starts as a number stands at the front of a text, as much of it as can be. -/
structure Munch.IsNumber (munch : Munch) (text : List Char) : Prop extends
    munch.IsLongest text where
  isNumberStart : ∃ c ∈ munch.text.head?, isNumberStart c = true

/-- Reading a text from the left passes over `before` and comes to `after`. -/
inductive Passes : (text before after : List Char) → Prop
  | nil (text : List Char) : Passes text [] text
  | separator {c : Char} {text before after : List Char} (hc : isSeparator c = true)
    (h : Passes text before after) : Passes (c :: text) (c :: before) after
  | letter {c : Char} {text before after : List Char} (hc : c.isAlpha = true)
    (h : Passes text before after) : Passes (c :: text) (c :: before) after
  | number {munch : Munch} {text before after : List Char}
    (hmunch : munch.IsNumber (munch.text ++ text)) (hdigit : munch.mantissa ≠ [])
    (h : Passes text before after) : Passes (munch.text ++ text) (munch.text ++ before) after

/-- A text starts with a fault. -/
inductive Meets : (text token : List Char) → Prop
  | number {munch : Munch} {text : List Char} (hmunch : munch.IsNumber text)
    (hdigit : munch.mantissa = []) : Meets text munch.text
  | character {c : Char} (text : List Char) (hc : isPathChar c = false) : Meets (c :: text) [c]

/-! ## What is passed over -/

theorem Passes.append_eq {text before after : List Char} (h : Passes text before after) :
    before ++ after = text := by
  induction h with
  | nil => rfl
  | separator _ _ ih => rw [List.cons_append, ih]
  | letter _ _ ih => rw [List.cons_append, ih]
  | number _ _ _ ih => rw [List.append_assoc, ih]

/-- What is passed over is passed over also when nothing follows it. -/
theorem Passes.before {text before after : List Char} (h : Passes text before after) :
    Passes before before [] := by
  induction h with
  | nil => exact .nil []
  | separator hc _ ih => exact .separator hc ih
  | letter hc _ ih => exact .letter hc ih
  | @number munch text before after hmunch hdigit h ih =>
    have hfront : before <+: text := ⟨after, h.append_eq⟩
    exact .number ⟨hmunch.toIsLongest.shorten hfront, hmunch.isNumberStart⟩ hdigit ih

theorem isPathChar_eq_false_iff {c : Char} :
    isPathChar c = false ↔
      isSeparator c = false ∧ c.isAlpha = false ∧ isNumberStart c = false := by
  rw [isPathChar, isSeparator, isNumberStart]
  cases c.isAlpha <;> cases c.isDigit <;> cases c == '+' <;> cases c == '-' <;>
    cases c == '.' <;> cases c == ',' <;> cases Text.isAsciiBlank c <;> decide

/-! ## Reading -/

theorem Munch.IsNumber.length_bytes_text {munch : Munch} {text : List Char}
    (h : munch.IsNumber text) : (bytes munch.text).length = munch.text.length := by
  rw [Munch.isLongest_iff.mp h.toIsLongest, length_bytes_scanNumber]

/-- What stands as a number is scanned up to its end and then read. -/
theorem tokensFrom_munch {munch : Munch} {text : List Char}
    (h : munch.IsNumber (munch.text ++ text)) (position : Nat) :
    (tokensFrom position (munch.text ++ text) : Except Fault (List (Token Float))) =
      match Decimal.readFloat? munch.text with
      | none => .error ⟨position, munch.text⟩
      | some value =>
        andThen (.number value) (tokensFrom (position + (bytes munch.text).length) text) := by
  have htext := Munch.isLongest_iff.mp h.toIsLongest
  have hrest : (scanNumber (munch.text ++ text)).2 = text := by
    have happ := scanNumber_append (munch.text ++ text)
    rw [← htext] at happ
    exact List.append_cancel_left happ
  rw [h.length_bytes_text]
  -- it starts as a number does, so neither a separator nor a letter is met
  obtain ⟨c, hc, hstart⟩ := h.isNumberStart
  obtain ⟨hseparator, hletter⟩ := not_of_isNumberStart hstart
  obtain ⟨rest, hcons⟩ := List.head?_eq_some_iff.mp hc
  rw [hcons, List.cons_append] at htext hrest ⊢
  rw [tokensFrom, if_neg (by simp [hseparator]), if_neg (by simp [hletter]), dif_pos hstart,
    hrest, ← htext]
  have hread : Written.read? (c :: rest) = Decimal.readFloat? (c :: rest) := rfl
  dsimp only
  rw [hread]
  cases Decimal.readFloat? (c :: rest) with
  | none => rfl
  | some value => rfl

theorem map_append_andThen (token : Token Float) (passed : List (Token Float))
    (rest : Except Fault (List (Token Float))) :
    andThen token (rest.map (passed ++ ·)) = rest.map (token :: passed ++ ·) := by
  cases rest <;> rfl

/-- Reading goes on where it has passed to. -/
theorem tokensFrom_of_passes {text before after : List Char} (h : Passes text before after) :
    ∃ passed : List (Token Float), ∀ position,
      tokensFrom position text =
        (tokensFrom (position + (bytes before).length) after).map (passed ++ ·) := by
  induction h with
  | nil text =>
    refine ⟨[], fun position => ?_⟩
    cases htokens : (tokensFrom position text : Except Fault (List (Token Float))) with
    | error fault => rw [bytes, List.flatMap_nil, List.length_nil, Nat.add_zero, htokens]; rfl
    | ok tokens => rw [bytes, List.flatMap_nil, List.length_nil, Nat.add_zero, htokens]; rfl
  | @separator c text before after hc _ ih =>
    obtain ⟨passed, hpassed⟩ := ih
    have hascii : c.toNat < 128 := Nat.lt_of_not_le fun hhigh => isSeparator_of_high hhigh hc
    refine ⟨passed, fun position => ?_⟩
    have hrun : ∀ d ∈ [c], isSeparator d = true := by simpa using hc
    have hskip := tokensFrom_run_append (α := Float) hrun position text
    rw [List.singleton_append] at hskip
    rw [hskip, hpassed, length_bytes_cons_of_ascii hascii, List.length_singleton, Nat.add_assoc,
      Nat.add_comm 1]
  | @letter c text before after hc _ ih =>
    obtain ⟨passed, hpassed⟩ := ih
    have hascii : c.toNat < 128 := Nat.lt_of_not_le fun hhigh => isAlpha_of_high hhigh hc
    refine ⟨.letter c :: passed, fun position => ?_⟩
    rw [tokensFrom_letter hc, hpassed, map_append_andThen, length_bytes_cons_of_ascii hascii,
      Nat.add_assoc, Nat.add_comm 1]
  | @number munch text before after hmunch hdigit _ ih =>
    obtain ⟨passed, hpassed⟩ := ih
    -- it has a digit, so it is read
    obtain ⟨value, hvalue⟩ :=
      Option.isSome_iff_exists.mp (munch.isSome_readFloat?_text_iff.mpr hdigit)
    refine ⟨.number value :: passed, fun position => ?_⟩
    rw [tokensFrom_munch hmunch, hvalue, bytes_append, List.length_append, ← Nat.add_assoc]
    dsimp only
    rw [hpassed, map_append_andThen]

/-- Reading ends where a fault is met. -/
theorem tokensFrom_of_meets {text token : List Char} (h : Meets text token) (position : Nat) :
    (tokensFrom position text : Except Fault (List (Token Float))) =
      .error ⟨position, token⟩ := by
  cases h with
  | @number munch _ hmunch hdigit =>
    obtain ⟨after, rfl⟩ := hmunch.front
    rw [tokensFrom_munch hmunch, munch.readFloat?_text_of_mantissa hdigit]
  | @character c text hc =>
    obtain ⟨hseparator, hletter, hstart⟩ := isPathChar_eq_false_iff.mp hc
    rw [tokensFrom, if_neg (by simp [hseparator]), if_neg (by simp [hletter]),
      dif_neg (by simp [hstart])]

/-- Reading passes over all of a text or comes to a fault. The induction is on the length
of the text. -/
theorem passes_or_exists_meets (text : List Char) :
    Passes text text [] ∨
      ∃ before after token, Passes text before after ∧ Meets after token := by
  induction hlength : text.length using Nat.strong_induction_on generalizing text with
  | h n ih =>
  subst hlength
  cases text with
  | nil => exact .inl (.nil [])
  | cons c text =>
    by_cases hseparator : isSeparator c = true
    · rcases ih text.length (Nat.lt_succ_self _) text rfl with
        hall | ⟨_, _, token, hpass, hmeets⟩
      · exact .inl (.separator hseparator hall)
      · exact .inr ⟨_, _, token, .separator hseparator hpass, hmeets⟩
    by_cases hletter : c.isAlpha = true
    · rcases ih text.length (Nat.lt_succ_self _) text rfl with
        hall | ⟨_, _, token, hpass, hmeets⟩
      · exact .inl (.letter hletter hall)
      · exact .inr ⟨_, _, token, .letter hletter hpass, hmeets⟩
    by_cases hstart : isNumberStart c = true
    -- a number is read if it has a digit, and else it is the fault
    · obtain ⟨munch, hmunch⟩ := Munch.exists_text_eq_scanNumber (c :: text)
      have hlongest := Munch.isLongest_iff.mpr hmunch
      obtain ⟨after, hafter⟩ := hlongest.front
      have hne : munch.text ≠ [] := hmunch ▸ scanNumber_ne_nil hstart
      have hnumber : munch.IsNumber (munch.text ++ after) := by
        refine ⟨hafter ▸ hlongest, c, ?_, hstart⟩
        have hhead := congrArg List.head? hafter
        rwa [List.head?_append_of_ne_nil _ hne] at hhead
      rw [← hafter]
      by_cases hdigit : munch.mantissa = []
      · exact .inr ⟨[], _, _, .nil _, .number hnumber hdigit⟩
      · have hlt : after.length < (c :: text).length := by
          have hpos := List.length_pos_iff.mpr hne
          rw [← hafter, List.length_append]
          omega
        rcases ih after.length hlt after rfl with hall | ⟨_, _, token, hpass, hmeets⟩
        · exact .inl (.number hnumber hdigit hall)
        · exact .inr ⟨_, _, token, .number hnumber hdigit hpass, hmeets⟩
    -- nothing that is taken starts with this character
    · have hc : isPathChar c = false := isPathChar_eq_false_iff.mpr
        ⟨Bool.eq_false_iff.mpr hseparator, Bool.eq_false_iff.mpr hletter,
          Bool.eq_false_iff.mpr hstart⟩
      exact .inr ⟨[], _, _, .nil _, .character text hc⟩

/-! ## The fault that is reported -/

theorem commands_eq_error_iff_tokens {text : List Char} {fault : Fault} :
    (commands text : Except Fault (List (Command Float))) = .error fault ↔
      (tokensFrom 0 text : Except Fault (List (Token Float))) = .error fault := by
  rw [commands, tokens]
  cases (tokensFrom 0 text : Except Fault (List (Token Float))) with
  | error _ => rw [Except.map, Except.error.injEq, Except.error.injEq]
  | ok _ =>
    constructor
    · intro h
      cases h
    · intro h
      cases h

/-- What is passed over by itself is read. -/
theorem exists_commands_of_passes {text : List Char} (h : Passes text text []) :
    ∃ passed, (commands text : Except Fault (List (Command Float))) = .ok passed := by
  obtain ⟨passed, hpassed⟩ := tokensFrom_of_passes h
  rw [commands, tokens, hpassed, tokensFrom]
  exact ⟨_, rfl⟩

/-- The fault that is reported is the one that is met. -/
theorem commands_eq_error_iff {text : List Char} {fault : Fault} :
    (commands text : Except Fault (List (Command Float))) = .error fault ↔
      ∃ before after, Passes text before after ∧ Meets after fault.token ∧
        fault.position = (bytes before).length := by
  -- whatever is met after a part that is passed is reported
  have hreported : ∀ {before after token : List Char}, Passes text before after →
      Meets after token →
      (commands text : Except Fault (List (Command Float))) =
        .error ⟨(bytes before).length, token⟩ := by
    intro before after token hpass hmeets
    obtain ⟨passed, hpassed⟩ := tokensFrom_of_passes hpass
    rw [commands_eq_error_iff_tokens, hpassed, tokensFrom_of_meets hmeets, Nat.zero_add]
    rfl
  constructor
  · intro herror
    rcases passes_or_exists_meets text with hall | ⟨before, after, token, hpass, hmeets⟩
    · obtain ⟨passed, hpassed⟩ := exists_commands_of_passes hall
      rw [hpassed] at herror
      cases herror
    · rw [hreported hpass hmeets] at herror
      cases herror
      exact ⟨before, after, hpass, hmeets, rfl⟩
  · rintro ⟨before, after, hpass, hmeets, hposition⟩
    rw [hreported hpass hmeets, ← hposition]

/-- A fault has characters of its own, and the text starts with them. -/
theorem Meets.ne_nil_and_starts {text token : List Char} (h : Meets text token) :
    token ≠ [] ∧ token <+: text := by
  cases h with
  | @number munch _ hmunch _ =>
    obtain ⟨c, hc, -⟩ := hmunch.isNumberStart
    refine ⟨?_, hmunch.front⟩
    intro hnil
    rw [hnil] at hc
    cases hc
  | @character c text _ => exact ⟨List.cons_ne_nil c [], text, rfl⟩

/-- The faults of path data are exact. Reading it byte by byte takes no slice through a
character. It is refused if a fault is met from the left, with the bytes before the fault
for its position; this is a position within the text where a fault starts, and what comes
before it is read. -/
theorem commands_fault_exact (text : List Char) :
    commandsOfBytes? text = some (commands text : Except Fault (List (Command Float))) ∧
      (∀ fault, (commands text : Except Fault (List (Command Float))) = .error fault ↔
        ∃ before after, Passes text before after ∧ Meets after fault.token ∧
          fault.position = (bytes before).length) ∧
      ∀ fault, (commands text : Except Fault (List (Command Float))) = .error fault →
        fault.position < (bytes text).length ∧
          String.Pos.Raw.IsValid (String.ofList text) ⟨fault.position⟩ ∧
          ∃ before after, splitAt? fault.position text = some (before, after) ∧
            fault.token ≠ [] ∧ fault.token <+: after ∧
            ∃ passed, (commands before : Except Fault (List (Command Float))) = .ok passed := by
  refine ⟨commandsOfBytes?_eq text, fun fault => commands_eq_error_iff, fun fault herror => ?_⟩
  obtain ⟨before, after, hpass, hmeets, hposition⟩ := commands_eq_error_iff.mp herror
  obtain ⟨hne, hfront⟩ := hmeets.ne_nil_and_starts
  have htext := hpass.append_eq
  have hsplit : splitAt? fault.position text = some (before, after) :=
    splitAt?_eq_some_iff.mpr ⟨htext.symm, hposition.symm⟩
  have hvalid : (splitAt? fault.position text).isSome = true := by rw [hsplit]; rfl
  refine ⟨?_, isSome_splitAt?_iff.mp hvalid, before, after, hsplit, hne, hfront,
    exists_commands_of_passes hpass.before⟩
  -- the fault itself has bytes
  obtain ⟨rest, hrest⟩ := hfront
  obtain ⟨c, token, htoken⟩ := List.exists_cons_of_ne_nil hne
  have hpos := Char.utf8Size_pos c
  rw [hposition, ← htext, ← hrest, htoken, List.cons_append, bytes_append, List.length_append,
    length_bytes_cons]
  omega

/-- A sign and a point before an exponent are no number, and other characters after them
do not matter. -/
theorem commands_fault_exact_lone_point :
    (commands "L1,2.5-.e3é".toList : Except Fault (List (Command Float))) =
        .error ⟨6, "-.e3".toList⟩ ∧
      6 < (bytes "L1,2.5-.e3é".toList).length ∧
      ∃ passed, (commands "L1,2.5".toList : Except Fault (List (Command Float))) =
        .ok passed := by
  have herror : (commands "L1,2.5-.e3é".toList : Except Fault (List (Command Float))) =
      .error ⟨6, "-.e3".toList⟩ := by decide +kernel
  obtain ⟨hlt, -, before, after, hsplit, -, -, hpassed⟩ :=
    (commands_fault_exact "L1,2.5-.e3é".toList).2.2 _ herror
  refine ⟨herror, hlt, ?_⟩
  have hbefore : splitAt? 6 "L1,2.5-.e3é".toList = some ("L1,2.5".toList, "-.e3é".toList) := by
    decide +kernel
  cases hsplit.symm.trans hbefore
  exact hpassed

end Kerf.Path
