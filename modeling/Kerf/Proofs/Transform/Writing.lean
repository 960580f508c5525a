import Mathlib
import Kerf.Proofs.Decimal.Literal
import Kerf.Transform.Reading

/-!
# Written transforms

A transform may be written as any list of functions, with blanks and commas between them
and with blanks wherever a function admits them. What is read back is its first shift, its
first scaling and its first rotation, and nothing depends on how and in which order they
are written.

- `Call`: a function with arguments, as many as it may have. `IsWriting` are the texts
  that some of them are written as, and `ofCalls` is what they say.
- `fitCall?_list`: a function fits where it is written.
- `isNumeralChar_of_readFloat?`: the letters of numbers are few, so no name of a function
  stands among arguments, nor does it stand across the end of another name
  (`infix_or_infix_of_infix_append_cons`). Functions of other kinds are passed over
  (`findCall?_other`), and the first function of a kind is found at its own place
  (`findCall?_of_isWriting`).
- `read_of_isWriting`: the transform that is read is the one that is said.
-/

namespace Kerf.Transform

/-! ## Characters of numbers -/

/-- What numbers are written with besides digits: signs, points, and the letters of
exponents and of words. -/
def numeralMarks : List Char :=
  ['+', '-', '.', 'e', 'i', 'n', 'f', 't', 'y', 'a']

/-- What numbers are written with, the letters also as capitals. -/
def isNumeralChar (c : Char) : Bool :=
  c.isDigit || numeralMarks.contains c.toLower

theorem isNumeralChar_of_isDigit {c : Char} (h : c.isDigit = true) :
    isNumeralChar c = true := by
  rw [isNumeralChar, h, Bool.true_or]

theorem isNumeralChar_of_toLower_mem {c : Char} {word : List Char} (h : c.toLower ∈ word)
    (hword : word.all numeralMarks.contains = true) : isNumeralChar c = true := by
  rw [isNumeralChar, List.all_eq_true.mp hword _ h, Bool.or_true]

theorem mem_takeSign {text : List Char} {c : Char} (h : c ∈ text) :
    isNumeralChar c = true ∨ c ∈ (Decimal.takeSign text).2 := by
  unfold Decimal.takeSign
  split
  · exact (List.mem_cons.mp h).imp_left fun hc => by rw [hc]; rfl
  · exact (List.mem_cons.mp h).imp_left fun hc => by rw [hc]; rfl
  · exact .inr h

theorem mem_takeFraction {text : List Char} {c : Char} (h : c ∈ text) :
    isNumeralChar c = true ∨ c ∈ (Decimal.takeFraction text).2 := by
  unfold Decimal.takeFraction
  split
  · next rest =>
    rcases List.mem_cons.mp h with rfl | hc
    · exact .inl rfl
    · rw [← List.takeWhile_append_dropWhile (p := Char.isDigit) (l := rest),
        List.mem_append] at hc
      exact hc.imp_left fun hc => isNumeralChar_of_isDigit (List.mem_takeWhile_imp hc)
  · exact .inr h

theorem isNumeralChar_of_readExponent? {text : List Char} {power : ℤ}
    (h : Decimal.readExponent? text = some power) : ∀ c ∈ text, isNumeralChar c = true := by
  cases text with
  | nil => simp
  | cons mark text =>
    intro c hc
    rw [Decimal.readExponent?] at h
    split at h
    · next hmark =>
      rcases List.mem_cons.mp hc with rfl | hc
      · rcases hmark with rfl | rfl <;> rfl
      -- behind the mark a sign, and behind that digits only
      · refine (mem_takeSign hc).elim id fun hdigit => ?_
        rw [Decimal.readSigned?] at h
        dsimp only at h
        split at h
        · cases h
        · next hdigits =>
          rw [Bool.not_eq_true, Bool.or_eq_false_iff, Bool.not_eq_false',
            List.all_eq_true] at hdigits
          exact isNumeralChar_of_isDigit (hdigits.2 c hdigit)
    · cases h

theorem isNumeralChar_of_readDecimal? {text : List Char} {decimal : Nat × ℤ}
    (h : Decimal.readDecimal? text = some decimal) : ∀ c ∈ text, isNumeralChar c = true := by
  intro c hc
  rw [← List.takeWhile_append_dropWhile (p := Char.isDigit) (l := text), List.mem_append] at hc
  rcases hc with hc | hc
  · exact isNumeralChar_of_isDigit (List.mem_takeWhile_imp hc)
  · refine (mem_takeFraction hc).elim id fun hc => ?_
    unfold Decimal.readDecimal? at h
    dsimp only at h
    split at h
    · cases h
    · obtain ⟨power, hpower, -⟩ := Option.map_eq_some_iff.mp h
      exact isNumeralChar_of_readExponent? hpower c hc

/-- What is read as a number has no other characters. -/
theorem isNumeralChar_of_readFloat? {text : List Char}
    (h : (Decimal.readFloat? text).isSome = true) :
    ∀ c ∈ text, isNumeralChar c = true := by
  intro c hc
  refine (mem_takeSign hc).elim id fun hc => ?_
  rw [Decimal.readFloat?, Option.isSome_map, Option.isSome_iff_exists] at h
  obtain ⟨numeral, hnumeral⟩ := h
  -- a character of one of the words is in it, in either case
  have hword : ∀ word : List Char, (Decimal.takeSign text).2.map Char.toLower = word →
      c.toLower ∈ word := by
    rintro word rfl
    exact List.mem_map_of_mem hc
  unfold Decimal.Numeral.read? at hnumeral
  dsimp only at hnumeral
  split at hnumeral
  · next hinfinite =>
    rcases hinfinite with hinf | hinfinity
    · exact isNumeralChar_of_toLower_mem (hword _ hinf) rfl
    · exact isNumeralChar_of_toLower_mem (hword _ hinfinity) rfl
  · split at hnumeral
    · next hnan => exact isNumeralChar_of_toLower_mem (hword _ hnan) rfl
    · obtain ⟨decimal, hdecimal, -⟩ := Option.map_eq_some_iff.mp hnumeral
      exact isNumeralChar_of_readDecimal? hdecimal c hc

/-- The characters of numbers do not end an argument. -/
theorem isArgumentChar_of_isNumeralChar {c : Char} (h : isNumeralChar c = true) :
    isArgumentChar c = true := by
  rw [isArgumentChar, Bool.not_eq_true', ← Bool.not_eq_true]
  simp only [Bool.or_eq_true, beq_iff_eq]
  rintro (((rfl | hblank) | rfl) | rfl)
  · cases h
  · rw [isNumeralChar, Text.isDigit_of_isBlank hblank, Text.toLower_of_isBlank hblank,
      Bool.false_or, List.contains_iff_mem] at h
    have hall : numeralMarks.all (fun d => !Text.isBlank d) = true := rfl
    have hc := List.all_eq_true.mp hall c h
    rw [hblank] at hc
    cases hc
  · cases h
  · cases h

/-! ## Functions and their texts -/

/-- The functions that transforms are written with. -/
inductive Kind where
  | translate
  | scale
  | rotate
  | matrix
  | skewX
  | skewY
  deriving DecidableEq, Repr

namespace Kind

def name : Kind → List Char
  | translate => "translate".toList
  | scale => "scale".toList
  | rotate => "rotate".toList
  | matrix => "matrix".toList
  | skewX => "skewX".toList
  | skewY => "skewY".toList

/-- How many arguments a function takes; functions that are not read may have any number
of them. -/
def counts? : Kind → Option (List Nat)
  | translate | scale => some [1, 2]
  | rotate => some [1, 3]
  | matrix | skewX | skewY => none

end Kind

/-- A number as an argument. -/
structure Argument where
  text : List Char
  isSome_readFloat? : (Decimal.readFloat? text).isSome = true

namespace Argument

/-- The number that an argument is read as. -/
def value (argument : Argument) : Float :=
  (Decimal.readFloat? argument.text).get argument.isSome_readFloat?

theorem read?_text (argument : Argument) : Written.read? argument.text = some argument.value :=
  (Option.some_get _).symm

theorem isArgumentChar_text (argument : Argument) :
    ∀ c ∈ argument.text, isArgumentChar c = true := fun c hc =>
  isArgumentChar_of_isNumeralChar (isNumeralChar_of_readFloat? argument.isSome_readFloat? c hc)

theorem text_ne_nil (argument : Argument) : argument.text ≠ [] := by
  intro hnil
  have hread := argument.isSome_readFloat?
  rw [hnil] at hread
  exact absurd hread (by decide)

end Argument

/-- A function with as many arguments as it takes. -/
structure Call where
  kind : Kind
  arguments : List Argument
  length_mem : ∀ counts ∈ kind.counts?, arguments.length ∈ counts

/-- Blanks, perhaps none. -/
def IsBlanks (run : List Char) : Prop :=
  ∀ c ∈ run, Text.isBlank c = true

instance (run : List Char) : Decidable (IsBlanks run) :=
  List.decidableBAll _ run

/-- Blanks and commas, perhaps none. -/
def IsSpacing (run : List Char) : Prop :=
  ∀ c ∈ run, Text.isBlank c = true ∨ c = ','

instance (run : List Char) : Decidable (IsSpacing run) :=
  List.decidableBAll _ run

/-- What separates two arguments: a comma among blanks, or blanks alone. -/
inductive IsGap : List Char → Prop
  | comma {before after : List Char} (hbefore : IsBlanks before) (hafter : IsBlanks after) :
    IsGap (before ++ ',' :: after)
  | blanks {run : List Char} (hne : run ≠ []) (hrun : IsBlanks run) : IsGap run

/-- The texts that more arguments are written as, behind a first one. -/
inductive IsMore : List Argument → List Char → Prop
  | nil {run : List Char} (hrun : IsBlanks run) : IsMore [] run
  | cons {gap : List Char} {argument : Argument} {rest : List Argument} {text : List Char}
    (hgap : IsGap gap) (hrest : IsMore rest text) :
    IsMore (argument :: rest) (gap ++ (argument.text ++ text))

/-- The texts that arguments are written as between parentheses. -/
inductive IsInside : List Argument → List Char → Prop
  | nil {run : List Char} (hrun : IsBlanks run) : IsInside [] run
  | cons {run : List Char} {argument : Argument} {rest : List Argument} {text : List Char}
    (hrun : IsBlanks run) (hrest : IsMore rest text) :
    IsInside (argument :: rest) (run ++ (argument.text ++ text))

/-- The texts that follow the name of a function with some arguments. -/
inductive IsList : List Argument → List Char → Prop
  | intro {run : List Char} {arguments : List Argument} {text : List Char} (hrun : IsBlanks run)
    (htext : IsInside arguments text) : IsList arguments (run ++ '(' :: (text ++ [')']))

/-- The texts that some functions are written as, one after the other. -/
inductive IsWriting : List Call → List Char → Prop
  | nil {run : List Char} (hrun : IsSpacing run) : IsWriting [] run
  | cons {run : List Char} {call : Call} {list : List Char} {rest : List Call}
    {text : List Char}
    (hrun : IsSpacing run) (hlist : IsList call.arguments list) (hrest : IsWriting rest text) :
    IsWriting (call :: rest) (run ++ (call.kind.name ++ (list ++ text)))

/-- The arguments of the first function of a kind. -/
def firstOf? (kind : Kind) (calls : List Call) : Option (List Argument) :=
  (calls.find? (·.kind = kind)).map Call.arguments

/-- What some functions say: the first shift, the first scaling and the first rotation. -/
def ofCalls (calls : List Call) : Transform Float where
  shift :=
    match firstOf? .translate calls with
    | some [x] => ⟨x.value, 0.0⟩
    | some [x, y] => ⟨x.value, y.value⟩
    | _ => ⟨0.0, 0.0⟩
  scaling :=
    match firstOf? .scale calls with
    | some [factor] => ⟨factor.value, factor.value⟩
    | some [x, y] => ⟨x.value, y.value⟩
    | _ => ⟨1.0, 1.0⟩
  rotation :=
    match firstOf? .rotate calls with
    | some (degrees :: _) => degrees.value
    | _ => 0.0
  center :=
    match firstOf? .rotate calls with
    | some [_, x, y] => ⟨x.value, y.value⟩
    | _ => ⟨0.0, 0.0⟩

/-! ## Where a function fits -/

theorem trimStart_run_cons {run : List Char} (hrun : IsBlanks run) {c : Char}
    (hc : Text.isBlank c = false) (after : List Char) :
    Text.trimStart (run ++ c :: after) = c :: after := by
  refine Text.dropWhile_run_append hrun ?_
  rintro _ ⟨⟩
  exact hc

theorem not_isBlank_of_isArgumentChar {c : Char} (h : isArgumentChar c = true) :
    Text.isBlank c = false ∧ c ≠ ',' ∧ c ≠ ')' := by
  simp only [isArgumentChar, Bool.not_eq_true', Bool.or_eq_false_iff, beq_eq_false_iff_ne] at h
  exact ⟨h.1.1.2, h.1.1.1, h.2⟩

theorem isArgumentChar_of_isBlank {c : Char} (h : Text.isBlank c = true) :
    isArgumentChar c = false := by
  rw [isArgumentChar, h, Bool.or_true, Bool.true_or, Bool.true_or, Bool.not_true]

/-- Behind something else, an argument starts with its own first character. -/
theorem Argument.exists_append_eq_cons (argument : Argument) (text : List Char) :
    ∃ c rest, argument.text ++ text = c :: rest ∧ isArgumentChar c = true := by
  obtain ⟨c, rest, hcons⟩ := List.exists_cons_of_ne_nil argument.text_ne_nil
  refine ⟨c, rest ++ text, by rw [hcons, List.cons_append], ?_⟩
  exact argument.isArgumentChar_text c (hcons ▸ List.mem_cons_self)

theorem Argument.trimStart_run_append (argument : Argument) {run : List Char}
    (hrun : IsBlanks run) (text : List Char) :
    Text.trimStart (run ++ (argument.text ++ text)) = argument.text ++ text := by
  obtain ⟨c, rest, hcons, hc⟩ := argument.exists_append_eq_cons text
  rw [hcons, trimStart_run_cons hrun (not_isBlank_of_isArgumentChar hc).1]

/-- An argument is taken off where something else follows. -/
theorem Argument.takeWhile_append (argument : Argument) {text : List Char}
    (htext : ∀ c ∈ text.head?, isArgumentChar c = false) :
    (argument.text ++ text).takeWhile isArgumentChar = argument.text ∧
      (argument.text ++ text).dropWhile isArgumentChar = text :=
  ⟨Text.takeWhile_run_append argument.isArgumentChar_text htext,
    Text.dropWhile_run_append argument.isArgumentChar_text htext⟩

/-- What separates two arguments is taken off up to the second one. -/
theorem afterSeparator?_gap {gap : List Char} (hgap : IsGap gap) (argument : Argument)
    (text : List Char) :
    (Text.trimStart (gap ++ (argument.text ++ text))).head? ≠ some ')' ∧
      afterSeparator? (gap ++ (argument.text ++ text)) = some (argument.text ++ text) := by
  unfold afterSeparator?
  -- a comma with blanks around it, or blanks without a comma
  cases hgap with
  | @comma before after hbefore hafter =>
    have htrim : Text.trimStart (before ++ ',' :: after ++ (argument.text ++ text)) =
        ',' :: (after ++ (argument.text ++ text)) := by
      rw [List.append_assoc, List.cons_append]
      exact trimStart_run_cons hbefore rfl _
    rw [htrim]
    refine ⟨fun heq => absurd (Option.some.inj heq) (by decide), ?_⟩
    show some (Text.trimStart (after ++ (argument.text ++ text))) = _
    rw [argument.trimStart_run_append hafter]
  | blanks hne hrun =>
    rw [argument.trimStart_run_append hrun]
    obtain ⟨c, rest, hcons, hc⟩ := argument.exists_append_eq_cons text
    obtain ⟨-, hcomma, hparenthesis⟩ := not_isBlank_of_isArgumentChar hc
    -- the blanks that were taken off separate the two
    have hlength :
        (argument.text ++ text).length < (gap ++ (argument.text ++ text)).length := by
      have hpos := List.length_pos_iff.mpr hne
      simp only [List.length_append]
      omega
    rw [hcons] at hlength ⊢
    refine ⟨fun heq => hparenthesis (Option.some.inj heq), ?_⟩
    split
    · next heq => exact absurd (List.cons.inj heq).1 hcomma
    · exact if_pos hlength

theorem isArgumentChar_of_mem_head?_gap {gap : List Char} (hgap : IsGap gap)
    (text : List Char) :
    ∀ c ∈ (gap ++ text).head?, isArgumentChar c = false := by
  intro c hc
  cases hgap with
  | @comma before after hbefore _ =>
    cases before with
    | nil =>
      obtain rfl := Option.some.inj hc
      rfl
    | cons d before =>
      obtain rfl := Option.some.inj hc
      exact isArgumentChar_of_isBlank (hbefore d List.mem_cons_self)
  | blanks hne hrun =>
    obtain ⟨d, run, rfl⟩ := List.exists_cons_of_ne_nil hne
    obtain rfl := Option.some.inj hc
    exact isArgumentChar_of_isBlank (hrun d List.mem_cons_self)

/-- What comes behind an argument ends it. -/
theorem isArgumentChar_of_mem_head?_more {rest : List Argument} {text : List Char}
    (h : IsMore rest text) (after : List Char) :
    ∀ c ∈ (text ++ ')' :: after).head?, isArgumentChar c = false := by
  cases h with
  | nil hrun =>
    cases text with
    | nil =>
      rintro _ ⟨⟩
      rfl
    | cons d run =>
      rintro _ ⟨⟩
      exact isArgumentChar_of_isBlank (hrun d List.mem_cons_self)
  | cons hgap _ =>
    rw [List.append_assoc]
    exact isArgumentChar_of_mem_head?_gap hgap _

/-- The arguments after the first are read up to the closing parenthesis. -/
theorem fitArguments?_more {rest : List Argument} {text : List Char} (h : IsMore rest text)
    {count : Nat} (hcount : rest.length ≤ count) (after : List Char) :
    fitArguments? count (text ++ ')' :: after) = some (rest.map Argument.text) := by
  induction h generalizing count with
  | nil hrun =>
    have htrim := trimStart_run_cons hrun (c := ')') rfl after
    cases count with
    | zero => rw [fitArguments?, htrim]; rfl
    | succ count => rw [fitArguments?, htrim]; rfl
  | @cons gap argument rest text hgap hrest ih =>
    cases count with
    | zero => cases hcount
    | succ count =>
      -- the separator, the next argument, and then what is left with one less to come
      obtain ⟨hopen, hafter⟩ := afterSeparator?_gap hgap argument (text ++ ')' :: after)
      obtain ⟨htake, hdrop⟩ :=
        argument.takeWhile_append (isArgumentChar_of_mem_head?_more hrest after)
      have hempty : argument.text.isEmpty = false :=
        List.isEmpty_eq_false_iff.mpr argument.text_ne_nil
      rw [List.append_assoc, List.append_assoc, fitArguments?, if_neg hopen, hafter]
      simp only [Option.bind_eq_bind, Option.bind_some, htake, hdrop, hempty,
        ih (Nat.le_of_succ_le_succ hcount)]
      rfl

/-- A function fits where it is written, if its arguments are counted. -/
theorem fitCall?_list {kind : Kind} {counts : List Nat} (hkind : kind.counts? = some counts)
    {arguments : List Argument} {list : List Char} (hlist : IsList arguments list)
    (hlength : arguments.length ∈ counts) (after : List Char) :
    fitCall? kind.name counts (kind.name ++ (list ++ after)) =
      some (arguments.map Argument.text) := by
  -- there are one to three arguments
  have hcount : 0 < arguments.length ∧ arguments.length ≤ 3 := by
    have hall : ∀ kind : Kind, ∀ counts ∈ kind.counts?, ∀ n ∈ counts, 0 < n ∧ n ≤ 3 := by
      intro kind
      cases kind <;> decide
    exact hall kind counts hkind _ hlength
  -- the name, the opening parenthesis and the first argument
  obtain ⟨hrun, hinside⟩ := hlist
  next run text =>
  cases hinside with
  | nil _ => exact absurd hcount.1 (by decide)
  | @cons inner argument rest text hinner hmore =>
    have hfollow : run ++ '(' :: ((inner ++ (argument.text ++ text)) ++ [')']) ++ after =
        run ++ '(' :: (inner ++ (argument.text ++ (text ++ ')' :: after))) := by
      simp only [List.append_assoc, List.cons_append, List.nil_append]
    have hname := Text.after?_eq_some_iff.mpr
      (rfl : kind.name ++ (run ++ '(' :: (inner ++ (argument.text ++ (text ++ ')' :: after)))) =
        _)
    obtain ⟨htake, hdrop⟩ :=
      argument.takeWhile_append (isArgumentChar_of_mem_head?_more hmore after)
    have hempty : argument.text.isEmpty = false :=
      List.isEmpty_eq_false_iff.mpr argument.text_ne_nil
    have hmoreCount : rest.length ≤ 2 := Nat.le_of_succ_le_succ hcount.2
    have hopen := trimStart_run_cons hrun (c := '(') rfl
    rw [hfollow, fitCall?, hname]
    simp only [Option.bind_eq_bind, Option.bind_some, hopen,
      argument.trimStart_run_append hinner, htake, hdrop, hempty,
      fitArguments?_more hmore hmoreCount, List.length_map]
    exact if_pos hlength

/-! ## Where it does not -/

theorem after?_eq_none_iff {word text : List Char} :
    Text.after? word text = none ↔ ¬word <+: text := by
  rw [Option.eq_none_iff_forall_ne_some]
  constructor
  · rintro hnone ⟨rest, hrest⟩
    exact hnone rest (Text.after?_eq_some_iff.mpr hrest.symm)
  · intro hfront rest hrest
    exact hfront ⟨rest, (Text.after?_eq_some_iff.mp hrest).symm⟩

/-- A word at the front of a text ends before a character that it lacks. -/
theorem prefix_of_prefix_append_cons {word before rest : List Char} {d : Char} (hd : d ∉ word)
    (h : word <+: before ++ d :: rest) : word <+: before := by
  rcases List.prefix_or_prefix_of_prefix h (List.prefix_append before (d :: rest)) with
    hshort | ⟨tail, rfl⟩
  · exact hshort
  · rw [List.prefix_append_right_inj] at h
    cases tail with
    | nil => rw [List.append_nil]
    | cons e tail =>
      obtain ⟨rfl, -⟩ := List.cons_prefix_cons.mp h
      exact absurd (List.mem_append_right before List.mem_cons_self) hd

/-- A word does not stand across a character that it lacks. -/
theorem infix_or_infix_of_infix_append_cons {word before rest : List Char} {d : Char}
    (hd : d ∉ word) (h : word <:+: before ++ d :: rest) :
    word <:+: before ∨ word <:+: rest := by
  induction before with
  | nil =>
    rcases List.infix_cons_iff.mp h with hfront | hlater
    · have hnil : word <+: [] := prefix_of_prefix_append_cons hd hfront
      exact .inl hnil.isInfix
    · exact .inr hlater
  | cons c before ih =>
    rcases List.infix_cons_iff.mp h with hfront | hlater
    · have hbefore : word <+: c :: before := prefix_of_prefix_append_cons hd hfront
      exact .inl hbefore.isInfix
    · exact (ih hlater).imp_left List.infix_cons

/-- Up to a character that it lacks, a name is passed over by where it does not stand. -/
theorem findCall?_append_cons {name before rest : List Char} {d : Char} (counts : List Nat)
    (hd : d ∉ name) (h : ¬name <:+: before) :
    findCall? name counts (before ++ d :: rest) = findCall? name counts rest := by
  have hnone : ∀ text : List Char, ¬name <+: text → fitCall? name counts text = none := by
    intro text htext
    rw [fitCall?, after?_eq_none_iff.mpr htext]
    rfl
  induction before with
  | nil =>
    -- a name that started here would go over the character that it lacks
    have hfit := hnone (d :: rest) fun hfront =>
      have hnil : name <+: [] := prefix_of_prefix_append_cons hd hfront
      h hnil.isInfix
    rw [List.nil_append, findCall?, hfit]
  | cons c before ih =>
    have hfit := hnone (c :: (before ++ d :: rest)) fun hfront =>
      have hbefore : name <+: c :: before := prefix_of_prefix_append_cons hd hfront
      h hbefore.isInfix
    rw [List.cons_append, findCall?, hfit]
    exact ih fun hlater => h (List.infix_cons hlater)

/-- A run of characters that a name lacks is passed over. -/
theorem findCall?_run_append {name run : List Char} (counts : List Nat) (hname : name ≠ [])
    (hrun : ∀ c ∈ run, c ∉ name) (rest : List Char) :
    findCall? name counts (run ++ rest) = findCall? name counts rest := by
  induction run with
  | nil => rfl
  | cons c run ih =>
    have hskip : findCall? name counts ([] ++ c :: (run ++ rest)) = _ :=
      findCall?_append_cons counts (hrun c List.mem_cons_self)
        fun hnil => hname (List.infix_nil.mp hnil)
    exact hskip.trans (ih fun d hd => hrun d (List.mem_cons_of_mem c hd))

/-- What stands between parentheses, besides numbers. -/
def isListChar (c : Char) : Bool :=
  isNumeralChar c || Text.isBlank c || c == ',' || c == '('

theorem isListChar_of_isNumeralChar {c : Char} (h : isNumeralChar c = true) :
    isListChar c = true := by
  rw [isListChar, h]
  rfl

theorem isListChar_of_isBlank {c : Char} (h : Text.isBlank c = true) : isListChar c = true := by
  rw [isListChar, h, Bool.or_true]
  rfl

theorem Argument.isListChar_text (argument : Argument) :
    ∀ c ∈ argument.text, isListChar c = true := fun c hc =>
  isListChar_of_isNumeralChar (isNumeralChar_of_readFloat? argument.isSome_readFloat? c hc)

theorem isListChar_of_mem_gap {gap : List Char} (h : IsGap gap) :
    ∀ c ∈ gap, isListChar c = true := by
  intro c hc
  cases h with
  | comma hbefore hafter =>
    rcases List.mem_append.mp hc with hc | hc
    · exact isListChar_of_isBlank (hbefore c hc)
    · rcases List.mem_cons.mp hc with rfl | hc
      · rfl
      · exact isListChar_of_isBlank (hafter c hc)
  | blanks _ hrun => exact isListChar_of_isBlank (hrun c hc)

theorem isListChar_of_mem_more {arguments : List Argument} {text : List Char}
    (h : IsMore arguments text) : ∀ c ∈ text, isListChar c = true := by
  induction h with
  | nil hrun => exact fun c hc => isListChar_of_isBlank (hrun c hc)
  | @cons gap argument rest text hgap _ ih =>
    intro c hc
    rcases List.mem_append.mp hc with hc | hc
    · exact isListChar_of_mem_gap hgap c hc
    · exact (List.mem_append.mp hc).elim (argument.isListChar_text c) (ih c)

theorem isListChar_of_mem_inside {arguments : List Argument} {text : List Char}
    (h : IsInside arguments text) : ∀ c ∈ text, isListChar c = true := by
  intro c hc
  cases h with
  | nil hrun => exact isListChar_of_isBlank (hrun c hc)
  | @cons run argument rest text hrun hrest =>
    rcases List.mem_append.mp hc with hc | hc
    · exact isListChar_of_isBlank (hrun c hc)
    · exact (List.mem_append.mp hc).elim (argument.isListChar_text c)
        (isListChar_of_mem_more hrest c)

/-- A list of arguments opens with a character of no name and closes with a parenthesis. -/
theorem exists_eq_of_isList {arguments : List Argument} {list : List Char}
    (h : IsList arguments list) :
    ∃ d inner, list = d :: inner ++ [')'] ∧ isArgumentChar d = false ∧
      ∀ c ∈ inner, isListChar c = true := by
  obtain ⟨hrun, htext⟩ := h
  next run text =>
  have hinner : ∀ c ∈ text, isListChar c = true := isListChar_of_mem_inside htext
  -- blanks may come before the parenthesis, and the first one is then what it opens with
  cases run with
  | nil => exact ⟨'(', text, by rw [List.nil_append, List.cons_append], rfl, hinner⟩
  | cons d run =>
    refine ⟨d, run ++ '(' :: text, ?_,
      isArgumentChar_of_isBlank (hrun d List.mem_cons_self), ?_⟩
    · rw [List.cons_append, List.cons_append, List.append_assoc, List.cons_append]
    · intro c hc
      rcases List.mem_append.mp hc with hc | hc
      · exact isListChar_of_isBlank (hrun c (List.mem_cons_of_mem d hc))
      · rcases List.mem_cons.mp hc with rfl | hc
        · rfl
        · exact hinner c hc

namespace Kind

/-- Names have letters only, so they lack what stands around and between arguments. -/
theorem isArgumentChar_of_mem_name {kind : Kind} {c : Char} (h : c ∈ kind.name) :
    isArgumentChar c = true := by
  have hall : kind.name.all isArgumentChar = true := by cases kind <;> rfl
  exact List.all_eq_true.mp hall c h

theorem name_ne_nil (kind : Kind) : kind.name ≠ [] := by
  cases kind <;> exact List.cons_ne_nil _ _

/-- Each name has a letter that is in no number. -/
theorem not_name_within {kind : Kind} {text : List Char}
    (htext : ∀ c ∈ text, isListChar c = true) : ¬kind.name <:+: text := by
  intro hwithin
  have hall : kind.name.all isListChar = false := by cases kind <;> rfl
  refine Bool.false_ne_true (hall.symm.trans (List.all_eq_true.mpr fun c hc => ?_))
  exact htext c (hwithin.subset hc)

/-- No name stands in another one. -/
theorem eq_of_name_infix_name {kind other : Kind} (h : kind.name <:+: other.name) :
    kind = other := by
  cases kind <;> cases other <;> first | rfl | exact absurd h (by decide)

end Kind

/-- A function of another kind is passed over. -/
theorem findCall?_other {kind other : Kind} (counts : List Nat) (hother : other ≠ kind)
    {arguments : List Argument} {list : List Char} (hlist : IsList arguments list)
    (rest : List Char) :
    findCall? kind.name counts (other.name ++ (list ++ rest)) =
      findCall? kind.name counts rest := by
  obtain ⟨d, inner, rfl, hd, hinner⟩ := exists_eq_of_isList hlist
  have hlacks : ∀ c, isArgumentChar c = false → c ∉ kind.name := by
    intro c hc hmem
    rw [Kind.isArgumentChar_of_mem_name hmem] at hc
    cases hc
  -- the name stands neither in that of the other kind nor among the arguments
  have hnot : ¬kind.name <:+: other.name ++ d :: inner := by
    intro hwithin
    rcases infix_or_infix_of_infix_append_cons (hlacks d hd) hwithin with hname | hinside
    · exact hother (Kind.eq_of_name_infix_name hname).symm
    · exact Kind.not_name_within hinner hinside
  have hsplit : other.name ++ (d :: inner ++ [')'] ++ rest) =
      (other.name ++ d :: inner) ++ ')' :: rest := by
    simp only [List.append_assoc, List.cons_append, List.nil_append]
  rw [hsplit]
  exact findCall?_append_cons counts (hlacks ')' rfl) hnot

/-! ## The first of each kind -/

theorem firstOf?_cons_of_eq {kind : Kind} {call : Call} (h : call.kind = kind)
    (rest : List Call) :
    firstOf? kind (call :: rest) = some call.arguments := by
  simp [firstOf?, h]

theorem firstOf?_cons_of_ne {kind : Kind} {call : Call} (h : call.kind ≠ kind)
    (rest : List Call) :
    firstOf? kind (call :: rest) = firstOf? kind rest := by
  simp [firstOf?, h]

theorem findCall?_eq_some {name text : List Char} {counts : List Nat}
    {arguments : List (List Char)} (h : fitCall? name counts text = some arguments) :
    findCall? name counts text = some arguments := by
  cases text with
  | nil =>
    cases name with
    | nil => cases h
    | cons c name => cases h
  | cons c text => rw [findCall?, h]

/-- The first function of a kind is found, if its arguments are counted. -/
theorem findCall?_of_isWriting (kind : Kind) {counts : List Nat}
    (hkind : kind.counts? = some counts) {calls : List Call} {text : List Char}
    (h : IsWriting calls text) :
    findCall? kind.name counts text = (firstOf? kind calls).map (List.map Argument.text) := by
  have hlacks : ∀ c : Char, Text.isBlank c = true ∨ c = ',' → c ∉ kind.name := by
    intro c hc hmem
    have hname := not_isBlank_of_isArgumentChar (Kind.isArgumentChar_of_mem_name hmem)
    rcases hc with hblank | rfl
    · rw [hname.1] at hblank
      cases hblank
    · exact hname.2.1 rfl
  induction h with
  | @nil run hrun =>
    have hskip := findCall?_run_append counts kind.name_ne_nil
      (fun c hc => hlacks c (hrun c hc)) []
    rwa [List.append_nil] at hskip
  | @cons run call list rest text hrun hlist _ ih =>
    rw [findCall?_run_append counts kind.name_ne_nil (fun c hc => hlacks c (hrun c hc))]
    -- the first function is found if it is of the kind, and else passed over
    by_cases hsame : call.kind = kind
    · subst hsame
      rw [findCall?_eq_some (fitCall?_list hkind hlist (call.length_mem counts hkind) text),
        firstOf?_cons_of_eq rfl]
      rfl
    · rw [findCall?_other counts hsame hlist, ih, firstOf?_cons_of_ne hsame]

/-- The arguments of the first function of a kind are as many as it takes. -/
theorem length_mem_of_firstOf? {kind : Kind} {counts : List Nat}
    (hkind : kind.counts? = some counts) {calls : List Call} {arguments : List Argument}
    (h : firstOf? kind calls = some arguments) : arguments.length ∈ counts := by
  obtain ⟨call, hcall, rfl⟩ := Option.map_eq_some_iff.mp h
  have hsame : call.kind = kind := by simpa using List.find?_some hcall
  subst hsame
  exact call.length_mem counts hkind

theorem argument?_map_text (arguments : List Argument) (index : Nat) :
    argument? (arguments.map Argument.text) index = (arguments[index]?).map Argument.value := by
  rw [argument?, List.getElem?_map]
  cases arguments[index]? with
  | none => rfl
  | some argument => exact argument.read?_text

/-- Where a function takes one or two arguments, it has them. -/
theorem eq_or_eq_of_length_mem {arguments : List Argument} (h : arguments.length ∈ [1, 2]) :
    (∃ x, arguments = [x]) ∨ ∃ x y, arguments = [x, y] := by
  rw [List.mem_cons, List.mem_singleton, List.length_eq_one_iff, List.length_eq_two] at h
  exact h

/-- Where a function takes one or three arguments, it has them. -/
theorem eq_or_eq_of_length_mem_one_three {arguments : List Argument}
    (h : arguments.length ∈ [1, 3]) :
    (∃ x, arguments = [x]) ∨ ∃ x y z, arguments = [x, y, z] := by
  rw [List.mem_cons, List.mem_singleton, List.length_eq_one_iff, List.length_eq_three] at h
  exact h

section

variable {calls : List Call} {text : List Char}

theorem readShift_of_isWriting (h : IsWriting calls text) :
    readShift text = (ofCalls calls).shift := by
  have hfind : findCall? "translate".toList [1, 2] text = _ :=
    findCall?_of_isWriting .translate rfl h
  rw [readShift, hfind, ofCalls]
  cases hfirst : firstOf? .translate calls with
  | none => rfl
  | some arguments =>
    simp only [Option.map_some, Option.getD_some, argument?_map_text]
    obtain ⟨x, rfl⟩ | ⟨x, y, rfl⟩ := eq_or_eq_of_length_mem (length_mem_of_firstOf? rfl hfirst)
    · rfl
    · rfl

theorem readScaling_of_isWriting (h : IsWriting calls text) :
    readScaling text = (ofCalls calls).scaling := by
  have hfind : findCall? "scale".toList [1, 2] text = _ :=
    findCall?_of_isWriting .scale rfl h
  rw [readScaling, hfind, ofCalls]
  cases hfirst : firstOf? .scale calls with
  | none => rfl
  | some arguments =>
    simp only [Option.map_some, Option.getD_some, argument?_map_text]
    obtain ⟨x, rfl⟩ | ⟨x, y, rfl⟩ := eq_or_eq_of_length_mem (length_mem_of_firstOf? rfl hfirst)
    · rfl
    · rfl

theorem readRotation_of_isWriting (h : IsWriting calls text) :
    readRotation text = ((ofCalls calls).rotation, (ofCalls calls).center) := by
  have hfind : findCall? "rotate".toList [1, 3] text = _ :=
    findCall?_of_isWriting .rotate rfl h
  rw [readRotation, hfind, ofCalls]
  cases hfirst : firstOf? .rotate calls with
  | none => rfl
  | some arguments =>
    simp only [Option.map_some, Option.getD_some, argument?_map_text]
    obtain ⟨x, rfl⟩ | ⟨x, y, z, rfl⟩ :=
      eq_or_eq_of_length_mem_one_three (length_mem_of_firstOf? rfl hfirst)
    · rfl
    · rfl

/-- A written transform is read as what its functions say. It does not matter how they are
written, nor which other functions there are and where, as long as the first ones stay the
same. -/
theorem read_of_isWriting (h : IsWriting calls text) :
    read text = ofCalls calls ∧
      ∀ others other, IsWriting others other →
        (∀ kind ∈ [Kind.translate, Kind.scale, Kind.rotate],
          firstOf? kind others = firstOf? kind calls) →
        (read other : Transform Float) = read text := by
  have hread : ∀ {calls : List Call} {text : List Char}, IsWriting calls text →
      read text = ofCalls calls := by
    intro calls text h
    rw [read, readShift_of_isWriting h, readScaling_of_isWriting h, readRotation_of_isWriting h]
  refine ⟨hread h, fun others other hother hsame => ?_⟩
  rw [hread h, hread hother, ofCalls, ofCalls, hsame .translate (by decide),
    hsame .scale (by decide), hsame .rotate (by decide)]

/-- A later shift and functions that are not read change nothing, nor does another order. -/
theorem read_of_isWriting_interleaved :
    ∃ calls others : List Call,
      IsWriting calls "scale( 2 ) ,rotate(45,1 2)translate (3)matrix()".toList ∧
      IsWriting others "translate(3)scale(2 )translate(2)rotate(45 1,2)".toList ∧
      ofCalls calls = ⟨⟨3.0, 0.0⟩, ⟨2.0, 2.0⟩, 45.0, ⟨1.0, 2.0⟩⟩ ∧
      read "scale( 2 ) ,rotate(45,1 2)translate (3)matrix()".toList = ofCalls calls ∧
      (read "translate(3)scale(2 )translate(2)rotate(45 1,2)".toList : Transform Float) =
        read "scale( 2 ) ,rotate(45,1 2)translate (3)matrix()".toList := by
  let one : Argument := ⟨['1'], by decide⟩
  let two : Argument := ⟨['2'], by decide⟩
  let three : Argument := ⟨['3'], by decide⟩
  let angle : Argument := ⟨['4', '5'], by decide⟩
  let translate : Call := ⟨.translate, [three], by decide⟩
  let later : Call := ⟨.translate, [two], by decide⟩
  let scale : Call := ⟨.scale, [two], by decide⟩
  let rotate : Call := ⟨.rotate, [angle, one, two], by decide⟩
  let matrix : Call := ⟨.matrix, [], by decide⟩
  have hempty : IsSpacing [] := by decide
  have hspacing : IsSpacing [' ', ','] := by decide
  have hnone : IsBlanks [] := by decide
  have hblank : IsBlanks [' '] := by decide
  have hclose : IsMore [] [] := .nil hnone
  have hcomma : IsGap ([] ++ [',']) := .comma hnone hnone
  have hgap : IsGap [' '] := .blanks (by decide) hblank
  -- a function that is not read, and a comma that separates functions
  have hwriting : IsWriting [scale, rotate, translate, matrix] _ :=
    .cons hempty (.intro hnone (.cons hblank (.nil hblank)))
      (.cons hspacing
        (.intro hnone (.cons hnone (.cons hcomma (.cons hgap hclose))))
        (.cons hempty (.intro hblank (.cons hnone hclose))
          (.cons hempty (.intro hnone (.nil hnone)) (.nil hempty))))
  -- a second shift, and the arguments of the turn separated the other way
  have hother : IsWriting [translate, scale, later, rotate] _ :=
    .cons hempty (.intro hnone (.cons hnone hclose))
      (.cons hempty (.intro hnone (.cons hnone (.nil hblank)))
        (.cons hempty (.intro hnone (.cons hnone hclose))
          (.cons hempty
            (.intro hnone (.cons hnone (.cons hgap (.cons hcomma hclose))))
            (.nil hempty))))
  have hread := read_of_isWriting hwriting
  refine ⟨_, _, hwriting, hother, by decide +kernel, hread.1, hread.2 _ _ hother ?_⟩
  intro kind hkind
  fin_cases hkind <;> rfl

end

end Kerf.Transform
