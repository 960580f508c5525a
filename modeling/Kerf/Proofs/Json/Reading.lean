import Kerf.Proofs.Json.Number
import Mathlib.Data.List.DropRight

/-!
# What is written as JSON is taken off again

`ReadsAs datum read` says that the text of one datum is taken off as another one, wherever
it stands in front of a comma or a line feed, with no more fuel than the text has
characters. Truth values and whole numbers that fit are read as themselves, floats as what
`reread` gives (`readsAs_flag`, `readsAs_whole`, `readsAs_real`), and a record whose
members are read as others is read as the record of those (`readsAs_record`). So a text is
read as what its datum is read as (`read?_write`).
-/

namespace Kerf.Json

open Decimal

variable {rest : List Char}

/-! ## Names -/

/-- A character that is written as it is. -/
structure IsPlain (c : Char) : Prop where
  least : 0x20 ≤ c.toNat
  greatest : c.toNat < 0x7F
  quote : c ≠ '"'
  slash : c ≠ '\\'

instance (c : Char) : Decidable (IsPlain c) :=
  decidable_of_iff (0x20 ≤ c.toNat ∧ c.toNat < 0x7F ∧ c ≠ '"' ∧ c ≠ '\\')
    ⟨fun ⟨least, greatest, quote, slash⟩ => ⟨least, greatest, quote, slash⟩,
      fun ⟨least, greatest, quote, slash⟩ => ⟨least, greatest, quote, slash⟩⟩

/-- A name that is written as it is. -/
def IsPlainName (name : List Char) : Prop :=
  ∀ c ∈ name, IsPlain c

instance (name : List Char) : Decidable (IsPlainName name) :=
  decidable_of_iff ((name.all fun c => decide (IsPlain c)) = true) (by simp [IsPlainName])

theorem writeChar_of_isPlain {c : Char} (h : IsPlain c) : writeChar c = [c] := by
  have hne : ∀ d : Char, d.toNat < 0x20 → c ≠ d := by
    rintro d hd rfl
    have hleast := h.least
    omega
  have hcontrol : ¬ c.toNat < 0x20 := Nat.not_lt.mpr h.least
  rw [writeChar, if_neg h.quote, if_neg h.slash, if_neg (hne _ (by decide)),
    if_neg (hne _ (by decide)), if_neg (hne _ (by decide)), if_neg (hne _ (by decide)),
    if_neg (hne _ (by decide)), if_neg hcontrol]

theorem takeUnits?_append {name : List Char} (hname : IsPlainName name) (rest : List Char) :
    takeUnits? (name ++ '"' :: rest) = some (name.map Char.toNat, rest) := by
  induction name with
  | nil => rfl
  | cons c name ih =>
    obtain ⟨hc, hname⟩ := List.forall_mem_cons.mp hname
    have hstop : ¬(c.toNat < 0x20 ∨ c = '\\') := by
      rintro (hcontrol | hslash)
      · exact absurd hc.least (Nat.not_le.mpr hcontrol)
      · exact hc.slash hslash
    rw [List.cons_append, takeUnits?, if_neg hstop, ih hname]
    · rfl
    · exact hc.quote
    · exact fun _ _ _ _ _ heq => absurd heq hc.slash
    · exact fun _ _ heq => absurd heq hc.slash

theorem joinUnits?_of_isPlain {name : List Char} (hname : IsPlainName name) :
    joinUnits? (name.map Char.toNat) = some name := by
  induction name with
  | nil => rfl
  | cons c name ih =>
    obtain ⟨hc, hname⟩ := List.forall_mem_cons.mp hname
    have hgreatest := hc.greatest
    have hunit : Char.ofNat c.toNat = c := Char.ofNat_toNat c
    -- plain characters are no surrogates, so no unit is joined with the next one
    cases name with
    | nil =>
      show (if 0xD800 ≤ c.toNat ∧ c.toNat < 0xE000 then none else some [Char.ofNat c.toNat]) = _
      rw [if_neg (by omega), hunit]
    | cons d name =>
      have hrest := ih hname
      rw [List.map_cons] at hrest
      rw [List.map_cons, List.map_cons, joinUnits?, if_neg (by omega), if_neg (by omega), hrest,
        Option.map_some, hunit]

/-- A plain name is taken off as it is written. -/
theorem takeString?_append {name : List Char} (hname : IsPlainName name) (rest : List Char) :
    takeString? (name.flatMap writeChar ++ '"' :: rest) = some (some name, rest) := by
  have hwrite : name.flatMap writeChar = name := by
    induction name with
    | nil => rfl
    | cons c name ih =>
      obtain ⟨hc, hname⟩ := List.forall_mem_cons.mp hname
      rw [List.flatMap_cons, writeChar_of_isPlain hc, ih hname]
      rfl
  rw [hwrite, takeString?, takeUnits?_append hname, Option.map_some]
  show some (joinUnits? (name.map Char.toNat), rest) = _
  rw [joinUnits?_of_isPlain hname]

/-! ## Blanks -/

theorem skipBlank_of_head {text : List Char} (h : ∀ c ∈ text.head?, isBlank c = false) :
    skipBlank text = text :=
  Text.dropWhile_of_head h

theorem skipBlank_newLine (level : Nat) (text : List Char) :
    skipBlank (newLine level ++ text) = skipBlank text := by
  show List.dropWhile isBlank (List.replicate (2 * level) ' ' ++ text) = _
  generalize 2 * level = count
  induction count with
  | zero => rfl
  | succ count ih => exact ih

/-! ## Values -/

/-- The text of a datum is taken off as another datum. -/
def ReadsAs (datum read : Datum) : Prop :=
  ∀ (level fuel : Nat) (rest : List Char), Literal.Stops rest →
    (writeAt level datum).length ≤ fuel →
      takeValue? fuel (writeAt level datum ++ rest) = some (read, rest)

theorem readsAs_flag (flag : Bool) : ReadsAs (.flag flag) (.flag flag) := by
  intro level fuel rest _ hfuel
  cases fuel with
  | zero => cases flag <;> simp [writeAt] at hfuel
  | succ fuel => cases flag <;> simp [writeAt, takeValue?, skipBlank, isBlank]

/-- Numbers start like no other value. -/
theorem takeValue?_append {literal : Literal} (hstrict : literal.IsStrict)
    (hrest : Literal.Stops rest) (fuel : Nat) :
    takeValue? (fuel + 1) (literal.text ++ rest) = some ((numberOf literal).datum, rest) := by
  have htake := takeNumber?_append hstrict hrest
  obtain ⟨c, tail, htext, hne⟩ := hstrict.exists_text_eq_cons
  rw [htext, List.cons_append] at htake ⊢
  have hblank : isBlank c = false := by
    simp only [isBlank, Bool.or_eq_false_iff, beq_eq_false_iff_ne]
    exact ⟨⟨⟨hne _ rfl (by decide), hne _ rfl (by decide)⟩, hne _ rfl (by decide)⟩,
      hne _ rfl (by decide)⟩
  -- no blank is skipped, for a number starts with a digit or a minus
  have hskip : skipBlank (c :: (tail ++ rest)) = c :: (tail ++ rest) := by
    refine skipBlank_of_head ?_
    rintro _ ⟨⟩
    exact hblank
  rw [takeValue?, hskip]
  -- every other value starts with a character of its own
  split
  · next heq => exact absurd (List.cons.inj heq).1 (hne _ rfl (by decide))
  · next heq => exact absurd (List.cons.inj heq).1 (hne _ rfl (by decide))
  · next heq => exact absurd (List.cons.inj heq).1 (hne _ rfl (by decide))
  · next heq => exact absurd (List.cons.inj heq).1 (hne _ rfl (by decide))
  · next heq => exact absurd (List.cons.inj heq).1 (hne _ rfl (by decide))
  · next heq => exact absurd (List.cons.inj heq).1 (hne _ rfl (by decide))
  · rw [htake]
    rfl

/-- What is written as a literal is read as its number. -/
theorem readsAs_of_literal {datum : Datum} {literal : Literal} (hstrict : literal.IsStrict)
    (hwrite : ∀ level, writeAt level datum = literal.text) :
    ReadsAs datum (numberOf literal).datum := by
  intro level fuel rest hrest hfuel
  rw [hwrite] at hfuel ⊢
  obtain ⟨c, tail, htext, -⟩ := hstrict.exists_text_eq_cons
  have hpos : 0 < literal.text.length := by
    rw [htext]
    exact Nat.succ_pos _
  obtain ⟨fuel, rfl⟩ := Nat.exists_eq_add_one.mpr (hpos.trans_le hfuel)
  exact takeValue?_append hstrict hrest fuel

theorem readsAs_whole {n : Nat} (h : n < wordLimit) : ReadsAs (.whole n) (.whole n) := by
  rw [← datum_ofNat h]
  refine readsAs_of_literal (Literal.isStrict_ofNat n) fun level => ?_
  rw [datum_ofNat h, writeAt, writeWhole_eq_text]

theorem readsAs_real {x : Float} (hfinite : x.isFinite = true) :
    ReadsAs (.real x) (reread x) := by
  obtain ⟨literal, htext, hstrict, hdatum⟩ := exists_literal_writeFloat hfinite
  rw [← hdatum]
  refine readsAs_of_literal hstrict fun level => ?_
  rw [writeAt, htext]

/-! ## Records -/

/-- The text of a member at a level. -/
def memberText (level : Nat) (member : List Char × Datum) : List Char :=
  writeString member.1 ++ [':', ' '] ++ writeAt level member.2

theorem writeMembers_eq_map (level : Nat) (members : List (List Char × Datum)) :
    writeMembers level members = members.map (memberText level) := by
  induction members with
  | nil => rw [writeMembers]; rfl
  | cons member members ih => rw [writeMembers, ih]; rfl

/-- The text of a member is taken off as another member, of the same name. -/
structure ReadsAsMember (member read : List Char × Datum) : Prop where
  name : read.1 = member.1
  isPlain : IsPlainName member.1
  value : ReadsAs member.2 read.2

theorem takeValue?_space (fuel : Nat) (text : List Char) :
    takeValue? fuel (' ' :: text) = takeValue? fuel text := by
  cases fuel with
  | zero => rfl
  | succ fuel => rw [takeValue?, takeValue?]; rfl

/-- A member is taken off, and what follows it is another one after a comma, or the brace
at the end. -/
theorem takeMembers?_append {member read : List Char × Datum} (h : ReadsAsMember member read)
    {level fuel : Nat} (hrest : Literal.Stops rest)
    (hfuel : (memberText level member).length ≤ fuel) :
    takeMembers? (fuel + 1) (newLine level ++ (memberText level member ++ rest)) =
      match skipBlank rest with
      | ',' :: text => do
        let (members, rest) ← takeMembers? fuel text
        return ((some read.1, read.2) :: members, rest)
      | '}' :: rest => return ([(some read.1, read.2)], rest)
      | _ => none := by
  have htext : memberText level member ++ rest =
      '"' :: (member.1.flatMap writeChar ++
        '"' :: ':' :: ' ' :: (writeAt level member.2 ++ rest)) := by
    simp [memberText, writeString]
  have hlength : (writeAt level member.2).length ≤ fuel := by
    refine Nat.le_trans ?_ hfuel
    rw [memberText, List.length_append]
    exact Nat.le_add_left ..
  -- the name, the colon and the value are taken off in turn
  have hvalue := h.value level fuel rest hrest hlength
  rw [takeMembers?, skipBlank_newLine, htext]
  show (takeString?
    (member.1.flatMap writeChar ++ '"' :: ':' :: ' ' :: (writeAt level member.2 ++ rest))
    >>= _) = _
  rw [takeString?_append h.isPlain]
  show (takeValue? fuel (' ' :: (writeAt level member.2 ++ rest)) >>= _) = _
  rw [takeValue?_space, hvalue, h.name]
  rfl

/-- The lines of members, each on one of its own and with commas between them. -/
def memberLines (level : Nat) (members : List (List Char × Datum)) : List Char :=
  List.intercalate [','] (members.map fun member => newLine level ++ memberText level member)

theorem memberLines_cons (level : Nat) (member : List Char × Datum)
    (members : List (List Char × Datum)) :
    memberLines level (member :: members) = newLine level ++ (memberText level member ++
      if members = [] then [] else ',' :: memberLines level members) := by
  cases members with
  | nil => simp [memberLines, List.intercalate]
  | cons other members => simp [memberLines, List.intercalate]

/-- **Members are taken off** up to the brace behind them. -/
theorem takeMembers?_memberLines {members reads : List (List Char × Datum)}
    (h : List.Forall₂ ReadsAsMember members reads) (hne : members ≠ []) {level below fuel : Nat}
    (hfuel : (memberLines level members).length ≤ fuel) (rest : List Char) :
    takeMembers? fuel (memberLines level members ++ (newLine below ++ '}' :: rest)) =
      some (reads.map fun (name, datum) => (some name, datum), rest) := by
  induction h generalizing fuel with
  | nil => exact absurd rfl hne
  | @cons member read members reads hmember hmembers ih =>
    rw [memberLines_cons] at hfuel ⊢
    rw [List.length_append, newLine, List.length_cons, List.length_append] at hfuel
    obtain ⟨fuel, rfl⟩ : ∃ before, fuel = before + 1 := ⟨fuel - 1, by omega⟩
    have hlength : (memberText level member).length ≤ fuel := by omega
    rw [List.append_assoc, List.append_assoc]
    by_cases hlast : members = []
    -- behind the last member stands the brace
    · subst hlast
      cases hmembers
      have hstops : Literal.Stops (newLine below ++ '}' :: rest) :=
        Literal.stops_cons (.inr rfl) _
      rw [if_pos rfl, List.nil_append, takeMembers?_append hmember hstops hlength,
        skipBlank_newLine]
      rfl
    -- behind the others stands a comma, and one unit of fuel less is left for the rest
    · rw [if_neg hlast] at hfuel ⊢
      rw [List.length_cons] at hfuel
      have hstops : Literal.Stops
          (',' :: memberLines level members ++ (newLine below ++ '}' :: rest)) :=
        Literal.stops_cons (.inl rfl) _
      rw [takeMembers?_append hmember hstops hlength]
      show (takeMembers? fuel (memberLines level members ++ (newLine below ++ '}' :: rest)) >>=
        _) = _
      rw [ih hlast (by omega)]
      rfl

theorem recordOf_some (members : List (List Char × Datum)) :
    recordOf (members.map fun (name, datum) => (some name, datum)) = .record members := by
  have hmapM : (members.map fun member => (some member.1, member.2)).mapM
      (fun member : Option (List Char) × Datum => member.1.map fun name => (name, member.2)) =
      some members := by
    induction members with
    | nil => rfl
    | cons member members ih => rw [List.map_cons, List.mapM_cons, ih]; rfl
  unfold recordOf
  split
  · next found hfound => rw [Option.some.inj (hfound.symm.trans hmapM)]
  · next hnone => cases hnone.symm.trans hmapM

/-- Behind the blanks, the first member starts with a quote. -/
theorem exists_skipBlank_memberLines {level : Nat} {members : List (List Char × Datum)}
    (hne : members ≠ []) (rest : List Char) :
    ∃ text, skipBlank (memberLines level members ++ rest) = '"' :: text := by
  obtain ⟨member, others, rfl⟩ := List.exists_cons_of_ne_nil hne
  rw [memberLines_cons, List.append_assoc, skipBlank_newLine]
  exact ⟨_, rfl⟩

theorem takeMembers?_skipBlank (fuel : Nat) (text : List Char) :
    takeMembers? fuel (skipBlank text) = takeMembers? fuel text := by
  have htwice : skipBlank (skipBlank text) = skipBlank text := List.dropWhile_idempotent ..
  cases fuel with
  | zero => rfl
  | succ fuel => rw [takeMembers?, takeMembers?, htwice]

/-- Members follow an opening brace. -/
theorem takeValue?_brace {text tail : List Char} (h : skipBlank text = '"' :: tail)
    (fuel : Nat) :
    takeValue? (fuel + 1) ('{' :: text) =
      (takeMembers? fuel text).map fun (members, rest) => (recordOf members, rest) := by
  have hopen : skipBlank ('{' :: text) = '{' :: text := rfl
  rw [← takeMembers?_skipBlank, h, takeValue?, hopen]
  split
  · next heq => exact absurd (List.cons.inj heq).1 (by decide)
  · next heq => exact absurd (List.cons.inj heq).1 (by decide)
  · next heq => exact absurd (List.cons.inj heq).1 (by decide)
  · next heq => exact absurd (List.cons.inj heq).1 (by decide)
  · next heq => exact absurd (List.cons.inj heq).1 (by decide)
  · next heq =>
    rw [← (List.cons.inj heq).2, h]
    rfl
  · next hnone => exact absurd rfl (hnone text)

/-- **A record is read as the record of what its members are read as.** -/
theorem readsAs_record {members reads : List (List Char × Datum)}
    (h : List.Forall₂ ReadsAsMember members reads) :
    ReadsAs (.record members) (.record reads) := by
  intro level fuel rest _ hfuel
  rw [writeAt, writeMembers_eq_map] at hfuel ⊢
  by_cases hnil : members = []
  -- a record without members is written on one line
  · subst hnil
    cases h
    obtain ⟨fuel, rfl⟩ : ∃ before, fuel = before + 1 :=
      Nat.exists_eq_add_one.mpr (Nat.zero_lt_of_lt hfuel)
    rw [takeValue?]
    rfl
  · have htext : enclose '{' '}' level (members.map (memberText (level + 1))) =
        '{' :: (memberLines (level + 1) members ++ (newLine level ++ ['}'])) := by
      rw [enclose, if_neg (by simpa using hnil), List.map_map, List.append_assoc]
      rfl
    rw [htext, List.length_cons, List.length_append] at hfuel
    obtain ⟨fuel, rfl⟩ : ∃ before, fuel = before + 1 := ⟨fuel - 1, by omega⟩
    -- a quotation mark follows the brace, so members are taken off
    obtain ⟨tail, hstart⟩ : ∃ tail,
        skipBlank (memberLines (level + 1) members ++ (newLine level ++ '}' :: rest)) =
          '"' :: tail :=
      exists_skipBlank_memberLines hnil _
    rw [htext, List.cons_append, List.append_assoc, List.append_assoc, List.singleton_append,
      takeValue?_brace hstart, takeMembers?_memberLines h hnil (by omega)]
    show some (recordOf (reads.map _), rest) = _
    rw [recordOf_some]

/-- **A text is read as what its datum is read as.** -/
theorem read?_write {datum read : Datum} (h : ReadsAs datum read) :
    read? (write datum) = some read := by
  have htake := h 0 ((write datum).length + 1) [] Literal.stops_nil (Nat.le_succ _)
  rw [List.append_nil] at htake
  show (takeValue? ((write datum).length + 1) (write datum) >>= _) = _
  rw [show takeValue? ((write datum).length + 1) (write datum) = some (read, []) from htake]
  rfl

end Kerf.Json
