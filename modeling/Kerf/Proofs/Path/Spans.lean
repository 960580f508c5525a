import Mathlib
import Kerf.Proofs.Path.Pattern

/-!
# The spans of path data

Path data is read byte by byte, in one go over each separator, letter and number. What is
gone over at once is a `Span`, and it has at least one byte (`spanAt?_bounds`), so reading
gets on and ends.

- `Run`: the spans from one offset to another, each starting where the one before it ends.
- `Run.countP_holds`: a byte between the offsets is in one of them, and any other byte in
  none.
- `exists_isReading`: what is read comes from such spans. They go on to the end of the
  data or to the fault that is reported.
- `scanEnd_longest_and_spans_cover`: how far a number goes, and that reading goes over
  each byte before its end once.
-/

namespace Kerf.Path

/-! ## Spans -/

inductive SpanKind where
  | separator
  | letter
  | number
  deriving DecidableEq, Repr

/-- Some bytes that are read at once. -/
structure Span where
  kind : SpanKind
  start : Nat
  /-- The offset behind the last byte. -/
  stop : Nat
  deriving DecidableEq, Repr

/-- Whether a byte belongs to a span. -/
def Span.holds (span : Span) (i : Nat) : Bool :=
  decide (span.start ≤ i) && decide (i < span.stop)

/-- The span that starts at an offset, if one does. -/
def spanAt? (data : List UInt8) (i : Nat) : Option Span :=
  byteAt? data i >>= fun c =>
    if isSeparator c then some ⟨.separator, i, i + 1⟩
    else if c.isAlpha then some ⟨.letter, i, i + 1⟩
    else if isNumberStart c then some ⟨.number, i, scanEnd data i⟩
    else none

theorem spanAt?_of_byteAt? {data : List UInt8} {i : Nat} {c : Char}
    (h : byteAt? data i = some c) :
    spanAt? data i =
      if isSeparator c then some ⟨.separator, i, i + 1⟩
      else if c.isAlpha then some ⟨.letter, i, i + 1⟩
      else if isNumberStart c then some ⟨.number, i, scanEnd data i⟩
      else none := by
  rw [spanAt?, h, Option.bind_eq_bind, Option.bind_some]

/-- A span ends behind its start and within the data. -/
theorem spanAt?_bounds {data : List UInt8} {i : Nat} {span : Span}
    (h : spanAt? data i = some span) :
    span.start = i ∧ i < span.stop ∧ span.stop ≤ data.length := by
  obtain ⟨c, hc, -⟩ := Option.bind_eq_some_iff.mp h
  have hlt := lt_length_of_byteAt? hc
  rw [spanAt?_of_byteAt? hc] at h
  split at h
  · cases h
    exact ⟨rfl, i.lt_succ_self, hlt⟩
  · split at h
    · cases h
      exact ⟨rfl, i.lt_succ_self, hlt⟩
    · split at h
      · next hstart =>
        cases h
        exact ⟨rfl, lt_scanEnd hc hstart, scanEnd_le hlt.le⟩
      · cases h

/-- The spans from one offset to another. -/
inductive Run (data : List UInt8) : Nat → List Span → Nat → Prop
  | nil (i : Nat) : Run data i [] i
  | cons {i stop : Nat} {span : Span} {spans : List Span}
    (hspan : spanAt? data i = some span) (hrest : Run data span.stop spans stop) :
    Run data i (span :: spans) stop

namespace Run

variable {data : List UInt8} {i stop : Nat} {spans : List Span}

/-- There are no more spans than bytes. -/
theorem add_length_le (h : Run data i spans stop) : i + spans.length ≤ stop := by
  induction h with
  | nil => exact le_rfl
  | cons hspan _ ih =>
    obtain ⟨-, hlt, -⟩ := spanAt?_bounds hspan
    rw [List.length_cons]
    omega

theorem spanAt?_start (h : Run data i spans stop) {span : Span} (hmem : span ∈ spans) :
    spanAt? data span.start = some span := by
  induction h with
  | nil => cases hmem
  | cons hspan _ ih =>
    rcases List.mem_cons.mp hmem with rfl | hmem
    · rwa [(spanAt?_bounds hspan).1]
    · exact ih hmem

/-- The spans lie side by side, so a byte between the offsets is in one of them only. -/
theorem countP_holds (h : Run data i spans stop) (k : Nat) :
    spans.countP (·.holds k) = if i ≤ k ∧ k < stop then 1 else 0 := by
  induction h with
  | nil i =>
    rw [List.countP_nil, if_neg]
    omega
  | @cons i stop span spans hspan hrest ih =>
    obtain ⟨hstart, hlt, -⟩ := spanAt?_bounds hspan
    have hle := hrest.add_length_le
    have hholds : span.holds k = true ↔ i ≤ k ∧ k < span.stop := by
      rw [Span.holds, hstart, Bool.and_eq_true, decide_eq_true_iff, decide_eq_true_iff]
    rw [List.countP_cons, ih]
    simp only [hholds]
    split_ifs <;> omega

end Run

/-! ## Reading -/

section Reading

variable (α : Type) [Written α]

/-- The token that is read from a span of a text, if one is. -/
def Span.token? (text : List Char) (span : Span) : Option (Token α) :=
  match span.kind with
  | .separator => none
  | .letter => (byteAt? (bytes text) span.start).map .letter
  | .number => (slice? span.start span.stop text >>= Written.read?).map .number

/-- What comes of reading a text as some spans up to an offset: if this is the end of the
text, all their tokens, and otherwise a fault. -/
def IsOutcome (text : List Char) (spans : List Span) (stop : Nat) :
    Except Fault (List (Token α)) → Prop
  | .ok tokens => stop = (bytes text).length ∧ tokens = spans.filterMap (Span.token? α text)
  | .error fault => stop < (bytes text).length ∧ fault.position = stop

/-- Reading a text from an offset goes over some spans. All but separators are read as
tokens. -/
structure IsReading (text : List Char) (i : Nat) (spans : List Span) (stop : Nat)
    (outcome : Except Fault (List (Token α))) : Prop where
  run : Run (bytes text) i spans stop
  token?_eq_none_iff : ∀ span ∈ spans, span.token? α text = none ↔ span.kind = .separator
  outcome : IsOutcome α text spans stop outcome

variable {α} {text : List Char} {i stop : Nat} {span : Span} {spans : List Span}
  {outcome : Except Fault (List (Token α))}

/-- A separator in front changes nothing. -/
theorem IsReading.skip (h : IsReading α text span.stop spans stop outcome)
    (hspan : spanAt? (bytes text) i = some span) (hkind : span.kind = .separator) :
    IsReading α text i (span :: spans) stop outcome := by
  have htoken : span.token? α text = none := by rw [Span.token?, hkind]
  refine ⟨.cons hspan h.run, List.forall_mem_cons.mpr ⟨by simp [htoken, hkind],
    h.token?_eq_none_iff⟩, ?_⟩
  have houtcome := h.outcome
  cases outcome with
  | error fault => exact houtcome
  | ok tokens => exact ⟨houtcome.1, by rw [List.filterMap_cons_none htoken, houtcome.2]⟩

/-- The token of a letter or a number is put in front of the others. -/
theorem IsReading.andThen {token : Token α} (h : IsReading α text span.stop spans stop outcome)
    (hspan : spanAt? (bytes text) i = some span) (hkind : span.kind ≠ .separator)
    (htoken : span.token? α text = some token) :
    IsReading α text i (span :: spans) stop (Path.andThen token outcome) := by
  refine ⟨.cons hspan h.run, List.forall_mem_cons.mpr ⟨by simp [htoken, hkind],
    h.token?_eq_none_iff⟩, ?_⟩
  have houtcome := h.outcome
  cases outcome with
  | error fault => exact houtcome
  | ok tokens => exact ⟨houtcome.1, by rw [List.filterMap_cons_some htoken, houtcome.2]⟩

/-- Where a fault is met, reading has gone over nothing. -/
theorem isReading_fault (h : i < (bytes text).length) (token : List Char) :
    IsReading α text i [] i (.error ⟨i, token⟩) :=
  ⟨.nil i, by simp, h, rfl⟩

/-- What reading does at a byte: it goes over a separator, or it takes a letter or a number
and puts the token in front of what comes behind, or it ends with a fault. -/
theorem tokensAt?_cases {c : Char} (hbyte : byteAt? (bytes text) i = some c)
    (h : tokensAt? text i = some outcome) :
    (∃ span, spanAt? (bytes text) i = some span ∧ span.kind = .separator ∧
      tokensAt? text span.stop = some outcome) ∨
    (∃ span token rest, spanAt? (bytes text) i = some span ∧ span.kind ≠ .separator ∧
      span.token? α text = some token ∧ tokensAt? text span.stop = some rest ∧
      outcome = Path.andThen token rest) ∨
    ∃ token, outcome = .error ⟨i, token⟩ := by
  have hat := spanAt?_of_byteAt? hbyte
  rw [tokensAt?_of_some hbyte] at h
  by_cases hseparator : isSeparator c = true
  · rw [if_pos hseparator] at h hat
    exact .inl ⟨_, hat, rfl, h⟩
  rw [if_neg hseparator] at h hat
  by_cases hletter : c.isAlpha = true
  · rw [if_pos hletter] at h hat
    obtain ⟨rest, hrest, rfl⟩ := Option.map_eq_some_iff.mp h
    have htoken : Span.token? α text ⟨.letter, i, i + 1⟩ = some (.letter c) := by
      rw [Span.token?, hbyte, Option.map_some]
    exact .inr (.inl ⟨_, _, rest, hat, by simp, htoken, hrest, rfl⟩)
  rw [if_neg hletter] at h hat
  by_cases hstart : isNumberStart c = true
  · rw [if_pos hstart] at h hat
    obtain ⟨number, hslice, h⟩ := Option.bind_eq_some_iff.mp h
    -- the slice up to the end of the scan may be no number
    cases hread : (Written.read? number : Option α) with
    | none =>
      rw [hread] at h
      cases h
      exact .inr (.inr ⟨number, rfl⟩)
    | some value =>
      rw [hread] at h
      obtain ⟨rest, hrest, rfl⟩ := Option.map_eq_some_iff.mp h
      have htoken : Span.token? α text ⟨.number, i, scanEnd (bytes text) i⟩ =
          some (.number value) := by
        rw [Span.token?, hslice, Option.bind_eq_bind, Option.bind_some, hread, Option.map_some]
      exact .inr (.inl ⟨_, _, rest, hat, by simp, htoken, hrest, rfl⟩)
  · rw [if_neg hstart] at h
    obtain ⟨parts, -, rfl⟩ := Option.map_eq_some_iff.mp h
    exact .inr (.inr ⟨_, rfl⟩)

/-- What is read comes from spans. The induction is on the bytes that are left, of which
each span takes some. -/
theorem exists_isReading (hi : i ≤ (bytes text).length) (h : tokensAt? text i = some outcome) :
    ∃ spans stop, IsReading α text i spans stop outcome := by
  induction hleft : (bytes text).length - i using Nat.strong_induction_on
    generalizing i outcome with
  | h n ih =>
  subst hleft
  cases hbyte : byteAt? (bytes text) i with
  | none =>
    have hend : i = (bytes text).length := by
      have hnone := List.getElem?_eq_none_iff.mp (Option.map_eq_none_iff.mp hbyte)
      omega
    rw [tokensAt?_of_none hbyte] at h
    cases h
    exact ⟨[], i, .nil i, by simp, hend, rfl⟩
  | some c =>
    -- behind a span fewer bytes are left
    have hnext : ∀ {span : Span} {outcome : Except Fault (List (Token α))},
        spanAt? (bytes text) i = some span → tokensAt? text span.stop = some outcome →
          ∃ spans stop, IsReading α text span.stop spans stop outcome := by
      intro span outcome hspan htokens
      obtain ⟨-, hadvance, hwithin⟩ := spanAt?_bounds hspan
      exact ih _ (by omega) hwithin htokens rfl
    obtain ⟨span, hspan, hkind, htokens⟩ |
      ⟨span, token, rest, hspan, hkind, htoken, htokens, rfl⟩ | ⟨token, rfl⟩ :=
        tokensAt?_cases hbyte h
    · obtain ⟨spans, stop, hreading⟩ := hnext hspan htokens
      exact ⟨_, stop, hreading.skip hspan hkind⟩
    · obtain ⟨spans, stop, hreading⟩ := hnext hspan htokens
      exact ⟨_, stop, hreading.andThen hspan hkind htoken⟩
    · exact ⟨[], i, isReading_fault (lt_length_of_byteAt? hbyte) token⟩

end Reading

/-- **Scanning a number takes as much as it can, and reading path data gets on and ends.**
From a byte that a number may start with, in any bytes, the scan ends where the longest
word of the pattern does: behind its start, within the bytes, and with bytes of ASCII
between. Each span ends behind its start; so reading any text ends, at the end of the
text, or at a fault that is reported. Every byte before that belongs to exactly one
separator, letter or number, and the letters and numbers are what the commands are made
of. -/
theorem scanEnd_longest_and_spans_cover (α : Type) [Written α] :
    (∀ (data : List UInt8) (start : Nat) (c : Char), byteAt? data start = some c →
      isNumberStart c = true →
        IsGreatest {stop | IsNumberEnd data start stop} (scanEnd data start) ∧
          start < scanEnd data start ∧ scanEnd data start ≤ data.length ∧
          ∀ i, start ≤ i → i < scanEnd data start → ∃ b ∈ data[i]?, b.toNat < 128) ∧
    (∀ (data : List UInt8) (i : Nat) (span : Span), spanAt? data i = some span →
      span.start = i ∧ i < span.stop ∧ span.stop ≤ data.length) ∧
    ∀ text : List Char, ∃ spans stop,
      Run (bytes text) 0 spans stop ∧
      (∀ i < stop, spans.countP (·.holds i) = 1) ∧
      (∀ span ∈ spans, span.token? α text = none ↔ span.kind = .separator) ∧
      (stop = (bytes text).length ∧
          commands text = .ok (group (spans.filterMap (Span.token? α text))).2 ∨
        stop < (bytes text).length ∧
          ∃ token, (commands text : Except Fault (List (Command α))) =
            .error ⟨stop, token⟩) := by
  refine ⟨fun data start c hc hstart => ?_, fun _ _ _ => spanAt?_bounds, fun text => ?_⟩
  · have hle := (lt_length_of_byteAt? hc).le
    exact ⟨isGreatest_scanEnd hle, lt_scanEnd hc hstart, scanEnd_le hle,
      fun _ => exists_ascii_of_lt_scanEnd⟩
  -- the whole text is read from its start
  · have htokens : tokensAt? text 0 = some (tokens text : Except Fault (List (Token α))) :=
      tokensAt?_eq [] text
    obtain ⟨spans, stop, hrun, htoken, houtcome⟩ := exists_isReading (Nat.zero_le _) htokens
    refine ⟨spans, stop, hrun, fun i hi => ?_, htoken, ?_⟩
    · rw [hrun.countP_holds, if_pos ⟨i.zero_le, hi⟩]
    · rw [commands]
      -- all bytes have been read, or the fault has been met where the spans end
      cases hread : (tokens text : Except Fault (List (Token α))) with
      | ok read =>
        rw [hread] at houtcome
        obtain ⟨hstop, rfl⟩ := houtcome
        exact .inl ⟨hstop, rfl⟩
      | error fault =>
        rw [hread] at houtcome
        obtain ⟨hstop, rfl⟩ := houtcome
        exact .inr ⟨hstop, fault.token, rfl⟩

/-- The mark of an exponent without digits is given back. -/
theorem scanEnd_longest_and_spans_cover_lone_mark :
    let data := bytes "-1.5e+x".toList
    byteAt? data 0 = some '-' ∧ isNumberStart '-' = true ∧ scanEnd data 0 = 4 ∧
      IsGreatest {stop | IsNumberEnd data 0 stop} 4 ∧
      ∃ spans stop, Run data 0 spans stop ∧ ∀ i < stop, spans.countP (·.holds i) = 1 := by
  intro data
  have hbyte : byteAt? data 0 = some '-' := by decide +kernel
  have hstart : isNumberStart '-' = true := by decide
  have hend : scanEnd data 0 = 4 := by
    rw [scanEnd_eq]
    decide +kernel
  obtain ⟨hscan, -, hcover⟩ := scanEnd_longest_and_spans_cover Float
  have hgreatest := (hscan data 0 '-' hbyte hstart).1
  obtain ⟨spans, stop, hrun, hcount, -⟩ := hcover "-1.5e+x".toList
  exact ⟨hbyte, hstart, hend, hend ▸ hgreatest, spans, stop, hrun, hcount⟩

/-- A character that is no separator, no letter and no number belongs to no span: it is
reported instead. -/
theorem not_spans_cover_other_character :
    let data := bytes "M0 0@".toList
    data.length = 5 ∧
      (commands "M0 0@".toList : Except Fault (List (Command Float))) = .error ⟨4, ['@']⟩ ∧
      ¬∃ spans stop, Run data 0 spans stop ∧ ∀ i < 5, spans.countP (·.holds i) = 1 := by
  intro data
  refine ⟨by decide +kernel, by decide +kernel, ?_⟩
  rintro ⟨spans, stop, hrun, hcount⟩
  have hpos : 0 < spans.countP (·.holds 4) := by
    rw [hcount 4 (by decide)]
    exact one_pos
  obtain ⟨span, hmem, hholds⟩ := List.countP_pos_iff.mp hpos
  rw [Span.holds, Bool.and_eq_true, decide_eq_true_iff, decide_eq_true_iff] at hholds
  -- the spans that start before the character end before it, and none starts there
  have hends : ∀ start < 5, ∀ span ∈ spanAt? data start, span.stop ≤ 4 := by decide +kernel
  have hstop := hends span.start (by omega) span (hrun.spanAt?_start hmem)
  omega

end Kerf.Path
