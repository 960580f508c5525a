import Mathlib
import Kerf.Proofs.Exact

/-!
# Ordered scalars

Scalars are ordered if those of them that are numbers are: then the lesser and the greater
of two numbers are one of them, the bounds of what lies beyond both, and do not depend on
how several numbers are taken together.

- `Scalar.Ordered`: what is asked of the order. Scalars that are computed with exactly
  have it, and all of them are numbers.
- `Scalar.le_min_iff`, `Scalar.max_le_iff`: the lesser and the greater as bounds.
- `Scalar.min_assoc`, `Scalar.max_assoc`: of equal numbers the first is taken, however
  they are grouped.
-/

namespace Kerf

/-- Scalars whose numbers are ordered. Two different ones may still be equal as numbers,
as zeros of both signs are. -/
class Scalar.Ordered (α : Type) [Scalar α] : Prop where
  le_trans : ∀ {a b c : α}, a ≤ b → b ≤ c → a ≤ c
  le_total : ∀ {a b : α}, isNaN a = false → isNaN b = false → a ≤ b ∨ b ≤ a
  lt_iff : ∀ {a b : α}, a < b ↔ a ≤ b ∧ ¬b ≤ a

namespace Scalar

variable {α : Type} [Scalar α]

/-- A number is what is at most itself. -/
theorem isNaN_eq_false_iff {a : α} : isNaN a = false ↔ a ≤ a := by
  rw [isNaN, same, Bool.not_eq_false', Bool.and_self, decide_eq_true_iff]

/-- Of three items, the first that none of the others is preferred to, taken from the left
or from the right. -/
theorem preferred_assoc {β : Type} (isBetter : β → β → Prop) [DecidableRel isBetter] {a b c : β}
    (htrans : isBetter c b → isBetter b a → isBetter c a)
    (hnot : ¬isBetter b a → ¬isBetter c b → ¬isBetter c a) :
    let prefer := fun p q => if isBetter q p then q else p
    prefer (prefer a b) c = prefer a (prefer b c) := by
  intro prefer
  by_cases hba : isBetter b a
  · by_cases hcb : isBetter c b
    · simp [prefer, hba, hcb, htrans hcb hba]
    · simp [prefer, hba, hcb]
  · by_cases hcb : isBetter c b
    · simp [prefer, hba, hcb]
    · simp [prefer, hba, hcb, hnot hba hcb]

theorem min_of_number {a : α} (ha : isNaN a = false) (b : α) :
    min a b = if b < a then b else a := by
  rw [min, ha, if_neg Bool.false_ne_true]

theorem max_of_number {a : α} (ha : isNaN a = false) (b : α) :
    max a b = if a < b then b else a := by
  rw [max, ha, if_neg Bool.false_ne_true]

theorem isNaN_min {a b : α} (ha : isNaN a = false) (hb : isNaN b = false) :
    isNaN (min a b) = false := by
  rw [min_of_number ha]
  split
  · exact hb
  · exact ha

theorem isNaN_max {a b : α} (ha : isNaN a = false) (hb : isNaN b = false) :
    isNaN (max a b) = false := by
  rw [max_of_number ha]
  split
  · exact hb
  · exact ha

section Ordered

variable [Ordered α] {a b c : α}

/-- Numbers that are not below are at least as great. -/
theorem not_lt_iff (ha : isNaN a = false) (hb : isNaN b = false) : ¬a < b ↔ b ≤ a := by
  rw [Ordered.lt_iff, not_and, not_not]
  constructor
  · intro h
    exact (Ordered.le_total ha hb).elim h id
  · intro h _
    exact h

theorem lt_trans (hab : a < b) (hbc : b < c) : a < c := by
  rw [Ordered.lt_iff] at *
  exact ⟨Ordered.le_trans hab.1 hbc.1, fun hca => hab.2 (Ordered.le_trans hbc.1 hca)⟩

theorem le_min_iff (ha : isNaN a = false) (hb : isNaN b = false) :
    c ≤ min a b ↔ c ≤ a ∧ c ≤ b := by
  rw [min_of_number ha]
  split
  · next hba => exact ⟨fun hc => ⟨Ordered.le_trans hc (Ordered.lt_iff.mp hba).1, hc⟩, And.right⟩
  · next hba =>
    have hab : a ≤ b := (not_lt_iff hb ha).mp hba
    exact ⟨fun hc => ⟨hc, Ordered.le_trans hc hab⟩, And.left⟩

theorem max_le_iff (ha : isNaN a = false) (hb : isNaN b = false) :
    max a b ≤ c ↔ a ≤ c ∧ b ≤ c := by
  rw [max_of_number ha]
  split
  · next hab => exact ⟨fun hc => ⟨Ordered.le_trans (Ordered.lt_iff.mp hab).1 hc, hc⟩, And.right⟩
  · next hab =>
    have hba : b ≤ a := (not_lt_iff ha hb).mp hab
    exact ⟨fun hc => ⟨hc, Ordered.le_trans hba hc⟩, And.left⟩

theorem min_assoc (ha : isNaN a = false) (hb : isNaN b = false) (hc : isNaN c = false) :
    min (min a b) c = min a (min b c) := by
  rw [min_of_number (isNaN_min ha hb), min_of_number ha b, min_of_number ha, min_of_number hb]
  refine preferred_assoc (fun p q : α => p < q) lt_trans fun hba hcb => ?_
  rw [not_lt_iff hb ha] at hba
  rw [not_lt_iff hc hb] at hcb
  exact (not_lt_iff hc ha).mpr (Ordered.le_trans hba hcb)

theorem max_assoc (ha : isNaN a = false) (hb : isNaN b = false) (hc : isNaN c = false) :
    max (max a b) c = max a (max b c) := by
  rw [max_of_number (isNaN_max ha hb), max_of_number ha b, max_of_number ha, max_of_number hb]
  refine preferred_assoc (fun p q : α => q < p) (fun hcb hba => lt_trans hba hcb) fun hba hcb =>
    ?_
  rw [not_lt_iff ha hb] at hba
  rw [not_lt_iff hb hc] at hcb
  exact (not_lt_iff ha hc).mpr (Ordered.le_trans hcb hba)

end Ordered

/-! ## Exact arithmetic -/

section Exact

variable [Exact α]

instance : Ordered α where
  le_trans := by
    intro a b c hab hbc
    rw [← Exact.value_le_iff] at *
    exact hab.trans hbc
  le_total := by
    intro a b _ _
    rw [← Exact.value_le_iff a b, ← Exact.value_le_iff b a]
    exact le_total (Exact.value a) (Exact.value b)
  lt_iff := by
    intro a b
    rw [← Exact.value_lt_iff a b, ← Exact.value_le_iff a b, ← Exact.value_le_iff b a]
    exact lt_iff_le_not_ge

/-- In exact arithmetic there is nothing that is no number. -/
theorem Exact.isNaN_eq_false (a : α) : isNaN a = false := by
  rw [isNaN_eq_false_iff, ← Exact.value_le_iff]

variable (a b c : α)

theorem Exact.add_le_add_iff : a + c ≤ b + c ↔ a ≤ b := by
  rw [← Exact.value_le_iff (a + c), ← Exact.value_le_iff a, Exact.value_add, Exact.value_add]
  exact add_le_add_iff_right (Exact.value c)

theorem Exact.add_lt_add_iff : a + c < b + c ↔ a < b := by
  rw [← Exact.value_lt_iff (a + c), ← Exact.value_lt_iff a, Exact.value_add, Exact.value_add]
  exact add_lt_add_iff_right (Exact.value c)

theorem min_add : min (a + c) (b + c) = min a b + c := by
  rw [min_of_number (Exact.isNaN_eq_false _), min_of_number (Exact.isNaN_eq_false _)]
  simp only [Exact.add_lt_add_iff]
  split
  · rfl
  · rfl

theorem max_add : max (a + c) (b + c) = max a b + c := by
  rw [max_of_number (Exact.isNaN_eq_false _), max_of_number (Exact.isNaN_eq_false _)]
  simp only [Exact.add_lt_add_iff]
  split
  · rfl
  · rfl

end Exact

end Scalar

end Kerf
