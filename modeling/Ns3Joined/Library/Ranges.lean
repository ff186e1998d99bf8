import Mathlib.Order.Lattice
import Mathlib.Tactic.Common

/-!
# Sets as ranges

A set that is kept as a list of ranges, each with its lowest and its highest element.

* `Covers`: the elements of the set.
* `Ordered`: the ranges are not empty, and each ends before the next ones begin.
* `ordered_cons_iff`: a range in front, in terms of the elements of the others.
* `Ordered.eq_of_has`: an element is in one range only.
-/

namespace Ranges

variable {ρ α : Type*} [LinearOrder α] (low high : ρ → α)

/-- The element is in the range. -/
def Has (r : ρ) (a : α) : Prop := low r ≤ a ∧ a ≤ high r

/-- The element is in one of the ranges. -/
def Covers (rs : List ρ) (a : α) : Prop := ∃ r ∈ rs, Has low high r a

/-- The ranges are sorted and disjoint. -/
def Ordered : List ρ → Prop
  | [] => True
  | r :: rs => low r ≤ high r ∧ (∀ r' ∈ rs, high r < low r') ∧ Ordered rs

variable {low high} {r r' : ρ} {rs rs' : List ρ} {a b : α}

/-- No range covers nothing. -/
theorem not_covers_nil : ¬ Covers low high [] a := fun ⟨_, hr, _⟩ => absurd hr List.not_mem_nil

/-- What is covered by a first range and the others. -/
theorem covers_cons : Covers low high (r :: rs) a ↔ Has low high r a ∨ Covers low high rs a := by
  unfold Covers
  simp only [List.mem_cons, exists_eq_or_imp]

/-- Ranges in order are not empty. -/
theorem Ordered.low_le_high (h : Ordered low high rs) (hr : r ∈ rs) : low r ≤ high r := by
  induction rs with
  | nil => exact absurd hr List.not_mem_nil
  | cons r' rs ih =>
    obtain ⟨hle, -, hrest⟩ := h
    obtain rfl | hr := List.mem_cons.mp hr
    · exact hle
    · exact ih hrest hr

/-- A first range lies before everything the others cover. -/
theorem ordered_cons_iff (h : Ordered low high rs) :
    Ordered low high (r :: rs) ↔ low r ≤ high r ∧ ∀ a, Covers low high rs a → high r < a := by
  refine ⟨fun ⟨hle, hbefore, _⟩ => ⟨hle, fun a ⟨r', hr', ha⟩ => ?_⟩, fun ⟨hle, hbefore⟩ =>
    ⟨hle, fun r' hr' => ?_, h⟩⟩
  · exact (hbefore r' hr').trans_le ha.1
  · exact hbefore (low r') ⟨r', hr', le_rfl, h.low_le_high hr'⟩

theorem Ordered.tail (h : Ordered low high (r :: rs)) : Ordered low high rs := h.2.2

/-- A first range ends before what the others cover. -/
theorem Ordered.high_lt (h : Ordered low high (r :: rs)) (ha : Covers low high rs a) :
    high r < a := ((ordered_cons_iff h.tail).mp h).2 a ha

/-- An element is in one range only. -/
theorem Ordered.eq_of_has (h : Ordered low high rs) (hr : r ∈ rs) (hr' : r' ∈ rs)
    (ha : Has low high r a) (ha' : Has low high r' a) : r = r' := by
  induction rs with
  | nil => exact absurd hr List.not_mem_nil
  | cons first rs ih =>
    -- an element of a later range comes behind the first range
    rcases List.mem_cons.mp hr with rfl | hrest <;> rcases List.mem_cons.mp hr' with rfl | hrest'
    · rfl
    · exact absurd (h.high_lt ⟨r', hrest', ha'⟩) (not_lt.mpr ha.2)
    · exact absurd (h.high_lt ⟨r, hrest, ha⟩) (not_lt.mpr ha'.2)
    · exact ih h.tail hrest hrest'

end Ranges
