import Mathlib.Algebra.BigOperators.Group.Finset.Piecewise
import Mathlib.Data.Fintype.Basic

/-!
# Slots

A table of slots, each of which may hold something that has a size, and what the table holds in
all.

* `total_update`: what a change of one slot does to the total.
* `total_store`, `total_clear`: the two cases that a program counts by.
-/

namespace Slots

open Function Finset

variable {ι α : Type*} [Fintype ι] (size : α → ℕ)

/-- The size of what a slot holds. -/
def weigh : Option α → ℕ
  | none => 0
  | some a => size a

/-- The sizes of all that is held. -/
def total (slots : ι → Option α) : ℕ := ∑ i, weigh size (slots i)

variable {size} {slots : ι → Option α}

/-- Nothing is held in empty slots. -/
theorem total_empty : total size (fun _ : ι => none) = 0 := sum_eq_zero fun _ _ => rfl

variable [DecidableEq ι] {i : ι} {a : α}

/-- The total after one slot is changed, against the total before. -/
theorem total_update (size : α → ℕ) (slots : ι → Option α) (i : ι) (held : Option α) :
    total size (update slots i held) + weigh size (slots i) =
      total size slots + weigh size held := by
  have hweigh : ∀ j, weigh size (update slots i held j) =
      update (fun j => weigh size (slots j)) i (weigh size held) j := fun j =>
    Function.apply_update (fun _ => weigh size) slots i held j
  have hrest := add_sum_erase Finset.univ (fun j => weigh size (slots j))
    (mem_univ i)
  rw [total, sum_congr rfl fun j _ => hweigh j,
    sum_update_of_mem (mem_univ i), ← erase_eq, total, ← hrest]
  omega

/-- The total after storing. -/
theorem total_store (h : slots i = none) :
    total size (update slots i (some a)) = total size slots + size a := by
  have hupdate := total_update size slots i (some a)
  rw [h] at hupdate
  exact hupdate

/-- The total after clearing. -/
theorem total_clear (h : slots i = some a) :
    total size (update slots i none) + size a = total size slots := by
  have hupdate := total_update size slots i none
  rw [h] at hupdate
  exact hupdate

end Slots
