import Mathlib.Data.List.Basic

/-!
# Parts in a row

Parts of some size that lie one after the other, from place 0 on.

* `total`: the place where they end.
* `exists_part`: every place before that is in one of them.
* `overlapping`: those that have one of `n` places from `start` on.
-/

namespace Tiles

open List

variable {α : Type*} {size size' : α → ℕ} {as before after : List α} {a : α} {start n : ℕ}

/-- The sizes of all parts. -/
def total (size : α → ℕ) : List α → ℕ
  | [] => 0
  | a :: as => size a + total size as

@[simp] theorem total_nil : total size [] = 0 := rfl

@[simp] theorem total_cons : total size (a :: as) = size a + total size as := rfl

@[simp] theorem total_append :
    total size (before ++ after) = total size before + total size after := by
  induction before with
  | nil => exact (Nat.zero_add _).symm
  | cons a before ih => rw [cons_append, total_cons, ih, total_cons, Nat.add_assoc]

/-- The order of tiles does not matter to their total. -/
theorem total_reverse (size : α → ℕ) (as : List α) : total size as.reverse = total size as := by
  induction as with
  | nil => rfl
  | cons a as ih =>
    rw [reverse_cons, total_append, ih, total_cons, total_cons, total_nil, Nat.add_zero,
      Nat.add_comm]

/-- Totals of equal sizes are equal. -/
theorem total_congr (h : ∀ a ∈ as, size a = size' a) : total size as = total size' as := by
  induction as with
  | nil => rfl
  | cons a as ih =>
    obtain ⟨ha, has⟩ := forall_mem_cons.mp h
    rw [total_cons, total_cons, ha, ih has]

/-- Totals of greater sizes are greater. -/
theorem total_le_total (h : ∀ a ∈ as, size a ≤ size' a) : total size as ≤ total size' as := by
  induction as with
  | nil => exact Nat.le_refl 0
  | cons a as ih =>
    obtain ⟨ha, has⟩ := forall_mem_cons.mp h
    exact Nat.add_le_add ha (ih has)

/-- The total of sums is the sum of the totals. -/
theorem total_add (size size' : α → ℕ) (as : List α) :
    total (fun a => size a + size' a) as = total size as + total size' as := by
  induction as with
  | nil => rfl
  | cons a as ih =>
    rw [total_cons, total_cons, total_cons, ih]
    omega

/-- The total over a mapped list. -/
theorem total_map {β : Type*} {f : β → α} (bs : List β) :
    total size (bs.map f) = total (fun b => size (f b)) bs := by
  induction bs with
  | nil => rfl
  | cons b bs ih => rw [map_cons, total_cons, total_cons, ih]

/-- Contents as long as the sizes say are together as long as the total. -/
theorem length_flatMap {β : Type*} {content : α → List β}
    (h : ∀ a ∈ as, (content a).length = size a) :
    (as.flatMap content).length = total size as := by
  induction as with
  | nil => rfl
  | cons a as ih =>
    obtain ⟨ha, has⟩ := forall_mem_cons.mp h
    rw [flatMap_cons, length_append, ha, ih has, total_cons]

/-- A position within the total lies in one tile. -/
theorem exists_part (h : n < total size as) : ∃ before a after, as = before ++ a :: after ∧
    total size before ≤ n ∧ n < total size before + size a := by
  induction as generalizing n with
  | nil => exact absurd h (Nat.not_lt_zero n)
  | cons a as ih =>
    by_cases hlt : n < size a
    · exact ⟨[], a, as, rfl, Nat.zero_le n, by rwa [total_nil, Nat.zero_add]⟩
    · rw [total_cons] at h
      obtain ⟨before, a', after, rfl, hle, hlt'⟩ := ih (by omega : n - size a < total size as)
      exact ⟨a :: before, a', after, rfl, by rw [total_cons]; omega, by rw [total_cons]; omega⟩

/-! ### Parts that have some places -/

/-- The parts that have one of `n` places from `start` on. -/
def overlapping (size : α → ℕ) : ℕ → ℕ → List α → List α
  | _, _, [] => []
  | start, n, a :: as =>
    if size a ≤ start then overlapping size (start - size a) n as
    else if start + n ≤ size a then [a]
    else a :: overlapping size 0 (start + n - size a) as

/-- Tiles in front of the start do not overlap. -/
theorem overlapping_append (h : total size before ≤ start) :
    overlapping size start n (before ++ after) =
      overlapping size (start - total size before) n after := by
  induction before generalizing start with
  | nil => rfl
  | cons a before ih =>
    rw [total_cons] at h
    rw [cons_append, overlapping, if_pos (by omega), ih (by omega), total_cons, Nat.sub_sub]

/-- The tiles that overlap, from the first one on. -/
theorem overlapping_cons (h : start < size a) :
    overlapping size start n (a :: as) =
      a :: if start + n ≤ size a then [] else overlapping size 0 (start + n - size a) as := by
  rw [overlapping, if_neg (by omega)]
  split_ifs <;> rfl

/-- What overlaps is from the list. -/
theorem mem_of_mem_overlapping :
    ∀ x ∈ overlapping size start n as, x ∈ as := by
  induction as generalizing start n with
  | nil => exact fun _ hx => hx
  | cons a as ih =>
    unfold overlapping
    split_ifs
    · exact fun x hx => mem_cons_of_mem a (ih x hx)
    · intro x hx
      rw [mem_singleton.mp hx]
      exact mem_cons_self ..
    · intro x hx
      obtain rfl | hx := mem_cons.mp hx
      · exact mem_cons_self ..
      · exact mem_cons_of_mem a (ih x hx)

end Tiles
