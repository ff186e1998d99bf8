import Mathlib.Data.List.Basic

/-!
# Areas of memory

Memory as a function from offsets to what is stored there.

* `read area off n`: the `n` values from the offset `off` on.
* `write area off l`: the area with the values `l` from the offset `off` on.
* A read splits where one likes (`read_add`, `take_read`, `drop_read`), depends on what it reads
  only (`read_congr`), gives back what was written (`read_write_self`) and does not see what is
  written elsewhere (`read_write_of_disjoint`).
-/

namespace Area

open List

variable {α : Type*}

def read (area : ℕ → α) (off n : ℕ) : List α := (List.range n).map fun k => area (off + k)

def write (area : ℕ → α) (off : ℕ) (l : List α) : ℕ → α := fun k =>
  if off ≤ k then (l[k - off]?).getD (area k) else area k

variable {area area' : ℕ → α} {off off' n m : ℕ} {l : List α}

/-- A read returns as many values as it was asked for. -/
@[simp]
theorem length_read : (read area off n).length = n := by
  unfold read
  rw [length_map, length_range]

variable {k : ℕ}

/-- The values of a read, position by position. -/
theorem getElem_read (hk : k < (read area off n).length) :
    (read area off n)[k] = area (off + k) := by
  simp only [read, getElem_map, getElem_range]

@[simp]
theorem read_zero : read area off 0 = [] := rfl

/-- A read of two pieces is two reads. -/
theorem read_add : read area off (n + m) = read area off n ++ read area (off + n) m := by
  unfold read
  rw [range_add, map_append, map_map]
  simp only [Function.comp_def, Nat.add_assoc]

/-- Reads agree where offsets and lengths do. -/
theorem read_eq (hlength : n = m) (hoff : n = 0 ∨ off = off') :
    read area off n = read area off' m := by
  subst hlength
  rcases hoff with rfl | rfl
  · rfl
  · rfl

/-- The front of a read is a shorter read. -/
theorem take_read : (read area off n).take k = read area off (min k n) := by
  rcases Nat.le_total k n with hk | hk
  · obtain ⟨d, rfl⟩ := Nat.exists_eq_add_of_le hk
    rw [read_add, Nat.min_eq_left hk]
    exact take_left' length_read
  · rw [Nat.min_eq_right hk]
    exact take_of_length_le (Nat.le_trans (Nat.le_of_eq length_read) hk)

/-- The back of a read is a read further on. -/
theorem drop_read : (read area off n).drop k = read area (off + k) (n - k) := by
  rcases Nat.le_total k n with hk | hk
  · obtain ⟨d, rfl⟩ := Nat.exists_eq_add_of_le hk
    rw [read_add, Nat.add_sub_cancel_left]
    exact drop_left' length_read
  · rw [Nat.sub_eq_zero_of_le hk]
    exact drop_of_length_le (Nat.le_trans (Nat.le_of_eq length_read) hk)

/-- Areas that agree up to a shift read alike. -/
theorem read_shift (h : ∀ k < n, area (off + k) = area' (off' + k)) :
    read area off n = read area' off' n := by
  apply map_congr_left
  intro k hk
  exact h k (mem_range.mp hk)

/-- Areas that agree where they are read read alike. -/
theorem read_congr (h : ∀ k, off ≤ k → k < off + n → area k = area' k) :
    read area off n = read area' off n :=
  read_shift fun k hk => h (off + k) (Nat.le_add_right _ _) (Nat.add_lt_add_left hk off)

/-- A write leaves what is in front of it. -/
theorem write_of_lt (hk : k < off) : write area off l k = area k :=
  if_neg (Nat.not_le.mpr hk)

/-- A write leaves what is behind it. -/
theorem write_of_le (hk : off + l.length ≤ k) : write area off l k = area k := by
  unfold write
  rw [if_pos (by omega), List.getElem?_eq_none (by omega)]
  rfl

/-- A write puts its values in place. -/
theorem write_of_mem (hk : k < l.length) : write area off l (off + k) = l[k] := by
  unfold write
  rw [if_pos (Nat.le_add_right _ _), Nat.add_sub_cancel_left, List.getElem?_eq_getElem hk]
  rfl

/-- Writing nothing changes nothing. -/
@[simp]
theorem write_nil : write area off [] = area := by
  funext k
  rcases Nat.lt_or_ge k off with hk | hk
  · exact write_of_lt hk
  · exact write_of_le hk

/-- Two writes one behind the other are one write. -/
theorem write_append {l' : List α} :
    write (write area off l) (off + l.length) l' = write area off (l ++ l') := by
  funext k
  unfold write
  by_cases hk : off ≤ k
  · rw [if_pos hk, if_pos hk]
    by_cases hlt : k - off < l.length
    · rw [if_neg (by omega), List.getElem?_append_left hlt]
    · rw [if_pos (by omega), List.getElem?_append_right (Nat.le_of_not_lt hlt),
        List.getElem?_eq_none (Nat.le_of_not_lt hlt), Option.getD_none, Nat.sub_add_eq]
  · rw [if_neg hk, if_neg hk, if_neg (by omega)]

/-- **What was written** is read back. -/
theorem read_write_self : read (write area off l) off l.length = l := by
  apply ext_getElem length_read
  intro k hk hk'
  rw [getElem_read, write_of_mem hk']

/-- **What is written elsewhere** is not seen. -/
theorem read_write_of_disjoint (h : off' + n ≤ off ∨ off + l.length ≤ off') :
    read (write area off l) off' n = read area off' n := by
  apply read_congr
  intro k hle hlt
  rcases h with h | h
  · exact write_of_lt (by omega)
  · exact write_of_le (by omega)

end Area
