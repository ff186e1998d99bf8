import Mathlib.Data.List.Basic
import Mathlib.Order.Nat

/-!
# Numbers around a circle

The numbers below `n` in circular order, and the loop
`for (i = start; i != stop; i = (i + 1) % n) body (i); body (stop);`
that runs over a part of the circle.

* `distance n a b`: how many steps lead from `a` forward to `b`.
* `after n a k`: the number `k` steps after `a`.
* `loop`: the loop, for a number of rounds at most.
* `loop_eq`: it stops, and its body is run for the numbers of `visited`.
* `foldl_clear`: what a loop that clears the entries of a table leaves.
-/

namespace CircularRange

open List

variable {n a b c k l : ℕ}

/-- The steps from `a` forward to `b`. -/
def distance (n a b : ℕ) : ℕ := (b + n - a) % n

/-- The number `k` steps after `a`. -/
def after (n a k : ℕ) : ℕ := (a + k) % n

theorem distance_lt (ha : a < n) : distance n a b < n := Nat.mod_lt _ (by omega)

theorem after_lt (ha : a < n) : after n a k < n := Nat.mod_lt _ (by omega)

/-- The circle is cut open at `a`: what lies before `a` comes after what does not. -/
theorem distance_eq (ha : a < n) (hb : b < n) :
    distance n a b = if a ≤ b then b - a else b + n - a := by
  unfold distance
  split_ifs with hab
  · rw [show b + n - a = b - a + n by omega, Nat.add_mod_right, Nat.mod_eq_of_lt (by omega)]
  · exact Nat.mod_eq_of_lt (by omega)

/-- The position after some steps, without the remainder. -/
theorem after_eq (ha : a < n) (hk : k ≤ n) :
    after n a k = if a + k < n then a + k else a + k - n := by
  unfold after
  split_ifs with h
  · exact Nat.mod_eq_of_lt h
  · rw [Nat.mod_eq_sub_mod (by omega), Nat.mod_eq_of_lt (by omega)]

/-- Going the distance arrives. -/
theorem after_distance (ha : a < n) (hb : b < n) : after n a (distance n a b) = b := by
  rw [after_eq ha (distance_lt ha).le, distance_eq ha hb]
  split_ifs <;> omega

/-- The distance of a position some steps on is the number of the steps. -/
theorem distance_after (ha : a < n) (hk : k < n) : distance n a (after n a k) = k := by
  rw [distance_eq ha (after_lt ha), after_eq ha hk.le]
  split_ifs <;> omega

/-- Different numbers of steps arrive at different positions. -/
theorem after_injective (ha : a < n) (hk : k < n) (hl : l < n)
    (h : after n a k = after n a l) : k = l := by
  rw [← distance_after ha hk, h, distance_after ha hl]

/-- No distance to oneself. -/
theorem distance_self (ha : a < n) : distance n a a = 0 := by
  rw [distance_eq ha ha, if_pos le_rfl, Nat.sub_self]

/-- Steps add up. -/
theorem after_after : after n (after n a k) l = after n a (k + l) := by
  unfold after
  rw [Nat.mod_add_mod, Nat.add_assoc]

/-- Distances from a later point are shorter by what was passed, unless the number lies
before that point and the whole circle comes to be in between. -/
theorem distance_after_left (ha : a < n) (hk : k < n) (hb : b < n) :
    distance n (after n a k) b =
      if k ≤ distance n a b then distance n a b - k else distance n a b + n - k := by
  rw [distance_eq (after_lt ha) hb, after_eq ha hk.le, distance_eq ha hb]
  split_ifs <;> omega

/-- The distance between two positions given by their steps. -/
theorem distance_after_after (ha : a < n) (hk : k < n) (hl : l < n) :
    distance n (after n a k) (after n a l) = if k ≤ l then l - k else l + n - k := by
  rw [distance_after_left ha hk (after_lt ha), distance_after ha hl]

theorem after_zero (ha : a < n) : after n a 0 = a := Nat.mod_eq_of_lt ha

/-- Every position is some steps on. -/
theorem exists_eq_after (ha : a < n) (hb : b < n) : ∃ k < n, b = after n a k :=
  ⟨distance n a b, distance_lt ha, (after_distance ha hb).symm⟩

/-- All steps but one more than the circle go one step back. -/
theorem after_pred (ha : a < n) (hk : k < n) (hpos : 0 < k) :
    after n (after n a k) (n - 1) = after n a (k - 1) := by
  rw [after_after, after_eq ha (Nat.le_of_lt (by omega : k - 1 < n)), after,
    show a + (k + (n - 1)) = a + (k - 1) + n by omega, Nat.add_mod_right]
  split_ifs with h
  · exact Nat.mod_eq_of_lt h
  · rw [Nat.mod_eq_sub_mod (by omega), Nat.mod_eq_of_lt (by omega)]

/-! ### The loop -/

section Loop

variable {σ : Type*}

/-- The loop, or `none` if it has not stopped after the given number of rounds. -/
def loop (n : ℕ) (body : ℕ → σ → σ) (stop : ℕ) : ℕ → ℕ → σ → Option σ
  | 0, _, _ => none
  | rounds + 1, i, s =>
    if i ≠ stop then
      loop n body stop rounds ((i + 1) % n) (body i s)
    else
      some (body i s)

/-- The numbers from `a` up to `b`. -/
def visited (n a b : ℕ) : List ℕ := (List.range (distance n a b + 1)).map (after n a)

/-- The positions visited on the way are those at most as far. -/
theorem mem_visited_iff (ha : a < n) (hc : c < n) :
    c ∈ visited n a b ↔ distance n a c ≤ distance n a b := by
  rw [visited, mem_map]
  constructor
  · rintro ⟨k, hk, rfl⟩
    rw [mem_range] at hk
    have hb := distance_lt (b := b) ha
    rw [distance_after ha (by omega)]
    omega
  · intro h
    exact ⟨distance n a c, mem_range.mpr (by omega), after_distance ha hc⟩

/-- On the way to itself a position visits itself. -/
theorem visited_self (ha : a < n) : visited n a a = [a] := by
  rw [visited, distance_self ha]
  simp [after, Nat.mod_eq_of_lt ha]

/-- The way to another position starts with the first one. -/
theorem visited_cons (ha : a < n) (hb : b < n) (hab : a ≠ b) :
    visited n a b = a :: visited n (after n a 1) b := by
  have hpos : 0 < distance n a b := by
    rw [distance_eq ha hb]
    split_ifs <;> omega
  have hstep : distance n (after n a 1) b + 1 = distance n a b := by
    rw [distance_after_left ha (by omega) hb, if_pos (Nat.succ_le_of_lt hpos)]
    omega
  rw [visited, visited, hstep, range_succ_eq_map, map_cons, map_map]
  congr 1
  · simp [after, Nat.mod_eq_of_lt ha]
  · refine map_congr_left fun k _ => ?_
    rw [after_after, Function.comp_apply, Nat.add_comm]

/-- Once around is enough: the loop stops, and runs its body for the numbers it visits. -/
theorem loop_eq (body : ℕ → σ → σ) {rounds : ℕ} (ha : a < n) (hb : b < n)
    (hrounds : distance n a b < rounds) (s : σ) :
    loop n body b rounds a s = some ((visited n a b).foldl (fun s i => body i s) s) := by
  induction rounds generalizing a s with
  | zero => omega
  | succ rounds ih =>
    rw [loop]
    by_cases hab : a = b
    · rw [if_neg (not_not_intro hab), hab, visited_self hb]
      rfl
    · rw [if_pos hab, visited_cons ha hb hab, foldl_cons]
      refine ih (after_lt ha) ?_ _
      have hdistance := distance_after_left (k := 1) ha (by omega) hb
      rw [distance_eq ha hb] at hdistance hrounds
      change distance n (after n a 1) b < rounds
      split_ifs at hdistance hrounds <;> omega

/-- Clearing the entries in a list of places. -/
theorem foldl_clear {α : Type*} (zero : α) (places : List ℕ) (table : ℕ → α) (j : ℕ) :
    places.foldl (fun t i => Function.update t i zero) table j =
      if j ∈ places then zero else table j := by
  induction places generalizing table with
  | nil => rfl
  | cons i places ih =>
    rw [foldl_cons, ih]
    by_cases hj : j = i
    · subst hj
      simp
    · simp [hj]

end Loop

end CircularRange
