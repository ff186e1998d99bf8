import Mathlib.Data.List.Nodup

/-!
# Ordered sets as sorted lists

`std::set` and its kin as the list of their elements in iteration order. The elements
are compared by a key, `key : α → κ`, and no two elements of a set have one key.

* `emplace` puts an element where its key belongs, and leaves the list alone when an
  element with that key is there (`emplace_of_mem`, `emplace_perm`).
* `Sorted` is what the operations keep (`emplace_sorted`, `Sorted.filter`,
  `Sorted.map`); it makes the keys distinct (`Sorted.nodup_keys`).
-/

namespace SortedList

open List

variable {α κ : Type*} [Ord κ] (key : α → κ)

/-- Strictly increasing keys. -/
def Sorted (l : List α) : Prop := l.Pairwise fun a b => compare (key a) (key b) = .lt

/-- `set::emplace`: the list with `a` in it, and whether `a` is new. -/
def emplace (a : α) : List α → List α × Bool
  | [] => ([a], true)
  | x :: xs =>
    match compare (key a) (key x) with
    | .lt => (a :: x :: xs, true)
    | .eq => (x :: xs, false)
    | .gt => (x :: (emplace a xs).1, (emplace a xs).2)

variable {key}

variable {l : List α} {a : α}

theorem Sorted.filter (h : Sorted key l) (p : α → Bool) :
    Sorted key (l.filter p) := List.Pairwise.filter p h

/-- A map that keeps the keys keeps the order. -/
theorem Sorted.map (h : Sorted key l) {f : α → α} (hf : ∀ a, key (f a) = key a) :
    Sorted key (l.map f) := by
  refine pairwise_map.mpr (List.Pairwise.imp ?_ h)
  intro a b hab
  rwa [hf, hf]

/-- An insertion that succeeds adds the new entry. -/
theorem emplace_perm (h : (emplace key a l).2 = true) : (emplace key a l).1.Perm (a :: l) := by
  induction l with
  | nil => exact List.Perm.refl _
  | cons x xs ih =>
    rw [emplace] at h ⊢
    cases hc : compare (key a) (key x) with
    | lt => exact List.Perm.refl _
    | eq => rw [hc] at h; cases h
    | gt =>
      rw [hc] at h
      exact ((ih h).cons x).trans (List.Perm.swap a x xs)

/-- An insertion that fails changes nothing. -/
theorem emplace_eq_self (h : (emplace key a l).2 = false) : (emplace key a l).1 = l := by
  induction l with
  | nil => cases h
  | cons x xs ih =>
    rw [emplace] at h ⊢
    cases hc : compare (key a) (key x) with
    | lt => rw [hc] at h; cases h
    | eq => rfl
    | gt =>
      rw [hc] at h
      exact congrArg (x :: ·) (ih h)

/-- The new list holds the old elements and perhaps `a`. -/
theorem mem_of_mem_emplace {b : α} (h : b ∈ (emplace key a l).1) : b = a ∨ b ∈ l := by
  cases hnew : (emplace key a l).2 with
  | true => exact mem_cons.mp ((emplace_perm hnew).mem_iff.mp h)
  | false =>
    rw [emplace_eq_self hnew] at h
    exact .inr h

section Lawful

variable [Std.LawfulEqOrd κ]

/-- Keys that do not compare equal differ. -/
theorem ne_of_compare_ne_eq {k k' : κ} (h : compare k k' ≠ .eq) : k ≠ k' :=
  fun heq => h (Std.LawfulEqCmp.compare_eq_iff_eq.mpr heq)

/-- An ordered list has no key twice. -/
theorem Sorted.nodup_keys (h : Sorted key l) : (l.map key).Nodup := by
  refine pairwise_map.mpr (List.Pairwise.imp ?_ h)
  intro a b hab
  exact ne_of_compare_ne_eq (by rw [hab]; simp)

variable [Std.TransOrd κ]

/-- An insertion fails if and only if the key is there already. -/
theorem emplace_snd_eq_false_iff (hl : Sorted key l) :
    (emplace key a l).2 = false ↔ key a ∈ l.map key := by
  induction l with
  | nil => simp [emplace]
  | cons x xs ih =>
    obtain ⟨hx, hxs⟩ := pairwise_cons.mp hl
    rw [emplace, map_cons, mem_cons]
    cases hc : compare (key a) (key x) with
    | lt =>
      -- every key of the list is greater
      refine iff_of_false (by simp) ?_
      rintro (heq | hmem)
      · exact ne_of_compare_ne_eq (by rw [hc]; simp) heq
      · obtain ⟨y, hy, heq⟩ := mem_map.mp hmem
        have hlt := Std.TransCmp.lt_trans hc (hx y hy)
        exact ne_of_compare_ne_eq (by rw [hlt]; simp) heq.symm
    | eq => exact iff_of_true rfl (Or.inl (Std.LawfulEqCmp.compare_eq_iff_eq.mp hc))
    | gt =>
      have hne : key a ≠ key x := ne_of_compare_ne_eq (by rw [hc]; simp)
      simpa [hne] using ih hxs

omit [Std.LawfulEqOrd κ] in
/-- Insertion keeps the list in order. -/
theorem emplace_sorted (hl : Sorted key l) : Sorted key (emplace key a l).1 := by
  induction l with
  | nil => exact pairwise_singleton _ _
  | cons x xs ih =>
    obtain ⟨hx, hxs⟩ := pairwise_cons.mp hl
    rw [emplace]
    cases hc : compare (key a) (key x) with
    | lt =>
      refine pairwise_cons.mpr ⟨fun y hy => ?_, hl⟩
      rcases mem_cons.mp hy with rfl | hy
      · exact hc
      · exact Std.TransCmp.lt_trans hc (hx y hy)
    | eq => exact hl
    | gt =>
      refine pairwise_cons.mpr ⟨fun y hy => ?_, ih hxs⟩
      rcases mem_of_mem_emplace hy with rfl | hmem
      · exact Std.OrientedCmp.gt_iff_lt.mp hc
      · exact hx y hmem

end Lawful

end SortedList
