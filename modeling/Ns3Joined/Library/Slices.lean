import Mathlib.Data.List.Basic
import Mathlib.Order.Nat
import Mathlib.Order.Lattice

/-!
# Slices of a list

Parts of a list with the places where they start, and how far a number of them, sorted by these
places, reach without a gap.

* `IsSlice whole start part`: `part` is what `whole` has from `start` on.
* `IsSlice.sub`: a slice of a slice; `IsSlice.take_append_drop`: the list as far as two parts
  that overlap, or follow one another, reach.
* `reach`: how far sorted parts reach from a place on, if there is no gap.
* `reach_covers`, `reach_isSome`: there is none just if they cover all that is before their ends.
* `Chain`: parts of which each starts where the one before ends.
* `Apart parts`: sorted parts that have no place in common; `totalLength` is how many they have.
-/

namespace Slices

open List

variable {α : Type*}

/-- The list has the part from that place on. -/
structure IsSlice (whole : List α) (start : ℕ) (part : List α) : Prop where
  le : start + part.length ≤ whole.length
  get : ∀ i < part.length, part[i]? = whole[start + i]?

variable {whole part : List α} {start n m : ℕ}

/-- The whole is a slice of itself. -/
theorem isSlice_self (whole : List α) : IsSlice whole 0 whole where
  le := Nat.le_of_eq (Nat.zero_add _)
  get := fun i _ => by rw [Nat.zero_add]

/-- A piece of a slice is a slice. -/
theorem IsSlice.sub (h : IsSlice whole start part) (hle : n + m ≤ part.length) :
    IsSlice whole (start + n) ((part.drop n).take m) := by
  have hlength : ((part.drop n).take m).length = m := by
    rw [length_take, length_drop]
    omega
  refine ⟨?_, fun i hi => ?_⟩
  · have := h.le
    rw [hlength]
    omega
  · rw [hlength] at hi
    rw [List.getElem?_take, if_pos hi, List.getElem?_drop, h.get (n + i) (by omega), Nat.add_assoc]

/-- A slice is what lies at its place in the whole. -/
theorem IsSlice.eq_take_drop (h : IsSlice whole start part) :
    part = (whole.drop start).take part.length := by
  refine ext_getElem? fun i => ?_
  rw [List.getElem?_take, List.getElem?_drop]
  split_ifs with hi
  · exact h.get i hi
  · exact List.getElem?_eq_none (Nat.le_of_not_lt hi)

/-- The list up to `n`, and what a part has after that. -/
theorem IsSlice.take_append_drop (h : IsSlice whole start part) (hn : start ≤ n) :
    whole.take n ++ part.drop (n - start) = whole.take (max n (start + part.length)) := by
  have hle := h.le
  refine ext_getElem? fun i => ?_
  rw [List.getElem?_append, length_take, List.getElem?_take, List.getElem?_take,
    List.getElem?_drop]
  by_cases hi : i < min n whole.length
  · rw [if_pos hi, if_pos (by omega), if_pos (by omega)]
  · rw [if_neg hi]
    by_cases hpart : i < start + part.length
    · have hin : n ≤ whole.length := by omega
      rw [if_pos (by omega), min_eq_left hin, h.get _ (by omega)]
      congr 1
      omega
    · rw [List.getElem?_eq_none (by omega)]
      split_ifs with hi'
      · exact (List.getElem?_eq_none (by omega)).symm
      · rfl

/-! ### Parts in order -/

/-- How far the parts reach from `from` on, if there is no gap. -/
def reach : ℕ → List (List α × ℕ) → Option ℕ
  | n, [] => some n
  | n, (part, start) :: parts =>
    if n < start then none else reach (max n (part.length + start)) parts

/-- One of the parts has the place. -/
def Covers (parts : List (List α × ℕ)) (n : ℕ) : Prop :=
  ∃ x ∈ parts, x.2 ≤ n ∧ n < x.2 + x.1.length

variable {parts : List (List α × ℕ)} {stop : ℕ}

/-- What is reached is at least where one started. -/
theorem le_reach (h : reach n parts = some stop) : n ≤ stop := by
  induction parts generalizing n with
  | nil => exact Nat.le_of_eq (Option.some.inj h)
  | cons x parts ih =>
    rw [reach] at h
    split_ifs at h
    exact le_trans (le_max_left _ _) (ih h)

/-- What is reached lies behind every part. -/
theorem end_le_reach (h : reach n parts = some stop) :
    ∀ x ∈ parts, x.2 + x.1.length ≤ stop := by
  induction parts generalizing n with
  | nil => exact nofun
  | cons x parts ih =>
    rw [reach] at h
    split_ifs at h
    intro y hy
    obtain rfl | hy := mem_cons.mp hy
    · have := le_trans (le_max_right _ _) (le_reach h)
      omega
    · exact ih h y hy

/-- Everything up to what is reached is covered. -/
theorem reach_covers (h : reach n parts = some stop) (hn : n ≤ m) (hm : m < stop) :
    Covers parts m := by
  induction parts generalizing n with
  | nil =>
    cases h
    omega
  | cons x parts ih =>
    rw [reach] at h
    split_ifs at h with hgap
    by_cases hin : m < x.2 + x.1.length
    · exact ⟨x, mem_cons_self .., by omega, hin⟩
    · obtain ⟨y, hy, hcovers⟩ := ih h (max_le hn (by omega))
      exact ⟨y, mem_cons_of_mem x hy, hcovers⟩

/-- Ordered parts that leave no gap in front of them can be gone through. -/
theorem reach_isSome (hsorted : parts.Pairwise fun x y => x.2 ≤ y.2)
    (hcovers : ∀ x ∈ parts, ∀ m, n ≤ m → m < x.2 → Covers parts m) :
    (reach n parts).isSome = true := by
  induction parts generalizing n with
  | nil => rfl
  | cons x parts ih =>
    obtain ⟨hfirst, hsorted⟩ := pairwise_cons.mp hsorted
    have hgap : ¬ n < x.2 := by
      intro hlt
      obtain ⟨y, hy, hyn, -⟩ := hcovers x mem_cons_self n le_rfl hlt
      obtain rfl | hy := mem_cons.mp hy
      · omega
      · have := hfirst y hy
        omega
    rw [reach, if_neg hgap]
    refine ih hsorted fun y hy m hm hlt => ?_
    obtain ⟨z, hz, hzm⟩ := hcovers y (mem_cons_of_mem x hy) m
      (le_trans (le_max_left _ _) hm) hlt
    obtain rfl | hz := mem_cons.mp hz
    · have := le_trans (le_max_right _ _) hm
      omega
    · exact ⟨z, hz, hzm⟩

/-! ### Parts without a place in common -/

variable {x y : List α × ℕ} {parts' : List (List α × ℕ)}

/-- What is covered by a first part and the others. -/
theorem covers_cons :
    Covers (x :: parts) n ↔ (x.2 ≤ n ∧ n < x.2 + x.1.length) ∨ Covers parts n := by
  unfold Covers
  simp only [mem_cons, exists_eq_or_imp]

/-- What is covered by two lists of parts. -/
theorem covers_append : Covers (parts ++ parts') n ↔ Covers parts n ∨ Covers parts' n := by
  unfold Covers
  simp only [mem_append, or_and_right, exists_or]

/-- No part covers nothing. -/
theorem not_covers_nil : ¬ Covers ([] : List (List α × ℕ)) n := fun ⟨_, hx, _⟩ =>
  not_mem_nil hx

/-- The parts are sorted, none is empty, and none reaches into the next one. -/
structure Apart (parts : List (List α × ℕ)) : Prop where
  pos : ∀ x ∈ parts, 0 < x.1.length
  sorted : parts.Pairwise fun x y => x.2 + x.1.length ≤ y.2

/-- How many places the parts have. -/
def totalLength : List (List α × ℕ) → ℕ
  | [] => 0
  | x :: parts => x.1.length + totalLength parts

theorem apart_nil : Apart ([] : List (List α × ℕ)) := ⟨nofun, List.Pairwise.nil⟩

/-- Without the first part the others are apart. -/
theorem Apart.tail (h : Apart (x :: parts)) : Apart parts where
  pos := fun y hy => h.pos y (mem_cons_of_mem x hy)
  sorted := (pairwise_cons.mp h.sorted).2

/-- The first of parts that are apart ends before the others. -/
theorem Apart.head_le (h : Apart (x :: parts)) : ∀ y ∈ parts, x.2 + x.1.length ≤ y.2 :=
  (pairwise_cons.mp h.sorted).1

/-- Of parts that are apart one only covers a position. -/
theorem Apart.eq_of_mem (h : Apart parts) (hx : x ∈ parts) (hy : y ∈ parts)
    (hxn : x.2 ≤ n ∧ n < x.2 + x.1.length) (hyn : y.2 ≤ n ∧ n < y.2 + y.1.length) : x = y := by
  induction parts with
  | nil => exact absurd hx not_mem_nil
  | cons z parts ih =>
    obtain rfl | hxs := mem_cons.mp hx
    · obtain rfl | hys := mem_cons.mp hy
      · rfl
      · have hle := h.head_le y hys
        omega
    · obtain rfl | hys := mem_cons.mp hy
      · have hle := h.head_le x hxs
        omega
      · exact ih h.tail hxs hys

/-- Fewer parts are apart as well. -/
theorem Apart.sublist (h : Apart parts) (hsub : parts'.Sublist parts) : Apart parts' where
  pos := fun y hy => h.pos y (hsub.subset hy)
  sorted := h.sorted.sublist hsub

/-- The total length of two lists of parts. -/
theorem totalLength_append (parts parts' : List (List α × ℕ)) :
    totalLength (parts ++ parts') = totalLength parts + totalLength parts' := by
  induction parts with
  | nil => exact (Nat.zero_add _).symm
  | cons x parts ih => exact (congrArg (x.1.length + ·) ih).trans (Nat.add_assoc ..).symm

/-- Parts that are apart fit between their bounds. -/
theorem Apart.totalLength_le (h : Apart parts) (hle : n ≤ stop) (hn : ∀ x ∈ parts, n ≤ x.2)
    (hstop : ∀ x ∈ parts, x.2 + x.1.length ≤ stop) : n + totalLength parts ≤ stop := by
  induction parts generalizing n with
  | nil => exact hle
  | cons x parts ih =>
    have hx := hn x mem_cons_self
    have := ih h.tail (hstop x mem_cons_self) h.head_le
      fun y hy => hstop y (mem_cons_of_mem x hy)
    rw [totalLength]
    omega

/-- Parts that are apart are no longer together than what they cover. -/
theorem Apart.totalLength_le_of_covers (h : Apart parts) (hle : n ≤ stop)
    (hcovers : ∀ m, Covers parts m → n ≤ m ∧ m < stop) : n + totalLength parts ≤ stop := by
  refine h.totalLength_le hle (fun x hx => ?_) fun x hx => ?_
  · have hpos := h.pos x hx
    exact (hcovers x.2 ⟨x, hx, le_rfl, by omega⟩).1
  · have hpos := h.pos x hx
    have := (hcovers (x.2 + (x.1.length - 1)) ⟨x, hx, by omega, by omega⟩).2
    omega

/-! ### Parts one after the other -/

/-- The first part starts at `n`, each other one where the one before ends, and the last one ends
at `stop`. -/
def Chain : ℕ → List (List α × ℕ) → ℕ → Prop
  | n, [], stop => n = stop
  | n, x :: parts, stop => x.2 = n ∧ Chain (n + x.1.length) parts stop

/-- A chain goes forwards and keeps its parts within its ends. -/
theorem Chain.le (h : Chain n parts stop) :
    n ≤ stop ∧ ∀ x ∈ parts, n ≤ x.2 ∧ x.2 + x.1.length ≤ stop := by
  induction parts generalizing n with
  | nil => exact ⟨Nat.le_of_eq h, nofun⟩
  | cons x parts ih =>
    obtain ⟨rfl, hrest⟩ := h
    obtain ⟨hle, hparts⟩ := ih hrest
    refine ⟨by omega, fun y hy => ?_⟩
    obtain rfl | hy := mem_cons.mp hy
    · exact ⟨le_rfl, hle⟩
    · have := hparts y hy
      omega

/-- The parts of a chain are apart. -/
theorem Chain.apart (h : Chain n parts stop) (hpos : ∀ x ∈ parts, 0 < x.1.length) :
    Apart parts := by
  refine ⟨hpos, ?_⟩
  clear hpos
  induction parts generalizing n with
  | nil => exact List.Pairwise.nil
  | cons x parts ih =>
    obtain ⟨rfl, hrest⟩ := h
    exact pairwise_cons.mpr ⟨fun y hy => (hrest.le.2 y hy).1, ih hrest⟩

/-- A chain is gone through to its end. -/
theorem Chain.reach_eq (h : Chain n parts stop) : reach n parts = some stop := by
  induction parts generalizing n with
  | nil => exact congrArg some h
  | cons x parts ih =>
    obtain ⟨rfl, hrest⟩ := h
    rw [reach, if_neg (lt_irrefl _), max_eq_right (by omega), Nat.add_comm]
    exact ih hrest

/-- Of parts that are apart one that begins inside another is the other. -/
theorem Apart.eq_of_covers (h : Apart parts) (hx : x ∈ parts) (hy : y ∈ parts) (hle : y.2 ≤ x.2)
    (hlt : x.2 < y.2 + y.1.length) : x = y := by
  induction parts with
  | nil => cases hx
  | cons z parts ih =>
    obtain rfl | hx' := mem_cons.mp hx
    · obtain rfl | hy' := mem_cons.mp hy
      · rfl
      · have := h.head_le y hy'
        have := h.pos x mem_cons_self
        omega
    · obtain rfl | hy' := mem_cons.mp hy
      · have := h.head_le x hx'
        omega
      · exact ih h.tail hx' hy'

/-- **Parts of a whole that reach its end** are all parts of it. -/
theorem subset_of_reach (h : Apart parts) (hchain : Chain 0 parts stop)
    (hsub : ∀ x ∈ parts', x ∈ parts) (hreach : reach 0 parts' = some stop) :
    ∀ x ∈ parts, x ∈ parts' := by
  intro x hx
  have hpos := h.pos x hx
  have hle := (hchain.le.2 x hx).2
  obtain ⟨y, hy, hyx, hxy⟩ := reach_covers hreach (Nat.zero_le x.2) (by omega)
  rw [h.eq_of_covers hx (hsub y hy) hyx hxy]
  exact hy

end Slices
