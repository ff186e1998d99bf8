import Mathlib.Order.Nat
import Mathlib.Tactic.Common

/-!
# Walks of least weight

A directed graph with weights on its arcs, given by the arcs that leave a vertex.

* `Walk g s v l`: the arcs `l` lead from `s` to `v`; `cost g l` is the sum of their weights.
* `Least g s v c`: `c` is the least cost of a walk from `s` to `v` (`exists_least`).
* `le_cost_of_relaxed`: labels that no arc improves are lower bounds.
-/

namespace ShortestWalks

structure Digraph (V E : Type*) where
  out : V → List E
  target : E → V
  weight : E → ℕ

variable {V E : Type*} {g : Digraph V E} {s u v : V} {l : List E}

/-- The arcs lead from `s` to the vertex. -/
inductive Walk (g : Digraph V E) (s : V) : V → List E → Prop
  | nil : Walk g s s []
  | snoc {u : V} {l : List E} {e : E} :
      Walk g s u l → e ∈ g.out u → Walk g s (g.target e) (l ++ [e])

/-- A walk without edges stays where it is. -/
theorem Walk.eq_of_nil (h : Walk g s v []) : v = s := by
  generalize hl : ([] : List E) = l at h
  cases h with
  | nil => rfl
  | snoc _ _ => exact absurd hl.symm (List.append_ne_nil_of_right_ne_nil _ (List.cons_ne_nil _ _))

/-- The first arc leaves the source. -/
theorem Walk.head_mem (h : Walk g s v l) {e : E} (he : l.head? = some e) : e ∈ g.out s := by
  induction h with
  | nil => cases he
  | @snoc u l e' hl he' ih =>
    match l with
    | [] =>
      cases he
      rw [hl.eq_of_nil] at he'
      exact he'
    | _ :: _ => exact ih he

/-- A set that walks do not leave contains where they arrive. -/
theorem Walk.mem (h : Walk g s v l) {S : V → Prop} (hs : S s)
    (hout : ∀ u, S u → ∀ e ∈ g.out u, S (g.target e)) : S v := by
  induction h with
  | nil => exact hs
  | snoc _ he ih => exact hout _ ih _ he

/-- The last arc leads to the vertex. -/
theorem Walk.exists_target (h : Walk g s v l) (hne : l ≠ []) : ∃ e ∈ l, g.target e = v := by
  cases h with
  | nil => exact absurd rfl hne
  | @snoc u l e _ _ =>
    exact ⟨e, List.mem_append_right _ (List.mem_singleton_self e), rfl⟩

/-- A walk does not depend on the weights. -/
theorem Walk.of_weight {weight : E → ℕ} (h : Walk g s v l) :
    Walk { g with weight := weight } s v l := by
  induction h with
  | nil => exact .nil
  | @snoc u l e _ he ih => exact ih.snoc (g := { g with weight := weight }) he

/-- The sum of the weights. -/
def cost (g : Digraph V E) : List E → ℕ
  | [] => 0
  | e :: l => g.weight e + cost g l

/-- The cost of a walk with one more edge. -/
theorem cost_snoc (l : List E) (e : E) : cost g (l ++ [e]) = cost g l + g.weight e := by
  induction l with
  | nil => exact (Nat.zero_add _).symm
  | cons e' l ih =>
    show g.weight e' + cost g (l ++ [e]) = g.weight e' + cost g l + g.weight e
    rw [ih, Nat.add_assoc]

/-- The least cost of a walk. -/
def Least (g : Digraph V E) (s v : V) (c : ℕ) : Prop :=
  (∃ l, Walk g s v l ∧ cost g l = c) ∧ ∀ l, Walk g s v l → c ≤ cost g l

/-- Where there is a walk there is a cheapest one. -/
theorem exists_least (h : Walk g s v l) : ∃ c, Least g s v c := by
  classical
  have hex : ∃ c, ∃ l, Walk g s v l ∧ cost g l = c := ⟨_, l, h, rfl⟩
  refine ⟨Nat.find hex, Nat.find_spec hex, ?_⟩
  intro l hl
  exact Nat.find_min' hex ⟨l, hl, rfl⟩

/-- **Labels that no arc improves** are at most the cost of any walk. -/
theorem le_cost_of_relaxed {d : V → ℕ} (hs : d s = 0)
    (hrelaxed : ∀ u l, Walk g s u l → ∀ e ∈ g.out u, d (g.target e) ≤ d u + g.weight e)
    (h : Walk g s v l) : d v ≤ cost g l := by
  induction h with
  | nil => exact Nat.le_of_eq hs
  | @snoc u l e hl he ih =>
    calc d (g.target e) ≤ d u + g.weight e := hrelaxed u l hl e he
      _ ≤ cost g l + g.weight e := Nat.add_le_add_right ih _
      _ = cost g (l ++ [e]) := (cost_snoc l e).symm

end ShortestWalks
