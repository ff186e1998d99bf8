import Mathlib.Order.Lattice.Nat

/-!
# Distance vectors at rest

Nodes that each know only the labels of those that they hear, over arcs with costs: what the
labels are when nothing that is heard would change one.

* `Path`: the lengths of the paths to a target.
* `Rests`: no label is below what a path allows, and what is heard is taken over, unless it is left
  out because a better path is near. `Rests.isLeast`: then each label is the length of a shortest
  path, or the cap.
* `Rests.exists_route`: who goes on to a node that backs its label meets no node twice and ends at
  a target.
-/

namespace DistanceVector

variable {ι : Type*} {target : ι → Prop} {hears : ι → ι → ℕ → Prop} {start : ℕ}

/-- A path from a node to a target, of a length. -/
inductive Path (target : ι → Prop) (hears : ι → ι → ℕ → Prop) (start : ℕ) : ι → ℕ → Prop
  | target {i : ι} (htarget : target i) : Path target hears start i start
  | hop {i j : ι} {cost length : ℕ} (hhears : hears i j cost)
      (hpath : Path target hears start j length) : Path target hears start i (length + cost)

variable {length : ℕ} {i : ι}

/-- A path is at least as long as its start. -/
theorem Path.start_le (h : Path target hears start i length) : start ≤ length := by
  induction h with
  | target => exact Nat.le_refl _
  | hop _ _ ih => exact Nat.le_trans ih (Nat.le_add_right _ _)

/-- That a node goes on to another explains its label. -/
def Backs (target : ι → Prop) (hears : ι → ι → ℕ → Prop) (start : ℕ) (label : ι → ℕ)
    (i j : ι) : Prop :=
  ∃ cost length, hears i j cost ∧ Path target hears start j length ∧ length + cost ≤ label i

structure Rests (target : ι → Prop) (hears : ι → ι → ℕ → Prop) (start cap : ℕ)
    (label : ι → ℕ) : Prop where
  pos : ∀ i j cost, hears i j cost → 0 < cost
  le_cap : ∀ i, label i ≤ cap
  label_target : ∀ i, target i → label i = start
  backed : ∀ i, label i < cap → target i ∨ ∃ j, Backs target hears start label i j
  /-- What is heard is taken over, or left out for a better path. -/
  taken : ∀ i j cost, hears i j cost → label j + cost < cap → label i ≤ label j + cost ∨
    ∃ length, Path target hears start i length ∧ length < label j + cost

variable {cap : ℕ} {label : ι → ℕ}

section

variable (h : Rests target hears start cap label)

include h

/-- Where no label can be improved none exceeds the length of a path. -/
theorem Rests.label_le : ∀ {i : ι}, Path target hears start i length → label i ≤ length := by
  induction length using Nat.strong_induction_on with
  | h length ih =>
    intro i hpath
    cases hpath with
    | target htarget => exact Nat.le_of_eq (h.label_target i htarget)
    | @hop _ j cost rest hhears hpath =>
      have hj : label j ≤ rest := ih rest (Nat.lt_add_of_pos_right (h.pos i j cost hhears)) hpath
      have hsum : label j + cost ≤ rest + cost := Nat.add_le_add_right hj cost
      by_cases hcap : label j + cost < cap
      · obtain htaken | ⟨better, hbetter, hlt⟩ := h.taken i j cost hhears hcap
        · exact Nat.le_trans htaken hsum
        · have hless : better < rest + cost := Nat.lt_of_lt_of_le hlt hsum
          exact Nat.le_trans (ih better hless hbetter) (Nat.le_of_lt hless)
      · exact Nat.le_trans (h.le_cap i) (Nat.le_trans (Nat.le_of_not_lt hcap) hsum)

/-- Where no label can be improved a finite label is the length of a path. -/
theorem Rests.path (hlt : label i < cap) : Path target hears start i (label i) := by
  obtain htarget | ⟨j, cost, length, hhears, hpath, hle⟩ := h.backed i hlt
  · exact h.label_target i htarget ▸ .target htarget
  · have hhop : Path target hears start i (length + cost) := .hop hhears hpath
    exact Nat.le_antisymm (h.label_le hhop) hle ▸ hhop

/-- **A label is the length of a shortest path**, or the cap if there is none below it. -/
theorem Rests.isLeast (i : ι) : IsLeast {m | m = cap ∨ Path target hears start i m} (label i) := by
  constructor
  · obtain hlt | heq := Nat.lt_or_eq_of_le (h.le_cap i)
    · exact .inr (h.path hlt)
    · exact .inl heq
  · rintro m (rfl | hpath)
    · exact h.le_cap i
    · exact h.label_le hpath

/-- A label backed by a neighbour exceeds the neighbour's. -/
theorem Rests.label_lt {j : ι} (hbacks : Backs target hears start label i j) :
    label j < label i := by
  obtain ⟨cost, length, hhears, hpath, hle⟩ := hbacks
  exact Nat.lt_of_lt_of_le (Nat.lt_of_le_of_lt (h.label_le hpath)
    (Nat.lt_add_of_pos_right (h.pos i j cost hhears))) hle

/-- **Who goes on gets there**: from a node with a label below the cap, by nodes that back the
labels, to a target, and no node comes twice. -/
theorem Rests.exists_route {next : ι → ι → Prop}
    (hnext : ∀ i, label i < cap → ¬ target i → ∃ j, next i j ∧ Backs target hears start label i j)
    (hlt : label i < cap) :
    ∃ route : List ι, (i :: route).IsChain next ∧ (i :: route).Nodup ∧
      ∃ last ∈ (i :: route).getLast?, target last := by
  -- the nodes of the rest have smaller labels
  have hroute : ∀ bound i, label i = bound → label i < cap → ∃ route : List ι,
      (i :: route).IsChain next ∧ (i :: route).Nodup ∧ (∀ j ∈ route, label j < label i) ∧
      ∃ last ∈ (i :: route).getLast?, target last := by
    intro bound
    induction bound using Nat.strong_induction_on with
    | h bound ih =>
      intro i hbound hlt
      by_cases htarget : target i
      · exact ⟨[], List.isChain_singleton i, List.nodup_singleton i, nofun, i, rfl, htarget⟩
      obtain ⟨j, hj, hbacks⟩ := hnext i hlt htarget
      have hless := h.label_lt hbacks
      obtain ⟨route, hchain, hnodup, hbelow, last, hlast, hend⟩ :=
        ih (label j) (hbound ▸ hless) j rfl (Nat.lt_trans hless hlt)
      have hall : ∀ k ∈ j :: route, label k < label i := fun k hk => by
        obtain rfl | hk := List.mem_cons.mp hk
        · exact hless
        · exact Nat.lt_trans (hbelow k hk) hless
      refine ⟨j :: route, List.isChain_cons_cons.mpr ⟨hj, hchain⟩,
        List.nodup_cons.mpr ⟨fun hmem => Nat.lt_irrefl _ (hall i hmem), hnodup⟩, hall, last, ?_,
        hend⟩
      rw [List.getLast?_cons_cons]
      exact hlast
  obtain ⟨route, hchain, hnodup, -, hend⟩ := hroute _ i rfl hlt
  exact ⟨route, hchain, hnodup, hend⟩

end

end DistanceVector
