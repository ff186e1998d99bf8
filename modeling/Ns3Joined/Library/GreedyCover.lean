import Mathlib.Data.Finset.Insert
import Mathlib.Data.List.Basic

/-!
# Covering targets by what reaches them

A list of links, each from something that may be chosen (`via`) to a target. A target is covered
where one of the things that reach it is chosen, and then none of its links is left.

* `cover`: a choice takes out the links of all the targets that it reaches.
* `Covering`: the links that are left are links, and the targets of the others are covered.
* `Covering.remove`, `Covering.choose`: it is kept where links of covered targets are taken out.
* `length_cover_lt`: a choice that still reaches a target takes a link out.
* `Covering.covers`: if nothing is left, all targets are covered.
-/

namespace GreedyCover

open List

variable {α ν τ : Type*} [DecidableEq ν] [DecidableEq τ] (via : α → ν) (target : α → τ)

/-- The targets that `n` reaches. -/
def targets (n : ν) (rest : List α) : List τ := (rest.filter fun x => via x = n).map target

/-- The links to other targets than those that `n` reaches. -/
def cover (n : ν) (rest : List α) : List α :=
  rest.filter fun x => target x ∉ targets via target n rest

/-- The target of `x` is covered. -/
def IsCovered (all : List α) (chosen : Finset ν) (x : α) : Prop :=
  ∃ y ∈ all, target y = target x ∧ via y ∈ chosen

/-- `rest` is what is left of the links after the choices so far. -/
structure Covering (all rest : List α) (chosen : Finset ν) : Prop where
  sub : ∀ x ∈ rest, x ∈ all
  covered : ∀ x ∈ all, x ∈ rest ∨ IsCovered via target all chosen x

variable {via target} {all rest : List α} {chosen : Finset ν} {n : ν} {x : α}

omit [DecidableEq τ] in
/-- The targets a node reaches. -/
theorem mem_targets {t : τ} :
    t ∈ targets via target n rest ↔ ∃ y ∈ rest, via y = n ∧ target y = t := by
  simp only [targets, mem_map, mem_filter, decide_eq_true_eq, and_assoc]

/-- What is left is what does not lead to a target of the node. -/
theorem mem_cover : x ∈ cover via target n rest ↔
    x ∈ rest ∧ ∀ y ∈ rest, via y = n → target y ≠ target x := by
  unfold cover
  rw [mem_filter, decide_eq_true_eq, mem_targets]
  push Not
  exact Iff.rfl

omit [DecidableEq ν] [DecidableEq τ] in
/-- More nodes cover at least as much. -/
theorem IsCovered.mono {chosen' : Finset ν} (h : IsCovered via target all chosen x)
    (hsub : chosen ⊆ chosen') : IsCovered via target all chosen' x := by
  obtain ⟨y, hy, htarget, hvia⟩ := h
  exact ⟨y, hy, htarget, hsub hvia⟩

omit [DecidableEq ν] [DecidableEq τ] in
/-- At the start nothing is covered and everything is left. -/
theorem Covering.start (all : List α) : Covering via target all all ∅ :=
  ⟨fun _ hx => hx, fun _ hx => .inl hx⟩

omit [DecidableEq ν] [DecidableEq τ] in
/-- Links may be taken out whose targets are covered by then. -/
theorem Covering.remove (h : Covering via target all rest chosen) {chosen' : Finset ν}
    {rest' : List α} (hchosen : chosen ⊆ chosen') (hsub : ∀ x ∈ rest', x ∈ rest)
    (hremoved : ∀ x ∈ rest, x ∉ rest' → IsCovered via target all chosen' x) :
    Covering via target all rest' chosen' where
  sub x hx := h.sub x (hsub x hx)
  covered x hx := by
    obtain hrest | hcovered := h.covered x hx
    · by_cases hrest' : x ∈ rest'
      · exact .inl hrest'
      · exact .inr (hremoved x hrest hrest')
    · exact .inr (hcovered.mono hchosen)

/-- Choosing a node takes away exactly what it covers. -/
theorem Covering.choose (h : Covering via target all rest chosen) (n : ν) :
    Covering via target all (cover via target n rest) (insert n chosen) := by
  refine h.remove (Finset.subset_insert n chosen) (fun x hx => (mem_cover.mp hx).1) ?_
  intro x hx hnot
  rw [mem_cover] at hnot
  push Not at hnot
  obtain ⟨y, hy, hvia, htarget⟩ := hnot hx
  exact ⟨y, h.sub y hy, htarget, hvia ▸ Finset.mem_insert_self _ _⟩

/-- Choosing a node with something left leaves less. -/
theorem length_cover_lt (hx : x ∈ rest) (hvia : via x = n) :
    (cover via target n rest).length < rest.length := by
  refine (length_filter_lt_length_iff_exists).mpr ⟨x, hx, ?_⟩
  rw [decide_eq_true_eq, not_not]
  exact mem_targets.mpr ⟨x, hx, hvia, rfl⟩

omit [DecidableEq ν] [DecidableEq τ] in
/-- Where nothing is left everything is covered. -/
theorem Covering.covers (h : Covering via target all [] chosen) (hx : x ∈ all) :
    IsCovered via target all chosen x := by
  obtain hnil | hcovered := h.covered x hx
  · cases hnil
  · exact hcovered

end GreedyCover
