import Mathlib.Data.List.Nodup

/-!
# Recency

Which of several things was used least recently, told from a list of notes that has the
uses in it, the latest first: the thing whose first mention comes last.

A queue that moves what is used to its end has its elements in that order (`Ordered`,
`Ordered.touch`), so the first of its elements with a property is the least recently used
one with the property (`Ordered.leastRecent`).
-/

namespace Recency

open List

variable {α : Type*} [DecidableEq α] {notes queue : List α} {a : α}

/-- `a` was used least recently among the elements of `S`. -/
def LeastRecent (notes : List α) (S : α → Prop) (a : α) : Prop :=
  S a ∧ ∀ b, S b → b ≠ a → notes.idxOf b < notes.idxOf a

/-- The queue has its elements in the order of their last use. -/
def Ordered (notes queue : List α) : Prop :=
  queue.Pairwise fun a b => notes.idxOf b < notes.idxOf a

/-- A queue in order of use has no element twice. -/
theorem Ordered.nodup (h : Ordered notes queue) : queue.Nodup := by
  refine List.Pairwise.imp ?_ h
  rintro a b hlt rfl
  exact Nat.lt_irrefl _ hlt

theorem Ordered.sublist (h : Ordered notes queue) {queue' : List α} (hsub : queue'.Sublist queue) :
    Ordered notes queue' := List.Pairwise.sublist hsub h

/-- Using an element moves it to the end of the queue. -/
theorem Ordered.touch (h : Ordered notes queue) (a : α) :
    Ordered (a :: notes) (queue.erase a ++ [a]) := by
  have hne : ∀ b ∈ queue.erase a, b ≠ a := fun b hb => (h.nodup.mem_erase_iff.mp hb).1
  have hidx : ∀ b, b ≠ a → (a :: notes).idxOf b = notes.idxOf b + 1 := fun b hb =>
    idxOf_cons_ne notes fun heq => hb heq.symm
  refine pairwise_append.mpr ⟨?_, pairwise_singleton _ _, fun b hb c hc => ?_⟩
  · -- the others keep their order, one place further back in the notes
    refine List.Pairwise.imp_of_mem ?_ (h.sublist erase_sublist)
    intro b c hb hc hlt
    rw [hidx b (hne b hb), hidx c (hne c hc)]
    exact Nat.succ_lt_succ hlt
  · rw [mem_singleton.mp hc, hidx b (hne b hb), idxOf_cons_self]
    exact Nat.succ_pos _

/-- The first element with a property was used least recently among those with it. -/
theorem Ordered.leastRecent {before after : List α} (h : Ordered notes (before ++ a :: after))
    {S : α → Prop} (ha : S a) (hS : ∀ b, S b → b ∈ before ++ a :: after)
    (hbefore : ∀ b ∈ before, ¬ S b) : LeastRecent notes S a := by
  refine ⟨ha, fun b hb hne => ?_⟩
  obtain ⟨-, hpair, -⟩ := pairwise_append.mp h
  rcases mem_append.mp (hS b hb) with hmem | hmem
  · exact absurd hb (hbefore b hmem)
  · rcases mem_cons.mp hmem with heq | hmem
    · exact absurd heq hne
    · exact (pairwise_cons.mp hpair).1 b hmem

end Recency
