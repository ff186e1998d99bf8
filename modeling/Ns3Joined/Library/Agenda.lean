import Mathlib.Data.List.Sort

/-!
# Agendas

What is to be done at which time, as a list in the order of time; of what is due at one time, the
first that was put in comes first.

* `add`, `mem_add`, `InOrder.add`: one thing more to be done.
* `InOrder.head_le`: the first of an agenda is due first.
-/

namespace Agenda

open List

variable {α : Type*} (time : α → ℕ)

/-- Puts something in, after all that is due no later. -/
def add (a : α) (agenda : List α) : List α :=
  agenda.orderedInsert (fun a b => time a < time b) a

def InOrder (agenda : List α) : Prop := agenda.Pairwise fun a b => time a ≤ time b

variable {time} {a b : α} {agenda : List α}

theorem mem_add : b ∈ add time a agenda ↔ b = a ∨ b ∈ agenda := mem_orderedInsert _

/-- Adding permutes the agenda with the new entry in front. -/
theorem add_perm (time : α → ℕ) (a : α) (agenda : List α) :
    (add time a agenda).Perm (a :: agenda) := perm_orderedInsert _ a agenda

/-- Adding keeps the agenda in order. -/
theorem InOrder.add (h : InOrder time agenda) (a : α) : InOrder time (add time a agenda) := by
  induction agenda with
  | nil => exact pairwise_singleton _ _
  | cons b agenda ih =>
    obtain ⟨hb, hagenda⟩ := pairwise_cons.mp h
    show InOrder time (if time a < time b then _ else _)
    split_ifs with hlt
    · refine pairwise_cons.mpr ⟨fun c hc => ?_, h⟩
      obtain rfl | hc := mem_cons.mp hc
      · exact Nat.le_of_lt hlt
      · exact Nat.le_trans (Nat.le_of_lt hlt) (hb c hc)
    · refine pairwise_cons.mpr ⟨fun c hc => ?_, ih hagenda⟩
      obtain rfl | hc := mem_add.mp hc
      · exact Nat.le_of_not_lt hlt
      · exact hb c hc

/-- Taking the first entry keeps the agenda in order. -/
theorem InOrder.tail (h : InOrder time (a :: agenda)) : InOrder time agenda :=
  (pairwise_cons.mp h).2

/-- The first entry of an agenda is due first. -/
theorem InOrder.head_le (h : InOrder time (a :: agenda)) (hb : b ∈ a :: agenda) :
    time a ≤ time b := by
  obtain rfl | hb := mem_cons.mp hb
  · exact Nat.le_refl _
  · exact (pairwise_cons.mp h).1 b hb

/-- A map that leaves the times alone keeps the order. -/
theorem InOrder.map (h : InOrder time agenda) {f : α → α} (hf : ∀ a, time (f a) = time a) :
    InOrder time (agenda.map f) := by
  refine pairwise_map.mpr (List.Pairwise.imp (fun {a b} hab => ?_) h)
  rw [hf, hf]
  exact hab

theorem InOrder.filter (h : InOrder time agenda) (p : α → Bool) :
    InOrder time (agenda.filter p) := List.Pairwise.filter p h

end Agenda
