import Mathlib.Data.List.Perm.Basic

/-!
# Queues that are first in, first out for each key

Things with keys come in, are held for a while and leave. `Conserved` says that nothing is lost,
nothing is made up, and that among the things with one key those that came first leave first.

* `Conserved.come`: a thing comes in.
* `Conserved.leave_first`: the first of its key leaves.
* `Conserved.leave_key`: all of one key leave.
* `Conserved.leave_older`: the older ones leave.
* `Conserved.perm`: what came in is what left and what is held.
-/

namespace KeyedFifo

open List

variable {α κ : Type*} [DecidableEq κ]

/-- With each key, what came in is what left followed by what is held. -/
def Conserved (key : α → κ) (came left held : List α) : Prop :=
  ∀ k, came.filter (fun x => decide (key x = k)) =
    (left ++ held).filter (fun x => decide (key x = k))

variable {key : α → κ} {came left held : List α}

theorem Conserved.nil : Conserved key [] [] [] := fun _ => rfl

/-- What comes is held at the end. -/
theorem Conserved.come (h : Conserved key came left held) (x : α) :
    Conserved key (came ++ [x]) left (held ++ [x]) := by
  intro k
  rw [filter_append, h k, ← append_assoc, ← filter_append]

/-- Things may leave if this does not change the order among the things with one key. -/
theorem Conserved.leave {gone kept : List α} (h : Conserved key came left held)
    (horder : ∀ k, held.filter (fun x => decide (key x = k)) =
      (gone ++ kept).filter (fun x => decide (key x = k))) :
    Conserved key came (left ++ gone) kept := by
  intro k
  rw [h k, append_assoc, filter_append, filter_append, horder k]

/-- The first of a key may leave. -/
theorem Conserved.leave_first {a b : List α} {x : α} (h : Conserved key came left (a ++ x :: b))
    (ha : ∀ y ∈ a, key y ≠ key x) : Conserved key came (left ++ [x]) (a ++ b) := by
  refine h.leave fun k => ?_
  by_cases hk : key x = k
  · have hnone : a.filter (fun y => decide (key y = k)) = [] :=
      filter_eq_nil_iff.mpr fun y hy => by simpa using hk ▸ ha y hy
    simp [hnone, hk]
  · simp [hk]

/-- Everything of a key may leave at once. -/
theorem Conserved.leave_key (h : Conserved key came left held) (k₀ : κ) :
    Conserved key came (left ++ held.filter fun x => decide (key x = k₀))
      (held.filter fun x => !decide (key x = k₀)) := by
  refine h.leave fun k => ?_
  rw [filter_append, filter_filter, filter_filter]
  by_cases hk : k = k₀
  · subst hk
    have hnone : (held.filter fun x => decide (key x = k) && !decide (key x = k)) = [] :=
      filter_eq_nil_iff.mpr fun x _ => by simp
    rw [hnone, append_nil]
    exact filter_congr fun x _ => by simp
  · have hnone : (held.filter fun x => decide (key x = k) && decide (key x = k₀)) = [] := by
      refine filter_eq_nil_iff.mpr fun x _ hx => ?_
      rw [Bool.and_eq_true, decide_eq_true_eq, decide_eq_true_eq] at hx
      exact hk (hx.1.symm.trans hx.2)
    rw [hnone, nil_append]
    refine filter_congr fun x _ => ?_
    by_cases hx : key x = k
    · simp [hx, hk]
    · simp [hx]

variable {p : α → Bool}

/-- Where everything before a thing with `p` has `p` too, those with `p` come first. -/
theorem filter_append_filter_not {l : List α} (h : l.Pairwise fun x y => p y = true → p x = true) :
    l.filter p ++ l.filter (fun x => !p x) = l := by
  induction l with
  | nil => rfl
  | cons x l ih =>
    obtain ⟨hx, hl⟩ := pairwise_cons.mp h
    by_cases hp : p x = true
    · simp [hp, ih hl]
    · have hnone : l.filter p = [] := filter_eq_nil_iff.mpr fun y hy hpy => hp (hx y hy hpy)
      have hall : l.filter (fun x => !p x) = l :=
        filter_eq_self.mpr fun y hy => by
          simpa using fun hpy => hp (hx y hy hpy)
      simp [hp, hnone, hall]

/-- What is older than everything of its key may leave. -/
theorem Conserved.leave_older (h : Conserved key came left held)
    (hp : held.Pairwise fun x y => p y = true → p x = true) :
    Conserved key came (left ++ held.filter p) (held.filter fun x => !p x) :=
  h.leave fun k => by rw [filter_append_filter_not hp]

/-- Nothing is lost: what came has left or is held. -/
theorem Conserved.perm (h : Conserved key came left held) : came.Perm (left ++ held) := by
  classical
  refine perm_iff_count.mpr fun x => ?_
  have hcount : ∀ l : List α,
      (l.filter fun y => decide (key y = key x)).count x = l.count x :=
    fun l => count_filter (by simp)
  rw [← hcount came, h (key x), hcount]

end KeyedFifo
