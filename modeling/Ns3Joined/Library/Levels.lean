import Mathlib.Order.Nat
import Mathlib.Tactic.Common

/-!
# Labels that grow level by level

Some vertices of a graph have a label to begin with (`base`). From those with the label `first`
the others get theirs, one level after the other: what an arc leads to from the label `h`, and has
no label yet, gets `h + 1`.

* `Hops`: how many arcs lead to a vertex, past the labels that there were before.
* `Labelled`: the labels are right as far as the level; `Grows`: what one level adds.
* `Labelled.grow`: the labels stay right.
* `Labelled.least`: once a level adds nothing, each label is the least number of hops.
-/

namespace Levels

variable {V : Type*} {base label label' : V → Option ℕ} {arc : V → V → Prop} {first h : ℕ}

/-- The vertex is reached so from one that has the label `first` to begin with, over vertices that
have none. -/
inductive Hops (base : V → Option ℕ) (arc : V → V → Prop) (first : ℕ) : V → ℕ → Prop
  | start {v : V} (hv : base v = some first) : Hops base arc first v first
  | step {u v : V} {h : ℕ} (hu : Hops base arc first u h) (harc : arc u v) (hv : base v = none) :
      Hops base arc first v (h + 1)

variable {v : V} {k : ℕ}

/-- A node so many hops away is at least at the first level. -/
theorem Hops.le (hv : Hops base arc first v k) : first ≤ k := by
  induction hv with
  | start _ => exact Nat.le_refl _
  | step _ _ _ ih => omega

/-- A vertex with a label to begin with is reached in one way only. -/
theorem Hops.eq_first {j : ℕ} (hv : Hops base arc first v k) (hbase : base v = some j) :
    j = first ∧ k = first := by
  cases hv with
  | start hstart => exact ⟨Option.some.inj (hbase.symm.trans hstart), rfl⟩
  | step _ _ hnone => cases hnone.symm.trans hbase

/-- The labels up to the level are as they should be. -/
structure Labelled (base : V → Option ℕ) (arc : V → V → Prop) (first : ℕ) (label : V → Option ℕ)
    (h : ℕ) : Prop where
  keeps : ∀ v k, base v = some k → label v = some k
  sound : ∀ v k, label v = some k →
    base v = some k ∨ base v = none ∧ Hops base arc first v k ∧ k ≤ h
  complete : ∀ v k, Hops base arc first v k → k ≤ h → ∃ j, label v = some j ∧ j ≤ k

/-- One level. -/
structure Grows (arc : V → V → Prop) (h : ℕ) (label label' : V → Option ℕ) : Prop where
  keeps : ∀ v k, label v = some k → label' v = some k
  new : ∀ v k, label' v = some k →
    label v = some k ∨ label v = none ∧ k = h + 1 ∧ ∃ u, label u = some h ∧ arc u v
  reached : ∀ u v, label u = some h → arc u v → ∃ k, label' v = some k

/-- The nodes of the base are at the first level. -/
theorem labelled_base : Labelled base arc first base first where
  keeps := fun _ _ hv => hv
  sound := fun _ _ hv => .inl hv
  complete := fun v k hv hle => by
    cases hv with
    | start hv => exact ⟨first, hv, Nat.le_refl _⟩
    | step hu _ _ =>
      have := hu.le
      omega

section

variable (hl : Labelled base arc first label h) (hbase : ∀ v k, base v = some k → k ≤ first)
  (hfirst : first ≤ h)

include hl hbase hfirst

/-- **One level** keeps the labels right. -/
theorem Labelled.grow (hg : Grows arc h label label') : Labelled base arc first label' (h + 1) where
  keeps := fun v k hv => hg.keeps v k (hl.keeps v k hv)
  sound := by
    intro v k hv
    obtain hold | ⟨hnone, rfl, u, hu, harc⟩ := hg.new v k hv
    · exact (hl.sound v k hold).imp_right fun ⟨hnone, hhops, hle⟩ => ⟨hnone, hhops, by omega⟩
    · have hbasev : base v = none := by
        cases hv' : base v with
        | none => rfl
        | some j => cases hnone.symm.trans (hl.keeps v j hv')
      have hhops : Hops base arc first u h := by
        obtain hstart | ⟨-, hhops, -⟩ := hl.sound u h hu
        · have heq : first = h := Nat.le_antisymm hfirst (hbase u h hstart)
          subst heq
          exact .start hstart
        · exact hhops
      exact .inr ⟨hbasev, hhops.step harc hbasev, Nat.le_refl _⟩
  complete := by
    intro v k hv hle
    by_cases hlt : k ≤ h
    · obtain ⟨j, hj, hjk⟩ := hl.complete v k hv hlt
      exact ⟨j, hg.keeps v j hj, hjk⟩
    · have hk : k = h + 1 := by omega
      subst hk
      generalize hn : h + 1 = n at hv
      cases hv with
      | start _ => omega
      | @step u _ i hu harc hnone =>
        have hi : i = h := by omega
        subst hi
        obtain ⟨j, hj, hji⟩ := hl.complete u i hu (Nat.le_refl _)
        obtain heq | hlt := Nat.eq_or_lt_of_le hji
        · -- the vertex before has the label of this level
          subst heq
          obtain ⟨k, hk⟩ := hg.reached u v hj harc
          refine ⟨k, hk, ?_⟩
          obtain hold | ⟨-, rfl, -⟩ := hg.new v k hk
          · obtain hbasev | ⟨-, -, hle⟩ := hl.sound v k hold
            · cases hnone.symm.trans hbasev
            · omega
          · exact Nat.le_refl _
        · -- it has a smaller one, so this one has been reached before
          obtain hbaseu | ⟨-, hu', -⟩ := hl.sound u j hj
          · have := hu.eq_first hbaseu
            omega
          · obtain ⟨k, hk, hle⟩ := hl.complete v (j + 1) (hu'.step harc hnone) (by omega)
            exact ⟨k, hg.keeps v k hk, by omega⟩

/-- A labelling whose last level is closed is closed at every later one. -/
theorem Labelled.of_closed (hclosed : ∀ u v, label u = some h → arc u v → ∃ k, label v = some k)
    (n : ℕ) : Labelled base arc first label (h + n) := by
  induction n with
  | zero => exact hl
  | succ n ih =>
    refine ih.grow hbase (by omega) ⟨fun _ _ hv => hv, fun _ _ hv => .inl hv, fun u v hu harc => ?_⟩
    cases n with
    | zero => exact hclosed u v hu harc
    | succ n =>
      obtain hbaseu | ⟨-, -, hle⟩ := hl.sound u _ hu
      · have := hbase u _ hbaseu
        omega
      · omega

/-- **Each label is the least number of hops**, once a level has nothing to add. -/
theorem Labelled.least (hclosed : ∀ u v, label u = some h → arc u v → ∃ k, label v = some k)
    (hv : base v = none) :
    label v = some k ↔ Hops base arc first v k ∧ ∀ j, Hops base arc first v j → k ≤ j := by
  have hall := hl.of_closed hbase hfirst hclosed
  have hle : ∀ i j, label v = some i → Hops base arc first v j → i ≤ j := by
    intro i j hi hj
    obtain ⟨i', hi', hle⟩ := (hall j).complete v j hj (by omega)
    cases hi.symm.trans hi'
    exact hle
  constructor
  · intro hk
    obtain hbasev | ⟨-, hhops, -⟩ := hl.sound v k hk
    · cases hv.symm.trans hbasev
    · exact ⟨hhops, fun j hj => hle k j hk hj⟩
  · rintro ⟨hk, hleast⟩
    obtain ⟨j, hj, hjk⟩ := (hall k).complete v k hk (by omega)
    obtain hbasev | ⟨-, hhops, -⟩ := hl.sound v j hj
    · cases hv.symm.trans hbasev
    · have heq : j = k := Nat.le_antisymm hjk (hleast j hhops)
      exact heq ▸ hj

end

end Levels
