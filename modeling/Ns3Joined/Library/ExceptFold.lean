import Mathlib.Data.List.Forall2

/-!
# Loops that may throw

`List.foldlM` and `List.mapM` in `Except ε`: when they return, and what they then keep.

* `bind_eq_ok_iff` and `foldlM_cons_eq_ok_iff` take a computation that returned apart.
* `foldlM_invariant`, `foldlM_total`: what every step keeps, the fold keeps.
* `mapM_eq_ok_iff`: the results are those of the elements.
-/

namespace ExceptFold

open List

universe u

variable {ε α : Type*} {σ σ' : Type u}

variable {x : Except ε σ} {s s' : σ} {as : List α}

/-- A computation in two parts succeeds if and only if both do. -/
theorem bind_eq_ok_iff {f : σ → Except ε σ'} {b : σ'} :
    (x >>= f) = .ok b ↔ ∃ a, x = .ok a ∧ f a = .ok b := by
  cases x with
  | error e => exact iff_of_false (fun h => by cases h) (fun ⟨_, h, _⟩ => by cases h)
  | ok a =>
    refine ⟨fun h => ⟨a, rfl, h⟩, ?_⟩
    rintro ⟨a', h, hf⟩
    cases h
    exact hf

/-- A mapped result succeeds if and only if the result does. -/
theorem map_eq_ok_iff {f : σ → σ'} {b : σ'} : x.map f = .ok b ↔ ∃ a, x = .ok a ∧ f a = b := by
  cases x with
  | error e => exact ⟨fun h => (by cases h), fun ⟨_, h, _⟩ => (by cases h)⟩
  | ok a => exact ⟨fun h => ⟨a, rfl, Except.ok.inj h⟩,
    fun ⟨_, h, hf⟩ => by cases h; exact congrArg _ hf⟩

theorem ok_bind (a : σ) (f : σ → Except ε σ') : (Except.ok a >>= f) = f a := rfl

variable {f : σ → α → Except ε σ}

/-- A fold succeeds if and only if its first step and the rest do. -/
theorem foldlM_cons_eq_ok_iff {a : α} :
    (a :: as).foldlM f s = .ok s' ↔ ∃ t, f s a = .ok t ∧ as.foldlM f t = .ok s' := by
  rw [foldlM_cons]
  exact bind_eq_ok_iff

/-- Two folds one after the other. -/
theorem foldlM_append_eq_ok {as' : List α} {t : σ} (h : as.foldlM f s = .ok t)
    (h' : as'.foldlM f t = .ok s') : (as ++ as').foldlM f s = .ok s' := by
  rw [foldlM_append]
  exact bind_eq_ok_iff.mpr ⟨t, h, h'⟩

/-- What every step preserves the fold preserves. -/
theorem foldlM_invariant (I : σ → Prop) (hstep : ∀ s a s', I s → f s a = .ok s' → I s') (hs : I s)
    (h : as.foldlM f s = .ok s') : I s' := by
  induction as generalizing s with
  | nil =>
    cases h
    exact hs
  | cons a as ih =>
    obtain ⟨t, ht, h⟩ := foldlM_cons_eq_ok_iff.mp h
    exact ih (hstep s a t hs ht) h

/-- A fold whose steps succeed under an invariant succeeds. -/
theorem foldlM_total (I : σ → Prop) (hstep : ∀ s, ∀ a ∈ as, I s → ∃ s', f s a = .ok s' ∧ I s')
    (hs : I s) : ∃ s', as.foldlM f s = .ok s' ∧ I s' := by
  induction as generalizing s with
  | nil => exact ⟨s, rfl, hs⟩
  | cons a as ih =>
    obtain ⟨hhead, htail⟩ : (∀ s, I s → ∃ s', f s a = .ok s' ∧ I s') ∧
        ∀ s, ∀ a ∈ as, I s → ∃ s', f s a = .ok s' ∧ I s' :=
      ⟨fun s => hstep s a mem_cons_self, fun s a ha => hstep s a (mem_cons_of_mem _ ha)⟩
    obtain ⟨t, ht, hI⟩ := hhead s hs
    obtain ⟨s', hs', hI'⟩ := ih htail hI
    exact ⟨s', foldlM_cons_eq_ok_iff.mpr ⟨t, ht, hs'⟩, hI'⟩

/-- A mapping succeeds if and only if each element's does. -/
theorem mapM_eq_ok_iff {g : α → Except ε σ} {bs : List σ} :
    as.mapM g = .ok bs ↔ List.Forall₂ (fun a b => g a = .ok b) as bs := by
  induction as generalizing bs with
  | nil =>
    rw [mapM_nil, forall₂_nil_left_iff]
    exact ⟨fun h => by cases h; rfl, fun h => by rw [h]; rfl⟩
  | cons a as ih =>
    rw [mapM_cons, forall₂_cons_left_iff, bind_eq_ok_iff]
    constructor
    · rintro ⟨b, hb, h⟩
      obtain ⟨bs', hbs', h⟩ := bind_eq_ok_iff.mp h
      cases h
      exact ⟨b, bs', hb, ih.mp hbs', rfl⟩
    · rintro ⟨b, bs', hb, hbs', rfl⟩
      exact ⟨b, hb, bind_eq_ok_iff.mpr ⟨bs', ih.mpr hbs', rfl⟩⟩

end ExceptFold
