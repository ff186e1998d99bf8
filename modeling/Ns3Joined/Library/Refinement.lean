import Mathlib.Tactic.Common

/-!
# Refinement over runs

An implementation that answers calls, or fails, beside a specification of what it is to
answer. The specification also says which calls a caller may make (`Allowed`); the others
end the run with nothing more to show.

* `Refines`: every call of a run returns, answers as the specification does, and ends in
  states that are related again.
* `Before P`: every call of a run is made in states with `P`.
* `refines_iff_before`: if a single call keeps to the specification exactly when `P` holds
  before it, a run does exactly when `P` holds before each of its calls.
* `refines_of_before`: the half of this for a `P` that is enough.
* `refines_of_step`: if every call does, every run does.
* `Refines.answers`: a run that keeps to the specification answers as it does.
-/

namespace Refinement

variable {σ τ ι ω ε : Type*}

/-- What a caller may ask for, and what is then to happen. -/
structure Spec (τ ι ω : Type*) where
  Allowed : τ → ι → Prop
  next : τ → ι → τ
  answer : τ → ι → ω

variable (step : σ → ι → Except ε (σ × ω)) (spec : Spec τ ι ω) (R : σ → τ → Prop)

/-- One call keeps to the specification. -/
def StepRefines (s : σ) (t : τ) (call : ι) : Prop :=
  ∃ s', step s call = .ok (s', spec.answer t call) ∧ R s' (spec.next t call)

/-- All calls of a run keep to the specification. -/
def Refines : σ → τ → List ι → Prop
  | _, _, [] => True
  | s, t, call :: calls =>
    spec.Allowed t call → ∃ s', step s call = .ok (s', spec.answer t call) ∧
      R s' (spec.next t call) ∧ Refines s' (spec.next t call) calls

/-- All calls of a run are made in states with `P`. -/
def Before (P : σ → τ → ι → Prop) : σ → τ → List ι → Prop
  | _, _, [] => True
  | s, t, call :: calls =>
    spec.Allowed t call → P s t call ∧
      ∀ s' answer, step s call = .ok (s', answer) → Before P s' (spec.next t call) calls

variable {step spec R}

instance decidableBefore (P : σ → τ → ι → Prop) [∀ t call, Decidable (spec.Allowed t call)]
    [∀ s t call, Decidable (P s t call)] (s : σ) (t : τ) (calls : List ι) :
    Decidable (Before step spec P s t calls) :=
  match calls with
  | [] => .isTrue trivial
  | call :: calls =>
    have : Decidable (∀ s' answer, step s call = .ok (s', answer) →
        Before step spec P s' (spec.next t call) calls) :=
      match hstep : step s call with
      | .error _ => .isTrue fun _ _ hok => nomatch hok
      | .ok (s', _) =>
        have := decidableBefore P s' (spec.next t call) calls
        decidable_of_iff (Before step spec P s' (spec.next t call) calls)
          ⟨fun h _ _ hok => by cases hok; exact h, fun h => h _ _ rfl⟩
    inferInstanceAs (Decidable (_ → _ ∧ _))

variable {P : σ → τ → ι → Prop} {t : τ} {s : σ} {calls : List ι}

/-- Where a step refines exactly under a condition, a run does if and only if its steps meet it. -/
theorem refines_iff_before
    (hstep : ∀ s t call, R s t → spec.Allowed t call →
      (StepRefines step spec R s t call ↔ P s t call))
    (h : R s t) (calls : List ι) :
    Refines step spec R s t calls ↔ Before step spec P s t calls := by
  induction calls generalizing s t with
  | nil => exact Iff.rfl
  | cons call calls ih =>
    constructor
    · intro hrefines hallowed
      obtain ⟨s', hok, hR, hrest⟩ := hrefines hallowed
      refine ⟨(hstep s t call h hallowed).mp ⟨s', hok, hR⟩, ?_⟩
      intro s'' answer hok'
      rw [hok] at hok'
      cases hok'
      exact (ih hR).mp hrest
    · intro hbefore hallowed
      obtain ⟨hP, hrest⟩ := hbefore hallowed
      obtain ⟨s', hok, hR⟩ := (hstep s t call h hallowed).mpr hP
      exact ⟨s', hok, hR, (ih hR).mpr (hrest s' _ hok)⟩

/-- A condition that is enough for a single call is enough before each call of a run. -/
theorem refines_of_before
    (hstep : ∀ s t call, R s t → spec.Allowed t call → P s t call →
      StepRefines step spec R s t call)
    (h : R s t) (hbefore : Before step spec P s t calls) : Refines step spec R s t calls := by
  induction calls generalizing s t with
  | nil => trivial
  | cons call calls ih =>
    intro hallowed
    obtain ⟨hP, hrest⟩ := hbefore hallowed
    obtain ⟨s', hok, hR⟩ := hstep s t call h hallowed hP
    exact ⟨s', hok, hR, ih hR (hrest s' _ hok)⟩

/-- Where every step refines, every run does. -/
theorem refines_of_step
    (hstep : ∀ s t call, R s t → spec.Allowed t call → StepRefines step spec R s t call) (h : R s t)
    (calls : List ι) : Refines step spec R s t calls := by
  induction calls generalizing s t with
  | nil => trivial
  | cons call calls ih =>
    intro hallowed
    obtain ⟨s', hok, hR⟩ := hstep s t call h hallowed
    exact ⟨s', hok, hR, ih hR⟩

/-! ### Answers -/

/-- The answers to the calls of a run, one after the other. -/
def answers (step : σ → ι → Except ε (σ × ω)) : σ → List ι → Except ε (List ω)
  | _, [] => .ok []
  | s, call :: calls =>
    match step s call with
    | .error e => .error e
    | .ok (s', answer) => (answers step s' calls).map (answer :: ·)

/-- The answers that the specification gives. -/
def Spec.answers (spec : Spec τ ι ω) : τ → List ι → List ω
  | _, [] => []
  | t, call :: calls => spec.answer t call :: spec.answers (spec.next t call) calls

/-- A caller may make all calls of the run. -/
def Spec.AllAllowed (spec : Spec τ ι ω) : τ → List ι → Prop
  | _, [] => True
  | t, call :: calls => spec.Allowed t call ∧ spec.AllAllowed (spec.next t call) calls

instance Spec.decidableAllAllowed (spec : Spec τ ι ω)
    [∀ t call, Decidable (spec.Allowed t call)] (t : τ) (calls : List ι) :
    Decidable (spec.AllAllowed t calls) :=
  match calls with
  | [] => .isTrue trivial
  | call :: calls =>
    have := spec.decidableAllAllowed (spec.next t call) calls
    inferInstanceAs (Decidable (_ ∧ _))

/-- A run that refines gives the answers of the specification. -/
theorem Refines.answers (h : Refines step spec R s t calls) (hall : spec.AllAllowed t calls) :
    Refinement.answers step s calls = .ok (spec.answers t calls) := by
  induction calls generalizing s t with
  | nil => rfl
  | cons call calls ih =>
    obtain ⟨s', hok, -, hrest⟩ := h hall.1
    rw [Refinement.answers, hok]
    dsimp only
    rw [ih hrest hall.2]
    rfl

end Refinement
