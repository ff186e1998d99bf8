import Mathlib.Tactic.Common

/-!
# Runs and what happened in them

A system that takes calls and says with each what happened. A run puts this together to a
history, and safety is a property of histories.

* `Precedes h a b`: in the history, `a` happened before `b`.
* `Meets P`: every call of a run is made with `P`, which may look at the history so far.
* `Throughout I`: every call of a run returns, and `I` holds after each.
* `run_invariant`: what holds at first and is kept by every such call holds after the run, and
  the run does not fail.
* `Always I`: `I` holds after every call of a run that returns.
* `throughout_of_meets`, `always_of_meets`: by an invariant that calls made with `P` keep.
* `throughout_iff_meets`: when it holds throughout exactly the runs whose calls are so made.
-/

namespace TracedRun

open List

variable {σ ι α ε : Type*}

/-- All calls, one after the other. -/
def run (step : σ → ι → Except ε (σ × List α)) : σ → List ι → Except ε (σ × List α)
  | s, [] => .ok (s, [])
  | s, call :: calls =>
    match step s call with
    | .error e => .error e
    | .ok (s', actions) => (run step s' calls).map fun r => (r.1, actions ++ r.2)

variable {step : σ → ι → Except ε (σ × List α)}

/-- All calls of a run are made with `P`. -/
def Meets (step : σ → ι → Except ε (σ × List α)) (P : σ → List α → ι → Prop) :
    σ → List α → List ι → Prop
  | _, _, [] => True
  | s, h, call :: calls =>
    P s h call ∧ ∀ s' actions, step s call = .ok (s', actions) →
      Meets step P s' (h ++ actions) calls

instance decidableMeets (P : σ → List α → ι → Prop) [∀ s h call, Decidable (P s h call)]
    (s : σ) (h : List α) (calls : List ι) : Decidable (Meets step P s h calls) :=
  match calls with
  | [] => .isTrue trivial
  | call :: calls =>
    have : Decidable (∀ s' actions, step s call = .ok (s', actions) →
        Meets step P s' (h ++ actions) calls) :=
      match hstep : step s call with
      | .error _ => .isTrue fun _ _ hok => nomatch hok
      | .ok (s', actions) =>
        have := decidableMeets P s' (h ++ actions) calls
        decidable_of_iff (Meets step P s' (h ++ actions) calls)
          ⟨fun hmeets _ _ hok => by cases hok; exact hmeets, fun hmeets => hmeets _ _ rfl⟩
    inferInstanceAs (Decidable (_ ∧ _))

variable {h actions : List α} {s s' : σ} {calls : List ι} {P : σ → List α → ι → Prop}
  {I J : σ → List α → Prop}

/-- The condition that asks for nothing is met. -/
theorem meets_true (calls : List ι) : Meets step (fun _ _ _ => True) s h calls := by
  induction calls generalizing s h with
  | nil => trivial
  | cons call calls ih => exact ⟨trivial, fun _ _ _ => ih⟩

/-- One call of a run whose calls are so made. -/
theorem meets_cons {call : ι} (hP : P s h call) (hok : step s call = .ok (s', actions))
    (hrest : Meets step P s' (h ++ actions) calls) : Meets step P s h (call :: calls) := by
  refine ⟨hP, fun s'' actions' hok' => ?_⟩
  rw [hok] at hok'
  cases hok'
  exact hrest

/-- A condition on calls that says less. -/
theorem Meets.mono {Q : σ → List α → ι → Prop} (hmeets : Meets step P s h calls)
    (himp : ∀ s h call, P s h call → Q s h call) : Meets step Q s h calls := by
  induction calls generalizing s h with
  | nil => trivial
  | cons call calls ih =>
    exact ⟨himp _ _ _ hmeets.1, fun s' actions hok => ih (hmeets.2 s' actions hok)⟩

/-- What holds at first and is kept by every call that is so made. -/
theorem run_invariant
    (hstep : ∀ s h call, I s h → P s h call →
      ∃ s' actions, step s call = .ok (s', actions) ∧ I s' (h ++ actions))
    (hI : I s h) (hmeets : Meets step P s h calls) :
    ∃ s' actions, run step s calls = .ok (s', actions) ∧ I s' (h ++ actions) := by
  induction calls generalizing s h with
  | nil =>
    refine ⟨s, [], rfl, ?_⟩
    rw [append_nil]
    exact hI
  | cons call calls ih =>
    obtain ⟨hP, hrest⟩ := hmeets
    obtain ⟨s₁, actions₁, hok, hI₁⟩ := hstep s h call hI hP
    obtain ⟨s₂, actions₂, hrun, hI₂⟩ := ih hI₁ (hrest s₁ actions₁ hok)
    refine ⟨s₂, actions₁ ++ actions₂, ?_, ?_⟩
    · rw [run, hok]
      dsimp only
      rw [hrun]
      rfl
    · rw [← append_assoc]
      exact hI₂

/-- Every call of a run returns, and `I` holds after each. -/
def Throughout (step : σ → ι → Except ε (σ × List α)) (I : σ → List α → Prop) :
    σ → List α → List ι → Prop
  | _, _, [] => True
  | s, h, call :: calls =>
    ∃ s' actions, step s call = .ok (s', actions) ∧ I s' (h ++ actions) ∧
      Throughout step I s' (h ++ actions) calls

section

variable
    (hkeep : ∀ s h call, J s h → P s h call →
      ∃ s' actions, step s call = .ok (s', actions) ∧ J s' (h ++ actions))

include hkeep

/-- `J` is the invariant by which `I` is kept, and a call that is made without `P` either fails
or loses `I`. -/
theorem throughout_iff_meets
    (hneed : ∀ s h call s' actions, J s h → step s call = .ok (s', actions) →
      I s' (h ++ actions) → P s h call)
    (hJ : ∀ s h, J s h → I s h) (hs : J s h) (calls : List ι) :
    Throughout step I s h calls ↔ Meets step P s h calls := by
  induction calls generalizing s h with
  | nil => exact Iff.rfl
  | cons call calls ih =>
    constructor
    · rintro ⟨s', actions, hok, hI, hrest⟩
      have hP := hneed s h call s' actions hs hok hI
      refine ⟨hP, fun s'' actions' hok' => ?_⟩
      obtain ⟨s₁, actions₁, hok₁, hJ₁⟩ := hkeep s h call hs hP
      rw [hok] at hok' hok₁
      cases hok'
      cases hok₁
      exact (ih hJ₁).mp hrest
    · rintro ⟨hP, hrest⟩
      obtain ⟨s', actions, hok, hs'⟩ := hkeep s h call hs hP
      exact ⟨s', actions, hok, hJ _ _ hs', (ih hs').mpr (hrest s' actions hok)⟩

/-- Every call of a run returns, and `I` holds after each, if every call is made with `P`. -/
theorem throughout_of_meets (hJ : ∀ s h, J s h → I s h) (hs : J s h)
    (hmeets : Meets step P s h calls) : Throughout step I s h calls := by
  induction calls generalizing s h with
  | nil => trivial
  | cons call calls ih =>
    obtain ⟨hP, hrest⟩ := hmeets
    obtain ⟨s', actions, hok, hs'⟩ := hkeep s h call hs hP
    exact ⟨s', actions, hok, hJ _ _ hs', ih hs' (hrest s' actions hok)⟩

end

/-- A weaker invariant holds throughout as well. -/
theorem Throughout.mono (hthroughout : Throughout step I s h calls) (himp : ∀ s h, I s h → J s h) :
    Throughout step J s h calls := by
  induction calls generalizing s h with
  | nil => trivial
  | cons call calls ih =>
    obtain ⟨s', actions, hok, hI, hrest⟩ := hthroughout
    exact ⟨s', actions, hok, himp _ _ hI, ih hrest⟩

/-- What holds throughout does so at the end of a run. -/
theorem Throughout.exists_run (hthroughout : Throughout step I s h calls) (hne : calls ≠ []) :
    ∃ s' actions, run step s calls = .ok (s', actions) ∧ I s' (h ++ actions) := by
  induction calls generalizing s h with
  | nil => exact absurd rfl hne
  | cons call calls ih =>
    obtain ⟨s₁, actions₁, hok, hI, hrest⟩ := hthroughout
    cases calls with
    | nil =>
      refine ⟨s₁, actions₁, ?_, hI⟩
      rw [run, hok]
      dsimp only
      rw [run]
      show Except.ok (s₁, actions₁ ++ []) = Except.ok (s₁, actions₁)
      rw [append_nil]
    | cons call' calls =>
      obtain ⟨s₂, actions₂, hrun, hI₂⟩ := ih hrest nofun
      refine ⟨s₂, actions₁ ++ actions₂, ?_, ?_⟩
      · rw [run, hok]
        dsimp only
        rw [hrun]
        rfl
      · rw [← append_assoc]
        exact hI₂

/-- After every call of a run that returns, `I` holds. -/
def Always (step : σ → ι → Except ε (σ × List α)) (I : σ → List α → Prop) :
    σ → List α → List ι → Prop
  | _, _, [] => True
  | s, h, call :: calls =>
    ∀ s' actions, step s call = .ok (s', actions) →
      I s' (h ++ actions) ∧ Always step I s' (h ++ actions) calls

/-- An invariant that every allowed step keeps holds always, and so does what follows from it. -/
theorem always_of_meets
    (hkeep : ∀ s h call s' actions, J s h → P s h call → step s call = .ok (s', actions) →
      J s' (h ++ actions))
    (hJ : ∀ s h, J s h → I s h) (hs : J s h) (hmeets : Meets step P s h calls) :
    Always step I s h calls := by
  induction calls generalizing s h with
  | nil => trivial
  | cons call calls ih =>
    obtain ⟨hP, hrest⟩ := hmeets
    intro s' actions hok
    have hs' := hkeep s h call s' actions hs hP hok
    exact ⟨hJ _ _ hs', ih hs' (hrest s' actions hok)⟩

/-- What always holds does so at the end of a run. -/
theorem Always.of_run (halways : Always step I s h calls) (hne : calls ≠ [])
    (hrun : run step s calls = .ok (s', actions)) : I s' (h ++ actions) := by
  induction calls generalizing s h actions with
  | nil => exact absurd rfl hne
  | cons call calls ih =>
    cases hstep : step s call with
    | error e =>
      rw [run, hstep] at hrun
      cases hrun
    | ok r =>
      obtain ⟨s₁, actions₁⟩ := r
      obtain ⟨hI, hrest⟩ := halways s₁ actions₁ hstep
      rw [run, hstep] at hrun
      dsimp only at hrun
      cases hrest' : run step s₁ calls with
      | error e =>
        rw [hrest'] at hrun
        cases hrun
      | ok r =>
        rw [hrest'] at hrun
        cases hrun
        rw [← append_assoc]
        by_cases hempty : calls = []
        · subst hempty
          cases hrest'
          rw [append_nil]
          exact hI
        · exact ih hrest hempty hrest'

/-- A run of two lists of calls. -/
theorem run_append {calls' : List ι} (h : run step s calls = .ok (s', actions)) :
    run step s (calls ++ calls') = (run step s' calls').map fun r => (r.1, actions ++ r.2) := by
  induction calls generalizing s actions with
  | nil =>
    cases h
    show run step _ calls' = _
    cases run step _ calls' <;> rfl
  | cons call calls ih =>
    rw [run] at h
    rw [cons_append, run]
    match hstep : step s call with
    | .error e =>
      rw [hstep] at h
      cases h
    | .ok (s₁, actions₁) =>
      rw [hstep] at h
      dsimp only at h ⊢
      match hrun : run step s₁ calls with
      | .error e =>
        rw [hrun] at h
        cases h
      | .ok (s₂, actions₂) =>
        rw [hrun] at h
        cases h
        rw [ih hrun]
        dsimp only
        match run step s₂ calls' with
        | .error e => rfl
        | .ok (s₃, actions₃) =>
          show Except.ok (s₃, actions₁ ++ (actions₂ ++ actions₃)) =
            Except.ok (s₃, actions₁ ++ actions₂ ++ actions₃)
          rw [append_assoc]

/-! ### Histories -/

/-- In the history, `a` happened before `b`. -/
def Precedes (h : List α) (a b : α) : Prop := [a, b].Sublist h

/-- Of two different actions of a history one precedes the other. -/
theorem precedes_or {a b : α} (ha : a ∈ h) (hb : b ∈ h) (hne : a ≠ b) :
    Precedes h a b ∨ Precedes h b a := by
  induction h with
  | nil => cases ha
  | cons c h ih =>
    rcases mem_cons.mp ha with rfl | ha'
    · have hb' := (mem_cons.mp hb).resolve_left (Ne.symm hne)
      exact .inl (List.Sublist.cons_cons a (singleton_sublist.mpr hb'))
    · rcases mem_cons.mp hb with rfl | hb'
      · exact .inr (List.Sublist.cons_cons b (singleton_sublist.mpr ha'))
      · rcases ih ha' hb' with h | h
        · exact .inl (h.cons c)
        · exact .inr (h.cons c)

/-- Where every pair in order is related, what precedes is. -/
theorem Precedes.of_pairwise {R : α → α → Prop} (hR : h.Pairwise R) {a b : α}
    (hab : Precedes h a b) :
    R a b := pairwise_iff_forall_sublist.mp hR hab

end TracedRun
