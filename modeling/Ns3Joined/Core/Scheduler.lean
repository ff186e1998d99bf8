import Mathlib.Data.List.Sort
import Mathlib.Data.Prod.Lex
import Ns3Joined.Fault
import Ns3Joined.Library.Refinement

/-!
# Schedulers

The events of `core/model/scheduler.h` and what a scheduler is to do with them. Events are
ordered by time stamp and then by uid, their `rank`; an `EventImpl` is known by its address.

What a scheduler is for is a list of events in increasing rank (`sortedList`): an insertion
puts an event where its rank belongs, and the next event is the first one. A caller may
insert an event of a rank that is not held, ask for the next event when there is one, and
remove an event that is held.
-/

namespace Ns3Joined.Core

open List

structure EventKey where
  ts : UInt64
  uid : UInt32
  context : UInt32
deriving DecidableEq, Repr, Inhabited

structure Event where
  impl : ℕ
  key : EventKey
deriving DecidableEq, Repr, Inhabited

/-- What `operator <` compares: the time stamp, then the uid. -/
def EventKey.rank (key : EventKey) : ℕ ×ₗ ℕ := toLex (key.ts.toNat, key.uid.toNat)

def Event.rank (ev : Event) : ℕ ×ₗ ℕ := ev.key.rank

variable {a b : EventKey} {ev : Event} {held : List Event}

/-- Keys are compared by time stamp and then by number. -/
theorem EventKey.rank_lt_iff : a.rank < b.rank ↔ a.ts < b.ts ∨ a.ts = b.ts ∧ a.uid < b.uid := by
  rw [EventKey.rank, EventKey.rank, Prod.Lex.toLex_lt_toLex]
  simp only [UInt64.lt_iff_toNat_lt, UInt32.lt_iff_toNat_lt, ← UInt64.toNat_inj]

theorem EventKey.ts_le_of_rank_le (h : a.rank ≤ b.rank) : a.ts.toNat ≤ b.ts.toNat := by
  rcases (Prod.Lex.toLex_le_toLex).mp h with hlt | ⟨heq, -⟩
  · exact Nat.le_of_lt hlt
  · exact Nat.le_of_eq heq

/-! ### Lists in increasing rank -/

/-- A call of a scheduler. -/
inductive SchedulerCall
  | insert (ev : Event)
  | peekNext
  | removeNext
  | remove (ev : Event)
deriving DecidableEq, Repr

/-- Strictly increasing ranks. -/
def Increasing (held : List Event) : Prop := held.Pairwise fun a b => a.rank < b.rank

/-- The events with one more, where its rank belongs. -/
def insertEvent (ev : Event) (held : List Event) : List Event :=
  held.orderedInsert (fun a b => a.rank ≤ b.rank) ev

/-- What a scheduler is to do. -/
def sortedList : Refinement.Spec (List Event) SchedulerCall (Option Event) where
  Allowed held call :=
    match call with
    | .insert ev => ∀ ev' ∈ held, ev'.rank ≠ ev.rank
    | .peekNext | .removeNext => held ≠ []
    | .remove ev => ev ∈ held
  next held call :=
    match call with
    | .insert ev => insertEvent ev held
    | .peekNext => held
    | .removeNext => held.tail
    | .remove ev => held.erase ev
  answer held call :=
    match call with
    | .peekNext | .removeNext => held.head?
    | .insert _ | .remove _ => none

instance (held : List Event) (call : SchedulerCall) : Decidable (sortedList.Allowed held call) :=
  match call with
  | .insert _ => inferInstanceAs (Decidable (∀ _ ∈ held, _))
  | .peekNext | .removeNext => inferInstanceAs (Decidable (held ≠ []))
  | .remove ev => inferInstanceAs (Decidable (ev ∈ held))

/-- A class of schedulers that work as a sorted list. -/
structure SchedulerClass where
  State : Type
  create : State
  IsEmpty : State → Bool
  step : State → SchedulerCall → Except Fault (State × Option Event)
  Holds : State → List Event → Prop
  holds_create : Holds create []
  isEmpty_iff : ∀ {s held}, Holds s held → (IsEmpty s = true ↔ held = [])
  refines : ∀ {s held call}, Holds s held → sortedList.Allowed held call →
    Refinement.StepRefines step sortedList Holds s held call

theorem insertEvent_perm (ev : Event) (held : List Event) :
    (insertEvent ev held).Perm (ev :: held) := perm_orderedInsert _ ev held

/-- An event with a new key is put in its place. -/
theorem Increasing.insertEvent (h : Increasing held) (hnew : ∀ ev' ∈ held, ev'.rank ≠ ev.rank) :
    Increasing (insertEvent ev held) := by
  induction held with
  | nil => exact pairwise_singleton _ _
  | cons first held ih =>
    obtain ⟨hfirst, hheld⟩ := pairwise_cons.mp h
    obtain ⟨hne, hnew⟩ := forall_mem_cons.mp hnew
    show Increasing (if ev.rank ≤ first.rank then _ else _)
    split_ifs with hle
    · -- the new event comes first
      have hlt : ev.rank < first.rank := lt_of_le_of_ne hle (Ne.symm hne)
      apply pairwise_cons.mpr
      refine ⟨?_, h⟩
      intro ev' hev'
      rcases mem_cons.mp hev' with rfl | hev'
      · exact hlt
      · exact lt_trans hlt (hfirst ev' hev')
    · apply pairwise_cons.mpr
      refine ⟨?_, ih hheld hnew⟩
      intro ev' hev'
      rcases mem_cons.mp ((insertEvent_perm ev held).mem_iff.mp hev') with rfl | hev'
      · exact lt_of_not_ge hle
      · exact hfirst ev' hev'

theorem Increasing.nodup (h : Increasing held) : held.Nodup :=
  List.Pairwise.imp (fun hlt heq => absurd (heq ▸ hlt) (lt_irrefl _)) h

/-- Events in order are known by which they are. -/
theorem Increasing.eq_of_mem_iff {l l' : List Event} (h : Increasing l) (h' : Increasing l')
    (hmem : ∀ ev, ev ∈ l ↔ ev ∈ l') : l = l' := by
  have : Std.Irrefl fun a b : Event => a.rank < b.rank := ⟨fun _ => lt_irrefl _⟩
  have : Std.Antisymm fun a b : Event => a.rank < b.rank :=
    ⟨fun _ _ hab hba => absurd hab (lt_asymm hba)⟩
  exact List.Pairwise.eq_of_mem_iff h h' hmem

theorem Increasing.filter (h : Increasing held) (p : Event → Bool) :
    Increasing (held.filter p) := List.Pairwise.filter p h

/-- A call that is allowed leaves the events in order. -/
theorem Increasing.next (h : Increasing held) {call : SchedulerCall}
    (hallowed : sortedList.Allowed held call) : Increasing (sortedList.next held call) := by
  cases call with
  | insert ev => exact h.insertEvent hallowed
  | peekNext => exact h
  | removeNext => exact List.Pairwise.sublist (tail_sublist held) h
  | remove ev => exact List.Pairwise.sublist (erase_sublist) h

/-- The first event is not later than any other. -/
theorem Increasing.rank_le (h : Increasing held) {first : Event} (hfirst : held.head? = some first)
    (hev : ev ∈ held) : first.rank ≤ ev.rank := by
  match held with
  | [] => cases hev
  | _ :: held =>
    cases hfirst
    rcases mem_cons.mp hev with rfl | hev
    · exact le_refl _
    · exact le_of_lt ((pairwise_cons.mp h).1 ev hev)

/-- Whatever has no larger rank than all events held, and is held, is the next event. -/
theorem Increasing.head?_eq (h : Increasing held) (hmem : ev ∈ held)
    (hmin : ∀ ev' ∈ held, ev.rank ≤ ev'.rank) : held.head? = some ev := by
  match held with
  | [] => cases hmem
  | first :: held =>
    rcases mem_cons.mp hmem with rfl | hmem
    · rfl
    · have hlt : first.rank < ev.rank := (pairwise_cons.mp h).1 ev hmem
      exact absurd (hmin first mem_cons_self) (not_le_of_gt hlt)

end Ns3Joined.Core
