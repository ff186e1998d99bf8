import Ns3Joined.Core.CalendarSchedulerCorrect
import Ns3Joined.Core.HeapScheduler
import Ns3Joined.Core.MapScheduler

/-!
# The list scheduler, and what the schedulers have in common

`ListScheduler` (`core/model/list-scheduler.cc`) keeps its events in a list in increasing
rank. `Remove` takes the first event with the uid, whatever its time stamp: the list works as
a sorted list exactly in the runs whose removals find their event (`listScheduler_refines_iff`).

A simulation may be run with any of the schedulers. `schedulers_agree`: in a run that keeps to
what each of them asks for, all four give the same answers.
-/

namespace Ns3Joined.Core

open CalendarScheduler

namespace ListScheduler

/-- The loop of `Insert`: in front of the first event that comes later. -/
def Insert (ev : Event) : List Event → List Event
  | [] => [ev]
  | i :: m_events => if ev.rank < i.rank then ev :: i :: m_events else i :: Insert ev m_events

/-- `front` of an empty list is undefined. -/
def PeekNext (m_events : List Event) : Except Fault Event :=
  match m_events with
  | [] => .error .undefined
  | next :: _ => .ok next

def RemoveNext (m_events : List Event) : Except Fault (List Event × Event) :=
  match m_events with
  | [] => .error .undefined
  | next :: m_events => .ok (m_events, next)

/-- Where the loop of `Remove` stops: the first event with the uid. -/
def findUid (m_events : List Event) (uid : UInt32) : Option Event :=
  m_events.find? fun i => i.key.uid == uid

def Remove (m_events : List Event) (ev : Event) : Except Fault (List Event) :=
  match findUid m_events ev.key.uid with
  | none => .error .abort
  | some i => if ev.impl = i.impl then .ok (m_events.erase i) else .error .abort

def step (m_events : List Event) : SchedulerCall → Except Fault (List Event × Option Event)
  | .insert ev => .ok (Insert ev m_events, none)
  | .peekNext => (PeekNext m_events).map fun ev => (m_events, some ev)
  | .removeNext => (RemoveNext m_events).map fun r => (r.1, some r.2)
  | .remove ev => (Remove m_events ev).map (·, none)

/-! ### One call -/

def Holds (m_events held : List Event) : Prop := m_events = held ∧ Increasing held

/-- `Remove` finds the event it is given. -/
def Finds (m_events _held : List Event) : SchedulerCall → Prop
  | .remove ev => findUid m_events ev.key.uid = some ev
  | _ => True

variable {held : List Event} {ev : Event}

/-- An event is put behind those that are not later. -/
theorem insert_eq (hnew : ∀ ev' ∈ held, ev'.rank ≠ ev.rank) :
    Insert ev held = insertEvent ev held := by
  induction held with
  | nil => rfl
  | cons i held ih =>
    obtain ⟨hne, hnew⟩ := List.forall_mem_cons.mp hnew
    have hiff : ev.rank < i.rank ↔ ev.rank ≤ i.rank :=
      ⟨le_of_lt, fun hle => lt_of_le_of_ne hle (Ne.symm hne)⟩
    show (if _ then _ else _) = (if _ then _ else _)
    rw [if_congr hiff rfl (congrArg (i :: ·) (ih hnew))]
    rfl

/-- Another event with the uid is not the one to take out, whether or not the assertion
holds. -/
theorem step_remove_iff (h : Increasing held) (hev : ev ∈ held) :
    Refinement.StepRefines step sortedList Holds held held (.remove ev) ↔
      findUid held ev.key.uid = some ev := by
  constructor
  · rintro ⟨m_events, hok, rfl, -⟩
    have hmap : (Remove held ev).map (·, (none : Option Event)) = .ok (held.erase ev, none) := hok
    unfold Remove at hmap
    cases hfind : findUid held ev.key.uid with
    | none =>
      rw [hfind] at hmap
      cases hmap
    | some i =>
      have hi : i ∈ held := List.mem_of_find?_eq_some hfind
      rw [hfind] at hmap
      dsimp only at hmap
      split_ifs at hmap
      · have herase : held.erase i = held.erase ev :=
          congrArg Prod.fst (Except.ok.inj hmap)
        -- the event is gone only if it is the one that was found
        by_contra hne
        have hmem : ev ∈ held.erase i :=
          (List.mem_erase_of_ne fun heq => hne (congrArg some heq.symm)).mpr hev
        rw [herase] at hmem
        exact h.nodup.not_mem_erase hmem
      · cases hmap
  · intro hfind
    refine ⟨held.erase ev, ?_, rfl, h.next hev⟩
    show (Remove held ev).map _ = _
    rw [Remove, hfind]
    dsimp only
    rw [if_pos rfl]
    rfl

/-- **One call** is right exactly when it finds its event. -/
theorem step_refines_iff {m_events : List Event} (h : Holds m_events held) {call : SchedulerCall}
    (hallowed : sortedList.Allowed held call) :
    Refinement.StepRefines step sortedList Holds m_events held call ↔
      Finds m_events held call := by
  obtain ⟨rfl, hincreasing⟩ := h
  have hnext := hincreasing.next hallowed
  cases call with
  | insert ev =>
    refine iff_of_true ⟨Insert ev m_events, rfl, ?_, hnext⟩ trivial
    exact insert_eq hallowed
  | peekNext =>
    cases m_events with
    | nil => exact absurd rfl hallowed
    | cons next rest => exact iff_of_true ⟨next :: rest, rfl, rfl, hnext⟩ trivial
  | removeNext =>
    cases m_events with
    | nil => exact absurd rfl hallowed
    | cons next rest => exact iff_of_true ⟨rest, rfl, rfl, hnext⟩ trivial
  | remove ev => exact step_remove_iff hincreasing hallowed

/-- **The list works as a sorted list** exactly in the runs whose removals find their event. -/
theorem listScheduler_refines_iff (calls : List SchedulerCall) :
    Refinement.Refines step sortedList Holds [] [] calls ↔
      Refinement.Before step sortedList Finds [] [] calls :=
  Refinement.refines_iff_before (fun _ _ _ h hallowed => step_refines_iff h hallowed)
    ⟨rfl, List.Pairwise.nil⟩ calls

end ListScheduler

/-! ### All schedulers -/

section Agree

variable {t : CalendarScheduler.Calendar} {calls : List SchedulerCall}

/-- What the calendar is to do is what a sorted list does. -/
theorem answers_calendar (t : CalendarScheduler.Calendar) (calls : List SchedulerCall) :
    calendar.answers t calls = sortedList.answers t.held calls := by
  induction calls generalizing t with
  | nil => rfl
  | cons call calls ih => exact congrArg (_ :: ·) (ih _)

/-- What a calendar allows, a list allows. -/
theorem allAllowed_of_calendar (h : calendar.AllAllowed t calls) :
    sortedList.AllAllowed t.held calls := by
  induction calls generalizing t with
  | nil => trivial
  | cons call calls ih => exact ⟨h.1.1, ih h.2⟩

/-- **The schedulers agree**: a run that never inserts before the last event removed gets one
list of answers, where `Remove` finds its event in the list and in the heap, the heap puts a
last event where it may stand, and the calendar keeps from the end of its range. -/
theorem schedulers_agree (hall : calendar.AllAllowed ⟨[], 0⟩ calls)
    (hlist : Refinement.Before ListScheduler.step sortedList ListScheduler.Finds [] [] calls)
    (hheap : Refinement.Before HeapScheduler.step sortedList HeapScheduler.InPlace
      HeapScheduler.create [] calls)
    (hcalendar : Refinement.Before step calendar
      CalendarScheduler.InReach create ⟨[], 0⟩ calls) :
    ∃ answers, Refinement.answers MapScheduler.step [] calls = .ok answers ∧
      Refinement.answers ListScheduler.step [] calls = .ok answers ∧
      Refinement.answers HeapScheduler.step HeapScheduler.create calls = .ok answers ∧
      Refinement.answers step create calls = .ok answers := by
  have hsorted : sortedList.AllAllowed [] calls := allAllowed_of_calendar hall
  have hmaps : Refinement.Refines MapScheduler.step sortedList MapScheduler.Holds [] [] calls :=
    Refinement.refines_of_step (fun _ _ _ h hallowed => MapScheduler.step_refines h hallowed)
      ⟨rfl, List.Pairwise.nil⟩ calls
  have hlists := (Refinement.refines_iff_before (fun _ _ _ h hallowed =>
    ListScheduler.step_refines_iff h hallowed) ⟨rfl, List.Pairwise.nil⟩ calls).mpr hlist
  have hheaps := (Refinement.refines_iff_before (fun _ _ _ h hallowed =>
    HeapScheduler.step_refines_iff h hallowed) HeapScheduler.holds_create calls).mpr hheap
  have hcalendars := Refinement.refines_of_before (fun _ _ _ h hallowed hreach =>
    CalendarScheduler.Holds.step h hallowed hreach) holds_create hcalendar
  refine ⟨sortedList.answers [] calls, hmaps.answers hsorted, hlists.answers hsorted,
    hheaps.answers hsorted, ?_⟩
  rw [hcalendars.answers hall, answers_calendar]

/-- An event that is removed again, and two at one time. -/
def exampleCalls : List SchedulerCall :=
  let ev := exampleEvent
  [.insert (ev 70 4), .remove (ev 70 4), .insert (ev 30 6), .insert (ev 30 5), .removeNext,
    .peekNext]

theorem schedulers_agree_example :
    ∃ answers, Refinement.answers MapScheduler.step [] exampleCalls = .ok answers ∧
      Refinement.answers ListScheduler.step [] exampleCalls = .ok answers ∧
      Refinement.answers HeapScheduler.step HeapScheduler.create exampleCalls = .ok answers ∧
      Refinement.answers step create exampleCalls =
        .ok answers := by
  refine schedulers_agree (by decide +kernel) ?_ ?_ (by decide +kernel)
  · refine fun _ => ⟨trivial, fun m_events answer hok _ => ?_⟩
    cases hok
    exact ⟨rfl, by simp [Refinement.Before, ListScheduler.Finds]⟩
  · refine fun _ => ⟨trivial, fun heap answer hok _ => ?_⟩
    cases hok
    exact ⟨⟨1, rfl, rfl, by decide⟩, by simp [Refinement.Before, HeapScheduler.InPlace]⟩

end Agree

end Ns3Joined.Core
