import Ns3Joined.Core.Scheduler

/-!
# The map scheduler

`MapScheduler` (`core/model/map-scheduler.cc`) keeps its events in a `std::map` with their keys
for keys: a list in increasing rank, where keys of one rank are one key. It works as a sorted
list whatever its callers do.
-/

namespace Ns3Joined.Core.MapScheduler

/-- `m_list.find`. -/
def find (m_list : List Event) (key : EventKey) : Option Event :=
  m_list.find? fun ev => ev.rank = key.rank

/-- `std::map::insert` does not insert a key that is there. -/
def Insert (m_list : List Event) (ev : Event) : Except Fault (List Event) :=
  if (find m_list ev.key).isSome then .error .abort else .ok (insertEvent ev m_list)

def PeekNext (m_list : List Event) : Except Fault Event :=
  match m_list with
  | [] => .error .abort
  | first :: _ => .ok first

def RemoveNext (m_list : List Event) : Except Fault (List Event × Event) :=
  match m_list with
  | [] => .error .abort
  | first :: rest => .ok (rest, first)

def Remove (m_list : List Event) (ev : Event) : Except Fault (List Event) :=
  match find m_list ev.key with
  | none => .error .undefined
  | some ev' => if ev'.impl = ev.impl then .ok (m_list.erase ev') else .error .abort

def step (m_list : List Event) : SchedulerCall → Except Fault (List Event × Option Event)
  | .insert ev => (Insert m_list ev).map (·, none)
  | .peekNext => (PeekNext m_list).map fun ev => (m_list, some ev)
  | .removeNext => (RemoveNext m_list).map fun r => (r.1, some r.2)
  | .remove ev => (Remove m_list ev).map (·, none)

def Holds (m_list held : List Event) : Prop := m_list = held ∧ Increasing held

/-- An event that is held is found by its key. -/
theorem find_eq_some {held : List Event} (h : Increasing held) {ev : Event} (hev : ev ∈ held) :
    find held ev.key = some ev := by
  induction held with
  | nil => cases hev
  | cons first held ih =>
    obtain ⟨hfirst, hheld⟩ := List.pairwise_cons.mp h
    rw [find, List.find?_cons]
    rcases List.mem_cons.mp hev with rfl | hev
    · rw [decide_eq_true (show ev.rank = ev.key.rank from rfl)]
    · have hne : first.rank ≠ ev.key.rank := ne_of_lt (hfirst ev hev)
      rw [decide_eq_false hne]
      exact ih hheld hev

/-- **One call** does what a scheduler is to do. -/
theorem step_refines {m_list held : List Event} {call : SchedulerCall} (h : Holds m_list held)
    (hallowed : sortedList.Allowed held call) :
    Refinement.StepRefines step sortedList Holds m_list held call := by
  obtain ⟨rfl, hincreasing⟩ := h
  have hnext := hincreasing.next hallowed
  refine ⟨sortedList.next m_list call, ?_, rfl, hnext⟩
  cases call with
  | insert ev =>
    have hnone : find m_list ev.key = none := by
      apply List.find?_eq_none.mpr
      intro ev' hev' heq
      exact hallowed ev' hev' (of_decide_eq_true heq)
    show (Insert m_list ev).map _ = _
    rw [Insert, hnone]
    rfl
  | peekNext =>
    match m_list, hallowed with
    | _ :: _, _ => rfl
  | removeNext =>
    match m_list, hallowed with
    | _ :: _, _ => rfl
  | remove ev =>
    show (Remove m_list ev).map _ = _
    rw [Remove, find_eq_some hincreasing hallowed]
    dsimp only
    rw [if_pos rfl]
    rfl

/-- `ns3::MapScheduler`. -/
def mapScheduler : SchedulerClass where
  State := List Event
  create := []
  IsEmpty := List.isEmpty
  step := step
  Holds := Holds
  holds_create := ⟨rfl, List.Pairwise.nil⟩
  isEmpty_iff := fun {m_list _} h => by rw [h.1] at *; exact List.isEmpty_iff
  refines := step_refines

end Ns3Joined.Core.MapScheduler
