import Ns3Joined.Core.Scheduler
import Ns3Joined.Library.BinaryHeap

/-!
# The heap scheduler

`HeapScheduler` (`core/model/heap-scheduler.cc`): events in a binary heap that starts at
index 1 of an array. A failed `NS_ASSERT` aborts.

`Remove` puts the last event in the place of the one it removes and only ever moves it down.
Where it belongs higher up it stays, smaller than its parent, and from then on the root need
not be the next event. `heapScheduler_refines_iff` tells the runs that work as a sorted list
would: those in which no removal does that, and in which `Remove`, which searches by uid,
finds the event it was given.
-/

namespace Ns3Joined.Core

open BinaryHeap List

variable {ev : Event} {i : ℕ}

namespace HeapScheduler

/-- `HeapScheduler()`: the array with its wasted item. -/
def create : Array Event := #[⟨0, ⟨0, 0, 0⟩⟩]

def Root : ℕ := 1

def Last (heap : Array Event) : ℕ := heap.size - 1

/-- The loop goes up from the last index. -/
def BottomUp (heap : Array Event) : Array Event :=
  siftUp Event.rank (Last heap) heap (Last heap)

def TopDown (heap : Array Event) (start : ℕ) : Array Event :=
  siftDown Event.rank (heap.size + 1) heap start

def Insert (heap : Array Event) (ev : Event) : Array Event := BottomUp (heap.push ev)

/-- Without an event there is nothing at the root to read. -/
def PeekNext (heap : Array Event) : Except Fault Event :=
  if Root < heap.size then .ok heap[Root]! else .error .undefined

/-- `Exch` with the last event, `pop_back`, `TopDown`. -/
def removeAt (heap : Array Event) (i : ℕ) : Array Event := TopDown (takeOut heap i) i

def RemoveNext (heap : Array Event) : Except Fault (Array Event × Event) :=
  if Root < heap.size then .ok (removeAt heap Root, heap[Root]!) else .error .abort

/-- Where the loop of `Remove` stops: the first event with the uid. -/
def findUid (heap : Array Event) (uid : UInt32) : Option ℕ :=
  (List.range' 1 (heap.size - 1)).find? fun i => heap[i]!.key.uid == uid

def Remove (heap : Array Event) (ev : Event) : Except Fault (Array Event) :=
  match findUid heap ev.key.uid with
  | none => .error .abort
  | some i => if heap[i]!.impl = ev.impl then .ok (removeAt heap i) else .error .abort

def step (heap : Array Event) : SchedulerCall → Except Fault (Array Event × Option Event)
  | .insert ev => .ok (Insert heap ev, none)
  | .peekNext => (PeekNext heap).map fun ev => (heap, some ev)
  | .removeNext => (RemoveNext heap).map fun r => (r.1, some r.2)
  | .remove ev => (Remove heap ev).map (·, none)

/-! ### Heaps and sorted lists -/

/-- The heap is in order and holds the events of the list. -/
structure Holds (heap : Array Event) (held : List Event) : Prop where
  size : heap.size ≠ 0
  ordered : Ordered Event.rank heap
  increasing : Increasing held
  content : (content heap).Perm held

/-- The event is the one that `Remove` finds, and the last event may stand in its place:
it is not to come before the parent of that place. -/
def RemovesInPlace (heap : Array Event) (ev : Event) : Prop :=
  ∃ i, findUid heap ev.key.uid = some i ∧ heap[i]! = ev ∧
    (2 ≤ i → i < Last heap → heap[i / 2]!.rank ≤ heap[Last heap]!.rank)

/-- What a call has to meet. -/
def InPlace (heap : Array Event) (_held : List Event) : SchedulerCall → Prop
  | .remove ev => RemovesInPlace heap ev
  | _ => True

theorem holds_create : Holds create [] where
  size := by decide
  ordered := by
    intro i hi hlt
    have hsize : create.size = 1 := rfl
    omega
  increasing := List.Pairwise.nil
  content := List.Perm.refl _

section Step

variable {heap : Array Event} {held : List Event}

section

variable (h : Holds heap held)

include h

/-- The events are at the places from 1 on. -/
theorem Holds.mem_iff : ev ∈ held ↔ ∃ i, 1 ≤ i ∧ i < heap.size ∧ heap[i]! = ev := by
  rw [← h.content.mem_iff, mem_content_iff]

theorem Holds.root_lt (hne : held ≠ []) : Root < heap.size := by
  obtain ⟨ev, hev⟩ := exists_mem_of_ne_nil held hne
  obtain ⟨i, hone, hlt, -⟩ := h.mem_iff.mp hev
  show 1 < heap.size
  omega

/-- The root is the first event. -/
theorem Holds.head? (hne : held ≠ []) : held.head? = some heap[Root]! := by
  apply h.increasing.head?_eq
  · exact h.mem_iff.mpr ⟨1, Nat.le_refl 1, h.root_lt hne, rfl⟩
  · intro ev' hev'
    obtain ⟨i, hone, hlt, rfl⟩ := h.mem_iff.mp hev'
    exact h.ordered.root_le hone hlt

/-- `Insert` keeps the heap in order. -/
theorem Holds.insert (hnew : ∀ ev' ∈ held, ev'.rank ≠ ev.rank) :
    Holds (Insert heap ev) (insertEvent ev held) := by
  have hlast : Last (heap.push ev) = heap.size := by
    rw [Last, Array.size_push]
    rfl
  have hone : 1 ≤ heap.size := Nat.one_le_iff_ne_zero.mpr h.size
  constructor
  · rw [Insert, BottomUp, size_siftUp, Array.size_push]
    omega
  · rw [Insert, BottomUp, hlast]
    apply siftUp_ordered (orderedAbove_push h.ordered h.size ev)
    · rw [Array.size_push]
      omega
    · exact hone
    · exact Nat.le_refl _
  · exact h.increasing.insertEvent hnew
  · calc
      (BinaryHeap.content (Insert heap ev)).Perm (BinaryHeap.content (heap.push ev)) := by
        rw [Insert, BottomUp, hlast]
        exact content_siftUp hone
      _ = BinaryHeap.content heap ++ [ev] := content_push ev h.size
      List.Perm _ (ev :: BinaryHeap.content heap) := perm_append_singleton _ _
      List.Perm _ (ev :: held) := h.content.cons ev
      List.Perm _ (insertEvent ev held) := (insertEvent_perm ev held).symm

/-- `removeAt` takes out what is at the place. -/
theorem content_removeAt (hone : 1 ≤ i) (hlt : i < heap.size) :
    (BinaryHeap.content (removeAt heap i)).Perm (held.erase heap[i]!) := by
  have hperm : (heap[i]! :: BinaryHeap.content (removeAt heap i)).Perm held :=
    calc
      (heap[i]! :: BinaryHeap.content (removeAt heap i)).Perm
          (heap[i]! :: BinaryHeap.content (takeOut heap i)) := (content_siftDown hone).cons _
      List.Perm _ (BinaryHeap.content heap) := content_takeOut hone hlt
      List.Perm _ held := h.content
  have herase := hperm.erase heap[i]!
  rwa [erase_cons_head] at herase

/-- Taking an event out leaves a heap that holds the rest exactly when the last event may
stand in its place. -/
theorem holds_removeAt_iff (hone : 1 ≤ i) (hlt : i < heap.size) :
    Holds (removeAt heap i) (held.erase heap[i]!) ↔
      (2 ≤ i → i < Last heap → heap[i / 2]!.rank ≤ heap[Last heap]!.rank) := by
  have hfuel : heap.size ≤ (takeOut heap i).size + 1 := by
    rw [size_takeOut]
    omega
  have hiff := siftDown_takeOut_ordered_iff h.ordered hone hlt hfuel
  constructor
  · intro hholds
    exact hiff.mp hholds.ordered
  · intro hparent
    constructor
    · rw [removeAt, TopDown, size_siftDown, size_takeOut]
      omega
    · exact hiff.mpr hparent
    · exact List.Pairwise.sublist erase_sublist h.increasing
    · exact content_removeAt h hone hlt

end

/-- What is found has the number that was looked for. -/
theorem findUid_eq_some {uid : UInt32} (h : findUid heap uid = some i) :
    1 ≤ i ∧ i < heap.size ∧ heap[i]!.key.uid = uid := by
  have hmem := mem_of_find?_eq_some h
  rw [mem_range'_1] at hmem
  have huid := List.find?_some h
  exact ⟨hmem.1, by omega, eq_of_beq huid⟩

theorem Holds.nodup (h : Holds heap held) : held.Nodup := h.increasing.nodup

/-- Taking out the event at an index leaves the same as erasing an event only if that is the
event there. -/
theorem eq_of_holds_removeAt (h : Holds heap held) (hone : 1 ≤ i) (hlt : i < heap.size)
    (hev : ev ∈ held) (hholds : Holds (removeAt heap i) (held.erase ev)) : heap[i]! = ev := by
  by_contra hne
  have hstill : ev ∈ held.erase heap[i]! := (mem_erase_of_ne (Ne.symm hne)).mpr hev
  have hgone : ev ∈ held.erase ev :=
    hholds.content.mem_iff.mp ((content_removeAt h hone hlt).mem_iff.mpr hstill)
  exact h.nodup.not_mem_erase hgone

/-- `Remove` is right exactly when the heap stays in order without sifting up. -/
theorem step_remove_iff (h : Holds heap held) (hev : ev ∈ held) :
    Refinement.StepRefines step sortedList Holds heap held (.remove ev) ↔
      RemovesInPlace heap ev := by
  constructor
  · rintro ⟨heap', hok, hholds⟩
    have hRemove : Remove heap ev = .ok heap' := by
      have hmap : (Remove heap ev).map (·, (none : Option Event)) = .ok (heap', none) := hok
      match hr : Remove heap ev with
      | .error e =>
        rw [hr] at hmap
        cases hmap
      | .ok r =>
        rw [hr] at hmap
        cases hmap
        rfl
    unfold Remove at hRemove
    split at hRemove
    next => cases hRemove
    next i hfind =>
      split_ifs at hRemove with himpl
      cases hRemove
      obtain ⟨hone, hlt, -⟩ := findUid_eq_some hfind
      have heq : heap[i]! = ev := eq_of_holds_removeAt h hone hlt hev hholds
      refine ⟨i, hfind, heq, ?_⟩
      apply (holds_removeAt_iff h hone hlt).mp
      rw [heq]
      exact hholds
  · rintro ⟨i, hfind, heq, hparent⟩
    obtain ⟨hone, hlt, -⟩ := findUid_eq_some hfind
    refine ⟨removeAt heap i, ?_, ?_⟩
    · show (Remove heap ev).map _ = _
      rw [Remove, hfind]
      dsimp only
      rw [if_pos (congrArg Event.impl heq)]
      rfl
    · show Holds (removeAt heap i) (held.erase ev)
      rw [← heq]
      exact (holds_removeAt_iff h hone hlt).mpr hparent

/-- **One call.** All calls but `Remove` always do what the sorted list does. -/
theorem step_refines_iff (h : Holds heap held) {call : SchedulerCall}
    (hallowed : sortedList.Allowed held call) :
    Refinement.StepRefines step sortedList Holds heap held call ↔ InPlace heap held call := by
  cases call with
  | insert ev => exact iff_of_true ⟨Insert heap ev, rfl, h.insert hallowed⟩ trivial
  | peekNext =>
    refine iff_of_true ⟨heap, ?_, h⟩ trivial
    show (PeekNext heap).map _ = .ok (heap, held.head?)
    rw [PeekNext, if_pos (h.root_lt hallowed), h.head? hallowed]
    rfl
  | removeNext =>
    have hroot : Root < heap.size := h.root_lt hallowed
    refine iff_of_true ⟨removeAt heap Root, ?_, ?_⟩ trivial
    · show (RemoveNext heap).map _ = .ok (removeAt heap Root, held.head?)
      rw [RemoveNext, if_pos hroot, h.head? hallowed]
      rfl
    · have htail : held.tail = held.erase heap[Root]! := by
        have hhead := h.head? hallowed
        match held with
        | [] => exact absurd rfl hallowed
        | first :: held =>
          cases Option.some.inj hhead
          exact (erase_cons_head ..).symm
      show Holds (removeAt heap Root) held.tail
      rw [htail]
      apply (holds_removeAt_iff h (Nat.le_refl 1) hroot).mpr
      intro htwo
      exact absurd htwo (by decide)
  | remove ev => exact step_remove_iff h hallowed

end Step

/-! ### Runs -/

/-- **The heap works as a sorted list** exactly in the runs whose removals find their event
and put a last event in its place that may stand there. -/
theorem heapScheduler_refines_iff (calls : List SchedulerCall) :
    Refinement.Refines step sortedList Holds create [] calls ↔
      Refinement.Before step sortedList InPlace create [] calls :=
  Refinement.refines_iff_before (fun _ _ _ h hallowed => step_refines_iff h hallowed)
    holds_create calls

/-- Event number `n`, with time stamp `n`. -/
def exampleEvent (n : UInt32) : Event := ⟨n.toNat, ⟨n.toUInt64, n, 0⟩⟩

/-- Event 4 is last when 11 is removed, and takes its place below 10. Two more insertions
keep it there. -/
def exampleCalls : List SchedulerCall :=
  [1, 10, 2, 11, 12, 3, 4].map (.insert ∘ exampleEvent) ++ [.remove (exampleEvent 11)] ++
    [20, 21].map (.insert ∘ exampleEvent) ++ [.removeNext, .removeNext, .removeNext, .peekNext]

/-- **After a removal** the heap gives event 10 for the next one, while it holds event 4. -/
theorem not_refines_exampleCalls :
    ¬ ∀ calls, Refinement.Refines step sortedList Holds create [] calls := by
  intro h
  have hall : sortedList.AllAllowed [] exampleCalls := by decide +kernel
  have hanswers := (h exampleCalls).answers hall
  revert hanswers
  decide +kernel

end HeapScheduler
end Ns3Joined.Core
