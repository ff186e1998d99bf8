import Mathlib
import Ns3Joined.Fault
import Ns3Joined.Library.ExceptFold
import Ns3Joined.Library.NodeList

/-!
# `Queue`

The queue of `queue.h`: a linked list of items with the counters of `QueueBase`. The counters are
of 32 bits and wrap around.
-/

namespace Ns3Joined.Network

inductive QueueSizeUnit
  | PACKETS
  | BYTES
deriving DecidableEq, Repr

structure QueueSize where
  m_unit : QueueSizeUnit
  m_value : UInt32
deriving DecidableEq, Repr

namespace QueueSize

/-- `QueueSize::operator <`. -/
def lt (lhs rhs : QueueSize) : Except Fault Bool :=
  if lhs.m_unit ≠ rhs.m_unit then .error .abort else .ok (decide (lhs.m_value < rhs.m_value))

/-- `QueueSize::operator >`. -/
def gt (lhs rhs : QueueSize) : Except Fault Bool :=
  if lhs.m_unit ≠ rhs.m_unit then .error .abort else .ok (decide (lhs.m_value > rhs.m_value))

/-- `operator+` of a size and an item with this number of bytes. -/
def add (lhs : QueueSize) (size : UInt32) : QueueSize :=
  match lhs.m_unit with
  | .PACKETS => { lhs with m_value := lhs.m_value + 1 }
  | .BYTES => { lhs with m_value := lhs.m_value + size }

end QueueSize

/-- What can be queued: `GetSize`. -/
class QueueItem (Item : Type) where
  GetSize : Item → UInt32

/-- `QueueBase`: the counters of a queue. -/
structure QueueBase where
  m_nBytes : UInt32
  m_nTotalReceivedBytes : UInt32
  m_nPackets : UInt32
  m_nTotalReceivedPackets : UInt32
  m_nTotalDroppedBytes : UInt32
  m_nTotalDroppedBytesBeforeEnqueue : UInt32
  m_nTotalDroppedBytesAfterDequeue : UInt32
  m_nTotalDroppedPackets : UInt32
  m_nTotalDroppedPacketsBeforeEnqueue : UInt32
  m_nTotalDroppedPacketsAfterDequeue : UInt32
  m_maxSize : QueueSize
deriving DecidableEq, Repr

namespace QueueBase

/-- `QueueBase::GetCurrentSize`. -/
def GetCurrentSize (q : QueueBase) : QueueSize :=
  match q.m_maxSize.m_unit with
  | .PACKETS => ⟨.PACKETS, q.m_nPackets⟩
  | .BYTES => ⟨.BYTES, q.m_nBytes⟩

/-- `QueueBase::SetMaxSize`. -/
def SetMaxSize (q : QueueBase) (size : QueueSize) : Except Fault QueueBase :=
  -- do nothing if the size is null
  if size.m_value = 0 then .ok q
  else do
    let q' := { q with m_maxSize := size }
    -- the new maximum queue size cannot be less than the current size
    if ← size.lt q'.GetCurrentSize then .error .abort else .ok q'

/-- The counters of `Queue::DropBeforeEnqueue`. -/
def DropBeforeEnqueue (q : QueueBase) (size : UInt32) : QueueBase :=
  { q with
    m_nTotalDroppedPackets := q.m_nTotalDroppedPackets + 1
    m_nTotalDroppedPacketsBeforeEnqueue := q.m_nTotalDroppedPacketsBeforeEnqueue + 1
    m_nTotalDroppedBytes := q.m_nTotalDroppedBytes + size
    m_nTotalDroppedBytesBeforeEnqueue := q.m_nTotalDroppedBytesBeforeEnqueue + size }

/-- The counters of `Queue::DropAfterDequeue`. -/
def DropAfterDequeue (q : QueueBase) (size : UInt32) : QueueBase :=
  { q with
    m_nTotalDroppedPackets := q.m_nTotalDroppedPackets + 1
    m_nTotalDroppedPacketsAfterDequeue := q.m_nTotalDroppedPacketsAfterDequeue + 1
    m_nTotalDroppedBytes := q.m_nTotalDroppedBytes + size
    m_nTotalDroppedBytesAfterDequeue := q.m_nTotalDroppedBytesAfterDequeue + size }

/-- The counters of `Queue::DoEnqueue` for an item that is inserted. -/
def received (q : QueueBase) (size : UInt32) : QueueBase :=
  { q with
    m_nBytes := q.m_nBytes + size
    m_nTotalReceivedBytes := q.m_nTotalReceivedBytes + size
    m_nPackets := q.m_nPackets + 1
    m_nTotalReceivedPackets := q.m_nTotalReceivedPackets + 1 }

/-- The counters of `Queue::DoRemove` for an item that is erased. -/
def removed (q : QueueBase) (size : UInt32) : QueueBase :=
  { q with
    m_nBytes := q.m_nBytes - size
    m_nPackets := q.m_nPackets - 1 }.DropAfterDequeue size

end QueueBase

/-- `Queue`: the items in the queue and the counters. -/
structure Queue (Item : Type) extends QueueBase where
  m_packets : NodeList Item

namespace Queue

variable {Item : Type} [QueueItem Item]

/-- `Queue::DoEnqueue`: whether the item was inserted before the position. -/
def DoEnqueue (q : Queue Item) (pos : Option ℕ) (item : Item) :
    Except Fault (Queue Item × Bool) := do
  if ← (q.GetCurrentSize.add (QueueItem.GetSize item)).gt q.m_maxSize then
    -- the queue is full
    .ok (⟨q.DropBeforeEnqueue (QueueItem.GetSize item), q.m_packets⟩, false)
  else if q.m_packets.IsPosition pos then
    .ok (⟨q.received (QueueItem.GetSize item), q.m_packets.insertBefore pos item⟩, true)
  else .error .undefined

/-- `Queue::DoRemove`: the item that was removed. -/
def DoRemove (q : Queue Item) (pos : Option ℕ) : Except Fault (Queue Item × Option Item) :=
  if q.m_nPackets = 0 then .ok (q, none)
  else
    match pos, q.m_packets.get? pos with
    | some i, some item =>
      if q.m_nBytes < QueueItem.GetSize item then .error .abort
      else .ok (⟨q.removed (QueueItem.GetSize item), q.m_packets.erase i⟩, some item)
    -- the end of the list, or a node that is not there
    | _, _ => .error .undefined

/-- The counter of packets is right. -/
def Counted (q : Queue Item) : Prop := q.m_nPackets.toNat = q.m_packets.nodes.length

variable {q : Queue Item} {pos : Option ℕ} {item : Item} {i : ℕ}

/-! ### What the operations do to a queue in packet mode -/

omit [QueueItem Item] in
/-- A queue that counts packets is full when it has its number. -/
theorem gt_eq (hunit : q.m_maxSize.m_unit = .PACKETS) (size : UInt32) :
    (q.GetCurrentSize.add size).gt q.m_maxSize =
      .ok (decide (q.m_nPackets + 1 > q.m_maxSize.m_value)) := by
  simp [QueueBase.GetCurrentSize, QueueSize.add, QueueSize.gt, hunit]

/-- A full queue drops before it enqueues. -/
theorem DoEnqueue_of_full (hunit : q.m_maxSize.m_unit = .PACKETS)
    (hfull : q.m_maxSize.m_value < q.m_nPackets + 1) :
    q.DoEnqueue pos item =
      .ok (⟨q.DropBeforeEnqueue (QueueItem.GetSize item), q.m_packets⟩, false) := by
  unfold DoEnqueue
  rw [gt_eq hunit, ExceptFold.ok_bind, if_pos (decide_eq_true hfull)]

/-- A queue with room inserts before a position of the list. -/
theorem DoEnqueue_of_room (hunit : q.m_maxSize.m_unit = .PACKETS)
    (hroom : ¬ q.m_maxSize.m_value < q.m_nPackets + 1) :
    q.DoEnqueue pos item =
      if q.m_packets.IsPosition pos then
        .ok (⟨q.received (QueueItem.GetSize item), q.m_packets.insertBefore pos item⟩, true)
      else .error .undefined := by
  unfold DoEnqueue
  rw [gt_eq hunit, ExceptFold.ok_bind, if_neg (by rwa [decide_eq_true_eq])]

omit [QueueItem Item] in
/-- A counted queue with a packet does not count zero. -/
theorem Counted.ne_zero (h : q.Counted) (hnode : (i, item) ∈ q.m_packets.nodes) :
    q.m_nPackets ≠ 0 := by
  intro hzero
  have hlength := List.length_pos_of_mem hnode
  rw [← h, hzero] at hlength
  exact absurd hlength (Nat.lt_irrefl 0)

/-- Removing a packet of a counted queue fails only where the bytes would become negative. -/
theorem DoRemove_eq (h : q.Counted) (hnode : (i, item) ∈ q.m_packets.nodes) :
    q.DoRemove (some i) =
      if q.m_nBytes < QueueItem.GetSize item then .error .abort
      else .ok (⟨q.removed (QueueItem.GetSize item), q.m_packets.erase i⟩, some item) := by
  unfold DoRemove
  rw [if_neg (h.ne_zero hnode), NodeList.get?_of_mem hnode]

omit [QueueItem Item] in
/-- One more packet is counted. -/
theorem Counted.received (h : q.Counted) (hlt : q.m_nPackets.toNat + 1 < 2 ^ 32) (size : UInt32) :
    Counted ⟨q.received size, q.m_packets.insertBefore pos item⟩ := by
  unfold Counted QueueBase.received
  rw [NodeList.length_insertBefore, ← h, UInt32.toNat_add]
  exact Nat.mod_eq_of_lt hlt

omit [QueueItem Item] in
/-- One packet less is counted. -/
theorem Counted.removed (h : q.Counted) (hnode : (i, item) ∈ q.m_packets.nodes) (size : UInt32) :
    Counted ⟨q.removed size, q.m_packets.erase i⟩ := by
  have hlength := NodeList.length_erase (List.mem_map_of_mem hnode : i ∈ _)
  have hone : (1 : UInt32) ≤ q.m_nPackets := by
    rw [UInt32.le_iff_toNat_le, h]
    exact List.length_pos_of_mem hnode
  have hcount : q.m_nPackets.toNat = q.m_packets.nodes.length := h
  change (q.m_nPackets - 1).toNat = _
  rw [UInt32.toNat_sub_of_le _ _ hone, hcount, ← hlength]
  rfl

end Queue

end Ns3Joined.Network
