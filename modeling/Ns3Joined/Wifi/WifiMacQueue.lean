import Ns3Joined.Network.Queue

/-!
# `WifiMacQueue::Insert`

The queue of MPDUs of `wifi-mac-queue.cc`, whose packets expire. `Insert` makes room in a full
queue in one of three ways: it removes the first packet that has expired, which may be the one
at the position it was given; it removes the oldest packet, if that is the policy; or not at all.
-/

namespace Ns3Joined.Wifi

open Network

def WIFI_MAC_FCS_LENGTH : UInt32 := 4

namespace WifiMacQueue

/-- `WifiMacQueueItem`: the sizes of its packet and of its header, and its time stamp. -/
structure WifiMacQueueItem where
  m_packetSize : UInt32
  m_headerSize : UInt32
  m_tstamp : ℤ
deriving DecidableEq, Repr

/-- `WifiMacQueueItem::GetSize`. -/
instance : QueueItem WifiMacQueueItem where
  GetSize item := item.m_packetSize + item.m_headerSize + WIFI_MAC_FCS_LENGTH

end WifiMacQueue

/-- `WifiMacQueue::DropPolicy`. -/
inductive DropPolicy
  | DROP_NEWEST
  | DROP_OLDEST
deriving DecidableEq, Repr

/-- `WifiMacQueue`. Its `m_maxSize` is not that of `QueueBase`. -/
structure WifiMacQueue where
  queue : Queue WifiMacQueue.WifiMacQueueItem
  m_maxSize : QueueSize
  m_maxDelay : ℤ
  m_dropPolicy : DropPolicy

namespace WifiMacQueue

/-- The nodes of the list. -/
def nodes (q : WifiMacQueue) : List (ℕ × WifiMacQueueItem) := q.queue.m_packets.nodes

/-- `WifiMacQueue::TtlExceeded`: the iterator it leaves, and whether it removed the item. -/
def TtlExceeded (q : WifiMacQueue) (now : ℤ) (it : Option ℕ) :
    Except Fault (WifiMacQueue × Option ℕ × Bool) :=
  match it, q.queue.m_packets.get? it with
  | some i, some item =>
    if now > item.m_tstamp + q.m_maxDelay then do
      let next := q.queue.m_packets.succ i
      let r ← q.queue.DoRemove (some i)
      .ok ({ q with queue := r.1 }, next, true)
    else .ok (q, it, false)
  | _, _ => .error .undefined

/-- `DoEnqueue` of the base class. -/
def DoEnqueue (q : WifiMacQueue) (pos : Option ℕ) (item : WifiMacQueueItem) :
    Except Fault (WifiMacQueue × Bool) := do
  let r ← q.queue.DoEnqueue pos item
  .ok ({ q with queue := r.1 }, r.2)

/-- The loop of `Insert` over the nodes that are left: what it returns, if it does. -/
def scan (q : WifiMacQueue) (now : ℤ) (pos : Option ℕ) (item : WifiMacQueueItem) :
    List (ℕ × WifiMacQueueItem) → Except Fault (Option (WifiMacQueue × Bool))
  | [] => .ok none
  | (i, _) :: rest => do
    let r ← (if some i = pos then q.TtlExceeded now (some i) else .ok (q, some i, false))
    if r.2.2 then
      let result ← r.1.DoEnqueue r.2.1 item
      return some result
    else
      let r ← r.1.TtlExceeded now r.2.1
      if r.2.2 then
        let result ← r.1.DoEnqueue pos item
        return some result
      else q.scan now pos item rest

/-- `WifiMacQueue::Insert` once `QueueBase` has the maximum size. -/
def insertSized (q : WifiMacQueue) (now : ℤ) (pos : Option ℕ) (item : WifiMacQueueItem) :
    Except Fault (WifiMacQueue × Bool) := do
  -- insert the item if the queue is not full
  if q.queue.m_nPackets < q.queue.m_maxSize.m_value then q.DoEnqueue pos item
  else
    -- scan the list in the attempt to remove stale packets
    match ← q.scan now pos item q.nodes with
    | some result => .ok result
    | none =>
      -- the queue is still full, remove the oldest item if the policy is drop oldest
      if q.m_dropPolicy = .DROP_OLDEST then
        let r ← q.queue.DoRemove q.queue.m_packets.first
        { q with queue := r.1 }.DoEnqueue pos item
      else q.DoEnqueue pos item

/-- `WifiMacQueue::Insert`. -/
def Insert (q : WifiMacQueue) (now : ℤ) (pos : Option ℕ) (item : WifiMacQueueItem) :
    Except Fault (WifiMacQueue × Bool) := do
  -- the queue must be in packet mode
  if q.queue.m_maxSize.m_unit ≠ .PACKETS then .error .abort
  else
    -- make sure QueueBase has the same maximum queue size
    let base ← q.queue.SetMaxSize q.m_maxSize
    { q with queue := { q.queue with toQueueBase := base } }.insertSized now pos item

end WifiMacQueue

end Ns3Joined.Wifi
