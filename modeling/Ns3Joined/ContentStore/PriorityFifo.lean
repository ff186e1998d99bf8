import Ns3Joined.ContentStore.Cs

/-!
# The priority FIFO policy

`PriorityFifoPolicy` (`cs-policy-priority-fifo.cpp`).

A `std::list` iterator stays with its list node, so the nodes carry an identity:
`EntryInfo::queueIt` is the identity of a node, and `erase(queueIt)` takes that node out
of the queue. The map from entries to their `EntryInfo` is a partial function. The
scheduler is the list of the events that are still to come; it may fire any of them at
any time, which allows every order the clock could bring about and more.

In `evictOne` the last of the four tests asks for `QUEUE_FIFO` where it should ask for
`QUEUE_AGENT`. When only agent entries are left, the iterator it goes on with has never
been assigned.
-/

namespace Ns3Joined.ContentStore

open Function

inductive QueueType
  | unsolicited
  | stale
  | fifo
  | agent
deriving DecidableEq, Repr

/-- A node of a queue. -/
structure QueueNode where
  id : ℕ
  entry : EntryRef
deriving DecidableEq, Repr

structure EntryInfo where
  queueType : QueueType
  queueIt : ℕ
  moveStaleEventId : Option ℕ
deriving DecidableEq, Repr

/-- The members of `PriorityFifoPolicy`, and the events it has scheduled. -/
structure PriorityFifo where
  queues : QueueType → List QueueNode
  entryInfoMap : EntryRef → Option EntryInfo
  scheduled : List (ℕ × EntryRef)
  nextNode : ℕ
  nextEvent : ℕ

namespace PriorityFifo

def init : PriorityFifo := ⟨fun _ => [], fun _ => none, [], 0, 0⟩

/-- An eviction: the store before it and the entry that went. -/
structure Eviction where
  before : Cs PriorityFifo
  victim : EntryRef

/-! ### The queues -/

/-- The queue `attachQueue` puts an entry into. -/
def queueOf (entry : Entry) (isAgent : Bool) (now : ℕ) : QueueType :=
  if isAgent then .agent
  else if entry.isUnsolicited then .unsolicited
  else if !entry.isFresh now then .stale
  else .fifo

/-- A new node at the end of a queue, and for `QUEUE_FIFO` an event that will move it. -/
def attach (p : PriorityFifo) (i : EntryRef) (queueType : QueueType) : PriorityFifo where
  queues := update p.queues queueType (p.queues queueType ++ [⟨p.nextNode, i⟩])
  entryInfoMap := update p.entryInfoMap i
    (some ⟨queueType, p.nextNode, if queueType = .fifo then some p.nextEvent else none⟩)
  scheduled := if queueType = .fifo then p.scheduled ++ [(p.nextEvent, i)] else p.scheduled
  nextNode := p.nextNode + 1
  nextEvent := p.nextEvent + 1

def attachQueue (i : EntryRef) (isAgent : Bool) (now : ℕ) (cs : Cs PriorityFifo) :
    Except Fault (Cs PriorityFifo) :=
  if (cs.policy.entryInfoMap i).isSome then .error .abort
  else
    match cs.table.get? i with
    | none => .error .undefined
    | some entry =>
      .ok { cs with policy := cs.policy.attach i (queueOf entry isAgent now) }

/-- `queue.erase(queueIt)`. -/
def eraseNode (queueIt : ℕ) (queue : List QueueNode) : List QueueNode :=
  queue.filter fun node => decide (node.id ≠ queueIt)

/-- An entry without its node, its event and its info. -/
def detach (p : PriorityFifo) (i : EntryRef) (info : EntryInfo) : PriorityFifo where
  queues := update p.queues info.queueType
    (eraseNode info.queueIt (p.queues info.queueType))
  entryInfoMap := update p.entryInfoMap i none
  scheduled := if info.queueType = .fifo then
      p.scheduled.filter fun ev => decide (some ev.1 ≠ info.moveStaleEventId)
    else p.scheduled
  nextNode := p.nextNode
  nextEvent := p.nextEvent

def detachQueue (i : EntryRef) (cs : Cs PriorityFifo) : Except Fault (Cs PriorityFifo) :=
  match cs.policy.entryInfoMap i with
  | none => .error .abort
  | some info =>
    if ∃ node ∈ cs.policy.queues info.queueType, node.id = info.queueIt then
      .ok { cs with policy := cs.policy.detach i info }
    else .error .undefined

/-- An entry moved to the end of the stale queue. -/
def toStale (p : PriorityFifo) (i : EntryRef) (info : EntryInfo) : PriorityFifo where
  queues := update
    (update p.queues .fifo (eraseNode info.queueIt (p.queues .fifo)))
    .stale (p.queues .stale ++ [⟨p.nextNode, i⟩])
  entryInfoMap := update p.entryInfoMap i
    (some ⟨.stale, p.nextNode, info.moveStaleEventId⟩)
  scheduled := p.scheduled
  nextNode := p.nextNode + 1
  nextEvent := p.nextEvent

def moveToStaleQueue (i : EntryRef) (cs : Cs PriorityFifo) : Except Fault (Cs PriorityFifo) :=
  match cs.policy.entryInfoMap i with
  | none => .error .abort
  | some info =>
    if info.queueType = .fifo then
      if ∃ node ∈ cs.policy.queues .fifo, node.id = info.queueIt then
        .ok { cs with policy := cs.policy.toStale i info }
      else .error .undefined
    else .error .abort

/-! ### Evictions -/

/-- The iterator `evictOne` goes on with, or `none` when it is not assigned. -/
def chosen (queues : QueueType → List QueueNode) : Option EntryRef :=
  if !(queues .unsolicited).isEmpty then (queues .unsolicited).head?.map QueueNode.entry
  else if !(queues .stale).isEmpty then (queues .stale).head?.map QueueNode.entry
  else if !(queues .fifo).isEmpty then (queues .fifo).head?.map QueueNode.entry
  -- the source tests `QUEUE_FIFO` again
  else if !(queues .fifo).isEmpty then (queues .agent).head?.map QueueNode.entry
  else none

def evictOne (cs : Cs PriorityFifo) : Except Fault (Cs PriorityFifo × Eviction) :=
  if (cs.policy.queues .unsolicited).isEmpty ∧ (cs.policy.queues .stale).isEmpty ∧
      (cs.policy.queues .fifo).isEmpty ∧ (cs.policy.queues .agent).isEmpty then .error .abort
  else
    match chosen cs.policy.queues with
    | none => .error .undefined
    | some i => do
      let cs' ← detachQueue i cs
      pure ({ cs' with table := cs'.table.erase i }, ⟨cs, i⟩)

/-- `while (size > limit) evictOne()`, for as many rounds as `fuel` allows. -/
def evictLoop : ℕ → Cs PriorityFifo → Except Fault (Cs PriorityFifo × List Eviction)
  | fuel, cs =>
    if cs.limit < cs.table.size then
      match fuel with
      | 0 => .error .diverges
      | fuel + 1 => do
        let (cs', ev) ← evictOne cs
        let (cs'', evs) ← evictLoop fuel cs'
        pure (cs'', ev :: evs)
    else .ok (cs, [])

/-- `evictEntries`. Each round takes one entry out of the table. -/
def evictEntries (cs : Cs PriorityFifo) : Except Fault (Cs PriorityFifo × List Eviction) :=
  evictLoop (cs.table.size - cs.limit) cs

/-! ### The policy -/

def doAfterInsert (i : EntryRef) (isAgent : Bool) (now : ℕ) (cs : Cs PriorityFifo) :
    Except Fault (Cs PriorityFifo × List Eviction) := do
  let cs ← attachQueue i isAgent now cs
  evictEntries cs

def doAfterRefresh (i : EntryRef) (isAgent : Bool) (now : ℕ) (cs : Cs PriorityFifo) :
    Except Fault (Cs PriorityFifo) := do
  let cs ← detachQueue i cs
  attachQueue i isAgent now cs

def doBeforeErase (i : EntryRef) (cs : Cs PriorityFifo) : Except Fault (Cs PriorityFifo) :=
  detachQueue i cs

def doBeforeUse (i : EntryRef) (cs : Cs PriorityFifo) : Except Fault (Cs PriorityFifo) :=
  if (cs.policy.entryInfoMap i).isSome then .ok cs else .error .abort

/-- The scheduler fires the event with the id `ev`, if it is still to come. -/
def fire (ev : ℕ) (cs : Cs PriorityFifo) : Except Fault (Cs PriorityFifo) :=
  match cs.policy.scheduled.find? fun e => e.1 == ev with
  | none => .ok cs
  | some e =>
    moveToStaleQueue e.2 { cs with policy := { cs.policy with
      scheduled := cs.policy.scheduled.filter fun e => decide (e.1 ≠ ev) } }

end PriorityFifo

open PriorityFifo in
/-- `PriorityFifoPolicy`. -/
def priorityFifo : Policy PriorityFifo ℕ Eviction where
  evictEntries := evictEntries
  doAfterInsert := doAfterInsert
  doAfterRefresh := doAfterRefresh
  doBeforeErase := doBeforeErase
  doBeforeUse := doBeforeUse
  onEvent := fire

end Ns3Joined.ContentStore
