import Ns3Joined.ContentStore.Cs

/-!
# The LRU policy with its agent class

`LruPolicy` (`cs-policy-lru.cpp`). The queue is a `multi_index_container`, sequenced and
unique: a list without repetitions, the least recently used entry first. Of `EntryInfo`
only the class of the entry is kept; `queueIt` is written and never read.

`evictEntries` looks for the first entry that is not an agent's, erases it from the queue
through the iterator `it`, and then, behind the loop, compares that same `it` with
`m_queue.end()`. The iterator is invalid by then. What the comparison yields is the
parameter `erasedIsEnd`: the two outcomes, or `none` when it traps; and each such use is
reported (`Event.usedErased`).
-/

namespace Ns3Joined.ContentStore
namespace Lru

/-- `QUEUE_NORMAL` and `QUEUE_AGENT`. -/
inductive EntryClass
  | normal
  | agent
deriving DecidableEq, Repr

end Lru

/-- The members of `LruPolicy`. -/
structure Lru where
  queue : List EntryRef
  entryInfoMap : EntryRef → Option Lru.EntryClass

namespace Lru

def init : Lru := ⟨[], fun _ => none⟩

/-- What an eviction does: it takes an entry out of a store, or it uses an iterator whose
element has been erased. -/
inductive Event
  | evicted (before : Cs Lru) (victim : EntryRef)
  | usedErased

def insertToQueue (i : EntryRef) (isNewEntry isAgent : Bool) (cs : Cs Lru) :
    Except Fault (Cs Lru) :=
  -- `push_back` refuses an entry the queue has
  let isNew := decide (i ∉ cs.policy.queue)
  if isNew ≠ isNewEntry then .error .abort
  else if isNewEntry then
    .ok { cs with policy := ⟨cs.policy.queue ++ [i],
      Function.update cs.policy.entryInfoMap i (some (if !isAgent then .normal else .agent))⟩ }
  else
    let queue := cs.policy.queue.erase i ++ [i]
    if isAgent then
      match cs.policy.entryInfoMap i with
      | none => .error .undefined
      | some _ =>
        .ok { cs with policy := ⟨queue,
          Function.update cs.policy.entryInfoMap i (some .agent)⟩ }
    else .ok { cs with policy := ⟨queue, cs.policy.entryInfoMap⟩ }

/-! ### Evictions -/

/-- An entry out of the info map, the table and the queue. -/
def remove (i : EntryRef) (cs : Cs Lru) : Cs Lru :=
  { cs with
    table := cs.table.erase i
    policy := ⟨cs.policy.queue.erase i, Function.update cs.policy.entryInfoMap i none⟩ }

/-- The search for the first entry of class `QUEUE_NORMAL`. -/
def findNonAgent (entryInfoMap : EntryRef → Option EntryClass) :
    List EntryRef → Except Fault (Option EntryRef)
  | [] => .ok none
  | i :: queue =>
    match entryInfoMap i with
    | none => .error .undefined
    | some .normal => .ok (some i)
    | some .agent => findNonAgent entryInfoMap queue

/-- The branch behind the search: the first entry of the queue goes. -/
def evictFront (cs : Cs Lru) : Except Fault (Cs Lru × Event) :=
  match cs.policy.queue with
  | [] => .error .undefined
  | i :: _ => .ok (remove i cs, .evicted cs i)

section Evict

variable (erasedIsEnd : Cs Lru → Option Bool)

/-- One round of `evictEntries`. -/
def evictRound (cs : Cs Lru) : Except Fault (Cs Lru × List Event) :=
  if cs.policy.queue.isEmpty then .error .abort
  else do
    match ← findNonAgent cs.policy.entryInfoMap cs.policy.queue with
    | some i =>
      let cs' := remove i cs
      let evs := [.evicted cs i, .usedErased]
      match erasedIsEnd cs' with
      | none => .error .undefined
      | some false => pure (cs', evs)
      | some true => do
        let (cs'', ev) ← evictFront cs'
        pure (cs'', evs ++ [ev])
    | none => do
      let (cs', ev) ← evictFront cs
      pure (cs', [ev])

/-- `while (size > limit)`, for as many rounds as `fuel` allows. -/
def evictLoop : ℕ → Cs Lru → Except Fault (Cs Lru × List Event)
  | fuel, cs =>
    if cs.limit < cs.table.size then
      match fuel with
      | 0 => .error .diverges
      | fuel + 1 => do
        let (cs', evs) ← evictRound erasedIsEnd cs
        let (cs'', evs') ← evictLoop fuel cs'
        pure (cs'', evs ++ evs')
    else .ok (cs, [])

/-- `evictEntries`. Each round takes an entry out of the table. -/
def evictEntries (cs : Cs Lru) : Except Fault (Cs Lru × List Event) :=
  evictLoop erasedIsEnd (cs.table.size - cs.limit) cs

/-! ### The policy -/

def doAfterInsert (i : EntryRef) (isAgent : Bool) (_now : ℕ) (cs : Cs Lru) :
    Except Fault (Cs Lru × List Event) := do
  let cs ← insertToQueue i true isAgent cs
  evictEntries erasedIsEnd cs

end Evict

def doAfterRefresh (i : EntryRef) (isAgent : Bool) (_now : ℕ) (cs : Cs Lru) :
    Except Fault (Cs Lru) :=
  insertToQueue i false isAgent cs

def doBeforeErase (i : EntryRef) (cs : Cs Lru) : Except Fault (Cs Lru) :=
  .ok { cs with policy :=
    ⟨cs.policy.queue.erase i, Function.update cs.policy.entryInfoMap i none⟩ }

/-- `doBeforeUse`. A lookup never marks an entry as an agent's. -/
def doBeforeUse (i : EntryRef) (cs : Cs Lru) : Except Fault (Cs Lru) :=
  insertToQueue i false false cs

end Lru

open Lru in
/-- `LruPolicy`, which schedules nothing. -/
def lru (erasedIsEnd : Cs Lru → Option Bool) : Policy Lru Empty Lru.Event where
  evictEntries := evictEntries erasedIsEnd
  doAfterInsert := doAfterInsert erasedIsEnd
  doAfterRefresh := doAfterRefresh
  doBeforeErase := doBeforeErase
  doBeforeUse := doBeforeUse
  onEvent := fun e => nomatch e

end Ns3Joined.ContentStore
