import Mathlib.Data.UInt
import Ns3Joined.Core.Scheduler
import Ns3Joined.Library.TracedRun

/-!
# The default simulator

`DefaultSimulatorImpl` (`core/model/default-simulator-impl.cc`): a clock, a counter for the
uids and a scheduler that holds the events to come. Its functions are called from outside and
by the events it runs, in any order, so a run is a list of calls; `runNext` is a turn of the
loop of `Run` up to the point where the event is invoked, and the calls after it are those the
event makes.

An `EventImpl` is known by its address, 0 is the null pointer, and an address is not used
again. With each call goes what happened in it (`Action`). `m_eventsWithContextEmpty` says
whether the list of these events is empty, and the number of events run is only reported, so
the model has neither.
-/

namespace Ns3Joined.Core

structure EventId where
  impl : ℕ
  ts : UInt64
  context : UInt32
  uid : UInt32
deriving DecidableEq, Repr

/-- The id that the simulator gives out for an event. -/
def Event.id (ev : Event) : EventId := ⟨ev.impl, ev.key.ts, ev.key.context, ev.key.uid⟩

/-- An event that another thread scheduled. -/
structure EventWithContext where
  context : UInt32
  timestamp : UInt64
  event : ℕ
deriving DecidableEq, Repr

/-- The state. `cancelled` is `m_cancel` of each `EventImpl`. -/
structure DefaultSimulatorImpl where
  events : (S : SchedulerClass) × S.State
  eventsWithContext : List EventWithContext
  destroyEvents : List EventId
  uid : UInt32
  currentUid : UInt32
  currentTs : UInt64
  currentContext : UInt32
  unscheduledEvents : ℤ
  cancelled : ℕ → Bool

/-- What happens in a call: an event is scheduled under an id, is executed, by `Run` or by
`Destroy`, or is cancelled or removed by its id. -/
inductive Action
  | scheduled (id : EventId)
  | executed (id : EventId)
  | destroyed (id : EventId)
  | revoked (id : EventId)
deriving DecidableEq, Repr

namespace DefaultSimulatorImpl

/-- `DefaultSimulatorImpl ()` with its first scheduler. -/
def create (S : SchedulerClass) : DefaultSimulatorImpl :=
  ⟨⟨S, S.create⟩, [], [], 4, 0, 0, 0xffffffff, 0, fun _ => false⟩

def callScheduler (s : DefaultSimulatorImpl) (call : SchedulerCall) :
    Except Fault (DefaultSimulatorImpl × Option Event) :=
  match s.events.1.step s.events.2 call with
  | .error e => .error e
  | .ok (scheduler, answer) => .ok ({ s with events := ⟨s.events.1, scheduler⟩ }, answer)

/-- What the functions that schedule have in common. -/
def insert (s : DefaultSimulatorImpl) (impl : ℕ) (ts : UInt64) (context : UInt32) :
    Except Fault (DefaultSimulatorImpl × List Action) := do
  let ev : Event := ⟨impl, ⟨ts, s.uid, context⟩⟩
  let s := { s with uid := s.uid + 1, unscheduledEvents := s.unscheduledEvents + 1 }
  let (s, _) ← s.callScheduler (.insert ev)
  return (s, [.scheduled ev.id])

/-- `delay + TimeStep (m_currentTs)`, in signed numbers of 64 bits. -/
def tAbsolute (s : DefaultSimulatorImpl) (delay : Int64) : Except Fault UInt64 :=
  let t := delay.toInt + s.currentTs.toInt64.toInt
  if -2 ^ 63 ≤ t ∧ t < 2 ^ 63 then .ok (UInt64.ofInt t) else .error .undefined

def Schedule (s : DefaultSimulatorImpl) (delay : Int64) (event : ℕ) :
    Except Fault (DefaultSimulatorImpl × List Action) :=
  if delay < 0 then .error .abort
  else
    match s.tAbsolute delay with
    | .error e => .error e
    | .ok ts => s.insert event ts s.currentContext

/-- `ScheduleWithContext` in the main thread. -/
def ScheduleWithContext (s : DefaultSimulatorImpl) (context : UInt32) (delay : Int64) (event : ℕ) :
    Except Fault (DefaultSimulatorImpl × List Action) :=
  match s.tAbsolute delay with
  | .error e => .error e
  | .ok ts => s.insert event ts context

/-- `ScheduleWithContext` in another thread. -/
def ScheduleFromThread (s : DefaultSimulatorImpl) (context : UInt32) (delay : Int64) (event : ℕ) :
    DefaultSimulatorImpl :=
  { s with eventsWithContext := s.eventsWithContext ++ [⟨context, delay.toUInt64, event⟩] }

def ScheduleNow (s : DefaultSimulatorImpl) (event : ℕ) :
    Except Fault (DefaultSimulatorImpl × List Action) :=
  s.insert event s.currentTs s.currentContext

def destroyId (s : DefaultSimulatorImpl) (event : ℕ) : EventId :=
  ⟨event, s.currentTs, 0xffffffff, 2⟩

def ScheduleDestroy (s : DefaultSimulatorImpl) (event : ℕ) : DefaultSimulatorImpl × List Action :=
  let id := s.destroyId event
  ({ s with destroyEvents := s.destroyEvents ++ [id], uid := s.uid + 1 }, [.scheduled id])

/-- The loop of `ProcessEventsWithContext`. -/
def insertAll : DefaultSimulatorImpl → List EventWithContext →
    Except Fault (DefaultSimulatorImpl × List Action)
  | s, [] => .ok (s, [])
  | s, event :: events => do
    let (s, actions) ← s.insert event.event (s.currentTs + event.timestamp) event.context
    let (s, actions') ← insertAll s events
    return (s, actions ++ actions')

def ProcessEventsWithContext (s : DefaultSimulatorImpl) :
    Except Fault (DefaultSimulatorImpl × List Action) :=
  insertAll { s with eventsWithContext := [] } s.eventsWithContext

def IsExpired (s : DefaultSimulatorImpl) (id : EventId) : Bool :=
  if id.uid = 2 then
    id.impl = 0 || s.cancelled id.impl || !s.destroyEvents.contains id
  else
    id.impl = 0 || id.ts < s.currentTs || (id.ts = s.currentTs && id.uid ≤ s.currentUid) ||
      s.cancelled id.impl

/-- `EventImpl::Cancel`. -/
def cancelImpl (s : DefaultSimulatorImpl) (impl : ℕ) : DefaultSimulatorImpl :=
  { s with cancelled := Function.update s.cancelled impl true }

def Cancel (s : DefaultSimulatorImpl) (id : EventId) : DefaultSimulatorImpl × List Action :=
  (if s.IsExpired id then s else s.cancelImpl id.impl, [.revoked id])

def Remove (s : DefaultSimulatorImpl) (id : EventId) :
    Except Fault (DefaultSimulatorImpl × List Action) :=
  if id.uid = 2 then
    .ok ({ s with destroyEvents := s.destroyEvents.erase id }, [.revoked id])
  else if s.IsExpired id then .ok (s, [.revoked id])
  else do
    let (s, _) ← s.callScheduler (.remove ⟨id.impl, ⟨id.ts, id.uid, id.context⟩⟩)
    let s := s.cancelImpl id.impl
    return ({ s with unscheduledEvents := s.unscheduledEvents - 1 }, [.revoked id])

/-- The loop of `SetScheduler`. Its turns are as many as there are events. -/
def moveEvents {S T : SchedulerClass} : ℕ → S.State → T.State → Except Fault T.State
  | 0, _, _ => .error .diverges
  | fuel + 1, events, scheduler =>
    if S.IsEmpty events then .ok scheduler
    else do
      match ← S.step events .removeNext with
      | (_, none) => throw .undefined
      | (events, some next) =>
        let (scheduler, _) ← T.step scheduler (.insert next)
        moveEvents fuel events scheduler

def SetScheduler (s : DefaultSimulatorImpl) (T : SchedulerClass) :
    Except Fault DefaultSimulatorImpl :=
  match moveEvents (s.unscheduledEvents.toNat + 1) s.events.2 T.create with
  | .error e => .error e
  | .ok scheduler => .ok { s with events := ⟨T, scheduler⟩ }

/-- `ProcessOneEvent` up to `Invoke`, which does nothing for a cancelled event. -/
def ProcessOneEvent (s : DefaultSimulatorImpl) :
    Except Fault (DefaultSimulatorImpl × List Action) := do
  match ← s.callScheduler .removeNext with
  | (_, none) => throw .undefined
  | (s, some next) =>
    if next.key.ts < s.currentTs then throw .abort
    let s :=
      { s with
        unscheduledEvents := s.unscheduledEvents - 1
        currentTs := next.key.ts
        currentContext := next.key.context
        currentUid := next.key.uid }
    return (s, if s.cancelled next.impl then [] else [.executed next.id])

/-- A turn of the loop of `Run`. -/
def runNext (s : DefaultSimulatorImpl) : Except Fault (DefaultSimulatorImpl × List Action) :=
  if s.events.1.IsEmpty s.events.2 then .ok (s, []) else s.ProcessOneEvent

/-- A turn of the loop of `Destroy`. -/
def destroyNext (s : DefaultSimulatorImpl) : DefaultSimulatorImpl × List Action :=
  match s.destroyEvents with
  | [] => (s, [])
  | id :: rest =>
    ({ s with destroyEvents := rest }, if s.cancelled id.impl then [] else [.destroyed id])

/-! ### Calls -/

inductive Call
  | schedule (delay : Int64) (event : ℕ)
  | scheduleNow (event : ℕ)
  | scheduleWithContext (context : UInt32) (delay : Int64) (event : ℕ)
  | scheduleFromThread (context : UInt32) (delay : Int64) (event : ℕ)
  | scheduleDestroy (event : ℕ)
  | cancel (id : EventId)
  | remove (id : EventId)
  | setScheduler (T : SchedulerClass)
  | runNext
  | processEventsWithContext
  | destroyNext

def step (s : DefaultSimulatorImpl) : Call → Except Fault (DefaultSimulatorImpl × List Action)
  | .schedule delay event => s.Schedule delay event
  | .scheduleNow event => s.ScheduleNow event
  | .scheduleWithContext context delay event => s.ScheduleWithContext context delay event
  | .scheduleFromThread context delay event => .ok (s.ScheduleFromThread context delay event, [])
  | .scheduleDestroy event => .ok (s.ScheduleDestroy event)
  | .cancel id => .ok (s.Cancel id)
  | .remove id => s.Remove id
  | .setScheduler T => (s.SetScheduler T).map (·, [])
  | .runNext => s.runNext
  | .processEventsWithContext => s.ProcessEventsWithContext
  | .destroyNext => .ok s.destroyNext

end DefaultSimulatorImpl
end Ns3Joined.Core
