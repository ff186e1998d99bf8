import Ns3Joined.Library.TracedRun
import Ns3Joined.Mpi.DistributedSimulator

/-!
# The simulator with null messages

The ranks of a parallel simulation, each with a `NullMessageSimulatorImpl`
(`null-message-simulator-impl.cc`), its `RemoteChannelBundle`s (`remote-channel-bundle.cc`), one
for each rank that it has channels to, and the messages of `NullMessageMpiInterface`
(`null-message-mpi-interface.cc`) on their way, which arrive in the order in which they were sent.

With every message a rank promises a time before which no other will come on that bundle
(`CalculateGuaranteeTime`), and a null message is nothing but a promise. A rank executes events up
to the least time that it has been promised.

The tuning of null messages is a product of doubles, and here any function of the delay.
-/

namespace Ns3Joined.Mpi.NullMessage

open Function

/-- What an event does: it runs a handler, or sends a null message on the bundle to a rank, or
stops the simulation, or nothing, since it was cancelled. -/
inductive Kind (n : ℕ)
  | handler
  | nullMessage (systemId : Fin (n + 1))
  | stop
  | cancelled
deriving DecidableEq

structure Event (n : ℕ) where
  ts : ℕ
  uid : ℕ
  kind : Kind n
deriving DecidableEq

/-- A message: a receive time of 0 makes it a null message. -/
structure Message where
  rxTime : ℕ
  guaranteeUpdate : ℕ
deriving DecidableEq

structure RemoteChannelBundle where
  m_delay : ℕ
  m_guaranteeTime : ℕ
  m_nullEventId : ℕ
deriving DecidableEq

/-- A `NullMessageSimulatorImpl`, with the bundles that its `RemoteChannelBundleManager` has by the
system ids of the other ranks. -/
structure NullMessageSimulatorImpl (n : ℕ) where
  m_events : List (Event n)
  m_uid : ℕ
  m_currentTs : ℕ
  m_stop : Bool
  m_safeTime : ℕ
  bundles : Fin (n + 1) → Option RemoteChannelBundle

variable {n : ℕ}

namespace NullMessageSimulatorImpl

def IsFinished (r : NullMessageSimulatorImpl n) : Bool := r.m_events.isEmpty || r.m_stop

def Next (r : NullMessageSimulatorImpl n) : Except Fault ℕ :=
  match r.m_events with
  | [] => .error .abort
  | ev :: _ => .ok ev.ts

/-- `Schedule`, for a time that is not relative. -/
def Schedule (r : NullMessageSimulatorImpl n) (ts : ℕ) (kind : Kind n) :
    NullMessageSimulatorImpl n :=
  { r with m_events := Agenda.add Event.ts ⟨ts, r.m_uid, kind⟩ r.m_events, m_uid := r.m_uid + 1 }

/-- `Cancel`: the event stays where it is. -/
def Cancel (r : NullMessageSimulatorImpl n) (uid : ℕ) : NullMessageSimulatorImpl n :=
  { r with
    m_events := r.m_events.map fun ev =>
      if ev.uid = uid then { ev with kind := .cancelled } else ev }

/-- `Remove`, which leaves a cancelled event where it is. -/
def Remove (r : NullMessageSimulatorImpl n) (uid : ℕ) : NullMessageSimulatorImpl n :=
  { r with m_events := r.m_events.filter fun ev => ev.uid != uid || ev.kind == .cancelled }

def setBundle (r : NullMessageSimulatorImpl n) (j : Fin (n + 1)) (b : RemoteChannelBundle) :
    NullMessageSimulatorImpl n :=
  { r with bundles := update r.bundles j (some b) }

def ScheduleNullMessageEvent (tuned : ℕ → ℕ) (r : NullMessageSimulatorImpl n) (j : Fin (n + 1))
    (b : RemoteChannelBundle) : NullMessageSimulatorImpl n :=
  (r.Schedule (r.m_currentTs + tuned b.m_delay) (.nullMessage j)).setBundle j
    { b with m_nullEventId := r.m_uid }

def RescheduleNullMessageEvent (tuned : ℕ → ℕ) (r : NullMessageSimulatorImpl n) (j : Fin (n + 1))
    (b : RemoteChannelBundle) : NullMessageSimulatorImpl n :=
  (r.Cancel b.m_nullEventId).ScheduleNullMessageEvent tuned j b

def CalculateGuaranteeTime (r : NullMessageSimulatorImpl n) (b : RemoteChannelBundle) :
    Except Fault ℕ := do
  let next ← r.Next
  .ok (min next r.m_safeTime + b.m_delay)

/-- `RemoteChannelBundleManager::GetSafeTime`. -/
def GetSafeTime (r : NullMessageSimulatorImpl n) : ℕ :=
  (List.finRange (n + 1)).foldl (fun safeTime j =>
    match r.bundles j with
    | none => safeTime
    | some b => min safeTime b.m_guaranteeTime) maximumSimulationTime

end NullMessageSimulatorImpl

/-- The ranks, their channels, the tuning, and what is on its way from one to another. -/
structure System (n : ℕ) where
  channels : List (Channel n)
  tuned : ℕ → ℕ
  ranks : Fin (n + 1) → NullMessageSimulatorImpl n
  wires : Fin (n + 1) → Fin (n + 1) → List Message

/-- What happens: a rank executes an event, receives a packet, or sends a message with a
guarantee, where a receive time of 0 is that of a null message. -/
inductive Action (n : ℕ)
  | executed (i : Fin (n + 1)) (currentTs ts : ℕ)
  | received (i : Fin (n + 1)) (currentTs rxTime : ℕ)
  | sent (i j : Fin (n + 1)) (message : Message)
deriving DecidableEq

/-- What an event handler asks for. -/
inductive Request (n : ℕ)
  | schedule (ts : ℕ)
  | cancel (uid : ℕ)
  | remove (uid : ℕ)
  | sendPacket (channel : Channel n) (txTime : ℕ)
  | stop
deriving DecidableEq

namespace System

def setRank (s : System n) (i : Fin (n + 1)) (r : NullMessageSimulatorImpl n) : System n :=
  { s with ranks := update s.ranks i r }

def setWire (s : System n) (i j : Fin (n + 1)) (messages : List Message) : System n :=
  { s with wires := update s.wires i (update (s.wires i) j messages) }

/-- A message is sent. -/
def send (s : System n) (i j : Fin (n + 1)) (message : Message) : System n :=
  s.setWire i j (s.wires i j ++ [message])

/-- `SendPacket`, for a packet that takes `txTime` to be transmitted. -/
def SendPacket (s : System n) (i : Fin (n + 1)) (channel : Channel n) (txTime : ℕ) :
    Except Fault (System n × List (Action n)) :=
  let j := channel.otherEnd i
  match (s.ranks i).bundles j with
  | none => .error .abort
  | some b => do
    let guarantee ← (s.ranks i).CalculateGuaranteeTime b
    let message := ⟨(s.ranks i).m_currentTs + txTime + channel.delay, guarantee⟩
    .ok ((s.send i j message).setRank i ((s.ranks i).RescheduleNullMessageEvent s.tuned j b),
      [.sent i j message])

def NullMessageEventHandler (s : System n) (i j : Fin (n + 1)) :
    Except Fault (System n × List (Action n)) :=
  match (s.ranks i).bundles j with
  | none => .error .abort
  | some b => do
    let time ← (s.ranks i).CalculateGuaranteeTime b
    .ok ((s.send i j ⟨0, time⟩).setRank i ((s.ranks i).ScheduleNullMessageEvent s.tuned j b),
      [.sent i j ⟨0, time⟩])

/-- One request of a handler that rank `i` runs. -/
def serve (i : Fin (n + 1)) (s : System n) :
    Request n → Except Fault (System n × List (Action n))
  | .schedule ts => .ok (s.setRank i ((s.ranks i).Schedule ts .handler), [])
  | .cancel uid => .ok (s.setRank i ((s.ranks i).Cancel uid), [])
  | .remove uid => .ok (s.setRank i ((s.ranks i).Remove uid), [])
  | .sendPacket channel txTime => s.SendPacket i channel txTime
  | .stop => .ok (s.setRank i { s.ranks i with m_stop := true }, [])

/-- `Invoke`, for an event that has been taken out of the queue. -/
def invoke (s : System n) (i : Fin (n + 1)) (handler : List (Request n)) :
    Kind n → Except Fault (System n × List (Action n))
  | .handler => TracedRun.run (serve i) s handler
  | .nullMessage j => s.NullMessageEventHandler i j
  | .stop => .ok (s.setRank i { s.ranks i with m_stop := true }, [])
  | .cancelled => .ok (s, [])

/-- The next event is taken out of the queue, and it is its time. -/
def begin (s : System n) (i : Fin (n + 1)) (next : Event n) (rest : List (Event n)) : System n :=
  s.setRank i { s.ranks i with m_events := rest, m_currentTs := next.ts }

def ProcessOneEvent (s : System n) (i : Fin (n + 1)) (handler : List (Request n)) :
    Except Fault (System n × List (Action n)) :=
  match (s.ranks i).m_events with
  | [] => .error .undefined
  | next :: rest =>
    if next.ts < (s.ranks i).m_currentTs then .error .abort
    else
      ((s.begin i next rest).invoke i handler next.kind).map fun r =>
        (r.1, .executed i (s.ranks i).m_currentTs next.ts :: r.2)

/-- The body of the loop of `ReceiveMessages`, for a message from rank `source`. -/
def receive (i : Fin (n + 1)) (s : System n) (source : Fin (n + 1)) :
    Except Fault (System n × List (Action n)) :=
  let r := s.ranks i
  match s.wires source i, r.bundles source with
  | [], _ => .error .undefined
  | _ :: _, none => .error .abort
  | message :: messages, some b =>
    if message.guaranteeUpdate < r.m_currentTs then .error .abort
    else if message.rxTime = 0 then
      .ok ((s.setWire source i messages).setRank i
        (r.setBundle source { b with m_guaranteeTime := message.guaranteeUpdate }), [])
    else if message.rxTime < r.m_currentTs then .error .abort
    else
      .ok ((s.setWire source i messages).setRank i
        ((r.Schedule message.rxTime .handler).setBundle source
          { b with m_guaranteeTime := message.guaranteeUpdate }),
        [.received i r.m_currentTs message.rxTime])

def CalculateSafeTime (s : System n) (i : Fin (n + 1)) : Except Fault (System n) :=
  if (s.ranks i).GetSafeTime < (s.ranks i).m_currentTs then .error .abort
  else .ok (s.setRank i { s.ranks i with m_safeTime := (s.ranks i).GetSafeTime })

/-- Messages are received from some ranks, in that order. -/
def HandleArrivingMessages (s : System n) (i : Fin (n + 1)) (sources : List (Fin (n + 1))) :
    Except Fault (System n × List (Action n)) := do
  let r ← TracedRun.run (receive i) s sources
  let s ← r.1.CalculateSafeTime i
  .ok (s, r.2)

/-- A rank's turn of the loop of `Run`: what the handler of the event asks for, if one is executed,
and the ranks from which messages are received, in that order. -/
structure Turn (n : ℕ) where
  rank : Fin (n + 1)
  handler : List (Request n)
  sources : List (Fin (n + 1))
deriving DecidableEq

/-- The body of the loop of `Run`. -/
def step (s : System n) (turn : Turn n) : Except Fault (System n × List (Action n)) :=
  let i := turn.rank
  if (s.ranks i).IsFinished then .error .undefined
  else do
    let nextTime ← (s.ranks i).Next
    if nextTime ≤ (s.ranks i).m_safeTime then do
      let r ← s.ProcessOneEvent i turn.handler
      let r' ← r.1.HandleArrivingMessages i turn.sources
      .ok (r'.1, r.2 ++ r'.2)
    else s.HandleArrivingMessages i turn.sources

/-! ### The beginning -/

/-- The channel is between the two ranks. -/
def joins (i j : Fin (n + 1)) (ch : Channel n) : Bool := ch.IsRemoteAt i && ch.otherEnd i == j

/-- The delay of the bundle, by `AddChannel`, if there is a channel. -/
def bundleDelay (channels : List (Channel n)) (i j : Fin (n + 1)) : Option ℕ :=
  (channels.filter (joins i j)).foldl (fun delay ch =>
    some (min (delay.getD maximumSimulationTime) ch.delay)) none

/-- The body of the loop of `InitializeNullMessageEvents`, after the null message was sent. -/
def initializeNullMessageEvent (tuned : ℕ → ℕ) (r : NullMessageSimulatorImpl n)
    (j : Fin (n + 1)) : NullMessageSimulatorImpl n :=
  match r.bundles j with
  | none => r
  | some b => r.ScheduleNullMessageEvent tuned j b

/-- `InitializeNullMessageEvents` of a rank. -/
def initializeNullMessageEvents (tuned : ℕ → ℕ) (r : NullMessageSimulatorImpl n) :
    NullMessageSimulatorImpl n :=
  (List.finRange (n + 1)).foldl (initializeNullMessageEvent tuned) r

/-- A rank with the bundles of `CalculateLookAhead` and the events that were scheduled before
`Run`, the last of which stops it. -/
def calculateLookAhead (channels : List (Channel n)) (scheduled : List ℕ) (stop : ℕ)
    (i : Fin (n + 1)) : NullMessageSimulatorImpl n :=
  let idle : NullMessageSimulatorImpl n :=
    ⟨[], 4, 0, false, 0, fun j => (bundleDelay channels i j).map fun delay => ⟨delay, 0, 0⟩⟩
  (scheduled.foldl (fun r ts => r.Schedule ts .handler) idle).Schedule stop .stop

/-- `Run` begins: with every bundle a first null message is on its way. -/
def run (channels : List (Channel n)) (tuned : ℕ → ℕ) (scheduled : Fin (n + 1) → List ℕ)
    (stop : Fin (n + 1) → ℕ) : System n where
  channels := channels
  tuned := tuned
  ranks := fun i =>
    initializeNullMessageEvents tuned (calculateLookAhead channels (scheduled i) (stop i) i)
  wires := fun i j =>
    match bundleDelay channels i j with
    | none => []
    | some delay => [⟨0, delay⟩]

/-- Those first null messages. -/
def firstMessages (channels : List (Channel n)) : List (Action n) :=
  (List.finRange (n + 1)).flatMap fun i => (List.finRange (n + 1)).filterMap fun j =>
    (bundleDelay channels i j).map fun delay => .sent i j ⟨0, delay⟩

end System
end Ns3Joined.Mpi.NullMessage
