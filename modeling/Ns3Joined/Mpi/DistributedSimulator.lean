import Mathlib.Algebra.BigOperators.Fin
import Mathlib.Order.Lattice.Nat
import Ns3Joined.Fault
import Ns3Joined.Library.Agenda

/-!
# The simulator with granted time windows

The ranks of a parallel simulation, each with a `DistributedSimulatorImpl`
(`distributed-simulator-impl.cc`), and the packets that `GrantedTimeWindowMpiInterface`
(`granted-time-window-mpi-interface.cc`) has in flight between them. A rank executes events up to
its granted time, and then gives its counters and the time of its next event to `MPI_Allgather`,
in which it waits for all the others.

Only remote channels matter to other ranks. What an event does is not the simulator's, so that
every execution comes with what its handler asked for (`Request`). A packet may be received at any
of the calls of `ReceiveMessages` after it was sent. With each call goes what happened in it
(`Action`).
-/

namespace Ns3Joined.Mpi

/-- `GetMaximumSimulationTime`. -/
def maximumSimulationTime : ℕ := 0x7fffffffffffffff

/-- A `Time` that is not negative. -/
abbrev SimTime := { t : ℕ // t ≤ maximumSimulationTime }

/-- A point-to-point channel between nodes of two ranks, or of one. -/
structure Channel (n : ℕ) where
  left : Fin (n + 1)
  right : Fin (n + 1)
  delay : ℕ
deriving DecidableEq

namespace Channel

variable {n : ℕ}

/-- The rank is at one end, and another at the other. -/
def IsRemoteAt (ch : Channel n) (i : Fin (n + 1)) : Bool :=
  ch.left != ch.right && (ch.left == i || ch.right == i)

/-- The rank at the other end. -/
def otherEnd (ch : Channel n) (i : Fin (n + 1)) : Fin (n + 1) :=
  if ch.left = i then ch.right else ch.left

end Channel

/-- An event that is scheduled. -/
structure Event where
  ts : ℕ
  uid : ℕ
deriving DecidableEq

/-- A packet in flight. -/
structure Packet (n : ℕ) where
  channel : Channel n
  destination : Fin (n + 1)
  rxTime : ℕ
deriving DecidableEq

structure LbtsMessage where
  m_rxCount : ℕ
  m_txCount : ℕ
  m_isFinished : Bool
  m_smallestTime : ℕ
deriving DecidableEq

/-- A `DistributedSimulatorImpl` with the counters of its `GrantedTimeWindowMpiInterface`, which
have 32 bits, and what it has given to `MPI_Allgather`, while it waits there. -/
structure DistributedSimulatorImpl where
  m_events : List Event
  m_uid : ℕ
  m_currentTs : ℕ
  m_stop : Bool
  m_globalFinished : Bool
  m_lookAhead : ℕ
  m_grantedTime : ℤ
  m_rxCount : ℕ
  m_txCount : ℕ
  gathered : Option LbtsMessage
deriving DecidableEq

namespace DistributedSimulatorImpl

def IsLocalFinished (r : DistributedSimulatorImpl) : Bool := r.m_events.isEmpty || r.m_stop

/-- `NextTs`. -/
def Next (r : DistributedSimulatorImpl) : ℕ :=
  if r.m_stop then maximumSimulationTime
  else
    match r.m_events with
    | [] => maximumSimulationTime
    | ev :: _ => ev.ts

/-- `Schedule` and `ScheduleWithContext`, for a time that is not relative. -/
def Schedule (r : DistributedSimulatorImpl) (ts : ℕ) : DistributedSimulatorImpl :=
  { r with m_events := Agenda.add Event.ts ⟨ts, r.m_uid⟩ r.m_events, m_uid := r.m_uid + 1 }

def Remove (r : DistributedSimulatorImpl) (uid : ℕ) : DistributedSimulatorImpl :=
  { r with m_events := r.m_events.filter fun ev => ev.uid != uid }

/-- The message that a rank gives to `MPI_Allgather`. -/
def message (r : DistributedSimulatorImpl) : LbtsMessage :=
  ⟨r.m_rxCount, r.m_txCount, r.IsLocalFinished, r.Next⟩

/-- The loop of `Run` executes an event. -/
def MayProcess (r : DistributedSimulatorImpl) : Bool :=
  !r.m_globalFinished && r.gathered.isNone && !r.IsLocalFinished &&
    decide ((r.Next : ℤ) ≤ r.m_grantedTime)

/-- The loop of `Run` comes to the calculation of a new window. -/
def MaySynchronize (r : DistributedSimulatorImpl) : Bool :=
  !r.m_globalFinished && r.gathered.isNone &&
    (r.IsLocalFinished || decide (r.m_grantedTime < (r.Next : ℤ)))

end DistributedSimulatorImpl

variable {n : ℕ}

/-! ### The lookahead -/

/-- What a rank finds on its own: the least delay of its remote channels. -/
def ownLookAhead (channels : List (Channel n)) (lookAhead : ℕ) (i : Fin (n + 1)) : ℕ :=
  channels.foldl (fun lookAhead ch =>
    if ch.IsRemoteAt i && decide (ch.delay < lookAhead) then ch.delay else lookAhead) lookAhead

/-- `CalculateLookAhead`, where `lookAhead` has what `SetMaximumLookAhead` was called with. -/
def CalculateLookAhead (channels : List (Channel n)) (lookAhead : Fin (n + 1) → Option SimTime)
    (i : Fin (n + 1)) : ℕ :=
  if n = 0 then 0
  else
    let own := fun i =>
      ownLookAhead channels (((lookAhead i).map Subtype.val).getD maximumSimulationTime) i
    let recvbuf := Finset.univ.sup fun i => if own i = maximumSimulationTime then 0 else own i
    if own i = maximumSimulationTime ∧ recvbuf ≠ 0 then recvbuf else own i

/-! ### The ranks together -/

/-- The ranks, the packets in flight, and the channels. -/
structure System (n : ℕ) where
  channels : List (Channel n)
  ranks : Fin (n + 1) → DistributedSimulatorImpl
  inFlight : List (Packet n)

/-- What happens: a rank executes an event, or receives a packet, at its current time. -/
inductive Action (n : ℕ)
  | executed (i : Fin (n + 1)) (currentTs ts : ℕ)
  | received (i : Fin (n + 1)) (currentTs : ℕ) (p : Packet n)
deriving DecidableEq

/-- What an event handler asks for. -/
inductive Request (n : ℕ)
  | schedule (ts : ℕ)
  | remove (uid : ℕ)
  | sendPacket (channel : Channel n) (txTime : ℕ)
  | stop
deriving DecidableEq

namespace System

def setRank (s : System n) (i : Fin (n + 1)) (r : DistributedSimulatorImpl) : System n :=
  { s with ranks := Function.update s.ranks i r }

/-- `SendPacket`, for a packet that takes `txTime` to be transmitted. -/
def SendPacket (s : System n) (i : Fin (n + 1)) (channel : Channel n) (txTime : ℕ) : System n :=
  { s.setRank i { s.ranks i with m_txCount := ((s.ranks i).m_txCount + 1) % 2 ^ 32 } with
    inFlight := s.inFlight ++
      [⟨channel, channel.otherEnd i, (s.ranks i).m_currentTs + txTime + channel.delay⟩] }

/-- One request of a handler that rank `i` runs. -/
def serve (i : Fin (n + 1)) (s : System n) : Request n → System n
  | .schedule ts => s.setRank i ((s.ranks i).Schedule ts)
  | .remove uid => s.setRank i ((s.ranks i).Remove uid)
  | .sendPacket channel txTime => s.SendPacket i channel txTime
  | .stop => s.setRank i { s.ranks i with m_stop := true }

def ProcessOneEvent (s : System n) (i : Fin (n + 1)) (handler : List (Request n)) :
    Except Fault (System n × List (Action n)) :=
  match (s.ranks i).m_events with
  | [] => .error .undefined
  | next :: rest =>
    if next.ts < (s.ranks i).m_currentTs then .error .abort
    else
      .ok (handler.foldl (serve i)
        (s.setRank i { s.ranks i with m_events := rest, m_currentTs := next.ts }),
        [.executed i (s.ranks i).m_currentTs next.ts])

/-- The body of the loop of `ReceiveMessages`. -/
def receive (s : System n) (i : Fin (n + 1)) (p : Packet n) : System n :=
  { s.setRank i ({ s.ranks i with
      m_rxCount := ((s.ranks i).m_rxCount + 1) % 2 ^ 32 }.Schedule p.rxTime) with
    inFlight := s.inFlight.erase p }

/-- A rank receives what has arrived, and gives its message to `MPI_Allgather`. -/
def synchronize (s : System n) (i : Fin (n + 1)) (arrived : List (Packet n)) :
    System n × List (Action n) :=
  let s := arrived.foldl (fun s p => s.receive i p) s
  (s.setRank i { s.ranks i with gathered := some (s.ranks i).message },
    arrived.map fun p => .received i (s.ranks i).m_currentTs p)

end System

/-- A signed number of 64 bits. -/
def toInt64 (x : ℤ) : ℤ := (x + 2 ^ 63) % 2 ^ 64 - 2 ^ 63

/-- The least of the times that were gathered. -/
def smallestTime (messages : Fin (n + 1) → LbtsMessage) : ℕ :=
  (List.finRange (n + 1)).foldl (fun smallestTime i =>
    if (messages i).m_smallestTime < smallestTime then (messages i).m_smallestTime
    else smallestTime) (messages 0).m_smallestTime

def totRx (messages : Fin (n + 1) → LbtsMessage) : ℕ := (∑ i, (messages i).m_rxCount) % 2 ^ 32

def totTx (messages : Fin (n + 1) → LbtsMessage) : ℕ := (∑ i, (messages i).m_txCount) % 2 ^ 32

/-- What a rank makes of what was gathered. -/
def DistributedSimulatorImpl.leave (messages : Fin (n + 1) → LbtsMessage)
    (r : DistributedSimulatorImpl) : DistributedSimulatorImpl :=
  { r with
    m_globalFinished := decide (∀ i, (messages i).m_isFinished = true)
    m_grantedTime :=
      if totRx messages = totTx messages then
        if r.m_lookAhead = maximumSimulationTime then maximumSimulationTime
        else toInt64 (smallestTime messages + r.m_lookAhead)
      else r.m_grantedTime
    gathered := none }

namespace System

/-- The messages, when all have given theirs. -/
def messages? (s : System n) : Option (Fin (n + 1) → LbtsMessage) :=
  if ∀ i, (s.ranks i).gathered.isSome = true then
    some fun i => (s.ranks i).gathered.getD (s.ranks i).message
  else none

/-- What can happen to the simulation. -/
inductive Call (n : ℕ)
  | processOneEvent (i : Fin (n + 1)) (handler : List (Request n))
  | synchronize (i : Fin (n + 1)) (arrived : List (Packet n))
  | allgather
deriving DecidableEq

/-- One call; none that cannot be made returns. -/
def step (s : System n) : Call n → Except Fault (System n × List (Action n))
  | .processOneEvent i handler =>
    if (s.ranks i).MayProcess then s.ProcessOneEvent i handler else .error .undefined
  | .synchronize i arrived =>
    if (s.ranks i).MaySynchronize then .ok (s.synchronize i arrived) else .error .undefined
  | .allgather =>
    match s.messages? with
    | none => .error .undefined
    | some messages => .ok ({ s with ranks := fun i => (s.ranks i).leave messages }, [])

/-- `Run` begins: `CalculateLookAhead`, with events that were scheduled before. -/
def run (channels : List (Channel n)) (lookAhead : Fin (n + 1) → Option SimTime)
    (scheduled : Fin (n + 1) → List ℕ) : System n where
  channels := channels
  ranks := fun i =>
    (scheduled i).foldl DistributedSimulatorImpl.Schedule
      ⟨[], 4, 0, false, false, CalculateLookAhead channels lookAhead i,
        CalculateLookAhead channels lookAhead i, 0, 0, none⟩
  inFlight := []

end System
end Ns3Joined.Mpi
