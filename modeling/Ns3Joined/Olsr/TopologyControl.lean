import Ns3Joined.Olsr.NeighborSensing

/-!
# The topology set of an OLSR node

`ProcessTc` and `TopologyTupleTimerExpire` of `olsr-routing-protocol.cc`, with the operations on the
topology set of `olsr-state.cc`: what a node knows of the links that other nodes advertise. TC
messages are taken from symmetric neighbors only, which the HELLO and MID messages make; these are
those of `NeighborSensing`.

How fresh a message is, is decided by its ANSN and by the numbers of the tuples in the set.
-/

namespace Ns3Joined.Olsr.TopologyControl

/-! ### The topology set -/

structure TopologyTuple where
  destAddr : Ipv4Address
  lastAddr : Ipv4Address
  sequenceNumber : UInt16
  expirationTime : ℤ
deriving DecidableEq, Repr

/-- What `FindTopologyTuple` looks for. -/
def TopologyTuple.link (tuple : TopologyTuple) : Ipv4Address × Ipv4Address :=
  (tuple.destAddr, tuple.lastAddr)

abbrev TopologySet := List TopologyTuple

def FindTopologyTuple (m_topologySet : TopologySet) (destAddr lastAddr : Ipv4Address) :
    Option TopologyTuple :=
  KeyedTable.find TopologyTuple.link (destAddr, lastAddr) m_topologySet

def FindNewerTopologyTuple (m_topologySet : TopologySet) (lastAddr : Ipv4Address)
    (ansn : UInt16) : Option TopologyTuple :=
  m_topologySet.find? fun tuple => tuple.lastAddr = lastAddr ∧ tuple.sequenceNumber > ansn

/-- `EraseTopologyTuple`, with the `==` of topology tuples. -/
def EraseTopologyTuple (m_topologySet : TopologySet) (tuple : TopologyTuple) : TopologySet :=
  m_topologySet.eraseP fun other => other.destAddr = tuple.destAddr ∧
    other.lastAddr = tuple.lastAddr ∧ other.sequenceNumber = tuple.sequenceNumber

def EraseOlderTopologyTuples (m_topologySet : TopologySet) (lastAddr : Ipv4Address)
    (ansn : UInt16) : TopologySet :=
  m_topologySet.filter fun tuple => ¬ (tuple.lastAddr = lastAddr ∧ tuple.sequenceNumber < ansn)

def InsertTopologyTuple (m_topologySet : TopologySet) (tuple : TopologyTuple) : TopologySet :=
  m_topologySet ++ [tuple]

/-! ### Messages -/

structure Tc where
  neighborAddresses : List Ipv4Address
  ansn : UInt16
deriving DecidableEq, Repr

/-- The fields of a `MessageHeader` that `ProcessTc` reads. `EmfToSeconds`, which the validity time
comes from, gives no negative times. -/
structure TcMessage where
  m_originatorAddress : Ipv4Address
  vTime : ℕ
  tc : Tc
deriving DecidableEq, Repr

/-! ### The protocol -/

/-- The timer of a topology tuple. -/
inductive Action
  | scheduleTopologyTuple (delay : ℤ) (destAddr lastAddr : Ipv4Address)
deriving DecidableEq, Repr

/-- A `RoutingProtocol`, with its topology set. -/
structure Node extends RoutingProtocol where
  m_topologySet : TopologySet
deriving DecidableEq, Repr

namespace Node

/-- Step 4 of `ProcessTc`, for one address. -/
def recordAddress (r : Node) (msg : TcMessage) (addr : Ipv4Address) : Node × List Action :=
  let expirationTime := r.now + msg.vTime
  match FindTopologyTuple r.m_topologySet addr msg.m_originatorAddress with
  | some _ =>
    ({ r with
      m_topologySet := KeyedTable.modify TopologyTuple.link (addr, msg.m_originatorAddress)
        (fun tuple => { tuple with expirationTime := expirationTime }) r.m_topologySet }, [])
  | none =>
    ({ r with
      m_topologySet := InsertTopologyTuple r.m_topologySet
        ⟨addr, msg.m_originatorAddress, msg.tc.ansn, expirationTime⟩ },
      [.scheduleTopologyTuple (r.DELAY expirationTime) addr msg.m_originatorAddress])

/-- Step 4 of `ProcessTc`. -/
def recordAddresses (msg : TcMessage) : Node → List Ipv4Address → Node × List Action
  | r, [] => (r, [])
  | r, addr :: addrs =>
    let recorded := r.recordAddress msg addr
    let rest := recordAddresses msg recorded.1 addrs
    (rest.1, recorded.2 ++ rest.2)

/-- The sender is in the symmetric neighborhood. -/
def hears (r : Node) (senderIface : Ipv4Address) : Bool :=
  (r.m_state.FindSymLinkTuple senderIface r.now).isSome

def ProcessTc (r : Node) (msg : TcMessage) (senderIface : Ipv4Address) : Node × List Action :=
  if r.hears senderIface = false then (r, [])
  else if (FindNewerTopologyTuple r.m_topologySet msg.m_originatorAddress msg.tc.ansn).isSome then
    (r, [])
  else
    recordAddresses msg
      { r with
        m_topologySet :=
          EraseOlderTopologyTuples r.m_topologySet msg.m_originatorAddress msg.tc.ansn }
      msg.tc.neighborAddresses

def TopologyTupleTimerExpire (r : Node) (destAddr lastAddr : Ipv4Address) : Node × List Action :=
  match FindTopologyTuple r.m_topologySet destAddr lastAddr with
  | none => (r, [])
  | some tuple =>
    if tuple.expirationTime < r.now then
      ({ r with m_topologySet := EraseTopologyTuple r.m_topologySet tuple }, [])
    else (r, [.scheduleTopologyTuple (r.DELAY tuple.expirationTime) destAddr lastAddr])

end Node

/-- What happens to a node: what `NeighborSensing` is about, a TC message comes, or the timer of a
topology tuple expires. `epoch` is not in the source: it is how often the originator had incremented
its ANSN when it sent the message. -/
inductive Event
  | sensing (event : RoutingProtocol.Event)
  | ProcessTc (epoch : ℕ) (msg : TcMessage) (senderIface : Ipv4Address)
  | TopologyTupleTimerExpire (destAddr lastAddr : Ipv4Address)

/-- An event, and the node that it came to. -/
structure Happened where
  event : Event
  found : Node

def handle (r : Node) : Event → Except Fault Node
  | .sensing event => do
    let sensed ← r.toRoutingProtocol.step event
    return { r with toRoutingProtocol := sensed.1 }
  | .ProcessTc _ msg senderIface => return (r.ProcessTc msg senderIface).1
  | .TopologyTupleTimerExpire destAddr lastAddr =>
    return (r.TopologyTupleTimerExpire destAddr lastAddr).1

/-- A step with its history. -/
def step (r : Node) (event : Event) : Except Fault (Node × List Happened) := do
  let r' ← handle r event
  return (r', [⟨event, r⟩])

end Ns3Joined.Olsr.TopologyControl
