import Mathlib.Order.Lattice
import Ns3Joined.Fault
import Ns3Joined.Library.KeyedTable

/-!
# Links and neighbors of an OLSR node

The link set, the neighbor set and the interface association set of `olsr-state.cc`, and what
`olsr-routing-protocol.cc` does to them when a HELLO or a MID message comes or the timer of a
link or of an association expires.

Times are in nanoseconds. The two-hop neighbors, the MPRs and the routing table are written from
these sets and never read for them; they are left out.
-/

namespace Ns3Joined.Olsr

abbrev Ipv4Address := UInt32

/-! ### The repositories -/

structure LinkTuple where
  localIfaceAddr : Ipv4Address
  neighborIfaceAddr : Ipv4Address
  symTime : ℤ
  asymTime : ℤ
  time : ℤ
deriving DecidableEq, Repr

inductive Status
  | STATUS_NOT_SYM
  | STATUS_SYM
deriving DecidableEq, Repr

/-- A `NeighborTuple`. `updated` is not in the source: it is the time at which `status` was
written last, which no function reads. -/
structure NeighborTuple where
  neighborMainAddr : Ipv4Address
  status : Status
  willingness : UInt8
  updated : ℤ
deriving DecidableEq, Repr

structure IfaceAssocTuple where
  ifaceAddr : Ipv4Address
  mainAddr : Ipv4Address
  time : ℤ
deriving DecidableEq, Repr

/-- The sets of an `OlsrState` that sensing is about. -/
structure OlsrState where
  m_linkSet : List LinkTuple
  m_neighborSet : List NeighborTuple
  m_ifaceAssocSet : List IfaceAssocTuple
deriving DecidableEq, Repr

namespace OlsrState

def FindNeighborTuple (s : OlsrState) (mainAddr : Ipv4Address) : Option NeighborTuple :=
  KeyedTable.find NeighborTuple.neighborMainAddr mainAddr s.m_neighborSet

/-- `EraseNeighborTuple`, by the main address. -/
def EraseNeighborTuple (s : OlsrState) (mainAddr : Ipv4Address) : OlsrState :=
  { s with
    m_neighborSet := KeyedTable.erase NeighborTuple.neighborMainAddr mainAddr s.m_neighborSet }

/-- `InsertNeighborTuple`: a tuple with the same main address is overwritten. -/
def InsertNeighborTuple (s : OlsrState) (tuple : NeighborTuple) : OlsrState :=
  { s with
    m_neighborSet := KeyedTable.insert NeighborTuple.neighborMainAddr tuple s.m_neighborSet }

/-- What is written through the pointer that `FindNeighborTuple` returns. -/
def modifyNeighbor (s : OlsrState) (mainAddr : Ipv4Address) (f : NeighborTuple → NeighborTuple) :
    OlsrState :=
  { s with
    m_neighborSet := KeyedTable.modify NeighborTuple.neighborMainAddr mainAddr f s.m_neighborSet }

def FindLinkTuple (s : OlsrState) (ifaceAddr : Ipv4Address) : Option LinkTuple :=
  KeyedTable.find LinkTuple.neighborIfaceAddr ifaceAddr s.m_linkSet

def FindSymLinkTuple (s : OlsrState) (ifaceAddr : Ipv4Address) (now : ℤ) : Option LinkTuple :=
  (s.FindLinkTuple ifaceAddr).filter fun link => now < link.symTime

/-- `EraseLinkTuple`, with the `==` of link tuples. -/
def EraseLinkTuple (s : OlsrState) (tuple : LinkTuple) : OlsrState :=
  { s with
    m_linkSet := s.m_linkSet.eraseP fun link =>
      link.localIfaceAddr == tuple.localIfaceAddr &&
        link.neighborIfaceAddr == tuple.neighborIfaceAddr }

/-- What is written through a pointer to a link tuple, which keeps its addresses. -/
def storeLink (s : OlsrState) (tuple : LinkTuple) : OlsrState :=
  { s with m_linkSet := KeyedTable.insert LinkTuple.neighborIfaceAddr tuple s.m_linkSet }

def InsertLinkTuple (s : OlsrState) (tuple : LinkTuple) : OlsrState :=
  { s with m_linkSet := s.m_linkSet ++ [tuple] }

def FindIfaceAssocTuple (s : OlsrState) (ifaceAddr : Ipv4Address) : Option IfaceAssocTuple :=
  KeyedTable.find IfaceAssocTuple.ifaceAddr ifaceAddr s.m_ifaceAssocSet

/-- `EraseIfaceAssocTuple`, with the `==` of interface association tuples. -/
def EraseIfaceAssocTuple (s : OlsrState) (tuple : IfaceAssocTuple) : OlsrState :=
  { s with
    m_ifaceAssocSet := s.m_ifaceAssocSet.eraseP fun assoc =>
      assoc.ifaceAddr == tuple.ifaceAddr && assoc.mainAddr == tuple.mainAddr }

def InsertIfaceAssocTuple (s : OlsrState) (tuple : IfaceAssocTuple) : OlsrState :=
  { s with m_ifaceAssocSet := s.m_ifaceAssocSet ++ [tuple] }

def GetMainAddress (s : OlsrState) (iface_addr : Ipv4Address) : Ipv4Address :=
  match s.FindIfaceAssocTuple iface_addr with
  | some tuple => tuple.mainAddr
  | none => iface_addr

end OlsrState

/-! ### Messages -/

structure LinkMessage where
  linkCode : UInt8
  neighborInterfaceAddresses : List Ipv4Address
deriving DecidableEq, Repr

structure Hello where
  willingness : UInt8
  linkMessages : List LinkMessage
deriving DecidableEq, Repr

structure Mid where
  interfaceAddresses : List Ipv4Address
deriving DecidableEq, Repr

/-- The fields of a `MessageHeader` that are read here, with the message. -/
structure MessageHeader (α : Type) where
  m_originatorAddress : Ipv4Address
  vTime : ℤ
  message : α
deriving DecidableEq, Repr

namespace LinkMessage

/-- The link type, `OLSR_UNSPEC_LINK`, `OLSR_ASYM_LINK`, `OLSR_SYM_LINK` or `OLSR_LOST_LINK`. -/
def lt (m : LinkMessage) : ℕ := m.linkCode.toNat % 4

/-- The neighbor type. -/
def nt (m : LinkMessage) : ℕ := m.linkCode.toNat / 4 % 4

/-- The link code is invalid: a symmetric link to no neighbor, or no type of neighbor. -/
def invalid (m : LinkMessage) : Bool := (m.lt == 2 && m.nt == 0) || m.nt == 3

end LinkMessage

/-! ### The protocol -/

/-- The two timers that are scheduled here. -/
inductive Action
  | scheduleLinkTuple (delay : ℤ) (neighborIfaceAddr : Ipv4Address)
  | scheduleIfaceAssocTuple (delay : ℤ) (ifaceAddr : Ipv4Address)
deriving DecidableEq, Repr

/-- What a `RoutingProtocol` reads and writes here; `now` is the time of the simulator. -/
structure RoutingProtocol where
  m_state : OlsrState
  m_ansn : UInt16
  m_helloInterval : ℤ
  m_linkTupleTimerFirstTime : Bool
  now : ℤ
deriving DecidableEq, Repr

namespace RoutingProtocol

/-- After `DoInitialize`, with the associations of the node's own further interfaces. -/
def new (mainAddress : Ipv4Address) (own : List Ipv4Address) (helloInterval : ℤ) :
    RoutingProtocol :=
  ⟨⟨[], [], own.map fun addr => ⟨addr, mainAddress, 0⟩⟩, 65535, helloInterval, true, 0⟩

/-- A second. -/
def second : ℤ := 1000000000

def DELAY (r : RoutingProtocol) (time : ℤ) : ℤ :=
  if time < r.now then 1000 else time - r.now + 1000

/-- `OLSR_NEIGHB_HOLD_TIME`. -/
def neighbHoldTime (r : RoutingProtocol) : ℤ := 3 * r.m_helloInterval

/-- `AddNeighborTuple`, with `IncrementAnsn`. -/
def AddNeighborTuple (r : RoutingProtocol) (tuple : NeighborTuple) : RoutingProtocol :=
  { r with m_state := r.m_state.InsertNeighborTuple tuple, m_ansn := r.m_ansn + 1 }

def LinkTupleAdded (r : RoutingProtocol) (tuple : LinkTuple) (willingness : UInt8) :
    RoutingProtocol :=
  r.AddNeighborTuple
    { neighborMainAddr := r.m_state.GetMainAddress tuple.neighborIfaceAddr
      willingness := willingness
      status := if r.now ≤ tuple.symTime then .STATUS_SYM else .STATUS_NOT_SYM
      updated := r.now }

/-- The `hasSymmetricLink` of `LinkTupleUpdated`. -/
def hasSymmetricLink (r : RoutingProtocol) (mainAddr : Ipv4Address) : Bool :=
  r.m_state.m_linkSet.any fun link_tuple =>
    r.m_state.GetMainAddress link_tuple.neighborIfaceAddr == mainAddr &&
      decide (r.now ≤ link_tuple.symTime)

/-- The status of a neighbor is computed from the links. -/
def updateStatus (r : RoutingProtocol) (mainAddr : Ipv4Address) : RoutingProtocol :=
  let status := if r.hasSymmetricLink mainAddr then .STATUS_SYM else .STATUS_NOT_SYM
  { r with
    m_state := r.m_state.modifyNeighbor mainAddr fun nb_tuple =>
      { nb_tuple with status := status, updated := r.now } }

def LinkTupleUpdated (r : RoutingProtocol) (tuple : LinkTuple) (willingness : UInt8) :
    RoutingProtocol :=
  let mainAddr := r.m_state.GetMainAddress tuple.neighborIfaceAddr
  let r :=
    if (r.m_state.FindNeighborTuple mainAddr).isNone then r.LinkTupleAdded tuple willingness else r
  r.updateStatus mainAddr

def RemoveLinkTuple (r : RoutingProtocol) (tuple : LinkTuple) : RoutingProtocol :=
  let mainAddr := r.m_state.GetMainAddress tuple.neighborIfaceAddr
  { r with m_state := (r.m_state.EraseNeighborTuple mainAddr).EraseLinkTuple tuple }

/-- What `NeighborLoss` does to the neighbors, with `OLSR_WILL_DEFAULT`. -/
def NeighborLoss (r : RoutingProtocol) (tuple : LinkTuple) : RoutingProtocol :=
  r.LinkTupleUpdated tuple 3

/-- One link message in `LinkSensing`: the link and whether it has been updated. -/
def senseLinkMessage (r : RoutingProtocol) (vTime : ℤ) (receiverIface : Ipv4Address)
    (link : LinkTuple × Bool) (linkMessage : LinkMessage) : Except Fault (LinkTuple × Bool) :=
  if linkMessage.invalid then .ok link
  else if linkMessage.neighborInterfaceAddresses.contains receiverIface then
    match linkMessage.lt with
    | 3 => .ok ({ link.1 with symTime := r.now - second }, true)
    | 0 => .error .abort
    | _ =>
      .ok ({ link.1 with
        symTime := r.now + vTime
        time := r.now + vTime + r.neighbHoldTime }, true)
  else .ok link

/-- The loop over the link messages. -/
def senseLinkMessages (r : RoutingProtocol) (vTime : ℤ) (receiverIface : Ipv4Address) :
    LinkTuple × Bool → List LinkMessage → Except Fault (LinkTuple × Bool)
  | link, [] => .ok link
  | link, linkMessage :: linkMessages => do
    let link ← r.senseLinkMessage vTime receiverIface link linkMessage
    r.senseLinkMessages vTime receiverIface link linkMessages

/-- The tuple that `LinkSensing` creates for a link that it does not know. -/
def newLinkTuple (r : RoutingProtocol) (vTime : ℤ) (receiverIface senderIface : Ipv4Address) :
    LinkTuple :=
  { neighborIfaceAddr := senderIface
    localIfaceAddr := receiverIface
    symTime := r.now - second
    asymTime := 0
    time := r.now + vTime }

def LinkSensing (r : RoutingProtocol) (msg : MessageHeader Hello)
    (receiverIface senderIface : Ipv4Address) : Except Fault (RoutingProtocol × List Action) :=
  if msg.vTime ≤ 0 then .error .abort
  else do
    let found := r.m_state.FindLinkTuple senderIface
    let created := found.isNone
    let link_tuple := found.getD (r.newLinkTuple msg.vTime receiverIface senderIface)
    let r :=
      if created then { r with m_state := r.m_state.InsertLinkTuple link_tuple } else r
    let (link_tuple, updated) ← r.senseLinkMessages msg.vTime receiverIface
      ({ link_tuple with asymTime := r.now + msg.vTime }, !created) msg.message.linkMessages
    let link_tuple := { link_tuple with time := max link_tuple.time link_tuple.asymTime }
    let r := { r with m_state := r.m_state.storeLink link_tuple }
    let r := if updated then r.LinkTupleUpdated link_tuple msg.message.willingness else r
    if created then
      .ok (r.LinkTupleAdded link_tuple msg.message.willingness,
        [.scheduleLinkTuple (r.DELAY (min link_tuple.time link_tuple.symTime)) senderIface])
    else .ok (r, [])

def PopulateNeighborSet (r : RoutingProtocol) (msg : MessageHeader Hello) : RoutingProtocol :=
  { r with
    m_state := r.m_state.modifyNeighbor msg.m_originatorAddress fun nb_tuple =>
      { nb_tuple with willingness := msg.message.willingness } }

def ProcessHello (r : RoutingProtocol) (msg : MessageHeader Hello)
    (receiverIface senderIface : Ipv4Address) : Except Fault (RoutingProtocol × List Action) := do
  let (r, actions) ← r.LinkSensing msg receiverIface senderIface
  .ok (r.PopulateNeighborSet msg, actions)

/-- One address of a MID message: its associations with the originator are extended, or there is
a new one. -/
def associate (r : RoutingProtocol) (msg : MessageHeader Mid) (addr : Ipv4Address) :
    RoutingProtocol × List Action :=
  let time := r.now + msg.vTime
  let matching := fun tuple : IfaceAssocTuple =>
    tuple.ifaceAddr == addr && tuple.mainAddr == msg.m_originatorAddress
  if r.m_state.m_ifaceAssocSet.any matching then
    ({ r with
      m_state := { r.m_state with
        m_ifaceAssocSet := r.m_state.m_ifaceAssocSet.map fun tuple =>
          if matching tuple then { tuple with time := time } else tuple } }, [])
  else
    ({ r with
      m_state := r.m_state.InsertIfaceAssocTuple ⟨addr, msg.m_originatorAddress, time⟩ },
      [.scheduleIfaceAssocTuple (r.DELAY time) addr])

/-- The loop over the addresses of a MID message. -/
def associateAll (msg : MessageHeader Mid) :
    RoutingProtocol → List Ipv4Address → RoutingProtocol × List Action
  | r, [] => (r, [])
  | r, addr :: addrs =>
    let (r, actions) := r.associate msg addr
    let (r, rest) := associateAll msg r addrs
    (r, actions ++ rest)

/-- Each neighbor gets the main address that its address has now. -/
def renameNeighbors (r : RoutingProtocol) : RoutingProtocol :=
  { r with
    m_state := { r.m_state with
      m_neighborSet := r.m_state.m_neighborSet.map fun neighbor =>
        { neighbor with
          neighborMainAddr := r.m_state.GetMainAddress neighbor.neighborMainAddr } } }

def ProcessMid (r : RoutingProtocol) (msg : MessageHeader Mid) (senderIface : Ipv4Address) :
    RoutingProtocol × List Action :=
  if (r.m_state.FindSymLinkTuple senderIface r.now).isNone then (r, [])
  else
    let (r, actions) := associateAll msg r msg.message.interfaceAddresses
    (r.renameNeighbors, actions)

def LinkTupleTimerExpire (r : RoutingProtocol) (neighborIfaceAddr : Ipv4Address) :
    RoutingProtocol × List Action :=
  match r.m_state.FindLinkTuple neighborIfaceAddr with
  | none => (r, [])
  | some tuple =>
    if tuple.time < r.now then (r.RemoveLinkTuple tuple, [])
    else if tuple.symTime < r.now then
      let r :=
        if r.m_linkTupleTimerFirstTime then { r with m_linkTupleTimerFirstTime := false }
        else r.NeighborLoss tuple
      (r, [.scheduleLinkTuple (r.DELAY tuple.time) neighborIfaceAddr])
    else (r, [.scheduleLinkTuple (r.DELAY (min tuple.time tuple.symTime)) neighborIfaceAddr])

def IfaceAssocTupleTimerExpire (r : RoutingProtocol) (ifaceAddr : Ipv4Address) :
    RoutingProtocol × List Action :=
  match r.m_state.FindIfaceAssocTuple ifaceAddr with
  | none => (r, [])
  | some tuple =>
    if tuple.time < r.now then
      ({ r with m_state := r.m_state.EraseIfaceAssocTuple tuple }, [])
    else (r, [.scheduleIfaceAssocTuple (r.DELAY tuple.time) ifaceAddr])

/-- What happens to a node: time passes, a message comes or a timer expires. -/
inductive Event
  | pass (duration : ℕ)
  | ProcessHello (msg : MessageHeader Hello) (receiverIface senderIface : Ipv4Address)
  | ProcessMid (msg : MessageHeader Mid) (senderIface : Ipv4Address)
  | LinkTupleTimerExpire (neighborIfaceAddr : Ipv4Address)
  | IfaceAssocTupleTimerExpire (ifaceAddr : Ipv4Address)

def step (r : RoutingProtocol) : Event → Except Fault (RoutingProtocol × List Action)
  | .pass duration => .ok ({ r with now := r.now + duration }, [])
  | .ProcessHello msg receiverIface senderIface => r.ProcessHello msg receiverIface senderIface
  | .ProcessMid msg senderIface => .ok (r.ProcessMid msg senderIface)
  | .LinkTupleTimerExpire neighborIfaceAddr => .ok (r.LinkTupleTimerExpire neighborIfaceAddr)
  | .IfaceAssocTupleTimerExpire ifaceAddr => .ok (r.IfaceAssocTupleTimerExpire ifaceAddr)

end RoutingProtocol
end Ns3Joined.Olsr
