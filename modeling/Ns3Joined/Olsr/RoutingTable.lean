import Ns3Joined.Olsr.NeighborSensing

/-!
# The routing table of an OLSR node

`RoutingTableComputation` of `olsr-routing-protocol.cc`, which makes the routing table and the
table of the routes to other networks (HNA) from the repositories of the node.
-/

namespace Ns3Joined.Olsr

/-! ### The repositories -/

structure TwoHopNeighborTuple where
  neighborMainAddr : Ipv4Address
  twoHopNeighborAddr : Ipv4Address
deriving DecidableEq, Repr

structure TopologyTuple where
  destAddr : Ipv4Address
  lastAddr : Ipv4Address
deriving DecidableEq, Repr

/-- An `Association`: a network that the node itself announces. -/
structure Association where
  networkAddr : Ipv4Address
  netmask : UInt32
deriving DecidableEq, Repr

/-- An `AssociationTuple`: a network that a gateway has announced. -/
structure AssociationTuple where
  gatewayAddr : Ipv4Address
  networkAddr : Ipv4Address
  netmask : UInt32
deriving DecidableEq, Repr

/-- The sets of an `OlsrState` that the tables are made from. -/
structure Repositories extends OlsrState where
  m_twoHopNeighborSet : List TwoHopNeighborTuple
  m_topologySet : List TopologyTuple
  m_associationSet : List AssociationTuple
  m_associations : List Association
deriving DecidableEq, Repr

namespace Repositories

/-- `FindSymNeighborTuple`, whether there is one. -/
def FindSymNeighborTuple (s : Repositories) (mainAddr : Ipv4Address) : Bool :=
  s.m_neighborSet.any fun tuple =>
    tuple.neighborMainAddr == mainAddr && tuple.status == .STATUS_SYM

end Repositories

/-! ### The tables -/

structure RoutingTableEntry where
  destAddr : Ipv4Address
  nextAddr : Ipv4Address
  interface : ℕ
  distance : ℕ
deriving DecidableEq, Repr

/-- A route of `m_hnaRoutingTable`, an `Ipv4RoutingTableEntry` with its metric. -/
structure HnaRoute where
  destNetwork : Ipv4Address
  destNetworkMask : UInt32
  gateway : Ipv4Address
  interface : ℕ
  metric : ℕ
deriving DecidableEq, Repr

/-- The network of a route. -/
def HnaRoute.network (route : HnaRoute) : Ipv4Address × UInt32 :=
  (route.destNetwork, route.destNetworkMask)

/-- The network of an association. -/
def AssociationTuple.network (tuple : AssociationTuple) : Ipv4Address × UInt32 :=
  (tuple.networkAddr, tuple.netmask)

/-- `m_table`, by the destinations, and `m_hnaRoutingTable`. -/
structure Tables where
  m_table : List RoutingTableEntry
  m_hnaRoutingTable : List HnaRoute
deriving DecidableEq, Repr

def Lookup (table : List RoutingTableEntry) (dest : Ipv4Address) : Option RoutingTableEntry :=
  KeyedTable.find RoutingTableEntry.destAddr dest table

def AddEntry (table : List RoutingTableEntry) (dest next : Ipv4Address) (interface distance : ℕ) :
    List RoutingTableEntry :=
  KeyedTable.insert RoutingTableEntry.destAddr ⟨dest, next, interface, distance⟩ table

/-- What a node reads when it makes its tables: `m_ipv4` has the addresses of each interface.
Each link is one of these interfaces, on which the HELLO messages of the neighbor came. -/
structure Node where
  m_mainAddress : Ipv4Address
  m_ipv4 : List (List Ipv4Address)
  m_state : Repositories
  now : ℤ
  isLocal : ∀ link ∈ m_state.m_linkSet, ∃ addresses ∈ m_ipv4, link.localIfaceAddr ∈ addresses

namespace Node

/-- The interface with an address. -/
def interfaceOf (n : Node) (address : Ipv4Address) : Option ℕ :=
  n.m_ipv4.findIdx? fun addresses => addresses.contains address

/-- `AddEntry` with the address of an interface. -/
def AddEntry (n : Node) (table : List RoutingTableEntry)
    (dest next interfaceAddress : Ipv4Address) (distance : ℕ) :
    Except Fault (List RoutingTableEntry) :=
  match n.interfaceOf interfaceAddress with
  | some interface => .ok (Olsr.AddEntry table dest next interface distance)
  | none => .error .abort

/-! ### Neighbors -/

/-- The link leads to the neighbor, and has not expired. -/
def linkMatches (n : Node) (nb_tuple : NeighborTuple) (link_tuple : LinkTuple) : Bool :=
  n.m_state.GetMainAddress link_tuple.neighborIfaceAddr == nb_tuple.neighborMainAddr &&
    decide (n.now ≤ link_tuple.time)

/-- The loop over the links, with `nb_main_addr` and `lt`. -/
def addLinks (n : Node) (nb_tuple : NeighborTuple) :
    List RoutingTableEntry → Bool → Option LinkTuple → List LinkTuple →
      Except Fault (List RoutingTableEntry × Bool × Option LinkTuple)
  | table, nb_main_addr, lt, [] => .ok (table, nb_main_addr, lt)
  | table, nb_main_addr, lt, link_tuple :: links =>
    if n.linkMatches nb_tuple link_tuple then do
      let table ← n.AddEntry table link_tuple.neighborIfaceAddr link_tuple.neighborIfaceAddr
        link_tuple.localIfaceAddr 1
      n.addLinks nb_tuple table
        (nb_main_addr || link_tuple.neighborIfaceAddr == nb_tuple.neighborMainAddr)
        (some link_tuple) links
    else n.addLinks nb_tuple table nb_main_addr lt links

/-- The entries for a neighbor. -/
def addNeighbor (n : Node) (table : List RoutingTableEntry) (nb_tuple : NeighborTuple) :
    Except Fault (List RoutingTableEntry) :=
  if nb_tuple.status = .STATUS_SYM then do
    let (table, nb_main_addr, lt) ← n.addLinks nb_tuple table false none n.m_state.m_linkSet
    match lt with
    | some lt =>
      if nb_main_addr then .ok table
      else n.AddEntry table nb_tuple.neighborMainAddr lt.neighborIfaceAddr lt.localIfaceAddr 1
    | none => .ok table
  else .ok table

/-! ### Two-hop neighbors -/

/-- The two-hop neighbor is no neighbor and not the node itself, and the neighbor over which it is
reached forwards messages; `OLSR_WILL_NEVER` is 0. -/
def isTwoHopNeighbor (n : Node) (nb2hop_tuple : TwoHopNeighborTuple) : Bool :=
  !n.m_state.FindSymNeighborTuple nb2hop_tuple.twoHopNeighborAddr &&
    nb2hop_tuple.twoHopNeighborAddr != n.m_mainAddress &&
    n.m_state.m_neighborSet.any fun neighbor =>
      neighbor.neighborMainAddr == nb2hop_tuple.neighborMainAddr && neighbor.willingness != 0

/-- The entry for a two-hop neighbor. -/
def addTwoHopNeighbor (n : Node) (table : List RoutingTableEntry)
    (nb2hop_tuple : TwoHopNeighborTuple) : List RoutingTableEntry :=
  if n.isTwoHopNeighbor nb2hop_tuple then
    match Lookup table nb2hop_tuple.neighborMainAddr with
    | some entry =>
      Olsr.AddEntry table nb2hop_tuple.twoHopNeighborAddr entry.nextAddr entry.interface 2
    | none => table
  else table

/-- The entries for the neighbors and the two-hop neighbors. -/
def neighborEntries (n : Node) : Except Fault (List RoutingTableEntry) := do
  let table ← n.m_state.m_neighborSet.foldlM n.addNeighbor []
  .ok (n.m_state.m_twoHopNeighborSet.foldl n.addTwoHopNeighbor table)

/-! ### Topology -/

/-- One topology tuple at the level `h`, with `added`. -/
def addTopology (h : ℕ) (state : List RoutingTableEntry × Bool) (topology_tuple : TopologyTuple) :
    List RoutingTableEntry × Bool :=
  match Lookup state.1 topology_tuple.destAddr, Lookup state.1 topology_tuple.lastAddr with
  | none, some lastAddrEntry =>
    if lastAddrEntry.distance = h then
      (Olsr.AddEntry state.1 topology_tuple.destAddr lastAddrEntry.nextAddr
        lastAddrEntry.interface (h + 1), true)
    else state
  | _, _ => state

/-- The loop over the levels, at most so many rounds of it. -/
def topologyLoop (n : Node) : ℕ → ℕ → List RoutingTableEntry →
    Except Fault (List RoutingTableEntry)
  | 0, _, _ => .error .diverges
  | rounds + 1, h, table =>
    let (table, added) := n.m_state.m_topologySet.foldl (addTopology h) (table, false)
    if added then n.topologyLoop rounds (h + 1) table else .ok table

/-! ### Further interfaces and networks -/

/-- The entry for a further interface of a node. -/
def addInterface (table : List RoutingTableEntry) (tuple : IfaceAssocTuple) :
    List RoutingTableEntry :=
  match Lookup table tuple.mainAddr, Lookup table tuple.ifaceAddr with
  | some entry1, none =>
    Olsr.AddEntry table tuple.ifaceAddr entry1.nextAddr entry1.interface entry1.distance
  | _, _ => table

/-- The loop that clears the table of the other networks: the first route is removed as long as
`i` is less than the number of routes. -/
def clearLoop : ℕ → List HnaRoute → List HnaRoute
  | _, [] => []
  | i, route :: routes => if i < (route :: routes).length then clearLoop (i + 1) routes
    else route :: routes

/-- The node itself announces the network. -/
def announces (n : Node) (tuple : AssociationTuple) : Bool :=
  n.m_state.m_associations.any fun localHnaAssoc =>
    localHnaAssoc.networkAddr == tuple.networkAddr && localHnaAssoc.netmask == tuple.netmask

/-- The route to a network through a gateway. -/
def hnaRoute (tuple : AssociationTuple) (gatewayEntry : RoutingTableEntry) : HnaRoute where
  destNetwork := tuple.networkAddr
  destNetworkMask := tuple.netmask
  gateway := gatewayEntry.nextAddr
  interface := gatewayEntry.interface
  metric := gatewayEntry.distance

/-- One association. -/
def addAssociation (n : Node) (table : List RoutingTableEntry) (routes : List HnaRoute)
    (tuple : AssociationTuple) : List HnaRoute :=
  if n.announces tuple then routes
  else
    match KeyedTable.find HnaRoute.network tuple.network routes, Lookup table tuple.gatewayAddr with
    | none, some gatewayEntry => routes ++ [hnaRoute tuple gatewayEntry]
    | some route, some gatewayEntry =>
      if route.metric > gatewayEntry.distance then
        KeyedTable.erase HnaRoute.network tuple.network routes ++ [hnaRoute tuple gatewayEntry]
      else routes
    | _, none => routes

/-- `RoutingTableComputation`, with the tables as they were. The loop over the levels has no more
rounds than there are topology tuples, and one in which nothing is added. -/
def RoutingTableComputation (n : Node) (tables : Tables) : Except Fault Tables := do
  let table ← n.neighborEntries
  let table ← n.topologyLoop (n.m_state.m_topologySet.length + 1) 2 table
  let table := n.m_state.m_ifaceAssocSet.foldl addInterface table
  let routes := clearLoop 0 tables.m_hnaRoutingTable
  .ok ⟨table, n.m_state.m_associationSet.foldl (n.addAssociation table) routes⟩

end Node
end Ns3Joined.Olsr
