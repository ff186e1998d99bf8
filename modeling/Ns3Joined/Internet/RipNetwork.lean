import Ns3Joined.Internet.Rip
import Ns3Joined.Library.DistanceVector

/-!
# Networks of RIP routers

The updates that a `Rip` router sends (`DoSendRouteUpdate`, and the whole table in
`HandleRequests`), and routers that send them to each other. Each router has interfaces, which are
up from the beginning; what it sends on an interface can be received by every router with an
interface on the same link, at any time, in any order, any number of times, or never.

What the routers are to find out is the length of the shortest path to a router that is attached to
a network (`Hears`, `DistanceVector.Path`).
-/

namespace Ns3Joined.Internet

/-- An interface that is not the loopback, and the link that its device is on. -/
structure Interface where
  link : ℕ
  addresses : List Ipv4InterfaceAddress
  mtu : ℕ

namespace Interface

/-- The addresses that a sending socket is bound to. -/
def speakers (iface : Interface) : List Ipv4InterfaceAddress :=
  iface.addresses.filter fun address => address.m_scope != .HOST

end Interface

/-- The constructor of an address, whose scope is `GLOBAL`. -/
def Ipv4InterfaceAddress.ofLocal (m_local : Ipv4Address) (m_mask : Ipv4Mask) :
    Ipv4InterfaceAddress := ⟨m_local, m_mask, .GLOBAL⟩

namespace Rip

/-! ### Updates -/

/-- The entry for a route, by the strategy for split horizon. -/
def splitHorizon (options : RipOptions) (interface : ℕ) (route : RipRoutingTableEntry) :
    Option RipRte :=
  let splitHorizoning := route.m_interface = interface
  let metric := if options.m_splitHorizonStrategy = .POISON_REVERSE ∧ splitHorizoning then
    options.m_linkDown else route.m_metric
  if options.m_splitHorizonStrategy = .SPLIT_HORIZON ∧ splitHorizoning then none
  else some ⟨route.m_dest, route.m_destNetworkMask, route.m_tag, metric⟩

/-- `isGlobal || isDefaultRoute`. -/
def isAdvertised (interface : ℕ) (route : RipRoutingTableEntry) : Bool :=
  let rtDestAddr := Ipv4InterfaceAddress.ofLocal route.m_dest route.m_destNetworkMask
  rtDestAddr.m_scope == .GLOBAL ||
    route.m_dest == 0 && route.m_destNetworkMask == 0 && route.m_interface != interface

def sameNetwork (addresses : List Ipv4InterfaceAddress) (route : RipRoutingTableEntry) : Bool :=
  addresses.any fun address => address.network == route.m_dest

/-- How many entries a message may have, by the sizes of the headers and of an entry. -/
def maxRte (mtu : ℕ) : ℕ := (mtu + 2 ^ 32 - (20 + 8 + 4)) % 2 ^ 32 / 20 % 2 ^ 16

/-- The loop that fills messages with the entries, of which `hdr` is the one that is filled. The
number of its entries has 16 bits. -/
def fill (maxRte : ℕ) : List (Option RipRte) → List RipRte → List (List RipRte)
  | [], hdr => if 0 < hdr.length % 2 ^ 16 then [hdr] else []
  | rte :: rest, hdr =>
    if (hdr ++ rte.toList).length % 2 ^ 16 = maxRte then
      (hdr ++ rte.toList) :: fill maxRte rest []
    else fill maxRte rest (hdr ++ rte.toList)

/-- What `DoSendRouteUpdate` puts into messages for an interface. -/
def updateRte (s : Rip) (interface : ℕ) (addresses : List Ipv4InterfaceAddress) (periodic : Bool)
    (slot : Slot) : Option RipRte :=
  if isAdvertised interface slot.route && (periodic || slot.route.m_changed) &&
      !sameNetwork addresses slot.route then
    splitHorizon s.options interface slot.route
  else none

/-- The messages of `DoSendRouteUpdate` on one interface. -/
def updateMessages (s : Rip) (interface : ℕ) (iface : Interface) (periodic : Bool) :
    List (List RipRte) :=
  if s.options.m_interfaceExclusions.contains interface then []
  else fill (maxRte iface.mtu)
    (s.m_routes.map (s.updateRte interface iface.addresses periodic)) []

/-- What `HandleRequests` puts into messages, when the whole table is requested. -/
def tableRte (s : Rip) (interface : ℕ) (slot : Slot) : Option RipRte :=
  if isAdvertised interface slot.route && slot.route.m_status == .RIP_VALID then
    splitHorizon s.options interface slot.route
  else none

/-- The messages of `HandleRequests`, when the whole table is requested. -/
def tableMessages (s : Rip) (interface : ℕ) (iface : Interface) : List (List RipRte) :=
  if s.options.m_interfaceExclusions.contains interface then []
  else fill (maxRte iface.mtu) (s.m_routes.map (s.tableRte interface)) []

/-- After an update no route is changed any more. -/
def clearChanged (s : Rip) : Rip :=
  { s with m_routes := s.m_routes.map fun slot =>
      { slot with route := slot.route.SetRouteChanged false } }

/-- The metric for a network, which is that of link-down if no route is held. -/
def metricOf (s : Rip) (network : Ipv4Address × Ipv4Mask) : ℕ :=
  ((s.m_routes.find? fun slot => slot.route.network == network).map fun slot =>
    slot.route.m_metric).getD s.options.m_linkDown

/-- The routing table: which network is reached by which gateway, and how far it is. -/
def table (s : Rip) :
    List ((Ipv4Address × Ipv4Mask) × Ipv4Address × ℕ × ℕ × RouteStatus) :=
  s.m_routes.map fun slot => (slot.route.network, slot.route.m_gateway, slot.route.m_interface,
    slot.route.m_metric, slot.route.m_status)

end Rip

/-! ### Networks -/

/-- What a network is made of. Neither options nor interfaces change. -/
structure Network (n : ℕ) where
  options : Fin n → RipOptions
  interfaces : Fin n → List Interface

/-- A message, and on which link it is. -/
structure Message where
  link : ℕ
  senderAddress : Ipv4Address
  rtes : List RipRte

/-- The routers, and everything that was ever sent. -/
structure System (n : ℕ) where
  routers : Fin n → Rip
  sent : List Message

/-- What may happen next. -/
inductive Event (n : ℕ)
  /-- `DoSendRouteUpdate`. -/
  | sendUpdate (i : Fin n) (periodic : Bool)
  /-- `HandleRequests`, when the whole table is requested. -/
  | sendTable (i : Fin n) (interface : ℕ)
  /-- One of the messages is received on an interface. -/
  | receive (i : Fin n) (interface message : ℕ)
  | elapse (i : Fin n) (delay : ℕ)
  | runTimer (i : Fin n)

namespace Network

variable {n : ℕ}

/-- The messages of a router on one interface, once for each sending socket. -/
def onLink (iface : Interface) (messages : List (List RipRte)) : List Message :=
  iface.speakers.flatMap fun address =>
    messages.map fun rtes => ⟨iface.link, address.m_local, rtes⟩

def updates (N : Network n) (i : Fin n) (s : Rip) (periodic : Bool) : List Message :=
  (N.interfaces i).zipIdx.flatMap fun p => onLink p.1 (s.updateMessages p.2 p.1 periodic)

/-- `Receive`, which ignores what the router sent itself. -/
def receive (N : Network n) (i : Fin n) (interface : ℕ) (s : Rip) (message : Message) :
    Except Fault Rip :=
  if (N.interfaces i).any fun iface =>
      iface.addresses.any fun address => address.m_local == message.senderAddress then .ok s
  else (s.HandleResponses message.rtes message.senderAddress interface).map Prod.fst

def setRouter (S : System n) (i : Fin n) (s : Rip) : System n :=
  { S with routers := Function.update S.routers i s }

def step (N : Network n) (S : System n) : Event n → Except Fault (System n)
  | .sendUpdate i periodic =>
    .ok ⟨Function.update S.routers i (S.routers i).clearChanged,
      S.sent ++ N.updates i (S.routers i) periodic⟩
  | .sendTable i interface =>
    match (N.interfaces i)[interface]? with
    | none => .ok S
    | some iface => .ok ⟨S.routers,
        S.sent ++ onLink iface ((S.routers i).tableMessages interface iface)⟩
  | .receive i interface message =>
    match (N.interfaces i)[interface]?, S.sent[message]? with
    | some iface, some message =>
      if iface.link = message.link then
        (N.receive i interface (S.routers i) message).map (setRouter S i)
      else .ok S
    | _, _ => .ok S
  | .elapse i delay => .ok (setRouter S i ((S.routers i).elapse delay))
  | .runTimer i => (S.routers i).runTimer.map fun result => setRouter S i result.1

/-- All interfaces of a router are up, and nothing was sent. -/
def start (N : Network n) : System n where
  routers := fun i => (N.interfaces i).zipIdx.foldl
    (fun s p => s.NotifyInterfaceUp p.2 false p.1.addresses) (Rip.ofOptions (N.options i))
  sent := []

def run (N : Network n) (events : List (Event n)) : Except Fault (System n) :=
  events.foldlM N.step N.start

/-! ### What is to be found out -/

/-- A router has a global address in the network, on an interface. -/
def AttachedBy (N : Network n) (i : Fin n) (interface : ℕ) (network : Ipv4Address × Ipv4Mask) :
    Prop :=
  ∃ iface, (N.interfaces i)[interface]? = some iface ∧ ∃ address ∈ iface.addresses,
    address.m_scope = .GLOBAL ∧ (address.network, address.m_mask) = network

def Attached (N : Network n) (network : Ipv4Address × Ipv4Mask) (i : Fin n) : Prop :=
  ∃ interface, N.AttachedBy i interface network

def At (N : Network n) (i : Fin n) (interface link : ℕ) : Prop :=
  ∃ iface, (N.interfaces i)[interface]? = some iface ∧ iface.link = link

/-- A router sends from an address on a link. -/
def Speaks (N : Network n) (j : Fin n) (link : ℕ) (senderAddress : Ipv4Address) : Prop :=
  ∃ iface ∈ N.interfaces j, iface.link = link ∧
    ∃ address ∈ iface.speakers, address.m_local = senderAddress

/-- A router receives what another one sends, on an interface with a metric. -/
def Hears (N : Network n) (i j : Fin n) (metric : ℕ) : Prop :=
  i ≠ j ∧ ∃ interface link senderAddress, N.At i interface link ∧ N.Speaks j link senderAddress ∧
    metric = Rip.GetInterfaceMetric (N.options i) interface

/-- A router sends what is for the network to the next one. -/
def NextHop (N : Network n) (S : System n) (network : Ipv4Address × Ipv4Mask) (i j : Fin n) :
    Prop :=
  ∃ slot ∈ (S.routers i).m_routes, slot.route.network = network ∧
    slot.route.m_status = .RIP_VALID ∧ ∃ link, N.At i slot.route.m_interface link ∧
    N.Speaks j link slot.route.m_gateway

/-- The table of a router after it has received the full update that another one would send now
from an address. -/
def afterUpdate (N : Network n) (S : System n) (i : Fin n) (interface : ℕ) (j : Fin n)
    (interface' : ℕ) (iface' : Interface) (address : Ipv4InterfaceAddress) :
    Except Fault (List ((Ipv4Address × Ipv4Mask) × Ipv4Address × ℕ × ℕ × RouteStatus)) :=
  ((((S.routers j).updateMessages interface' iface' true).map fun rtes =>
    (⟨iface'.link, address.m_local, rtes⟩ : Message)).foldlM (N.receive i interface)
      (S.routers i)).map Rip.table

/-- No update that a neighbor would send now changes a routing table. -/
def Quiet (N : Network n) (S : System n) : Prop :=
  ∀ i j : Fin n, i ≠ j → ∀ interface iface interface' iface',
    (N.interfaces i)[interface]? = some iface → (N.interfaces j)[interface']? = some iface' →
    iface.link = iface'.link → ∀ address ∈ iface'.speakers,
    N.afterUpdate S i interface j interface' iface' address = .ok (S.routers i).table

/-- Every metric is the least of the paths', up to that of link-down, and the gateways lead to an
attached router. -/
structure Converged (N : Network n) (linkDown : ℕ) (S : System n) : Prop where
  least : ∀ network i, IsLeast {metric | metric = linkDown ∨
    DistanceVector.Path (N.Attached network) N.Hears 1 i metric} ((S.routers i).metricOf network)
  nextHop_unique : ∀ network i j j', N.NextHop S network i j → N.NextHop S network i j' → j = j'
  arrives : ∀ network i, (S.routers i).metricOf network < linkDown → ∃ route : List (Fin n),
    (i :: route).IsChain (N.NextHop S network) ∧ (i :: route).Nodup ∧
    ∃ last ∈ (i :: route).getLast?, N.Attached network last

/-- Interface metrics are positive, no interface is excluded, and all routers have one value for
link-down. -/
structure Fixed (N : Network n) (linkDown : ℕ) : Prop where
  linkDown : ∀ i, (N.options i).m_linkDown = linkDown
  exclusions : ∀ i, (N.options i).m_interfaceExclusions = []
  metric : ∀ i interface, 0 < Rip.GetInterfaceMetric (N.options i) interface

end Network
end Ns3Joined.Internet
