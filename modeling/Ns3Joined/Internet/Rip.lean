import Mathlib.Algebra.Group.Nat.Defs
import Ns3Joined.Fault
import Ns3Joined.Library.Agenda
import Ns3Joined.Library.KeyedTable

/-!
# RIP

The routing table of a `Rip` router (`model/rip.cc`), its timers, and the updates that it sends and
handles.

A `RipRoutingTableEntry` is an object that `m_routes` and the timers point to; its pointer is a
number, and an iterator into `m_routes` is the pointer of the entry that it stands at. An `EventId`
is the number of an event of the scheduler, of which only the timers of routes are kept here; a
route that never had a timer has none. When triggered updates are sent is left out, and so are the
sockets.

With each call goes what happened in it (`Action`).
-/

namespace Ns3Joined.Internet

abbrev Ipv4Address := UInt32

abbrev Ipv4Mask := UInt32

namespace Ipv4Address

def CombineMask (address : Ipv4Address) (mask : Ipv4Mask) : Ipv4Address := address &&& mask

def IsLocalhost (address : Ipv4Address) : Bool := address == 0x7f000001

def IsBroadcast (address : Ipv4Address) : Bool := address == 0xffffffff

def IsMulticast (address : Ipv4Address) : Bool := 0xe0000000 ≤ address && address ≤ 0xefffffff

def IsLocalMulticast (address : Ipv4Address) : Bool := address &&& 0xffffff00 == 0xe0000000

end Ipv4Address

namespace Ipv4Mask

def IsMatch (mask : Ipv4Mask) (a b : Ipv4Address) : Bool := a &&& mask == b &&& mask

/-- The loop of `GetPrefixLength`, which shifts until nothing is left. -/
def prefixLengthLoop : ℕ → Ipv4Mask → ℕ
  | 0, _ => 0
  | fuel + 1, mask => if mask = 0 then 0 else prefixLengthLoop fuel (mask <<< 1) + 1

/-- `GetPrefixLength`: nothing is left after 32 turns. -/
def GetPrefixLength (mask : Ipv4Mask) : ℕ := prefixLengthLoop 32 mask

end Ipv4Mask

inductive InterfaceAddressScope
  | HOST
  | LINK
  | GLOBAL
deriving DecidableEq

structure Ipv4InterfaceAddress where
  m_local : Ipv4Address
  m_mask : Ipv4Mask
  m_scope : InterfaceAddressScope
deriving DecidableEq

namespace Ipv4InterfaceAddress

/-- The network of the address, as the callers compute it. -/
def network (address : Ipv4InterfaceAddress) : Ipv4Address :=
  address.m_local.CombineMask address.m_mask

end Ipv4InterfaceAddress

inductive RouteStatus
  | RIP_VALID
  | RIP_INVALID
deriving DecidableEq

structure RipRoutingTableEntry where
  pointer : ℕ
  m_dest : Ipv4Address
  m_destNetworkMask : Ipv4Mask
  m_gateway : Ipv4Address
  m_interface : ℕ
  m_tag : ℕ
  m_metric : ℕ
  m_status : RouteStatus
  m_changed : Bool
deriving DecidableEq

namespace RipRoutingTableEntry

/-- The constructor, for a new object. -/
def ofNetwork (pointer : ℕ) (network : Ipv4Address) (networkPrefix : Ipv4Mask)
    (nextHop : Ipv4Address) (interface : ℕ) : RipRoutingTableEntry :=
  ⟨pointer, network, networkPrefix, nextHop, interface, 0, 0, .RIP_INVALID, false⟩

def SetRouteTag (route : RipRoutingTableEntry) (routeTag : ℕ) : RipRoutingTableEntry :=
  if route.m_tag ≠ routeTag then { route with m_tag := routeTag, m_changed := true } else route

/-- `SetRouteMetric`, whose argument has 8 bits. -/
def SetRouteMetric (route : RipRoutingTableEntry) (routeMetric : ℕ) : RipRoutingTableEntry :=
  if route.m_metric ≠ routeMetric % 256 then
    { route with m_metric := routeMetric % 256, m_changed := true }
  else route

def SetRouteStatus (route : RipRoutingTableEntry) (status : RouteStatus) : RipRoutingTableEntry :=
  if route.m_status ≠ status then { route with m_status := status, m_changed := true } else route

def SetRouteChanged (route : RipRoutingTableEntry) (changed : Bool) : RipRoutingTableEntry :=
  { route with m_changed := changed }

/-- The network and the mask, by which a route is found. -/
def network (route : RipRoutingTableEntry) : Ipv4Address × Ipv4Mask :=
  (route.m_dest, route.m_destNetworkMask)

end RipRoutingTableEntry

/-- A pair of `m_routes`. -/
structure Slot where
  route : RipRoutingTableEntry
  event : Option ℕ
deriving DecidableEq

namespace Slot

def pointer (slot : Slot) : ℕ := slot.route.pointer

end Slot

/-- What a timer calls. -/
inductive TimerCall
  | InvalidateRoute
  | DeleteRoute
deriving DecidableEq

/-- A pending event of the scheduler that was set for a route. -/
structure Timer where
  uid : ℕ
  ts : ℕ
  call : TimerCall
  route : ℕ
deriving DecidableEq

inductive SplitHorizonType
  | NO_SPLIT_HORIZON
  | SPLIT_HORIZON
  | POISON_REVERSE
deriving DecidableEq

structure RipOptions where
  m_timeoutDelay : ℕ
  m_garbageCollectionDelay : ℕ
  m_linkDown : ℕ
  m_splitHorizonStrategy : SplitHorizonType
  m_interfaceExclusions : List ℕ
  m_interfaceMetrics : ℕ → Option UInt8

/-- The attributes as they are by default. -/
def RipOptions.default : RipOptions := ⟨180, 120, 16, .POISON_REVERSE, [], fun _ => none⟩

/-- An entry of a message. -/
structure RipRte where
  m_prefix : Ipv4Address
  m_subnetMask : Ipv4Mask
  m_tag : ℕ
  m_metric : ℕ
deriving DecidableEq

structure Rip where
  options : RipOptions
  m_routes : List Slot
  timers : List Timer
  now : ℕ
  nextUid : ℕ
  nextPointer : ℕ

/-- What happens in a call. The last three say of which network and at what time. -/
inductive RipAction
  /-- `HandleResponses` makes an entry. -/
  | learned (pointer : ℕ)
  /-- A valid route is invalidated. -/
  | unreachable (network : Ipv4Address × Ipv4Mask) (now : ℕ)
  /-- A response has a finite metric. -/
  | finite (network : Ipv4Address × Ipv4Mask) (now : ℕ)
  | deleted (network : Ipv4Address × Ipv4Mask) (now : ℕ)
deriving DecidableEq

namespace Rip

/-! ### Timers -/

def IsRunning (s : Rip) (event : Option ℕ) : Bool :=
  s.timers.any fun timer => some timer.uid == event

def Cancel (s : Rip) (event : Option ℕ) : Rip :=
  { s with timers := s.timers.filter fun timer => some timer.uid != event }

def Schedule (s : Rip) (delay : ℕ) (call : TimerCall) (route : ℕ) : Rip × ℕ :=
  ({ s with
      timers := Agenda.add Timer.ts ⟨s.nextUid, s.now + delay, call, route⟩ s.timers
      nextUid := s.nextUid + 1 },
    s.nextUid)

/-- `Simulator::GetDelayLeft`. -/
def GetDelayLeft (s : Rip) (event : Option ℕ) : ℕ :=
  ((s.timers.find? fun timer => some timer.uid == event).map fun timer => timer.ts - s.now).getD 0

/-! ### Routes -/

/-- What the iterator stands at becomes `slot`. -/
def setSlot (s : Rip) (it : ℕ) (slot : Slot) : Rip :=
  { s with m_routes := KeyedTable.modify Slot.pointer it (fun _ => slot) s.m_routes }

def AddNetworkRouteTo (s : Rip) (network : Ipv4Address) (networkPrefix : Ipv4Mask)
    (interface : ℕ) : Rip :=
  let route := RipRoutingTableEntry.ofNetwork s.nextPointer network networkPrefix 0 interface
  let route := ((route.SetRouteMetric 1).SetRouteStatus .RIP_VALID).SetRouteChanged true
  { s with m_routes := s.m_routes ++ [⟨route, none⟩], nextPointer := s.nextPointer + 1 }

/-- `InvalidateRoute`, for the route at a pointer. -/
def InvalidateRoute (s : Rip) (pointer : ℕ) : Except Fault (Rip × List RipAction) :=
  match KeyedTable.find Slot.pointer pointer s.m_routes with
  | none => .error .abort
  | some ⟨route, event⟩ =>
    let invalid := ((route.SetRouteStatus .RIP_INVALID).SetRouteMetric
      s.options.m_linkDown).SetRouteChanged true
    let s' := if s.IsRunning event then s.Cancel event else s
    let (s', uid) := s'.Schedule s.options.m_garbageCollectionDelay .DeleteRoute pointer
    .ok (s'.setSlot pointer ⟨invalid, some uid⟩,
      if route.m_status = .RIP_VALID then [.unreachable route.network s.now] else [])

/-- `DeleteRoute`, for the route at a pointer. -/
def DeleteRoute (s : Rip) (pointer : ℕ) : Except Fault (Rip × List RipAction) :=
  match KeyedTable.find Slot.pointer pointer s.m_routes with
  | none => .error .abort
  | some slot =>
    .ok ({ s with m_routes := KeyedTable.erase Slot.pointer pointer s.m_routes },
      [.deleted slot.route.network s.now])

/-! ### Responses -/

/-- The end of the branches in which a response is believed: the timer is set again. -/
def renew (s : Rip) (it : ℕ) (event : Option ℕ) (route : RipRoutingTableEntry) : Rip :=
  let (s', uid) := (s.Cancel event).Schedule s.options.m_timeoutDelay .InvalidateRoute route.pointer
  s'.setSlot it ⟨route, some uid⟩

/-- What is written into a route that a response is believed for. -/
def learn (route : RipRoutingTableEntry) (rteMetric tag : ℕ) : RipRoutingTableEntry :=
  (((route.SetRouteMetric rteMetric).SetRouteStatus .RIP_VALID).SetRouteTag tag).SetRouteChanged
    true

/-- An entry of a response, as `HandleResponses` takes it. -/
structure Response where
  rteAddr : Ipv4Address
  rtePrefixMask : Ipv4Mask
  rteMetric : ℕ
  tag : ℕ
  senderAddress : Ipv4Address
  incomingInterface : ℕ

namespace Response

def network (r : Response) : Ipv4Address × Ipv4Mask := (r.rteAddr, r.rtePrefixMask)

/-- The new entry, for the object at `pointer`. -/
def newRoute (r : Response) (pointer : ℕ) : RipRoutingTableEntry :=
  .ofNetwork pointer r.rteAddr r.rtePrefixMask r.senderAddress r.incomingInterface

end Response

/-- The branches for a route that is found. -/
def handleFound (s : Rip) (r : Response) (it : ℕ) (slot : Slot) :
    Except Fault (Rip × List RipAction) :=
  let route := slot.route
  if r.rteMetric < route.m_metric then
    if r.senderAddress ≠ route.m_gateway then
      .ok ({ s with nextPointer := s.nextPointer + 1 }.renew it slot.event
        (learn (r.newRoute s.nextPointer) r.rteMetric r.tag), [.learned s.nextPointer])
    else .ok (s.renew it slot.event (learn route r.rteMetric r.tag), [])
  else if r.rteMetric = route.m_metric then
    if r.senderAddress = route.m_gateway then .ok (s.renew it slot.event route, [])
    else if s.GetDelayLeft slot.event < s.options.m_timeoutDelay / 2 then
      .ok ({ s with nextPointer := s.nextPointer + 1 }.renew it slot.event
        (learn (r.newRoute s.nextPointer) r.rteMetric r.tag), [.learned s.nextPointer])
    else .ok (s, [])
  else if r.senderAddress = route.m_gateway then
    if r.rteMetric < s.options.m_linkDown then
      .ok (s.renew it slot.event (learn route r.rteMetric r.tag), [])
    else (s.Cancel slot.event).InvalidateRoute route.pointer
  else .ok (s, [])

/-- A turn of the loop over the routes, with whether a route was found so far. -/
def visit (r : Response) (turn : Rip × Bool × List RipAction) (it : ℕ) :
    Except Fault (Rip × Bool × List RipAction) :=
  let (s, found, actions) := turn
  match KeyedTable.find Slot.pointer it s.m_routes with
  | none => .error .undefined
  | some slot =>
    if slot.route.m_dest = r.rteAddr ∧ slot.route.m_destNetworkMask = r.rtePrefixMask then do
      let (s, happened) ← s.handleFound r it slot
      .ok (s, true, actions ++ happened)
    else .ok (s, found, actions)

/-- A route that no entry was found for. -/
def addResponse (s : Rip) (r : Response) : Rip :=
  let pointer := s.nextPointer
  let route := (((r.newRoute pointer).SetRouteMetric r.rteMetric).SetRouteStatus
    .RIP_VALID).SetRouteChanged true
  let (s', uid) := s.Schedule s.options.m_timeoutDelay .InvalidateRoute pointer
  { s' with m_routes := ⟨route, some uid⟩ :: s'.m_routes, nextPointer := pointer + 1 }

def GetInterfaceMetric (options : RipOptions) (interface : ℕ) : ℕ :=
  ((options.m_interfaceMetrics interface).getD 1).toNat

/-- The metric of an entry, when that of the interface is added. The sum has 32 bits. -/
def rteMetric (options : RipOptions) (rte : RipRte) (incomingInterface : ℕ) : ℕ :=
  min ((rte.m_metric + GetInterfaceMetric options incomingInterface) % 2 ^ 32) options.m_linkDown

/-- What the loop over the entries computes first. -/
def response (options : RipOptions) (senderAddress : Ipv4Address) (incomingInterface : ℕ)
    (rte : RipRte) : Response :=
  ⟨rte.m_prefix.CombineMask rte.m_subnetMask, rte.m_subnetMask,
    rteMetric options rte incomingInterface, rte.m_tag, senderAddress, incomingInterface⟩

/-- What is said of a response before the routes are looked at. -/
def toldFinite (options : RipOptions) (now : ℕ) (r : Response) : List RipAction :=
  if r.rteMetric < options.m_linkDown then [.finite r.network now] else []

/-- A turn of the loop over the entries. -/
def handleResponse (s : Rip) (r : Response) : Except Fault (Rip × List RipAction) := do
  let (s', found, actions) ← (s.m_routes.map Slot.pointer).foldlM (visit r)
    (s, false, toldFinite s.options s.now r)
  if !found && r.rteMetric != s.options.m_linkDown then
    .ok (s'.addResponse r, actions ++ [.learned s'.nextPointer])
  else .ok (s', actions)

def handleResponseList (s : Rip) : List Response → Except Fault (Rip × List RipAction)
  | [] => .ok (s, [])
  | r :: rest => do
    let (s', actions) ← s.handleResponse r
    let (s', actions') ← s'.handleResponseList rest
    .ok (s', actions ++ actions')

/-- The entries are validated before any is processed. -/
def isValidRte (options : RipOptions) (rte : RipRte) : Bool :=
  !(rte.m_metric == 0 || decide (options.m_linkDown < rte.m_metric)) &&
    !(rte.m_prefix.IsLocalhost || rte.m_prefix.IsBroadcast || rte.m_prefix.IsMulticast)

def HandleResponses (s : Rip) (rtes : List RipRte) (senderAddress : Ipv4Address)
    (incomingInterface : ℕ) : Except Fault (Rip × List RipAction) :=
  if s.options.m_interfaceExclusions.contains incomingInterface then .ok (s, [])
  else if rtes.all (isValidRte s.options) then
    s.handleResponseList (rtes.map (response s.options senderAddress incomingInterface))
  else .ok (s, [])

/-! ### Notifications -/

/-- The loops that invalidate the routes with `p`. -/
def invalidateLoop (p : RipRoutingTableEntry → Bool) (turn : Rip × List RipAction) (it : ℕ) :
    Except Fault (Rip × List RipAction) :=
  let (s, actions) := turn
  match KeyedTable.find Slot.pointer it s.m_routes with
  | none => .error .undefined
  | some slot =>
    if p slot.route then do
      let (s, happened) ← s.InvalidateRoute slot.route.pointer
      .ok (s, actions ++ happened)
    else .ok (s, actions)

def NotifyInterfaceUp (s : Rip) (i : ℕ) (isLoopback : Bool)
    (addresses : List Ipv4InterfaceAddress) : Rip :=
  if isLoopback then s
  else
    (addresses.filter fun address => address.m_scope == .GLOBAL).foldl
      (fun s address => s.AddNetworkRouteTo address.network address.m_mask i) s

def NotifyInterfaceDown (s : Rip) (interface : ℕ) : Except Fault (Rip × List RipAction) :=
  (s.m_routes.map Slot.pointer).foldlM
    (invalidateLoop fun route => route.m_interface == interface) (s, [])

def NotifyAddAddress (s : Rip) (interface : ℕ) (isUp : Bool) (address : Ipv4InterfaceAddress) :
    Rip :=
  if !isUp then s
  else if s.options.m_interfaceExclusions.contains interface then s
  else if address.m_scope = .GLOBAL then
    s.AddNetworkRouteTo address.network address.m_mask interface
  else s

/-- The routes that `NotifyRemoveAddress` invalidates. A host route is no network. -/
def isRemoved (interface : ℕ) (address : Ipv4InterfaceAddress) (route : RipRoutingTableEntry) :
    Bool :=
  route.m_interface == interface && route.m_destNetworkMask != 0xffffffff &&
    route.m_dest == address.network && route.m_destNetworkMask == address.m_mask

def NotifyRemoveAddress (s : Rip) (interface : ℕ) (isUp : Bool)
    (address : Ipv4InterfaceAddress) : Except Fault (Rip × List RipAction) :=
  if !isUp then .ok (s, [])
  else if address.m_scope ≠ .GLOBAL then .ok (s, [])
  else
    (s.m_routes.map Slot.pointer).foldlM (invalidateLoop (isRemoved interface address)) (s, [])

/-! ### Calls -/

inductive Call
  | HandleResponses (rtes : List RipRte) (senderAddress : Ipv4Address) (incomingInterface : ℕ)
  | NotifyInterfaceUp (i : ℕ) (isLoopback : Bool) (addresses : List Ipv4InterfaceAddress)
  | NotifyInterfaceDown (interface : ℕ)
  | NotifyAddAddress (interface : ℕ) (isUp : Bool) (address : Ipv4InterfaceAddress)
  | NotifyRemoveAddress (interface : ℕ) (isUp : Bool) (address : Ipv4InterfaceAddress)
  /-- Time passes, but not beyond the next timer. -/
  | elapse (delay : ℕ)
  /-- The next timer runs. -/
  | runTimer

/-- The scheduler runs the first of the timers. -/
def runTimer (s : Rip) : Except Fault (Rip × List RipAction) :=
  match s.timers with
  | [] => .ok (s, [])
  | timer :: rest =>
    let s := { s with timers := rest, now := timer.ts }
    match timer.call with
    | .InvalidateRoute => s.InvalidateRoute timer.route
    | .DeleteRoute => s.DeleteRoute timer.route

def elapse (s : Rip) (delay : ℕ) : Rip :=
  { s with
    now := (s.timers.head?.map fun timer => min (s.now + delay) timer.ts).getD (s.now + delay) }

def step (s : Rip) : Call → Except Fault (Rip × List RipAction)
  | .HandleResponses rtes senderAddress incomingInterface =>
    s.HandleResponses rtes senderAddress incomingInterface
  | .NotifyInterfaceUp i isLoopback addresses =>
    .ok (s.NotifyInterfaceUp i isLoopback addresses, [])
  | .NotifyInterfaceDown interface => s.NotifyInterfaceDown interface
  | .NotifyAddAddress interface isUp address =>
    .ok (s.NotifyAddAddress interface isUp address, [])
  | .NotifyRemoveAddress interface isUp address => s.NotifyRemoveAddress interface isUp address
  | .elapse delay => .ok (s.elapse delay, [])
  | .runTimer => s.runTimer

/-- A router before its first interface. -/
def ofOptions (options : RipOptions) : Rip := ⟨options, [], [], 0, 0, 0⟩

/-! ### Lookups -/

/-- What `Lookup` asks `Ipv4`. -/
structure Ipv4 where
  GetNetDevice : ℕ → ℕ
  GetInterfaceForDevice : ℕ → ℕ
  SourceAddressSelection : ℕ → Ipv4Address → Ipv4Address

structure Ipv4Route where
  source : Ipv4Address
  destination : Ipv4Address
  gateway : Ipv4Address
  outputDevice : ℕ
deriving DecidableEq

/-- The route that is returned when `Lookup` settles for an entry. -/
def toIpv4Route (m_ipv4 : Ipv4) (route : RipRoutingTableEntry) : Ipv4Route :=
  ⟨m_ipv4.SourceAddressSelection route.m_interface
      (if route.m_dest = 0 then route.m_gateway else route.m_dest),
    route.m_dest, route.m_gateway, m_ipv4.GetNetDevice route.m_interface⟩

/-- A turn of the loop of `Lookup`. -/
def lookupTurn (m_ipv4 : Ipv4) (dst : Ipv4Address) (interface : Option ℕ)
    (best : Option Ipv4Route × ℕ) (slot : Slot) : Option Ipv4Route × ℕ :=
  let route := slot.route
  if route.m_status = .RIP_VALID ∧ route.m_destNetworkMask.IsMatch dst route.m_dest ∧
      interface.all (· == m_ipv4.GetNetDevice route.m_interface) ∧
      ¬ route.m_destNetworkMask.GetPrefixLength < best.2 then
    (some (toIpv4Route m_ipv4 route), route.m_destNetworkMask.GetPrefixLength)
  else best

def Lookup (s : Rip) (m_ipv4 : Ipv4) (dst : Ipv4Address) (interface : Option ℕ) :
    Except Fault (Option Ipv4Route) :=
  if dst.IsLocalMulticast then
    match interface with
    | none => .error .abort
    | some device =>
      .ok (some ⟨m_ipv4.SourceAddressSelection (m_ipv4.GetInterfaceForDevice device) dst, dst, 0,
        device⟩)
  else .ok (s.m_routes.foldl (lookupTurn m_ipv4 dst interface) (none, 0)).1

end Rip
end Ns3Joined.Internet
