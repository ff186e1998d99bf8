import Ns3Joined.Internet.Rip
import Ns3Joined.Library.TracedRun

/-!
# The end points of a transport protocol

`Ipv4EndPointDemux` (`model/ipv4-end-point-demux.cc`) keeps the end points of the sockets, with the
addresses and ports that they are for, and `Lookup` finds the one that a packet is for.

An end point is its address in memory, here the number of end points that were made before it. The
callbacks are left out. The devices are of type `D`.

With the operations go those of the sockets that make end points and change them
(`model/udp-socket-impl.cc`, `model/tcp-socket-base.cc`), as far as the end point goes.
-/

namespace Ns3Joined.Internet

def Ipv4Address.GetAny : Ipv4Address := 0

structure Ipv4EndPoint (D : Type) where
  /-- The address in memory. -/
  pointer : ℕ
  m_localAddr : Ipv4Address
  m_localPort : UInt16
  m_peerAddr : Ipv4Address := Ipv4Address.GetAny
  m_peerPort : UInt16 := 0
  m_boundnetdevice : Option D := none
  m_rxEnabled : Bool := true
deriving DecidableEq

namespace Ipv4EndPoint

variable {D : Type} (endPoint : Ipv4EndPoint D)

def SetLocalAddress (address : Ipv4Address) : Ipv4EndPoint D :=
  { endPoint with m_localAddr := address }

def SetPeer (address : Ipv4Address) (port : UInt16) : Ipv4EndPoint D :=
  { endPoint with m_peerAddr := address, m_peerPort := port }

def BindToNetDevice (netdevice : Option D) : Ipv4EndPoint D :=
  { endPoint with m_boundnetdevice := netdevice }

def SetRxEnabled (enabled : Bool) : Ipv4EndPoint D := { endPoint with m_rxEnabled := enabled }

end Ipv4EndPoint

/-- What `Lookup` asks of the interface that a packet came in on. -/
structure Ipv4Interface (D : Type) where
  m_device : D
  m_ifaddrs : List Ipv4InterfaceAddress

structure Ipv4EndPointDemux (D : Type) where
  m_ephemeral : UInt16 := 49152
  m_portLast : UInt16 := 65535
  m_portFirst : UInt16 := 49152
  m_endPoints : List (Ipv4EndPoint D) := []
  /-- How many end points were made. -/
  made : ℕ := 0

namespace Ipv4EndPointDemux

variable {D : Type} [DecidableEq D] (s : Ipv4EndPointDemux D)

/-! ### Allocation -/

omit [DecidableEq D] in
def LookupPortLocal (port : UInt16) : Bool :=
  s.m_endPoints.any fun endPoint => endPoint.m_localPort == port

def LookupLocal (boundNetDevice : Option D) (addr : Ipv4Address) (port : UInt16) : Bool :=
  s.m_endPoints.any fun endPoint =>
    endPoint.m_localPort == port && endPoint.m_localAddr == addr &&
      endPoint.m_boundnetdevice == boundNetDevice

/-- The port after this one, of those that are given out. -/
def nextPort (port : UInt16) : UInt16 :=
  if port + 1 < s.m_portFirst ∨ port + 1 > s.m_portLast then s.m_portFirst else port + 1

/-- The loop of `AllocateEphemeralPort`, which takes this many turns at most. -/
def freePortAfter : ℕ → UInt16 → Option UInt16
  | 0, _ => none
  | turns + 1, port =>
    if s.LookupPortLocal (s.nextPort port) then freePortAfter turns (s.nextPort port)
    else some (s.nextPort port)

/-- `AllocateEphemeralPort`: 0 if there is none. -/
def AllocateEphemeralPort : UInt16 × Ipv4EndPointDemux D :=
  match s.freePortAfter (s.m_portLast.toNat + 1 - s.m_portFirst.toNat) s.m_ephemeral with
  | none => (0, s)
  | some port => (port, { s with m_ephemeral := port })

/-- `new Ipv4EndPoint (address, port)`. -/
def newEndPoint (address : Ipv4Address) (port : UInt16) : Ipv4EndPoint D :=
  { pointer := s.made, m_localAddr := address, m_localPort := port }

/-- The end point goes to the end. -/
def push (endPoint : Ipv4EndPoint D) : Ipv4EndPointDemux D :=
  { s with m_endPoints := s.m_endPoints ++ [endPoint], made := s.made + 1 }

/-- `Allocate (address)`, and with `GetAny` it is `Allocate ()`: a port that no end point has. -/
def AllocateAddress (address : Ipv4Address) :
    Ipv4EndPointDemux D × Option (Ipv4EndPoint D) :=
  let (port, s) := s.AllocateEphemeralPort
  if port = 0 then (s, none)
  else (s.push (s.newEndPoint address port), some (s.newEndPoint address port))

/-- `Allocate (boundNetDevice, address, port)`. -/
def AllocatePort (boundNetDevice : Option D) (address : Ipv4Address) (port : UInt16) :
    Ipv4EndPointDemux D × Option (Ipv4EndPoint D) :=
  if s.LookupLocal boundNetDevice address port || s.LookupLocal none address port then (s, none)
  else (s.push (s.newEndPoint address port), some (s.newEndPoint address port))

/-- The loop of `Allocate` with a peer. -/
def LookupPeer (boundNetDevice : Option D) (localAddress : Ipv4Address) (localPort : UInt16)
    (peerAddress : Ipv4Address) (peerPort : UInt16) : Bool :=
  s.m_endPoints.any fun endPoint =>
    endPoint.m_localPort == localPort && endPoint.m_localAddr == localAddress &&
      endPoint.m_peerPort == peerPort && endPoint.m_peerAddr == peerAddress &&
      (endPoint.m_boundnetdevice == boundNetDevice || endPoint.m_boundnetdevice == none)

/-- `Allocate (boundNetDevice, localAddress, localPort, peerAddress, peerPort)`. -/
def AllocatePeer (boundNetDevice : Option D) (localAddress : Ipv4Address) (localPort : UInt16)
    (peerAddress : Ipv4Address) (peerPort : UInt16) :
    Ipv4EndPointDemux D × Option (Ipv4EndPoint D) :=
  if s.LookupPeer boundNetDevice localAddress localPort peerAddress peerPort then (s, none)
  else
    let endPoint := (s.newEndPoint localAddress localPort).SetPeer peerAddress peerPort
    (s.push endPoint, some endPoint)

/-- What the end point at this address does. -/
def modify (pointer : ℕ) (f : Ipv4EndPoint D → Ipv4EndPoint D) : Ipv4EndPointDemux D :=
  { s with
    m_endPoints := s.m_endPoints.map fun endPoint =>
      if endPoint.pointer = pointer then f endPoint else endPoint }

def DeAllocate (pointer : ℕ) : Ipv4EndPointDemux D :=
  { s with m_endPoints := s.m_endPoints.eraseP fun endPoint => endPoint.pointer = pointer }

/-! ### Lookup -/

variable (daddr : Ipv4Address) (dport : UInt16) (saddr : Ipv4Address) (sport : UInt16)
  (incomingInterface : Ipv4Interface D)

/-- The loop of `Lookup` over the addresses of the interface: the end point is bound to the network
of one of them, and the packet is for it. -/
def localAddressIsSubnetAny (endP : Ipv4EndPoint D) : Bool :=
  incomingInterface.m_ifaddrs.any fun addr =>
    endP.m_localAddr == addr.network && addr.network == daddr.CombineMask addr.m_mask

/-- The end points that `Lookup` finds. -/
structure Found (D : Type) where
  /-- Exact on the local port, wildcards on others. -/
  retval1 : List (Ipv4EndPoint D) := []
  /-- Exact on the local port and address, wildcards on others. -/
  retval2 : List (Ipv4EndPoint D) := []
  /-- All but the local address. -/
  retval3 : List (Ipv4EndPoint D) := []
  /-- Exact on all 4. -/
  retval4 : List (Ipv4EndPoint D) := []

/-- One turn of the loop of `Lookup`. -/
def lookAt (found : Found D) (endP : Ipv4EndPoint D) : Found D :=
  if !endP.m_rxEnabled then found
  else if endP.m_localPort ≠ dport then found
  else if endP.m_boundnetdevice.any fun device => device ≠ incomingInterface.m_device then found
  else
    let localAddressMatchesExact := endP.m_localAddr == daddr
    let localAddressIsAny := !localAddressMatchesExact && endP.m_localAddr == Ipv4Address.GetAny
    let localAddressIsSubnetAny := !localAddressMatchesExact && !localAddressIsAny &&
      localAddressIsSubnetAny daddr incomingInterface endP
    -- nothing of the local address fits
    if !localAddressMatchesExact && !localAddressIsAny && !localAddressIsSubnetAny then found
    else
      let remotePortMatchesExact := endP.m_peerPort == sport
      let remotePortMatchesWildCard := endP.m_peerPort == 0
      let remoteAddressMatchesExact := endP.m_peerAddr == saddr
      let remoteAddressMatchesWildCard := endP.m_peerAddr == Ipv4Address.GetAny
      if !(remotePortMatchesExact || remotePortMatchesWildCard) then found
      else if !(remoteAddressMatchesExact || remoteAddressMatchesWildCard) then found
      else
        let localAddressMatchesWildCard := localAddressIsAny || localAddressIsSubnetAny
        { retval4 :=
            if localAddressMatchesExact && remoteAddressMatchesExact && remotePortMatchesExact
            then found.retval4 ++ [endP] else found.retval4
          retval3 :=
            if localAddressMatchesWildCard && remoteAddressMatchesExact && remotePortMatchesExact
            then found.retval3 ++ [endP] else found.retval3
          retval2 :=
            if localAddressMatchesExact && remoteAddressMatchesWildCard &&
              remotePortMatchesWildCard
            then found.retval2 ++ [endP] else found.retval2
          retval1 :=
            if localAddressMatchesWildCard && remoteAddressMatchesWildCard &&
              remotePortMatchesWildCard
            then found.retval1 ++ [endP] else found.retval1 }

/-- The most exact match. -/
def Found.mostExact {D : Type} (found : Found D) : List (Ipv4EndPoint D) :=
  if !found.retval4.isEmpty then found.retval4
  else if !found.retval3.isEmpty then found.retval3
  else if !found.retval2.isEmpty then found.retval2
  else found.retval1

def Lookup : Except Fault (List (Ipv4EndPoint D)) :=
  let found := s.m_endPoints.foldl (lookAt daddr dport saddr sport incomingInterface) {}
  let retval := found.mostExact
  if retval.length > 1 then .error .abort else .ok retval

/-! ### Calls -/

/-- The allocation of an end point, as its socket leaves it, and the end points before it. -/
structure Allocation (D : Type) where
  before : List (Ipv4EndPoint D)
  endPoint : Ipv4EndPoint D

/-- What the sockets do. -/
inductive Call (D : Type)
  /-- `UdpSocketImpl::Bind`, of a socket with this `m_boundnetdevice`. -/
  | UdpBind (m_boundnetdevice : Option D) (ipv4 : Ipv4Address) (port : UInt16)
  /-- `TcpSocketBase::Bind`. -/
  | TcpBind (m_boundnetdevice : Option D) (ipv4 : Ipv4Address) (port : UInt16)
  /-- `TcpSocketBase::CompleteFork`. -/
  | CompleteFork (m_boundnetdevice : Option D) (localAddress : Ipv4Address) (localPort : UInt16)
      (peerAddress : Ipv4Address) (peerPort : UInt16)
  | SetLocalAddress (pointer : ℕ) (address : Ipv4Address)
  | SetPeer (pointer : ℕ) (address : Ipv4Address) (port : UInt16)
  | BindToNetDevice (pointer : ℕ) (netdevice : Option D)
  | SetRxEnabled (pointer : ℕ) (enabled : Bool)
  | DeAllocate (pointer : ℕ)

/-- The `Allocate` that `Bind` calls. Those without an address are the ones with `GetAny`. -/
def allocateFor (boundNetDevice : Option D) (ipv4 : Ipv4Address) (port : UInt16) :
    Ipv4EndPointDemux D × Option (Ipv4EndPoint D) :=
  if port = 0 then s.AllocateAddress ipv4 else s.AllocatePort boundNetDevice ipv4 port

/-- What was allocated, after the socket did `f` with the end point. -/
def finish (f : Ipv4EndPoint D → Ipv4EndPoint D)
    (r : Ipv4EndPointDemux D × Option (Ipv4EndPoint D)) :
    Ipv4EndPointDemux D × List (Allocation D) :=
  match r.2 with
  | none => (r.1, [])
  | some endPoint =>
    (r.1.modify endPoint.pointer f, [⟨s.m_endPoints, f endPoint⟩])

def step : Call D → Except Fault (Ipv4EndPointDemux D × List (Allocation D))
  | .UdpBind m_boundnetdevice ipv4 port =>
    .ok (s.finish (fun endPoint =>
        if m_boundnetdevice.isSome then endPoint.BindToNetDevice m_boundnetdevice else endPoint)
      (s.allocateFor m_boundnetdevice ipv4 port))
  | .TcpBind m_boundnetdevice ipv4 port =>
    .ok (s.finish id (s.allocateFor m_boundnetdevice ipv4 port))
  | .CompleteFork m_boundnetdevice localAddress localPort peerAddress peerPort =>
    .ok (s.finish id
      (s.AllocatePeer m_boundnetdevice localAddress localPort peerAddress peerPort))
  | .SetLocalAddress pointer address => .ok (s.modify pointer (·.SetLocalAddress address), [])
  | .SetPeer pointer address port => .ok (s.modify pointer (·.SetPeer address port), [])
  | .BindToNetDevice pointer netdevice => .ok (s.modify pointer (·.BindToNetDevice netdevice), [])
  | .SetRxEnabled pointer enabled => .ok (s.modify pointer (·.SetRxEnabled enabled), [])
  | .DeAllocate pointer => .ok (s.DeAllocate pointer, [])

end Ipv4EndPointDemux
end Ns3Joined.Internet
