import Ns3Joined.Fault
import Ns3Joined.Library.KeyedTable

/-!
# The ARP cache

`ArpCache` of `arp-cache.cc`, with `Receive` and `Lookup` of `arp-l3-protocol.cc`. A packet whose
destination is being resolved waits in the entry of the destination; one timer is for all entries
that wait.

Times are in nanoseconds, and no timeout is negative. The order in which the hash map is walked
decides about the order of what is sent only; entries are kept in the order in which they are added.
-/

namespace Ns3Joined.Internet.Arp

abbrev Ipv4Address := UInt32

/-- A hardware address. -/
structure Address where
  m_type : UInt8
  m_data : List UInt8
deriving DecidableEq, Repr

inductive ArpCacheEntryState
  | ALIVE
  | WAIT_REPLY
  | DEAD
  | PERMANENT
deriving DecidableEq, Repr

/-- The attributes of an `ArpCache`. -/
structure Attributes where
  m_aliveTimeout : ℕ
  m_deadTimeout : ℕ
  m_waitReplyTimeout : ℕ
  m_maxRetries : UInt32
  m_pendingQueueSize : UInt32
deriving DecidableEq, Repr

/-! ### Entries -/

/-- An `ArpCache::Entry`. A pending packet comes with its header. -/
structure Entry (Packet : Type) where
  m_state : ArpCacheEntryState
  m_lastSeen : ℕ
  m_macAddress : Address
  m_ipv4Address : Ipv4Address
  m_pending : List Packet
  m_retries : UInt32
deriving DecidableEq, Repr

variable {Packet : Type}

namespace Entry

/-- The constructor, with `SetIpv4Address`. -/
def new (destination : Ipv4Address) : Entry Packet := ⟨.ALIVE, 0, ⟨0, []⟩, destination, [], 0⟩

def IsDead (entry : Entry Packet) : Bool := entry.m_state = .DEAD

def IsAlive (entry : Entry Packet) : Bool := entry.m_state = .ALIVE

def IsWaitReply (entry : Entry Packet) : Bool := entry.m_state = .WAIT_REPLY

def IsPermanent (entry : Entry Packet) : Bool := entry.m_state = .PERMANENT

def MarkDead (now : ℕ) (entry : Entry Packet) : Except Fault (Entry Packet) :=
  if entry.m_state = .ALIVE ∨ entry.m_state = .WAIT_REPLY ∨ entry.m_state = .DEAD then
    .ok { entry with m_state := .DEAD, m_retries := 0, m_lastSeen := now }
  else .error .abort

def MarkAlive (now : ℕ) (macAddress : Address) (entry : Entry Packet) :
    Except Fault (Entry Packet) :=
  if entry.m_state = .WAIT_REPLY then
    .ok { entry with
      m_macAddress := macAddress, m_state := .ALIVE, m_retries := 0, m_lastSeen := now }
  else .error .abort

def UpdateWaitReply (c : Attributes) (waiting : Packet) (entry : Entry Packet) :
    Except Fault (Entry Packet × Bool) :=
  if entry.m_state = .WAIT_REPLY then
    if entry.m_pending.length ≥ c.m_pendingQueueSize.toNat then .ok (entry, false)
    else .ok ({ entry with m_pending := entry.m_pending ++ [waiting] }, true)
  else .error .abort

/-- `MarkWaitReply`, without `StartWaitReplyTimer`. -/
def MarkWaitReply (now : ℕ) (waiting : Packet) (entry : Entry Packet) :
    Except Fault (Entry Packet) :=
  if (entry.m_state = .ALIVE ∨ entry.m_state = .DEAD) ∧ entry.m_pending.isEmpty then
    .ok { entry with
      m_state := .WAIT_REPLY, m_pending := entry.m_pending ++ [waiting], m_lastSeen := now }
  else .error .abort

/-- `GetTimeout`; there is none that a time is above where it is `Time::Max`. -/
def GetTimeout (c : Attributes) (entry : Entry Packet) : Option ℕ :=
  match entry.m_state with
  | .WAIT_REPLY => some c.m_waitReplyTimeout
  | .DEAD => some c.m_deadTimeout
  | .ALIVE => some c.m_aliveTimeout
  | .PERMANENT => none

def IsExpired (c : Attributes) (now : ℕ) (entry : Entry Packet) : Bool :=
  match entry.GetTimeout c with
  | some timeout => decide (now - entry.m_lastSeen > timeout)
  | none => false

def IncrementRetries (now : ℕ) (entry : Entry Packet) : Entry Packet :=
  { entry with m_retries := entry.m_retries + 1, m_lastSeen := now }

end Entry

/-! ### The cache -/

/-- What is sent, scheduled or traced. -/
inductive Action (Packet : Type)
  /-- A packet goes to the traffic control layer. -/
  | Send (packet : Packet) (hardwareDestination : Address)
  | SendArpReply (myIp toIp : Ipv4Address) (toMac : Address)
  | SendArpRequest (destination : Ipv4Address)
  /-- The first request for an address goes out after some jitter. -/
  | scheduleSendArpRequest (destination : Ipv4Address)
  /-- The drop trace of the cache. -/
  | cacheDrop (packet : Packet)
  /-- The drop trace of the protocol. -/
  | drop (packet : Packet)
  /-- The same, with a reply that was not waited for. -/
  | dropReply
deriving DecidableEq, Repr

/-- An `ArpCache`. The timer is that of the event that it is to run in, as long as it is running;
`now` is the time of the simulator. -/
structure ArpCache (Packet : Type) where
  m_arpCache : List (Entry Packet)
  m_waitReplyTimer : Option ℕ
  now : ℕ
deriving DecidableEq, Repr

namespace ArpCache

variable {Packet : Type}

/-- The constructor. -/
def new : ArpCache Packet := ⟨[], none, 0⟩

def Lookup (s : ArpCache Packet) (destination : Ipv4Address) : Option (Entry Packet) :=
  KeyedTable.find Entry.m_ipv4Address destination s.m_arpCache

/-- What is written through the pointer to an entry. -/
def store (s : ArpCache Packet) (entry : Entry Packet) : ArpCache Packet :=
  { s with m_arpCache := KeyedTable.insert Entry.m_ipv4Address entry s.m_arpCache }

/-- `Add` returns the entry, too. -/
def Add (s : ArpCache Packet) (destination : Ipv4Address) :
    Except Fault (ArpCache Packet × Entry Packet) :=
  if (s.Lookup destination).isNone then
    .ok (s.store (Entry.new destination), Entry.new destination)
  else .error .abort

def StartWaitReplyTimer (c : Attributes) (s : ArpCache Packet) : ArpCache Packet :=
  if s.m_waitReplyTimer.isSome then s
  else { s with m_waitReplyTimer := some (s.now + c.m_waitReplyTimeout) }

/-- One turn of the loop of `HandleWaitReplyTimeout`. -/
def timeoutEntry (c : Attributes) (now : ℕ) (entry : Entry Packet) :
    Except Fault (Entry Packet × List (Action Packet) × Bool) :=
  if entry.IsWaitReply then
    if entry.m_retries < c.m_maxRetries then
      .ok (entry.IncrementRetries now, [.SendArpRequest entry.m_ipv4Address], true)
    else do
      let dead ← entry.MarkDead now
      .ok ({ dead with m_pending := [] }, dead.m_pending.map .cacheDrop, false)
  else .ok (entry, [], false)

/-- The loop of `HandleWaitReplyTimeout`. -/
def timeoutEntries (c : Attributes) (now : ℕ) :
    List (Entry Packet) → Except Fault (List (Entry Packet) × List (Action Packet) × Bool)
  | [] => .ok ([], [], false)
  | entry :: entries => do
    let this ← timeoutEntry c now entry
    let rest ← timeoutEntries c now entries
    .ok (this.1 :: rest.1, this.2.1 ++ rest.2.1, this.2.2 || rest.2.2)

/-- The event of the timer is no longer to run when it runs. -/
def HandleWaitReplyTimeout (c : Attributes) (s : ArpCache Packet) :
    Except Fault (ArpCache Packet × List (Action Packet)) := do
  let walked ← timeoutEntries c s.now s.m_arpCache
  .ok (⟨walked.1, if walked.2.2 then some (s.now + c.m_waitReplyTimeout) else none, s.now⟩,
    walked.2.1)

def Flush (s : ArpCache Packet) : ArpCache Packet := ⟨[], none, s.now⟩

/-- `Remove`, of the entry that `Lookup` finds. -/
def Remove (s : ArpCache Packet) (destination : Ipv4Address) : ArpCache Packet :=
  { s with m_arpCache := KeyedTable.erase Entry.m_ipv4Address destination s.m_arpCache }

end ArpCache

/-! ### The protocol -/

namespace ArpL3Protocol

open ArpCache

variable {Packet : Type}

structure ArpHeader where
  m_type : UInt16
  m_macSource : Address
  m_macDest : Address
  m_ipv4Source : Ipv4Address
  m_ipv4Dest : Ipv4Address
deriving DecidableEq, Repr

/-- `ARP_TYPE_REQUEST`. -/
def ArpHeader.IsRequest (arp : ArpHeader) : Bool := arp.m_type = 1

/-- `ARP_TYPE_REPLY`. -/
def ArpHeader.IsReply (arp : ArpHeader) : Bool := arp.m_type = 2

/-- A packet begins to wait for a reply, and a request is scheduled. -/
def waitReply (c : Attributes) (s : ArpCache Packet) (entry : Entry Packet) (packet : Packet)
    (destination : Ipv4Address) :
    Except Fault (ArpCache Packet × List (Action Packet) × Option Address) := do
  let waiting ← entry.MarkWaitReply s.now packet
  .ok ((s.store waiting).StartWaitReplyTimer c, [.scheduleSendArpRequest destination], none)

/-- `Lookup`, with the hardware address if it returns true. -/
def Lookup (c : Attributes) (s : ArpCache Packet) (packet : Packet) (destination : Ipv4Address) :
    Except Fault (ArpCache Packet × List (Action Packet) × Option Address) :=
  match s.Lookup destination with
  | some entry =>
    if entry.IsExpired c s.now then
      if entry.IsDead then waitReply c s entry packet destination
      else if entry.IsAlive then waitReply c s entry packet destination
      else .error .abort
    else if entry.IsDead then .ok (s, [.drop packet], none)
    else if entry.IsAlive then .ok (s, [], some entry.m_macAddress)
    else if entry.IsWaitReply then do
      let updated ← entry.UpdateWaitReply c packet
      if updated.2 then .ok (s.store updated.1, [], none)
      else .ok (s.store updated.1, [.drop packet], none)
    else if entry.IsPermanent then .ok (s, [], some entry.m_macAddress)
    else .ok (s, [], none)
  | none => do
    let added ← s.Add destination
    waitReply c added.1 added.2 packet destination

/-- `Ipv4Interface::Send`, for a destination that is to be resolved. -/
def Send (c : Attributes) (s : ArpCache Packet) (packet : Packet) (dest : Ipv4Address) :
    Except Fault (ArpCache Packet × List (Action Packet)) := do
  let found ← Lookup c s packet dest
  match found.2.2 with
  | some hardwareDestination => .ok (found.1, found.2.1 ++ [.Send packet hardwareDestination])
  | none => .ok (found.1, found.2.1)

/-- The loop of `Receive` that sends the pending packets of an entry. -/
def sendPending (c : Attributes) (source : Ipv4Address) :
    ℕ → ArpCache Packet → Except Fault (ArpCache Packet × List (Action Packet))
  | 0, _ => .error .diverges
  | fuel + 1, s =>
    match s.Lookup source with
    | none => .error .undefined
    | some entry =>
      match entry.m_pending with
      | [] => .ok (s, [])
      | packet :: pending => do
        let sent ← Send c (s.store { entry with m_pending := pending }) packet source
        let rest ← sendPending c source fuel sent.1
        .ok (rest.1, sent.2 ++ rest.2)

/-- A reply for an address of the interface. -/
def receiveReply (c : Attributes) (s : ArpCache Packet) (arp : ArpHeader) :
    Except Fault (ArpCache Packet × List (Action Packet)) :=
  match s.Lookup arp.m_ipv4Source with
  | some entry =>
    if entry.IsWaitReply then do
      let alive ← entry.MarkAlive s.now arp.m_macSource
      sendPending c arp.m_ipv4Source (entry.m_pending.length + 1) (s.store alive)
    else .ok (s, [.dropReply])
  | none => .ok (s, [.dropReply])

/-- `Receive`, with the addresses of the interface and of the device. -/
def Receive (c : Attributes) (s : ArpCache Packet) (arp : ArpHeader) (deviceAddress : Address) :
    List Ipv4Address → Except Fault (ArpCache Packet × List (Action Packet))
  | [] => .ok (s, [])
  | address :: addresses =>
    if arp.IsRequest ∧ arp.m_ipv4Dest = address then
      .ok (s, [.SendArpReply arp.m_ipv4Dest arp.m_ipv4Source arp.m_macSource])
    else if arp.IsReply ∧ arp.m_ipv4Dest = address ∧ arp.m_macDest = deviceAddress then
      receiveReply c s arp
    else Receive c s arp deviceAddress addresses

/-- What happens to a cache. Time passes up to where the timer expires. -/
inductive Event (Packet : Type)
  | pass (duration : ℕ)
  | HandleWaitReplyTimeout
  | Send (packet : Packet) (dest : Ipv4Address)
  | Receive (arp : ArpHeader) (deviceAddress : Address) (addresses : List Ipv4Address)
  | Flush
  | Remove (destination : Ipv4Address)
deriving DecidableEq, Repr

/-- An event, the cache that it came to, and what was done. -/
structure Happened (Packet : Type) where
  event : Event Packet
  found : ArpCache Packet
  actions : List (Action Packet)
deriving DecidableEq, Repr

def pass (s : ArpCache Packet) (duration : ℕ) : ArpCache Packet :=
  match s.m_waitReplyTimer with
  | some due => { s with now := min (s.now + duration) due }
  | none => { s with now := s.now + duration }

/-- The timer is due. -/
def expires (s : ArpCache Packet) : Bool := s.m_waitReplyTimer = some s.now

def handle (c : Attributes) (s : ArpCache Packet) :
    Event Packet → Except Fault (ArpCache Packet × List (Action Packet))
  | .pass duration => .ok (pass s duration, [])
  | .HandleWaitReplyTimeout =>
    if expires s then s.HandleWaitReplyTimeout c else .ok (s, [])
  | .Send packet dest => Send c s packet dest
  | .Receive arp deviceAddress addresses => Receive c s arp deviceAddress addresses
  | .Flush => .ok (s.Flush, [])
  | .Remove destination => .ok (s.Remove destination, [])

/-- A step with its history. -/
def step (c : Attributes) (s : ArpCache Packet) (event : Event Packet) :
    Except Fault (ArpCache Packet × List (Happened Packet)) := do
  let handled ← handle c s event
  .ok (handled.1, [⟨event, s, handled.2⟩])

end ArpL3Protocol
end Ns3Joined.Internet.Arp
