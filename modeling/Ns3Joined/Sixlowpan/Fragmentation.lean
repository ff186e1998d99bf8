import Mathlib.Data.Int.Notation
import Ns3Joined.Fault
import Ns3Joined.Library.KeyedTable

/-!
# 6LoWPAN fragmentation and reassembly

`DoFragmentation`, `ProcessFragment` and the class `Fragments` of `sixlowpan-net-device.cc`, with
the two fragment headers of `sixlowpan-header.cc`.

The offset of a fragment counts the bytes of the packet before compression, in units of 8, while
it is the compressed packet that is cut. The receiver therefore decompresses the first fragment
to learn how far it reaches. How a packet is decompressed is a parameter of the device.
-/

namespace Ns3Joined.Sixlowpan

open KeyedTable (erase find insert)

/-- A packet, for its bytes. -/
abbrev Packet := List UInt8

/-- A link-layer address, by its place in the order of addresses. -/
abbrev Address := ℕ

/-- Subtraction of `uint32_t`. -/
def sub32 (a b : ℕ) : ℕ := (a + 4294967296 - b) % 4294967296

/-! ### Headers -/

/-- `SixLowPanFrag1`. -/
structure Frag1 where
  m_datagramSize : ℕ
  m_datagramTag : ℕ
deriving DecidableEq, Repr

/-- `SixLowPanFragN`. -/
structure FragN where
  m_datagramSize : ℕ
  m_datagramTag : ℕ
  m_datagramOffset : ℕ
deriving DecidableEq, Repr

/-- The two bytes of a number, the high one first. -/
def writeU16 (n : ℕ) : Packet := [UInt8.ofNat (n >>> 8), UInt8.ofNat (n &&& 0xff)]

/-- The number of two bytes. -/
def readU16 (high low : UInt8) : ℕ := high.toNat <<< 8 ||| low.toNat

namespace Frag1

/-- `GetSerializedSize`. -/
def serializedSize : ℕ := 4

/-- With the setters, which keep 11 and 16 bits. -/
def new (size tag : ℕ) : Frag1 := ⟨size &&& 0x7ff, tag % 65536⟩

def Serialize (h : Frag1) : Packet :=
  writeU16 (0xc0 <<< 8 ||| h.m_datagramSize) ++ writeU16 h.m_datagramTag

/-- `RemoveHeader`, with `Deserialize`. -/
def RemoveHeader : Packet → Except Fault (Frag1 × Packet)
  | b₀ :: b₁ :: b₂ :: b₃ :: p => .ok (⟨readU16 b₀ b₁ &&& 0x7ff, readU16 b₂ b₃⟩, p)
  | _ => .error .outOfRange

end Frag1

namespace FragN

/-- `GetSerializedSize`. -/
def serializedSize : ℕ := 5

/-- With the setters, which keep 11, 16 and 8 bits. -/
def new (size tag offset : ℕ) : FragN := ⟨size &&& 0x7ff, tag % 65536, offset % 256⟩

def Serialize (h : FragN) : Packet :=
  writeU16 (0xe0 <<< 8 ||| h.m_datagramSize) ++ writeU16 h.m_datagramTag ++
    [UInt8.ofNat h.m_datagramOffset]

/-- `RemoveHeader`, with `Deserialize`. -/
def RemoveHeader : Packet → Except Fault (FragN × Packet)
  | b₀ :: b₁ :: b₂ :: b₃ :: b₄ :: p =>
    .ok (⟨readU16 b₀ b₁ &&& 0x7ff, readU16 b₂ b₃, b₄.toNat⟩, p)
  | _ => .error .outOfRange

end FragN

/-! ### Fragmentation -/

/-- `Packet::CreateFragment`. -/
def CreateFragment (p : Packet) (start length : ℕ) : Except Fault Packet :=
  if start + length ≤ p.length then .ok ((p.drop start).take length) else .error .abort

/-- The loop of `DoFragmentation`, at most so many rounds of it. -/
def fragmentLoop (p : Packet) (origPacketSize tag l2Mtu : ℕ) :
    ℕ → ℕ → ℕ → Except Fault (List Packet)
  | 0, _, _ => .error .diverges
  | rounds + 1, offset, offsetData => do
    let fragNHdr := FragN.new origPacketSize tag (offset >>> 3)
    let size := sub32 l2Mtu FragN.serializedSize
    let size := size - size % 8
    if offsetData + size > p.length then
      let fragment ← CreateFragment p offsetData (p.length - offsetData)
      .ok [fragNHdr.Serialize ++ fragment]
    else
      let fragment ← CreateFragment p offsetData size
      let rest ← fragmentLoop p origPacketSize tag l2Mtu rounds
        ((offset + size) % 65536) ((offsetData + size) % 65536)
      .ok ((fragNHdr.Serialize ++ fragment) :: rest)

/-- `DoFragmentation`, with the tag that has been drawn. A loop that has made more rounds than
there are bytes does not end. -/
def DoFragmentation (packet : Packet) (origPacketSize origHdrSize l2Mtu tag : ℕ) :
    Except Fault (List Packet) := do
  let compressedHeaderSize := sub32 packet.length (sub32 origPacketSize origHdrSize)
  if l2Mtu ≤ Frag1.serializedSize then .error .abort
  else
    let size := sub32 (sub32 l2Mtu Frag1.serializedSize) compressedHeaderSize
    let size := size - size % 8
    let size := (size + compressedHeaderSize) % 4294967296
    let fragment1 ← CreateFragment packet 0 size
    let offset := sub32 (size + origHdrSize) compressedHeaderSize % 65536
    let rest ← fragmentLoop packet origPacketSize tag l2Mtu (packet.length + 2) offset
      (size % 65536)
    .ok (((Frag1.new origPacketSize tag).Serialize ++ fragment1) :: rest)

/-! ### `Fragments` -/

/-- A `Fragments`, with `m_fragments` by their offsets. -/
structure Fragments where
  m_packetSize : ℕ
  m_fragments : List (Packet × ℕ)
  m_firstFragment : Option Packet
deriving DecidableEq, Repr

namespace Fragments

/-- The constructor and `SetPacketSize`. -/
def new (packetSize : ℕ) : Fragments := ⟨packetSize, [], none⟩

/-- The loop of `AddFragment` and the insertion after it. -/
def insertFragment (fragment : Packet) (fragmentOffset : ℕ) :
    List (Packet × ℕ) → Except Fault (List (Packet × ℕ))
  | [] => .ok [(fragment, fragmentOffset)]
  | it :: rest =>
    if it.2 > fragmentOffset then .ok ((fragment, fragmentOffset) :: it :: rest)
    else if it.2 = fragmentOffset then
      if fragment.length = it.1.length then .ok (it :: rest) else .error .abort
    else do
      let rest ← insertFragment fragment fragmentOffset rest
      .ok (it :: rest)

def AddFragment (f : Fragments) (fragment : Packet) (fragmentOffset : ℕ) :
    Except Fault Fragments := do
  let fragments ← insertFragment fragment fragmentOffset f.m_fragments
  .ok { f with m_fragments := fragments }

/-- The loop of `IsEntire`: how far the fragments reach, if there is no hole. -/
def lastEnd : ℕ → List (Packet × ℕ) → Option ℕ
  | lastEndOffset, [] => some lastEndOffset
  | lastEndOffset, it :: rest =>
    if lastEndOffset < it.2 then none
    else lastEnd (max lastEndOffset ((it.1.length + it.2) % 65536)) rest

def IsEntire (f : Fragments) : Bool :=
  !f.m_fragments.isEmpty && lastEnd 0 f.m_fragments == some f.m_packetSize

/-- The loop of `GetPacket`. -/
def appendFragments : Packet → ℕ → List (Packet × ℕ) → Except Fault Packet
  | p, _, [] => .ok p
  | p, lastEndOffset, it :: rest =>
    if lastEndOffset > it.2 then .error .abort
    else appendFragments (p ++ it.1) ((lastEndOffset + it.1.length) % 65536) rest

/-- `GetPacket`: there must be a first fragment, as it came, and the others go after it. -/
def GetPacket (f : Fragments) : Except Fault Packet :=
  match f.m_firstFragment, f.m_fragments with
  | some first, it :: rest => appendFragments first (it.1.length % 65536) rest
  | _, _ => .error .undefined

end Fragments

/-! ### Reassembly -/

/-- A `FragmentKey`: the addresses, and the size and the tag of the datagram. -/
structure FragmentKey where
  src : Address
  dst : Address
  size : ℕ
  tag : ℕ
deriving DecidableEq, Repr

/-- The order of the keys in the maps. -/
def FragmentKey.lt (a b : FragmentKey) : Bool :=
  a.src < b.src || a.src == b.src && (a.dst < b.dst || a.dst == b.dst &&
    (a.size < b.size || a.size == b.size && a.tag < b.tag))

/-- A `SixLowPanNetDevice`, for what reassembly needs of it: the fragments and, for each key, the
time at which its timer is to expire. -/
structure SixLowPanNetDevice where
  m_fragments : List (FragmentKey × Fragments)
  m_fragmentsTimers : List (FragmentKey × ℤ)
  m_fragmentReassemblyListSize : ℕ
  m_fragmentExpirationTimeout : ℤ
  DecompressLowPanHc1 : Packet → Address → Address → Except Fault Packet
  DecompressLowPanIphc : Packet → Address → Address → Except Fault Packet

namespace SixLowPanNetDevice

/-- The first fragment without its fragment header, decompressed by its dispatch byte. -/
def decompressFirst (d : SixLowPanNetDevice) (p : Packet) (src dst : Address) :
    Except Fault Packet :=
  match p with
  | [] => .error .outOfRange
  | dispatch :: rest =>
    if dispatch = 0x41 then .ok rest
    else if dispatch = 0x42 then d.DecompressLowPanHc1 p src dst
    else if 0x60 ≤ dispatch && dispatch ≤ 0x7f then d.DecompressLowPanIphc p src dst
    else .error .abort

/-- The timer that expires first; of those that expire together, the first in the map. -/
def oldest : FragmentKey × ℤ → List (FragmentKey × ℤ) → FragmentKey × ℤ
  | found, [] => found
  | found, timer :: timers =>
    oldest (if timer.2 < found.2 || timer.2 == found.2 && timer.1.lt found.1 then timer else found)
      timers

/-- Room for another datagram is made by dropping the oldest one, the fragments of which are
returned. -/
def dropOldest (d : SixLowPanNetDevice) : Except Fault (SixLowPanNetDevice × List Packet) :=
  match d.m_fragmentsTimers with
  | [] => .error .undefined
  | timer :: timers =>
    let oldestKey := (oldest timer timers).1
    match find Prod.fst oldestKey d.m_fragments with
    | none => .error .undefined
    | some entry =>
      .ok ({ d with
        m_fragments := erase Prod.fst oldestKey d.m_fragments
        m_fragmentsTimers := erase Prod.fst oldestKey d.m_fragmentsTimers },
        entry.2.m_fragments.map Prod.fst)

/-- The fragments of a key; where there are none, there is now an entry with a timer. -/
def lookup (d : SixLowPanNetDevice) (now : ℤ) (key : FragmentKey) (packetSize : ℕ) :
    Except Fault (SixLowPanNetDevice × List Packet × Fragments) :=
  match find Prod.fst key d.m_fragments with
  | some entry => .ok (d, [], entry.2)
  | none => do
    let (d, dropped) ←
      if d.m_fragmentReassemblyListSize ≠ 0 ∧
          d.m_fragmentReassemblyListSize ≤ d.m_fragments.length then d.dropOldest
      else .ok (d, [])
    let fragments := Fragments.new packetSize
    .ok ({ d with
      m_fragments := insert Prod.fst (key, fragments) d.m_fragments
      m_fragmentsTimers := insert Prod.fst
        (key, now + d.m_fragmentExpirationTimeout) d.m_fragmentsTimers }, dropped, fragments)

/-- What `ProcessFragment` does with a fragment that has been read: `p` is what it covers of the
datagram, and `first` the packet as it came if it is the first one. A datagram that is entire is
returned, without the fragment header of its first fragment. -/
def storeFragment (d : SixLowPanNetDevice) (now : ℤ) (key : FragmentKey) (p : Packet) (offset : ℕ)
    (first : Option Packet) : Except Fault (SixLowPanNetDevice × List Packet × Option Packet) := do
  let (d, dropped, fragments) ← d.lookup now key key.size
  let fragments ← fragments.AddFragment p offset
  let fragments :=
    match first with
    | some packet => { fragments with m_firstFragment := some packet }
    | none => fragments
  if fragments.IsEntire then
    let packet ← fragments.GetPacket
    let (_, packet) ← Frag1.RemoveHeader packet
    .ok ({ d with
      m_fragments := erase Prod.fst key d.m_fragments
      m_fragmentsTimers := erase Prod.fst key d.m_fragmentsTimers },
      dropped, some packet)
  else
    .ok ({ d with m_fragments := insert Prod.fst (key, fragments) d.m_fragments },
      dropped, none)

/-- `ProcessFragment`, with the packets that are dropped and the packet if it is complete. -/
def ProcessFragment (d : SixLowPanNetDevice) (now : ℤ) (packet : Packet) (src dst : Address)
    (isFirst : Bool) : Except Fault (SixLowPanNetDevice × List Packet × Option Packet) :=
  if isFirst then do
    let (frag1Header, p) ← Frag1.RemoveHeader packet
    let p ← d.decompressFirst p src dst
    d.storeFragment now ⟨src, dst, frag1Header.m_datagramSize, frag1Header.m_datagramTag⟩ p 0
      (some packet)
  else do
    let (fragNHeader, p) ← FragN.RemoveHeader packet
    d.storeFragment now ⟨src, dst, fragNHeader.m_datagramSize, fragNHeader.m_datagramTag⟩ p
      (fragNHeader.m_datagramOffset <<< 3) none

/-- What `ReceiveFromDevice` does with a fragment, by its dispatch byte. -/
def receive (d : SixLowPanNetDevice) (now : ℤ) (packet : Packet) (src dst : Address) :
    Except Fault (SixLowPanNetDevice × List Packet × Option Packet) :=
  match packet with
  | [] => .error .outOfRange
  | dispatch :: _ =>
    if 0xc0 ≤ dispatch && dispatch ≤ 0xc7 then d.ProcessFragment now packet src dst true
    else if 0xe0 ≤ dispatch && dispatch ≤ 0xe7 then d.ProcessFragment now packet src dst false
    else .error .abort

/-- Fragments that come one after the other, each at some time, and what each completes. -/
def receiveAll (d : SixLowPanNetDevice) (src dst : Address) :
    List (ℤ × Packet) → Except Fault (SixLowPanNetDevice × List (Option Packet))
  | [] => .ok (d, [])
  | (now, packet) :: rest => do
    let (d, _, answer) ← d.receive now packet src dst
    let (d, answers) ← receiveAll d src dst rest
    .ok (d, answer :: answers)

end SixLowPanNetDevice
end Ns3Joined.Sixlowpan
