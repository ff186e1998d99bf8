import Mathlib.Data.UInt
import Ns3Joined.Fault
import Ns3Joined.Library.Refinement
import Ns3Joined.Library.Slices

/-!
# IPv4 fragmentation and reassembly

`Ipv4L3Protocol::DoFragmentation`, `ProcessFragment` and the class `Fragments`
(`ipv4-l3-protocol.cc`).

* `DoFragmentation`: the loop that cuts a packet.
* `Fragments`: the fragments received under one key, by their offsets, and the flag
  `m_moreFragment` of the one that was put at the end.
* `ProcessFragment`, `HandleFragmentsTimeout`: the operations on the fragments of all keys.
* `Obtained`: what fragmentation, done any number of times, makes of a datagram.
* `reassembly`: what the component is for.
-/

namespace Ns3Joined.Internet

open Function

/-- A packet, for its bytes. -/
abbrev Packet := List UInt8

/-- The fields of an `Ipv4Header` that fragmentation is about; `m_moreFragments` is the bit
`MORE_FRAGMENTS` of `m_flags`. -/
structure Ipv4Header where
  m_source : UInt32
  m_destination : UInt32
  m_identification : UInt16
  m_protocol : UInt8
  m_moreFragments : Bool
  m_fragmentOffset : ℕ
  m_payloadSize : ℕ
deriving DecidableEq

namespace Ipv4Header

/-- `GetSerializedSize`, without options. -/
def GetSerializedSize (_ : Ipv4Header) : ℕ := 5 * 4

def IsLastFragment (h : Ipv4Header) : Bool := !h.m_moreFragments

def SetMoreFragments (h : Ipv4Header) : Ipv4Header := { h with m_moreFragments := true }

def SetLastFragment (h : Ipv4Header) : Ipv4Header := { h with m_moreFragments := false }

/-- `SetFragmentOffset`: the offset is 16 bits wide, and a multiple of 8. -/
def SetFragmentOffset (h : Ipv4Header) (offsetBytes : ℕ) : Except Fault Ipv4Header :=
  if (offsetBytes % 65536) % 8 ≠ 0 then .error .abort
  else .ok { h with m_fragmentOffset := offsetBytes % 65536 }

def SetPayloadSize (h : Ipv4Header) (size : ℕ) : Ipv4Header :=
  { h with m_payloadSize := size % 65536 }

end Ipv4Header

/-- A fragment: its bytes and its header. -/
abbrev Fragment := Packet × Ipv4Header

/-! ### Fragmentation -/

/-- The loop of `DoFragmentation`, for that many rounds. -/
def fragmentLoop (p : Packet) (ipv4Header : Ipv4Header) (fragmentSize : ℕ) :
    ℕ → ℕ → Except Fault (List Fragment)
  | 0, _ => .error .diverges
  | rounds + 1, offset =>
    if p.length > offset + fragmentSize then do
      let fragmentHeader := ipv4Header.SetMoreFragments
      let fragment := (p.drop offset).take fragmentSize
      let fragmentHeader ←
        fragmentHeader.SetFragmentOffset (offset + ipv4Header.m_fragmentOffset)
      let fragmentHeader := fragmentHeader.SetPayloadSize fragmentSize
      let rest ← fragmentLoop p ipv4Header fragmentSize rounds ((offset + fragmentSize) % 65536)
      .ok ((fragment, fragmentHeader) :: rest)
    else do
      let currentFragmentablePartSize := p.length - offset
      let fragmentHeader :=
        if !ipv4Header.IsLastFragment then ipv4Header.SetMoreFragments
        else ipv4Header.SetLastFragment
      let fragment := (p.drop offset).take currentFragmentablePartSize
      let fragmentHeader ←
        fragmentHeader.SetFragmentOffset (offset + ipv4Header.m_fragmentOffset)
      let fragmentHeader := fragmentHeader.SetPayloadSize currentFragmentablePartSize
      .ok [(fragment, fragmentHeader)]

/-- `DoFragmentation`: the fragments are as large as the MTU admits, down to a multiple of 8 bytes.
A round more than there are bytes is one of a loop that does not end. -/
def DoFragmentation (packet : Packet) (ipv4Header : Ipv4Header) (outIfaceMtu : ℕ) :
    Except Fault (List Fragment) :=
  let fragmentSize := (outIfaceMtu - ipv4Header.GetSerializedSize) / 8 * 8
  fragmentLoop packet ipv4Header fragmentSize (packet.length + 1) 0

/-! ### Reassembly -/

/-- A `Fragments`. -/
structure Fragments where
  m_moreFragment : Bool
  m_fragments : List (Packet × ℕ)
deriving DecidableEq

namespace Fragments

/-- The constructor. -/
def new : Fragments := ⟨false, []⟩

/-- `AddFragment`: before the first one with a larger offset, and if there is none at the end. -/
def AddFragment (f : Fragments) (fragment : Packet) (fragmentOffset : ℕ) (moreFragment : Bool) :
    Fragments :=
  let before := f.m_fragments.takeWhile fun x => !decide (x.2 > fragmentOffset)
  let it := f.m_fragments.dropWhile fun x => !decide (x.2 > fragmentOffset)
  { m_moreFragment := if it.isEmpty then moreFragment else f.m_moreFragment
    m_fragments := before ++ (fragment, fragmentOffset) :: it }

/-- The loop of `IsEntire`. -/
def checkOverlaps : ℕ → List (Packet × ℕ) → Bool
  | _, [] => true
  | lastEndOffset, it :: rest =>
    if lastEndOffset < it.2 then
      false
    else
      let fragmentEnd := (it.1.length + it.2) % 65536
      checkOverlaps (max lastEndOffset fragmentEnd) rest

def IsEntire (f : Fragments) : Bool :=
  if !f.m_moreFragment && f.m_fragments.length > 0 then checkOverlaps 0 f.m_fragments else false

/-- The body of the loop of `GetPacket`. -/
def appendFragment (p : Packet) (it : Packet × ℕ) : Packet :=
  let lastEndOffset := p.length % 65536
  if lastEndOffset > it.2 then
    let newStart := lastEndOffset - it.2
    if it.1.length > newStart then
      let newSize := it.1.length - newStart
      p ++ (it.1.drop newStart).take newSize
    else
      p
  else
    p ++ it.1

def GetPacket (f : Fragments) : Except Fault Packet :=
  match f.m_fragments with
  | [] => .error .undefined
  | it :: rest => .ok (rest.foldl appendFragment it.1)

end Fragments

/-- What the map `m_fragments` is keyed with: addresses, and identification and protocol. -/
abbrev Key := UInt64 × UInt32

/-- The key of `ProcessFragment`. -/
def Ipv4Header.key (h : Ipv4Header) : Key :=
  ((h.m_source.toUInt64 <<< 32) ||| h.m_destination.toUInt64,
    (h.m_identification.toUInt32 <<< 16) ||| h.m_protocol.toUInt32)

/-- The member `m_fragments` of an `Ipv4L3Protocol`. The timers are left out, but for what they do
to it (`HandleFragmentsTimeout`). -/
abbrev MapFragments := Key → Option Fragments

/-- `ProcessFragment`, which returns the packet if it is complete. -/
def ProcessFragment (m : MapFragments) (packet : Packet) (ipHeader : Ipv4Header) :
    Except Fault (MapFragments × Option Packet) :=
  let key := ipHeader.key
  let fragments := ((m key).getD .new).AddFragment packet ipHeader.m_fragmentOffset
    (!ipHeader.IsLastFragment)
  if fragments.IsEntire then do
    let packet ← fragments.GetPacket
    .ok (update m key none, some packet)
  else
    .ok (update m key (some fragments), none)

/-- `HandleFragmentsTimeout`, as far as `m_fragments` goes: the partial packet is dropped. -/
def HandleFragmentsTimeout (m : MapFragments) (key : Key) : Except Fault MapFragments :=
  match m key with
  | none => .error .undefined
  | some _ => .ok (update m key none)

/-- What happens to the fragments: one is received, or the timer of a key expires. -/
inductive Call
  | processFragment (packet : Packet) (ipHeader : Ipv4Header)
  | handleFragmentsTimeout (key : Key)
deriving DecidableEq

/-- One of these. -/
def step (m : MapFragments) : Call → Except Fault (MapFragments × Option Packet)
  | .processFragment packet ipHeader => ProcessFragment m packet ipHeader
  | .handleFragmentsTimeout key => do .ok (← HandleFragmentsTimeout m key, none)

/-! ### What fragments are, and what they are put together to -/

/-- What there is of a datagram after any number of fragmentations, for links with any MTUs from
68 on, each of the datagram or of one of its fragments. -/
inductive Obtained (datagram : Fragment) : Fragment → Prop
  | datagram : Obtained datagram datagram
  | fragment {f g : Fragment} {mtu : ℕ} {l : List Fragment} (hf : Obtained datagram f)
      (hmtu : 68 ≤ mtu) (hok : DoFragmentation f.1 f.2 mtu = .ok l) (hmem : g ∈ l) :
      Obtained datagram g

/-- The header is that of a whole datagram. -/
def IsDatagram (h : Ipv4Header) : Prop := h.m_moreFragments = false ∧ h.m_fragmentOffset = 0

section Reassembly

variable (payload : Key → Packet)

/-- A fragment of the datagram with its key. -/
def IsFragment (f : Fragment) : Prop :=
  ∃ h, IsDatagram h ∧ h.key = f.2.key ∧ Obtained (payload f.2.key, h) f

/-- The fragments cover the whole payload and include its end. -/
def Covered (whole : Packet) (received : List Fragment) : Prop :=
  (∀ n < whole.length, ∃ f ∈ received, f.2.m_fragmentOffset ≤ n ∧
    n < f.2.m_fragmentOffset + f.1.length) ∧
  ∃ f ∈ received, f.2.m_fragmentOffset + f.1.length = whole.length

instance (whole : Packet) (received : List Fragment) : Decidable (Covered whole received) :=
  inferInstanceAs (Decidable (_ ∧ _))

/-- The fragments received under each key, the latest first, until a packet is complete or they
are dropped. -/
def reassembly : Refinement.Spec (Key → List Fragment) Call (Option Packet) where
  Allowed := fun received call =>
    match call with
    | .processFragment packet ipHeader => IsFragment payload (packet, ipHeader)
    | .handleFragmentsTimeout key => received key ≠ []
  next := fun received call =>
    match call with
    | .processFragment packet ipHeader =>
      let fragments := (packet, ipHeader) :: received ipHeader.key
      update received ipHeader.key
        (if Covered (payload ipHeader.key) fragments then [] else fragments)
    | .handleFragmentsTimeout key => update received key []
  answer := fun received call =>
    match call with
    | .processFragment packet ipHeader =>
      if Covered (payload ipHeader.key) ((packet, ipHeader) :: received ipHeader.key) then
        some (payload ipHeader.key)
      else
        none
    | .handleFragmentsTimeout _ => none

/-- Of the fragments that start last the one received last. -/
def startsLast : List Fragment → Option Fragment
  | [] => none
  | f :: received =>
    match startsLast received with
    | none => some f
    | some g => if g.2.m_fragmentOffset ≤ f.2.m_fragmentOffset then some f else some g

/-- When the fragments come to cover the payload, the one that starts last is the end of it. -/
def Fits (received : Key → List Fragment) : Call → Prop
  | .processFragment packet ipHeader =>
    Covered (payload ipHeader.key) ((packet, ipHeader) :: received ipHeader.key) →
      ∃ f ∈ startsLast ((packet, ipHeader) :: received ipHeader.key), f.2.IsLastFragment = true
  | .handleFragmentsTimeout _ => True

end Reassembly

end Ns3Joined.Internet
