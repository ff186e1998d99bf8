import Mathlib.Data.UInt
import Ns3Joined.Fault
import Ns3Joined.Library.NodeList
import Ns3Joined.Library.PaddedFrames
import Ns3Joined.Wifi.WifiMacHeader

/-!
# A-MPDUs and A-MSDUs

`MpduAggregator` and `MsduAggregator` (`mpdu-aggregator.cc`, `msdu-aggregator.cc`) with the headers
of their subframes. A packet is its octets, and the counters of 32 bits that go over the octets of
one packet are natural numbers; the sizes that are cut to 16, 14 or 8 bits are not. What the
station and the recipient are configured for decides how much may be aggregated: `GetNextAmsdu`
takes it as it is.
-/

namespace Ns3Joined.Wifi

open PaddedFrames (padding)

/-- The octets of a `Packet`. -/
abbrev Octets := List UInt8

/-! ### Subframe headers -/

/-- A header with a length, in front of a subframe. -/
class SubframeHeader (H : Type) where
  GetSerializedSize : ℕ
  Serialize : H → Octets
  /-- From the front of a packet that may be too short. -/
  Deserialize : Octets → Option H
  GetLength : H → UInt16
  size_pos : 0 < GetSerializedSize

structure AmpduSubframeHeader where
  m_length : UInt16
  m_eof : Bool
  m_signature : UInt8
deriving DecidableEq, Repr

namespace AmpduSubframeHeader

/-- The field of the length and the EOF bit; the length is not masked. -/
def field (hdr : AmpduSubframeHeader) : UInt16 :=
  (if hdr.m_eof then 0x8000 else 0) ||| hdr.m_length

instance : SubframeHeader AmpduSubframeHeader where
  GetSerializedSize := 2 + 1 + 1
  Serialize hdr := [hdr.field.toUInt8, (hdr.field >>> 8).toUInt8, 1, hdr.m_signature]
  Deserialize
    | low :: high :: _ :: signature :: _ =>
      let field := low.toUInt16 ||| high.toUInt16 <<< 8
      some ⟨field &&& 0x3fff, field &&& 0x8000 != 0, signature⟩
    | _ => none
  GetLength := m_length
  size_pos := by decide

end AmpduSubframeHeader

structure AmsduSubframeHeader where
  m_da : Mac48Address
  m_sa : Mac48Address
  m_length : UInt16
deriving DecidableEq

namespace AmsduSubframeHeader

instance : SubframeHeader AmsduSubframeHeader where
  GetSerializedSize := 6 + 6 + 2
  Serialize hdr := List.ofFn hdr.m_da.m_address ++ List.ofFn hdr.m_sa.m_address ++
    [(hdr.m_length >>> 8).toUInt8, hdr.m_length.toUInt8]
  Deserialize packet :=
    match packet.drop 12 with
    | high :: low :: _ => some ⟨⟨fun i => packet.getD i 0⟩, ⟨fun i => packet.getD (6 + i) 0⟩,
        high.toUInt16 <<< 8 ||| low.toUInt16⟩
    | _ => none
  GetLength := m_length
  size_pos := by decide

end AmsduSubframeHeader

/-! ### Packets -/

/-- `Packet::RemoveHeader`: the header, and the packet without it. -/
def RemoveHeader (H : Type) [SubframeHeader H] (packet : Octets) :
    Except Fault (H × Octets) :=
  match SubframeHeader.Deserialize (H := H) packet with
  | none => .error .undefined
  | some hdr => .ok (hdr, packet.drop (SubframeHeader.GetSerializedSize H))

/-- `Packet::CreateFragment`. -/
def CreateFragment (packet : Octets) (start length : ℕ) : Except Fault Octets :=
  if packet.length < start + length then .error .abort
  else .ok ((packet.drop start).take length)

/-- The loop of both functions `Deaggregate`; they differ in the header and in how they find the
padding of a subframe from the extracted length. -/
def deaggregate (H : Type) [SubframeHeader H] (paddingOf : ℕ → ℕ) (maxSize deserialized : ℕ)
    (aggregatedPacket : Octets) : Except Fault (List (Octets × H)) :=
  if deserialized < maxSize then do
    let removed ← RemoveHeader H aggregatedPacket
    let extractedLength := (SubframeHeader.GetLength removed.1).toNat
    let extracted ← CreateFragment removed.2 0 extractedLength
    let after := deserialized + SubframeHeader.GetSerializedSize H + extractedLength
    -- the last subframe is not padded
    let skipped := if after < maxSize then paddingOf extractedLength else 0
    let set ← deaggregate H paddingOf maxSize (after + skipped)
      (removed.2.drop (extractedLength + skipped))
    return (extracted, removed.1) :: set
  else .ok []
termination_by maxSize - deserialized
decreasing_by
  have hpos := SubframeHeader.size_pos (H := H)
  omega

/-! ### A-MPDUs -/

/-- The trailer of a frame; the FCS is not computed. -/
def WifiMacTrailer : Octets := [0, 0, 0, 0]

/-- A `WifiMacQueueItem` with the octets of its header. -/
structure Mpdu where
  m_packet : Octets
  m_header : Octets

/-- The frame with header and FCS. -/
def Mpdu.octets (mpdu : Mpdu) : Octets := mpdu.m_header ++ mpdu.m_packet ++ WifiMacTrailer

/-- `WifiMacQueueItem::GetSize`. -/
def Mpdu.GetSize (mpdu : Mpdu) : ℕ :=
  mpdu.m_packet.length + mpdu.m_header.length + WifiMacTrailer.length

namespace MpduAggregator

def CalculatePadding (ampduSize : ℕ) : ℕ := (4 - ampduSize % 4) % 4

def GetSizeIfAggregated (mpduSize ampduSize : ℕ) : ℕ :=
  ampduSize + CalculatePadding ampduSize + 4 + mpduSize

/-- The header that `Aggregate` adds. -/
def subframeHeader (mpdu : Mpdu) (isSingle : Bool) : AmpduSubframeHeader :=
  ⟨mpdu.octets.length.toUInt16, isSingle, 0x4E⟩

/-- The A-MPDU with the next MPDU. -/
def Aggregate (mpdu : Mpdu) (ampdu : Octets) (isSingle : Bool) : Except Fault Octets :=
  if isSingle ∧ ampdu.length ≠ 0 then .error .abort
  else
    -- pad the previous A-MPDU subframe if the A-MPDU is not empty
    let padded := if ampdu.length > 0
      then ampdu ++ List.replicate (CalculatePadding ampdu.length) 0 else ampdu
    .ok (padded ++ (SubframeHeader.Serialize (subframeHeader mpdu isSingle) ++ mpdu.octets))

def Deaggregate (aggregatedPacket : Octets) :
    Except Fault (List (Octets × AmpduSubframeHeader)) :=
  deaggregate AmpduSubframeHeader (fun extractedLength => (4 - extractedLength % 4) % 4)
    aggregatedPacket.length 0 aggregatedPacket

/-- The loop of `PeekAmpduSubframes`. At most 4 + 16383 + 3 octets are extracted at a time. -/
def peekSubframes (aggregatedPacket : Octets) (deserialized : ℕ) : Except Fault (List Octets) :=
  if deserialized < aggregatedPacket.length then do
    let tempPacket ← CreateFragment aggregatedPacket deserialized 4
    let removed ← RemoveHeader AmpduSubframeHeader tempPacket
    let length := removed.1.m_length.toNat
    let bytes := 4 + length
    let padding := if deserialized + bytes < aggregatedPacket.length
      then (4 - length % 4) % 4 else 0
    let subframe ← CreateFragment aggregatedPacket deserialized (bytes + padding)
    let ampduSubframes ← peekSubframes aggregatedPacket (deserialized + (bytes + padding))
    return subframe :: ampduSubframes
  else .ok []
termination_by aggregatedPacket.length - deserialized

def PeekAmpduSubframes (aggregatedPacket : Octets) : Except Fault (List Octets) :=
  peekSubframes aggregatedPacket 0

def PeekMpduInAmpduSubframe (ampduSubframe : Octets) : Except Fault Octets := do
  let removed ← RemoveHeader AmpduSubframeHeader ampduSubframe
  CreateFragment ampduSubframe 4 removed.1.m_length.toNat

def PeekMpdus (aggregatedPacket : Octets) : Except Fault (List Octets) := do
  let ampduSubframes ← PeekAmpduSubframes aggregatedPacket
  ampduSubframes.mapM PeekMpduInAmpduSubframe

end MpduAggregator

/-! ### A-MSDUs -/

inductive TypeOfStation
  | STA | AP | ADHOC_STA | MESH | HT_STA | HT_AP | HT_ADHOC_STA | OCB
deriving DecidableEq, Repr

/-- `Mac48Address::IsBroadcast`. -/
def Mac48Address.IsBroadcast (a : Mac48Address) : Bool := a == ⟨fun _ => 0xff⟩

/-- A `WifiMacHeader` with the fields of a data frame that aggregation uses. -/
structure DataHeader extends WifiMacHeader where
  m_ctrlToDs : Bool
  m_ctrlFromDs : Bool
  m_addr3 : Mac48Address
  m_amsduPresent : Bool
deriving DecidableEq

/-- `WifiMacHeader::GetSize`, of a data frame. -/
def DataHeader.GetSize (hdr : DataHeader) : ℕ :=
  2 + 2 + 6 + 6 + 6 + 2 + (if hdr.m_ctrlToDs && hdr.m_ctrlFromDs then 6 else 0) +
    (if hdr.m_ctrlSubtype &&& 0x08 != 0 then 2 else 0)

/-- A `WifiMacQueueItem` of a data frame. -/
structure QueuedMsdu where
  m_packet : Octets
  m_header : DataHeader
  m_tstamp : ℤ
deriving DecidableEq

/-- A queue with what a `QosTxop` and what it refers to know: the A-MSDUs that a recipient may be
sent, and whether a frame of a size is within the limits of A-MPDUs and of durations. -/
structure QosTxop where
  m_queue : NodeList QueuedMsdu
  m_maxDelay : ℤ
  m_typeOfStation : TypeOfStation
  m_bssid : Mac48Address
  maxAmsduSize : UInt16
  IsWithinSizeAndTimeLimits : ℕ → Bool

namespace QosTxop

def MapSrcAddressForAggregation (txop : QosTxop) (hdr : DataHeader) : Mac48Address :=
  if txop.m_typeOfStation = .STA ∨ txop.m_typeOfStation = .ADHOC_STA then hdr.m_addr2
  else hdr.m_addr3

def MapDestAddressForAggregation (txop : QosTxop) (hdr : DataHeader) : Mac48Address :=
  if txop.m_typeOfStation = .AP ∨ txop.m_typeOfStation = .ADHOC_STA then hdr.m_addr1
  else hdr.m_addr3

/-- The item has not stayed in the queue for too long. -/
def isLive (txop : QosTxop) (now : ℤ) (item : QueuedMsdu) : Bool :=
  now ≤ item.m_tstamp + txop.m_maxDelay

/-- What `PeekByTidAndAddress` looks for. -/
def isPeeked (txop : QosTxop) (now : ℤ) (tid : ℕ) (dest : Mac48Address) (item : QueuedMsdu) :
    Bool :=
  txop.isLive now item && (item.m_header.IsQosData && item.m_header.m_addr1 == dest &&
    item.m_header.m_qosTid == tid)

end QosTxop

namespace MsduAggregator

def CalculatePadding (amsduSize : UInt16) : UInt16 := (4 - amsduSize % 4) % 4

def GetSizeIfAggregated (msduSize amsduSize : UInt16) : UInt16 :=
  amsduSize + CalculatePadding amsduSize + 14 + msduSize

/-- The A-MSDU with the next MSDU. -/
def Aggregate (msdu amsdu : Octets) (src dest : Mac48Address) : Octets :=
  -- pad the previous A-MSDU subframe if the A-MSDU is not empty
  let padded := if amsdu.length > 0
    then amsdu ++ List.replicate (CalculatePadding amsdu.length.toUInt16).toNat 0 else amsdu
  let hdr : AmsduSubframeHeader := ⟨dest, src, msdu.length.toUInt16⟩
  padded ++ (SubframeHeader.Serialize hdr ++ msdu)

def Deaggregate (aggregatedPacket : Octets) :
    Except Fault (List (Octets × AmsduSubframeHeader)) :=
  deaggregate AmsduSubframeHeader (fun extractedLength => (4 - (extractedLength + 14) % 4) % 4)
    aggregatedPacket.length 0 aggregatedPacket

/-- The variables of the loop of `GetNextAmsdu`. -/
structure NextAmsdu where
  queue : NodeList QueuedMsdu
  amsdu : Octets
  nMsdu : UInt8
  tstamp : ℤ

/-- The loop of `GetNextAmsdu` over the nodes from the iterator on. -/
def aggregateNext (txop : QosTxop) (now : ℤ) (recipient : Mac48Address) (tid : ℕ)
    (header : DataHeader) : NextAmsdu → List (ℕ × QueuedMsdu) → NextAmsdu
  | s, [] => s
  | s, (i, item) :: rest =>
    if txop.isPeeked now tid recipient item = false then
      -- `PeekByTidAndAddress` passes it
      aggregateNext txop now recipient tid header s rest
    else
      let newAmsduSize :=
        GetSizeIfAggregated item.m_packet.length.toUInt16 s.amsdu.length.toUInt16
      if newAmsduSize > txop.maxAmsduSize then s
      else if txop.IsWithinSizeAndTimeLimits
          (header.GetSize + newAmsduSize.toNat + WifiMacTrailer.length) = false then s
      else
        let s' : NextAmsdu :=
          { -- if it is the first MSDU, move to the next one, otherwise remove it from the queue
            queue := if s.nMsdu = 0 then s.queue else s.queue.erase i
            amsdu := Aggregate item.m_packet s.amsdu (txop.MapSrcAddressForAggregation header)
              (txop.MapDestAddressForAggregation header)
            nMsdu := s.nMsdu + 1
            tstamp := max s.tstamp item.m_tstamp }
        aggregateNext txop now recipient tid header s' rest

/-- What is returned, and the queue. -/
def GetNextAmsdu (txop : QosTxop) (now : ℤ) (recipient : Mac48Address) (tid : ℕ) :
    Except Fault (Option QueuedMsdu × NodeList QueuedMsdu) :=
  if recipient.IsBroadcast then .error .abort
  else
    match txop.m_queue.nodes.dropWhile fun node => !txop.isPeeked now tid recipient node.2 with
    | [] => .ok (none, txop.m_queue)
    | (first, item) :: rest =>
      if txop.maxAmsduSize = 0 then .ok (none, txop.m_queue)
      else
        let s := aggregateNext txop now recipient tid item.m_header
          ⟨txop.m_queue, [], 0, item.m_tstamp⟩ ((first, item) :: rest)
        -- aggregation failed (could not aggregate at least two MSDUs)
        if s.nMsdu < 2 then .ok (none, s.queue)
        else
          -- aggregation succeeded, we have to remove the first MSDU
          let header :=
            { item.m_header with m_amsduPresent := true, m_addr3 := txop.m_bssid }
          .ok (some ⟨s.amsdu, header, s.tstamp⟩, s.queue.erase first)

end MsduAggregator

end Ns3Joined.Wifi
