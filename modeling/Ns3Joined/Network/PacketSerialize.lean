import Ns3Joined.Library.WriteLog
import Ns3Joined.Network.Buffer

/-!
# Serializing a packet

`Packet::Serialize` (`network/model/packet.cc`) writes the nix-vector, the metadata and the bytes
of a packet into memory of the caller, each behind a word with its length. `NixVector`,
`PacketMetadata` and `Buffer` have a `Serialize` of their own, which is given the memory from a
position on and what it may write at most.

Positions are offsets in the caller's memory, and what is written is a list of writes. Each of the
functions counts what it has written and compares it with the maximum before it goes on; within
`NixVector`, `PacketMetadata` and `Buffer` the count is the position less where it began.
Words are stored in the order of the host, the lowest byte first.
-/

namespace Ns3Joined.Network

open WriteLog (Write Piece writeAll)

/-- The lowest `n` bytes of a number. -/
def hostBytes : ℕ → ℕ → List UInt8
  | 0, _ => []
  | n + 1, v => UInt8.ofNat v :: hostBytes n (v / 256)

/-- `(n + 3) & (~3)`. -/
def align (n : UInt32) : UInt32 := (n + 3) &&& ~~~3

/-- `*p++ = v`. -/
def word (v : UInt32) : Piece UInt8 := .exact (hostBytes 4 v.toNat)

/-- What is counted after a position was reached is at most `maxSize`. -/
def counts (start : ℕ) (maxSize : UInt32) (stop : ℕ) : Bool :=
  decide (UInt32.ofNat (stop - start) ≤ maxSize)

structure NixVector where
  m_nixVector : List UInt32
  m_used : UInt32
  m_currentVectorBitSize : UInt32
  m_totalBitSize : UInt32
deriving DecidableEq, Repr

namespace NixVector

def GetSerializedSize (nix : NixVector) : UInt32 :=
  4 + 4 + 4 + UInt32.ofNat (4 * nix.m_nixVector.length)

/-- The three counters and the words of the vector: each is checked and stored in the same way. -/
def Serialize (nix : NixVector) (buffer : ℕ) (maxSize : UInt32) : List (Write UInt8) × UInt32 :=
  match writeAll (counts buffer maxSize) buffer
      (word nix.m_used :: word nix.m_currentVectorBitSize :: word nix.m_totalBitSize ::
        nix.m_nixVector.map word) with
  | (log, none) => (log, 0)
  | (log, some _) => (log, 1)

end NixVector

/-! ### Metadata -/

/-- A header, a trailer or payload that the packet has. -/
structure SmallItem where
  next : UInt16
  prev : UInt16
  typeUid : UInt32
  size : UInt32
  chunkUid : UInt16
deriving DecidableEq, Repr

/-- What is stored besides of one that may be a fragment. -/
structure ExtraItem where
  fragmentStart : UInt32
  fragmentEnd : UInt32
  packetUid : UInt64
deriving DecidableEq, Repr

/-- `PacketMetadata`, with the bytes of its `Data` and their number. Items are known by where they
are in these bytes. -/
structure PacketMetadata where
  m_data : ℕ → UInt8
  m_size : UInt16
  m_head : UInt16
  m_tail : UInt16
  m_packetUid : UInt64

namespace PacketMetadata

/-- The bytes that are read after the first `shift / 7` ones. -/
def readUleb128From (m_data : ℕ → UInt8) :
    ℕ → ℕ → UInt32 → UInt32 → Except Fault (UInt32 × ℕ)
  | 0, _, _, _ => .error .abort
  | n + 1, buffer, shift, result =>
    let byte := m_data buffer
    let result := result ||| ((byte &&& 0x7f).toUInt32 <<< shift)
    if byte &&& 0x80 = 0 then .ok (result, buffer + 1)
    else readUleb128From m_data n (buffer + 1) (shift + 7) result

/-- The number, and where the next one begins. -/
def ReadUleb128 (m_data : ℕ → UInt8) (buffer : ℕ) : Except Fault (UInt32 × ℕ) :=
  readUleb128From m_data 5 buffer 0 0

def read16 (m_data : ℕ → UInt8) (buffer : ℕ) : UInt16 :=
  (m_data buffer).toUInt16 ||| ((m_data (buffer + 1)).toUInt16 <<< 8)

/-- The last byte is shifted as an `int`, and a negative one has ones in front of it as a
`uint64_t`. -/
def readUid (m_data : ℕ → UInt8) (buffer : ℕ) : UInt64 :=
  (m_data buffer).toUInt64 ||| ((m_data (buffer + 1)).toUInt64 <<< 8) |||
    ((m_data (buffer + 2)).toUInt64 <<< 16) |||
    ((m_data (buffer + 3)).toUInt32 <<< 24).toInt32.toInt64.toUInt64

/-- The item, and how many bytes it takes. -/
def ReadItems (m : PacketMetadata) (current : UInt16) :
    Except Fault (SmallItem × ExtraItem × ℕ) := do
  if m.m_size < current then throw .abort
  let start := current.toNat
  let next := read16 m.m_data start
  let prev := read16 m.m_data (start + 2)
  let (typeUid, buffer) ← ReadUleb128 m.m_data (start + 4)
  let (size, buffer) ← ReadUleb128 m.m_data buffer
  let item : SmallItem := ⟨next, prev, typeUid, size, read16 m.m_data buffer⟩
  let buffer := buffer + 2
  if typeUid &&& 1 = 1 then
    let (fragmentStart, buffer) ← ReadUleb128 m.m_data buffer
    let (fragmentEnd, buffer) ← ReadUleb128 m.m_data buffer
    if m.m_size.toNat < buffer + 4 then throw .abort
    return (item, ⟨fragmentStart, fragmentEnd, readUid m.m_data buffer⟩, buffer + 4 - start)
  else
    if m.m_size.toNat < buffer then throw .abort
    return (item, ⟨0, size, m.m_packetUid⟩, buffer - start)

section Items

variable (m_enable : Bool) (typeName : UInt16 → List UInt8)

/-- `tid.GetName ()`, where the identifier of the type is a `uint16_t`. -/
def nameOf (uid : UInt32) : List UInt8 := typeName uid.toUInt16

def uidOf (item : SmallItem) : UInt32 := (item.typeUid &&& 0xfffffffe) >>> 1

/-- What `GetSerializedSize` adds for an item. -/
def itemSize (item : SmallItem) : UInt32 :=
  (if uidOf item = 0 then 4 else UInt32.ofNat (4 + (nameOf typeName (uidOf item)).length)) +
    (1 + 4 + 2 + 4 + 4 + 8)

/-- The loop of `GetSerializedSize`. There are not more offsets than rounds. -/
def sizeFrom (m : PacketMetadata) : ℕ → UInt16 → UInt32 → Except Fault UInt32
  | 0, _, _ => .error .diverges
  | fuel + 1, current, totalSize =>
    if current = 0xffff then .ok totalSize
    else do
      let (item, _, _) ← ReadItems m current
      let totalSize := totalSize + itemSize typeName item
      if current = m.m_tail then return totalSize
      if current = item.next then throw .abort
      sizeFrom m fuel item.next totalSize

def GetSerializedSize (m : PacketMetadata) : Except Fault UInt32 :=
  if m_enable then sizeFrom typeName m 65536 m.m_head 8 else .ok 8

/-- What is written for an item. Each piece is checked and stored by a function of its own for its
size, `AddToRawU8` to `AddToRaw`. -/
def itemPieces (item : SmallItem) (extraItem : ExtraItem) : List (Piece UInt8) :=
  let uidString := nameOf typeName (uidOf item)
  let uidStringSize := UInt32.ofNat uidString.length
  (if uidOf item ≠ 0 then [word uidStringSize, .exact (uidString.take uidStringSize.toNat)]
    else [word 0]) ++
  [.exact (hostBytes 1 (item.typeUid &&& 1).toNat), word item.size,
    .exact (hostBytes 2 item.chunkUid.toNat), word extraItem.fragmentStart,
    word extraItem.fragmentEnd, .exact (hostBytes 8 extraItem.packetUid.toNat)]

/-- The loop of `Serialize`: what is written, and the position behind it if there was room. -/
def writeFrom (m : PacketMetadata) (start : ℕ) (maxSize : UInt32) :
    ℕ → UInt16 → ℕ → Except Fault (List (Write UInt8) × Option ℕ)
  | 0, _, _ => .error .diverges
  | fuel + 1, current, buffer =>
    if current = 0xffff then .ok ([], some buffer)
    else do
      let (item, extraItem, _) ← ReadItems m current
      match writeAll (counts start maxSize) buffer (itemPieces typeName item extraItem) with
      | (log, none) => return (log, none)
      | (log, some buffer) =>
        if current = m.m_tail then return (log, some buffer)
        if current = item.next then throw .abort
        let (rest, stop) ← writeFrom m start maxSize fuel item.next buffer
        return (log ++ rest, stop)

def Serialize (m : PacketMetadata) (start : ℕ) (maxSize : UInt32) :
    Except Fault (List (Write UInt8) × UInt32) :=
  match writeAll (counts start maxSize) start [.exact (hostBytes 8 m.m_packetUid.toNat)] with
  | (log, none) => .ok (log, 0)
  | (log, some buffer) => do
    match ← writeFrom typeName m start maxSize 65536 m.m_head buffer with
    | (rest, none) => return (log ++ rest, 0)
    | (rest, some buffer) =>
      if UInt32.ofNat (buffer - start) ≠ maxSize then throw .abort
      return (log ++ rest, 1)

end Items

end PacketMetadata

/-! ### Bytes -/

namespace Buffer

def dataStartLength (b : Handle) : UInt32 := b.m_zeroAreaStart - b.m_start

def dataEndLength (b : Handle) : UInt32 := b.m_end - b.m_zeroAreaEnd

def GetSerializedSize (b : Handle) : UInt32 :=
  4 + 4 + align (dataStartLength b) + 4 + align (dataEndLength b)

/-- The zeros are not written, only how many they are. Each part of the others has room up to the
next word, and lies in the block. -/
def Serialize (m : Heap) (b : Handle) (buffer : ℕ) (maxSize : UInt32) :
    Except Fault (List (WriteLog.Write UInt8) × UInt32) := do
  let data ← deref m b.m_data
  let dataStart ← readBlock data b.m_start (dataStartLength b)
  let dataEnd ← readBlock data b.m_zeroAreaStart (dataEndLength b)
  match writeAll (counts buffer maxSize) buffer
      [word (b.m_zeroAreaEnd - b.m_zeroAreaStart), word (dataStartLength b),
        ⟨(align (dataStartLength b)).toNat, dataStart⟩, word (dataEndLength b),
        ⟨(align (dataEndLength b)).toNat, dataEnd⟩] with
  | (log, none) => return (log, 0)
  | (log, some _) => return (log, 1)

end Buffer

/-! ### Packets -/

/-- What `Serialize` knows of a `Packet`. -/
structure Packet where
  m_nixVector : Option NixVector
  m_metadata : PacketMetadata
  m_buffer : Buffer.Handle

namespace Packet

section Serialize

variable (m_enable : Bool) (typeName : UInt16 → List UInt8)

def GetSerializedSize (p : Packet) : Except Fault UInt32 := do
  let size : UInt32 := match p.m_nixVector with
    | some nix => align nix.GetSerializedSize + 4
    | none => 4
  let metaSize ← p.m_metadata.GetSerializedSize m_enable typeName
  return size + align metaSize + 4 + align (Buffer.GetSerializedSize p.m_buffer) + 4

/-- The nix-vector behind its length, or the length of none. The length of the nix-vector is not
counted. Afterwards: the position and what was counted. -/
def serializeNixVector (p : Packet) (maxSize : UInt32) :
    List (Write UInt8) × Option (ℕ × UInt32) :=
  match p.m_nixVector with
  | some nix =>
    let nixSize := nix.GetSerializedSize
    if 0 + nixSize ≤ maxSize then
      let (log, serialized) := nix.Serialize 4 nixSize
      (⟨0, (word (nixSize + 4)).values⟩ :: log,
        if serialized ≠ 0 then some (4 + (align nixSize).toNat, 0 + nixSize) else none)
    else ([], none)
  | none => if 0 + 4 ≤ maxSize then ([⟨0, (word 4).values⟩], some (4, 0 + 4)) else ([], none)

/-- The metadata behind their length, which is not counted. -/
def serializeMetadata (p : Packet) (maxSize : UInt32) (pos : ℕ) (size : UInt32) :
    Except Fault (List (Write UInt8) × Option (ℕ × UInt32)) := do
  let metaSize ← p.m_metadata.GetSerializedSize m_enable typeName
  if size + metaSize ≤ maxSize then
    let (log, serialized) ← p.m_metadata.Serialize typeName (pos + 4) metaSize
    return (⟨pos, (word (metaSize + 4)).values⟩ :: log,
      if serialized ≠ 0 then some (pos + 4 + (align metaSize).toNat, size + metaSize) else none)
  else return ([], none)

/-- The bytes behind their length, which is not counted. -/
def serializeBuffer (m : Buffer.Heap) (p : Packet) (maxSize : UInt32) (pos : ℕ) (size : UInt32) :
    Except Fault (List (Write UInt8) × UInt32) := do
  let bufSize := Buffer.GetSerializedSize p.m_buffer
  if size + bufSize ≤ maxSize then
    let (log, serialized) ← Buffer.Serialize m p.m_buffer (pos + 4) bufSize
    return (⟨pos, (word (bufSize + 4)).values⟩ :: log, if serialized ≠ 0 then 1 else 0)
  else return ([], 0)

/-- What is written, and 0 if the memory was too small. -/
def Serialize (m : Buffer.Heap) (p : Packet) (maxSize : UInt32) :
    Except Fault (List (Write UInt8) × UInt32) :=
  match p.serializeNixVector maxSize with
  | (log, none) => .ok (log, 0)
  | (log, some (pos, size)) => do
    match ← p.serializeMetadata m_enable typeName maxSize pos size with
    | (log', none) => return (log ++ log', 0)
    | (log', some (pos, size)) =>
      let (log'', serialized) ← p.serializeBuffer m maxSize pos size
      return (log ++ log' ++ log'', serialized)

end Serialize

end Packet
end Ns3Joined.Network
