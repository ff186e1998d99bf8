import Ns3Joined.Fault
import Ns3Joined.Library.PrefixCode

/-!
# Generalized packets

`packetbb.cc`: packets with messages, address blocks and TLVs (RFC 5444), and how they are written
to octets and read from them.

* `PbbTlv`, `PbbTlvBlock`: types, indices and values.
* `PbbAddressBlock`: addresses without the octets that all have in front (`GetHeadTail`) or at the
  end.
* `PbbMessage`, `PbbPacket`.
* `WellFormed`: what is built through the setters, within the sizes of the format.
* `Kept`: what is read back.
-/

namespace Ns3Joined.Network.PacketBb

open PrefixCode Tiles
open UInt32 (ofNat)

/-- What reads from a `Buffer::Iterator`. -/
abbrev Reading := Reader Fault

def ReadU8 : Reading UInt8
  | [] => .error .abort
  | octet :: rest => .ok (octet, rest)

/-- `Read`, of a number of octets. -/
def Read (size : ℕ) : Reading (List UInt8) := fun input =>
  if input.length < size then .error .abort else .ok (input.take size, input.drop size)

def ReadNtohU16 : Reading ℕ := bind (Read 2) fun octets => done (ofBigEndian octets)

/-- What `WriteHtonU16` writes. -/
def WriteHtonU16 (n : ℕ) : List UInt8 := toBigEndian 2 n

/-! ### TLVs -/

def THAS_TYPE_EXT : UInt8 := 0x80
def THAS_SINGLE_INDEX : UInt8 := 0x40
def THAS_MULTI_INDEX : UInt8 := 0x20
def THAS_VALUE : UInt8 := 0x10
def THAS_EXT_LEN : UInt8 := 0x08
def TIS_MULTIVALUE : UInt8 := 0x04

/-- A `PbbTlv`; what its `m_has…` flags are about is left out if they are not set. -/
structure PbbTlv where
  m_type : UInt8
  m_typeExt : Option UInt8
  m_indexStart : Option UInt8
  m_indexStop : Option UInt8
  m_isMultivalue : Bool
  m_value : Option (List UInt8)
deriving DecidableEq

namespace PbbTlv

def GetSerializedSize (t : PbbTlv) : UInt32 :=
  2 + (if t.m_typeExt.isSome then 1 else 0) + (if t.m_indexStart.isSome then 1 else 0) +
    (if t.m_indexStop.isSome then 1 else 0) +
    match t.m_value with
    | some value => (if value.length > 255 then 2 else 1) + ofNat value.length
    | none => 0

/-- The index and its flag, as `Serialize` writes them. -/
def indexCode : Option UInt8 → Option UInt8 → UInt8 × List UInt8
  | some start, some stop => (THAS_MULTI_INDEX, [start, stop])
  | some start, none => (THAS_SINGLE_INDEX, [start])
  | none, _ => (0, [])

/-- The value and its flags, as `Serialize` writes them. -/
def valueCode (isMultivalue : Bool) : Option (List UInt8) → UInt8 × List UInt8
  | some value =>
    let multivalue := if isMultivalue then TIS_MULTIVALUE else 0
    if value.length > 255 then
      (THAS_VALUE ||| THAS_EXT_LEN ||| multivalue, WriteHtonU16 value.length ++ value)
    else
      (THAS_VALUE ||| multivalue, UInt8.ofNat value.length :: value)
  | none => (0, [])

/-- `Serialize`, with the flags in the place that is kept for them. -/
def Serialize (t : PbbTlv) : List UInt8 :=
  let index := indexCode t.m_indexStart t.m_indexStop
  let value := valueCode t.m_isMultivalue t.m_value
  let typeExt := if t.m_typeExt.isSome then THAS_TYPE_EXT else 0
  t.m_type :: (typeExt ||| index.1 ||| value.1) ::
    (t.m_typeExt.toList ++ index.2 ++ value.2)

/-- The reading of the index in `Deserialize`. -/
def readIndex (flags : UInt8) : Reading (Option UInt8 × Option UInt8) :=
  if flags &&& THAS_MULTI_INDEX ≠ 0 then
    bind ReadU8 fun start => bind ReadU8 fun stop => done (some start, some stop)
  else if flags &&& THAS_SINGLE_INDEX ≠ 0 then
    bind ReadU8 fun start => done (some start, none)
  else
    done (none, none)

/-- The reading of the value in `Deserialize`. -/
def readValue (flags : UInt8) : Reading (List UInt8) :=
  if flags &&& THAS_EXT_LEN ≠ 0 then bind ReadNtohU16 Read
  else bind ReadU8 fun len => Read len.toNat

/-- `Deserialize`, of a new TLV. -/
def Deserialize : Reading PbbTlv :=
  bind ReadU8 fun type =>
  bind ReadU8 fun flags =>
  bind (optional (flags &&& THAS_TYPE_EXT != 0) ReadU8) fun typeExt =>
  bind (readIndex flags) fun index =>
  bind (optional (flags &&& THAS_VALUE != 0) (readValue flags)) fun value =>
  done
    { m_type := type
      m_typeExt := typeExt
      m_indexStart := index.1
      m_indexStop := index.2
      m_isMultivalue := false
      m_value := value }

/-- The value is not longer than its length field tells. -/
def WellFormed (t : PbbTlv) : Prop := ∀ value ∈ t.m_value, value.length ≤ 65535

instance (t : PbbTlv) : Decidable t.WellFormed :=
  inferInstanceAs (Decidable (∀ value ∈ t.m_value, value.length ≤ 65535))

/-- The octets of a value, with its length. -/
def valueOctets : Option (List UInt8) → ℕ
  | some value => (if value.length > 255 then 2 else 1) + value.length
  | none => 0

/-- The octets of the TLV. -/
def octets (t : PbbTlv) : ℕ :=
  2 + (if t.m_typeExt.isSome then 1 else 0) +
    (if t.m_indexStart.isSome then if t.m_indexStop.isSome then 2 else 1 else 0) +
    valueOctets t.m_value

/-- The TLV does not have several values, and has no end of a range without its start. -/
def Kept (t : PbbTlv) : Prop :=
  t.m_isMultivalue = false ∧ (t.m_indexStop.isSome = true → t.m_indexStart.isSome = true)

instance (t : PbbTlv) : Decidable t.Kept := inferInstanceAs (Decidable (_ ∧ _))

end PbbTlv

namespace PbbTlvBlock

def GetSerializedSize (tlvs : List PbbTlv) : UInt32 :=
  tlvs.foldl (fun size t => size + t.GetSerializedSize) 2

def Serialize (tlvs : List PbbTlv) : List UInt8 :=
  if tlvs = [] then WriteHtonU16 0
  else
    let body := tlvs.flatMap PbbTlv.Serialize
    WriteHtonU16 body.length ++ body

/-- `Deserialize`. A TLV takes an octet at least, so that the size is enough for the rounds of the
loop. -/
def Deserialize : Reading (List PbbTlv) :=
  bind ReadNtohU16 fun size => readWhile PbbTlv.Deserialize .diverges size size

/-- The octets of the TLVs, without their size. -/
def octets (tlvs : List PbbTlv) : ℕ := total PbbTlv.octets tlvs

/-- All TLVs are read back, and the size, of which 16 bits are written, is up with the last. -/
def Kept (tlvs : List PbbTlv) : Prop :=
  (∀ t ∈ tlvs, t.Kept) ∧ Reaches PbbTlv.octets (octets tlvs % 65536) tlvs

instance (tlvs : List PbbTlv) : Decidable (Kept tlvs) :=
  inferInstanceAs (Decidable (_ ∧ Reaches _ _ _))

end PbbTlvBlock

/-! `PbbAddressTlv` and `PbbAddressTlvBlock` only make public what `PbbTlv` has, and do the same. -/

/-! ### Address blocks -/

def AHAS_HEAD : UInt8 := 0x80
def AHAS_FULL_TAIL : UInt8 := 0x40
def AHAS_ZERO_TAIL : UInt8 := 0x20
def AHAS_SINGLE_PRE_LEN : UInt8 := 0x10
def AHAS_MULTI_PRE_LEN : UInt8 := 0x08

/-- The octets of an address. -/
abbrev Address := List UInt8

/-- A `PbbAddressBlock`. -/
structure PbbAddressBlock where
  m_addressList : List Address
  m_prefixList : List UInt8
  m_addressTlvList : List PbbTlv
deriving DecidableEq

namespace PbbAddressBlock

/-- The loop of `GetHeadTail` for the head. -/
def headLoop (buflast bufcur : Address) (headlen : ℕ) : ℕ :=
  ((List.range headlen).find? fun i => buflast[i]? != bufcur[i]?).getD headlen

/-- The loop of `GetHeadTail` for the tail, and where it stops. -/
def tailLoop (buflast bufcur : Address) (length headlen taillen : ℕ) : ℕ → ℕ
  | 0 => 0
  | i + 1 =>
    if length - 1 - (i + 1) ≤ taillen ∧ headlen < i + 1 then
      if buflast[i + 1]? != bufcur[i + 1]? then i + 1
      else tailLoop buflast bufcur length headlen taillen i
    else
      i + 1

/-- The loop of `GetHeadTail`: the lengths, and the address before the last one. -/
def headTailLoop (length : ℕ) (buflast bufcur : Address) (headlen taillen : ℕ) :
    List Address → ℕ × ℕ × Address
  | [] => (headlen, taillen, bufcur)
  | address :: addresses =>
    let headlen := headLoop buflast address headlen
    if length - headlen > 0 then
      let taillen := length - 1 -
        tailLoop buflast address length headlen taillen (length - 1)
      headTailLoop length address buflast headlen taillen addresses
    else if headlen = 0 then
      (headlen, 0, address)
    else
      headTailLoop length address buflast headlen taillen addresses

/-- `GetHeadTail`. The loop starts with the first address, not after it. -/
def GetHeadTail (length : ℕ) (addresses : List Address) : List UInt8 × List UInt8 :=
  match addresses with
  | [] => ([], [])
  | first :: _ =>
    let r := headTailLoop length first [] length length addresses
    (r.2.2.take r.1, (r.2.2.drop (length - r.2.1)).take r.2.1)

def HasZeroTail (tail : List UInt8) : Bool := tail.all (· == 0)

def GetPrefixFlags (prefixes : List UInt8) : UInt8 :=
  match prefixes.length with
  | 0 => 0
  | 1 => AHAS_SINGLE_PRE_LEN
  | _ => AHAS_MULTI_PRE_LEN

/-- `GetSerializedSize`, for addresses of that length. -/
def GetSerializedSize (length : ℕ) (b : PbbAddressBlock) : UInt32 :=
  let addresses : UInt32 :=
    if b.m_addressList.length = 1 then
      ofNat length + ofNat b.m_prefixList.length
    else if b.m_addressList.length > 0 then
      let (head, tail) := GetHeadTail length b.m_addressList
      (if head.length > 0 then 1 + ofNat head.length else 0) +
        (if tail.length > 0 then
          1 + (if !HasZeroTail tail then ofNat tail.length else 0)
        else 0) +
        (ofNat length - ofNat head.length - ofNat tail.length) *
          ofNat b.m_addressList.length +
        ofNat b.m_prefixList.length
    else 0
  2 + addresses + PbbTlvBlock.GetSerializedSize b.m_addressTlvList

/-- The tail and its flag, as `Serialize` writes them. -/
def tailCode (tail : List UInt8) : UInt8 × List UInt8 :=
  if tail.length > 0 then
    if HasZeroTail tail then (AHAS_ZERO_TAIL, [UInt8.ofNat tail.length])
    else (AHAS_FULL_TAIL, UInt8.ofNat tail.length :: tail)
  else (0, [])

/-- The addresses, the prefixes and their flags, as `Serialize` writes them. -/
def addressCode (length : ℕ) (b : PbbAddressBlock) : UInt8 × List UInt8 :=
  match b.m_addressList with
  | [] => (0, [])
  | [address] =>
    match b.m_prefixList with
    | [pfx] => (AHAS_SINGLE_PRE_LEN, address ++ [pfx])
    | _ => (0, address)
  | addresses =>
    let (head, tail) := GetHeadTail length addresses
    let headCode := if head.length > 0 then UInt8.ofNat head.length :: head else []
    let mid := if head.length + tail.length < length then
        addresses.flatMap fun address =>
          (address.drop head.length).take (length - head.length - tail.length)
      else []
    ((if head.length > 0 then AHAS_HEAD else 0) ||| (tailCode tail).1 |||
        GetPrefixFlags b.m_prefixList,
      headCode ++ (tailCode tail).2 ++ mid ++ b.m_prefixList)

/-- `Serialize`. Without addresses the flags are not written, and never read: zero stands for what
is in the place that is kept for them. -/
def Serialize (length : ℕ) (b : PbbAddressBlock) : List UInt8 :=
  let code := addressCode length b
  UInt8.ofNat b.m_addressList.length :: code.1 :: code.2 ++
    PbbTlvBlock.Serialize b.m_addressTlvList

/-- `Read (addrtmp + start, size)`: there is nothing after the end of `addrtmp`. -/
def readInto (addrtmp : Address) (start size : ℕ) : Reading Address :=
  if addrtmp.length < start + size then fun _ => .error .undefined
  else bind (Read size) fun octets =>
    done (addrtmp.take start ++ octets ++ addrtmp.drop (start + size))

/-- The loop of `Deserialize` for the addresses. -/
def readAddresses (headlen size : ℕ) : ℕ → Address → Reading (List Address)
  | 0, _ => done []
  | numaddr + 1, addrtmp =>
    bind (readInto addrtmp headlen size) fun addrtmp =>
    bind (readAddresses headlen size numaddr addrtmp) fun addresses =>
    done (addrtmp :: addresses)

/-- The head, if there is one, and how long it is. -/
def readHead (flags : UInt8) (addrtmp : Address) : Reading (ℕ × Address) :=
  if flags &&& AHAS_HEAD ≠ 0 then
    bind ReadU8 fun headlen =>
    bind (readInto addrtmp 0 headlen.toNat) fun addrtmp => done (headlen.toNat, addrtmp)
  else
    done (0, addrtmp)

/-- The tail, if there is one, and how long it is. -/
def readTail (flags : UInt8) (addrtmp : Address) : Reading (ℕ × Address) :=
  if (flags &&& AHAS_FULL_TAIL) ^^^ (flags &&& AHAS_ZERO_TAIL) ≠ 0 then
    bind ReadU8 fun taillen =>
    if flags &&& AHAS_FULL_TAIL ≠ 0 then
      if addrtmp.length < taillen.toNat then fun _ => .error .undefined
      else
        bind (readInto addrtmp (addrtmp.length - taillen.toNat) taillen.toNat) fun addrtmp =>
        done (taillen.toNat, addrtmp)
    else
      done (taillen.toNat, addrtmp)
  else
    done (0, addrtmp)

/-- The prefixes. -/
def readPrefixes (flags : UInt8) (numaddr : ℕ) : Reading (List UInt8) :=
  if flags &&& AHAS_SINGLE_PRE_LEN ≠ 0 then Read 1
  else if flags &&& AHAS_MULTI_PRE_LEN ≠ 0 then Read numaddr
  else done []

/-- The addresses and prefixes in `Deserialize`. The size of the middle part is an `int`, and read
as a `uint32_t`. -/
def readBody (length : ℕ) (numaddr flags : UInt8) : Reading (List Address × List UInt8) :=
  if numaddr > 0 then
    bind (readHead flags (List.replicate length 0)) fun (headlen, addrtmp) =>
    bind (readTail flags addrtmp) fun (taillen, addrtmp) =>
    let size := ofNat length - ofNat headlen - ofNat taillen
    bind (readAddresses headlen size.toNat numaddr.toNat addrtmp) fun addresses =>
    bind (readPrefixes flags numaddr.toNat) fun prefixes => done (addresses, prefixes)
  else
    done ([], [])

def Deserialize (length : ℕ) : Reading PbbAddressBlock :=
  bind ReadU8 fun numaddr =>
  bind ReadU8 fun flags =>
  bind (readBody length numaddr flags) fun (addresses, prefixes) =>
  bind PbbTlvBlock.Deserialize fun tlvs =>
  done { m_addressList := addresses, m_prefixList := prefixes, m_addressTlvList := tlvs }

/-- Up to 255 addresses of that length, and no prefix, one, or one for each of them. -/
structure WellFormed (length : ℕ) (b : PbbAddressBlock) : Prop where
  addresses : b.m_addressList.length ≤ 255
  address : ∀ address ∈ b.m_addressList, address.length = length
  prefixes : b.m_prefixList.length = 0 ∨ b.m_prefixList.length = 1 ∨
    b.m_prefixList.length = b.m_addressList.length
  tlvs : ∀ t ∈ b.m_addressTlvList, t.WellFormed

/-- All addresses have the same octet there. -/
def AgreeAt (addresses : List Address) (i : ℕ) : Prop :=
  ∀ x ∈ addresses, ∀ y ∈ addresses, x[i]? = y[i]?

instance (addresses : List Address) (i : ℕ) : Decidable (AgreeAt addresses i) :=
  inferInstanceAs (Decidable (∀ x ∈ addresses, ∀ y ∈ addresses, x[i]? = y[i]?))

/-- The number of octets that all addresses have in common in front. -/
def headOctets (length : ℕ) (addresses : List Address) : ℕ :=
  ((List.range length).find? fun i => !decide (AgreeAt addresses i)).getD length

/-- The number of octets that all addresses have in common at the end. -/
def tailOctets (length : ℕ) (addresses : List Address) : ℕ :=
  ((List.range length).find? fun i => !decide (AgreeAt addresses (length - 1 - i))).getD length

/-- The octets of the block. -/
def octets (length : ℕ) (b : PbbAddressBlock) : ℕ :=
  let addresses :=
    match b.m_addressList with
    | [] => 0
    | [_] => length
    | first :: rest =>
      let head := headOctets length (first :: rest)
      let tail := tailOctets length (first :: rest)
      (if head > 0 then 1 + head else 0) +
        (if tail > 0 then 1 + (if !HasZeroTail (first.drop (length - tail)) then tail else 0)
        else 0) +
        (length - head - tail) * (first :: rest).length
  2 + (addresses + b.m_prefixList.length) + (2 + PbbTlvBlock.octets b.m_addressTlvList)

/-- The addresses are not all the same, and from where the last two of them agree up to the end,
after the first octet in which some of them differ, they all agree. -/
def TailShared (length : ℕ) (addresses : List Address) : Prop :=
  (∃ i < length, ¬ AgreeAt addresses i) ∧
  ∀ i < length, (∃ j < i, ¬ AgreeAt addresses j) →
    (∀ j < length, i ≤ j → AgreeAt (addresses.drop (addresses.length - 2)) j) →
    AgreeAt addresses i

instance (length : ℕ) (addresses : List Address) : Decidable (TailShared length addresses) :=
  inferInstanceAs (Decidable (_ ∧ _))

/-- Without addresses there are no prefixes; several addresses have a tail that is found rightly;
and the TLVs are read back. -/
structure Kept (length : ℕ) (b : PbbAddressBlock) : Prop where
  prefixes : b.m_addressList = [] → b.m_prefixList = []
  addresses : 2 ≤ b.m_addressList.length → TailShared length b.m_addressList
  tlvs : PbbTlvBlock.Kept b.m_addressTlvList

instance (length : ℕ) (b : PbbAddressBlock) : Decidable (b.WellFormed length) :=
  decidable_of_iff (b.m_addressList.length ≤ 255 ∧
      (∀ address ∈ b.m_addressList, address.length = length) ∧
      (b.m_prefixList.length = 0 ∨ b.m_prefixList.length = 1 ∨
        b.m_prefixList.length = b.m_addressList.length) ∧
      ∀ t ∈ b.m_addressTlvList, t.WellFormed)
    ⟨fun ⟨h₁, h₂, h₃, h₄⟩ => ⟨h₁, h₂, h₃, h₄⟩, fun h => ⟨h.1, h.2, h.3, h.4⟩⟩

instance (length : ℕ) (b : PbbAddressBlock) : Decidable (b.Kept length) :=
  decidable_of_iff ((b.m_addressList = [] → b.m_prefixList = []) ∧
      (2 ≤ b.m_addressList.length → TailShared length b.m_addressList) ∧
      PbbTlvBlock.Kept b.m_addressTlvList)
    ⟨fun ⟨h₁, h₂, h₃⟩ => ⟨h₁, h₂, h₃⟩, fun h => ⟨h.1, h.2, h.3⟩⟩

end PbbAddressBlock

/-! ### Messages -/

def MHAS_ORIG : UInt8 := 0x80
def MHAS_HOP_LIMIT : UInt8 := 0x40
def MHAS_HOP_COUNT : UInt8 := 0x20
def MHAS_SEQ_NUM : UInt8 := 0x10

inductive PbbAddressLength
  | IPV4
  | IPV6
deriving DecidableEq

namespace PbbAddressLength

/-- The number of the enumerator: the length of an address, less one. -/
def value : PbbAddressLength → ℕ
  | IPV4 => 3
  | IPV6 => 15

end PbbAddressLength

/-- A `PbbMessageIpv4` or `PbbMessageIpv6`. -/
structure PbbMessage where
  m_addrSize : PbbAddressLength
  m_type : UInt8
  m_originatorAddress : Option Address
  m_hopLimit : Option UInt8
  m_hopCount : Option UInt8
  m_sequenceNumber : Option UInt16
  m_tlvList : List PbbTlv
  m_addressBlockList : List PbbAddressBlock
deriving DecidableEq

namespace PbbMessage

/-- The length of an address of the message. -/
def addressLength (m : PbbMessage) : ℕ := m.m_addrSize.value + 1

def GetSerializedSize (m : PbbMessage) : UInt32 :=
  let size := 4 +
    (if m.m_originatorAddress.isSome then ofNat (m.m_addrSize.value + 1) else 0) +
    (if m.m_hopLimit.isSome then 1 else 0) + (if m.m_hopCount.isSome then 1 else 0) +
    (if m.m_sequenceNumber.isSome then 2 else 0) + PbbTlvBlock.GetSerializedSize m.m_tlvList
  m.m_addressBlockList.foldl (fun size b => size + b.GetSerializedSize m.addressLength) size

/-- The flags that `Serialize` writes. -/
def flags (m : PbbMessage) : UInt8 :=
  UInt8.ofNat m.m_addrSize.value ||| (if m.m_originatorAddress.isSome then MHAS_ORIG else 0) |||
    (if m.m_hopLimit.isSome then MHAS_HOP_LIMIT else 0) |||
    (if m.m_hopCount.isSome then MHAS_HOP_COUNT else 0) |||
    (if m.m_sequenceNumber.isSome then MHAS_SEQ_NUM else 0)

/-- A sequence number, as `Serialize` writes it. -/
def numberCode : Option UInt16 → List UInt8
  | some number => WriteHtonU16 number.toNat
  | none => []

/-- What `Serialize` writes after the size, before the address blocks. -/
def fieldCode (m : PbbMessage) : List UInt8 :=
  m.m_originatorAddress.getD [] ++ m.m_hopLimit.toList ++ m.m_hopCount.toList ++
    numberCode m.m_sequenceNumber ++ PbbTlvBlock.Serialize m.m_tlvList

/-- What `Serialize` writes for the address blocks. -/
def blockCode (m : PbbMessage) : List UInt8 :=
  m.m_addressBlockList.flatMap (PbbAddressBlock.Serialize m.addressLength)

/-- `Serialize`, with the flags and the size in the places that are kept for them. -/
def Serialize (m : PbbMessage) : List UInt8 :=
  m.m_type :: m.flags ::
    (WriteHtonU16 (4 + m.fieldCode.length + m.blockCode.length) ++ m.fieldCode ++ m.blockCode)

/-- What `Deserialize` reads before the address blocks: the size, and a message without these. -/
def readFields (addrSize : PbbAddressLength) : Reading (ℕ × PbbMessage) :=
  bind ReadU8 fun type =>
  bind ReadU8 fun flags =>
  bind ReadNtohU16 fun size =>
  bind (optional (flags &&& MHAS_ORIG != 0) (Read (addrSize.value + 1))) fun originatorAddress =>
  bind (optional (flags &&& MHAS_HOP_LIMIT != 0) ReadU8) fun hopLimit =>
  bind (optional (flags &&& MHAS_HOP_COUNT != 0) ReadU8) fun hopCount =>
  bind (optional (flags &&& MHAS_SEQ_NUM != 0) ReadNtohU16) fun sequenceNumber =>
  bind PbbTlvBlock.Deserialize fun tlvs =>
  done (size,
    { m_addrSize := addrSize
      m_type := type
      m_originatorAddress := originatorAddress
      m_hopLimit := hopLimit
      m_hopCount := hopCount
      m_sequenceNumber := sequenceNumber.map UInt16.ofNat
      m_tlvList := tlvs
      m_addressBlockList := [] })

/-- `Deserialize`, of a new message. The loop goes on while less than the size is read. -/
def Deserialize (addrSize : PbbAddressLength) : Reading PbbMessage :=
  bind (measured (readFields addrSize)) fun ((size, m), distance) =>
  bind (readWhile (PbbAddressBlock.Deserialize (addrSize.value + 1)) .diverges
    (size - distance) (size - distance)) fun blocks =>
  done { m with m_addressBlockList := blocks }

/-- `DeserializeMessage`, which gives no message for an unknown length of addresses. -/
def DeserializeMessage : Reading (Option PbbMessage) := fun start =>
  match start with
  | _ :: addrlen :: _ =>
    if addrlen &&& 0xf = 0 ∨ addrlen &&& 0xf = 3 then
      bind (Deserialize .IPV4) (fun m => done (some m)) start
    else if addrlen &&& 0xf = 15 then
      bind (Deserialize .IPV6) (fun m => done (some m)) start
    else
      .ok (none, start)
  | _ => .error .abort

/-- The addresses are of the message's length, and the parts as the setters make them. -/
structure WellFormed (m : PbbMessage) : Prop where
  originator : ∀ address ∈ m.m_originatorAddress, address.length = m.addressLength
  tlvs : ∀ t ∈ m.m_tlvList, t.WellFormed
  blocks : ∀ b ∈ m.m_addressBlockList, b.WellFormed m.addressLength

/-- The octets of the message before its address blocks. -/
def fieldOctets (m : PbbMessage) : ℕ :=
  4 + (if m.m_originatorAddress.isSome then m.addressLength else 0) +
    (if m.m_hopLimit.isSome then 1 else 0) + (if m.m_hopCount.isSome then 1 else 0) +
    (if m.m_sequenceNumber.isSome then 2 else 0) + (2 + PbbTlvBlock.octets m.m_tlvList)

/-- The octets of the address blocks. -/
def blockOctets (m : PbbMessage) : ℕ :=
  total (PbbAddressBlock.octets m.addressLength) m.m_addressBlockList

/-- The octets of the message. -/
def octets (m : PbbMessage) : ℕ := m.fieldOctets + m.blockOctets

/-- All parts are read back, and the size, of which 16 bits are written, is up with the last
address block. -/
structure Kept (m : PbbMessage) : Prop where
  tlvs : PbbTlvBlock.Kept m.m_tlvList
  blocks : ∀ b ∈ m.m_addressBlockList, b.Kept m.addressLength
  size : Reaches (PbbAddressBlock.octets m.addressLength)
    (m.octets % 65536 - m.fieldOctets) m.m_addressBlockList

instance (m : PbbMessage) : Decidable m.WellFormed :=
  decidable_of_iff ((∀ address ∈ m.m_originatorAddress, address.length = m.addressLength) ∧
      (∀ t ∈ m.m_tlvList, t.WellFormed) ∧
      ∀ b ∈ m.m_addressBlockList, b.WellFormed m.addressLength)
    ⟨fun ⟨h₁, h₂, h₃⟩ => ⟨h₁, h₂, h₃⟩, fun h => ⟨h.1, h.2, h.3⟩⟩

instance (m : PbbMessage) : Decidable m.Kept :=
  decidable_of_iff (PbbTlvBlock.Kept m.m_tlvList ∧
      (∀ b ∈ m.m_addressBlockList, b.Kept m.addressLength) ∧
      Reaches (PbbAddressBlock.octets m.addressLength) (m.octets % 65536 - m.fieldOctets)
        m.m_addressBlockList)
    ⟨fun ⟨h₁, h₂, h₃⟩ => ⟨h₁, h₂, h₃⟩, fun h => ⟨h.1, h.2, h.3⟩⟩

end PbbMessage

/-! ### Packets -/

def VERSION : UInt8 := 0
def PHAS_SEQ_NUM : UInt8 := 0x8
def PHAS_TLV : UInt8 := 0x4

/-- A `PbbPacket`. -/
structure PbbPacket where
  m_version : UInt8
  m_seqnum : Option UInt16
  m_tlvList : List PbbTlv
  m_messageList : List PbbMessage
deriving DecidableEq

namespace PbbPacket

def GetSerializedSize (p : PbbPacket) : UInt32 :=
  let size := 1 + (if p.m_seqnum.isSome then 2 else 0) +
    (if p.m_tlvList ≠ [] then PbbTlvBlock.GetSerializedSize p.m_tlvList else 0)
  p.m_messageList.foldl (fun size m => size + m.GetSerializedSize) size

/-- `Serialize`, with the flags in the place that is kept for them. -/
def Serialize (p : PbbPacket) : List UInt8 :=
  ((VERSION <<< 4) ||| (if p.m_seqnum.isSome then PHAS_SEQ_NUM else 0) |||
    (if p.m_tlvList ≠ [] then PHAS_TLV else 0)) ::
    (PbbMessage.numberCode p.m_seqnum ++
      (if p.m_tlvList ≠ [] then PbbTlvBlock.Serialize p.m_tlvList else []) ++
      p.m_messageList.flatMap PbbMessage.Serialize)

/-- The loop of `Deserialize` for the messages. A message takes an octet at least. -/
def readMessages : ℕ → Reading (List PbbMessage)
  | _, [] => .ok ([], [])
  | 0, _ :: _ => .error .diverges
  | rounds + 1, octet :: octets =>
    match PbbMessage.DeserializeMessage (octet :: octets) with
    | .error e => .error e
    | .ok (none, start) => .ok ([], start)
    | .ok (some newmsg, start) =>
      match readMessages rounds start with
      | .error e => .error e
      | .ok (messages, start) => .ok (newmsg :: messages, start)

/-- What `Deserialize` reads before the messages: the flags, and a packet without these. -/
def readFields : Reading (UInt8 × Option UInt16 × List PbbTlv) :=
  bind ReadU8 fun flags =>
  bind (optional (flags &&& PHAS_SEQ_NUM != 0) ReadNtohU16) fun seqnum =>
  bind (optional (flags &&& PHAS_TLV != 0) PbbTlvBlock.Deserialize) fun tlvs =>
  done (flags, seqnum.map UInt16.ofNat, tlvs.getD [])

/-- `Deserialize`, of a new packet: the packet, and the number of octets read. The version is set
when there is nothing left. -/
def Deserialize (start : List UInt8) : Except Fault (PbbPacket × ℕ) := do
  let ((flags, seqnum, tlvs), rest) ← readFields start
  let (messages, rest) ← readMessages rest.length rest
  .ok ({ m_version := if rest = [] then flags >>> 4 else VERSION
         m_seqnum := seqnum
         m_tlvList := tlvs
         m_messageList := messages }, start.length - rest.length)

/-- The packet has the version that the constructor sets, and parts as the setters make them. -/
structure WellFormed (p : PbbPacket) : Prop where
  version : p.m_version = VERSION
  tlvs : ∀ t ∈ p.m_tlvList, t.WellFormed
  messages : ∀ m ∈ p.m_messageList, m.WellFormed

/-- The octets of the packet. -/
def octets (p : PbbPacket) : ℕ :=
  1 + (if p.m_seqnum.isSome then 2 else 0) +
    (if p.m_tlvList ≠ [] then 2 + PbbTlvBlock.octets p.m_tlvList else 0) +
    total PbbMessage.octets p.m_messageList

/-- All parts are read back, and the size can be told. -/
structure Kept (p : PbbPacket) : Prop where
  tlvs : PbbTlvBlock.Kept p.m_tlvList
  messages : ∀ m ∈ p.m_messageList, m.Kept
  size : p.octets < 2 ^ 32

instance (p : PbbPacket) : Decidable p.WellFormed :=
  decidable_of_iff (p.m_version = VERSION ∧ (∀ t ∈ p.m_tlvList, t.WellFormed) ∧
      ∀ m ∈ p.m_messageList, m.WellFormed)
    ⟨fun ⟨h₁, h₂, h₃⟩ => ⟨h₁, h₂, h₃⟩, fun h => ⟨h.1, h.2, h.3⟩⟩

instance (p : PbbPacket) : Decidable p.Kept :=
  decidable_of_iff (PbbTlvBlock.Kept p.m_tlvList ∧ (∀ m ∈ p.m_messageList, m.Kept) ∧
      p.octets < 2 ^ 32)
    ⟨fun ⟨h₁, h₂, h₃⟩ => ⟨h₁, h₂, h₃⟩, fun h => ⟨h.1, h.2, h.3⟩⟩

end PbbPacket
end Ns3Joined.Network.PacketBb
