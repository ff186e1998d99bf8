import Ns3Joined.Network.BufferIterator
import Mathlib.Data.UInt

/-!
# TCP headers

`TcpHeader::Deserialize` (`tcp-header.cc`), and the options that it reads (`tcp-option.cc`,
`tcp-option-rfc793.cc`, `tcp-option-winscale.cc`, `tcp-option-sack-permitted.cc`,
`tcp-option-sack.cc`, `tcp-option-ts.cc`).

An option reads itself, from a copy of the iterator, and returns its size, or zero. The loop over
the options ends where what it returned is not its serialized size, or is more than what is left.
-/

namespace Ns3Joined.Internet.TcpHeader

open TrackedRead Tracked Network.BufferIterator

/-! ### Options -/

def END : UInt8 := 0
def NOP : UInt8 := 1
def MSS : UInt8 := 2
def WINSCALE : UInt8 := 3
def SACKPERMITTED : UInt8 := 4
def SACK : UInt8 := 5
def TS : UInt8 := 8

inductive TcpOption
  | optionEnd
  | optionNOP
  | optionMSS (m_mss : UInt16)
  | optionWinScale (m_scale : UInt8)
  | optionSackPermitted
  | optionSack (m_sackList : List (UInt32 × UInt32))
  | optionTS (m_timestamp m_echo : UInt32)
  | optionUnknown (m_kind m_size : UInt8) (m_content : List UInt8)
deriving DecidableEq, Repr

namespace TcpOption

def GetKind : TcpOption → UInt8
  | optionEnd => END
  | optionNOP => NOP
  | optionMSS _ => MSS
  | optionWinScale _ => WINSCALE
  | optionSackPermitted => SACKPERMITTED
  | optionSack _ => SACK
  | optionTS _ _ => TS
  | optionUnknown m_kind _ _ => m_kind

def GetSerializedSize : TcpOption → ℕ
  | optionEnd => 1
  | optionNOP => 1
  | optionMSS _ => 4
  | optionWinScale _ => 3
  | optionSackPermitted => 2
  | optionSack m_sackList => 2 + m_sackList.length * 8
  | optionTS _ _ => 10
  | optionUnknown _ m_size _ => m_size.toNat

end TcpOption

/-- The option that was read, and what `Deserialize` returns. -/
abbrev ReadingOption := Reading (TcpOption × ℕ)

/-- `Deserialize` of an option that is its kind only. -/
def deserializeKind (option : TcpOption) (b : Buffer) (start : ℕ) : ReadingOption := do
  let readKind ← ReadU8 b start
  if readKind.1 ≠ option.GetKind then return (option, 0)
  else return (option, option.GetSerializedSize)

/-- `Deserialize` of an option that is to have a certain size; `content` is behind it. -/
def deserializeSized (option : TcpOption) (size : UInt8) (content : ℕ → Reading TcpOption)
    (b : Buffer) (start : ℕ) : ReadingOption := do
  let readKind ← ReadU8 b start
  if readKind.1 ≠ option.GetKind then return (option, 0)
  else do
    let readSize ← ReadU8 b readKind.2
    if readSize.1 ≠ size then return (option, 0)
    else do
      let option ← content readSize.2
      return (option, option.GetSerializedSize)

def TcpOptionEnd.Deserialize (b : Buffer) : ℕ → ReadingOption := deserializeKind .optionEnd b

def TcpOptionNOP.Deserialize (b : Buffer) : ℕ → ReadingOption := deserializeKind .optionNOP b

/-- Another size than four aborts. -/
def TcpOptionMSS.Deserialize (b : Buffer) (start : ℕ) : ReadingOption := do
  let readKind ← ReadU8 b start
  if readKind.1 ≠ MSS then return (.optionMSS 1460, 0)
  else do
    let size ← ReadU8 b readKind.2
    guard (size.1 = 4) .abort
    let mss ← ReadNtohU16 b size.2
    let option : TcpOption := .optionMSS mss.1
    return (option, option.GetSerializedSize)

def TcpOptionWinScale.Deserialize (b : Buffer) : ℕ → ReadingOption :=
  deserializeSized (.optionWinScale 0) 3 (fun i => do
    let scale ← ReadU8 b i
    return .optionWinScale scale.1) b

def TcpOptionSackPermitted.Deserialize (b : Buffer) : ℕ → ReadingOption :=
  deserializeSized .optionSackPermitted 2 (fun _ => return .optionSackPermitted) b

def TcpOptionTS.Deserialize (b : Buffer) : ℕ → ReadingOption :=
  deserializeSized (.optionTS 0 0) 10 (fun i => do
    let timestamp ← ReadNtohU32 b i
    let echo ← ReadNtohU32 b timestamp.2
    return .optionTS timestamp.1 echo.1) b

/-- The number of blocks is `(size - 2) / 8`, which is zero for sizes below ten. -/
def TcpOptionSack.Deserialize (b : Buffer) (start : ℕ) : ReadingOption := do
  let readKind ← ReadU8 b start
  if readKind.1 ≠ SACK then return (.optionSack [], 0)
  else do
    let size ← ReadU8 b readKind.2
    let sackCount := (size.1.toNat - 2) / 8
    let blocks ← readPairs b sackCount size.2
    let option : TcpOption := .optionSack blocks.1
    return (option, option.GetSerializedSize)

/-- An option of a kind that is not known is not read if its size is not one that it can have;
zero is returned then. -/
def TcpOptionUnknown.Deserialize (b : Buffer) (start : ℕ) : ReadingOption := do
  let kind ← ReadU8 b start
  let size ← ReadU8 b kind.2
  if size.1.toNat < 2 ∨ size.1.toNat > 40 then return (.optionUnknown kind.1 size.1 [], 0)
  else do
    let content ← Read b (size.1.toNat - 2) size.2
    return (.optionUnknown kind.1 size.1 content.1, size.1.toNat)

/-- `CreateOption`, and `Deserialize` of what it gives: an option that is not known where
`IsKindKnown` is false. -/
def deserializeOption (kind : UInt8) (b : Buffer) (i : ℕ) : ReadingOption :=
  if kind = END then TcpOptionEnd.Deserialize b i
  else if kind = MSS then TcpOptionMSS.Deserialize b i
  else if kind = NOP then TcpOptionNOP.Deserialize b i
  else if kind = TS then TcpOptionTS.Deserialize b i
  else if kind = WINSCALE then TcpOptionWinScale.Deserialize b i
  else if kind = SACKPERMITTED then TcpOptionSackPermitted.Deserialize b i
  else if kind = SACK then TcpOptionSack.Deserialize b i
  else TcpOptionUnknown.Deserialize b i

/-! ### The loop over the options -/

/-- `m_options` and `m_optionsLen`. -/
structure Options where
  m_options : List TcpOption
  m_optionsLen : UInt8
deriving DecidableEq, Repr

/-- The size of the options of the list. -/
def optionsSize (options : List TcpOption) : ℕ := (options.map TcpOption.GetSerializedSize).sum

def Options.push (o : Options) (option : TcpOption) (optionSize : ℕ) : Options :=
  ⟨o.m_options ++ [option], o.m_optionsLen + UInt8.ofNat optionSize⟩

/-- The padding behind the option that ends the list. -/
def discardPadding (b : Buffer) : ℕ → ℕ → Options → Reading Options
  | 0, _, o => pure o
  | optionLen + 1, i, o => do
    let i ← Next b i 1
    discardPadding b optionLen i { o with m_optionsLen := o.m_optionsLen + 1 }

/-- The rest of a round, behind the reading of an option; `next` is the rest of the loop. -/
def takeOption (b : Buffer) (next : ℕ → ℕ → Options → Reading Options) (i optionLen : ℕ)
    (o : Options) (op : TcpOption) (optionSize : ℕ) : Reading Options :=
  if optionSize ≠ op.GetSerializedSize then return o
  else if optionLen < optionSize then return o
  else do
    let i ← Next b i optionSize
    if op.GetKind = END then
      -- Nothing is left of the options behind the padding.
      discardPadding b (optionLen - optionSize) i (o.push op optionSize)
    else next i (optionLen - optionSize) (o.push op optionSize)

def readOptions (b : Buffer) : ℕ → ℕ → ℕ → Options → Reading Options
  | 0, _, _, _ => throw .diverges
  | fuel + 1, i, optionLen, o =>
    if optionLen = 0 then pure o
    else do
      let kind ← PeekU8 b i
      let op ← deserializeOption kind b i
      takeOption b (readOptions b fuel) i optionLen o op.1 op.2

/-! ### Headers -/

def m_maxOptionsLen : UInt32 := 40

/-- A `TcpHeader`. -/
structure Header where
  m_sourcePort : UInt16
  m_destinationPort : UInt16
  m_sequenceNumber : UInt32
  m_ackNumber : UInt32
  m_length : UInt8
  m_flags : UInt8
  m_windowSize : UInt16
  m_urgentPointer : UInt16
  m_goodChecksum : Bool
  options : Options
deriving DecidableEq, Repr

def CalculateHeaderLength (options : List TcpOption) : UInt8 :=
  let len := 20 + optionsSize options
  let len := if len % 4 = 0 then len else len + (4 - len % 4)
  UInt8.ofNat (len / 4)

/-- The carries of `Buffer::Iterator::CalculateIpChecksum`, which come around. -/
def addCarries (sum : ℕ) : ℕ :=
  if sum < 65536 then sum else addCarries (sum % 65536 + sum / 65536)
decreasing_by omega

/-- `Buffer::Iterator::CalculateIpChecksum`, from the start of the buffer. -/
def CalculateIpChecksum (b : Buffer) (size : UInt16) (initialChecksum : UInt32) : UInt16 :=
  let words := (List.range (size.toNat / 2)).map fun j =>
    (b.octet (2 * j + 1)).toNat * 256 + (b.octet (2 * j)).toNat
  let sum := initialChecksum.toNat + words.sum
  let sum := if size.toNat % 2 = 1 then sum + (b.octet (size.toNat - 1)).toNat else sum
  ~~~ UInt16.ofNat (addCarries (sum % 2 ^ 32))

/-- What a header is deserialized with: `m_calcChecksum`, `m_goodChecksum` so far, and the
checksum that `CalculateHeaderChecksum` gives for the addresses, the protocol and a size. -/
structure Checksum where
  m_calcChecksum : Bool
  m_goodChecksum : Bool
  headerChecksum : UInt16 → UInt16

/-- The end of `Deserialize`. -/
def checkSum (c : Checksum) (b : Buffer) : Bool :=
  if c.m_calcChecksum then
    let size := UInt16.ofNat b.size
    CalculateIpChecksum b size (c.headerChecksum size).toUInt32 = 0
  else c.m_goodChecksum

/-- `Deserialize`: the header, and the size that is returned. -/
def Deserialize (fuel : ℕ) (c : Checksum) (b : Buffer) : Reading (Header × ℕ) := do
  let sourcePort ← ReadNtohU16 b 0
  let destinationPort ← ReadNtohU16 b sourcePort.2
  let sequenceNumber ← ReadNtohU32 b destinationPort.2
  let ackNumber ← ReadNtohU32 b sequenceNumber.2
  let field ← ReadNtohU16 b ackNumber.2
  let flags := (field.1 &&& 0xFF).toUInt8
  let length := (field.1 >>> 12).toUInt8
  let windowSize ← ReadNtohU16 b field.2
  let i ← Next b windowSize.2 2
  let urgentPointer ← ReadNtohU16 b i
  let header : Header := ⟨sourcePort.1, destinationPort.1, sequenceNumber.1, ackNumber.1, length,
    flags, windowSize.1, urgentPointer.1, c.m_goodChecksum, ⟨[], 0⟩⟩
  let optionLen := (length.toUInt32 - 5) * 4
  if m_maxOptionsLen < optionLen then return (header, 20)
  else do
    let options ← readOptions b fuel urgentPointer.2 optionLen.toNat ⟨[], 0⟩
    return ({ header with options, m_goodChecksum := checkSum c b },
      (CalculateHeaderLength options.m_options).toNat * 4)

end Ns3Joined.Internet.TcpHeader
