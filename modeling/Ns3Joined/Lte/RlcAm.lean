import Ns3Joined.Lte.SequenceNumber10

/-!
# The transmitting side of an RLC AM entity

What `LteRlcAm` of `lte-rlc-am.cc` does with the SDUs it is given, when the MAC layer has room for
a PDU, when a STATUS PDU comes and when the poll-retransmit timer expires.

A slot of the two buffers of 1024 slots is empty if there is no `m_pdu` in it. Times are left out:
they are only reported.
-/

namespace Ns3Joined.Lte

open Function
open UInt32 (ofNat)

/-- A packet, for its bytes. -/
abbrev Packet := List UInt8

/-- The status of a `LteRlcSduStatusTag`. -/
inductive SduStatus
  | FULL_SDU
  | FIRST_SEGMENT
  | MIDDLE_SEGMENT
  | LAST_SEGMENT
deriving DecidableEq, Repr

/-- A `TxPdu`, with the status tag of its packet. -/
structure TxPdu where
  m_pdu : Packet
  status : SduStatus
deriving DecidableEq, Repr

/-- The fields of the `LteRlcAmHeader` of a data PDU that are not the same for all. An extension
bit is set if another length indicator follows. -/
structure LteRlcAmHeader where
  m_headerLength : ℕ
  m_pollingBit : Bool
  m_framingInfo : ℕ
  m_sequenceNumber : Fin 1024
  m_extensionBits : List Bool
  m_lengthIndicators : List ℕ
deriving DecidableEq, Repr

namespace LteRlcAmHeader

/-- A header after `SetDataPdu`. -/
def dataPdu : LteRlcAmHeader where
  m_headerLength := 4
  m_pollingBit := false
  m_framingInfo := 0
  m_sequenceNumber := (SequenceNumber10.new 0).m_value
  m_extensionBits := []
  m_lengthIndicators := []

def PushExtensionBit (h : LteRlcAmHeader) (extensionBit : Bool) : LteRlcAmHeader :=
  let bits := h.m_extensionBits ++ [extensionBit]
  { h with
    m_extensionBits := bits
    m_headerLength :=
      if 1 < bits.length then
        if bits.length % 2 = 1 then h.m_headerLength + 1 else h.m_headerLength + 2
      else h.m_headerLength }

def PushLengthIndicator (h : LteRlcAmHeader) (lengthIndicator : ℕ) : LteRlcAmHeader :=
  { h with m_lengthIndicators := h.m_lengthIndicators ++ [lengthIndicator] }

end LteRlcAmHeader

/-- A data PDU: its header and the data field. -/
structure AmPdu where
  header : LteRlcAmHeader
  data : Packet
deriving DecidableEq, Repr

/-- `GetSize` of a packet with a header. -/
def AmPdu.size (pdu : AmPdu) : ℕ := pdu.header.m_headerLength + pdu.data.length

/-- A slot of the buffers that has a PDU. -/
structure RetxPdu where
  m_pdu : AmPdu
  m_retxCount : ℕ
deriving DecidableEq, Repr

def RetxPdu.size (pdu : RetxPdu) : ℕ := pdu.m_pdu.size

/-- The transmitting side of a `LteRlcAm`. -/
structure LteRlcAm where
  m_txonBuffer : List TxPdu
  m_txonBufferSize : UInt32
  m_txedBuffer : Fin 1024 → Option RetxPdu
  m_txedBufferSize : UInt32
  m_retxBuffer : Fin 1024 → Option RetxPdu
  m_retxBufferSize : UInt32
  m_vtA : SequenceNumber10
  m_vtMs : SequenceNumber10
  m_vtS : SequenceNumber10
  m_pollSn : SequenceNumber10
  m_pduWithoutPoll : UInt32
  m_byteWithoutPoll : UInt32
  m_pollRetransmitTimerJustExpired : Bool
  pollRetransmitTimerIsRunning : Bool
  m_txOpportunityForRetxAlwaysBigEnough : Bool

/-- What an entity does that can be seen, and the STATUS PDUs that it gets. -/
inductive Action
  | transmitted (pdu : AmPdu)
  | retransmitted (pdu : AmPdu)
  | status (ackSn : ℕ) (nacks : List ℕ)
deriving DecidableEq, Repr

namespace LteRlcAm

/-- `m_windowSize`, `m_pollPdu` and `m_pollByte`, which the constructor sets. -/
def windowSize : ℕ := 512
def pollPdu : UInt32 := 1
def pollByte : UInt32 := 50

/-- The constructor. -/
def new (alwaysBigEnough : Bool) : LteRlcAm where
  m_txonBuffer := []
  m_txonBufferSize := 0
  m_txedBuffer := fun _ => none
  m_txedBufferSize := 0
  m_retxBuffer := fun _ => none
  m_retxBufferSize := 0
  m_vtA := .new 0
  m_vtMs := (SequenceNumber10.new 0).add windowSize
  m_vtS := .new 0
  m_pollSn := .new 0
  m_pduWithoutPoll := 0
  m_byteWithoutPoll := 0
  m_pollRetransmitTimerJustExpired := false
  pollRetransmitTimerIsRunning := false
  m_txOpportunityForRetxAlwaysBigEnough := alwaysBigEnough

def DoTransmitPdcpPdu (r : LteRlcAm) (p : Packet) : LteRlcAm :=
  { r with
    m_txonBuffer := r.m_txonBuffer ++ [⟨p, .FULL_SDU⟩]
    m_txonBufferSize := r.m_txonBufferSize + ofNat p.length }

/-- What is done when the polling bit of a PDU is set. -/
def requestStatus (r : LteRlcAm) : LteRlcAm :=
  { r with
    m_pollRetransmitTimerJustExpired := false
    m_pduWithoutPoll := 0
    m_byteWithoutPoll := 0
    m_pollSn := r.m_vtS.sub 1
    pollRetransmitTimerIsRunning := true }

/-! ### Retransmission -/

/-- The loop that looks for a PDU in the retransmission buffer. -/
def firstRetx (r : LteRlcAm) : ℕ → SequenceNumber10 → Except Fault (Option (Fin 1024 × RetxPdu))
  | 0, _ => .error .diverges
  | rounds + 1, sn => do
    let more ← sn.lt r.m_vtS
    if more then
      match r.m_retxBuffer sn.m_value with
      | some pdu => .ok (some (sn.m_value, pdu))
      | none => r.firstRetx rounds sn.next
    else .ok none

/-- The PDU goes back to the transmitted buffer. -/
def moveToTxed (r : LteRlcAm) (seqNumberValue : Fin 1024) (pdu : RetxPdu) : LteRlcAm :=
  { r with
    m_txedBuffer := update r.m_txedBuffer seqNumberValue
      (some { pdu with m_retxCount := pdu.m_retxCount + 1 })
    m_txedBufferSize := r.m_txedBufferSize + ofNat pdu.m_pdu.size
    m_retxBuffer := update r.m_retxBuffer seqNumberValue none
    m_retxBufferSize := r.m_retxBufferSize - ofNat pdu.m_pdu.size }

/-- The part of `DoNotifyTxOpportunity` that sends from the retransmission buffer. -/
def retransmit (r : LteRlcAm) (bytes : ℕ) : Except Fault (LteRlcAm × List Action) := do
  let below ← r.m_vtA.lt r.m_vtS
  if !below then .error .abort
  else
    let found ← r.firstRetx 1024 r.m_vtA
    match found with
    | none => .error .abort
    | some (seqNumberValue, pdu) =>
      if pdu.m_pdu.size ≤ bytes ∨ r.m_txOpportunityForRetxAlwaysBigEnough = true then do
        let stalled ← r.m_vtS.ge r.m_vtMs
        let poll := (r.m_txonBuffer.isEmpty &&
            r.m_retxBufferSize == ofNat pdu.m_pdu.size) ||
          stalled || r.m_pollRetransmitTimerJustExpired
        let r := if poll then r.requestStatus else r
        let header := { pdu.m_pdu.header with m_pollingBit := poll }
        .ok (r.moveToTxed seqNumberValue pdu, [.retransmitted { pdu.m_pdu with header := header }])
      else .ok (r, [])

/-! ### A new PDU -/

/-- What has been put into the data field so far, and what of the transmission buffer is left. -/
structure DataField where
  header : LteRlcAmHeader
  dataField : List TxPdu
  txonBuffer : List TxPdu
  txonBufferSize : UInt32
deriving DecidableEq, Repr

/-- The status of a new segment and of what is left, which may be nothing. -/
def segmentStatus (oldTag : SduStatus) (remains : Bool) : SduStatus × SduStatus :=
  let (newTag, oldTag) :=
    match oldTag with
    | .FULL_SDU => (SduStatus.FIRST_SEGMENT, SduStatus.LAST_SEGMENT)
    | .LAST_SEGMENT => (.MIDDLE_SEGMENT, .LAST_SEGMENT)
    | tag => (tag, tag)
  if remains then (newTag, oldTag)
  else
    match newTag with
    | .FIRST_SEGMENT => (.FULL_SDU, oldTag)
    | .MIDDLE_SEGMENT => (.LAST_SEGMENT, oldTag)
    | tag => (tag, oldTag)

/-- The loop that fills the data field: the first segment is what has been taken out of the
buffer. -/
def fill (nextSegmentSize nextSegmentId : ℕ) (header : LteRlcAmHeader) (dataField : List TxPdu)
    (txonBufferSize : UInt32) : TxPdu → List TxPdu → DataField
  | firstSegment, txonBuffer =>
    let size := firstSegment.m_pdu.length
    if size = 0 ∨ nextSegmentSize = 0 then ⟨header, dataField, txonBuffer, txonBufferSize⟩
    else if nextSegmentSize < size ∨ 2047 < size then
      let currSegmentSize := min size nextSegmentSize
      let remaining := firstSegment.m_pdu.drop currSegmentSize
      let (newTag, oldTag) := segmentStatus firstSegment.status (0 < remaining.length)
      let newSegment : TxPdu := ⟨firstSegment.m_pdu.take currSegmentSize, newTag⟩
      { header := header.PushExtensionBit false
        dataField := dataField ++ [newSegment]
        txonBuffer :=
          if 0 < remaining.length then ⟨remaining, oldTag⟩ :: txonBuffer else txonBuffer
        txonBufferSize :=
          if 0 < remaining.length then txonBufferSize + ofNat remaining.length
          else txonBufferSize }
    else
      match txonBuffer with
      | [] => ⟨header.PushExtensionBit false, dataField ++ [firstSegment], [], txonBufferSize⟩
      | next :: rest =>
        if nextSegmentSize - size ≤ 2 then
          ⟨header.PushExtensionBit false, dataField ++ [firstSegment], next :: rest,
            txonBufferSize⟩
        else
          fill (nextSegmentSize - ((if nextSegmentId % 2 = 1 then 2 else 1) + size))
            (nextSegmentId + 1) ((header.PushExtensionBit true).PushLengthIndicator size)
            (dataField ++ [firstSegment]) (txonBufferSize - ofNat next.m_pdu.length)
            next rest

/-- The framing info, from the status of the first and of the last segment: `NO_FIRST_BYTE` is 2
and `NO_LAST_BYTE` is 1. -/
def framingInfo (first last : SduStatus) : ℕ :=
  (match first with
    | .FULL_SDU | .FIRST_SEGMENT => 0
    | _ => 2) |||
  (match last with
    | .FULL_SDU | .LAST_SEGMENT => 0
    | _ => 1)

/-- The PDU is stored in the transmitted buffer. -/
def storeTxed (r : LteRlcAm) (pdu : AmPdu) : LteRlcAm :=
  { r with
    m_txedBufferSize := r.m_txedBufferSize + ofNat pdu.size
    m_txedBuffer := update r.m_txedBuffer pdu.header.m_sequenceNumber (some ⟨pdu, 0⟩) }

/-- The part of `DoNotifyTxOpportunity` that builds a new PDU. -/
def newPdu (r : LteRlcAm) (bytes : ℕ) : Except Fault (LteRlcAm × List Action) :=
  match r.m_txonBuffer with
  | [] => .ok (r, [])
  | first :: txonBuffer => do
    let filled := fill (bytes - 4) 1 .dataPdu []
      (r.m_txonBufferSize - ofNat first.m_pdu.length) first txonBuffer
    let sequenceNumber := r.m_vtS
    let r := { r with
      m_txonBuffer := filled.txonBuffer
      m_txonBufferSize := filled.txonBufferSize
      m_vtS := r.m_vtS.next }
    let below ← sequenceNumber.lt r.m_vtMs
    let above ← sequenceNumber.ge r.m_vtA
    if !(below && above) then .error .abort
    else
      match filled.dataField.head?, filled.dataField.getLast? with
      | some firstSegment, some lastSegment => do
        let data := (filled.dataField.map TxPdu.m_pdu).flatten
        let r := { r with
          m_pduWithoutPoll := r.m_pduWithoutPoll + 1
          m_byteWithoutPoll := r.m_byteWithoutPoll + ofNat data.length }
        let stalled ← r.m_vtS.ge r.m_vtMs
        let poll := decide (pollPdu ≤ r.m_pduWithoutPoll) ||
          decide (pollByte ≤ r.m_byteWithoutPoll) ||
          (r.m_txonBuffer.isEmpty && r.m_retxBufferSize == (0 : UInt32)) || stalled ||
          r.m_pollRetransmitTimerJustExpired
        let r := if poll then r.requestStatus else r
        let pdu : AmPdu :=
          { header := { filled.header with
              m_pollingBit := poll
              m_framingInfo := framingInfo firstSegment.status lastSegment.status
              m_sequenceNumber := sequenceNumber.m_value }
            data := data }
        .ok (r.storeTxed pdu, [.transmitted pdu])
      | _, _ => .error .undefined

/-- `DoNotifyTxOpportunity`. `statusPending` is whether the receiving side has asked for a STATUS
PDU, which may be sent: nothing else is then. -/
def DoNotifyTxOpportunity (r : LteRlcAm) (bytes : ℕ) (statusPending : Bool) :
    Except Fault (LteRlcAm × List Action) :=
  if bytes < 4 then .error .abort
  else if statusPending then .ok (r, [])
  else if r.m_retxBufferSize > 0 then r.retransmit bytes
  else if r.m_txonBufferSize > 0 then
    if bytes < 7 then .error .abort
    else do
      let within ← r.m_vtS.le r.m_vtMs
      if !within then .error .abort
      else if r.m_vtS.m_value = r.m_vtMs.m_value then .ok (r, [])
      else r.newPdu bytes
  else .ok (r, [])

/-! ### STATUS PDUs and the timer -/

/-- The PDU of a slot is moved to the retransmission buffer, if it is in the transmitted one. -/
def moveToRetx (r : LteRlcAm) (seqNumberValue : Fin 1024) : LteRlcAm :=
  match r.m_txedBuffer seqNumberValue with
  | some pdu =>
    { r with
      m_retxBuffer := update r.m_retxBuffer seqNumberValue (some pdu)
      m_retxBufferSize := r.m_retxBufferSize + ofNat pdu.m_pdu.size
      m_txedBufferSize := r.m_txedBufferSize - ofNat pdu.m_pdu.size
      m_txedBuffer := update r.m_txedBuffer seqNumberValue none }
  | none => r

/-- A sequence number that is reported missing. -/
def negative (r : LteRlcAm) (seqNumberValue : Fin 1024) : Except Fault LteRlcAm :=
  let r := r.moveToRetx seqNumberValue
  if (r.m_retxBuffer seqNumberValue).isSome then .ok r else .error .abort

/-- A sequence number that is acknowledged. -/
def positive (r : LteRlcAm) (seqNumberValue : Fin 1024) : Except Fault LteRlcAm := do
  let r ←
    match r.m_txedBuffer seqNumberValue with
    | some pdu =>
      if (r.m_retxBuffer seqNumberValue).isSome then .error .abort
      else .ok { r with
        m_txedBufferSize := r.m_txedBufferSize - ofNat pdu.m_pdu.size
        m_txedBuffer := update r.m_txedBuffer seqNumberValue none }
    | none => .ok r
  match r.m_retxBuffer seqNumberValue with
  | some pdu =>
    .ok { r with
      m_retxBufferSize := r.m_retxBufferSize - ofNat pdu.m_pdu.size
      m_retxBuffer := update r.m_retxBuffer seqNumberValue none }
  | none => .ok r

/-- A sequence number below ACK_SN. -/
def report (r : LteRlcAm) (nacked : Bool) (seqNumberValue : Fin 1024) : Except Fault LteRlcAm :=
  if nacked then r.negative seqNumberValue else r.positive seqNumberValue

/-- The timer is cancelled by a report about the PDU that had the polling bit. -/
def cancelTimer (r : LteRlcAm) (seqNumberValue : Fin 1024) : LteRlcAm :=
  if r.pollRetransmitTimerIsRunning && seqNumberValue == r.m_pollSn.m_value then
    { r with pollRetransmitTimerIsRunning := false }
  else r

/-- VT(A) goes on to the next sequence number, which is the base of all of them then. -/
def incrementVtA (r : LteRlcAm) : LteRlcAm :=
  let vtA := r.m_vtA.next
  { r with
    m_vtA := vtA.SetModulusBase vtA
    m_vtMs := (vtA.add windowSize).SetModulusBase vtA
    m_vtS := r.m_vtS.SetModulusBase vtA }

/-- The loop over the sequence numbers below ACK_SN. -/
def statusLoop (nacks : List ℕ) :
    ℕ → LteRlcAm → SequenceNumber10 → SequenceNumber10 → Bool → Except Fault LteRlcAm
  | 0, _, _, _, _ => .error .diverges
  | rounds + 1, r, sn, ackSn, increment => do
    let below ← sn.lt ackSn
    let below ← if below then sn.lt r.m_vtS else .ok false
    if below then do
      let nacked := nacks.contains sn.m_value.val
      let r ← (r.cancelTimer sn.m_value).report nacked sn.m_value
      let increment := increment && !nacked
      if increment then
        let r := r.incrementVtA
        statusLoop nacks rounds r (sn.SetModulusBase r.m_vtA).next (ackSn.SetModulusBase r.m_vtA)
          increment
      else statusLoop nacks rounds r sn.next ackSn increment
    else .ok r

/-- `DoReceivePdu` with a STATUS PDU. -/
def receiveStatus (r : LteRlcAm) (ackSn : SequenceNumber10) (nacks : List ℕ) :
    Except Fault LteRlcAm :=
  let r := { r with
    m_vtA := r.m_vtA.SetModulusBase r.m_vtA
    m_vtS := r.m_vtS.SetModulusBase r.m_vtA
    m_vtMs := r.m_vtMs.SetModulusBase r.m_vtA }
  statusLoop nacks 1024 r r.m_vtA (ackSn.SetModulusBase r.m_vtA) true

/-- The loop of `ExpirePollRetransmitTimer`. -/
def moveAllToRetx : ℕ → LteRlcAm → SequenceNumber10 → Except Fault LteRlcAm
  | 0, _, _ => .error .diverges
  | rounds + 1, r, sn => do
    let below ← sn.lt r.m_vtS
    if below then moveAllToRetx rounds (r.moveToRetx sn.m_value) sn.next else .ok r

def ExpirePollRetransmitTimer (r : LteRlcAm) : Except Fault LteRlcAm := do
  let r := { r with
    m_pollRetransmitTimerJustExpired := true
    pollRetransmitTimerIsRunning := false }
  let within ← r.m_vtS.le r.m_vtMs
  if !within then .error .abort
  else if (r.m_txonBufferSize = 0 ∧ r.m_retxBufferSize = 0) ∨
      r.m_vtS.m_value = r.m_vtMs.m_value then
    moveAllToRetx 1024 r r.m_vtA
  else .ok r

/-! ### Runs -/

/-- What can happen to the entity. A STATUS PDU is given by the sequence numbers as they were
before they were cut to 10 bits. -/
inductive Call
  | transmitPdcpPdu (p : Packet)
  | notifyTxOpportunity (bytes : ℕ) (statusPending : Bool)
  | statusPdu (ackSn : ℕ) (nacks : List ℕ)
  | pollRetransmitTimerExpires
deriving DecidableEq, Repr

/-- One call, and what was done. -/
def step (r : LteRlcAm) : Call → Except Fault (LteRlcAm × List Action)
  | .transmitPdcpPdu p => .ok (r.DoTransmitPdcpPdu p, [])
  | .notifyTxOpportunity bytes statusPending => r.DoNotifyTxOpportunity bytes statusPending
  | .statusPdu ackSn nacks => do
    let r ← r.receiveStatus (.new ackSn) (nacks.map (· % 1024))
    .ok (r, [.status ackSn nacks])
  | .pollRetransmitTimerExpires => do
    let r ← r.ExpirePollRetransmitTimer
    .ok (r, [])

end LteRlcAm
end Ns3Joined.Lte
