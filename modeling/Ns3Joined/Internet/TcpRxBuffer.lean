import Mathlib.Order.Interval.Finset.Nat
import Ns3Joined.Fault
import Ns3Joined.Internet.PacketBytes
import Ns3Joined.Internet.SequenceNumber
import Ns3Joined.Library.Refinement

/-!
# The receive buffer of TCP

`TcpRxBuffer` (`tcp-rx-buffer.cc`): segments that arrive in any order, kept by their sequence
numbers until the application takes them.

* `assign`, `contains`: the map `m_data`, as the list of its entries in order.
* `trim`: the loop of `Add` that takes away what is there already.
* `UpdateSackList`, `ClearSackList`: the blocks that are reported to the sender.
* `Add`, `Extract`, `SetFinSequence`, `Finished`, `MaxRxSequence`: the operations of the source.
* `Received`, `received`: what the buffer is for.

What is known of the bytes of packets stays open (`PacketBytes`). The proofs are about the values
that are meant; `TcpRxBufferPackets` has the packets as they are kept.
-/

namespace Ns3Joined.Internet

open SequenceNumber

variable {α : Type}

/-- A `TcpRxBuffer`. -/
structure TcpRxBuffer (α : Type := UInt8) where
  m_nextRxSeq : SequenceNumber32
  m_finSeq : SequenceNumber32
  m_gotFin : Bool
  m_size : UInt32
  m_maxBuffer : UInt32
  m_availBytes : UInt32
  m_data : List (SequenceNumber32 × List α)
  m_sackList : List (SequenceNumber32 × SequenceNumber32)

namespace TcpRxBuffer

/-- An entry of `m_data`. -/
abbrev Entry (α : Type := UInt8) := SequenceNumber32 × List α

/-- A block of `m_sackList`. -/
abbrev SackBlock := SequenceNumber32 × SequenceNumber32

/-- A buffer for segments from the given sequence number on. -/
def new (nextRxSeq : SequenceNumber32) (maxBuffer : UInt32) : TcpRxBuffer α where
  m_nextRxSeq := nextRxSeq
  m_finSeq := 0
  m_gotFin := false
  m_size := 0
  m_maxBuffer := maxBuffer
  m_availBytes := 0
  m_data := []
  m_sackList := []

/-! ### The map -/

/-- `m_data[key] = p`. -/
def assign (key : SequenceNumber32) (p : List α) : List (Entry α) → List (Entry α)
  | [] => [(key, p)]
  | x :: rest =>
    if lt key x.1 then (key, p) :: x :: rest
    else if lt x.1 key then x :: assign key p rest
    else (x.1, p) :: rest

/-- `m_data.find (key) != m_data.end ()`. -/
def contains (key : SequenceNumber32) (data : List (Entry α)) : Bool :=
  data.any fun x => !lt key x.1 && !lt x.1 key

/-! ### The blocks to report -/

/-- The loop of `UpdateSackList`: `seen` are the blocks between the first one and those that are
still to be examined. After a merge the blocks are examined anew. -/
def mergeBlocks (first : SackBlock) (seen : List SackBlock) :
    List SackBlock → Except Fault (List SackBlock)
  | [] => .ok (first :: seen)
  | current :: rest =>
    if first.1 = current.2 then
      if lt current.1 first.2 then mergeBlocks (current.1, first.2) [] (seen ++ rest)
      else .error .abort
    else if first.2 = current.1 then
      if lt first.1 current.2 then mergeBlocks (first.1, current.2) [] (seen ++ rest)
      else .error .abort
    else
      mergeBlocks first (seen ++ [current]) rest
termination_by rest => (seen.length + rest.length, rest.length)
decreasing_by
  all_goals simp only [List.length_append, List.length_cons, List.length_nil, Prod.lex_def]
  all_goals omega

def UpdateSackList (nextRxSeq : SequenceNumber32) (sackList : List SackBlock)
    (head tail : SequenceNumber32) : Except Fault (List SackBlock) :=
  if gt head nextRxSeq then do
    let sackList ← mergeBlocks (head, tail) [] sackList
    .ok (if sackList.length > 4 then sackList.dropLast else sackList)
  else
    .error .abort

def ClearSackList (seq : SequenceNumber32) : List SackBlock → Except Fault (List SackBlock)
  | [] => .ok []
  | block :: sackList =>
    if lt block.1 block.2 then do
      let rest ← ClearSackList seq sackList
      .ok (if le block.2 seq then rest else block :: rest)
    else
      .error .abort

/-! ### Segments in -/

/-- The loop of `Add` that removes overlapped bytes: the entries that remain, and head, tail and
occupancy. -/
def trim (headSeq tailSeq : SequenceNumber32) (size : UInt32) :
    List (Entry α) → List (Entry α) × SequenceNumber32 × SequenceNumber32 × UInt32
  | [] => ([], headSeq, tailSeq, size)
  | i :: rest =>
    if le i.1 tailSeq then
      let lastByteSeq := i.1 + GetSize i.2
      if gt lastByteSeq headSeq then
        if gt i.1 headSeq && lt lastByteSeq tailSeq then
          -- the existing packet is embedded in the new one
          trim headSeq tailSeq (size - GetSize i.2) rest
        else
          let headSeq' := if le i.1 headSeq then lastByteSeq else headSeq
          let tailSeq' := if ge lastByteSeq tailSeq then i.1 else tailSeq
          let r := trim headSeq' tailSeq' size rest
          (i :: r.1, r.2)
      else
        let r := trim headSeq tailSeq size rest
        (i :: r.1, r.2)
    else
      (i :: rest, headSeq, tailSeq, size)

/-- The loop of `Add` that moves `m_nextRxSeq` over the packets that are in sequence. -/
def advance (nextRxSeq : SequenceNumber32) (availBytes : UInt32) (sackList : List SackBlock) :
    List (Entry α) → Except Fault (SequenceNumber32 × UInt32 × List SackBlock)
  | [] => .ok (nextRxSeq, availBytes, sackList)
  | i :: rest =>
    if lt i.1 nextRxSeq then
      advance nextRxSeq availBytes sackList rest
    else if gt i.1 nextRxSeq then
      .ok (nextRxSeq, availBytes, sackList)
    else do
      let nextRxSeq := i.1 + GetSize i.2
      let sackList ← ClearSackList nextRxSeq sackList
      advance nextRxSeq (availBytes + GetSize i.2) sackList rest

/-- The part of `Add` that trims the packet to fit the window. -/
def fitWindow (b : TcpRxBuffer α) (headSeq tailSeq : SequenceNumber32) :
    SequenceNumber32 × SequenceNumber32 :=
  let headSeq := if lt headSeq b.m_nextRxSeq then b.m_nextRxSeq else headSeq
  match b.m_data with
  | [] => (headSeq, tailSeq)
  | begin_ :: _ =>
    let maxSeq := begin_.1 + b.m_maxBuffer
    let tailSeq := if lt maxSeq tailSeq then maxSeq else tailSeq
    let headSeq := if lt tailSeq headSeq then tailSeq else headSeq
    (headSeq, tailSeq)

/-- `Add`, of a packet with the sequence number of its header. -/
def Add (b : TcpRxBuffer α) (p : List α) (sequenceNumber : SequenceNumber32) :
    Except Fault (TcpRxBuffer α × Bool) :=
  let w := b.fitWindow sequenceNumber (sequenceNumber + GetSize p)
  match trim w.1 w.2 b.m_size b.m_data with
  | (data, headSeq, tailSeq, size) =>
    if ge headSeq tailSeq then
      .ok ({ b with m_data := data, m_size := size }, false)
    else do
      let start := headSeq - sequenceNumber
      let length := tailSeq - headSeq
      let p := (p.drop start.toNat).take length.toNat
      if GetSize p ≠ length then .error .abort else
      if contains headSeq data then .error .abort else
      let data := assign headSeq p data
      let sackList ← if gt headSeq b.m_nextRxSeq then
          UpdateSackList b.m_nextRxSeq b.m_sackList headSeq tailSeq
        else
          .ok b.m_sackList
      let (nextRxSeq, availBytes, sackList) ←
        advance b.m_nextRxSeq b.m_availBytes sackList data
      .ok ({ b with
        m_data := data
        m_size := size + GetSize p
        m_nextRxSeq := if b.m_gotFin && nextRxSeq == b.m_finSeq then nextRxSeq + 1 else nextRxSeq
        m_availBytes := availBytes
        m_sackList := sackList }, true)

def SetFinSequence (b : TcpRxBuffer α) (s : SequenceNumber32) : TcpRxBuffer α :=
  { b with
    m_gotFin := true
    m_finSeq := s
    m_nextRxSeq := if b.m_nextRxSeq == s then b.m_nextRxSeq + 1 else b.m_nextRxSeq }

def Finished (b : TcpRxBuffer α) : Bool := b.m_gotFin && lt b.m_finSeq b.m_nextRxSeq

def MaxRxSequence (b : TcpRxBuffer α) : SequenceNumber32 :=
  if b.m_gotFin then
    b.m_finSeq
  else
    match b.m_data with
    | [] => b.m_nextRxSeq + b.m_maxBuffer
    | begin_ :: _ =>
      if gt b.m_nextRxSeq begin_.1 then begin_.1 + b.m_maxBuffer else b.m_nextRxSeq + b.m_maxBuffer

/-! ### Segments out -/

/-- The loop of `Extract`, with the packet put together so far. -/
def extractLoop [PacketBytes α] (nextRxSeq : SequenceNumber32) (out : List α) :
    UInt32 → UInt32 → UInt32 → List (Entry α) →
      Except Fault (List α × UInt32 × UInt32 × List (Entry α))
  | extractSize, size, avail, [] =>
    if extractSize = 0 then .ok (out, size, avail, []) else .error .undefined
  | extractSize, size, avail, i :: rest =>
    if extractSize = 0 then
      .ok (out, size, avail, i :: rest)
    else if le i.1 nextRxSeq then
      let pktSize := GetSize i.2
      if pktSize ≤ extractSize then
        extractLoop nextRxSeq (PacketBytes.AddAtEnd out i.2) (extractSize - pktSize)
          (size - pktSize) (avail - pktSize) rest
      else
        let data := assign (i.1 + extractSize)
          ((i.2.drop extractSize.toNat).take (pktSize - extractSize).toNat) (i :: rest)
        .ok (PacketBytes.AddAtEnd out (i.2.take extractSize.toNat), size - extractSize,
          avail - extractSize, data.eraseP fun x => x.1 == i.1)
    else
      .error .abort

/-- `Extract`, with `nullptr` for no packet. -/
def Extract [PacketBytes α] (b : TcpRxBuffer α) (maxSize : UInt32) :
    Except Fault (TcpRxBuffer α × Option (List α)) :=
  let extractSize := if b.m_availBytes < maxSize then b.m_availBytes else maxSize
  if extractSize = 0 then
    .ok (b, none)
  else if b.m_data.length = 0 then
    .error .abort
  else do
    let (outPkt, size, avail, data) ←
      extractLoop b.m_nextRxSeq [] extractSize b.m_size b.m_availBytes b.m_data
    .ok ({ b with m_data := data, m_size := size, m_availBytes := avail },
      if GetSize outPkt = 0 then none else some outPkt)

/-! ### Calls -/

/-- The calls, with places in the stream for sequence numbers: a segment by its first byte and
its length. -/
inductive Call
  | add (start length : ℕ)
  | extract (maxSize : UInt32)
  | setFinSequence
  | finished
  | maxRxSequence
deriving DecidableEq

/-- The answers of the calls. -/
inductive Answer
  | done
  | flag (b : Bool)
  | packet (p : Option (List UInt8))
  | number (s : SequenceNumber32)
deriving DecidableEq

section Stream

variable (stream : List UInt8) (isn : SequenceNumber32)

/-- One call, for the segments of a stream whose first byte has sequence number `isn`. -/
def step (b : TcpRxBuffer) : Call → Except Fault (TcpRxBuffer × Answer)
  | .add start length => do
    let (b, added) ← b.Add ((stream.drop start).take length) (seq isn start)
    .ok (b, .flag added)
  | .extract maxSize => do
    let (b, p) ← b.Extract maxSize
    .ok (b, .packet p)
  | .setFinSequence => .ok (b.SetFinSequence (seq isn stream.length), .done)
  | .finished => .ok (b, .flag b.Finished)
  | .maxRxSequence => .ok (b, .number b.MaxRxSequence)

end Stream

end TcpRxBuffer

/-! ### What a receiver is to do -/

/-- The places of the bytes that were received so far, how many bytes the application has taken,
and whether the end of the stream is known. -/
structure Received where
  bytes : Finset ℕ
  read : ℕ
  fin : Bool

namespace Received

open TcpRxBuffer (Call Answer)

/-- The received bytes that the application has not taken yet. -/
def unread (t : Received) : Finset ℕ := t.bytes.filter (t.read ≤ ·)

/-- The end of the contiguous bytes from the first one on. -/
def edge (t : Received) : ℕ := Nat.find (Infinite.exists_notMem_finset t.bytes)

/-- The next byte expected; the end of the stream counts as one. -/
def next (stream : List UInt8) (t : Received) : ℕ :=
  if t.fin = true ∧ t.edge = stream.length then t.edge + 1 else t.edge

/-- What is new of a segment: the bytes that were not received yet, and are less than the size of
the buffer ahead of all those that are not taken yet. -/
def fresh (maxBuffer : UInt32) (t : Received) (start length : ℕ) : Finset ℕ :=
  (Finset.Ico start (start + length)).filter fun n =>
    n ∉ t.bytes ∧ ∀ m ∈ t.unread, n < m + maxBuffer.toNat

/-- The places in play: from the segment's start, or the first byte not taken, to the segment's
end, the ends of the received bytes and of the window, each with room for the end of the stream,
span less than half the sequence numbers. -/
def InSpan (maxBuffer : UInt32) (t : Received) (start length : ℕ) : Prop :=
  start + length + 1 < min start t.read + 2 ^ 31 ∧
  (∀ m ∈ t.bytes, m + 2 < min start t.read + 2 ^ 31) ∧
  ∀ m ∈ t.unread, (∀ m' ∈ t.unread, m ≤ m') → m + maxBuffer.toNat < min start t.read + 2 ^ 31

instance decidableInSpan (maxBuffer : UInt32) (t : Received) (start length : ℕ) :
    Decidable (t.InSpan maxBuffer start length) :=
  inferInstanceAs (Decidable (_ ∧ _ ∧ _))

end Received

/-- A receiver hands on what it has received, in order. -/
def received (stream : List UInt8) (isn : SequenceNumber32) (maxBuffer : UInt32) :
    Refinement.Spec Received TcpRxBuffer.Call TcpRxBuffer.Answer where
  Allowed := fun t call =>
    match call with
    | .add start length => start + length ≤ stream.length ∧ t.InSpan maxBuffer start length
    | .setFinSequence => stream.length + 1 < t.read + 2 ^ 31
    | .extract _ | .finished | .maxRxSequence => True
  next := fun t call =>
    match call with
    | .add start length => { t with bytes := t.bytes ∪ t.fresh maxBuffer start length }
    | .extract maxSize => { t with read := min t.edge (t.read + maxSize.toNat) }
    | .setFinSequence => { t with fin := true }
    | .finished | .maxRxSequence => t
  answer := fun t call =>
    match call with
    | .add start length => .flag (t.fresh maxBuffer start length).Nonempty
    | .extract maxSize =>
      let length := min (t.edge - t.read) maxSize.toNat
      .packet (if length = 0 then none else some ((stream.drop t.read).take length))
    | .setFinSequence => .done
    | .finished => .flag (t.fin = true ∧ t.edge = stream.length)
    | .maxRxSequence =>
      .number (if t.fin then seq isn stream.length
        else if t.read < t.edge then seq isn t.read + maxBuffer
        else seq isn t.edge + maxBuffer)

instance decidableAllowed (stream : List UInt8) (isn : SequenceNumber32) (maxBuffer : UInt32)
    (t : Received) :
    (call : TcpRxBuffer.Call) → Decidable ((received stream isn maxBuffer).Allowed t call)
  | .add start length =>
    inferInstanceAs (Decidable (start + length ≤ stream.length ∧ t.InSpan maxBuffer start length))
  | .setFinSequence => inferInstanceAs (Decidable (stream.length + 1 < t.read + 2 ^ 31))
  | .extract _ | .finished | .maxRxSequence => inferInstanceAs (Decidable True)

end Ns3Joined.Internet
