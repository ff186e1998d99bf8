import Ns3Joined.Library.Refinement
import Ns3Joined.Wifi.BlockAckHeader

/-!
# The block ack cache of a recipient

`BlockAckCache` (`block-ack-cache.cc`): which sequence numbers of the current window have
been received, as a table over all 4096 sequence numbers whose entries are cleared in ranges
when the window moves.

* `UpdateWithMpdu`, `UpdateWithBlockAckReq`, `FillBlockAckBitmap`: the operations of the source.
* `Call`, `step`: the calls of `MacLow`, and what a cache does for each.
* `Received`, `received`: what the cache is for, a window over the sequence numbers and the MPDUs
  received since it came to cover their numbers.
* `Received.Fits`: the calls that keep it so, by the MPDUs that were received.
-/

namespace Ns3Joined.Wifi

/-- A `BlockAckCache`. The entry of a sequence number has the bit of each fragment received. -/
structure BlockAckCache where
  m_winStart : ℕ
  m_winSize : ℕ
  m_winEnd : ℕ
  m_bitmap : ℕ → ℕ

namespace BlockAckCache

def Init (winStart winSize : ℕ) : BlockAckCache where
  m_winStart := winStart
  m_winSize := winSize
  m_winEnd := (winStart + winSize - 1) % 4096
  m_bitmap := fun _ => 0

def GetWinStart (c : BlockAckCache) : ℕ := c.m_winStart

def WINSIZE_ASSERT (c : BlockAckCache) : Except Fault BlockAckCache :=
  if (c.m_winEnd + 4096 - c.m_winStart) % 4096 = c.m_winSize - 1 then .ok c else .error .abort

/-- `for (i = start; i != end; i = (i + 1) % 4096) body (i); body (end)`: a loop over the
sequence numbers that is not done after one turn never is. -/
def forEach {σ : Type} (body : ℕ → σ → σ) (start stop : ℕ) (s : σ) : Except Fault σ :=
  match CircularRange.loop 4096 body stop 4096 start s with
  | none => .error .diverges
  | some s => .ok s

def ResetPortionOfBitmap (c : BlockAckCache) (start stop : ℕ) : Except Fault BlockAckCache := do
  let bitmap ← forEach (fun i bitmap => Function.update bitmap i 0) start stop c.m_bitmap
  .ok { c with m_bitmap := bitmap }

/-- The last line of `UpdateWithMpdu`: `m_bitmap[seqNumber] |= (0x0001 << fragment)`. -/
def markFragment (c : BlockAckCache) (hdr : WifiMacHeader) : BlockAckCache :=
  { c with
    m_bitmap := Function.update c.m_bitmap hdr.GetSequenceNumber
      (c.m_bitmap hdr.GetSequenceNumber ||| (0x0001 <<< hdr.GetFragmentNumber)) }

/-- `UpdateWithMpdu`. The entry of an MPDU beyond the window is not cleared. -/
def UpdateWithMpdu (c : BlockAckCache) (hdr : WifiMacHeader) : Except Fault BlockAckCache :=
  let seqNumber := hdr.GetSequenceNumber
  if !QosUtilsIsOldPacket c.m_winStart seqNumber then
    if !IsInWindow seqNumber c.m_winStart c.m_winSize then do
      let delta := (seqNumber + 4096 - c.m_winEnd) % 4096
      let c ← if delta > 1 then
          c.ResetPortionOfBitmap ((c.m_winEnd + 1) % 4096) ((seqNumber + 4096 - 1) % 4096)
        else
          .ok c
      let c ← WINSIZE_ASSERT
        { c with m_winStart := (c.m_winStart + delta) % 4096, m_winEnd := seqNumber }
      .ok (c.markFragment hdr)
    else
      .ok (c.markFragment hdr)
  else
    .ok c

def UpdateWithBlockAckReq (c : BlockAckCache) (startingSeq : ℕ) : Except Fault BlockAckCache :=
  if !QosUtilsIsOldPacket c.m_winStart startingSeq then
    if IsInWindow startingSeq c.m_winStart c.m_winSize then
      if startingSeq ≠ c.m_winStart then do
        let newWinEnd := (startingSeq + c.m_winSize - 1) % 4096
        let c ← { c with m_winStart := startingSeq }.ResetPortionOfBitmap
          ((c.m_winEnd + 1) % 4096) newWinEnd
        WINSIZE_ASSERT { c with m_winEnd := newWinEnd }
      else
        .ok c
    else do
      let winEnd := (startingSeq + c.m_winSize - 1) % 4096
      let c ← { c with m_winStart := startingSeq, m_winEnd := winEnd }.ResetPortionOfBitmap
        startingSeq winEnd
      WINSIZE_ASSERT c
  else
    .ok c

/-- The body of the loop of `FillBlockAckBitmap`. -/
def fillBody (c : BlockAckCache) (i : ℕ) (header : Except Fault CtrlBAckResponseHeader) :
    Except Fault CtrlBAckResponseHeader :=
  if c.m_bitmap i = 1 then do (← header).SetReceivedPacket i else header

def FillBlockAckBitmap (c : BlockAckCache) (blockAckHeader : CtrlBAckResponseHeader) :
    Except Fault CtrlBAckResponseHeader :=
  match blockAckHeader.m_baType with
  | .BASIC_BLOCK_ACK => .error .abort
  | .COMPRESSED_BLOCK_ACK | .EXTENDED_COMPRESSED_BLOCK_ACK => do
    let i := blockAckHeader.m_startingSeq
    let stop := (i + c.m_winSize - 1) % 4096
    ← forEach c.fillBody i stop (.ok blockAckHeader)
  | .MULTI_TID_BLOCK_ACK => .error .abort

/-! ### Calls -/

/-- The calls of a cache. `acknowledges` fills a response of the given type and starting
sequence number, and asks whether it acknowledges a sequence number. -/
inductive Call
  | updateWithMpdu (hdr : WifiMacHeader)
  | updateWithBlockAckReq (startingSeq : ℕ)
  | getWinStart
  | acknowledges (type : BlockAckType) (startingSeq seq : ℕ)
deriving DecidableEq

/-- The answers of the calls. -/
inductive Answer
  | done
  | winStart (seq : ℕ)
  | acknowledged (received : Bool)
deriving DecidableEq

/-- One call. -/
def step (c : BlockAckCache) : Call → Except Fault (BlockAckCache × Answer)
  | .updateWithMpdu hdr => do
    let c ← c.UpdateWithMpdu hdr
    .ok (c, .done)
  | .updateWithBlockAckReq startingSeq => do
    let c ← c.UpdateWithBlockAckReq startingSeq
    .ok (c, .done)
  | .getWinStart => .ok (c, .winStart c.GetWinStart)
  | .acknowledges type startingSeq seq => do
    let header ← c.FillBlockAckBitmap (.empty type startingSeq)
    let received ← header.IsPacketReceived seq
    .ok (c, .acknowledged received)

end BlockAckCache

/-! ### What a recipient is to remember -/

/-- A window over the sequence numbers, and the MPDUs received since it last came to cover
their numbers. Those of a number that it has left behind are remembered until it comes again. -/
structure Received where
  winStart : ℕ
  winSize : ℕ
  mpdus : List WifiMacHeader

namespace Received

open CircularRange

/-- The window covers the sequence number. -/
def Covers (t : Received) (seq : ℕ) : Prop := distance 4096 t.winStart seq < t.winSize

instance (t : Received) (seq : ℕ) : Decidable (t.Covers seq) :=
  inferInstanceAs (Decidable (_ < _))

/-- The MPDUs received with the sequence number. -/
def of (t : Received) (seq : ℕ) : List WifiMacHeader := t.mpdus.filter (·.m_seqSeq = seq)

/-- An MPDU that is no fragment. -/
def Unfragmented (hdr : WifiMacHeader) : Prop := hdr.m_seqFrag = 0 ∧ hdr.m_ctrlMoreFrag = false

instance (hdr : WifiMacHeader) : Decidable (Unfragmented hdr) :=
  inferInstanceAs (Decidable (_ ∧ _))

/-- The window comes over the sequence number: it is one from `first` on, as far as the end of the
window that starts with `winStart`. -/
def Passes (t : Received) (winStart first seq : ℕ) : Prop :=
  distance 4096 first seq < distance 4096 first (after 4096 winStart t.winSize)

instance (t : Received) (winStart first seq : ℕ) : Decidable (t.Passes winStart first seq) :=
  inferInstanceAs (Decidable (_ < _))

/-- The MPDUs of the numbers that the moved window comes over are those of an earlier cycle, and
forgotten. -/
def moveTo (t : Received) (winStart first : ℕ) : Received where
  winStart := winStart
  winSize := t.winSize
  mpdus := t.mpdus.filter fun hdr => ¬ t.Passes winStart first hdr.m_seqSeq

/-- The number behind the window. -/
def winNext (t : Received) : ℕ := after 4096 t.winStart t.winSize

def add (t : Received) (hdr : WifiMacHeader) : Received := { t with mpdus := hdr :: t.mpdus }

/-- An MPDU beyond the window moves the window, to end with it; one behind it is ignored. -/
def receive (t : Received) (hdr : WifiMacHeader) : Received :=
  let ahead := distance 4096 t.winStart hdr.m_seqSeq
  if 2048 ≤ ahead then
    t
  else if ahead < t.winSize then
    t.add hdr
  else
    (t.moveTo (after 4096 t.winStart (ahead + 1 - t.winSize)) t.winNext).add hdr

/-- A request moves the window to its starting sequence number. Beyond the window, it comes over
none of the numbers in between. -/
def request (t : Received) (startingSeq : ℕ) : Received :=
  if 2048 ≤ distance 4096 t.winStart startingSeq then t
  else if t.Covers startingSeq then t.moveTo startingSeq t.winNext
  else t.moveTo startingSeq startingSeq

/-- A response that starts with `startingSeq` is to acknowledge the number: it has a bit for it,
the window covers it, and it was received unfragmented. -/
def Acknowledges (t : Received) (type : BlockAckType) (startingSeq seq : ℕ) : Prop :=
  distance 4096 startingSeq seq < CtrlBAckResponseHeader.bits type ∧ t.Covers seq ∧
    ∃ hdr ∈ t.of seq, Unfragmented hdr

instance (t : Received) (type : BlockAckType) (startingSeq seq : ℕ) :
    Decidable (t.Acknowledges type startingSeq seq) := inferInstanceAs (Decidable (_ ∧ _))

/-- The numbers have their bits, and a response is compressed and starts inside the window. -/
def Allowed (t : Received) : BlockAckCache.Call → Prop
  | .updateWithMpdu hdr => hdr.WellFormed
  | .updateWithBlockAckReq startingSeq => startingSeq < 4096
  | .getWinStart => True
  | .acknowledges type startingSeq seq =>
    type = .COMPRESSED_BLOCK_ACK ∧ startingSeq < 4096 ∧ seq < 4096 ∧ t.Covers startingSeq

instance (t : Received) (call : BlockAckCache.Call) : Decidable (t.Allowed call) := by
  cases call <;> unfold Allowed <;> infer_instance

end Received

/-- A recipient remembers the MPDUs of its window. -/
def received : Refinement.Spec Received BlockAckCache.Call BlockAckCache.Answer where
  Allowed := Received.Allowed
  next := fun t call =>
    match call with
    | .updateWithMpdu hdr => t.receive hdr
    | .updateWithBlockAckReq startingSeq => t.request startingSeq
    | .getWinStart | .acknowledges .. => t
  answer := fun t call =>
    match call with
    | .updateWithMpdu _ | .updateWithBlockAckReq _ => .done
    | .getWinStart => .winStart t.winStart
    | .acknowledges type startingSeq seq => .acknowledged (t.Acknowledges type startingSeq seq)

instance (t : Received) (call : BlockAckCache.Call) : Decidable (received.Allowed t call) :=
  inferInstanceAs (Decidable (t.Allowed call))

namespace Received

open CircularRange

/-- The calls after which a cache still is what it stands for. An MPDU beyond the window with
fragment number 0 comes with a number that had no later fragments when the window last covered it.
The MPDUs received with a number that a response tells of were either all unfragmented or, in
fragments, not only first ones; and where the window does not cover the number, since the response
starts behind the start of the window, they were not all of fragment number 0. -/
def Fits (t : Received) : BlockAckCache.Call → Prop
  | .updateWithMpdu hdr =>
    ¬ t.Covers hdr.m_seqSeq → distance 4096 t.winStart hdr.m_seqSeq < 2048 → hdr.m_seqFrag = 0 →
      ∀ other ∈ t.of hdr.m_seqSeq, other.m_seqFrag = 0
  | .updateWithBlockAckReq _ => True
  | .getWinStart => True
  | .acknowledges type startingSeq seq =>
    distance 4096 startingSeq seq < CtrlBAckResponseHeader.bits type →
    distance 4096 startingSeq seq < t.winSize →
      if t.Covers seq then
        ((∃ hdr ∈ t.of seq, Unfragmented hdr) → ∀ hdr ∈ t.of seq, hdr.m_seqFrag = 0) ∧
        (t.of seq ≠ [] → (∀ hdr ∈ t.of seq, hdr.m_seqFrag = 0) →
          ∃ hdr ∈ t.of seq, Unfragmented hdr)
      else
        t.of seq = [] ∨ ∃ hdr ∈ t.of seq, hdr.m_seqFrag ≠ 0

instance (t : Received) (call : BlockAckCache.Call) : Decidable (t.Fits call) := by
  cases call <;> unfold Fits <;> infer_instance

end Received
end Ns3Joined.Wifi
