import Ns3Joined.Fault
import Ns3Joined.Library.CircularRange
import Ns3Joined.Library.Refinement
import Ns3Joined.Wifi.WifiMacHeader

/-!
# The transmit window of an originator

`BlockAckWindow` (`block-ack-window.cc`), a bitmap managed as a circular queue, and what
`OriginatorBlockAckAgreement` (`originator-block-ack-agreement.cc`) does with it when an MPDU
is transmitted, acknowledged or discarded.

* `BlockAckWindow`: `Init`, `Reset`, `At`, `Advance`.
* `OriginatorBlockAckAgreement`: `AdvanceTxWindow` and the three notifications; `Establish` is
  what `BlockAckManager::UpdateAgreement` does with an agreement.
* `Acked`, `acked`: what the window is for, with sequence numbers that do not wrap.
* `Moves`: how the window may move.
-/

namespace Ns3Joined.Wifi

/-- A `BlockAckWindow`. -/
structure BlockAckWindow where
  m_winStart : ℕ
  m_window : List Bool
  m_head : ℕ
deriving DecidableEq

namespace BlockAckWindow

def Init (winStart winSize : ℕ) : BlockAckWindow where
  m_winStart := winStart
  m_window := List.replicate winSize false
  m_head := 0

def Reset (w : BlockAckWindow) (winStart : ℕ) : BlockAckWindow := Init winStart w.m_window.length

def GetWinSize (w : BlockAckWindow) : ℕ := w.m_window.length

/-- The index of the element that `At` refers to. -/
def index (w : BlockAckWindow) (distance : ℕ) : Except Fault ℕ :=
  if distance < w.m_window.length then
    let i := (w.m_head + distance) % w.m_window.length
    if i < w.m_window.length then .ok i else .error .outOfRange
  else
    .error .abort

/-- `At`, to read. -/
def At (w : BlockAckWindow) (distance : ℕ) : Except Fault Bool := do
  let i ← w.index distance
  .ok (w.m_window.getD i false)

/-- `At (distance) = true`. -/
def setAt (w : BlockAckWindow) (distance : ℕ) : Except Fault BlockAckWindow := do
  let i ← w.index distance
  .ok { w with m_window := w.m_window.set i true }

/-- The body of the loop of `Advance`. -/
def advanceHead (w : BlockAckWindow) : BlockAckWindow :=
  { w with
    m_window := w.m_window.set w.m_head false
    m_head := (w.m_head + 1) % w.m_window.length }

def Advance (w : BlockAckWindow) (count : ℕ) : BlockAckWindow :=
  if count ≥ w.m_window.length then
    w.Reset ((w.m_winStart + count) % SEQNO_SPACE_SIZE)
  else
    { advanceHead^[count] w with m_winStart := (w.m_winStart + count) % SEQNO_SPACE_SIZE }

end BlockAckWindow

/-- An `OriginatorBlockAckAgreement`. -/
structure OriginatorBlockAckAgreement where
  m_bufferSize : ℕ
  m_startingSeq : ℕ
  m_txWindow : BlockAckWindow
deriving DecidableEq

namespace OriginatorBlockAckAgreement

/-- `BlockAckAgreement::SetBufferSize`. -/
def SetBufferSize (a : OriginatorBlockAckAgreement) (bufferSize : ℕ) :
    Except Fault OriginatorBlockAckAgreement :=
  if bufferSize ≤ 256 ∧ bufferSize % 16 = 0 then .ok { a with m_bufferSize := bufferSize }
  else .error .abort

/-- `BlockAckAgreement::SetStartingSequence`. -/
def SetStartingSequence (a : OriginatorBlockAckAgreement) (seq : ℕ) :
    Except Fault OriginatorBlockAckAgreement :=
  if seq < 4096 then .ok { a with m_startingSeq := seq } else .error .abort

def GetStartingSequence (a : OriginatorBlockAckAgreement) : ℕ :=
  if a.m_txWindow.GetWinSize = 0 then a.m_startingSeq else a.m_txWindow.m_winStart

def GetDistance (a : OriginatorBlockAckAgreement) (seqNumber : ℕ) : ℕ :=
  (seqNumber + SEQNO_SPACE_SIZE - a.GetStartingSequence) % SEQNO_SPACE_SIZE

def InitTxWindow (a : OriginatorBlockAckAgreement) : OriginatorBlockAckAgreement :=
  { a with m_txWindow := .Init a.m_startingSeq a.m_bufferSize }

/-- The steps of `BlockAckManager::UpdateAgreement` that establish the window: the buffer size
of the response is one less than the agreement's. -/
def Establish (a : OriginatorBlockAckAgreement) (respBufferSize nextSeqNumber : ℕ) :
    Except Fault OriginatorBlockAckAgreement := do
  let a ← a.SetBufferSize (respBufferSize + 1)
  let a ← a.SetStartingSequence nextSeqNumber
  .ok a.InitTxWindow

/-- `while (m_txWindow.At (0)) m_txWindow.Advance (1);`, for that many rounds. -/
def advanceWhile : ℕ → BlockAckWindow → Except Fault BlockAckWindow
  | 0, _ => .error .diverges
  | rounds + 1, w => do
    if ← w.At 0 then advanceWhile rounds (w.Advance 1) else .ok w

/-- `AdvanceTxWindow`: a round clears an element, so that more rounds than elements are none
but those of a loop that does not end. -/
def AdvanceTxWindow (a : OriginatorBlockAckAgreement) :
    Except Fault OriginatorBlockAckAgreement := do
  let w ← advanceWhile (a.m_txWindow.GetWinSize + 1) a.m_txWindow
  .ok { a with m_txWindow := w }

def NotifyTransmittedMpdu (a : OriginatorBlockAckAgreement) (mpduSeqNumber : ℕ) :
    Except Fault OriginatorBlockAckAgreement :=
  let distance := a.GetDistance mpduSeqNumber
  if distance ≥ SEQNO_SPACE_HALF_SIZE then
    .ok a
  else if distance ≥ a.m_txWindow.GetWinSize then
    let count := distance - a.m_txWindow.GetWinSize + 1
    { a with m_txWindow := a.m_txWindow.Advance count }.AdvanceTxWindow
  else
    .ok a

def NotifyAckedMpdu (a : OriginatorBlockAckAgreement) (mpduSeqNumber : ℕ) :
    Except Fault OriginatorBlockAckAgreement :=
  let distance := a.GetDistance mpduSeqNumber
  if distance ≥ SEQNO_SPACE_HALF_SIZE then
    .ok a
  else do
    let w ← a.m_txWindow.setAt distance
    { a with m_txWindow := w }.AdvanceTxWindow

def NotifyDiscardedMpdu (a : OriginatorBlockAckAgreement) (mpduSeqNumber : ℕ) :
    Except Fault OriginatorBlockAckAgreement :=
  let distance := a.GetDistance mpduSeqNumber
  if distance ≥ SEQNO_SPACE_HALF_SIZE then
    .ok a
  else
    { a with m_txWindow := a.m_txWindow.Advance (distance + 1) }.AdvanceTxWindow

/-- The notifications, each of an MPDU with its sequence number. -/
inductive Call
  | transmitted (seq : ℕ)
  | acked (seq : ℕ)
  | discarded (seq : ℕ)
deriving DecidableEq

/-- One notification. -/
def step (a : OriginatorBlockAckAgreement) :
    Call → Except Fault (OriginatorBlockAckAgreement × Unit)
  | .transmitted seq => do .ok (← a.NotifyTransmittedMpdu seq, ())
  | .acked seq => do .ok (← a.NotifyAckedMpdu seq, ())
  | .discarded seq => do .ok (← a.NotifyDiscardedMpdu seq, ())

end OriginatorBlockAckAgreement

/-! ### What a transmit window is -/

open OriginatorBlockAckAgreement (Call)

/-- A window over sequence numbers that do not wrap (the one for `seq` and those for
`seq + 4096`, `seq + 8192` and so on are different), and the numbers that were acknowledged. -/
structure Acked where
  start : ℕ
  size : ℕ
  acked : List ℕ

namespace Acked

/-- The number is inside the window. -/
def Covers (t : Acked) (n : ℕ) : Prop := t.start ≤ n ∧ n < t.start + t.size

instance (t : Acked) (n : ℕ) : Decidable (t.Covers n) := inferInstanceAs (Decidable (_ ∧ _))

/-- How far an MPDU is ahead of the start. -/
def ahead (t : Acked) (seq : ℕ) : ℕ :=
  CircularRange.distance SEQNO_SPACE_SIZE (t.start % SEQNO_SPACE_SIZE) seq

/-- The number that an MPDU less than 4096 ahead stands for. -/
def unwrap (t : Acked) (seq : ℕ) : ℕ := t.start + t.ahead seq

/-- How many numbers from `start` on, `rounds` at most, are acknowledged. -/
def leading (acked : List ℕ) : ℕ → ℕ → ℕ
  | _, 0 => 0
  | start, rounds + 1 => if start ∈ acked then leading acked (start + 1) rounds + 1 else 0

/-- The window that starts at the first number from `start` on that is not acknowledged. -/
def moveTo (t : Acked) (start : ℕ) : Acked :=
  { t with start := start + leading t.acked start t.size }

/-- A transmitted MPDU beyond the window becomes its last; an acknowledged MPDU is recorded; the
window moves past a discarded MPDU. An MPDU at least half the numbers ahead is an old one. -/
def next (t : Acked) : Call → Acked
  | .transmitted seq =>
    if t.size ≤ t.ahead seq ∧ t.ahead seq < SEQNO_SPACE_HALF_SIZE then
      t.moveTo (t.unwrap seq + 1 - t.size)
    else
      t
  | .acked seq =>
    if t.ahead seq < SEQNO_SPACE_HALF_SIZE then
      { t with acked := t.unwrap seq :: t.acked }.moveTo t.start
    else
      t
  | .discarded seq =>
    if t.ahead seq < SEQNO_SPACE_HALF_SIZE then t.moveTo (t.unwrap seq + 1) else t

/-- Sequence numbers have 12 bits, and acknowledged MPDUs are in the window, or old. -/
def Allowed (t : Acked) : Call → Prop
  | .transmitted seq => seq < SEQNO_SPACE_SIZE
  | .acked seq => seq < SEQNO_SPACE_SIZE ∧
    (t.ahead seq < t.size ∨ SEQNO_SPACE_HALF_SIZE ≤ t.ahead seq)
  | .discarded seq => seq < SEQNO_SPACE_SIZE

instance (t : Acked) (call : Call) : Decidable (t.Allowed call) := by
  cases call <;> unfold Allowed <;> infer_instance

/-! ### How a window may move -/

/-- Why a number of the window may be passed: it is acknowledged, it is discarded, or it does
not fit into a window that ends with a transmitted MPDU. -/
def Released (t : Acked) (call : Call) (n : ℕ) : Prop :=
  n ∈ (t.next call).acked ∨
    (∃ seq, call = .discarded seq ∧ n = t.unwrap seq) ∨
    ∃ seq, call = .transmitted seq ∧ t.ahead seq < SEQNO_SPACE_HALF_SIZE ∧
      n + t.size ≤ t.unwrap seq

/-- A further reason: it comes before a discarded MPDU. -/
def Overtaken (t : Acked) (call : Call) (n : ℕ) : Prop :=
  ∃ seq, call = .discarded seq ∧ t.ahead seq < SEQNO_SPACE_HALF_SIZE ∧ n < t.unwrap seq

/-- The window moves forward by `limit` at most, and passes no number but for a reason. -/
def Moves (t : Acked) (call : Call) (limit : ℕ) (MayPass : ℕ → Prop) : Prop :=
  t.start ≤ (t.next call).start ∧ (t.next call).start ≤ t.start + limit ∧
    ∀ n, t.Covers n → n < (t.next call).start → MayPass n

end Acked

/-- A transmit window records what was acknowledged. -/
def acked : Refinement.Spec Acked Call Unit where
  Allowed := Acked.Allowed
  next := Acked.next
  answer := fun _ _ => ()

instance (t : Acked) (call : Call) : Decidable (acked.Allowed t call) :=
  inferInstanceAs (Decidable (t.Allowed call))

namespace OriginatorBlockAckAgreement

/-- The circular window has exactly the acknowledged numbers of the window marked, and not the
first one. -/
structure Represents (a : OriginatorBlockAckAgreement) (t : Acked) : Prop where
  start : a.m_txWindow.m_winStart = t.start % SEQNO_SPACE_SIZE
  size : a.m_txWindow.GetWinSize = t.size
  at_eq : ∀ k < t.size, a.m_txWindow.At k = .ok (decide (t.start + k ∈ t.acked))
  first : a.m_txWindow.At 0 = .ok false

/-- A notification returns, the window then is right again, and it has moved as `Moves` says. -/
def Keeps (limit : Acked → Call → ℕ) (MayPass : Acked → Call → ℕ → Prop)
    (a : OriginatorBlockAckAgreement) (t : Acked) (call : Call) : Prop :=
  (∃ a', step a call = .ok (a', ()) ∧ Represents a' (t.next call)) ∧
    t.Moves call (limit t call) (MayPass t call)

/-- The window moves by less than half the numbers, but for a discarded MPDU that is as far
ahead as it can be. -/
def limit (t : Acked) : Call → ℕ
  | .discarded seq =>
    if t.ahead seq = SEQNO_SPACE_HALF_SIZE - 1 then SEQNO_SPACE_HALF_SIZE
    else SEQNO_SPACE_HALF_SIZE - 1
  | .transmitted _ | .acked _ => SEQNO_SPACE_HALF_SIZE - 1

end OriginatorBlockAckAgreement
end Ns3Joined.Wifi
