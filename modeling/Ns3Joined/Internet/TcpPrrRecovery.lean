import Mathlib.Data.Rat.Floor
import Ns3Joined.Network.DynamicQueueLimits

/-!
# Proportional rate reduction

`TcpPrrRecovery` sets the congestion window while lost segments are retransmitted
(`tcp-prr-recovery.cc`). Its counters are words of 32 bits, and so are the product, the
differences and the sum it makes of them, with conversions to `int` in between; RFC 6937
means numbers.

* `EnterRecovery`, `DoRecovery`, `UpdateBytesSent`: the operations.
* `Prr`: the variables of the algorithm as numbers, and `Prr.sndcnt`.
* `WindowRight`: the window is what is in flight and `sndcnt`.
* `Fits`: nothing is out of the range of its type.
* `throughout_windowRight`: over any calls that fit.
-/

namespace Ns3Joined.Internet

open Ns3Joined.Network

inductive ReductionBound_t
  | CRB
  | SSRB
deriving DecidableEq, Repr

/-- The fields of `TcpSocketState` that are read and set. -/
structure TcpSocketState where
  m_cWnd : UInt32
  m_cWndInfl : UInt32
  m_ssThresh : UInt32
  m_segmentSize : UInt32
  m_bytesInFlight : UInt32
deriving DecidableEq, Repr

structure TcpPrrRecovery where
  m_prrDelivered : UInt32
  m_prrOut : UInt32
  m_recoveryFlightSize : UInt32
  m_previousSackedBytes : UInt32
  m_reductionBoundMode : ReductionBound_t
deriving DecidableEq, Repr

namespace TcpPrrRecovery

/-- The conversion to `int` of a double that is a whole number. -/
def toInt (count : ℤ) : Except Fault ℤ :=
  if -2 ^ 31 ≤ count ∧ count < 2 ^ 31 then .ok count else .error .undefined

/-- `lastDeliveredBytes`: the sum of a word and an `int` is a word, which is positive unless it
is zero. -/
def lastDeliveredBytes (s : TcpPrrRecovery) (lastAckedBytes lastSackedBytes : UInt32) : UInt32 :=
  let changeInSackedBytes := lastSackedBytes - s.m_previousSackedBytes
  if lastAckedBytes + changeInSackedBytes > 0 then lastAckedBytes + changeInSackedBytes else 0

/-- `sendCount`, with the counters up to date. The quotient is one of doubles; that of two words
does not round across a whole number. Divided by zero it is no number. -/
def sendCount (s : TcpPrrRecovery) (tcb : TcpSocketState) (lastDeliveredBytes : UInt32) :
    Except Fault ℤ := do
  let sendCount ←
    if tcb.m_bytesInFlight > tcb.m_ssThresh then
      if s.m_recoveryFlightSize = 0 then
        .error .undefined
      else
        toInt (⌈((s.m_prrDelivered * tcb.m_ssThresh).toNat : ℚ) / s.m_recoveryFlightSize.toNat⌉ -
          s.m_prrOut.toNat)
    else
      let limit :=
        match s.m_reductionBoundMode with
        | .CRB => (s.m_prrDelivered - s.m_prrOut).toInt32.toInt
        | .SSRB =>
          (max (s.m_prrDelivered - s.m_prrOut) lastDeliveredBytes +
            tcb.m_segmentSize).toInt32.toInt
      .ok (min limit (tcb.m_ssThresh - tcb.m_bytesInFlight).toInt32.toInt)
  -- force a fast retransmit upon entering fast recovery
  return max sendCount (if s.m_prrOut > 0 then 0 else tcb.m_segmentSize).toInt32.toInt

/-- The counters with what is delivered. -/
def deliver (s : TcpPrrRecovery) (lastSackedBytes lastDeliveredBytes : UInt32) :
    TcpPrrRecovery :=
  { s with
    m_previousSackedBytes := lastSackedBytes
    m_prrDelivered := s.m_prrDelivered + lastDeliveredBytes }

/-- The window that lets so much be sent. -/
def setWindow (tcb : TcpSocketState) (sendCount : ℤ) : TcpSocketState :=
  let cWnd := tcb.m_bytesInFlight + UInt32.ofInt sendCount
  { tcb with m_cWnd := cWnd, m_cWndInfl := cWnd }

/-- `TcpPrrRecovery::DoRecovery`. -/
def DoRecovery (s : TcpPrrRecovery) (tcb : TcpSocketState)
    (lastAckedBytes lastSackedBytes : UInt32) :
    Except Fault (TcpPrrRecovery × TcpSocketState) := do
  let lastDeliveredBytes := s.lastDeliveredBytes lastAckedBytes lastSackedBytes
  let s' := s.deliver lastSackedBytes lastDeliveredBytes
  let sendCount ← s'.sendCount tcb lastDeliveredBytes
  return (s', setWindow tcb sendCount)

/-- The counters at the start of an episode. -/
def entered (s : TcpPrrRecovery) (unAckDataCount lastSackedBytes : UInt32) : TcpPrrRecovery :=
  { s with
    m_prrOut := 0
    m_prrDelivered := 0
    m_recoveryFlightSize := unAckDataCount
    m_previousSackedBytes := lastSackedBytes }

/-- `TcpPrrRecovery::EnterRecovery`. -/
def EnterRecovery (s : TcpPrrRecovery) (tcb : TcpSocketState)
    (unAckDataCount lastSackedBytes : UInt32) : Except Fault (TcpPrrRecovery × TcpSocketState) :=
  (s.entered unAckDataCount lastSackedBytes).DoRecovery tcb 0 lastSackedBytes

/-- `TcpPrrRecovery::UpdateBytesSent`. -/
def UpdateBytesSent (s : TcpPrrRecovery) (bytesSent : UInt32) : TcpPrrRecovery :=
  { s with m_prrOut := s.m_prrOut + bytesSent }

/-- What the socket calls, with its state at that time. -/
inductive Call
  | enterRecovery (tcb : TcpSocketState) (unAckDataCount lastSackedBytes : UInt32)
  | doRecovery (tcb : TcpSocketState) (lastAckedBytes lastSackedBytes : UInt32)
  | updateBytesSent (bytesSent : UInt32)

/-- What happens: an episode starts, a window is set, bytes are sent. -/
inductive Event
  | start (unAckDataCount lastSackedBytes : UInt32)
  | window (tcb : TcpSocketState) (lastAckedBytes lastSackedBytes : UInt32)
    (tcb' : TcpSocketState)
  | sent (bytesSent : UInt32)
deriving DecidableEq

/-- One call, and what happens in it. -/
def step (s : TcpPrrRecovery) : Call → Except Fault (TcpPrrRecovery × List Event)
  | .enterRecovery tcb unAckDataCount lastSackedBytes =>
    (s.EnterRecovery tcb unAckDataCount lastSackedBytes).map fun r =>
      (r.1, [.start unAckDataCount lastSackedBytes, .window tcb 0 lastSackedBytes r.2])
  | .doRecovery tcb lastAckedBytes lastSackedBytes =>
    (s.DoRecovery tcb lastAckedBytes lastSackedBytes).map fun r =>
      (r.1, [.window tcb lastAckedBytes lastSackedBytes r.2])
  | .updateBytesSent bytesSent => .ok (s.UpdateBytesSent bytesSent, [.sent bytesSent])

/-! ### The algorithm -/

/-- The variables of RFC 6937, and how much was selectively acknowledged. -/
structure Prr where
  prr_delivered : ℤ
  prr_out : ℤ
  RecoverFS : ℤ
  sacked : ℤ

/-- `DeliveredData`: the change in what is acknowledged and in what is selectively so. -/
def Prr.DeliveredData (p : Prr) (acked sacked : UInt32) : ℤ :=
  max (acked.toNat + (sacked.toNat - p.sacked)) 0

/-- The variables with what is delivered. -/
def Prr.deliver (p : Prr) (sacked : UInt32) (delivered : ℤ) : Prr :=
  { p with prr_delivered := p.prr_delivered + delivered, sacked := sacked.toNat }

/-- The variables after one more event. -/
def Prr.account (p : Prr) : Event → Prr
  | .start unAckDataCount sacked => ⟨0, 0, unAckDataCount.toNat, sacked.toNat⟩
  | .window _ acked sacked _ => p.deliver sacked (p.DeliveredData acked sacked)
  | .sent bytesSent => { p with prr_out := p.prr_out + bytesSent.toNat }

/-- The variables after all that happened. -/
def prr (h : List Event) : Prr := h.foldl Prr.account ⟨0, 0, 0, 0⟩

/-- `sndcnt`, in numbers, and at least one segment as long as none was sent. -/
def Prr.sndcnt (p : Prr) (mode : ReductionBound_t) (tcb : TcpSocketState) (delivered : ℤ) : ℤ :=
  let pipe : ℤ := tcb.m_bytesInFlight.toNat
  let ssthresh : ℤ := tcb.m_ssThresh.toNat
  let MSS : ℤ := tcb.m_segmentSize.toNat
  let sndcnt :=
    if pipe > ssthresh then
      ⌈(p.prr_delivered * ssthresh : ℚ) / p.RecoverFS⌉ - p.prr_out
    else
      min (ssthresh - pipe)
        (match mode with
        | .CRB => p.prr_delivered - p.prr_out
        | .SSRB => max (p.prr_delivered - p.prr_out) delivered + MSS)
  max sndcnt (if p.prr_out > 0 then 0 else MSS)

/-- The window last set is what is in flight and `sndcnt`. -/
def WindowRight (s : TcpPrrRecovery) (h : List Event) : Prop :=
  ∀ h₀ tcb acked sacked tcb', h = h₀ ++ [.window tcb acked sacked tcb'] →
    (tcb'.m_cWnd.toNat : ℤ) = tcb.m_bytesInFlight.toNat +
        ((prr h₀).deliver sacked ((prr h₀).DeliveredData acked sacked)).sndcnt
          s.m_reductionBoundMode tcb ((prr h₀).DeliveredData acked sacked) ∧
      tcb'.m_cWndInfl = tcb'.m_cWnd

/-! ### What fits -/

/-- The counters as numbers. -/
def numbers (s : TcpPrrRecovery) : Prr where
  prr_delivered := s.m_prrDelivered.toNat
  prr_out := s.m_prrOut.toNat
  RecoverFS := s.m_recoveryFlightSize.toNat
  sacked := s.m_previousSackedBytes.toNat

/-- What `sendCount` computes is in range: the product is a word and the differences are `int`s,
SSRB takes no negative one, and the window is a word. -/
def Prr.SndcntFits (p : Prr) (mode : ReductionBound_t) (tcb : TcpSocketState) (delivered : ℤ) :
    Prop :=
  let pipe : ℤ := tcb.m_bytesInFlight.toNat
  let ssthresh : ℤ := tcb.m_ssThresh.toNat
  let MSS : ℤ := tcb.m_segmentSize.toNat
  let share := ⌈(p.prr_delivered * ssthresh : ℚ) / p.RecoverFS⌉ - p.prr_out
  (if pipe > ssthresh then
    p.prr_delivered * ssthresh < 2 ^ 32 ∧ -2 ^ 31 ≤ share ∧ share < 2 ^ 31 ∧
      pipe + share < 2 ^ 32
  else
    ssthresh - pipe < 2 ^ 31 ∧
      match mode with
      | .CRB => -2 ^ 31 ≤ p.prr_delivered - p.prr_out ∧ p.prr_delivered - p.prr_out < 2 ^ 31
      | .SSRB => p.prr_out ≤ p.prr_delivered ∧
          max (p.prr_delivered - p.prr_out) delivered + MSS < 2 ^ 31) ∧
  (p.prr_out = 0 → MSS < 2 ^ 31 ∧ pipe + MSS < 2 ^ 32)

/-- What is delivered is not negative, and the counter of it is a word. -/
def Prr.DeliveredFits (p : Prr) (acked sacked : UInt32) : Prop :=
  p.sacked ≤ acked.toNat + sacked.toNat ∧
    p.prr_delivered + (acked.toNat + sacked.toNat - p.sacked) < 2 ^ 32

/-- The calls that keep the window right, by the counters they find. -/
def Fits (s : TcpPrrRecovery) : Call → Prop
  | .enterRecovery tcb unAckDataCount sacked =>
    Prr.SndcntFits ⟨0, 0, unAckDataCount.toNat, sacked.toNat⟩ s.m_reductionBoundMode tcb 0
  | .doRecovery tcb acked sacked =>
    let delivered := acked.toNat + sacked.toNat - s.numbers.sacked
    s.numbers.DeliveredFits acked sacked ∧
      (s.numbers.deliver sacked delivered).SndcntFits s.m_reductionBoundMode tcb delivered
  | .updateBytesSent bytesSent => s.numbers.prr_out + bytesSent.toNat < 2 ^ 32

instance (p : Prr) (mode : ReductionBound_t) (tcb : TcpSocketState) (delivered : ℤ) :
    Decidable (p.SndcntFits mode tcb delivered) := by
  unfold Prr.SndcntFits
  cases mode <;> infer_instance

instance (s : TcpPrrRecovery) (call : Call) : Decidable (s.Fits call) :=
  match call with
  | .enterRecovery _ _ _ => inferInstanceAs (Decidable (Prr.SndcntFits _ _ _ _))
  | .doRecovery _ _ _ => inferInstanceAs (Decidable ((_ ≤ _ ∧ _ < _) ∧ Prr.SndcntFits _ _ _ _))
  | .updateBytesSent _ => inferInstanceAs (Decidable (_ < _))

variable {s s' : TcpPrrRecovery} {tcb tcb' : TcpSocketState} {acked sacked delivered : UInt32}
  {mode : ReductionBound_t}

/-- Where `max` is taken with a count that is not negative, so is the outcome. -/
theorem Prr.sndcnt_nonneg (p : Prr) (mode : ReductionBound_t) (tcb : TcpSocketState) (z : ℤ) :
    0 ≤ p.sndcnt mode tcb z := by
  unfold Prr.sndcnt
  refine le_max_of_le_right ?_
  split_ifs
  · exact le_rfl
  · exact Int.natCast_nonneg _

/-- A count that is taken at least as large as the forced retransmission. -/
theorem forced_eq (hseg : s.m_prrOut.toNat = 0 → tcb.m_segmentSize.toNat < 2 ^ 31) :
    (if s.m_prrOut > 0 then 0 else tcb.m_segmentSize).toInt32.toInt =
      if s.numbers.prr_out > 0 then 0 else (tcb.m_segmentSize.toNat : ℤ) := by
  have hout : s.m_prrOut > 0 ↔ s.numbers.prr_out > 0 := by
    rw [gt_iff_lt, UInt32.lt_iff_toNat_lt]
    exact Int.natCast_pos.symm
  by_cases h : s.m_prrOut > 0
  · rw [if_pos h, if_pos (hout.mp h)]
    rfl
  · rw [if_neg h, if_neg (mt hout.mpr h)]
    refine toInt_of_lt (hseg ?_)
    rw [gt_iff_lt, UInt32.lt_iff_toNat_lt] at h
    exact Nat.eq_zero_of_not_pos h

/-- The limit below the threshold. -/
theorem catchUp_eq (hle : ¬ tcb.m_bytesInFlight > tcb.m_ssThresh)
    (hlt : (tcb.m_ssThresh.toNat : ℤ) - tcb.m_bytesInFlight.toNat < 2 ^ 31) :
    (tcb.m_ssThresh - tcb.m_bytesInFlight).toInt32.toInt =
      tcb.m_ssThresh.toNat - tcb.m_bytesInFlight.toNat := by
  have hle' : tcb.m_bytesInFlight ≤ tcb.m_ssThresh := UInt32.not_lt.mp hle
  have hnat := UInt32.le_iff_toNat_le.mp hle'
  refine toInt_eq_of_emod (by omega) hlt ?_
  rw [UInt32.toNat_sub_of_le _ _ hle']
  have := tcb.m_ssThresh.toNat_lt
  omega

/-- The share of the threshold, in proportion to what is delivered, where the product is a word. -/
theorem share_eq (hproduct : s.numbers.prr_delivered * tcb.m_ssThresh.toNat < 2 ^ 32) :
    ⌈((s.m_prrDelivered * tcb.m_ssThresh).toNat : ℚ) / s.m_recoveryFlightSize.toNat⌉ -
        (s.m_prrOut.toNat : ℤ) =
      ⌈(s.numbers.prr_delivered * (tcb.m_ssThresh.toNat : ℤ) : ℚ) / s.numbers.RecoverFS⌉ -
        s.numbers.prr_out := by
  have hlt : (s.m_prrDelivered.toNat : ℤ) * tcb.m_ssThresh.toNat < 2 ^ 32 := hproduct
  have hmul : (s.m_prrDelivered * tcb.m_ssThresh).toNat =
      s.m_prrDelivered.toNat * tcb.m_ssThresh.toNat := by
    rw [UInt32.toNat_mul]
    refine Nat.mod_eq_of_lt ?_
    exact_mod_cast hlt
  rw [hmul]
  simp only [numbers, Nat.cast_mul, Int.cast_natCast]

/-- The limit of CRB: a difference that may be negative. -/
theorem limit_CRB_eq (hlow : -2 ^ 31 ≤ s.numbers.prr_delivered - s.numbers.prr_out)
    (hhigh : s.numbers.prr_delivered - s.numbers.prr_out < 2 ^ 31) :
    (s.m_prrDelivered - s.m_prrOut).toInt32.toInt =
      s.numbers.prr_delivered - s.numbers.prr_out := by
  refine toInt_eq_of_emod hlow hhigh ?_
  have hdelivered := s.m_prrDelivered.toNat_lt
  have hout := s.m_prrOut.toNat_lt
  rw [UInt32.toNat_sub]
  simp only [numbers]
  omega

/-- The limit of SSRB, which compares words: the difference must not be negative. -/
theorem limit_SSRB_eq (hle : s.numbers.prr_out ≤ s.numbers.prr_delivered)
    (hlt : max (s.numbers.prr_delivered - s.numbers.prr_out) delivered.toNat +
      tcb.m_segmentSize.toNat < 2 ^ 31) :
    (max (s.m_prrDelivered - s.m_prrOut) delivered + tcb.m_segmentSize).toInt32.toInt =
      max (s.numbers.prr_delivered - s.numbers.prr_out) delivered.toNat +
        tcb.m_segmentSize.toNat := by
  simp only [numbers] at hle hlt ⊢
  have hsub : (s.m_prrDelivered - s.m_prrOut).toNat =
      s.m_prrDelivered.toNat - s.m_prrOut.toNat :=
    UInt32.toNat_sub_of_le _ _ (UInt32.le_iff_toNat_le.mpr (by omega))
  refine toInt_eq_of_emod (by omega) hlt ?_
  rw [UInt32.toNat_add, UInt32.toNat_max, hsub]
  omega

/-- The forced retransmission keeps the window a word. -/
theorem window_lt {count : ℤ} (hcount : (tcb.m_bytesInFlight.toNat : ℤ) + count < 2 ^ 32)
    (hforced : s.numbers.prr_out = 0 →
      (tcb.m_bytesInFlight.toNat : ℤ) + tcb.m_segmentSize.toNat < 2 ^ 32) :
    tcb.m_bytesInFlight.toNat + max count
      (if s.numbers.prr_out > 0 then 0 else (tcb.m_segmentSize.toNat : ℤ)) < 2 ^ 32 := by
  have hflight := tcb.m_bytesInFlight.toNat_lt
  split_ifs with hout
  · omega
  · have hzero : s.numbers.prr_out = 0 :=
      le_antisymm (Int.not_lt.mp hout) (Int.natCast_nonneg _)
    have hseg := hforced hzero
    omega

/-- What is computed of counters that fit is `sndcnt`, and a window that is a word. -/
theorem sendCount_eq (hpos : 0 < s.m_recoveryFlightSize)
    (hfits : s.numbers.SndcntFits s.m_reductionBoundMode tcb delivered.toNat) :
    s.sendCount tcb delivered =
        .ok (s.numbers.sndcnt s.m_reductionBoundMode tcb delivered.toNat) ∧
      tcb.m_bytesInFlight.toNat +
        s.numbers.sndcnt s.m_reductionBoundMode tcb delivered.toNat < 2 ^ 32 := by
  obtain ⟨hcount, hforced⟩ := hfits
  have hforced' : s.m_prrOut.toNat = 0 → tcb.m_segmentSize.toNat < 2 ^ 31 := by
    intro hzero
    have hseg := (hforced (congrArg Int.ofNat hzero)).1
    exact_mod_cast hseg
  have hmost := fun hzero => (hforced hzero).2
  have hthresh := tcb.m_ssThresh.toNat_lt
  unfold sendCount Prr.sndcnt
  dsimp only
  by_cases hgt : tcb.m_bytesInFlight > tcb.m_ssThresh
  · -- proportional rate reduction
    have hgt' : (tcb.m_bytesInFlight.toNat : ℤ) > tcb.m_ssThresh.toNat := by
      exact_mod_cast UInt32.lt_iff_toNat_lt.mp hgt
    rw [if_pos hgt'] at hcount
    obtain ⟨hproduct, hlow, hhigh, hwindow⟩ := hcount
    have hne : ¬ s.m_recoveryFlightSize = 0 := by
      rintro hzero
      rw [hzero] at hpos
      exact absurd hpos (by decide)
    rw [if_pos hgt, if_neg hne, share_eq hproduct, toInt, if_pos ⟨hlow, hhigh⟩,
      forced_eq hforced', if_pos hgt']
    exact ⟨rfl, window_lt hwindow hmost⟩
  · -- back up to the threshold, within the limit
    have hgt' : ¬ (tcb.m_bytesInFlight.toNat : ℤ) > tcb.m_ssThresh.toNat := by
      intro h
      exact hgt (UInt32.lt_iff_toNat_lt.mpr (by exact_mod_cast h))
    rw [if_neg hgt'] at hcount
    obtain ⟨hcatch, hlimit⟩ := hcount
    rw [if_neg hgt, catchUp_eq hgt hcatch, forced_eq hforced', if_neg hgt']
    cases hmode : s.m_reductionBoundMode with
    | CRB =>
      rw [hmode] at hlimit
      dsimp only
      rw [limit_CRB_eq hlimit.1 hlimit.2, min_comm]
      exact ⟨rfl, window_lt (by omega) hmost⟩
    | SSRB =>
      rw [hmode] at hlimit
      dsimp only
      rw [limit_SSRB_eq hlimit.1 hlimit.2, min_comm]
      exact ⟨rfl, window_lt (by omega) hmost⟩

/-! ### Runs -/

/-- One more event enters the account last. -/
theorem prr_append (h : List Event) (event : Event) :
    prr (h ++ [event]) = (prr h).account event := by
  unfold prr
  rw [List.foldl_append, List.foldl_cons, List.foldl_nil]

/-- The counters are those of the algorithm, and there was something unacknowledged. -/
structure Kept (s : TcpPrrRecovery) (h : List Event) : Prop where
  windowRight : s.WindowRight h
  prr_eq : prr h = s.numbers
  pos : 0 < s.m_recoveryFlightSize

/-- What is delivered, where it fits. -/
theorem lastDeliveredBytes_eq (hfits : s.numbers.DeliveredFits acked sacked) :
    ((s.lastDeliveredBytes acked sacked).toNat : ℤ) =
      acked.toNat + sacked.toNat - s.numbers.sacked := by
  obtain ⟨hle, hlt⟩ := hfits
  have hnonneg : 0 ≤ s.numbers.prr_delivered := Int.natCast_nonneg _
  have hsum : ((acked + (sacked - s.m_previousSackedBytes)).toNat : ℤ) =
      acked.toNat + sacked.toNat - s.numbers.sacked := by
    have hprevious := s.m_previousSackedBytes.toNat_lt
    rw [UInt32.toNat_add, UInt32.toNat_sub]
    simp only [numbers] at hle hlt hnonneg ⊢
    omega
  unfold lastDeliveredBytes
  dsimp only
  -- a word is positive unless it is zero
  split_ifs with hpos
  · exact hsum
  · rw [gt_iff_lt, UInt32.lt_iff_toNat_lt] at hpos
    have hzero : (0 : UInt32).toNat = 0 := rfl
    omega

/-- Without wrap-around the data delivered is the plain sum. -/
theorem deliveredData_eq {p : Prr} (hfits : p.DeliveredFits acked sacked) :
    p.DeliveredData acked sacked = acked.toNat + sacked.toNat - p.sacked := by
  have hle := hfits.1
  unfold Prr.DeliveredData
  omega

/-- Without wrap-around the counter follows the plain one. -/
theorem numbers_deliver (hlt : s.numbers.prr_delivered + delivered.toNat < 2 ^ 32) :
    (s.deliver sacked delivered).numbers = s.numbers.deliver sacked delivered.toNat := by
  have hsum : ((s.m_prrDelivered + delivered).toNat : ℤ) =
      s.m_prrDelivered.toNat + delivered.toNat := by
    simp only [numbers] at hlt
    rw [UInt32.toNat_add]
    omega
  simp only [numbers, deliver, Prr.deliver, hsum]

/-- A window that fits is right, and the counters stay those of the algorithm. -/
theorem doRecovery_kept {h : List Event} (hprr : prr h = s.numbers)
    (hpos : 0 < s.m_recoveryFlightSize) (hdelivered : s.numbers.DeliveredFits acked sacked)
    (hfits : (s.numbers.deliver sacked (acked.toNat + sacked.toNat - s.numbers.sacked)).SndcntFits
      s.m_reductionBoundMode tcb (acked.toNat + sacked.toNat - s.numbers.sacked)) :
    ∃ s' tcb', s.DoRecovery tcb acked sacked = .ok (s', tcb') ∧
      Kept s' (h ++ [.window tcb acked sacked tcb']) := by
  have hlast := lastDeliveredBytes_eq hdelivered
  have hdata := deliveredData_eq hdelivered
  -- in numbers, what is delivered is the word `last`
  generalize hd : s.lastDeliveredBytes acked sacked = last at hlast
  rw [← hlast] at hfits hdata
  have hdeliver : (s.deliver sacked last).numbers = s.numbers.deliver sacked last.toNat := by
    refine numbers_deliver ?_
    rw [hlast]
    exact hdelivered.2
  rw [← hdeliver] at hfits
  obtain ⟨hcount, hwindow⟩ := sendCount_eq (s := s.deliver sacked last) hpos hfits
  have hnonneg := (s.deliver sacked last).numbers.sndcnt_nonneg
    (s.deliver sacked last).m_reductionBoundMode tcb last.toNat
  refine ⟨s.deliver sacked last, setWindow tcb ((s.deliver sacked last).numbers.sndcnt
    (s.deliver sacked last).m_reductionBoundMode tcb last.toNat), ?_, ?_, ?_, hpos⟩
  · unfold DoRecovery
    dsimp only
    rw [hd, hcount]
    rfl
  -- the window just set is the last one
  · intro h₀ tcb₀ acked₀ sacked₀ tcb₀' heq
    obtain ⟨rfl, hevent⟩ := List.append_inj' heq rfl
    cases hevent
    refine ⟨?_, rfl⟩
    rw [hprr, hdata, ← hdeliver]
    dsimp only [setWindow]
    rw [UInt32.toNat_add, Int.natCast_emod, Int.natCast_add, toNat_ofInt]
    omega
  · rw [prr_append, hprr, Prr.account, hdata, hdeliver]

/-- An episode starts with nothing delivered, whatever the counters were. -/
theorem enterRecovery_kept {unAck : UInt32} (h : List Event) (hpos : 0 < unAck)
    (hfits : s.Fits (.enterRecovery tcb unAck sacked)) :
    ∃ s' actions, s.step (.enterRecovery tcb unAck sacked) = .ok (s', actions) ∧
      Kept s' (h ++ actions) := by
  have hprr : prr (h ++ [.start unAck sacked]) = (s.entered unAck sacked).numbers :=
    prr_append h _
  have hzero : (0 : UInt32).toNat + sacked.toNat - (s.entered unAck sacked).numbers.sacked =
      (0 : ℤ) := by
    simp only [entered, numbers, UInt32.toNat_zero]
    omega
  have hdeliver : (s.entered unAck sacked).numbers.deliver sacked 0 =
      ⟨0, 0, unAck.toNat, sacked.toNat⟩ := rfl
  -- what was selectively acknowledged before is not delivered again
  have hdelivered : (s.entered unAck sacked).numbers.DeliveredFits 0 sacked := by
    refine ⟨by omega, ?_⟩
    rw [hzero]
    exact (by decide : (0 : ℤ) + 0 < 2 ^ 32)
  obtain ⟨s', tcb', hok, hk'⟩ := doRecovery_kept hprr hpos hdelivered
    (by rw [hzero, hdeliver]; exact hfits)
  refine ⟨s', [.start unAck sacked, .window tcb 0 sacked tcb'], ?_, ?_⟩
  · rw [step, EnterRecovery, hok]
    rfl
  · rw [List.append_assoc] at hk'
    exact hk'

/-- An episode starts when there is data that is not acknowledged. -/
def Allowed : Call → Prop
  | .enterRecovery _ unAckDataCount _ => 0 < unAckDataCount
  | _ => True

instance (call : Call) : Decidable (Allowed call) :=
  match call with
  | .enterRecovery _ unAckDataCount _ => inferInstanceAs (Decidable (0 < unAckDataCount))
  | .doRecovery _ _ _ | .updateBytesSent _ => inferInstanceAs (Decidable True)

/-- A call that fits keeps the algorithm's numbers. -/
theorem Kept.step {h : List Event} (hk : Kept s h) {call : Call} (hallowed : Allowed call)
    (hfits : s.Fits call) :
    ∃ s' actions, s.step call = .ok (s', actions) ∧ Kept s' (h ++ actions) := by
  cases call with
  | enterRecovery tcb unAck sacked => exact enterRecovery_kept h hallowed hfits
  | doRecovery tcb acked sacked =>
    obtain ⟨s', tcb', hok, hk'⟩ := doRecovery_kept hk.prr_eq hk.pos hfits.1 hfits.2
    refine ⟨s', [.window tcb acked sacked tcb'], ?_, hk'⟩
    rw [TcpPrrRecovery.step, hok]
    rfl
  | updateBytesSent bytesSent =>
    refine ⟨_, _, rfl, ?_, ?_, hk.pos⟩
    -- bytes that are sent set no window
    · intro h₀ tcb acked sacked tcb' heq
      cases (List.append_inj' heq rfl).2
    · have hsum : ((s.m_prrOut + bytesSent).toNat : ℤ) = s.m_prrOut.toNat + bytesSent.toNat := by
        have hlt : (s.m_prrOut.toNat : ℤ) + bytesSent.toNat < 2 ^ 32 := hfits
        rw [UInt32.toNat_add]
        omega
      rw [prr_append, hk.prr_eq]
      simp only [Prr.account, UpdateBytesSent, numbers, hsum]

/-- From the start of an episode on, whatever the counters were before, the window is what is in
flight and `sndcnt`, as long as nothing is out of range. -/
theorem throughout_windowRight (memory : TcpPrrRecovery) (tcb : TcpSocketState)
    (unAck sacked : UInt32) (calls : List Call)
    (hmeets : TracedRun.Meets step (fun s _ call => Allowed call ∧ s.Fits call) memory []
      (.enterRecovery tcb unAck sacked :: calls)) :
    TracedRun.Throughout step WindowRight memory [] (.enterRecovery tcb unAck sacked :: calls) := by
  obtain ⟨⟨hallowed, hfits⟩, hrest⟩ := hmeets
  obtain ⟨s', actions, hok, hk⟩ := enterRecovery_kept [] hallowed hfits
  exact ⟨s', actions, hok, hk.windowRight, TracedRun.throughout_of_meets
    (fun s h call hs hcall => hs.step hcall.1 hcall.2) (fun s h hs => hs.windowRight) hk
    (hrest s' actions hok)⟩

/-- Counters as they are created. -/
def create : TcpPrrRecovery := ⟨0, 0, 0, 0, .SSRB⟩

/-- A socket with segments of 500 bytes, a threshold of 50000 and 60000 in flight. -/
def socket : TcpSocketState := ⟨0, 0, 50000, 500, 60000⟩

/-- A segment is sent and a thousand bytes are selectively acknowledged. -/
theorem throughout_windowRight_thousand :
    TracedRun.Throughout step WindowRight create []
      [.enterRecovery socket 150000 0, .updateBytesSent 500, .doRecovery socket 0 1000] :=
  throughout_windowRight create socket 150000 0 [.updateBytesSent 500, .doRecovery socket 0 1000]
    (by decide +kernel)

/-- After ninety thousand bytes the product of the counter and the threshold does not fit: 867
bytes may be sent and not 29500. -/
theorem not_throughout_windowRight :
    TracedRun.Meets step (fun _ _ call => Allowed call) create []
      [.enterRecovery socket 150000 0, .updateBytesSent 500, .doRecovery socket 0 90000] ∧
    ¬ TracedRun.Throughout step WindowRight create []
      [.enterRecovery socket 150000 0, .updateBytesSent 500, .doRecovery socket 0 90000] := by
  refine ⟨by decide +kernel, fun hthroughout => ?_⟩
  obtain ⟨s', actions, hrun, hright⟩ := hthroughout.exists_run (List.cons_ne_nil _ _)
  have hrun' : TracedRun.run step create
      [.enterRecovery socket 150000 0, .updateBytesSent 500, .doRecovery socket 0 90000] =
      .ok (⟨90000, 500, 150000, 90000, .SSRB⟩,
        [.start 150000 0, .window socket 0 0 ⟨60500, 60500, 50000, 500, 60000⟩, .sent 500,
          .window socket 0 90000 ⟨60867, 60867, 50000, 500, 60000⟩]) := by decide +kernel
  obtain ⟨rfl, rfl⟩ := Prod.mk.inj (Except.ok.inj (hrun.symm.trans hrun'))
  have hwindow := (hright [.start 150000 0, .window socket 0 0 ⟨60500, 60500, 50000, 500, 60000⟩,
    .sent 500] socket 0 90000 _ rfl).1
  exact absurd hwindow (by decide +kernel)

end TcpPrrRecovery
end Ns3Joined.Internet
