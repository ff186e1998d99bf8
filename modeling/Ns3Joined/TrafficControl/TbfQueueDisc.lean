import Mathlib.Data.Nat.Cast.Field
import Mathlib.Data.Nat.Cast.Order.Field
import Mathlib.Data.Rat.Floor
import Ns3Joined.Fault
import Ns3Joined.Library.TokenBucket
import Ns3Joined.Library.TracedRun

/-!
# The token bucket filter

`TbfQueueDisc` lets a packet go when both of its buckets hold as many tokens as the packet has
bytes. The first bucket fills at `Rate`, the second at `PeakRate`, and a null peak rate means that
there is no second bucket. A packet that has to wait blocks the queue, and a wake-up is scheduled
unless one is pending.

Times and tokens are exact here, where the source rounds them; the rates in bytes, which the source
takes by a division of integers, are as there. A count of bytes is unsigned, so a negative one comes
out as what is missing to `2 ^ 32`.

* `DoDequeue`: the packet at the head goes, or waits.
* `step`: the calls, and the time that passes between them.
* `WakesInTime`: what a wake-up has to be.
-/

namespace Ns3Joined.TrafficControl

/-- The attributes. The time of no bytes at no rate is not a number, and to convert that to a `Time`
has no meaning: `secondsOfNaN` is what comes of it, if anything does. -/
structure TbfConfig where
  m_burst : UInt32
  m_mtu : UInt32
  m_rate : UInt64
  m_peakRate : UInt64
  secondsOfNaN : Option ℚ
deriving DecidableEq

/-- The queue disc: the sizes of the packets in its child queue disc, the tokens that were left at
the time of the checkpoint, and the time of the wake-up if one is pending. -/
structure TbfQueueDisc where
  queue : List UInt32
  m_btokens : ℚ
  m_ptokens : ℚ
  m_timeCheckPoint : ℚ
  m_id : Option ℚ
  now : ℚ
deriving DecidableEq

/-- What became of a packet: it was dequeued, or it was held, with what the queue disc then was. -/
inductive TbfAction
  | sent (size : UInt32)
  | blocked (s : TbfQueueDisc)
deriving DecidableEq

/-- What is called, and what happens: the child takes a packet or drops it, time passes, and the
pending wake-up is due. -/
inductive TbfCall
  | enqueue (size : UInt32) (accepted : Bool)
  | dequeue
  | advance (time : ℚ)
  | wakeUp

/-- A number of bytes as an `uint32_t`, a fraction being kept. -/
def toUInt32 (bytes : ℚ) : ℚ := bytes - 2 ^ 32 * ⌊bytes / 2 ^ 32⌋

/-- `DataRate::CalculateBytesTxTime`. -/
def CalculateBytesTxTime (c : TbfConfig) (m_bps : UInt64) (bytes : ℚ) : Except Fault ℚ :=
  if m_bps = 0 then
    if bytes = 0 then c.secondsOfNaN.elim (.error .undefined) .ok else .error .undefined
  else .ok (bytes * 8 / m_bps.toNat)

namespace TbfQueueDisc

/-- `InitializeParams`: the buckets are full. -/
def InitializeParams (c : TbfConfig) (now : ℚ) : TbfQueueDisc where
  queue := []
  m_btokens := c.m_burst.toNat
  m_ptokens := c.m_mtu.toNat
  m_timeCheckPoint := 0
  m_id := none
  now := now

/-- What the tokens of a bucket have become, but no more than it can hold. -/
def refill (s : TbfQueueDisc) (tokens : ℚ) (rate : UInt64) (capacity : UInt32) : ℚ :=
  let delta := s.now - s.m_timeCheckPoint
  let toks := tokens + delta * (rate / 8).toNat
  if toks > capacity.toNat then capacity.toNat else toks

/-- What the packet would leave in the first bucket. -/
def btoks (c : TbfConfig) (s : TbfQueueDisc) (pktSize : UInt32) : ℚ :=
  s.refill s.m_btokens c.m_rate c.m_burst - pktSize.toNat

/-- What the packet would leave in the second bucket. -/
def ptoks (c : TbfConfig) (s : TbfQueueDisc) (pktSize : UInt32) : ℚ :=
  if c.m_peakRate > 0 then s.refill s.m_ptokens c.m_peakRate c.m_mtu - pktSize.toNat else 0

/-- How long the packet has to wait. -/
def requiredDelayTime (c : TbfConfig) (s : TbfQueueDisc) (pktSize : UInt32) : Except Fault ℚ := do
  let rateTime ← CalculateBytesTxTime c c.m_rate (toUInt32 (-s.btoks c pktSize))
  let peakTime ← CalculateBytesTxTime c c.m_peakRate (toUInt32 (-s.ptoks c pktSize))
  return max rateTime peakTime

def DoDequeue (c : TbfConfig) (s : TbfQueueDisc) : Except Fault (TbfQueueDisc × List TbfAction) :=
  match s.queue with
  | [] => .ok (s, [])
  | pktSize :: rest =>
    if 0 ≤ s.btoks c pktSize ∧ 0 ≤ s.ptoks c pktSize then
      .ok ({ s with
        queue := rest
        m_timeCheckPoint := s.now
        m_btokens := s.btoks c pktSize
        m_ptokens := s.ptoks c pktSize }, [.sent pktSize])
    else if s.m_id.isSome then .ok (s, [.blocked s])
    else do
      let requiredDelayTime ← s.requiredDelayTime c pktSize
      let s' := { s with m_id := some (s.now + requiredDelayTime) }
      return (s', [.blocked s'])

/-- One call. At the wake-up `QueueDisc::Run` runs, which dequeues as often as it likes: the event
itself has expired by then. -/
def step (c : TbfConfig) (s : TbfQueueDisc) :
    TbfCall → Except Fault (TbfQueueDisc × List TbfAction)
  | .enqueue size accepted =>
    .ok (if accepted then { s with queue := s.queue ++ [size] } else s, [])
  | .dequeue => s.DoDequeue c
  | .advance time => .ok ({ s with now := time }, [])
  | .wakeUp => .ok ({ s with m_id := none }, [])

/-! ### What a wake-up has to be -/

/-- The first bucket. -/
def firstBucket (c : TbfConfig) (s : TbfQueueDisc) : TokenBucket ℚ :=
  ⟨(c.m_rate / 8).toNat, c.m_burst.toNat, s.m_btokens, s.m_timeCheckPoint⟩

/-- The second bucket. -/
def secondBucket (c : TbfConfig) (s : TbfQueueDisc) : TokenBucket ℚ :=
  ⟨(c.m_peakRate / 8).toNat, c.m_mtu.toNat, s.m_ptokens, s.m_timeCheckPoint⟩

/-- Both buckets hold enough tokens for a packet. -/
def Allows (c : TbfConfig) (s : TbfQueueDisc) (pktSize : UInt32) (time : ℚ) : Prop :=
  (s.firstBucket c).Holds pktSize.toNat time ∧
    (c.m_peakRate > 0 → (s.secondBucket c).Holds pktSize.toNat time)

/-- A wake-up is pending, at the earliest time at which both buckets hold enough tokens for the
packet at the head. -/
def WakesInTime (c : TbfConfig) (s : TbfQueueDisc) : Prop :=
  ∃ pktSize wakeUp, s.queue.head? = some pktSize ∧ s.m_id = some wakeUp ∧
    IsLeast {time | s.now ≤ time ∧ s.Allows c pktSize time} wakeUp

/-- The packet at the head goes at the pending wake-up, if nothing happens before. -/
def GoesWhenWoken (c : TbfConfig) (s : TbfQueueDisc) : Prop :=
  ∀ wakeUp, s.m_id = some wakeUp → ∃ s' pktSize, s.queue.head? = some pktSize ∧
    TracedRun.run (step c) s [.advance wakeUp, .wakeUp, .dequeue] = .ok (s', [.sent pktSize])

/-- Whenever a packet was held, a wake-up was pending at the right time, so that the packet is not
delayed any longer. -/
def InTime (c : TbfConfig) (h : List TbfAction) : Prop :=
  ∀ s, .blocked s ∈ h → s.WakesInTime c ∧ s.GoesWhenWoken c

/-- No larger than the burst, and than the mtu when a peak rate is set. -/
def Fits (c : TbfConfig) (pktSize : UInt32) : Prop :=
  pktSize ≤ c.m_burst ∧ (c.m_peakRate > 0 → pktSize ≤ c.m_mtu)

instance (c : TbfConfig) (pktSize : UInt32) : Decidable (Fits c pktSize) :=
  inferInstanceAs (Decidable (_ ∧ _))

/-- What can happen: packets that fit come, and a pending wake-up is not passed over. -/
def Possible (c : TbfConfig) (s : TbfQueueDisc) : TbfCall → Prop
  | .enqueue size _ => Fits c size
  | .dequeue => True
  | .advance time => s.now ≤ time ∧ ∀ wakeUp ∈ s.m_id, time ≤ wakeUp
  | .wakeUp => s.m_id = some s.now

/-- With a second bucket: a bucket that lacks tokens fills, and the one that takes longer does so by
whole bytes; and what a bucket has in surplus, as an unsigned count, does not take longer still. -/
structure TwoDelays (c : TbfConfig) (s : TbfQueueDisc) (pktSize : UInt32) : Prop where
  fills : ¬ (s.firstBucket c).Holds pktSize.toNat s.now → 8 ≤ c.m_rate.toNat
  fills_peak : ¬ (s.secondBucket c).Holds pktSize.toNat s.now → 8 ≤ c.m_peakRate.toNat
  whole :
    8 ∣ c.m_rate.toNat ∧
      (s.secondBucket c).wait pktSize.toNat s.now ≤ (s.firstBucket c).wait pktSize.toNat s.now ∨
    8 ∣ c.m_peakRate.toNat ∧
      (s.firstBucket c).wait pktSize.toNat s.now ≤ (s.secondBucket c).wait pktSize.toNat s.now
  surplus : (s.firstBucket c).Holds pktSize.toNat s.now →
    toUInt32 (pktSize.toNat - (s.firstBucket c).level s.now) * 8 / c.m_rate.toNat ≤
      (s.secondBucket c).wait pktSize.toNat s.now
  surplus_peak : (s.secondBucket c).Holds pktSize.toNat s.now →
    toUInt32 (pktSize.toNat - (s.secondBucket c).level s.now) * 8 / c.m_peakRate.toNat ≤
      (s.firstBucket c).wait pktSize.toNat s.now

/-- Without a second bucket: the first fills by whole bytes, and the time that is not a number comes
out as one that is not longer. -/
structure OneDelay (c : TbfConfig) (s : TbfQueueDisc) (pktSize : UInt32) : Prop where
  whole : 8 ∣ c.m_rate.toNat
  nan : ∃ time ∈ c.secondsOfNaN, time ≤ (s.firstBucket c).wait pktSize.toNat s.now

/-- The calls by which a wake-up comes to be in time: a packet is not asked for in the very instant
in which a wake-up is due and before it runs, if it then has to wait; and when a wake-up is to be
scheduled, both delays are right. -/
def Sound (c : TbfConfig) (s : TbfQueueDisc) : TbfCall → Prop
  | .dequeue => ∀ pktSize ∈ s.queue.head?, ¬ s.Allows c pktSize s.now →
      (∀ wakeUp ∈ s.m_id, s.now < wakeUp) ∧
      (s.m_id = none → (c.m_peakRate > 0 → s.TwoDelays c pktSize) ∧
        (c.m_peakRate = 0 → s.OneDelay c pktSize))
  | _ => True

instance (c : TbfConfig) (s : TbfQueueDisc) (pktSize : UInt32) (time : ℚ) :
    Decidable (s.Allows c pktSize time) :=
  inferInstanceAs (Decidable (_ ∧ (_ → _)))

instance (c : TbfConfig) (s : TbfQueueDisc) (call : TbfCall) : Decidable (s.Possible c call) :=
  match call with
  | .enqueue size _ => inferInstanceAs (Decidable (Fits c size))
  | .dequeue => inferInstanceAs (Decidable True)
  | .advance time => inferInstanceAs (Decidable (s.now ≤ time ∧ ∀ wakeUp ∈ s.m_id, time ≤ wakeUp))
  | .wakeUp => inferInstanceAs (Decidable (s.m_id = some s.now))

instance (c : TbfConfig) (s : TbfQueueDisc) (pktSize : UInt32) :
    Decidable (s.TwoDelays c pktSize) :=
  decidable_of_iff ((_ → _) ∧ (_ → _) ∧ (_ ∨ _) ∧ (_ → _) ∧ (_ → _))
    ⟨fun h => ⟨h.1, h.2.1, h.2.2.1, h.2.2.2.1, h.2.2.2.2⟩,
      fun h => ⟨h.fills, h.fills_peak, h.whole, h.surplus, h.surplus_peak⟩⟩

instance (c : TbfConfig) (s : TbfQueueDisc) (pktSize : UInt32) :
    Decidable (s.OneDelay c pktSize) :=
  decidable_of_iff (_ ∧ _) ⟨fun h => ⟨h.1, h.2⟩, fun h => ⟨h.whole, h.nan⟩⟩

instance (c : TbfConfig) (s : TbfQueueDisc) (call : TbfCall) : Decidable (s.Sound c call) :=
  match call with
  | .enqueue _ _ => inferInstanceAs (Decidable True)
  | .dequeue =>
    -- the one packet there is, if any, and not all sizes
    show Decidable (∀ pktSize ∈ s.queue.head?, _ → _ ∧ _) from Option.decidableForallMem _
  | .advance _ => inferInstanceAs (Decidable True)
  | .wakeUp => inferInstanceAs (Decidable True)

end TbfQueueDisc
end Ns3Joined.TrafficControl

/-!
## A held packet is woken in time

While a packet waits nothing is taken out of the buckets, so the time at which both hold enough for
it stays the same, and a wake-up that was scheduled for that time stays right until it is due. It
was scheduled for it if the longer of the two delays is the longer of the two waits. That fails
where a bucket has tokens left over: minus what it has in surplus, as an unsigned count of bytes, is
almost `2 ^ 32`.

* `dequeue_cases`: the packet at the head is dequeued, or held.
* `requiredDelayTime_eq`: the delay is how long the buckets take.
* `inTime_of_sound`: the wake-ups of a run whose calls are sound are in time.
* `surplus_wakes_late`: where the first bucket has a surplus, the wake-up comes weeks too late.
-/

namespace Ns3Joined.TrafficControl.TbfQueueDisc

open TokenBucket List

variable {c : TbfConfig} {s : TbfQueueDisc} {pktSize : UInt32} {rest : List UInt32}
variable {h : List TbfAction}

/-! ### Tokens -/

/-- Refilling is the level of a bucket. -/
theorem refill_eq (s : TbfQueueDisc) (tokens : ℚ) (rate : UInt64) (capacity : UInt32) :
    s.refill tokens rate capacity =
      TokenBucket.level ⟨((rate / 8).toNat : ℚ), capacity.toNat, tokens,
        s.m_timeCheckPoint⟩ s.now := by
  unfold refill level
  dsimp only
  split_ifs with hfull
  · exact (min_eq_right (le_of_lt hfull)).symm
  · exact (min_eq_left (le_of_not_gt hfull)).symm

/-- The tokens left of the first bucket after a packet. -/
theorem btoks_eq (c : TbfConfig) (s : TbfQueueDisc) (pktSize : UInt32) :
    s.btoks c pktSize = (s.firstBucket c).level s.now - pktSize.toNat := by
  unfold btoks
  rw [refill_eq]
  rfl

/-- The tokens left of the second bucket after a packet. -/
theorem ptoks_eq (hpeak : c.m_peakRate > 0) (s : TbfQueueDisc) (pktSize : UInt32) :
    s.ptoks c pktSize = (s.secondBucket c).level s.now - pktSize.toNat := by
  unfold ptoks
  rw [if_pos hpeak, refill_eq]
  rfl

/-- The tokens suffice if and only if both buckets hold the packet's size. -/
theorem toks_nonneg_iff :
    (0 ≤ s.btoks c pktSize ∧ 0 ≤ s.ptoks c pktSize) ↔ s.Allows c pktSize s.now := by
  have hfirst : 0 ≤ s.btoks c pktSize ↔ (s.firstBucket c).Holds pktSize.toNat s.now := by
    rw [btoks_eq, sub_nonneg]
    rfl
  refine and_congr hfirst ?_
  by_cases hpeak : c.m_peakRate > 0
  · rw [ptoks_eq hpeak, sub_nonneg]
    exact ⟨fun hholds _ => hholds, fun hholds => hholds hpeak⟩
  · unfold ptoks
    rw [if_neg hpeak]
    exact ⟨fun _ hpeak' => absurd hpeak' hpeak, fun _ => le_refl 0⟩

/-! ### Delays -/

/-- Bytes that fit their word are not changed by it. -/
theorem toUInt32_of_lt {bytes : ℚ} (hpos : 0 ≤ bytes) (hlt : bytes < 2 ^ 32) :
    toUInt32 bytes = bytes := by
  have hfloor : ⌊bytes / 2 ^ 32⌋ = 0 := by
    rw [Int.floor_eq_zero_iff]
    exact ⟨div_nonneg hpos (by norm_num), (div_lt_one (by norm_num)).mpr hlt⟩
  unfold toUInt32
  rw [hfloor, Int.cast_zero, mul_zero, sub_zero]

/-- The bytes per second do not exceed an eighth of the rate. -/
theorem div_eight_le (rate : UInt64) : ((rate / 8).toNat : ℚ) ≤ rate.toNat / 8 := by
  rw [UInt64.toNat_div]
  exact Nat.cast_div_le

variable {rate : UInt64} {delay : ℚ}

/-- The bytes per second of a rate in whole bytes. -/
theorem div_eight_eq (hwhole : 8 ∣ rate.toNat) : ((rate / 8).toNat : ℚ) = rate.toNat / 8 := by
  rw [UInt64.toNat_div]
  exact Nat.cast_div hwhole (Nat.cast_ne_zero.mpr (by decide))

/-- The bytes per second of a rate of at least a byte. -/
theorem div_eight_pos (hfills : 8 ≤ rate.toNat) : (0 : ℚ) < (rate / 8).toNat := by
  rw [UInt64.toNat_div]
  exact Nat.cast_pos.mpr (Nat.div_pos hfills (by decide))

section Delay

variable {b : TokenBucket ℚ}

/-- The bytes that are missing fit their word. -/
theorem toUInt32_missing (hlevel : 0 ≤ b.level s.now) (hshort : ¬ b.Holds pktSize.toNat s.now) :
    toUInt32 (pktSize.toNat - b.level s.now) = pktSize.toNat - b.level s.now := by
  have hsize : (pktSize.toNat : ℚ) < 2 ^ 32 := by exact_mod_cast pktSize.toNat_lt
  exact toUInt32_of_lt (sub_nonneg.mpr (le_of_not_ge hshort)) (by linarith)

/-- A bucket that fills by whole bytes takes as long as the delay. -/
theorem delay_eq_wait (hrate : b.rate = (rate / 8).toNat) (hlevel : 0 ≤ b.level s.now)
    (hshort : ¬ b.Holds pktSize.toNat s.now) (hwhole : 8 ∣ rate.toNat) :
    toUInt32 (pktSize.toNat - b.level s.now) * 8 / rate.toNat = b.wait pktSize.toNat s.now := by
  rw [toUInt32_missing hlevel hshort, wait_of_not_holds hshort, hrate, div_eight_eq hwhole,
    div_div_eq_mul_div]

/-- A bucket takes at least as long as the delay. -/
theorem delay_le_wait (hrate : b.rate = (rate / 8).toNat) (hlevel : 0 ≤ b.level s.now)
    (hshort : ¬ b.Holds pktSize.toNat s.now) (hfills : 8 ≤ rate.toNat) :
    toUInt32 (pktSize.toNat - b.level s.now) * 8 / rate.toNat ≤ b.wait pktSize.toNat s.now := by
  rw [toUInt32_missing hlevel hshort, wait_of_not_holds hshort, hrate, ← div_div_eq_mul_div]
  exact div_le_div_of_nonneg_left (sub_nonneg.mpr (le_of_not_ge hshort)) (div_eight_pos hfills)
    (div_eight_le rate)

end Delay

/-- The longer of two delays is the longer of two waits if neither is longer than this, and one of
them is the longer wait. -/
theorem max_delay_eq {delay' wait wait' : ℚ} (hle : delay ≤ max wait wait')
    (hle' : delay' ≤ max wait wait')
    (hlongest : delay = wait ∧ wait' ≤ wait ∨ delay' = wait' ∧ wait ≤ wait') :
    max delay delay' = max wait wait' := by
  refine le_antisymm (max_le hle hle') ?_
  obtain ⟨rfl, hlonger⟩ | ⟨rfl, hlonger⟩ := hlongest
  · rw [max_eq_left hlonger]
    exact le_max_left delay delay'
  · rw [max_eq_right hlonger]
    exact le_max_right delay delay'

/-! ### The invariant -/

/-- What a run keeps. A pending wake-up that is not due yet is in time. -/
structure Kept (c : TbfConfig) (s : TbfQueueDisc) (h : List TbfAction) : Prop where
  checkpoint : s.m_timeCheckPoint ≤ s.now
  btokens : 0 ≤ s.m_btokens
  ptokens : 0 ≤ s.m_ptokens
  fits : ∀ pktSize ∈ s.queue, Fits c pktSize
  due : ∀ wakeUp, s.m_id = some wakeUp → s.now ≤ wakeUp
  pending : ∀ wakeUp, s.m_id = some wakeUp → s.now < wakeUp → s.WakesInTime c
  history : InTime c h

/-- Refilling leaves no negative count. -/
theorem refill_nonneg {tokens : ℚ} (rate : UInt64) (capacity : UInt32)
    (hcheckpoint : s.m_timeCheckPoint ≤ s.now) (htokens : 0 ≤ tokens) :
    0 ≤ s.refill tokens rate capacity := by
  rw [refill_eq]
  exact le_min (add_nonneg htokens (mul_nonneg (sub_nonneg.mpr hcheckpoint) (Nat.cast_nonneg _)))
    (Nat.cast_nonneg _)

/-- The first bucket is not below zero. -/
theorem Kept.firstLevel (hk : Kept c s h) : 0 ≤ (s.firstBucket c).level s.now := by
  have hnonneg := refill_nonneg c.m_rate c.m_burst hk.checkpoint hk.btokens
  rw [refill_eq] at hnonneg
  exact hnonneg

/-- The second bucket is not below zero. -/
theorem Kept.secondLevel (hk : Kept c s h) : 0 ≤ (s.secondBucket c).level s.now := by
  have hnonneg := refill_nonneg c.m_peakRate c.m_mtu hk.checkpoint hk.ptokens
  rw [refill_eq] at hnonneg
  exact hnonneg

/-- The order of words is that of their numbers. -/
theorem cast_le {a b : UInt32} (h : a ≤ b) : (a.toNat : ℚ) ≤ b.toNat :=
  Nat.cast_le.mpr (UInt32.le_iff_toNat_le.mp h)

/-- With a second bucket, the first time at which the packet is allowed. -/
theorem isLeast_two (hpeak : c.m_peakRate > 0) (hfits : Fits c pktSize)
    (hdelays : s.TwoDelays c pktSize) :
    IsLeast {time | s.now ≤ time ∧ s.Allows c pktSize time}
      (s.now + max ((s.firstBucket c).wait pktSize.toNat s.now)
        ((s.secondBucket c).wait pktSize.toNat s.now)) := by
  have hset : {time | s.now ≤ time ∧ s.Allows c pktSize time} =
      {time | s.now ≤ time ∧ (s.firstBucket c).Holds pktSize.toNat time ∧
        (s.secondBucket c).Holds pktSize.toNat time} := by
    ext time
    exact and_congr_right' (and_congr_right' ⟨fun hholds => hholds hpeak, fun hholds _ => hholds⟩)
  rw [hset, ← max_add_add_left]
  exact isLeast_max (fun _ _ hle hholds => hholds.mono (Nat.cast_nonneg _) hle)
    (fun _ _ hle hholds => hholds.mono (Nat.cast_nonneg _) hle)
    (isLeast_wait (fun hshort => div_eight_pos (hdelays.fills hshort)) (cast_le hfits.1))
    (isLeast_wait (fun hshort => div_eight_pos (hdelays.fills_peak hshort))
      (cast_le (hfits.2 hpeak)))

/-- Without a second bucket, the first time at which the packet is allowed. -/
theorem isLeast_one (hpeak : c.m_peakRate = 0) (hfits : Fits c pktSize)
    (hfills : 8 ≤ c.m_rate.toNat) :
    IsLeast {time | s.now ≤ time ∧ s.Allows c pktSize time}
      (s.now + (s.firstBucket c).wait pktSize.toNat s.now) := by
  have hset : {time | s.now ≤ time ∧ s.Allows c pktSize time} =
      {time | s.now ≤ time ∧ (s.firstBucket c).Holds pktSize.toNat time} := by
    ext time
    refine and_congr_right' ⟨fun hallows => hallows.1, fun hholds => ⟨hholds, fun hpos => ?_⟩⟩
    rw [hpeak] at hpos
    exact absurd hpos (by decide)
  rw [hset]
  exact isLeast_wait (fun _ => div_eight_pos hfills) (cast_le hfits.1)

/-- The time to send some bytes at a positive rate. -/
theorem CalculateBytesTxTime_of_pos {m_bps : UInt64} (hpos : m_bps > 0) (bytes : ℚ) :
    CalculateBytesTxTime c m_bps bytes = .ok (bytes * 8 / m_bps.toNat) :=
  if_neg fun hzero => absurd hpos (by rw [hzero]; decide)

/-- A positive rate in whole bytes is at least eight. -/
theorem eight_le (hpos : rate > 0) (hwhole : 8 ∣ rate.toNat) : 8 ≤ rate.toNat :=
  Nat.le_of_dvd (UInt64.lt_iff_toNat_lt.mp hpos) hwhole

/-- The longer delay is the longer wait of the two buckets. -/
theorem requiredDelayTime_two (hk : Kept c s h) (hrate : c.m_rate > 0) (hpeak : c.m_peakRate > 0)
    (hblocked : ¬ s.Allows c pktSize s.now) (hdelays : s.TwoDelays c pktSize) :
    s.requiredDelayTime c pktSize = .ok (max ((s.firstBucket c).wait pktSize.toNat s.now)
      ((s.secondBucket c).wait pktSize.toNat s.now)) := by
  have hmax : max (toUInt32 (pktSize.toNat - (s.firstBucket c).level s.now) * 8 / c.m_rate.toNat)
      (toUInt32 (pktSize.toNat - (s.secondBucket c).level s.now) * 8 / c.m_peakRate.toNat) =
      max ((s.firstBucket c).wait pktSize.toNat s.now)
        ((s.secondBucket c).wait pktSize.toNat s.now) := by
    refine max_delay_eq ?_ ?_ ?_
    · by_cases hfirst : (s.firstBucket c).Holds pktSize.toNat s.now
      · exact (hdelays.surplus hfirst).trans (le_max_right _ _)
      · exact (delay_le_wait rfl hk.firstLevel hfirst (hdelays.fills hfirst)).trans
          (le_max_left _ _)
    · by_cases hsecond : (s.secondBucket c).Holds pktSize.toNat s.now
      · exact (hdelays.surplus_peak hsecond).trans (le_max_left _ _)
      · exact (delay_le_wait rfl hk.secondLevel hsecond (hdelays.fills_peak hsecond)).trans
          (le_max_right _ _)
    · -- the bucket that takes longer is short of tokens, since one of the two is
      obtain ⟨hwhole, hlonger⟩ | ⟨hwhole, hlonger⟩ := hdelays.whole
      · refine Or.inl ⟨delay_eq_wait rfl hk.firstLevel (fun hfirst => ?_) hwhole, hlonger⟩
        have hsecond : ¬ (s.secondBucket c).Holds pktSize.toNat s.now :=
          fun hsecond => hblocked ⟨hfirst, fun _ => hsecond⟩
        rw [wait_of_holds hfirst] at hlonger
        exact absurd (wait_pos (div_eight_pos (hdelays.fills_peak hsecond)) hsecond)
          (not_lt_of_ge hlonger)
      · refine Or.inr ⟨delay_eq_wait rfl hk.secondLevel (fun hsecond => ?_) hwhole, hlonger⟩
        have hfirst : ¬ (s.firstBucket c).Holds pktSize.toNat s.now :=
          fun hfirst => hblocked ⟨hfirst, fun _ => hsecond⟩
        rw [wait_of_holds hsecond] at hlonger
        exact absurd (wait_pos (div_eight_pos (hdelays.fills hfirst)) hfirst)
          (not_lt_of_ge hlonger)
  unfold requiredDelayTime
  rw [CalculateBytesTxTime_of_pos hrate, CalculateBytesTxTime_of_pos hpeak, btoks_eq,
    ptoks_eq hpeak, neg_sub, neg_sub, ← hmax]
  rfl

/-- Without a second bucket, the delay is the wait of the first. -/
theorem requiredDelayTime_one (hk : Kept c s h) (hrate : c.m_rate > 0) (hpeak : c.m_peakRate = 0)
    (hblocked : ¬ s.Allows c pktSize s.now) (hdelay : s.OneDelay c pktSize) :
    s.requiredDelayTime c pktSize = .ok ((s.firstBucket c).wait pktSize.toNat s.now) := by
  obtain ⟨time, hnan, hle⟩ := hdelay.nan
  have hnone : ¬ c.m_peakRate > 0 := by
    rw [hpeak]
    decide
  have hshort : ¬ (s.firstBucket c).Holds pktSize.toNat s.now :=
    fun hholds => hblocked ⟨hholds, fun hpos => absurd hpos hnone⟩
  have hptoks : s.ptoks c pktSize = 0 := if_neg hnone
  have hpeakTime : CalculateBytesTxTime c c.m_peakRate (toUInt32 (-s.ptoks c pktSize)) =
      .ok time := by
    unfold CalculateBytesTxTime
    rw [if_pos hpeak, hptoks, neg_zero, toUInt32_of_lt (le_refl 0) (by norm_num), if_pos rfl, hnan]
    rfl
  unfold requiredDelayTime
  rw [CalculateBytesTxTime_of_pos hrate, hpeakTime, btoks_eq, neg_sub,
    delay_eq_wait rfl hk.firstLevel hshort hdelay.whole]
  exact congrArg Except.ok (max_eq_left hle)

/-! ### What `DoDequeue` does -/

/-- A packet the buckets allow is sent. -/
theorem dequeue_allowed (hqueue : s.queue = pktSize :: rest) (hallows : s.Allows c pktSize s.now) :
    s.DoDequeue c = .ok ({ s with
      queue := rest
      m_timeCheckPoint := s.now
      m_btokens := s.btoks c pktSize
      m_ptokens := s.ptoks c pktSize }, [.sent pktSize]) := by
  unfold DoDequeue
  rw [hqueue]
  exact if_pos (toks_nonneg_iff.mpr hallows)

/-- A blocked packet waits for the event that is scheduled already. -/
theorem dequeue_pending (hqueue : s.queue = pktSize :: rest)
    (hblocked : ¬ s.Allows c pktSize s.now) {wakeUp : ℚ} (hid : s.m_id = some wakeUp) :
    s.DoDequeue c = .ok (s, [.blocked s]) := by
  unfold DoDequeue
  rw [hqueue]
  dsimp only
  rw [if_neg fun htoks => hblocked (toks_nonneg_iff.mp htoks), hid]
  exact if_pos rfl

/-- A blocked packet schedules an event after the delay. -/
theorem dequeue_scheduled (hqueue : s.queue = pktSize :: rest)
    (hblocked : ¬ s.Allows c pktSize s.now) (hid : s.m_id = none)
    (hdelay : s.requiredDelayTime c pktSize = .ok delay) :
    s.DoDequeue c = .ok ({ s with m_id := some (s.now + delay) },
      [.blocked { s with m_id := some (s.now + delay) }]) := by
  unfold DoDequeue
  rw [hqueue]
  dsimp only
  rw [if_neg fun htoks => hblocked (toks_nonneg_iff.mp htoks), hid, hdelay]
  exact if_neg (by decide)

/-! ### Runs -/

/-- Actions in time after others. -/
theorem InTime.append (h₁ : InTime c h) {actions : List TbfAction} (h₂ : InTime c actions) :
    InTime c (h ++ actions) := fun s hs =>
  (mem_append.mp hs).elim (h₁ s) (h₂ s)

/-- No action is in time. -/
theorem InTime.nil : InTime c [] := fun _ hs => absurd hs not_mem_nil

/-- At the time of the wake-up both buckets hold enough, so the packet goes. -/
theorem WakesInTime.goesWhenWoken (hs : s.WakesInTime c) : s.GoesWhenWoken c := by
  intro wakeUp hid
  obtain ⟨pktSize, wakeUp', hhead, hid', hleast⟩ := hs
  obtain rfl : wakeUp = wakeUp' := Option.some.inj (hid.symm.trans hid')
  obtain ⟨rest, hqueue⟩ := List.head?_eq_some_iff.mp hhead
  obtain ⟨s', hgoes⟩ : ∃ s', DoDequeue c { s with now := wakeUp, m_id := none } =
      .ok (s', [.sent pktSize]) := ⟨_, dequeue_allowed hqueue hleast.1.2⟩
  refine ⟨s', pktSize, hhead, ?_⟩
  simp only [TracedRun.run, step]
  rw [hgoes]
  rfl

/-- A block with its event in time is in time. -/
theorem InTime.blocked (hs : s.WakesInTime c) : InTime c [.blocked s] := fun s' hs' => by
  obtain rfl : s' = s := TbfAction.blocked.inj (mem_singleton.mp hs')
  exact ⟨hs, hs.goesWhenWoken⟩

/-- A packet that goes was not kept back by a wake-up still to come. -/
theorem WakesInTime.not_allows (hs : s.WakesInTime c) (hhead : s.queue.head? = some pktSize)
    (hallows : s.Allows c pktSize s.now)
    (hlater : ∀ wakeUp, s.m_id = some wakeUp → s.now < wakeUp) :
    False := by
  obtain ⟨pktSize', wakeUp, hhead', hid, hleast⟩ := hs
  obtain rfl : pktSize = pktSize' := Option.some.inj (hhead.symm.trans hhead')
  exact not_lt_of_ge (hleast.2 ⟨le_refl s.now, hallows⟩) (hlater wakeUp hid)

/-- A packet is dequeued. -/
theorem Kept.sent (hk : Kept c s h) (hqueue : s.queue = pktSize :: rest)
    (hallows : s.Allows c pktSize s.now) :
    Kept c { s with
      queue := rest
      m_timeCheckPoint := s.now
      m_btokens := s.btoks c pktSize
      m_ptokens := s.ptoks c pktSize } (h ++ [.sent pktSize]) := by
  obtain ⟨hbtoks, hptoks⟩ := toks_nonneg_iff.mpr hallows
  have hhead : s.queue.head? = some pktSize := by rw [hqueue]; rfl
  refine ⟨le_refl s.now, hbtoks, hptoks, fun size hsize => hk.fits size ?_, hk.due,
    fun wakeUp hid hlt => ?_, hk.history.append fun s' hs' => ?_⟩
  · rw [hqueue]
    exact mem_cons_of_mem pktSize hsize
  · refine ((hk.pending wakeUp hid hlt).not_allows hhead hallows fun wakeUp' hid' => ?_).elim
    obtain rfl : wakeUp = wakeUp' := Option.some.inj (Eq.trans (Eq.symm hid) hid')
    exact hlt
  · cases mem_singleton.mp hs'

/-- A wake-up is scheduled. -/
theorem Kept.scheduled (hk : Kept c s h) (hhead : s.queue.head? = some pktSize)
    (hleast : IsLeast {time | s.now ≤ time ∧ s.Allows c pktSize time} (s.now + delay)) :
    Kept c { s with m_id := some (s.now + delay) }
      (h ++ [.blocked { s with m_id := some (s.now + delay) }]) := by
  have hinTime : WakesInTime c { s with m_id := some (s.now + delay) } :=
    ⟨pktSize, s.now + delay, hhead, rfl, hleast⟩
  exact ⟨hk.checkpoint, hk.btokens, hk.ptokens, hk.fits,
    fun wakeUp hid => Option.some.inj hid ▸ hleast.1.1, fun _ _ _ => hinTime,
    hk.history.append (InTime.blocked hinTime)⟩

/-- Dequeueing succeeds, keeps the state and is in time. -/
theorem dequeue_cases (hk : Kept c s h) (hrate : c.m_rate > 0) (hsound : s.Sound c .dequeue) :
    ∃ s' actions, s.DoDequeue c = .ok (s', actions) ∧ Kept c s' (h ++ actions) := by
  cases hqueue : s.queue with
  | nil =>
    refine ⟨s, [], ?_, ?_⟩
    · unfold DoDequeue
      rw [hqueue]
    · rw [append_nil]
      exact hk
  | cons pktSize rest =>
    have hhead : s.queue.head? = some pktSize := by rw [hqueue]; rfl
    have hfits := hk.fits pktSize (hqueue ▸ mem_cons_self)
    by_cases hallows : s.Allows c pktSize s.now
    · exact ⟨_, _, dequeue_allowed hqueue hallows, hk.sent hqueue hallows⟩
    · obtain ⟨hlater, hdelays⟩ := hsound pktSize hhead hallows
      cases hid : s.m_id with
      | some wakeUp =>
        exact ⟨_, _, dequeue_pending hqueue hallows hid, hk.checkpoint, hk.btokens, hk.ptokens,
          hk.fits, hk.due, hk.pending,
          hk.history.append (InTime.blocked (hk.pending wakeUp hid (hlater wakeUp hid)))⟩
      | none =>
        by_cases hpeak : c.m_peakRate = 0
        · have hdelay := (hdelays hid).2 hpeak
          exact ⟨_, _, dequeue_scheduled hqueue hallows hid
            (requiredDelayTime_one hk hrate hpeak hallows hdelay),
            hk.scheduled hhead (isLeast_one hpeak hfits (eight_le hrate hdelay.whole))⟩
        · have hpos : c.m_peakRate > 0 := UInt64.pos_iff_ne_zero.mpr hpeak
          have htwo := (hdelays hid).1 hpos
          exact ⟨_, _, dequeue_scheduled hqueue hallows hid
            (requiredDelayTime_two hk hrate hpos hallows htwo),
            hk.scheduled hhead (isLeast_two hpos hfits htwo)⟩

/-- What one call keeps. -/
theorem step_keeps (hk : Kept c s h) (hrate : c.m_rate > 0) {call : TbfCall}
    (hpossible : s.Possible c call) (hsound : s.Sound c call) :
    ∃ s' actions, s.step c call = .ok (s', actions) ∧ Kept c s' (h ++ actions) := by
  cases call with
  | enqueue size accepted =>
    refine ⟨_, [], rfl, ?_⟩
    rw [append_nil]
    cases accepted with
    | false => exact hk
    | true =>
      refine ⟨hk.checkpoint, hk.btokens, hk.ptokens, fun pktSize hsize => ?_, hk.due,
        fun wakeUp hid hlt => ?_, hk.history⟩
      · rcases mem_append.mp hsize with hsize | hsize
        · exact hk.fits pktSize hsize
        · rw [mem_singleton.mp hsize]
          exact hpossible
      · -- the packet for which the wake-up is pending is still the first one
        obtain ⟨pktSize, wakeUp', hhead, hrest⟩ := hk.pending wakeUp hid hlt
        have hhead' : (s.queue ++ [size]).head? = some pktSize := by
          rw [List.head?_append, hhead]
          rfl
        exact ⟨pktSize, wakeUp', hhead', hrest⟩
  | dequeue => exact dequeue_cases hk hrate hsound
  | advance time =>
    obtain ⟨hle, hwakeUp⟩ := hpossible
    refine ⟨_, [], rfl, ?_⟩
    rw [append_nil]
    refine ⟨hk.checkpoint.trans hle, hk.btokens, hk.ptokens, hk.fits,
      fun wakeUp hid => hwakeUp wakeUp hid, fun wakeUp hid hlt => ?_, hk.history⟩
    obtain ⟨pktSize, wakeUp', hhead, hid', hleast⟩ :=
      hk.pending wakeUp hid (lt_of_le_of_lt hle hlt)
    exact ⟨pktSize, wakeUp', hhead, hid', isLeast_later hleast hle (hwakeUp wakeUp' hid')⟩
  | wakeUp =>
    refine ⟨_, [], rfl, ?_⟩
    rw [append_nil]
    exact ⟨hk.checkpoint, hk.btokens, hk.ptokens, hk.fits, fun _ hid => (by cases hid),
      fun _ hid => (by cases hid), hk.history⟩

/-- The state after the parameters are set. -/
theorem Kept.initial {now : ℚ} (hnow : 0 ≤ now) : Kept c (InitializeParams c now) [] :=
  ⟨hnow, Nat.cast_nonneg _, Nat.cast_nonneg _, fun _ hsize => absurd hsize not_mem_nil,
    fun _ hid => (by cases hid), fun _ hid => (by cases hid), InTime.nil⟩

/-- The wake-ups of a run whose calls are sound are in time. -/
theorem inTime_of_sound (c : TbfConfig) (hrate : c.m_rate > 0) {now : ℚ} (hnow : 0 ≤ now)
    {calls : List TbfCall}
    (hmeets : TracedRun.Meets (step c) (fun s _ call => s.Possible c call ∧ s.Sound c call)
      (InitializeParams c now) [] calls) :
    TracedRun.Throughout (step c) (fun _ h => InTime c h) (InitializeParams c now) [] calls :=
  TracedRun.throughout_of_meets (J := Kept c)
    (fun _ _ _ hk hcall => step_keeps hk hrate hcall.1 hcall.2) (fun _ _ hk => hk.history)
    (Kept.initial hnow) hmeets

/-- Both buckets hold one packet of 1000 bytes, and take a second to fill. -/
def evenConfig : TbfConfig := ⟨1000, 1000, 8000, 8000, none⟩

/-- The second packet waits for half a second. -/
theorem inTime_of_sound_even :
    TracedRun.Throughout (step evenConfig) (fun _ h => InTime evenConfig h)
      (InitializeParams evenConfig 0) [] [.enqueue 1000 true, .enqueue 500 true, .dequeue, .dequeue,
        .advance (1 / 2), .wakeUp, .dequeue] :=
  inTime_of_sound evenConfig (by decide) (le_refl 0) (by decide +kernel)

/-- The first bucket holds two packets, and the second fills ten times as fast. -/
def surplusConfig : TbfConfig := ⟨2000, 1000, 8000, 80000, none⟩

/-- The second packet lacks 500 bytes in the second bucket, which come within a twentieth of a
second, while 500 bytes are left over in the first. -/
def surplusCalls : List TbfCall :=
  [.enqueue 1000 true, .enqueue 500 true, .dequeue, .dequeue]

/-- Where the first bucket has a surplus, the wake-up comes weeks too late. -/
theorem surplus_wakes_late :
    TracedRun.Meets (step surplusConfig) (fun s _ call => s.Possible surplusConfig call)
      (InitializeParams surplusConfig 0) [] surplusCalls ∧
    ¬ TracedRun.Throughout (step surplusConfig) (fun _ h => InTime surplusConfig h)
      (InitializeParams surplusConfig 0) [] surplusCalls := by
  refine ⟨by decide +kernel, fun hthroughout => ?_⟩
  obtain ⟨s', actions, hrun, hinTime⟩ := hthroughout.exists_run (cons_ne_nil _ _)
  have hrun' : TracedRun.run (step surplusConfig) (InitializeParams surplusConfig 0) surplusCalls =
      .ok (⟨[500], 1000, 0, 0, some (1073741699 / 250), 0⟩,
        [.sent 1000, .blocked ⟨[500], 1000, 0, 0, some (1073741699 / 250), 0⟩]) := by
    decide +kernel
  obtain ⟨-, rfl⟩ := Prod.mk.inj (Except.ok.inj (hrun.symm.trans hrun'))
  obtain ⟨⟨pktSize, wakeUp, hhead, hid, hleast⟩, -⟩ :=
    hinTime _ (mem_append_right _ (mem_cons_of_mem _ mem_cons_self))
  obtain rfl := Option.some.inj hhead
  obtain rfl := Option.some.inj hid
  -- both buckets hold enough after a twentieth of a second
  have hallows : Allows surplusConfig
      ⟨[500], 1000, 0, 0, some (1073741699 / 250), 0⟩ 500 (1 / 20) := by decide +kernel
  have hle : (1073741699 / 250 : ℚ) ≤ 1 / 20 := hleast.2 ⟨by decide +kernel, hallows⟩
  exact absurd hle (by decide +kernel)

end Ns3Joined.TrafficControl.TbfQueueDisc
