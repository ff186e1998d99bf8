import Ns3Joined.Library.InverseSqrt
import Ns3Joined.Library.TracedRun
import Ns3Joined.Network.Queue

/-!
# The CoDel queue disc

`CoDelQueueDisc` drops packets at the head of its queue while they have waited for too long, at
intervals that get shorter with the number of drops: `interval / √count`. The inverse square root is
an estimate in parts of `2 ^ -16`, improved by one Newton step at each drop, in 32-bit and 64-bit
unsigned words. When the queue disc starts to drop again soon after it stopped, it goes on with the
old estimate and a smaller count.

Times are counted in units of 1024 ns in words of 32 bits, and compared through signed differences.
The counters of the visits to each state are only traced, so they are left out.

* `NewtonStep`, `ControlLaw`: the arithmetic.
* `OkToDrop`, `DoDequeue`: what a packet that is dequeued is subject to.
* `step`: the calls, with the Newton steps taken, the drops scheduled and the packets dropped.
-/

namespace Ns3Joined.TrafficControl

open Network

/-- A `QueueDiscItem`: its size, and when it was enqueued, in nanoseconds. -/
structure QueueDiscItem where
  size : UInt32
  timeStamp : ℕ
deriving DecidableEq, Repr

/-- The attributes. The language gives no meaning to a difference of two `int`s that is not in their
range: `differenceOutOfRange` is what comes of it. -/
structure CoDelConfig where
  m_maxSize : QueueSize
  m_minBytes : UInt32
  m_interval : ℤ
  m_target : ℤ
  differenceOutOfRange : UInt32 → UInt32 → ℤ

/-- `CoDelQueueDisc`, with the packets of its internal queue. -/
structure CoDelQueueDisc where
  queue : List QueueDiscItem
  m_count : UInt32
  m_lastCount : UInt32
  m_dropping : Bool
  m_recInvSqrt : UInt16
  m_firstAboveTime : UInt32
  m_dropNext : UInt32
deriving DecidableEq, Repr

/-- What is done on the way: a Newton step for a count, from one estimate to another; the time of
the next drop, from another time; and what became of a packet. -/
inductive CoDelAction
  | newtonStep (m_count : UInt32) (before after : UInt16)
  | controlLaw (t : UInt32) (m_recInvSqrt : UInt16) (dropNext : UInt32)
  | dropBeforeEnqueue (item : QueueDiscItem)
  | dropAfterDequeue (item : QueueDiscItem)
  | dequeued (item : Option QueueDiscItem)
deriving DecidableEq, Repr

/-- What is called, and when: a packet of some size comes, which the internal queue may refuse, and
a packet is asked for. -/
inductive CoDelCall
  | enqueue (now : ℕ) (size : UInt32) (accepted : Bool)
  | dequeue (now : ℕ)
deriving DecidableEq, Repr

/-! ### Words -/

def CODEL_SHIFT : ℕ := 10

/-- `~0U >> REC_INV_SQRT_SHIFT`. -/
def recInvSqrtMax : UInt16 := 0xffff

/-- `CoDelQueueDisc::Time2CoDel`. -/
def Time2CoDel (t : ℤ) : UInt32 := .ofInt (t / 2 ^ CODEL_SHIFT)

def CoDelGetTime (now : ℕ) : UInt32 := .ofNat (now / 2 ^ CODEL_SHIFT)

def ReciprocalDivide (A R : UInt32) : UInt32 := ((A.toUInt64 * R.toUInt64) >>> 32).toUInt32

/-- `(int)(a) - (int)(b)`. -/
def CoDelConfig.difference (c : CoDelConfig) (a b : UInt32) : ℤ :=
  let d := a.toInt32.toInt - b.toInt32.toInt
  if -2 ^ 31 ≤ d ∧ d < 2 ^ 31 then d else c.differenceOutOfRange a b

/-- `CoDelQueueDisc::CoDelTimeAfter`. -/
def CoDelTimeAfter (c : CoDelConfig) (a b : UInt32) : Bool := c.difference a b > 0

/-- `CoDelQueueDisc::CoDelTimeAfterEq`. -/
def CoDelTimeAfterEq (c : CoDelConfig) (a b : UInt32) : Bool := c.difference a b ≥ 0

/-- `CoDelQueueDisc::CoDelTimeBefore`. -/
def CoDelTimeBefore (c : CoDelConfig) (a b : UInt32) : Bool := c.difference a b < 0

/-- `CoDelQueueDisc::NewtonStep`. -/
def NewtonStep (m_count : UInt32) (m_recInvSqrt : UInt16) : UInt16 :=
  let invsqrt : UInt32 := m_recInvSqrt.toUInt32 <<< 16
  let invsqrt2 : UInt32 := ((invsqrt.toUInt64 * invsqrt.toUInt64) >>> 32).toUInt32
  let val : UInt64 := ((3 : UInt64) <<< 32) - m_count.toUInt64 * invsqrt2.toUInt64
  let val := val >>> 2 -- avoid overflow
  let val := (val * invsqrt.toUInt64) >>> 31
  (val >>> 16).toUInt16

/-- `CoDelQueueDisc::ControlLaw`. -/
def ControlLaw (c : CoDelConfig) (m_recInvSqrt : UInt16) (t : UInt32) : UInt32 :=
  t + ReciprocalDivide (Time2CoDel c.m_interval) (m_recInvSqrt.toUInt32 <<< 16)

namespace CoDelQueueDisc

/-- The constructor. -/
def create : CoDelQueueDisc := ⟨[], 0, 0, false, recInvSqrtMax, 0, 0⟩

/-! ### The queue -/

/-- `GetNBytes` of the internal queue. -/
def GetNBytes (s : CoDelQueueDisc) : UInt32 := (s.queue.map QueueDiscItem.size).sum

/-- `QueueDisc::GetCurrentSize`. -/
def GetCurrentSize (c : CoDelConfig) (s : CoDelQueueDisc) : QueueSize :=
  match c.m_maxSize.m_unit with
  | .PACKETS => ⟨.PACKETS, .ofNat s.queue.length⟩
  | .BYTES => ⟨.BYTES, s.GetNBytes⟩

/-- `QueueDisc::Enqueue`, with `DoEnqueue`. -/
def DoEnqueue (c : CoDelConfig) (s : CoDelQueueDisc) (item : QueueDiscItem) (accepted : Bool) :
    Except Fault (CoDelQueueDisc × List CoDelAction) := do
  if ← ((s.GetCurrentSize c).add item.size).gt c.m_maxSize then
    -- queue full
    return (s, [.dropBeforeEnqueue item])
  else if accepted then return ({ s with queue := s.queue ++ [item] }, [])
  else return (s, [.dropBeforeEnqueue item])

/-! ### Dropping -/

/-- `CoDelQueueDisc::OkToDrop`: the state and whether it is. -/
def OkToDrop (c : CoDelConfig) (s : CoDelQueueDisc) (item : Option QueueDiscItem) (now : ℕ) :
    CoDelQueueDisc × Bool :=
  match item with
  | none => ({ s with m_firstAboveTime := 0 }, false)
  | some item =>
    let sojournTime := Time2CoDel (now - item.timeStamp)
    if CoDelTimeBefore c sojournTime (Time2CoDel c.m_target) ∨ s.GetNBytes < c.m_minBytes then
      -- went below so we'll stay below for at least an interval
      ({ s with m_firstAboveTime := 0 }, false)
    else if s.m_firstAboveTime = 0 then
      -- just went above from below
      ({ s with m_firstAboveTime := CoDelGetTime now + Time2CoDel c.m_interval }, false)
    else (s, CoDelTimeAfter c (CoDelGetTime now) s.m_firstAboveTime)

/-- `m_count` with the Newton step for it. -/
def newton (s : CoDelQueueDisc) (m_count : UInt32) : CoDelQueueDisc × List CoDelAction :=
  ({ s with m_count := m_count, m_recInvSqrt := NewtonStep m_count s.m_recInvSqrt },
    [.newtonStep m_count s.m_recInvSqrt (NewtonStep m_count s.m_recInvSqrt)])

/-- `m_dropNext = ControlLaw (t)`. -/
def schedule (c : CoDelConfig) (s : CoDelQueueDisc) (t : UInt32) :
    CoDelQueueDisc × List CoDelAction :=
  ({ s with m_dropNext := ControlLaw c s.m_recInvSqrt t },
    [.controlLaw t s.m_recInvSqrt (ControlLaw c s.m_recInvSqrt t)])

/-- The next drop is due. -/
def dropDue (c : CoDelConfig) (s : CoDelQueueDisc) (now : ℕ) : Bool :=
  s.m_dropping && CoDelTimeAfterEq c (CoDelGetTime now) s.m_dropNext

/-- The loop of `DoDequeue` in the dropping state, which takes a packet each time: what is done, and
the packet that is left. The recursion is on the queue. -/
def dropLoop (c : CoDelConfig) (now : ℕ) : List QueueDiscItem → CoDelQueueDisc → QueueDiscItem →
    CoDelQueueDisc × List CoDelAction × Option QueueDiscItem
  | [], s, item =>
    if s.dropDue c now then
      let stepped := s.newton (s.m_count + 1)
      let examined := stepped.1.OkToDrop c none now
      -- leave dropping state
      ({ examined.1 with m_dropping := false }, .dropAfterDequeue item :: stepped.2, none)
    else (s, [], some item)
  | item' :: rest, s, item =>
    if s.dropDue c now then
      let stepped := s.newton (s.m_count + 1)
      let examined := OkToDrop c { stepped.1 with queue := rest } (some item') now
      if examined.2 then
        -- schedule the next drop
        let scheduled := examined.1.schedule c examined.1.m_dropNext
        let further := dropLoop c now rest scheduled.1 item'
        (further.1, .dropAfterDequeue item :: (stepped.2 ++ scheduled.2 ++ further.2.1),
            further.2.2)
      else
        -- leave dropping state
        ({ examined.1 with m_dropping := false }, .dropAfterDequeue item :: stepped.2, some item')
    else (s, [], some item)

/-- The dropping state is entered, after the first packet was dropped. -/
def enterDropping (c : CoDelConfig) (now : ℕ) (s : CoDelQueueDisc) :
    CoDelQueueDisc × List CoDelAction :=
  -- assume that the drop rate that controlled the queue on the last cycle is a good starting point
  let delta := (s.m_count - s.m_lastCount).toInt32.toInt
  let stepped :=
    if delta > 1 ∧ CoDelTimeBefore c (CoDelGetTime now - s.m_dropNext)
        (16 * Time2CoDel c.m_interval) then
      s.newton (s.m_count - s.m_lastCount)
    else ({ s with m_count := 1, m_recInvSqrt := recInvSqrtMax }, [])
  let scheduled := { stepped.1 with m_lastCount := stepped.1.m_count }.schedule c (CoDelGetTime now)
  (scheduled.1, stepped.2 ++ scheduled.2)

/-- `CoDelQueueDisc::DoDequeue`. -/
def DoDequeue (c : CoDelConfig) (s : CoDelQueueDisc) (now : ℕ) :
    CoDelQueueDisc × List CoDelAction × Option QueueDiscItem :=
  match s.queue with
  | [] =>
    -- leave dropping state when queue is empty
    ({ s with m_dropping := false }, [], none)
  | item :: rest =>
    let examined := OkToDrop c { s with queue := rest } (some item) now
    if s.m_dropping then
      if examined.2 then dropLoop c now rest examined.1 item
      else ({ examined.1 with m_dropping := false }, [], some item)
    else if examined.2 then
      let further := OkToDrop c { examined.1 with queue := rest.tail } rest.head? now
      let entered := { further.1 with m_dropping := true }.enterDropping c now
      (entered.1, .dropAfterDequeue item :: entered.2, rest.head?)
    else (examined.1, [], some item)

/-- One call. -/
def step (c : CoDelConfig) (s : CoDelQueueDisc) :
    CoDelCall → Except Fault (CoDelQueueDisc × List CoDelAction)
  | .enqueue now size accepted => s.DoEnqueue c ⟨size, now⟩ accepted
  | .dequeue now =>
    let r := s.DoDequeue c now
    .ok (r.1, r.2.1 ++ [.dequeued r.2.2])

end CoDelQueueDisc
end Ns3Joined.TrafficControl

/-!
## The Newton steps of CoDel do not wrap around

The estimate in the state is never above the inverse square root of the count in the state. A drop
adds one to the count, so that the estimate a Newton step starts from is not above the inverse
square root for one less, and the product it subtracts is at most twice `2 ^ 32`; where the count
itself wraps around, the estimate has long come down to one part, and stays there. When the queue
disc takes up an old estimate, the count is smaller than the one that the estimate was made for.

* `toNat_newtonStep`: the words hold the exact fixed-point iteration.
* `Estimate`: the invariant, and `Estimate.newton`: what a Newton step makes of it.
* `dropLoop_keeps`, `enterDropping_keeps`: the two places where steps are taken.
* `estimates_accurate`: over any calls.
-/

namespace Ns3Joined.TrafficControl

open List

/-- The parts of the fixed-point numbers. -/
abbrev scale : ℕ := 2 ^ 16

/-! ### Words -/

variable {m_count : UInt32} {m_recInvSqrt : UInt16}

/-- Shifts are quotients. -/
theorem toNat_shiftRight_eq (x : UInt64) {k : UInt64} (hk : k.toNat < 64) :
    (x >>> k).toNat = x.toNat / 2 ^ k.toNat := by
  rw [UInt64.toNat_shiftRight, Nat.mod_eq_of_lt hk, Nat.shiftRight_eq_div_pow]

/-- The estimate shifted to its place. -/
theorem toNat_invsqrt (m_recInvSqrt : UInt16) :
    (m_recInvSqrt.toUInt32 <<< 16).toNat = m_recInvSqrt.toNat * 2 ^ 16 := by
  have hr : m_recInvSqrt.toNat < 2 ^ 16 := m_recInvSqrt.toNat_lt
  rw [UInt32.toNat_shiftLeft, UInt16.toNat_toUInt32, Nat.shiftLeft_eq]
  exact Nat.mod_eq_of_lt (by change m_recInvSqrt.toNat * 2 ^ 16 < 2 ^ 32; omega)

/-- The division by the reciprocal, on numbers. -/
theorem toNat_reciprocalDivide (A : UInt32) (m_recInvSqrt : UInt16) :
    (ReciprocalDivide A (m_recInvSqrt.toUInt32 <<< 16)).toNat =
      A.toNat * m_recInvSqrt.toNat / scale := by
  have hA : A.toNat < 2 ^ 32 := A.toNat_lt
  have hr : m_recInvSqrt.toNat < 2 ^ 16 := m_recInvSqrt.toNat_lt
  have hmul : A.toNat * (m_recInvSqrt.toNat * 2 ^ 16) = A.toNat * m_recInvSqrt.toNat * 2 ^ 16 :=
    (Nat.mul_assoc _ _ _).symm
  have hbound : A.toNat * m_recInvSqrt.toNat < 2 ^ 32 * 2 ^ 16 :=
    Nat.mul_lt_mul'' hA hr
  unfold ReciprocalDivide
  rw [UInt64.toNat_toUInt32, toNat_shiftRight_eq _ (by decide), UInt64.toNat_mul,
    UInt32.toNat_toUInt64, UInt32.toNat_toUInt64, toNat_invsqrt, hmul,
    Nat.mod_eq_of_lt (a := A.toNat * m_recInvSqrt.toNat * 2 ^ 16) (by omega)]
  change A.toNat * m_recInvSqrt.toNat * 2 ^ 16 / (2 ^ 16 * 2 ^ 16) % 2 ^ 32 = _
  rw [Nat.mul_div_mul_right _ _ (by norm_num)]
  exact Nat.mod_eq_of_lt (Nat.div_lt_of_lt_mul (by omega))

/-- The square of the estimate. -/
theorem toNat_invsqrt₂ (m_recInvSqrt : UInt16) :
    (((m_recInvSqrt.toUInt32 <<< 16).toUInt64 *
      (m_recInvSqrt.toUInt32 <<< 16).toUInt64) >>> 32).toUInt32.toNat = m_recInvSqrt.toNat ^ 2 := by
  have hr : m_recInvSqrt.toNat < 2 ^ 16 := m_recInvSqrt.toNat_lt
  have hsq : m_recInvSqrt.toNat ^ 2 < 2 ^ 32 := by nlinarith
  have hmul : m_recInvSqrt.toNat * 2 ^ 16 * (m_recInvSqrt.toNat * 2 ^ 16) =
      m_recInvSqrt.toNat ^ 2 * 2 ^ 32 := by ring
  rw [UInt64.toNat_toUInt32, toNat_shiftRight_eq _ (by decide), UInt64.toNat_mul,
    UInt32.toNat_toUInt64, toNat_invsqrt, hmul,
    Nat.mod_eq_of_lt (a := m_recInvSqrt.toNat ^ 2 * 2 ^ 32) (by omega)]
  change m_recInvSqrt.toNat ^ 2 * 2 ^ 32 / 2 ^ 32 % 2 ^ 32 = _
  rw [Nat.mul_div_cancel _ (by norm_num), Nat.mod_eq_of_lt hsq]

/-- No operation of a Newton step wraps around. -/
theorem toNat_newtonStep (hle : m_count.toNat * m_recInvSqrt.toNat ^ 2 ≤ 3 * scale ^ 2)
    (hlt : InverseSqrt.step scale m_count.toNat m_recInvSqrt.toNat < scale) :
    (NewtonStep m_count m_recInvSqrt).toNat =
      InverseSqrt.step scale m_count.toNat m_recInvSqrt.toNat := by
  have hr : m_recInvSqrt.toNat < 2 ^ 16 := m_recInvSqrt.toNat_lt
  -- what is subtracted, and what it is subtracted from
  have hproduct : (m_count.toUInt64 * (((m_recInvSqrt.toUInt32 <<< 16).toUInt64 *
      (m_recInvSqrt.toUInt32 <<< 16).toUInt64) >>> 32).toUInt32.toUInt64).toNat =
        m_count.toNat * m_recInvSqrt.toNat ^ 2 := by
    rw [UInt64.toNat_mul, UInt32.toNat_toUInt64, UInt32.toNat_toUInt64, toNat_invsqrt₂]
    exact Nat.mod_eq_of_lt (hle.trans_lt (by norm_num [scale]))
  have hval : (((3 : UInt64) <<< 32) - m_count.toUInt64 *
      (((m_recInvSqrt.toUInt32 <<< 16).toUInt64 *
      (m_recInvSqrt.toUInt32 <<< 16).toUInt64) >>> 32).toUInt32.toUInt64).toNat =
        3 * scale ^ 2 - m_count.toNat * m_recInvSqrt.toNat ^ 2 := by
    rw [UInt64.toNat_sub_of_le, hproduct]
    · rfl
    · rw [UInt64.le_iff_toNat_le, hproduct]
      exact hle
  -- the product of the two fits in 64 bits, since a quarter was taken first
  generalize hX : 3 * scale ^ 2 - m_count.toNat * m_recInvSqrt.toNat ^ 2 = X at hval
  have hX₃ : X / 4 * m_recInvSqrt.toNat * 2 ^ 16 < 2 ^ 64 := by
    have hquarter : X / 4 ≤ 3 * 2 ^ 30 := by
      rw [← hX]
      exact Nat.div_le_of_le_mul (Nat.sub_le _ _)
    nlinarith
  have hstep : InverseSqrt.step scale m_count.toNat m_recInvSqrt.toNat =
      X / 4 * m_recInvSqrt.toNat / 2 ^ 31 := by
    rw [← hX]
    rfl
  unfold NewtonStep
  dsimp only
  rw [UInt64.toNat_toUInt16, toNat_shiftRight_eq _ (by decide), toNat_shiftRight_eq _ (by decide),
    UInt64.toNat_mul, toNat_shiftRight_eq _ (by decide), hval, UInt32.toNat_toUInt64, toNat_invsqrt]
  change X / 4 * (m_recInvSqrt.toNat * 2 ^ 16) % 2 ^ 64 / 2 ^ 31 / 2 ^ 16 % 2 ^ 16 = _
  rw [← Nat.mul_assoc, Nat.mod_eq_of_lt hX₃, Nat.div_div_eq_div_mul,
    Nat.mul_div_mul_right _ _ (by norm_num), ← hstep]
  exact Nat.mod_eq_of_lt hlt

/-- A Newton step from an estimate that is not above the inverse square root for one less. -/
theorem newtonStep_spec (hpos : 0 < m_recInvSqrt.toNat)
    (hle : m_count.toNat * m_recInvSqrt.toNat ^ 2 ≤ scale ^ 2 + m_recInvSqrt.toNat ^ 2)
    (hcount : m_recInvSqrt.toNat = 1 ∨ 0 < m_count.toNat) :
    m_count.toNat * m_recInvSqrt.toNat ^ 2 ≤ 3 * scale ^ 2 ∧
      (NewtonStep m_count m_recInvSqrt).toNat =
        InverseSqrt.step scale m_count.toNat m_recInvSqrt.toNat ∧
      0 < (NewtonStep m_count m_recInvSqrt).toNat ∧
      m_count.toNat * (NewtonStep m_count m_recInvSqrt).toNat ^ 2 ≤ scale ^ 2 ∧
      (m_recInvSqrt.toNat = 1 → (NewtonStep m_count m_recInvSqrt).toNat = 1) := by
  have hr : m_recInvSqrt.toNat < scale := m_recInvSqrt.toNat_lt
  have hc : m_count.toNat ≤ scale ^ 2 := m_count.toNat_lt.le
  have heven : 2 ∣ scale := by decide
  have hle₃ : m_count.toNat * m_recInvSqrt.toNat ^ 2 ≤ 3 * scale ^ 2 := by nlinarith
  have hone : m_recInvSqrt.toNat = 1 →
      InverseSqrt.step scale m_count.toNat m_recInvSqrt.toNat = 1 := by
    intro hr₁
    rw [hr₁]
    exact InverseSqrt.step_one heven hc (by decide)
  have hlt : InverseSqrt.step scale m_count.toNat m_recInvSqrt.toNat < scale := by
    rcases hcount with hr₁ | hcount
    · rw [hone hr₁]
      decide
    · exact InverseSqrt.step_lt heven hr hcount hle₃
  have heq := toNat_newtonStep hle₃ hlt
  refine ⟨hle₃, heq, ?_, ?_, ?_⟩
  · rw [heq]
    exact InverseSqrt.step_pos hpos hr hc hle
  · rw [heq]
    exact InverseSqrt.mul_step_sq_le heven (by decide) hle₃
  · intro hr₁
    rw [heq]
    exact hone hr₁

/-! ### What is said of a run -/

/-- What is said of the arithmetic: a Newton step is the exact one, the product it subtracts is at
most `3 * 2 ^ 32`, and it ends at an estimate that is not zero and not above the inverse square
root; and the next drop is `interval * m_recInvSqrt / 2 ^ 16` later. -/
def CoDelAction.Accurate (c : CoDelConfig) : CoDelAction → Prop
  | .newtonStep m_count before after =>
    m_count.toNat * before.toNat ^ 2 ≤ 3 * 2 ^ 32 ∧
      after.toNat = InverseSqrt.step scale m_count.toNat before.toNat ∧
      1 ≤ after.toNat ∧ (after.toNat : ℝ) * √m_count.toNat ≤ scale
  | .controlLaw t m_recInvSqrt dropNext =>
    1 ≤ m_recInvSqrt.toNat ∧
      (dropNext - t).toNat = (Time2CoDel c.m_interval).toNat * m_recInvSqrt.toNat / 2 ^ 16
  | _ => True

namespace CoDelQueueDisc

/-- The estimate in a state. -/
def EstimateInRange (s : CoDelQueueDisc) : Prop :=
  1 ≤ s.m_recInvSqrt.toNat ∧ s.m_recInvSqrt.toNat ≤ 65535 ∧
    (s.m_recInvSqrt.toNat : ℝ) * √s.m_count.toNat ≤ scale

/-- What a run keeps. One part is an estimate for any count; the count at which the drops last
started is not above the count unless the latter has wrapped around. -/
structure Estimate (s : CoDelQueueDisc) : Prop where
  pos : 0 < s.m_recInvSqrt.toNat
  le : s.m_count.toNat * s.m_recInvSqrt.toNat ^ 2 ≤ scale ^ 2
  last : s.m_recInvSqrt.toNat = 1 ∨ s.m_lastCount.toNat ≤ s.m_count.toNat

variable {c : CoDelConfig} {s s' : CoDelQueueDisc} {now : ℕ}

/-- An estimate is in range. -/
theorem Estimate.inRange (h : s.Estimate) : s.EstimateInRange :=
  ⟨h.pos, Nat.le_of_lt_succ s.m_recInvSqrt.toNat_lt, InverseSqrt.mul_sqrt_le h.le⟩

/-- The invariant is about three fields. -/
theorem Estimate.congr (h : s.Estimate) (hcount : s'.m_count = s.m_count)
    (hlast : s'.m_lastCount = s.m_lastCount) (hestimate : s'.m_recInvSqrt = s.m_recInvSqrt) :
    s'.Estimate := by
  refine ⟨?_, ?_, ?_⟩
  · rw [hestimate]
    exact h.pos
  · rw [hestimate, hcount]
    exact h.le
  · rw [hestimate, hcount, hlast]
    exact h.last

/-- What the steps of the algorithm have in common: the invariant and what was done. -/
def Keeps (c : CoDelConfig) (s : CoDelQueueDisc) (actions : List CoDelAction) : Prop :=
  s.Estimate ∧ ∀ action ∈ actions, action.Accurate c

/-- Accurate actions in front of others. -/
theorem Keeps.append {actions actions' : List CoDelAction}
    (h : ∀ action ∈ actions, action.Accurate c)
    (h' : Keeps c s actions') : Keeps c s (actions ++ actions') :=
  ⟨h'.1, fun action haction => (mem_append.mp haction).elim (h action) (h'.2 action)⟩

/-- A drop in front of accurate actions. -/
theorem Keeps.cons_drop {actions : List CoDelAction} (h : Keeps c s actions)
    (item : QueueDiscItem) : Keeps c s (.dropAfterDequeue item :: actions) := by
  have hdrop : ∀ action ∈ [CoDelAction.dropAfterDequeue item], action.Accurate c := by
    intro action haction
    cases mem_singleton.mp haction
    trivial
  exact Keeps.append hdrop h

/-- A Newton step for a count that the estimate is not above, or nearly so. -/
theorem Estimate.newton {m_count : UInt32} (m_lastCount : UInt32)
    (hpos : 0 < s.m_recInvSqrt.toNat)
    (hle : m_count.toNat * s.m_recInvSqrt.toNat ^ 2 ≤ scale ^ 2 + s.m_recInvSqrt.toNat ^ 2)
    (hcount : s.m_recInvSqrt.toNat = 1 ∨ 0 < m_count.toNat)
    (hlast : s.m_recInvSqrt.toNat = 1 ∨ m_lastCount.toNat ≤ m_count.toNat) :
    Keeps c { (s.newton m_count).1 with m_lastCount := m_lastCount } (s.newton m_count).2 := by
  obtain ⟨hle₃, heq, hpos', hle', hone⟩ := newtonStep_spec hpos hle hcount
  refine ⟨⟨hpos', hle', hlast.imp_left hone⟩, ?_⟩
  intro action haction
  cases mem_singleton.mp haction
  exact ⟨hle₃.trans (by norm_num [scale]), heq, hpos',
    InverseSqrt.mul_sqrt_le hle'⟩

/-- One more drop. The count only wraps around when the estimate has come down to one part. -/
theorem Estimate.increment (h : s.Estimate) :
    Keeps c (s.newton (s.m_count + 1)).1 (s.newton (s.m_count + 1)).2 := by
  have hadd : (s.m_count + 1).toNat = (s.m_count.toNat + 1) % 2 ^ 32 := UInt32.toNat_add _ _
  obtain hone | htwo : s.m_recInvSqrt.toNat = 1 ∨ 2 ≤ s.m_recInvSqrt.toNat := by
    have := h.pos
    omega
  · have hlt : (s.m_count + 1).toNat < scale ^ 2 := (s.m_count + 1).toNat_lt
    refine Estimate.newton (s := s) s.m_lastCount h.pos ?_ (.inl hone) (.inl hone)
    rw [hone]
    omega
  · -- four times the count is at most the square of the scale
    have hsmall : s.m_count.toNat * 2 ^ 2 ≤ scale ^ 2 :=
      (Nat.mul_le_mul_left _ (Nat.pow_le_pow_left htwo 2)).trans h.le
    have hnowrap : (s.m_count + 1).toNat = s.m_count.toNat + 1 := by
      rw [hadd]
      exact Nat.mod_eq_of_lt (by norm_num [scale] at hsmall; omega)
    have hlast : s.m_lastCount.toNat ≤ (s.m_count + 1).toNat := by
      have := h.last
      omega
    refine Estimate.newton (s := s) s.m_lastCount h.pos ?_
      (.inr (by omega)) (.inr hlast)
    rw [hnowrap, Nat.add_mul, Nat.one_mul]
    exact Nat.add_le_add_right h.le _

/-- The next drop is scheduled. -/
theorem Estimate.schedule (h : s.Estimate) (t : UInt32) :
    Keeps c (s.schedule c t).1 (s.schedule c t).2 := by
  refine ⟨h.congr rfl rfl rfl, ?_⟩
  intro action haction
  cases mem_singleton.mp haction
  refine ⟨h.pos, ?_⟩
  unfold ControlLaw
  rw [UInt32.add_comm, UInt32.add_sub_cancel, toNat_reciprocalDivide]

/-- Whether it is OK to drop a packet changes nothing of it. -/
theorem Estimate.okToDrop (h : s.Estimate) (item : Option QueueDiscItem) :
    (s.OkToDrop c item now).1.Estimate := by
  unfold OkToDrop
  cases item with
  | none => exact h.congr rfl rfl rfl
  | some item =>
    dsimp only
    split_ifs
    · exact h.congr rfl rfl rfl
    · exact h.congr rfl rfl rfl
    · exact h

/-! ### Dropping -/

/-- The loop. The induction is on the packets that are left in the queue. -/
theorem dropLoop_keeps (queue : List QueueDiscItem) (h : s.Estimate) (item : QueueDiscItem) :
    Keeps c (dropLoop c now queue s item).1 (dropLoop c now queue s item).2.1 := by
  induction queue generalizing s item with
  | nil =>
    unfold dropLoop
    split_ifs
    · obtain ⟨hnewton, hactions⟩ := h.increment (c := c)
      have hexamined : (OkToDrop c (s.newton (s.m_count + 1)).1 none now).1.Estimate :=
        hnewton.okToDrop none
      have hleft : Estimate { (OkToDrop c (s.newton (s.m_count + 1)).1 none now).1 with
          m_dropping := false } := hexamined.congr rfl rfl rfl
      exact Keeps.cons_drop ⟨hleft, hactions⟩ item
    · exact ⟨h, fun _ haction => absurd haction not_mem_nil⟩
  | cons item' rest ih =>
    unfold dropLoop
    dsimp only
    obtain ⟨hnewton, hactions⟩ := h.increment (c := c)
    generalize s.newton (s.m_count + 1) = stepped at hnewton hactions
    have htaken : Estimate { stepped.1 with queue := rest } := hnewton.congr rfl rfl rfl
    have hexamined : (OkToDrop c { stepped.1 with queue := rest } (some item') now).1.Estimate :=
      htaken.okToDrop (some item')
    generalize OkToDrop c { stepped.1 with queue := rest } (some item') now = examined at hexamined
    split_ifs
    · obtain ⟨hschedule, hscheduled⟩ := hexamined.schedule (c := c) examined.1.m_dropNext
      have hfurther := Keeps.append hactions (Keeps.append hscheduled (ih hschedule item'))
      rw [← append_assoc] at hfurther
      exact hfurther.cons_drop item
    · have hleft : Estimate { examined.1 with m_dropping := false } := hexamined.congr rfl rfl rfl
      exact Keeps.cons_drop ⟨hleft, hactions⟩ item
    · exact ⟨h, fun _ haction => absurd haction not_mem_nil⟩

/-- The dropping state is entered, with a smaller count for an old estimate or with a new one. -/
theorem enterDropping_keeps (h : s.Estimate) :
    Keeps c (enterDropping c now s).1 (enterDropping c now s).2 := by
  unfold enterDropping
  dsimp only
  split_ifs with hold
  · -- the drops since the dropping state was last entered
    have hdelta : 0 < (s.m_count - s.m_lastCount).toNat := by
      refine Nat.pos_of_ne_zero fun hzero => ?_
      have hzero' : s.m_count - s.m_lastCount = 0 := UInt32.toNat_inj.mp hzero
      rw [hzero'] at hold
      exact absurd hold.1 (by decide)
    have hle : (s.m_count - s.m_lastCount).toNat * s.m_recInvSqrt.toNat ^ 2 ≤
        scale ^ 2 + s.m_recInvSqrt.toNat ^ 2 := by
      rcases h.last with hone | hlast
      · have hlt : (s.m_count - s.m_lastCount).toNat < scale ^ 2 :=
          (s.m_count - s.m_lastCount).toNat_lt
        rw [hone]
        omega
      · have hsub : (s.m_count - s.m_lastCount).toNat ≤ s.m_count.toNat := by
          rw [UInt32.toNat_sub_of_le _ _ (UInt32.le_iff_toNat_le.mpr hlast)]
          exact Nat.sub_le _ _
        exact (Nat.mul_le_mul_right _ hsub).trans (h.le.trans (Nat.le_add_right _ _))
    obtain ⟨hnewton, hactions⟩ := Estimate.newton (c := c)
      (s.m_count - s.m_lastCount) h.pos hle (.inr hdelta) (.inr le_rfl)
    exact Keeps.append hactions (hnewton.schedule _)
  · have hfresh : Estimate { s with
        m_count := 1, m_recInvSqrt := recInvSqrtMax, m_lastCount := 1 } :=
      ⟨(by decide : 0 < recInvSqrtMax.toNat),
        (by decide : (1 : UInt32).toNat * recInvSqrtMax.toNat ^ 2 ≤ scale ^ 2), .inr le_rfl⟩
    exact hfresh.schedule _

/-- Dequeueing keeps the estimate and acts accurately. -/
theorem doDequeue_keeps (h : s.Estimate) :
    Keeps c (s.DoDequeue c now).1 (s.DoDequeue c now).2.1 := by
  unfold DoDequeue
  split
  · exact ⟨h.congr rfl rfl rfl, fun _ haction => absurd haction not_mem_nil⟩
  · next item rest hqueue =>
    dsimp only
    have htaken : Estimate { s with queue := rest } := h.congr rfl rfl rfl
    have hexamined : (OkToDrop c { s with queue := rest } (some item) now).1.Estimate :=
      htaken.okToDrop (some item)
    generalize OkToDrop c { s with queue := rest } (some item) now = examined at hexamined
    split_ifs
    · exact dropLoop_keeps rest hexamined item
    · exact ⟨hexamined.congr rfl rfl rfl, fun _ haction => absurd haction not_mem_nil⟩
    · -- the first packet is dropped, and the dropping state entered
      have hnext : Estimate { examined.1 with queue := rest.tail } := hexamined.congr rfl rfl rfl
      have hfurther :
          (OkToDrop c { examined.1 with queue := rest.tail } rest.head? now).1.Estimate :=
        hnext.okToDrop rest.head?
      generalize OkToDrop c { examined.1 with queue := rest.tail } rest.head? now = further
        at hfurther
      have hentered : Estimate { further.1 with m_dropping := true } := hfurther.congr rfl rfl rfl
      exact (enterDropping_keeps hentered).cons_drop item
    · exact ⟨hexamined, fun _ haction => absurd haction not_mem_nil⟩

/-- Enqueueing acts accurately. -/
theorem doEnqueue_keeps {item : QueueDiscItem} {accepted : Bool} {actions : List CoDelAction}
    (h : s.Estimate) (hok : s.DoEnqueue c item accepted = .ok (s', actions)) :
    Keeps c s' actions := by
  unfold DoEnqueue at hok
  obtain ⟨full, -, hok⟩ := ExceptFold.bind_eq_ok_iff.mp hok
  have hdropped : Keeps c s [.dropBeforeEnqueue item] :=
    ⟨h, fun action haction => by cases mem_singleton.mp haction; trivial⟩
  split_ifs at hok
  · cases hok
    exact hdropped
  · cases hok
    exact ⟨h.congr rfl rfl rfl, fun _ haction => absurd haction not_mem_nil⟩
  · cases hok
    exact hdropped

/-- Every call acts accurately. -/
theorem step_keeps {call : CoDelCall} {actions : List CoDelAction} (h : s.Estimate)
    (hok : s.step c call = .ok (s', actions)) : Keeps c s' actions := by
  cases call with
  | enqueue now size accepted => exact doEnqueue_keeps h hok
  | dequeue now =>
    have hkeeps : Keeps c (s.DoDequeue c now).1 (s.DoDequeue c now).2.1 := doDequeue_keeps h
    obtain ⟨hestimate, hactions⟩ := hkeeps
    cases hok
    refine ⟨hestimate, fun action haction => ?_⟩
    rcases mem_append.mp haction with haction | haction
    · exact hactions action haction
    · cases mem_singleton.mp haction
      trivial

/-- Over any calls, no Newton step wraps around, and the estimates are not above the inverse square
root. -/
theorem estimates_accurate (c : CoDelConfig) (calls : List CoDelCall) :
    EstimateInRange create ∧
      TracedRun.Always (step c) (fun s h => s.EstimateInRange ∧ ∀ action ∈ h, action.Accurate c)
        create [] calls := by
  have hcreate : create.Estimate := ⟨by decide, by decide, .inr le_rfl⟩
  refine ⟨hcreate.inRange, TracedRun.always_of_meets (J := Keeps c)
    (fun s h call s' actions hk _ hok => ?_) (fun s h hk => ⟨hk.1.inRange, hk.2⟩)
    ⟨hcreate, fun _ haction => absurd haction not_mem_nil⟩ (TracedRun.meets_true calls)⟩
  exact Keeps.append hk.2 (step_keeps hk.1 hok)

end CoDelQueueDisc
end Ns3Joined.TrafficControl
