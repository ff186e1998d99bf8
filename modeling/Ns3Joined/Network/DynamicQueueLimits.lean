import Mathlib.Algebra.Order.Ring.Int
import Ns3Joined.Fault
import Ns3Joined.Library.ExceptFold
import Ns3Joined.Library.TracedRun

/-!
# Dynamic queue limits

`DynamicQueueLimits` bounds how much may be queued and not yet completed. It counts what was ever
queued and what was ever completed in words of 32 bits that wrap around, and keeps the limit added
to the second count, so that `Available` is one difference. The limit itself is adjusted when
something is completed: it grows when the queue starved, and shrinks by the least slack seen for a
while.

Differences are taken as signed ones, and the language gives no meaning to one that is out of range.

* `Reset`, `Queued`, `Completed`, `Available`: the operations.
* `Correct`: `Available` is what the limit leaves, and the limit is between its bounds.
* `Sound`: the calls that keep it so.
-/

namespace Ns3Joined.Network

def UINTMAX : UInt32 := 0xffffffff

def DQL_MAX_OBJECT : UInt32 := UINTMAX / 16

def DQL_MAX_LIMIT : UInt32 := UINTMAX / 2 - DQL_MAX_OBJECT

/-- The attributes. That of the maximum has a checker. -/
structure DqlConfig where
  m_maxLimit : UInt32
  m_minLimit : UInt32
  m_slackHoldTime : ℤ
  maxLimit_le : m_maxLimit ≤ DQL_MAX_LIMIT

structure DynamicQueueLimits where
  m_numQueued : UInt32
  m_adjLimit : UInt32
  m_lastObjCnt : UInt32
  m_limit : UInt32
  m_numCompleted : UInt32
  m_prevOvlimit : UInt32
  m_prevNumQueued : UInt32
  m_prevLastObjCnt : UInt32
  m_lowestSlack : UInt32
  m_slackStartTime : ℤ
deriving DecidableEq, Repr

/-- What is called, and when where it matters. -/
inductive DqlCall
  | reset (now : ℤ)
  | queued (count : UInt32)
  | completed (now : ℤ) (count : UInt32)
deriving DecidableEq, Repr

/-- A signed difference of two words is in range. -/
def DifferenceFits (a b : UInt32) : Prop :=
  -2 ^ 31 ≤ a.toInt32.toInt - b.toInt32.toInt ∧ a.toInt32.toInt - b.toInt32.toInt < 2 ^ 31

instance (a b : UInt32) : Decidable (DifferenceFits a b) := inferInstanceAs (Decidable (_ ∧ _))

/-- `DynamicQueueLimits::Posdiff`, with the conversions from and to words. -/
def Posdiff (a b : UInt32) : Except Fault UInt32 :=
  if DifferenceFits a b then .ok (.ofInt (max (a.toInt32.toInt - b.toInt32.toInt) 0))
  else .error .undefined

namespace DynamicQueueLimits

/-- `DynamicQueueLimits::Reset`. -/
def Reset (s : DynamicQueueLimits) (now : ℤ) : DynamicQueueLimits :=
  { s with
    m_limit := 0
    m_numQueued := 0
    m_numCompleted := 0
    m_lastObjCnt := 0
    m_prevNumQueued := 0
    m_prevLastObjCnt := 0
    m_prevOvlimit := 0
    m_lowestSlack := UINTMAX
    m_slackStartTime := now }

/-- `DynamicQueueLimits::Available`. -/
def Available (s : DynamicQueueLimits) : Int32 := (s.m_adjLimit - s.m_numQueued).toInt32

/-- `DynamicQueueLimits::Queued`. -/
def Queued (s : DynamicQueueLimits) (count : UInt32) : Except Fault DynamicQueueLimits :=
  if count ≤ DQL_MAX_OBJECT then
    .ok { s with m_lastObjCnt := count, m_numQueued := s.m_numQueued + count }
  else .error .abort

/-! ### Completion -/

/-- `ovlimit`: how much is in the queue beyond the limit. -/
def ovlimit (s : DynamicQueueLimits) : Except Fault UInt32 :=
  Posdiff (s.m_numQueued - s.m_numCompleted) s.m_limit

/-- `allPrevCompleted`: all that had been queued at the previous completion is completed. -/
def allPrevCompleted (s : DynamicQueueLimits) (completed : UInt32) : Bool :=
  (completed - s.m_prevNumQueued).toInt32.toInt ≥ 0

/-- The queue is considered starved. -/
def starved (s : DynamicQueueLimits) (ovlimit completed : UInt32) : Bool :=
  (ovlimit ≠ 0 && s.m_numQueued - completed = 0) ||
    (s.m_prevOvlimit ≠ 0 && s.allPrevCompleted completed)

/-- The queue has been busy in the whole interval. -/
def busy (s : DynamicQueueLimits) (completed : UInt32) : Bool :=
  s.m_numQueued - completed ≠ 0 && s.m_prevNumQueued - s.m_numCompleted ≠ 0 &&
    !s.allPrevCompleted completed

/-- The limit, the least slack and since when it is taken. -/
structure Adjustment where
  limit : UInt32
  lowestSlack : UInt32
  slackStartTime : ℤ

/-- The portion of objects in the last queuing operation that was not part of a previous over-limit.
-/
def slackLastObjs (s : DynamicQueueLimits) : Except Fault UInt32 :=
  if s.m_prevOvlimit ≠ 0 then Posdiff s.m_prevLastObjCnt s.m_prevOvlimit else .ok 0

/-- `m_lowestSlack` with one more slack. -/
def lowerSlack (s : DynamicQueueLimits) (slack : UInt32) : UInt32 :=
  if slack < s.m_lowestSlack then slack else s.m_lowestSlack

/-- How `Completed` adjusts the limit, before it enforces the bounds. -/
def adjust (c : DqlConfig) (s : DynamicQueueLimits) (now : ℤ) (ovlimit completed : UInt32) :
    Except Fault Adjustment :=
  if s.starved ovlimit completed then do
    -- increase the limit by what was sent and completed in the last interval
    let sent ← Posdiff completed s.m_prevNumQueued
    return ⟨s.m_limit + (sent + s.m_prevOvlimit), UINTMAX, now⟩
  else if s.busy completed then do
    -- check if the limit can be decreased
    let slack ← Posdiff (s.m_limit + s.m_prevOvlimit) (2 * (completed - s.m_numCompleted))
    let slackLastObjs ← s.slackLastObjs
    let lowestSlack := s.lowerSlack (max slack slackLastObjs)
    if now > s.m_slackStartTime + c.m_slackHoldTime then
      let limit ← Posdiff s.m_limit lowestSlack
      return ⟨limit, UINTMAX, now⟩
    else return ⟨s.m_limit, lowestSlack, s.m_slackStartTime⟩
  else .ok ⟨s.m_limit, s.m_lowestSlack, s.m_slackStartTime⟩

/-- `DynamicQueueLimits::Completed`. -/
def Completed (c : DqlConfig) (s : DynamicQueueLimits) (now : ℤ) (count : UInt32) :
    Except Fault DynamicQueueLimits :=
  -- can't complete more than what's in queue
  if count ≤ s.m_numQueued - s.m_numCompleted then do
    let completed := s.m_numCompleted + count
    let ovlimit ← s.ovlimit
    let adjustment ← s.adjust c now ovlimit completed
    -- enforce bounds on limit
    let limit := min (max adjustment.limit c.m_minLimit) c.m_maxLimit
    return {
      m_numQueued := s.m_numQueued
      m_adjLimit := limit + completed
      m_lastObjCnt := s.m_lastObjCnt
      m_limit := limit
      m_numCompleted := completed
      m_prevOvlimit := if limit ≠ s.m_limit then 0 else ovlimit
      m_prevNumQueued := s.m_numQueued
      m_prevLastObjCnt := s.m_lastObjCnt
      m_lowestSlack := adjustment.lowestSlack
      m_slackStartTime := adjustment.slackStartTime }
  else .error .abort

/-- One call, which goes into the history. -/
def step (c : DqlConfig) (s : DynamicQueueLimits) (call : DqlCall) :
    Except Fault (DynamicQueueLimits × List DqlCall) :=
  match call with
  | .reset now => .ok (s.Reset now, [call])
  | .queued count => (s.Queued count).map fun s' => (s', [call])
  | .completed now count => (s.Completed c now count).map fun s' => (s', [call])

/-! ### What the operations are for -/

/-- The amount that is outstanding after one more call. -/
def account (amount : ℤ) : DqlCall → ℤ
  | .reset _ => 0
  | .queued count => amount + count.toNat
  | .completed _ count => amount - count.toNat

/-- The amount that is outstanding: queued minus completed since the last reset. -/
def outstanding (h : List DqlCall) : ℤ := h.foldl account 0

/-- `Available` is what the limit leaves, and after a completion the limit is between its bounds. -/
structure Correct (c : DqlConfig) (s : DynamicQueueLimits) (h : List DqlCall) : Prop where
  available : s.Available.toInt = s.m_limit.toNat - outstanding h
  bounded : ∀ now count, h.getLast? = some (.completed now count) →
    c.m_minLimit ≤ s.m_limit ∧ s.m_limit ≤ c.m_maxLimit

/-- What may be called: no object is too large, and no more is completed than is outstanding. -/
def Allowed (h : List DqlCall) : DqlCall → Prop
  | .reset _ => True
  | .queued count => count ≤ DQL_MAX_OBJECT
  | .completed _ count => (count.toNat : ℤ) ≤ outstanding h

/-- The calls that keep it correct: a reset finds the adjusted limit at zero; what is left of the
limit does not fall out of the range of an `int32_t`; and at a completion the bounds are in order
and the signed differences are in range. -/
def Sound (c : DqlConfig) (s : DynamicQueueLimits) (h : List DqlCall) : DqlCall → Prop
  | .reset _ => s.m_adjLimit = 0
  | .queued count => outstanding h + count.toNat ≤ s.m_limit.toNat + 2 ^ 31
  | .completed _ count =>
    c.m_minLimit ≤ c.m_maxLimit ∧ outstanding h < 2 ^ 31 ∧
      ∀ ovlimit ∈ s.ovlimit.toOption,
        (s.starved ovlimit (s.m_numCompleted + count) →
          DifferenceFits (s.m_numCompleted + count) s.m_prevNumQueued) ∧
        (¬ s.starved ovlimit (s.m_numCompleted + count) → s.busy (s.m_numCompleted + count) →
          DifferenceFits (s.m_limit + s.m_prevOvlimit) (2 * count))

instance (h : List DqlCall) (call : DqlCall) : Decidable (Allowed h call) :=
  match call with
  | .reset _ => inferInstanceAs (Decidable True)
  | .queued count => inferInstanceAs (Decidable (count ≤ DQL_MAX_OBJECT))
  | .completed _ count => inferInstanceAs (Decidable ((count.toNat : ℤ) ≤ outstanding h))

instance (c : DqlConfig) (s : DynamicQueueLimits) (h : List DqlCall) (call : DqlCall) :
    Decidable (Sound c s h call) :=
  match call with
  | .reset _ => inferInstanceAs (Decidable (s.m_adjLimit = 0))
  | .queued count => inferInstanceAs
    (Decidable (outstanding h + count.toNat ≤ s.m_limit.toNat + 2 ^ 31))
  | .completed _ _ =>
    -- the one value there is, if any, and not all words
    @instDecidableAnd _ _ inferInstance
      (@instDecidableAnd _ _ inferInstance (Option.decidableForallMem _))

end DynamicQueueLimits
end Ns3Joined.Network

/-!
## What is available under a dynamic queue limit

The counts of what was queued and of what was completed wrap around, but their difference does not,
while less than `2 ^ 31` is outstanding. A completion adds the limit to the second count and so
makes `Available` right, whatever the limit was adjusted to. A reset sets both counts and the limit
to zero and leaves the adjusted limit as it was.

* `Kept`: the invariant, and `Kept.correct`.
* `adjust_ok`: the signed differences that are not in the condition are always in range.
* `Kept.step`, `throughout_correct`: over any calls.
* `not_throughout_reset`: what was available before a reset is still so after it.
-/

namespace Ns3Joined.Network

/-! ### Words -/

/-- A word from an integer is its remainder. -/
theorem toNat_ofInt (z : ℤ) : ((UInt32.ofInt z).toNat : ℤ) = z % 2 ^ 32 := by
  unfold UInt32.ofInt
  rw [UInt32.toNat_ofNat']
  omega

/-- A word read as a signed one. -/
theorem toInt_eq (x : UInt32) :
    x.toInt32.toInt = if x.toNat < 2 ^ 31 then (x.toNat : ℤ) else x.toNat - 2 ^ 32 := by
  have hbits : x.toInt32.toInt = x.toBitVec.toInt := rfl
  rw [hbits, BitVec.toInt_eq_toNat_cond]
  change (if 2 * x.toNat < 2 ^ 32 then (x.toNat : ℤ) else x.toNat - (2 ^ 32 : ℕ)) = _
  split_ifs <;> omega

/-- A word read as a signed number is the number in range that it is congruent to. -/
theorem toInt_eq_of_emod {x : UInt32} {z : ℤ} (hle : -2 ^ 31 ≤ z) (hlt : z < 2 ^ 31)
    (hx : (x.toNat : ℤ) = z % 2 ^ 32) : x.toInt32.toInt = z := by
  rw [toInt_eq]
  split_ifs <;> omega

variable {a b x : UInt32}

/-- Small words are the same signed and unsigned. -/
theorem toInt_of_lt (hlt : x.toNat < 2 ^ 31) : x.toInt32.toInt = x.toNat := by
  rw [toInt_eq, if_pos hlt]

/-- The signed difference of two words below `2 ^ 31` is in range. -/
theorem differenceFits_of_lt (ha : a.toNat < 2 ^ 31) (hb : b.toNat < 2 ^ 31) :
    DifferenceFits a b := by
  unfold DifferenceFits
  rw [toInt_of_lt ha, toInt_of_lt hb]
  omega

/-- What a difference in range comes out as is below `2 ^ 31`. -/
theorem Posdiff_ok (h : DifferenceFits a b) : ∃ x, Posdiff a b = .ok x ∧ x.toNat < 2 ^ 31 := by
  refine ⟨_, if_pos h, ?_⟩
  have hmod := toNat_ofInt (max (a.toInt32.toInt - b.toInt32.toInt) 0)
  have hlt := h.2
  omega

namespace DynamicQueueLimits

open List

/-! ### The invariant -/

/-- What is kept: the difference of the counts is what is outstanding, and the adjusted limit is the
limit and the second count. The rest keeps the signed differences in range. -/
structure Kept (c : DqlConfig) (s : DynamicQueueLimits) (h : List DqlCall) : Prop where
  adjLimit : s.m_adjLimit = s.m_limit + s.m_numCompleted
  count : ((s.m_numQueued - s.m_numCompleted).toNat : ℤ) = outstanding h % 2 ^ 32
  nonneg : 0 ≤ outstanding h
  range : outstanding h ≤ s.m_limit.toNat + 2 ^ 31
  limit_lt : s.m_limit.toNat < 2 ^ 31
  prevLastObjCnt_lt : s.m_prevLastObjCnt.toNat < 2 ^ 31
  lastObjCnt_lt : s.m_lastObjCnt.toNat < 2 ^ 31
  prevOvlimit_lt : s.m_prevOvlimit.toNat < 2 ^ 31
  bounded : ∀ now count, h.getLast? = some (.completed now count) →
    c.m_minLimit ≤ s.m_limit ∧ s.m_limit ≤ c.m_maxLimit

variable {c : DqlConfig} {s s' : DynamicQueueLimits} {h : List DqlCall} {now : ℤ} {count : UInt32}

/-- What is kept is correct. -/
theorem Kept.correct (hk : Kept c s h) : Correct c s h := by
  refine ⟨?_, hk.bounded⟩
  have hrange := hk.range
  have hnonneg := hk.nonneg
  have hlimit := hk.limit_lt
  refine toInt_eq_of_emod (by omega) (by omega) ?_
  -- the second count cancels
  have hcancel : s.m_adjLimit - s.m_numQueued = s.m_limit - (s.m_numQueued - s.m_numCompleted) := by
    rw [hk.adjLimit]
    grind
  have hcount := hk.count
  rw [hcancel, UInt32.toNat_sub]
  omega

/-- What is outstanding after one more call. -/
theorem outstanding_append (h : List DqlCall) (call : DqlCall) :
    outstanding (h ++ [call]) = account (outstanding h) call := by
  unfold outstanding
  rw [foldl_append, foldl_cons, foldl_nil]

/-- The last call of a history. -/
theorem getLast?_eq {call call' : DqlCall} (hlast : (h ++ [call]).getLast? = some call') :
    call = call' := by
  rw [getLast?_append, getLast?_singleton] at hlast
  exact Option.some.inj hlast

/-! ### What the operations keep -/

/-- A reset, in any state in which the adjusted limit happens to be zero. -/
theorem kept_reset (hzero : s.m_adjLimit = 0) : Kept c (s.Reset now) (h ++ [.reset now]) := by
  have hout : outstanding (h ++ [.reset now]) = 0 := outstanding_append h (.reset now)
  have hlt : (0 : UInt32).toNat < 2 ^ 31 := by decide
  refine ⟨?_, ?_, ?_, ?_, hlt, hlt, hlt, hlt, fun _ _ hlast => nomatch getLast?_eq hlast⟩
  · exact hzero.trans (by decide : (0 : UInt32) = 0 + 0)
  · rw [hout]
    exact (by decide : (((0 : UInt32) - 0).toNat : ℤ) = 0 % 2 ^ 32)
  · rw [hout]
  · rw [hout]
    omega

/-- `Queued` within the bound succeeds and keeps the account. -/
theorem Kept.queued (hk : Kept c s h) (hallowed : count ≤ DQL_MAX_OBJECT)
    (hsound : outstanding h + count.toNat ≤ s.m_limit.toNat + 2 ^ 31) :
    ∃ s', s.Queued count = .ok s' ∧ Kept c s' (h ++ [.queued count]) := by
  refine ⟨_, if_pos hallowed, ?_⟩
  have hout : outstanding (h ++ [.queued count]) = outstanding h + count.toNat :=
    outstanding_append h (.queued count)
  have hobject : count.toNat < 2 ^ 31 :=
    (UInt32.le_iff_toNat_le.mp hallowed).trans_lt (by decide)
  refine ⟨hk.adjLimit, ?_, ?_, ?_, hk.limit_lt, hk.prevLastObjCnt_lt, hobject,
    hk.prevOvlimit_lt, fun _ _ hlast => nomatch getLast?_eq hlast⟩
  · have hcount := hk.count
    have hsum : s.m_numQueued + count - s.m_numCompleted =
        s.m_numQueued - s.m_numCompleted + count := by grind
    dsimp only
    rw [hout, hsum, UInt32.toNat_add]
    omega
  · rw [hout]
    have hnonneg := hk.nonneg
    omega
  · rw [hout]
    exact hsound

/-- The slack of the last completion is computed without an assertion. -/
theorem Kept.slackLastObjs_ok (hk : Kept c s h) :
    ∃ objs, s.slackLastObjs = .ok objs ∧ objs.toNat < 2 ^ 31 := by
  unfold slackLastObjs
  split_ifs
  · exact Posdiff_ok (differenceFits_of_lt hk.prevLastObjCnt_lt hk.prevOvlimit_lt)
  · exact ⟨0, rfl, by decide⟩

/-- The least slack is at most the one just found. -/
theorem lowerSlack_lt {slack slack' : UInt32} (hlt : slack.toNat < 2 ^ 31)
    (hlt' : slack'.toNat < 2 ^ 31) : (s.lowerSlack (max slack slack')).toNat < 2 ^ 31 := by
  have hmax : (max slack slack').toNat < 2 ^ 31 := by
    rw [UInt32.toNat_max]
    exact max_lt hlt hlt'
  unfold lowerSlack
  split_ifs with hless
  · exact hmax
  · rw [UInt32.lt_iff_toNat_lt] at hless
    omega

/-- The differences in the adjustment are in range where the two of the condition are. -/
theorem adjust_ok {ovlimit completed : UInt32} (hk : Kept c s h)
    (hstarved : s.starved ovlimit completed → DifferenceFits completed s.m_prevNumQueued)
    (hbusy : ¬ s.starved ovlimit completed → s.busy completed →
      DifferenceFits (s.m_limit + s.m_prevOvlimit) (2 * (completed - s.m_numCompleted))) :
    ∃ adjustment, s.adjust c now ovlimit completed = .ok adjustment := by
  unfold adjust
  by_cases hs : s.starved ovlimit completed
  · obtain ⟨sent, hsent, -⟩ := Posdiff_ok (hstarved hs)
    rw [if_pos hs, hsent]
    exact ⟨_, rfl⟩
  · by_cases hb : s.busy completed
    · obtain ⟨slack, hslack, hlt⟩ := Posdiff_ok (hbusy hs hb)
      obtain ⟨objs, hobjs, hlt'⟩ := hk.slackLastObjs_ok
      obtain ⟨limit, hlimit, -⟩ :=
        Posdiff_ok (differenceFits_of_lt hk.limit_lt (lowerSlack_lt (s := s) hlt hlt'))
      rw [if_neg hs, if_pos hb, hslack, ExceptFold.ok_bind, hobjs, ExceptFold.ok_bind]
      dsimp only
      split_ifs
      · rw [hlimit]
        exact ⟨_, rfl⟩
      · exact ⟨_, rfl⟩
    · rw [if_neg hs, if_neg hb]
      exact ⟨_, rfl⟩

/-- `Completed` succeeds and keeps the account. -/
theorem Kept.completed (hk : Kept c s h) (hallowed : (count.toNat : ℤ) ≤ outstanding h)
    (hsound : Sound c s h (.completed now count)) :
    ∃ s', s.Completed c now count = .ok s' ∧ Kept c s' (h ++ [.completed now count]) := by
  obtain ⟨hbounds, hlt, hfits⟩ := hsound
  have hnonneg := hk.nonneg
  have hcount := hk.count
  have hqueue : ((s.m_numQueued - s.m_numCompleted).toNat : ℤ) = outstanding h := by omega
  have hle : count ≤ s.m_numQueued - s.m_numCompleted := by
    rw [UInt32.le_iff_toNat_le]
    omega
  obtain ⟨ovlimit, hovlimit, hovlimit_lt⟩ : ∃ ovlimit, s.ovlimit = .ok ovlimit ∧
      ovlimit.toNat < 2 ^ 31 :=
    Posdiff_ok (differenceFits_of_lt (by omega) hk.limit_lt)
  have hback : s.m_numCompleted + count - s.m_numCompleted = count := by grind
  obtain ⟨hstarved, hbusy⟩ := hfits ovlimit (by rw [hovlimit]; rfl)
  obtain ⟨adjustment, hadjust⟩ :
      ∃ adjustment, s.adjust c now ovlimit (s.m_numCompleted + count) = .ok adjustment :=
    adjust_ok hk hstarved (by rw [hback]; exact hbusy)
  unfold Completed
  rw [if_pos hle, hovlimit, ExceptFold.ok_bind, hadjust, ExceptFold.ok_bind]
  refine ⟨_, rfl, ?_⟩
  generalize adjustment.limit = adjusted
  have hout : outstanding (h ++ [.completed now count]) = outstanding h - count.toNat :=
    outstanding_append h (.completed now count)
  have hmax : min (max adjusted c.m_minLimit) c.m_maxLimit ≤ c.m_maxLimit := by
    rw [UInt32.le_iff_toNat_le, UInt32.toNat_min]
    exact min_le_right _ _
  have hmin : c.m_minLimit ≤ min (max adjusted c.m_minLimit) c.m_maxLimit := by
    rw [UInt32.le_iff_toNat_le, UInt32.toNat_min, UInt32.toNat_max]
    exact le_min (le_max_right _ _) (UInt32.le_iff_toNat_le.mp hbounds)
  generalize min (max adjusted c.m_minLimit) c.m_maxLimit = limit at hmax hmin
  have hlimit : limit.toNat < 2 ^ 31 :=
    (UInt32.le_iff_toNat_le.mp (UInt32.le_trans hmax c.maxLimit_le)).trans_lt (by decide)
  refine ⟨rfl, ?_, ?_, ?_, hlimit, hk.lastObjCnt_lt, hk.lastObjCnt_lt, ?_, fun _ _ _ =>
    ⟨hmin, hmax⟩⟩
  · have hdiff : s.m_numQueued - (s.m_numCompleted + count) =
        s.m_numQueued - s.m_numCompleted - count := by grind
    dsimp only
    rw [hout, hdiff, UInt32.toNat_sub_of_le _ _ hle]
    omega
  · omega
  · dsimp only
    omega
  · dsimp only
    split_ifs
    · decide
    · exact hovlimit_lt

/-! ### Runs -/

/-- Every allowed and sound call keeps the account. -/
theorem Kept.step (hk : Kept c s h) {call : DqlCall} (hallowed : Allowed h call)
    (hsound : Sound c s h call) :
    ∃ s' actions, s.step c call = .ok (s', actions) ∧ Kept c s' (h ++ actions) := by
  cases call with
  | reset now => exact ⟨_, _, rfl, kept_reset hsound⟩
  | queued count =>
    obtain ⟨s', hok, hk'⟩ := hk.queued hallowed hsound
    exact ⟨s', _, congrArg (Except.map fun s' => (s', [DqlCall.queued count])) hok, hk'⟩
  | completed now count =>
    obtain ⟨s', hok, hk'⟩ := hk.completed hallowed hsound
    exact ⟨s', _, congrArg (Except.map fun s' => (s', [DqlCall.completed now count])) hok, hk'⟩

/-- From the constructor on, in whatever memory, `Available` is what the limit leaves as long as the
calls are sound. -/
theorem throughout_correct (c : DqlConfig) (memory : DynamicQueueLimits) (now : ℤ)
    (calls : List DqlCall)
    (hmeets : TracedRun.Meets (DynamicQueueLimits.step c)
      (fun s h call => Allowed h call ∧ Sound c s h call) memory [] (.reset now :: calls)) :
    TracedRun.Throughout (DynamicQueueLimits.step c) (Correct c) memory []
      (.reset now :: calls) := by
  obtain ⟨⟨-, hzero⟩, hrest⟩ := hmeets
  have hfirst : Kept c (memory.Reset now) ([] ++ [.reset now]) := kept_reset hzero
  exact ⟨_, _, rfl, hfirst.correct, TracedRun.throughout_of_meets
    (fun s h call hk hcall => hk.step hcall.1 hcall.2) (fun s h hk => hk.correct) hfirst
    (hrest _ _ rfl)⟩

/-- The default attributes. -/
def defaultConfig : DqlConfig := ⟨DQL_MAX_LIMIT, 0, 1000000000, UInt32.le_refl _⟩

/-- Memory that is zero. -/
def zeroMemory : DynamicQueueLimits := ⟨0, 0, 0, 0, 0, 0, 0, 0, 0, 0⟩

/-- Two objects of which one is completed. -/
theorem throughout_correct_two :
    TracedRun.Throughout (DynamicQueueLimits.step defaultConfig) (Correct defaultConfig)
      zeroMemory [] [.reset 0, .queued 10, .queued 5, .completed 1 10] :=
  throughout_correct defaultConfig zeroMemory 0 _ (by decide +kernel)

/-- An object of ten is queued and completed, and then all is reset: twenty are still available,
while the limit is zero and nothing is outstanding. -/
theorem not_throughout_reset :
    TracedRun.Meets (DynamicQueueLimits.step defaultConfig) (fun _ h call => Allowed h call)
      zeroMemory [] [.reset 0, .queued 10, .completed 1 10, .reset 2] ∧
    ¬ TracedRun.Throughout (DynamicQueueLimits.step defaultConfig)
      (Correct defaultConfig) zeroMemory [] [.reset 0, .queued 10, .completed 1 10, .reset 2] := by
  refine ⟨by decide +kernel, fun hthroughout => ?_⟩
  obtain ⟨s', actions, hrun, hcorrect⟩ := hthroughout.exists_run (cons_ne_nil _ _)
  have hrun' : TracedRun.run (DynamicQueueLimits.step defaultConfig) zeroMemory
      [.reset 0, .queued 10, .completed 1 10, .reset 2] =
      .ok (⟨0, 20, 0, 0, 0, 0, 0, 0, UINTMAX, 2⟩,
        [.reset 0, .queued 10, .completed 1 10, .reset 2]) := by decide +kernel
  obtain ⟨rfl, rfl⟩ := Prod.mk.inj (Except.ok.inj (hrun.symm.trans hrun'))
  exact absurd hcorrect.available (by decide +kernel)

end DynamicQueueLimits
end Ns3Joined.Network
