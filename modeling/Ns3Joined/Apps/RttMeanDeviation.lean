import Mathlib.Data.Rat.Floor
import Ns3Joined.Fault
import Ns3Joined.Internet.SequenceNumber
import Ns3Joined.Library.TracedRun

/-!
# The estimator of round trips

`RttMeanDeviation` and `RttEstimator` (`ndnSIM/utils/ndn-rtt-mean-deviation.cpp`,
`ndn-rtt-estimator.cpp`): a history of the sequence numbers that were sent, estimates from how long
it took until they were acknowledged, and a timeout from the estimates.

A `Time` is a number of nanoseconds. What the code computes in `double` is a parameter. `m_next` is
left out: only the functions of `RttEstimator` that are overridden read it.
-/

namespace Ns3Joined.Apps

open Internet (SequenceNumber32)

/-- The largest time that the laws of the `double`s speak of: `Time::FromDouble` wraps around at
`2 ^ 63` nanoseconds, which the `double` of a time just below reaches. -/
def longest : ℤ := 2 ^ 62

/-- The `double`s, and what is relied on: the times up to `longest` keep their order as `double`s
and back, and to multiply one by a whole number that is not 0 gives no less. -/
structure Doubles where
  double : Type
  lt : double → double → Bool
  le : double → double → Bool
  ofNat : ℕ → double
  add : double → double → double
  mul : double → double → double
  half : double → double
  /-- `ToDouble (Time::S)`. -/
  toDouble : ℤ → double
  /-- `Time::FromDouble` in seconds, `Seconds`. -/
  fromDouble : double → ℤ
  le_of_lt : ∀ {a b}, lt a b = true → le a b = true
  le_trans : ∀ {a b c}, le a b = true → le b c = true → le a c = true
  toDouble_le : ∀ {t t'}, 0 ≤ t → t ≤ t' → t' ≤ longest → le (toDouble t) (toDouble t') = true
  le_mul : ∀ {k t}, 1 ≤ k → 0 ≤ t → t ≤ longest →
    le (toDouble t) (mul (ofNat k) (toDouble t)) = true
  fromDouble_le : ∀ {a b}, le (toDouble 0) a = true → le a b = true →
    le b (toDouble longest) = true → fromDouble a ≤ fromDouble b

namespace Doubles

/-- `std::max`. -/
def max (D : Doubles) (a b : D.double) : D.double := if D.lt a b then b else a

/-- `std::min`. -/
def min (D : Doubles) (a b : D.double) : D.double := if D.lt b a then b else a

end Doubles

structure RttHistory where
  seq : SequenceNumber32
  count : UInt32
  time : ℤ
  retx : Bool
deriving DecidableEq, Repr

/-- The attributes. -/
structure RttAttributes (D : Doubles) where
  m_maxMultiplier : ℕ
  m_initialEstimatedRtt : ℤ
  m_minRto : ℤ
  m_maxRto : ℤ
  m_gain : D.double
  m_gain2 : D.double

/-- The state, and the clock. -/
structure RttMeanDeviation where
  now : ℤ
  m_currentEstimatedRtt : ℤ
  m_variance : ℤ
  m_nSamples : UInt32
  m_multiplier : ℕ
  m_history : List RttHistory

namespace RttMeanDeviation

/-- What happens in a call. -/
inductive Action
  | sent (seq : SequenceNumber32)
  | acked (seq : SequenceNumber32)
  | measured (seq : SequenceNumber32) (m : ℤ)
  | timeout (rto : ℤ)
deriving DecidableEq, Repr

variable {D : Doubles} (attributes : RttAttributes D)

def create (now : ℤ) : RttMeanDeviation :=
  ⟨now, attributes.m_initialEstimatedRtt, 0, 0, 1, []⟩

/-! ### The functions -/

def Measurement (s : RttMeanDeviation) (m : ℤ) : RttMeanDeviation :=
  if s.m_nSamples ≠ 0 then
    let err := m - s.m_currentEstimatedRtt
    let gErr := D.mul (D.toDouble err) attributes.m_gain
    let difference := (err.natAbs : ℤ) - s.m_variance
    { s with
      m_currentEstimatedRtt := s.m_currentEstimatedRtt + D.fromDouble gErr
      m_variance :=
        s.m_variance + D.fromDouble (D.mul (D.toDouble difference) attributes.m_gain2)
      m_nSamples := s.m_nSamples + 1 }
  else
    { s with
      m_currentEstimatedRtt := m
      m_variance := D.fromDouble (D.half (D.toDouble m))
      m_nSamples := s.m_nSamples + 1 }

def RetransmitTimeout (s : RttMeanDeviation) : ℤ :=
  let multiplier := D.ofNat s.m_multiplier
  let estimate := D.add (D.toDouble s.m_currentEstimatedRtt)
    (D.mul (D.ofNat 4) (D.toDouble s.m_variance))
  D.fromDouble (D.min (D.toDouble attributes.m_maxRto)
    (D.max (D.mul multiplier (D.toDouble attributes.m_minRto)) (D.mul multiplier estimate)))

/-- The loop of `SentSeq`, if it finds the number. -/
def setRetx (seq : SequenceNumber32) : List RttHistory → Option (List RttHistory)
  | [] => none
  | i :: history =>
    if seq = i.seq then some ({ i with retx := true } :: history)
    else (setRetx seq history).map fun history => i :: history

def SentSeq (s : RttMeanDeviation) (seq : SequenceNumber32) (size : UInt32) : RttMeanDeviation :=
  match setRetx seq s.m_history with
  | some history => { s with m_history := history }
  | none => { s with m_history := s.m_history ++ [⟨seq, size, s.now, false⟩] }

def IncreaseMultiplier (s : RttMeanDeviation) : RttMeanDeviation :=
  { s with m_multiplier :=
      if s.m_multiplier * 2 < attributes.m_maxMultiplier then s.m_multiplier * 2
      else attributes.m_maxMultiplier }

def ResetMultiplier (s : RttMeanDeviation) : RttMeanDeviation := { s with m_multiplier := 1 }

/-- The loop of `AckSeq`: the entry of the number, and the history without it. -/
def findSeq (ackSeq : SequenceNumber32) : List RttHistory → Option (RttHistory × List RttHistory)
  | [] => none
  | i :: history =>
    if ackSeq = i.seq then some (i, history)
    else (findSeq ackSeq history).map fun found => (found.1, i :: found.2)

def AckSeq (s : RttMeanDeviation) (ackSeq : SequenceNumber32) : RttMeanDeviation × List Action :=
  match findSeq ackSeq s.m_history with
  | none => (s, [])
  | some (i, history) =>
    if i.retx then ({ s with m_history := history }, [])
    else
      let m := s.now - i.time
      ({ (s.Measurement attributes m).ResetMultiplier with m_history := history },
        [.measured ackSeq m])

/-! ### Calls -/

inductive Call
  | wait (delay : ℕ)
  | sentSeq (seq : SequenceNumber32) (size : UInt32)
  | ackSeq (ackSeq : SequenceNumber32)
  | increaseMultiplier
  | resetMultiplier
  | retransmitTimeout
deriving DecidableEq, Repr

def step (s : RttMeanDeviation) : Call → Except Fault (RttMeanDeviation × List Action)
  | .wait delay => .ok ({ s with now := s.now + delay }, [])
  | .sentSeq seq size => .ok (s.SentSeq seq size, [.sent seq])
  | .ackSeq ackSeq =>
    let (s, actions) := s.AckSeq attributes ackSeq
    .ok (s, actions ++ [.acked ackSeq])
  | .increaseMultiplier => .ok (s.IncreaseMultiplier attributes, [])
  | .resetMultiplier => .ok (s.ResetMultiplier, [])
  | .retransmitTimeout => .ok (s, [.timeout (s.RetransmitTimeout attributes)])

end RttMeanDeviation
end Ns3Joined.Apps

/-!
## What the estimator of round trips keeps

* `Karn`: a round trip is measured only for a number that was sent once since it was acknowledged.
* `Keeps`: the history has the numbers that were sent since, each once, in the order of the times at
  which they were sent first, and marks those that were sent again.
* `retransmitTimeout_mem`: the timeout is not beyond its bounds.
* `run_karn`: so it is in every run.
-/

namespace Ns3Joined.Apps.RttMeanDeviation

open List Option

open Internet (SequenceNumber32)

variable {D : Doubles} {attributes : RttAttributes D} {s s' : RttMeanDeviation}
  {h h' : List Action} {seq ackSeq : SequenceNumber32} {history history' : List RttHistory}
  {i : RttHistory}

/-! ### What is counted -/

/-- How often a number was sent since it was acknowledged. -/
def sendsSince (seq : SequenceNumber32) (h : List Action) : ℕ :=
  h.foldl (fun n a => match a with
    | .sent seq' => if seq' = seq then n + 1 else n
    | .acked seq' => if seq' = seq then 0 else n
    | .measured _ _ | .timeout _ => n) 0

@[simp]
theorem sendsSince_sent : sendsSince seq (h ++ [.sent ackSeq]) =
    if ackSeq = seq then sendsSince seq h + 1 else sendsSince seq h := by
  unfold sendsSince
  rw [foldl_append]
  rfl

@[simp]
theorem sendsSince_acked : sendsSince seq (h ++ [.acked ackSeq]) =
    if ackSeq = seq then 0 else sendsSince seq h := by
  unfold sendsSince
  rw [foldl_append]
  rfl

@[simp]
theorem sendsSince_measured {m : ℤ} : sendsSince seq (h ++ [.measured ackSeq m]) =
    sendsSince seq h := by
  unfold sendsSince
  rw [foldl_append]
  rfl

@[simp]
theorem sendsSince_timeout {rto : ℤ} : sendsSince seq (h ++ [.timeout rto]) =
    sendsSince seq h := by
  unfold sendsSince
  rw [foldl_append]
  rfl

/-- **Karn's rule.** -/
def Karn (h : List Action) : Prop :=
  ∀ a b seq m, h = a ++ .measured seq m :: b → sendsSince seq a = 1

variable {x : Action}

/-- A history is Karn's if each new measurement is of a number that was sent once. -/
theorem Karn.snoc (hkarn : Karn h) (hx : ∀ seq m, x = .measured seq m → sendsSince seq h = 1) :
    Karn (h ++ [x]) := by
  intro a b seq m heq
  obtain rfl | ⟨b, y, rfl⟩ := eq_nil_or_concat b
  · obtain ⟨rfl, hlast⟩ := append_inj' heq rfl
    exact hx seq m (List.cons.inj hlast).1
  · rw [concat_eq_append, ← cons_append, ← append_assoc] at heq
    obtain ⟨rfl, -⟩ := append_inj' heq rfl
    exact hkarn a b seq m rfl

/-! ### The history -/

/-- The history has what was sent since it was acknowledged. -/
structure Lists (history : List RttHistory) (now : ℤ) (sends : SequenceNumber32 → ℕ) : Prop where
  nodup : (history.map RttHistory.seq).Nodup
  sent : ∀ i ∈ history, 1 ≤ sends i.seq ∧ (i.retx = false → sends i.seq = 1)
  notSent : ∀ seq, seq ∉ history.map RttHistory.seq → sends seq = 0
  ordered : history.Pairwise fun i j => i.time ≤ j.time
  past : ∀ i ∈ history, i.time ≤ now

/-- `SentSeq` marks the entry of its number, if there is one. -/
theorem setRetx_eq_none : setRetx seq history = none ↔ seq ∉ history.map RttHistory.seq := by
  induction history with
  | nil => simp [setRetx]
  | cons i history ih =>
    rw [setRetx, map_cons, mem_cons, not_or]
    split_ifs with heq
    · simp [heq]
    · rw [map_eq_none_iff, ih]
      exact (and_iff_right heq).symm

/-- Only the mark of one entry changes. -/
theorem setRetx_spec (hset : setRetx seq history = some history') :
    ∃ a i b, history = a ++ i :: b ∧ history' = a ++ { i with retx := true } :: b ∧
      i.seq = seq := by
  induction history generalizing history' with
  | nil => cases hset
  | cons i history ih =>
    rw [setRetx] at hset
    split_ifs at hset with heq
    · cases hset
      exact ⟨[], i, history, rfl, rfl, heq.symm⟩
    · obtain ⟨rest, hrest, rfl⟩ := map_eq_some_iff.mp hset
      obtain ⟨a, j, b, rfl, rfl, hseq⟩ := ih hrest
      exact ⟨i :: a, j, b, rfl, rfl, hseq⟩

/-- `AckSeq` looks for the entry of its number. -/
theorem findSeq_eq_none : findSeq ackSeq history = none ↔
    ackSeq ∉ history.map RttHistory.seq := by
  induction history with
  | nil => simp [findSeq]
  | cons i history ih =>
    rw [findSeq, map_cons, mem_cons, not_or]
    split_ifs with heq
    · simp [heq]
    · rw [map_eq_none_iff, ih]
      exact (and_iff_right heq).symm

/-- The entry that is found is the first one of its number, and is taken out. -/
theorem findSeq_spec (hfind : findSeq ackSeq history = some (i, history')) :
    ∃ a b, history = a ++ i :: b ∧ history' = a ++ b ∧ i.seq = ackSeq := by
  induction history generalizing history' with
  | nil => cases hfind
  | cons j history ih =>
    rw [findSeq] at hfind
    split_ifs at hfind with heq
    · cases hfind
      exact ⟨[], history, rfl, rfl, heq.symm⟩
    · obtain ⟨⟨i', rest⟩, hrest, hfound⟩ := map_eq_some_iff.mp hfind
      cases hfound
      obtain ⟨a, b, rfl, rfl, hseq⟩ := ih hrest
      exact ⟨j :: a, b, rfl, rfl, hseq⟩

variable {now : ℤ} {sends sends' : SequenceNumber32 → ℕ} {a b : List RttHistory}

/-- A number is sent again. -/
theorem Lists.sendAgain (hl : Lists (a ++ i :: b) now sends)
    (hsends : ∀ seq, sends' seq = if i.seq = seq then sends seq + 1 else sends seq) :
    Lists (a ++ { i with retx := true } :: b) now sends' where
  nodup := by
    have hnodup := hl.nodup
    rw [map_append, map_cons] at hnodup ⊢
    exact hnodup
  sent := fun j hj => by
    rw [hsends]
    obtain hj | hj := mem_append.mp hj
    · obtain ⟨hone, honce⟩ := hl.sent j (mem_append_left _ hj)
      -- the numbers of the others are other ones
      have hne : i.seq ≠ j.seq := fun heq => by
        have hnodup := hl.nodup
        rw [map_append, map_cons] at hnodup
        exact disjoint_of_nodup_append hnodup (mem_map_of_mem hj)
          (heq ▸ mem_cons_self)
      rw [if_neg hne]
      exact ⟨hone, honce⟩
    · obtain rfl | hj := mem_cons.mp hj
      · rw [if_pos rfl]
        exact ⟨Nat.succ_pos _, nofun⟩
      · obtain ⟨hone, honce⟩ := hl.sent j (mem_append_right _ (mem_cons_of_mem _ hj))
        have hne : i.seq ≠ j.seq := fun heq => by
          have hnodup := hl.nodup
          rw [map_append, map_cons] at hnodup
          exact (nodup_cons.mp hnodup.of_append_right).1 (heq ▸ mem_map_of_mem hj)
        rw [if_neg hne]
        exact ⟨hone, honce⟩
  notSent := fun seq hseq => by
    have hmap : (a ++ { i with retx := true } :: b).map RttHistory.seq =
        (a ++ i :: b).map RttHistory.seq := by
      rw [map_append, map_append]
      rfl
    rw [hmap] at hseq
    have hne : i.seq ≠ seq := fun heq => hseq (mem_map.mpr
      ⟨i, mem_append_right a mem_cons_self, heq⟩)
    rw [hsends, if_neg hne]
    exact hl.notSent seq hseq
  ordered := by
    have hmap : (a ++ { i with retx := true } :: b).map RttHistory.time =
        (a ++ i :: b).map RttHistory.time := by
      rw [map_append, map_append]
      rfl
    have hordered : ((a ++ i :: b).map RttHistory.time).Pairwise (· ≤ ·) :=
      pairwise_map.mpr hl.ordered
    exact pairwise_map.mp (hmap ▸ hordered)
  past := fun j hj => by
    obtain hj | hj := mem_append.mp hj
    · exact hl.past j (mem_append_left _ hj)
    · obtain rfl | hj := mem_cons.mp hj
      · exact hl.past i (mem_append_right a mem_cons_self)
      · exact hl.past j (mem_append_right a (mem_cons_of_mem i hj))

/-- A number is sent for the first time. -/
theorem Lists.sendNew (hl : Lists history now sends) (hnew : i.seq ∉ history.map RttHistory.seq)
    (htime : i.time = now)
    (hsends : ∀ seq, sends' seq = if i.seq = seq then sends seq + 1 else sends seq) :
    Lists (history ++ [i]) now sends' where
  nodup := by
    rw [map_append]
    refine nodup_append.mpr ⟨hl.nodup, nodup_singleton _, ?_⟩
    rintro x hx y hy rfl
    exact hnew (mem_singleton.mp hy ▸ hx)
  sent := fun j hj => by
    rw [hsends]
    obtain hj | hj := mem_append.mp hj
    · have hne : i.seq ≠ j.seq := fun heq => hnew (heq ▸ mem_map_of_mem hj)
      rw [if_neg hne]
      exact hl.sent j hj
    · obtain rfl := mem_singleton.mp hj
      rw [if_pos rfl, hl.notSent _ hnew]
      exact ⟨Nat.le_refl 1, fun _ => rfl⟩
  notSent := fun seq hseq => by
    rw [map_append, mem_append, not_or] at hseq
    have hne : i.seq ≠ seq := fun heq => hseq.2 (heq ▸ mem_cons_self)
    rw [hsends, if_neg hne]
    exact hl.notSent seq hseq.1
  ordered := pairwise_append.mpr ⟨hl.ordered, pairwise_singleton _ _,
    fun j hj k hk => by
      obtain rfl := mem_singleton.mp hk
      exact htime ▸ hl.past j hj⟩
  past := forall_mem_append.mpr ⟨hl.past,
    forall_mem_singleton.mpr (Int.le_of_eq htime)⟩

/-- An entry that is taken out starts the count of its number anew. -/
theorem Lists.ack (hl : Lists (a ++ i :: b) now sends)
    (hsends : ∀ seq, sends' seq = if i.seq = seq then 0 else sends seq) :
    Lists (a ++ b) now sends' := by
  have hperm : (a ++ i :: b).Perm (i :: (a ++ b)) := perm_middle
  have hnodup := (hperm.map RttHistory.seq).nodup_iff.mp hl.nodup
  rw [map_cons, nodup_cons] at hnodup
  have hmem : ∀ j ∈ a ++ b, j ∈ a ++ i :: b := fun j hj =>
    hperm.mem_iff.mpr (mem_cons_of_mem i hj)
  refine ⟨hnodup.2, fun j hj => ?_, fun seq hseq => ?_, ?_, fun j hj => hl.past j (hmem j hj)⟩
  · have hne : i.seq ≠ j.seq := fun heq => hnodup.1 (heq ▸ mem_map_of_mem hj)
    rw [hsends, if_neg hne]
    exact hl.sent j (hmem j hj)
  · rw [hsends]
    split_ifs with heq
    · rfl
    · refine hl.notSent seq fun hmem => ?_
      rw [(hperm.map RttHistory.seq).mem_iff, map_cons, mem_cons] at hmem
      exact hmem.elim (fun h => heq h.symm) hseq
  · exact hl.ordered.sublist ((sublist_cons_self i b).append_left a)

/-! ### The timeout -/

/-- The bounds can be kept, and go through a `double`. -/
def Bounded (attributes : RttAttributes D) : Prop :=
  1 ≤ attributes.m_maxMultiplier ∧ 0 ≤ attributes.m_minRto ∧
    attributes.m_minRto ≤ attributes.m_maxRto ∧ attributes.m_maxRto ≤ longest

/-- A time as the code has it after it went through a `double`. -/
def rounded (D : Doubles) (t : ℤ) : ℤ := D.fromDouble (D.toDouble t)

/-- What `std::max` gives is not below its first argument. -/
theorem Doubles.le_max (D : Doubles) {a b c : D.double} (hle : D.le c a = true) :
    D.le c (D.max a b) = true := by
  unfold Doubles.max
  split_ifs with hlt
  · exact D.le_trans hle (D.le_of_lt hlt)
  · exact hle

/-- **The timeout is between the bounds**, whatever the estimates are. -/
theorem retransmitTimeout_mem (hbounded : Bounded attributes) (hmultiplier : 1 ≤ s.m_multiplier) :
    rounded D attributes.m_minRto ≤ s.RetransmitTimeout attributes ∧
      s.RetransmitTimeout attributes ≤ rounded D attributes.m_maxRto := by
  obtain ⟨-, hmin, hle, hmax⟩ := hbounded
  have hzero : D.le (D.toDouble 0) (D.toDouble attributes.m_minRto) = true :=
    D.toDouble_le (Int.le_refl 0) hmin (Int.le_trans hle hmax)
  have hlongest : D.le (D.toDouble attributes.m_maxRto) (D.toDouble longest) = true :=
    D.toDouble_le (Int.le_trans hmin hle) hmax (Int.le_refl longest)
  unfold RetransmitTimeout Doubles.min
  dsimp only
  split_ifs with hlt
  · -- the estimate, or the multiple of the least timeout, is below the largest one
    have hlower := Doubles.le_max D (b := D.mul (D.ofNat s.m_multiplier)
      (D.add (D.toDouble s.m_currentEstimatedRtt) (D.mul (D.ofNat 4) (D.toDouble s.m_variance))))
      (D.le_mul hmultiplier hmin (Int.le_trans hle hmax))
    have hupper := D.le_of_lt hlt
    exact ⟨D.fromDouble_le hzero hlower (D.le_trans hupper hlongest),
      D.fromDouble_le (D.le_trans hzero hlower) hupper hlongest⟩
  · exact ⟨D.fromDouble_le hzero (D.toDouble_le hmin hle hmax) hlongest, Int.le_refl _⟩

/-! ### Runs -/

structure Keeps (attributes : RttAttributes D) (s : RttMeanDeviation) (h : List Action) :
    Prop where
  lists : Lists s.m_history s.now fun seq => sendsSince seq h
  karn : Karn h
  multiplier : 1 ≤ attributes.m_maxMultiplier → 1 ≤ s.m_multiplier
  timeouts : Bounded attributes → ∀ rto, .timeout rto ∈ h →
    rounded D attributes.m_minRto ≤ rto ∧ rto ≤ rounded D attributes.m_maxRto

theorem timeouts_snoc {P : ℤ → Prop} (h₁ : ∀ rto, .timeout rto ∈ h → P rto)
    (h₂ : ∀ rto, x = .timeout rto → P rto) : ∀ rto, .timeout rto ∈ h ++ [x] → P rto :=
  fun rto hmem => (mem_append.mp hmem).elim (h₁ rto) fun hmem =>
    h₂ rto (mem_singleton.mp hmem).symm

/-- `SentSeq` keeps the invariant. -/
theorem Keeps.sent (hs : Keeps attributes s h) (seq : SequenceNumber32) (size : UInt32) :
    Keeps attributes (s.SentSeq seq size) (h ++ [.sent seq]) := by
  have hsends : ∀ seq', sendsSince seq' (h ++ [.sent seq]) =
      if seq = seq' then sendsSince seq' h + 1 else sendsSince seq' h := fun _ => sendsSince_sent
  have hkarn : Karn (h ++ [.sent seq]) := hs.karn.snoc nofun
  unfold SentSeq
  cases hset : setRetx seq s.m_history with
  | none =>
    exact ⟨hs.lists.sendNew (setRetx_eq_none.mp hset) rfl hsends, hkarn, hs.multiplier,
      fun hbounded => timeouts_snoc (hs.timeouts hbounded) nofun⟩
  | some history =>
    obtain ⟨a, i, b, hhistory, rfl, rfl⟩ := setRetx_spec hset
    have hlists := hs.lists
    rw [hhistory] at hlists
    exact ⟨hlists.sendAgain hsends, hkarn, hs.multiplier,
      fun hbounded => timeouts_snoc (hs.timeouts hbounded) nofun⟩

/-- A measurement, if there is one, is of a number that was sent once. -/
theorem Keeps.acked (hs : Keeps attributes s h) (ackSeq : SequenceNumber32) :
    Keeps attributes (s.AckSeq attributes ackSeq).1
      (h ++ ((s.AckSeq attributes ackSeq).2 ++ [.acked ackSeq])) := by
  unfold AckSeq
  cases hfind : findSeq ackSeq s.m_history with
  | none =>
    dsimp only
    rw [nil_append]
    have hnot := hs.lists.notSent ackSeq (findSeq_eq_none.mp hfind)
    refine ⟨?_, hs.karn.snoc nofun, hs.multiplier,
      fun hbounded => timeouts_snoc (hs.timeouts hbounded) nofun⟩
    have hsame : (fun seq => sendsSince seq (h ++ [.acked ackSeq])) =
        fun seq => sendsSince seq h := by
      funext seq
      rw [sendsSince_acked]
      split_ifs with heq
      · rw [← heq, hnot]
      · rfl
    exact hsame ▸ hs.lists
  | some found =>
    obtain ⟨i, history⟩ := found
    obtain ⟨a, b, hhistory, rfl, rfl⟩ := findSeq_spec hfind
    have hlists := hs.lists
    rw [hhistory] at hlists
    dsimp only
    split_ifs with hretx
    · rw [nil_append]
      exact ⟨hlists.ack fun _ => sendsSince_acked, hs.karn.snoc nofun, hs.multiplier,
        fun hbounded => timeouts_snoc (hs.timeouts hbounded) nofun⟩
    · have honce : sendsSince i.seq h = 1 :=
        (hlists.sent i (mem_append_right a mem_cons_self)).2
          (Bool.eq_false_of_not_eq_true hretx)
      have hkarn : Karn (h ++ [.measured i.seq (s.now - i.time)]) :=
        hs.karn.snoc fun seq m heq => by
          cases heq
          exact honce
      have hclock : (s.Measurement attributes (s.now - i.time)).now = s.now := by
        unfold Measurement
        split_ifs <;> rfl
      rw [← append_assoc]
      refine ⟨?_, hkarn.snoc nofun, fun _ => Nat.le_refl 1, fun hbounded =>
        timeouts_snoc (timeouts_snoc (hs.timeouts hbounded) nofun) nofun⟩
      show Lists (a ++ b) (s.Measurement attributes (s.now - i.time)).now _
      rw [hclock]
      refine hlists.ack fun seq => ?_
      rw [sendsSince_acked, sendsSince_measured]

/-- **One call** keeps the invariant. -/
theorem Keeps.step (hs : Keeps attributes s h) (call : Call) :
    ∃ s' actions, step attributes s call = .ok (s', actions) ∧
      Keeps attributes s' (h ++ actions) := by
  cases call with
  | wait delay =>
    refine ⟨_, [], rfl, ?_⟩
    rw [append_nil]
    refine ⟨⟨hs.lists.nodup, hs.lists.sent, hs.lists.notSent, hs.lists.ordered, fun i hi => ?_⟩,
      hs.karn, hs.multiplier, hs.timeouts⟩
    exact Int.le_trans (hs.lists.past i hi) (Int.le_add_of_nonneg_right (Int.natCast_nonneg _))
  | sentSeq seq size => exact ⟨_, _, rfl, hs.sent seq size⟩
  | ackSeq ackSeq => exact ⟨_, _, rfl, hs.acked ackSeq⟩
  | increaseMultiplier =>
    refine ⟨_, [], rfl, ?_⟩
    rw [append_nil]
    refine ⟨hs.lists, hs.karn, fun hmax => ?_, hs.timeouts⟩
    have hone := hs.multiplier hmax
    show 1 ≤ if s.m_multiplier * 2 < attributes.m_maxMultiplier then s.m_multiplier * 2
      else attributes.m_maxMultiplier
    split_ifs
    · omega
    · exact hmax
  | resetMultiplier =>
    refine ⟨_, [], rfl, ?_⟩
    rw [append_nil]
    exact ⟨hs.lists, hs.karn, fun _ => Nat.le_refl 1, hs.timeouts⟩
  | retransmitTimeout =>
    have hsame : (fun seq => sendsSince seq
        (h ++ [.timeout (s.RetransmitTimeout attributes)])) = fun seq => sendsSince seq h :=
      funext fun _ => sendsSince_timeout
    refine ⟨s, _, rfl, hsame ▸ hs.lists, hs.karn.snoc nofun, hs.multiplier, fun hbounded =>
      timeouts_snoc (hs.timeouts hbounded) fun rto heq => ?_⟩
    cases heq
    exact retransmitTimeout_mem hbounded (hs.multiplier hbounded.1)

theorem keeps_create (attributes : RttAttributes D) (now : ℤ) :
    Keeps attributes (create attributes now) [] := by
  refine ⟨⟨nodup_nil, nofun, fun _ _ => rfl, List.Pairwise.nil, nofun⟩, ?_,
    fun _ => Nat.le_refl 1, nofun⟩
  intro a b seq m heq
  exact absurd heq.symm (append_ne_nil_of_right_ne_nil a (cons_ne_nil _ b))

/-- **In every run**, round trips are measured by Karn's rule, the history has different numbers in
the order in which they were sent first, and the timeouts are between the bounds, if they can be. -/
theorem run_karn (D : Doubles) (attributes : RttAttributes D) (now : ℤ) (calls : List Call) :
    ∃ s h, TracedRun.run (step attributes) (create attributes now) calls = .ok (s, h) ∧
      Karn h ∧ (s.m_history.map RttHistory.seq).Nodup ∧
      (s.m_history.Pairwise fun i j => i.time ≤ j.time) ∧
      (Bounded attributes → ∀ rto, .timeout rto ∈ h →
        rounded D attributes.m_minRto ≤ rto ∧ rto ≤ rounded D attributes.m_maxRto) := by
  have hmeets : TracedRun.Meets (step attributes) (fun _ _ _ => True) (create attributes now) []
      calls := TracedRun.meets_true calls
  obtain ⟨s, h, hok, hs⟩ := TracedRun.run_invariant (I := Keeps attributes)
    (fun s h call hs _ => Keeps.step hs call) (keeps_create attributes now) hmeets
  exact ⟨s, h, hok, hs.karn, hs.lists.nodup, hs.lists.ordered, hs.timeouts⟩

/-! ### A run -/

/-- Seconds without rounding. -/
def seconds : Doubles where
  double := ℚ
  lt := fun a b => decide (a < b)
  ofNat := fun k => k
  add := fun a b => a + b
  mul := fun a b => a * b
  half := fun a => a / 2
  toDouble := fun t => t / 10 ^ 9
  fromDouble := fun a => (a * 10 ^ 9).floor
  le := fun a b => decide (a ≤ b)
  le_of_lt := fun hlt => decide_eq_true (le_of_lt (of_decide_eq_true hlt))
  le_trans := fun hab hbc =>
    decide_eq_true (le_trans (of_decide_eq_true hab) (of_decide_eq_true hbc))
  toDouble_le := fun {t t'} _ hle _ => by
    have hcast : (t : ℚ) ≤ t' := Int.cast_le.mpr hle
    exact decide_eq_true (by linarith)
  le_mul := fun {k t} hk ht _ => by
    have hone : (1 : ℚ) ≤ k := Nat.one_le_cast.mpr hk
    have hpos : (0 : ℚ) ≤ t := by exact_mod_cast ht
    refine decide_eq_true ?_
    nlinarith
  fromDouble_le := fun {a b} _ hle _ => by
    have hle := of_decide_eq_true hle
    exact Rat.floor_monotone (mul_le_mul_of_nonneg_right hle (by norm_num))

/-- The values of the attributes if nobody sets them, with another largest multiplier. -/
def defaults (maxMultiplier : ℕ) : RttAttributes seconds :=
  ⟨maxMultiplier, 10 ^ 9, 2 * 10 ^ 8, 2 * 10 ^ 11, (1 / 8 : ℚ), (1 / 4 : ℚ)⟩

/-- A number is sent twice and acknowledged, another one once. -/
theorem run_karn_defaults :
    ∃ s h, TracedRun.run (step (defaults 64)) (create (defaults 64) 0) [.sentSeq 1 1,
        .sentSeq 2 1, .wait 5, .sentSeq 1 1, .ackSeq 1, .ackSeq 2, .retransmitTimeout] =
        .ok (s, h) ∧
      Karn h ∧ ∀ rto, .timeout rto ∈ h → rounded seconds (defaults 64).m_minRto ≤ rto ∧
        rto ≤ rounded seconds (defaults 64).m_maxRto := by
  obtain ⟨s, h, hok, hkarn, -, -, htimeouts⟩ := run_karn seconds (defaults 64) 0 [.sentSeq 1 1,
    .sentSeq 2 1, .wait 5, .sentSeq 1 1, .ackSeq 1, .ackSeq 2, .retransmitTimeout]
  exact ⟨s, h, hok, hkarn, htimeouts ⟨by decide, by decide, by decide, by decide⟩⟩

/-- The history is not ordered by the numbers, and the timeout may be less than its minimum, if the
multiplier can become 0. -/
theorem history_not_by_number :
    (∃ s h, TracedRun.run (step (defaults 64)) (create (defaults 64) 0)
        [.sentSeq 5 1, .sentSeq 3 1] = .ok (s, h) ∧
      ¬ s.m_history.Pairwise fun i j => Internet.SequenceNumber.lt i.seq j.seq = true) ∧
    ∃ s h, TracedRun.run (step (defaults 0)) (create (defaults 0) 0)
        [.increaseMultiplier, .retransmitTimeout] = .ok (s, h) ∧
      .timeout 0 ∈ h ∧ 0 < (defaults 0).m_minRto := by
  refine ⟨⟨_, _, rfl, by decide +kernel⟩, _, _, rfl, ?_, by decide⟩
  decide +kernel

end Ns3Joined.Apps.RttMeanDeviation
