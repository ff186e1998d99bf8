import Ns3Joined.Library.TracedRun
import Ns3Joined.Mpi.DistributedSimulator

/-!
# Granted time windows are safe

Whatever the handlers do and however long packets travel, no rank executes an event beyond what
any packet to it can undercut.

The argument is about one number, `base`: no rank that has not stopped holds an event before it,
and no packet is in flight whose receive time is not later by the lookahead of its destination. A
new window may move `base` to the least of the times that were gathered, since then no packet is
in flight; the counters tell so, as long as fewer than `2^32` are.

* `Steady`, `Keeps`: the invariant of one rank, and of all.
* `Keeps.serve`, `Keeps.receive`, `Keeps.leave`: what a handler asks for, a packet, a new window.
* `windows_safe`: over all runs.
-/

namespace Ns3Joined.Mpi

open List Function Option Bool
open DistributedSimulatorImpl (m_currentTs m_globalFinished m_lookAhead m_rxCount m_txCount)

variable {n : ℕ}

/-! ### The lookahead -/

/-- The least delay over the remote channels. -/
theorem foldl_delay_le (channels : List (Channel n)) (i : Fin (n + 1)) (initial : ℕ) :
    channels.foldl (fun lookAhead ch =>
        if ch.IsRemoteAt i && decide (ch.delay < lookAhead) then ch.delay else lookAhead) initial ≤
      initial ∧
    ∀ ch ∈ channels, ch.IsRemoteAt i = true →
      channels.foldl (fun lookAhead ch =>
        if ch.IsRemoteAt i && decide (ch.delay < lookAhead) then ch.delay else lookAhead) initial ≤
      ch.delay := by
  induction channels generalizing initial with
  | nil => exact ⟨Nat.le_refl _, nofun⟩
  | cons ch channels ih =>
    rw [foldl_cons]
    obtain ⟨hle, hall⟩ := ih
      (if ch.IsRemoteAt i && decide (ch.delay < initial) then ch.delay else initial)
    have hnow : (if ch.IsRemoteAt i && decide (ch.delay < initial) then ch.delay else initial) ≤
        initial := by
      split_ifs with h
      · rw [and_eq_true, decide_eq_true_iff] at h
        exact Nat.le_of_lt h.2
      · exact Nat.le_refl _
    refine ⟨Nat.le_trans hle hnow, fun ch' hch' hremote => ?_⟩
    obtain rfl | hch' := mem_cons.mp hch'
    · refine Nat.le_trans hle ?_
      rw [hremote, Bool.true_and]
      split_ifs with h
      · exact Nat.le_refl _
      · rw [decide_eq_true_iff, Nat.not_lt] at h
        exact h
    · exact hall ch' hch' hremote

/-- The look-ahead a rank finds is bounded by the largest time. -/
theorem ownLookAhead_le (channels : List (Channel n)) (lookAhead : Option SimTime)
    (i : Fin (n + 1)) :
    ownLookAhead channels ((lookAhead.map Subtype.val).getD maximumSimulationTime) i ≤
      maximumSimulationTime := by
  refine Nat.le_trans (foldl_delay_le channels i _).1 ?_
  cases lookAhead with
  | none => exact Nat.le_refl _
  | some t => exact t.2

variable {ch : Channel n} {i : Fin (n + 1)} {messages : Fin (n + 1) → LbtsMessage}
  {r : DistributedSimulatorImpl} {base : ℕ}

/-- A packet to a rank travels for its lookahead at least. -/
theorem calculateLookAhead_le (channels : List (Channel n))
    (lookAhead : Fin (n + 1) → Option SimTime) (hch : ch ∈ channels)
    (hremote : ch.IsRemoteAt i = true) : CalculateLookAhead channels lookAhead i ≤ ch.delay := by
  have hown := (foldl_delay_le channels i
    (((lookAhead i).map Subtype.val).getD maximumSimulationTime)).2 ch hch hremote
  unfold CalculateLookAhead
  split_ifs with hzero
  · exact Nat.zero_le _
  dsimp only
  split_ifs with hmax
  · -- the delay is the maximum already
    refine Nat.le_trans (Finset.sup_le fun j _ => ?_) (Nat.le_trans (Nat.le_of_eq hmax.1.symm) hown)
    split_ifs
    · exact Nat.zero_le _
    · exact ownLookAhead_le channels (lookAhead j) j
  · exact hown

/-! ### One rank -/

/-- What holds of a rank, where `base` is the time that no event to come is before. -/
structure Steady (base : ℕ) (r : DistributedSimulatorImpl) : Prop where
  granted_le : r.m_grantedTime ≤ (base + r.m_lookAhead : ℕ)
  current_le : r.m_currentTs ≤ base + r.m_lookAhead
  ordered : Agenda.InOrder Event.ts r.m_events
  current_le_ts : ∀ ev ∈ r.m_events, r.m_currentTs ≤ ev.ts
  base_le_ts : r.m_stop = false → ∀ ev ∈ r.m_events, base ≤ ev.ts
  gathered : ∀ message ∈ r.gathered, message = r.message

section Steady

variable {ts : ℕ}

section

variable (h : Steady base r) (hnone : r.gathered = none)

include h hnone

/-- Scheduling at or behind the current time keeps the rank steady. -/
theorem Steady.schedule (hts : r.m_currentTs ≤ ts) (hbase : base ≤ ts) :
    Steady base (r.Schedule ts) where
  __ := h
  ordered := h.ordered.add _
  current_le_ts := fun ev hev => by
    obtain rfl | hev := Agenda.mem_add.mp hev
    · exact hts
    · exact h.current_le_ts ev hev
  base_le_ts := fun hstop ev hev => by
    obtain rfl | hev := Agenda.mem_add.mp hev
    · exact hbase
    · exact h.base_le_ts hstop ev hev
  gathered := fun message hmessage => by
    rw [DistributedSimulatorImpl.Schedule, hnone] at hmessage
    cases hmessage

/-- Removing an event keeps the rank steady. -/
theorem Steady.remove (uid : ℕ) :
    Steady base (r.Remove uid) where
  __ := h
  ordered := h.ordered.filter _
  current_le_ts := fun ev hev => h.current_le_ts ev (mem_of_mem_filter hev)
  base_le_ts := fun hstop ev hev => h.base_le_ts hstop ev (mem_of_mem_filter hev)
  gathered := fun message hmessage => by
    rw [DistributedSimulatorImpl.Remove, hnone] at hmessage
    cases hmessage

/-- Stopping keeps the rank steady. -/
theorem Steady.stop : Steady base { r with m_stop := true } :=
  { h with
    base_le_ts := nofun
    gathered := fun message hmessage => by
      rw [hnone] at hmessage
      cases hmessage }

/-- Counting messages keeps the rank steady. -/
theorem Steady.count (rx tx : ℕ) : Steady base { r with m_rxCount := rx, m_txCount := tx } :=
  { h with
    gathered := fun message hmessage => by
      rw [hnone] at hmessage
      cases hmessage }

end

/-- The next event is at most as late as any other. -/
theorem Steady.next_le (h : Steady base r) (hstop : r.m_stop = false) {ev : Event}
    (hev : ev ∈ r.m_events) : r.Next ≤ ev.ts := by
  unfold DistributedSimulatorImpl.Next
  rw [if_neg (by rw [hstop]; exact false_ne_true)]
  have hordered := h.ordered
  cases hevents : r.m_events with
  | nil =>
    rw [hevents] at hev
    cases hev
  | cons next rest =>
    rw [hevents] at hev hordered
    exact hordered.head_le hev

/-- A rank goes on to its next event. -/
theorem Steady.process (h : Steady base r) (hmay : r.MayProcess = true) :
    ∃ next rest, r.m_events = next :: rest ∧ r.m_currentTs ≤ next.ts ∧ base ≤ next.ts ∧
      Steady base { r with m_events := rest, m_currentTs := next.ts } := by
  unfold DistributedSimulatorImpl.MayProcess DistributedSimulatorImpl.IsLocalFinished at hmay
  simp only [and_eq_true, not_eq_true', decide_eq_true_eq, or_eq_false_iff,
    isNone_iff_eq_none] at hmay
  obtain ⟨⟨⟨-, hnone⟩, hempty, hstop⟩, hnext⟩ := hmay
  cases hevents : r.m_events with
  | nil =>
    rw [hevents] at hempty
    cases hempty
  | cons next rest =>
    have hmem : next ∈ r.m_events := hevents ▸ mem_cons_self
    have hrest : ∀ ev ∈ rest, ev ∈ r.m_events := fun ev hev =>
      hevents ▸ mem_cons_of_mem _ hev
    have hordered := h.ordered
    rw [hevents] at hordered
    refine ⟨next, rest, rfl, h.current_le_ts next hmem, h.base_le_ts hstop next hmem, ?_⟩
    have hts : r.Next = next.ts := by
      unfold DistributedSimulatorImpl.Next
      rw [if_neg (by rw [hstop]; exact false_ne_true), hevents]
    exact {
      granted_le := h.granted_le
      current_le := by
        have hgranted := h.granted_le
        rw [hts] at hnext
        dsimp only
        omega
      ordered := hordered.tail
      current_le_ts := fun ev hev => hordered.head_le (mem_cons_of_mem _ hev)
      base_le_ts := fun hstop ev hev => h.base_le_ts hstop ev (hrest ev hev)
      gathered := fun message hmessage => by
        rw [hnone] at hmessage
        cases hmessage }

end Steady

/-! ### The new window -/

/-- The conversion to 64 bits does not increase a time. -/
theorem toInt64_le {x : ℤ} (h : 0 ≤ x) : toInt64 x ≤ x := by
  unfold toInt64
  omega

/-- The smallest time is at most each rank's. -/
theorem smallestTime_le (messages : Fin (n + 1) → LbtsMessage) (i : Fin (n + 1)) :
    smallestTime messages ≤ (messages i).m_smallestTime := by
  have hfold : ∀ (l : List (Fin (n + 1))) (t : ℕ),
      l.foldl (fun smallestTime i => if (messages i).m_smallestTime < smallestTime then
        (messages i).m_smallestTime else smallestTime) t ≤ t ∧
      ∀ i ∈ l, l.foldl (fun smallestTime i => if (messages i).m_smallestTime < smallestTime then
        (messages i).m_smallestTime else smallestTime) t ≤ (messages i).m_smallestTime := by
    intro l
    induction l with
    | nil => exact fun t => ⟨Nat.le_refl _, nofun⟩
    | cons j l ih =>
      intro t
      rw [foldl_cons]
      obtain ⟨hle, hall⟩ := ih (if (messages j).m_smallestTime < t then (messages j).m_smallestTime
        else t)
      refine ⟨Nat.le_trans hle ?_, fun i hi => ?_⟩
      · split_ifs <;> omega
      · obtain rfl | hi := mem_cons.mp hi
        · refine Nat.le_trans hle ?_
          split_ifs <;> omega
        · exact hall i hi
  exact (hfold _ _).2 i (mem_finRange i)

/-- A rank that leaves `MPI_Allgather`, when no packet is in flight or the counters tell that one
is. -/
theorem Steady.leave (h : Steady base r) (hmessage : messages i = r.message) :
    Steady (if totRx messages = totTx messages then max base (smallestTime messages) else base)
      (r.leave messages) := by
  have hle := smallestTime_le messages i
  rw [hmessage] at hle
  have hbase : base ≤ if totRx messages = totTx messages then max base (smallestTime messages)
      else base := by
    split_ifs
    · exact Nat.le_max_left ..
    · exact Nat.le_refl _
  exact {
    granted_le := by
      unfold DistributedSimulatorImpl.leave
      dsimp only
      have hgranted := h.granted_le
      split_ifs with htotal hmax
      · rw [hmax]
        exact_mod_cast Nat.le_add_left _ _
      · refine Int.le_trans (toInt64_le (by omega)) ?_
        exact_mod_cast Nat.add_le_add_right (Nat.le_max_right base _) _
      · exact hgranted
    current_le := Nat.le_trans h.current_le (Nat.add_le_add_right hbase _)
    __ := h
    base_le_ts := fun hstop ev hev => by
      have hts := h.base_le_ts hstop ev hev
      have hnext : r.Next ≤ ev.ts := h.next_le hstop hev
      have hmin : r.message.m_smallestTime = r.Next := rfl
      split_ifs
      · exact Nat.max_le.mpr ⟨hts, by omega⟩
      · exact hts
    gathered := nofun }

/-! ### All ranks -/

/-- The counters of all ranks together. -/
def System.totalRx (s : System n) : ℕ := ∑ i, (s.ranks i).m_rxCount

def System.totalTx (s : System n) : ℕ := ∑ i, (s.ranks i).m_txCount

/-- What holds of all ranks and of what is in flight. -/
structure Keeps (base : ℕ) (s : System n) : Prop where
  steady : ∀ i, Steady base (s.ranks i)
  lookAhead_le : ∀ ch ∈ s.channels, ∀ i, ch.IsRemoteAt i = true →
    (s.ranks i).m_lookAhead ≤ ch.delay
  flying : ∀ p ∈ s.inFlight, base + (s.ranks p.destination).m_lookAhead ≤ p.rxTime
  counts : (s.totalRx + s.inFlight.length) % 2 ^ 32 = s.totalTx % 2 ^ 32
  together : ∀ i j, (s.ranks i).m_globalFinished = (s.ranks j).m_globalFinished
  done : ∀ i, (s.ranks i).m_globalFinished = true →
    (∀ j, (s.ranks j).IsLocalFinished = true) ∧ s.inFlight = []

section Keeps

variable {s : System n}

/-- A sum over the ranks after one is changed, against the sum before. -/
theorem sum_setRank (f : DistributedSimulatorImpl → ℕ) (s : System n) (i : Fin (n + 1))
    (r : DistributedSimulatorImpl) :
    ∑ j, f ((s.setRank i r).ranks j) + f (s.ranks i) = ∑ j, f (s.ranks j) + f r := by
  have happly : ∀ j, f ((s.setRank i r).ranks j) =
      update (fun j => f (s.ranks j)) i (f r) j := fun j =>
    Function.apply_update (fun _ => f) s.ranks i r j
  have hrest := Finset.add_sum_erase Finset.univ (fun j => f (s.ranks j)) (Finset.mem_univ i)
  rw [Finset.sum_congr rfl fun j _ => happly j, Finset.sum_update_of_mem (Finset.mem_univ i),
    ← Finset.erase_eq, ← hrest]
  omega

theorem setRank_self (s : System n) (i : Fin (n + 1)) (r : DistributedSimulatorImpl) :
    (s.setRank i r).ranks i = r := update_self ..

theorem setRank_of_ne (s : System n) {j : Fin (n + 1)} (hne : j ≠ i)
    (r : DistributedSimulatorImpl) :
    (s.setRank i r).ranks j = s.ranks j :=
  update_of_ne hne ..

/-- What holds of the rank set and of the others holds of all. -/
theorem forall_setRank {P : Fin (n + 1) → DistributedSimulatorImpl → Prop} (hr : P i r)
    (hothers : ∀ j, P j (s.ranks j)) (j : Fin (n + 1)) : P j ((s.setRank i r).ranks j) := by
  by_cases heq : j = i
  · subst heq
    rw [setRank_self]
    exact hr
  · rw [setRank_of_ne s heq]
    exact hothers j

/-- A rank that has not finished changes, but for what others know of it, and sends or receives
packets. -/
theorem Keeps.change (h : Keeps base s) {flying : List (Packet n)} (hr : Steady base r)
    (hrunning : (s.ranks i).m_globalFinished = false)
    (hfinished : r.m_globalFinished = (s.ranks i).m_globalFinished)
    (hlookAhead : r.m_lookAhead = (s.ranks i).m_lookAhead)
    (hflying : ∀ p ∈ flying, base + (s.ranks p.destination).m_lookAhead ≤ p.rxTime)
    (hcounts : (s.totalRx + r.m_rxCount + flying.length + (s.ranks i).m_txCount) % 2 ^ 32 =
      (s.totalTx + r.m_txCount + (s.ranks i).m_rxCount) % 2 ^ 32) :
    Keeps base { s.setRank i r with inFlight := flying } := by
  have hahead : ∀ j, ((s.setRank i r).ranks j).m_lookAhead = (s.ranks j).m_lookAhead :=
    forall_setRank (P := fun j r => r.m_lookAhead = (s.ranks j).m_lookAhead) hlookAhead
      fun _ => rfl
  have hglobal : ∀ j, ((s.setRank i r).ranks j).m_globalFinished = false := by
    refine forall_setRank (P := fun _ r => r.m_globalFinished = false) ?_ fun j => ?_
    · rw [hfinished, hrunning]
    · rw [h.together j i, hrunning]
  exact {
    steady := forall_setRank (P := fun _ r => Steady base r) hr h.steady
    lookAhead_le := fun ch hch j hj => by
      refine Nat.le_trans (Nat.le_of_eq (hahead j)) ?_
      exact h.lookAhead_le ch hch j hj
    flying := fun p hp => by
      refine Nat.le_trans (Nat.le_of_eq ?_) (hflying p hp)
      exact congrArg (base + ·) (hahead p.destination)
    counts := by
      have hrx := sum_setRank m_rxCount s i r
      have htx := sum_setRank m_txCount s i r
      unfold System.totalRx System.totalTx at hcounts ⊢
      dsimp only at hrx htx ⊢
      show (∑ j, ((s.setRank i r).ranks j).m_rxCount + flying.length) % 2 ^ 32 =
        (∑ j, ((s.setRank i r).ranks j).m_txCount) % 2 ^ 32
      omega
    together := fun j k => (hglobal j).trans (hglobal k).symm
    done := fun j hj => absurd ((hglobal j).symm.trans hj) false_ne_true }

/-- A rank is executing an event, or receiving packets. -/
structure Busy (base : ℕ) (s : System n) (i : Fin (n + 1)) : Prop where
  keeps : Keeps base s
  running : (s.ranks i).m_globalFinished = false
  gathered : (s.ranks i).gathered = none

/-- What a handler may ask for at a time: nothing in the past, and packets over its own remote
channels. -/
def Request.Valid (channels : List (Channel n)) (i : Fin (n + 1)) (now : ℕ) :
    Request n → Prop
  | .schedule ts => now ≤ ts
  | .sendPacket ch _ => ch ∈ channels ∧ ch.IsRemoteAt i = true
  | .remove _ | .stop => True

/-- A rank changes, but nothing in flight. -/
theorem Busy.change (h : Busy base s i) (hr : Steady base r)
    (hfinished : r.m_globalFinished = (s.ranks i).m_globalFinished)
    (hgathered : r.gathered = (s.ranks i).gathered)
    (hlookAhead : r.m_lookAhead = (s.ranks i).m_lookAhead)
    (hrx : r.m_rxCount = (s.ranks i).m_rxCount) (htx : r.m_txCount = (s.ranks i).m_txCount) :
    Busy base (s.setRank i r) i := by
  have hcounts : (s.totalRx + r.m_rxCount + s.inFlight.length + (s.ranks i).m_txCount) % 2 ^ 32 =
      (s.totalTx + r.m_txCount + (s.ranks i).m_rxCount) % 2 ^ 32 := by
    have := h.keeps.counts
    rw [hrx, htx]
    omega
  refine ⟨h.keeps.change hr h.running hfinished hlookAhead h.keeps.flying hcounts, ?_, ?_⟩
  · rw [setRank_self, hfinished]
    exact h.running
  · rw [setRank_self, hgathered]
    exact h.gathered

/-- A remote channel is remote at both ends. -/
theorem isRemoteAt_otherEnd (h : ch.IsRemoteAt i = true) :
    ch.IsRemoteAt (ch.otherEnd i) = true := by
  unfold Channel.IsRemoteAt at h ⊢
  rw [and_eq_true] at h ⊢
  refine ⟨h.1, ?_⟩
  unfold Channel.otherEnd
  split_ifs
  · rw [beq_self_eq_true, Bool.or_true]
  · rw [beq_self_eq_true, Bool.true_or]

/-- Sending over a remote channel keeps the ranks in step. -/
theorem Busy.sendPacket (h : Busy base s i) (hbase : base ≤ (s.ranks i).m_currentTs)
    (hch : ch ∈ s.channels) (hremote : ch.IsRemoteAt i = true) (txTime : ℕ) :
    Busy base (s.SendPacket i ch txTime) i := by
  have hdelay := h.keeps.lookAhead_le ch hch (ch.otherEnd i) (isRemoteAt_otherEnd hremote)
  refine ⟨h.keeps.change ?_ h.running rfl rfl ?_ ?_, ?_, ?_⟩
  · exact (h.keeps.steady i).count h.gathered _ _
  · intro p hp
    obtain hp | hp := mem_append.mp hp
    · exact h.keeps.flying p hp
    · obtain rfl := mem_singleton.mp hp
      dsimp only
      omega
  · have := h.keeps.counts
    rw [length_append, length_singleton]
    dsimp only
    omega
  · exact (congrArg m_globalFinished (setRank_self s i _)).trans h.running
  · exact (congrArg DistributedSimulatorImpl.gathered (setRank_self s i _)).trans h.gathered

/-- One request of a handler. -/
theorem Busy.serve (h : Busy base s i) (hbase : base ≤ (s.ranks i).m_currentTs)
    {request : Request n} (hvalid : request.Valid s.channels i (s.ranks i).m_currentTs) :
    Busy base (System.serve i s request) i ∧
      ((System.serve i s request).ranks i).m_currentTs = (s.ranks i).m_currentTs ∧
      (System.serve i s request).channels = s.channels := by
  have hsteady := h.keeps.steady i
  cases request with
  | schedule ts =>
    have hts : (s.ranks i).m_currentTs ≤ ts := hvalid
    refine ⟨h.change ?_ rfl rfl rfl rfl rfl, ?_, rfl⟩
    · exact hsteady.schedule h.gathered hts (Nat.le_trans hbase hts)
    · exact (congrArg m_currentTs (setRank_self s i _)).trans rfl
  | remove uid =>
    refine ⟨h.change (hsteady.remove h.gathered uid) rfl rfl rfl rfl rfl, ?_, rfl⟩
    exact (congrArg m_currentTs (setRank_self s i _)).trans rfl
  | sendPacket ch txTime =>
    refine ⟨h.sendPacket hbase hvalid.1 hvalid.2 txTime, ?_, rfl⟩
    exact (congrArg m_currentTs (setRank_self s i _)).trans rfl
  | stop =>
    refine ⟨h.change (hsteady.stop h.gathered) rfl rfl rfl rfl rfl, ?_, rfl⟩
    exact (congrArg m_currentTs (setRank_self s i _)).trans rfl

/-- All requests of a handler. -/
theorem Busy.serveAll (h : Busy base s i) {now : ℕ} (hbase : base ≤ now)
    (hnow : (s.ranks i).m_currentTs = now) {channels : List (Channel n)}
    (hchannels : s.channels = channels)
    {handler : List (Request n)} (hvalid : ∀ request ∈ handler, request.Valid channels i now) :
    Busy base (handler.foldl (System.serve i) s) i := by
  induction handler generalizing s with
  | nil => exact h
  | cons request handler ih =>
    have hfirst := hvalid request mem_cons_self
    rw [← hnow, ← hchannels] at hfirst
    obtain ⟨h', hnow', hchannels'⟩ := h.serve (hnow ▸ hbase) hfirst
    exact ih h' (hnow'.trans hnow) (hchannels'.trans hchannels) fun request hrequest =>
      hvalid request (mem_cons_of_mem _ hrequest)

/-- A packet is received: its time is not past, and the rank can still execute it. -/
theorem Busy.receive (h : Busy base s i) {p : Packet n} (hp : p ∈ s.inFlight)
    (hdestination : p.destination = i) :
    Busy base (s.receive i p) i ∧ (s.ranks i).m_currentTs ≤ p.rxTime ∧
      ((s.receive i p).ranks i).m_currentTs = (s.ranks i).m_currentTs ∧
      (s.receive i p).inFlight = s.inFlight.erase p := by
  have hsteady := h.keeps.steady i
  have hrx := h.keeps.flying p hp
  rw [hdestination] at hrx
  have hnow : (s.ranks i).m_currentTs ≤ p.rxTime := Nat.le_trans hsteady.current_le hrx
  refine ⟨⟨h.keeps.change ?_ h.running rfl rfl ?_ ?_, ?_, ?_⟩, hnow, ?_, rfl⟩
  · refine Steady.schedule (hsteady.count h.gathered _ _) h.gathered hnow ?_
    exact Nat.le_trans (Nat.le_add_right _ _) hrx
  · exact fun q hq => h.keeps.flying q (mem_of_mem_erase hq)
  · have := h.keeps.counts
    have hlength := length_erase_of_mem hp
    have hpos := length_pos_of_mem hp
    rw [hlength]
    dsimp only [DistributedSimulatorImpl.Schedule]
    omega
  · exact (congrArg m_globalFinished (setRank_self s i _)).trans h.running
  · exact (congrArg DistributedSimulatorImpl.gathered (setRank_self s i _)).trans h.gathered
  · exact (congrArg m_currentTs (setRank_self s i _)).trans rfl

/-- All that has arrived is received. -/
theorem Busy.receiveAll (h : Busy base s i) {arrived : List (Packet n)}
    (hsub : arrived.Subperm s.inFlight) (hdestination : ∀ p ∈ arrived, p.destination = i) :
    Busy base (arrived.foldl (fun s p => s.receive i p) s) i ∧
      (∀ p ∈ arrived, (s.ranks i).m_currentTs ≤ p.rxTime) ∧
      ((arrived.foldl (fun s p => s.receive i p) s).ranks i).m_currentTs =
        (s.ranks i).m_currentTs := by
  induction arrived generalizing s with
  | nil => exact ⟨h, nofun, rfl⟩
  | cons p arrived ih =>
    have hp : p ∈ s.inFlight := hsub.subset mem_cons_self
    obtain ⟨h', hnow, hcurrent, hflight⟩ := h.receive hp (hdestination p mem_cons_self)
    have hsub' : arrived.Subperm (s.receive i p).inFlight := by
      rw [hflight]
      have herase := hsub.erase p
      rw [erase_cons_head] at herase
      exact herase
    obtain ⟨hall, hrest, hcurrent'⟩ := ih h' hsub' fun q hq =>
      hdestination q (mem_cons_of_mem _ hq)
    refine ⟨hall, fun q hq => ?_, hcurrent'.trans hcurrent⟩
    obtain rfl | hq := mem_cons.mp hq
    · exact hnow
    · rw [← hcurrent]
      exact hrest q hq

/-- While packets are in flight, fewer than the counters can tell from none, some rank has not
finished. -/
def FinishesEmpty (s : System n) : Prop :=
  s.inFlight ≠ [] → s.inFlight.length < 2 ^ 32 ∧ ∃ i, (s.ranks i).IsLocalFinished = false

/-- The messages gathered are those of the ranks. -/
theorem Keeps.messages_eq (h : Keeps base s) (hmessages : s.messages? = some messages)
    (i : Fin (n + 1)) : messages i = (s.ranks i).message := by
  unfold System.messages? at hmessages
  split_ifs at hmessages with hall
  cases hmessages
  obtain ⟨message, hmessage⟩ := isSome_iff_exists.mp (hall i)
  have heq := (h.steady i).gathered message hmessage
  dsimp only
  rw [hmessage, getD_some, heq]

/-- All ranks leave `MPI_Allgather`. -/
theorem Keeps.leave (h : Keeps base s) (hmessages : s.messages? = some messages)
    (hempty : FinishesEmpty s) :
    ∃ base', Keeps base' { s with ranks := fun i => (s.ranks i).leave messages } := by
  have heq := h.messages_eq hmessages
  have hrx : totRx messages = s.totalRx % 2 ^ 32 := by
    unfold totRx System.totalRx
    rw [Finset.sum_congr rfl fun i _ => congrArg LbtsMessage.m_rxCount (heq i)]
    rfl
  have htx : totTx messages = s.totalTx % 2 ^ 32 := by
    unfold totTx System.totalTx
    rw [Finset.sum_congr rfl fun i _ => congrArg LbtsMessage.m_txCount (heq i)]
    rfl
  refine ⟨_, {
    steady := fun i => (h.steady i).leave (heq i)
    __ := h
    flying := ?_
    together := fun _ _ => rfl
    done := ?_ }⟩
  · intro p hp
    rw [if_neg]
    · exact h.flying p hp
    · -- the counters tell that a packet is in flight
      rw [hrx, htx]
      have hcounts := h.counts
      have hlength := (hempty (ne_nil_of_mem hp)).1
      have hpos : 0 < s.inFlight.length := length_pos_of_mem hp
      omega
  · intro i hi
    have hall : ∀ j, (s.ranks j).IsLocalFinished = true := fun j => by
      have hj := of_decide_eq_true hi j
      rw [heq j] at hj
      exact hj
    refine ⟨hall, ?_⟩
    by_contra hne
    obtain ⟨-, j, hj⟩ := hempty hne
    rw [hall j] at hj
    cases hj

end Keeps

/-! ### Runs -/

namespace System

/-- The calls that can be made, with what handlers may ask for and what can have arrived. -/
def Enabled (s : System n) : Call n → Prop
  | .processOneEvent i handler => (s.ranks i).MayProcess = true ∧
    ∀ request ∈ handler, request.Valid s.channels i (s.ranks i).Next
  | .synchronize i arrived => (s.ranks i).MaySynchronize = true ∧
    arrived.Subperm s.inFlight ∧ ∀ p ∈ arrived, p.destination = i
  | .allgather => s.messages?.isSome = true

/-- Every event was executed at its time, no packet was received too late, and the ranks go on
until all have finished and no packet is in flight. -/
structure Right (s : System n) (h : List (Action n)) : Prop where
  executed : ∀ i currentTs ts, .executed i currentTs ts ∈ h → currentTs ≤ ts
  received : ∀ i currentTs p, .received i currentTs p ∈ h → currentTs ≤ p.rxTime
  ends : ∀ i, (s.ranks i).m_globalFinished = true →
    (∀ j, (s.ranks j).IsLocalFinished = true) ∧ s.inFlight = []

/-- Nothing was executed or received too late. -/
def Timely (h : List (Action n)) : Prop :=
  ∀ action ∈ h, match action with
    | .executed _ currentTs ts => currentTs ≤ ts
    | .received _ currentTs p => currentTs ≤ p.rxTime

/-- What one call keeps. -/
theorem step_keeps {s : System n} {call : Call n} (h : Keeps base s) (henabled : Enabled s call)
    (hempty : call = .allgather → FinishesEmpty s) :
    ∃ s' actions, step s call = .ok (s', actions) ∧ (∃ base', Keeps base' s') ∧
      Timely actions := by
  cases call with
  | processOneEvent i handler =>
    obtain ⟨hmay, hvalid⟩ := henabled
    obtain ⟨next, rest, hevents, hnow, hbase, hsteady⟩ := (h.steady i).process hmay
    have hrank := hmay
    unfold DistributedSimulatorImpl.MayProcess DistributedSimulatorImpl.IsLocalFinished at hrank
    simp only [and_eq_true, not_eq_true', isNone_iff_eq_none,
      or_eq_false_iff] at hrank
    obtain ⟨⟨⟨hrunning, hnone⟩, -, hstop⟩, -⟩ := hrank
    have hnext : (s.ranks i).Next = next.ts := by
      unfold DistributedSimulatorImpl.Next
      rw [if_neg (by rw [hstop]; exact false_ne_true), hevents]
    rw [hnext] at hvalid
    -- The clock moves to the event, and its handler runs to its end.
    have hbusy : Busy base
        (s.setRank i { s.ranks i with m_events := rest, m_currentTs := next.ts }) i :=
      Busy.change ⟨h, hrunning, hnone⟩ hsteady rfl rfl rfl rfl rfl
    have hstart : (s.setRank i { s.ranks i with
        m_events := rest, m_currentTs := next.ts }).ranks i =
          { s.ranks i with m_events := rest, m_currentTs := next.ts } := setRank_self s i _
    have hall := hbusy.serveAll hbase (congrArg m_currentTs hstart) rfl
      hvalid
    refine ⟨_, [.executed i (s.ranks i).m_currentTs next.ts], ?_, ⟨base, hall.keeps⟩, ?_⟩
    · rw [step, if_pos hmay, ProcessOneEvent, hevents]
      dsimp only
      rw [if_neg (Nat.not_lt.mpr hnow)]
    · intro action haction
      obtain rfl := mem_singleton.mp haction
      exact hnow
  | synchronize i arrived =>
    obtain ⟨hmay, hsub, hdestination⟩ := henabled
    have hrank := hmay
    unfold DistributedSimulatorImpl.MaySynchronize at hrank
    simp only [and_eq_true, not_eq_true', isNone_iff_eq_none] at hrank
    obtain ⟨⟨hrunning, hnone⟩, -⟩ := hrank
    obtain ⟨hbusy, hnow, hcurrent⟩ :=
      Busy.receiveAll ⟨h, hrunning, hnone⟩ hsub hdestination
    refine ⟨_, _, by rw [step, if_pos hmay], ⟨base, ?_⟩, ?_⟩
    · have hcounts := hbusy.keeps.counts
      refine hbusy.keeps.change ?_ hbusy.running rfl rfl hbusy.keeps.flying ?_
      · exact { hbusy.keeps.steady i with
          gathered := fun message hmessage => (Option.some.inj hmessage).symm }
      · dsimp only
        omega
    · intro action haction
      obtain ⟨p, hp, rfl⟩ := mem_map.mp haction
      show (m_currentTs _) ≤ p.rxTime
      rw [hcurrent]
      exact hnow p hp
  | allgather =>
    obtain ⟨messages, hmessages⟩ := isSome_iff_exists.mp henabled
    obtain ⟨base', h'⟩ := h.leave hmessages (hempty rfl)
    exact ⟨_, [], by rw [step, hmessages], ⟨base', h'⟩, fun _ hmem => absurd hmem not_mem_nil⟩

/-- Events that are scheduled change nothing else. -/
theorem foldl_schedule_eq (r : DistributedSimulatorImpl) (times : List ℕ) :
    ∃ events uid, times.foldl DistributedSimulatorImpl.Schedule r =
      { r with m_events := events, m_uid := uid } := by
  induction times generalizing r with
  | nil => exact ⟨r.m_events, r.m_uid, rfl⟩
  | cons ts times ih =>
    obtain ⟨events, uid, heq⟩ := ih (r.Schedule ts)
    exact ⟨events, uid, heq⟩

/-- The initial events keep a rank steady. -/
theorem foldl_schedule_steady (h : Steady 0 r) (hcurrent : r.m_currentTs = 0)
    (hnone : r.gathered = none) (times : List ℕ) :
    Steady 0 (times.foldl DistributedSimulatorImpl.Schedule r) := by
  induction times generalizing r with
  | nil => exact h
  | cons ts times ih =>
    refine ih (h.schedule hnone ?_ (Nat.zero_le _)) hcurrent hnone
    rw [hcurrent]
    exact Nat.zero_le _

/-- Every start of the simulation keeps the invariant. -/
theorem run_keeps (channels : List (Channel n)) (lookAhead : Fin (n + 1) → Option SimTime)
    (scheduled : Fin (n + 1) → List ℕ) : Keeps 0 (run channels lookAhead scheduled) := by
  have hrank := fun i => foldl_schedule_eq ⟨[], 4, 0, false, false,
    CalculateLookAhead channels lookAhead i, CalculateLookAhead channels lookAhead i, 0, 0, none⟩
    (scheduled i)
  have hfinished : ∀ i,
      ((run channels lookAhead scheduled).ranks i).m_globalFinished = false := by
    intro i
    obtain ⟨events, uid, heq⟩ := hrank i
    exact congrArg m_globalFinished heq
  exact {
    steady := fun i => by
      refine foldl_schedule_steady ?_ rfl rfl (scheduled i)
      exact {
        granted_le := by rw [Nat.zero_add]
        current_le := Nat.zero_le _
        ordered := List.Pairwise.nil
        current_le_ts := nofun
        base_le_ts := nofun
        gathered := nofun }
    lookAhead_le := fun ch hch i hremote => by
      obtain ⟨events, uid, heq⟩ := hrank i
      refine Nat.le_trans (Nat.le_of_eq ?_) (calculateLookAhead_le channels lookAhead hch hremote)
      exact congrArg m_lookAhead heq
    flying := nofun
    counts := by
      have hzero (f : DistributedSimulatorImpl → ℕ)
          (hf : ∀ i, f ((run channels lookAhead scheduled).ranks i) = 0) :
          ∑ i, f ((run channels lookAhead scheduled).ranks i) = 0 :=
        Finset.sum_eq_zero fun i _ => hf i
      have hrx := hzero m_rxCount fun i => by
        obtain ⟨events, uid, heq⟩ := hrank i
        exact congrArg m_rxCount heq
      have htx := hzero m_txCount fun i => by
        obtain ⟨events, uid, heq⟩ := hrank i
        exact congrArg m_txCount heq
      show (∑ i, _ + 0) % 2 ^ 32 = (∑ i, _) % 2 ^ 32
      rw [hrx, htx]
    together := fun i j => (hfinished i).trans (hfinished j).symm
    done := fun i hi => absurd ((hfinished i).symm.trans hi) false_ne_true }

/-- **Granted time windows are safe**, for any channels, handlers and delays of messages, if in
every `MPI_Allgather` with packets in flight some rank has not finished: every call returns, events
are executed in the order of their times, no packet is received too late, and the simulation ends
only when no packet is in flight. -/
theorem windows_safe (channels : List (Channel n)) (lookAhead : Fin (n + 1) → Option SimTime)
    (scheduled : Fin (n + 1) → List ℕ) (calls : List (Call n))
    (hmeets : TracedRun.Meets step (fun s _ call => Enabled s call ∧
      (call = .allgather → FinishesEmpty s)) (run channels lookAhead scheduled) [] calls) :
    TracedRun.Throughout step Right (run channels lookAhead scheduled) [] calls := by
  refine TracedRun.throughout_of_meets (J := fun s h => (∃ base, Keeps base s) ∧ Timely h)
    ?_ ?_ ⟨⟨0, run_keeps channels lookAhead scheduled⟩, fun _ hmem => absurd hmem not_mem_nil⟩
    hmeets
  · intro s h call hs hcall
    obtain ⟨⟨base, hkeeps⟩, htimely⟩ := hs
    obtain ⟨s', actions, hok, hkeeps', hactions⟩ := step_keeps hkeeps hcall.1 hcall.2
    refine ⟨s', actions, hok, hkeeps', fun action haction => ?_⟩
    obtain haction | haction := mem_append.mp haction
    · exact htimely action haction
    · exact hactions action haction
  · intro s h hs
    obtain ⟨⟨base, hkeeps⟩, htimely⟩ := hs
    exact ⟨fun i currentTs ts hmem => htimely _ hmem, fun i currentTs p hmem => htimely _ hmem,
      hkeeps.done⟩

instance (channels : List (Channel n)) (i : Fin (n + 1)) (now : ℕ) (request : Request n) :
    Decidable (request.Valid channels i now) :=
  match request with
  | .schedule _ => inferInstanceAs (Decidable (_ ≤ _))
  | .sendPacket _ _ => inferInstanceAs (Decidable (_ ∧ _ = _))
  | .remove _ | .stop => .isTrue trivial

instance (s : System n) (call : Call n) : Decidable (Enabled s call) :=
  match call with
  | .processOneEvent _ _ => inferInstanceAs (Decidable (_ = _ ∧ ∀ _ ∈ _, _))
  | .synchronize _ _ => inferInstanceAs (Decidable (_ = _ ∧ _ ∧ ∀ _ ∈ _, _ = _))
  | .allgather => inferInstanceAs (Decidable (_ = _))

instance (s : System n) : Decidable (FinishesEmpty s) :=
  inferInstanceAs (Decidable (_ ≠ _ → _ < _ ∧ ∃ i, (s.ranks i).IsLocalFinished = false))

/-- A channel between two ranks. -/
def link : Channel 1 := ⟨0, 1, 5⟩

/-- Two ranks with that channel, the first with an event at 0. -/
def twoRanks : System 1 := run [link] (fun _ => none) fun i => if i = 0 then [0] else []

/-- A packet is sent, travels while a window is calculated, and is executed on the other side. -/
theorem windows_safe_transient :
    TracedRun.Throughout step Right twoRanks []
      [.processOneEvent 0 [.sendPacket link 2, .schedule 6, .schedule 20],
        .synchronize 0 [], .synchronize 1 [], .allgather,
        .synchronize 0 [], .synchronize 1 [⟨link, 1, 7⟩], .allgather,
        .processOneEvent 0 [.stop], .processOneEvent 1 []] :=
  windows_safe [link] (fun _ => none) (fun i => if i = 0 then [0] else []) _ (by decide +kernel)

/-- A packet is in flight when both ranks have no event left, and the simulation ends. -/
theorem packet_lost_in_flight :
    ¬ ∀ (n : ℕ) (channels : List (Channel n)) (lookAhead : Fin (n + 1) → Option SimTime)
      (scheduled : Fin (n + 1) → List ℕ) (calls : List (Call n)),
      TracedRun.Meets step (fun s _ call => Enabled s call)
        (run channels lookAhead scheduled) [] calls →
      TracedRun.Throughout step Right (run channels lookAhead scheduled) [] calls := by
  intro hall
  have hthroughout := hall 1 [link] (fun _ => none) (fun i => if i = 0 then [0] else [])
    [.processOneEvent 0 [.sendPacket link 0], .synchronize 0 [], .synchronize 1 [], .allgather]
    (by decide +kernel)
  obtain ⟨s, actions, hrun, hright⟩ := hthroughout.exists_run nofun
  have hlost : (match TracedRun.run step twoRanks [.processOneEvent 0 [.sendPacket link 0],
      .synchronize 0 [], .synchronize 1 [], .allgather] with
    | .ok r => (r.1.ranks 0).m_globalFinished && !r.1.inFlight.isEmpty
    | .error _ => false) = true := by decide +kernel
  unfold twoRanks at hlost
  rw [hrun] at hlost
  dsimp only at hlost
  rw [and_eq_true] at hlost
  obtain ⟨hfinished, hflying⟩ := hlost
  rw [(hright.ends 0 hfinished).2] at hflying
  cases hflying

end System
end Ns3Joined.Mpi
