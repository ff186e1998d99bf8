import Ns3Joined.Wifi.BlockAckWindow

/-!
# The transmit window records what was acknowledged

The elements of the circular queue are read in the order of the window (`slot`), and stand for
the numbers from its start on. Advancing the queue then only shifts what they stand for
(`Queue.advance`), whatever the count.

* `Queue`: a queue stands for a window.
* `Queue.advanceWhile`: the loop ends, at the first number that is not acknowledged.
* `start_le`, `passed`: where a moved window starts, and what it has passed.
* `window_keeps`: over all runs.
* `discarding_overtakes`: a discarded MPDU takes those before it along.
-/

namespace Ns3Joined.Wifi

open CircularRange List

/-! ### Windows -/

namespace Acked

variable {t : Acked} {l : List ℕ} {s n k b : ℕ}

/-- At most so many are leading as were looked at. -/
theorem leading_le (l : List ℕ) (s n : ℕ) : leading l s n ≤ n := by
  induction n generalizing s with
  | zero => exact Nat.le_refl 0
  | succ n ih =>
    rw [leading]
    split_ifs
    · exact Nat.succ_le_succ (ih (s + 1))
    · exact Nat.zero_le _

/-- What is leading is in the list. -/
theorem mem_of_lt_leading (hk : k < leading l s n) : s + k ∈ l := by
  induction n generalizing s k with
  | zero => exact absurd hk (Nat.not_lt_zero k)
  | succ n ih =>
    rw [leading] at hk
    split_ifs at hk with hs
    · cases k with
      | zero => exact hs
      | succ k =>
        have := ih (s := s + 1) (k := k) (by omega)
        rwa [Nat.add_right_comm, Nat.add_assoc] at this
    · exact absurd hk (Nat.not_lt_zero k)

/-- A gap ends what is leading. -/
theorem leading_succ (h : s + n ∉ l) : leading l s (n + 1) = leading l s n := by
  induction n generalizing s with
  | zero => exact if_neg h
  | succ n ih =>
    have ih := ih (s := s + 1) (by rwa [Nat.add_right_comm, Nat.add_assoc])
    rw [leading, ih]
    rfl

/-- What is leading ends at a gap. -/
theorem add_leading_notMem (h : s + n ∉ l) : s + leading l s n ∉ l := by
  induction n generalizing s with
  | zero => exact h
  | succ n ih =>
    rw [leading]
    split_ifs with hs
    · have := ih (s := s + 1) (by rwa [Nat.add_right_comm, Nat.add_assoc])
      rwa [Nat.add_right_comm, Nat.add_assoc] at this
    · exact hs

/-- What is leading ends with the list. -/
theorem add_leading_le (hl : ∀ m ∈ l, m < b) (s n : ℕ) : s + leading l s n ≤ max s b := by
  by_cases hzero : leading l s n = 0
  · rw [hzero]
    exact Nat.le_max_left s b
  · have hlast := hl _ (mem_of_lt_leading (l := l) (s := s) (n := n)
      (k := leading l s n - 1) (by omega))
    refine Nat.le_trans ?_ (Nat.le_max_right s b)
    omega

/-- What the window passed lay before the start or is acknowledged. -/
theorem lt_or_mem_of_lt_moveTo (h : n < (t.moveTo s).start) : n < s ∨ n ∈ t.acked := by
  by_cases hn : n < s
  · exact .inl hn
  · refine .inr ?_
    have hk : n - s < leading t.acked s t.size := by
      change n < s + leading t.acked s t.size at h
      omega
    have := mem_of_lt_leading hk
    rwa [Nat.add_sub_of_le (not_lt.mp hn)] at this

end Acked

/-! ### The circular queue -/

namespace BlockAckWindow

open Acked (leading)

variable {w : BlockAckWindow} {t : Acked} {k : ℕ}

/-- The element that many steps after the head. -/
def slot (w : BlockAckWindow) (k : ℕ) : Bool :=
  w.m_window.getD (after w.m_window.length w.m_head k) false

/-- A queue stands for a window. -/
structure Queue (w : BlockAckWindow) (t : Acked) : Prop where
  start : w.m_winStart = t.start % SEQNO_SPACE_SIZE
  length : w.m_window.length = t.size
  head : w.m_head < t.size
  slot_eq : ∀ k < t.size, w.slot k = decide (t.start + k ∈ t.acked)
  bound : ∀ n ∈ t.acked, n < t.start + t.size

/-- The index of a position of the window. -/
theorem Queue.index_eq (h : Queue w t) (hk : k < t.size) :
    w.index k = .ok (after w.m_window.length w.m_head k) := by
  unfold index
  rw [if_pos (h.length ▸ hk)]
  exact if_pos (after_lt (h.length ▸ h.head))

/-- The flag of a position says whether it is acknowledged. -/
theorem Queue.at_eq (h : Queue w t) (hk : k < t.size) :
    w.At k = .ok (decide (t.start + k ∈ t.acked)) := by
  rw [← h.slot_eq k hk, At, h.index_eq hk]
  rfl

/-- The flags after one was set. -/
theorem getD_set {l : List Bool} {i j : ℕ} {b : Bool} (hi : i < l.length) :
    (l.set i b).getD j false = if j = i then b else l.getD j false := by
  rw [getD_eq_getElem?_getD, getD_eq_getElem?_getD, List.getElem?_set]
  by_cases hj : i = j
  · rw [if_pos hj, if_pos hj.symm, if_pos hi]
    rfl
  · rw [if_neg hj, if_neg (Ne.symm hj)]

/-- An element set: the number it stands for is acknowledged. -/
theorem Queue.setAt (h : Queue w t) (hk : k < t.size) :
    ∃ w', w.setAt k = .ok w' ∧ Queue w' { t with acked := (t.start + k) :: t.acked } := by
  have hhead := h.length ▸ h.head
  refine ⟨{ w with m_window := w.m_window.set (after w.m_window.length w.m_head k) true }, ?_,
    h.start, ?_, h.head, ?_, ?_⟩
  · rw [BlockAckWindow.setAt, h.index_eq hk]
    rfl
  · exact (length_set ..).trans h.length
  · intro j hj
    have hset := getD_set (l := w.m_window) (j := after w.m_window.length w.m_head j) (b := true)
      (after_lt (k := k) hhead)
    have hslot : w.m_window.getD (after w.m_window.length w.m_head j) false = _ := h.slot_eq j hj
    have hiff : after w.m_window.length w.m_head j = after w.m_window.length w.m_head k ↔ j = k :=
      ⟨after_injective hhead (h.length ▸ hj) (h.length ▸ hk), fun heq => heq ▸ rfl⟩
    change List.getD (w.m_window.set _ true) (after (List.length (w.m_window.set _ true)) _ _) _ = _
    rw [length_set, hset, hslot]
    by_cases hjk : j = k
    · simp [hjk]
    · rw [if_neg (mt hiff.mp hjk)]
      simp [hjk]
  · intro n hn
    obtain rfl | hn := mem_cons.mp hn
    · change t.start + k < t.start + t.size
      omega
    · exact h.bound n hn

/-- One step of the head: the element it leaves is cleared, and becomes the last. -/
theorem slot_advanceHead (hhead : w.m_head < w.m_window.length) (hk : k < w.m_window.length) :
    w.advanceHead.slot k = if k + 1 < w.m_window.length then w.slot (k + 1) else false := by
  have hindex : after w.m_window.length ((w.m_head + 1) % w.m_window.length) k =
      after w.m_window.length w.m_head (k + 1) := by
    rw [Nat.add_comm k 1]
    exact after_after
  have hself : after w.m_window.length w.m_head (k + 1) = w.m_head ↔
      ¬ k + 1 < w.m_window.length := by
    rw [after_eq hhead hk]
    split_ifs <;> omega
  change List.getD (w.m_window.set _ false) (after (List.length (w.m_window.set _ false))
    ((w.m_head + 1) % w.m_window.length) k) false = _
  rw [length_set, hindex, getD_set hhead]
  by_cases hlast : k + 1 < w.m_window.length
  · rw [if_neg (fun h => hself.mp h hlast), if_pos hlast]
    rfl
  · rw [if_pos (hself.mpr hlast), if_neg hlast]

/-- The loop of `Advance`. -/
theorem advanceHead_iterate (hhead : w.m_head < w.m_window.length) (count : ℕ) :
    (advanceHead^[count] w).m_window.length = w.m_window.length ∧
    (advanceHead^[count] w).m_head < w.m_window.length ∧
    ∀ k < w.m_window.length, (advanceHead^[count] w).slot k =
      if k + count < w.m_window.length then w.slot (k + count) else false := by
  induction count with
  | zero =>
    refine ⟨rfl, hhead, fun k hk => ?_⟩
    exact (if_pos hk).symm
  | succ count ih =>
    obtain ⟨hlength, hhead', hslot⟩ := ih
    rw [Function.iterate_succ_apply']
    refine ⟨(length_set ..).trans hlength, ?_, fun k hk => ?_⟩
    · have := Nat.mod_lt ((advanceHead^[count] w).m_head + 1)
        (show (advanceHead^[count] w).m_window.length > 0 by omega)
      rw [hlength] at this
      change ((advanceHead^[count] w).m_head + 1) % (advanceHead^[count] w).m_window.length < _
      rwa [hlength]
    · rw [slot_advanceHead (hlength.symm ▸ hhead') (hlength.symm ▸ hk), hlength]
      by_cases hlast : k + 1 < w.m_window.length
      · rw [if_pos hlast, hslot (k + 1) hlast, Nat.add_right_comm, Nat.add_assoc]
      · rw [if_neg hlast, if_neg (by omega)]

/-- A new window has no flag set. -/
theorem slot_init (winStart winSize k : ℕ) : (Init winStart winSize).slot k = false := by
  change List.getD (List.replicate winSize false) _ _ = _
  rw [getD_eq_getElem?_getD, List.getElem?_replicate]
  split_ifs <;> rfl

/-- Advancing the window passes positions. -/
theorem Queue.advance (h : Queue w t) (count : ℕ) :
    Queue (w.Advance count) { t with start := t.start + count } := by
  have hstart : (w.m_winStart + count) % SEQNO_SPACE_SIZE =
      (t.start + count) % SEQNO_SPACE_SIZE := by
    rw [h.start, Nat.mod_add_mod]
  have hbound : ∀ n ∈ t.acked, n < t.start + count + t.size := by
    intro n hn
    have := h.bound n hn
    omega
  have hlength := h.length
  unfold Advance
  by_cases hcount : count ≥ w.m_window.length
  · -- all elements leave the window
    rw [if_pos hcount]
    refine ⟨hstart, (length_replicate ..).trans hlength, Nat.zero_lt_of_lt h.head, ?_, hbound⟩
    intro k hk
    have hout : t.start + count + k ∉ t.acked := fun hmem => by
      have := h.bound _ hmem
      omega
    exact (slot_init _ _ k).trans (decide_eq_false hout).symm
  · rw [if_neg hcount]
    obtain ⟨hlength', hhead', hslot⟩ := advanceHead_iterate (hlength ▸ h.head) count
    refine ⟨hstart, hlength'.trans hlength, hlength ▸ hhead', ?_, hbound⟩
    intro k hk
    refine (hslot k (hlength ▸ hk)).trans ?_
    change _ = decide (t.start + count + k ∈ t.acked)
    rw [Nat.add_assoc, Nat.add_comm count k]
    split_ifs with hin
    · exact h.slot_eq (k + count) (hlength ▸ hin)
    · refine (decide_eq_false fun hmem => ?_).symm
      have := h.bound _ hmem
      omega

/-- The loop ends at the first number that is not acknowledged. -/
theorem Queue.advanceWhile (h : Queue w t) (rounds : ℕ)
    (hrounds : leading t.acked t.start rounds < rounds) :
    ∃ w', OriginatorBlockAckAgreement.advanceWhile rounds w = .ok w' ∧
      Queue w' { t with start := t.start + leading t.acked t.start rounds } := by
  induction rounds generalizing w t with
  | zero => exact absurd hrounds (Nat.not_lt_zero _)
  | succ rounds ih =>
    have hat := h.at_eq (Nat.zero_lt_of_lt h.head)
    rw [Nat.add_zero] at hat
    rw [leading] at hrounds ⊢
    by_cases hmem : t.start ∈ t.acked
    · -- another round, from the next number on
      rw [if_pos hmem] at hrounds ⊢
      obtain ⟨w', hok, h'⟩ := ih (h.advance 1) (Nat.lt_of_succ_lt_succ hrounds)
      refine ⟨w', ?_, ?_⟩
      · simp only [OriginatorBlockAckAgreement.advanceWhile, hat, decide_eq_true hmem, bind,
          Except.bind]
        exact hok
      · rwa [Nat.add_right_comm, Nat.add_assoc] at h'
    · rw [if_neg hmem]
      refine ⟨w, ?_, h⟩
      simp only [OriginatorBlockAckAgreement.advanceWhile, hat, decide_eq_false hmem, bind,
        Except.bind]
      rfl

end BlockAckWindow

/-! ### Notifications -/

namespace OriginatorBlockAckAgreement

open BlockAckWindow (Queue)

variable {a : OriginatorBlockAckAgreement} {t : Acked} {seq : ℕ}

/-- An established agreement, between notifications. -/
structure Settled (a : OriginatorBlockAckAgreement) (t : Acked) : Prop where
  queue : Queue a.m_txWindow t
  size_le : t.size ≤ 256
  first : t.start ∉ t.acked

/-- A settled window represents the specification. -/
theorem Settled.represents (h : Settled a t) : Represents a t where
  start := h.queue.start
  size := h.queue.length
  at_eq := fun _ hk => h.queue.at_eq hk
  first := by
    rw [h.queue.at_eq (Nat.zero_lt_of_lt h.queue.head)]
    exact congrArg Except.ok (decide_eq_false h.first)

/-- The distance of a number from the window's start. -/
theorem getDistance_eq (h : Queue a.m_txWindow t) : a.GetDistance seq = t.ahead seq := by
  have hsize : a.m_txWindow.GetWinSize ≠ 0 := by
    have hlength : a.m_txWindow.GetWinSize = t.size := h.length
    have := h.head
    omega
  unfold GetDistance GetStartingSequence
  rw [if_neg hsize, h.start]
  rfl

/-- After `AdvanceTxWindow` the window starts with a number that is not acknowledged. -/
theorem advanceTxWindow_spec {start : ℕ} (h : Queue a.m_txWindow { t with start := start })
    (hle : t.size ≤ 256) :
    ∃ a', a.AdvanceTxWindow = .ok a' ∧ Settled a' (t.moveTo start) := by
  have hlast : start + t.size ∉ t.acked := fun hmem => Nat.lt_irrefl _ (h.bound _ hmem)
  have hsize : a.m_txWindow.GetWinSize = t.size := h.length
  have hsucc := Acked.leading_succ hlast
  obtain ⟨w, hok, h'⟩ := h.advanceWhile (a.m_txWindow.GetWinSize + 1) (by
    rw [hsize, hsucc]
    exact Nat.lt_succ_of_le (Acked.leading_le _ _ _))
  rw [hsize, hsucc] at h'
  refine ⟨{ a with m_txWindow := w }, ?_, h', hle, Acked.add_leading_notMem hlast⟩
  rw [AdvanceTxWindow, hok]
  rfl

/-- A transmission keeps the window settled. -/
theorem notifyTransmittedMpdu_spec (seq : ℕ) (h : Settled a t) :
    ∃ a', a.NotifyTransmittedMpdu seq = .ok a' ∧ Settled a' (t.next (.transmitted seq)) := by
  have hsize : a.m_txWindow.GetWinSize = t.size := h.queue.length
  unfold NotifyTransmittedMpdu
  rw [getDistance_eq h.queue, hsize]
  by_cases hold : t.ahead seq ≥ SEQNO_SPACE_HALF_SIZE
  · have hnext : t.next (.transmitted seq) = t := if_neg fun hin => not_le.mpr hin.2 hold
    exact ⟨a, if_pos hold, hnext.symm ▸ h⟩
  by_cases hin : t.ahead seq ≥ t.size
  · -- the MPDU becomes the last one of the window
    have hnext : t.next (.transmitted seq) = t.moveTo (t.unwrap seq + 1 - t.size) :=
      if_pos ⟨hin, not_le.mp hold⟩
    have hcount : t.start + (t.ahead seq - t.size + 1) = t.unwrap seq + 1 - t.size := by
      unfold Acked.unwrap
      omega
    have hqueue := h.queue.advance (t.ahead seq - t.size + 1)
    rw [hcount] at hqueue
    obtain ⟨a', hok, h'⟩ := advanceTxWindow_spec
      (a := { a with m_txWindow := a.m_txWindow.Advance (t.ahead seq - t.size + 1) }) hqueue
      h.size_le
    exact ⟨a', (if_neg hold).trans ((if_pos hin).trans hok), hnext ▸ h'⟩
  · have hnext : t.next (.transmitted seq) = t := if_neg fun h => hin h.1
    exact ⟨a, (if_neg hold).trans (if_neg hin), hnext.symm ▸ h⟩

/-- An acknowledgement keeps the window settled. -/
theorem notifyAckedMpdu_spec (h : Settled a t) (hallowed : t.Allowed (.acked seq)) :
    ∃ a', a.NotifyAckedMpdu seq = .ok a' ∧ Settled a' (t.next (.acked seq)) := by
  unfold NotifyAckedMpdu
  rw [getDistance_eq h.queue]
  by_cases hold : t.ahead seq ≥ SEQNO_SPACE_HALF_SIZE
  · have hnext : t.next (.acked seq) = t := if_neg (not_lt.mpr hold)
    exact ⟨a, if_pos hold, hnext.symm ▸ h⟩
  · have hnext : t.next (.acked seq) =
        { t with acked := t.unwrap seq :: t.acked }.moveTo t.start := if_pos (not_le.mp hold)
    obtain ⟨w, hset, hqueue⟩ := h.queue.setAt (hallowed.2.resolve_right hold)
    obtain ⟨a', hok, h'⟩ := advanceTxWindow_spec (a := { a with m_txWindow := w })
      (t := { t with acked := t.unwrap seq :: t.acked }) hqueue h.size_le
    refine ⟨a', (if_neg hold).trans ?_, hnext ▸ h'⟩
    rw [hset]
    exact hok

/-- A discarded frame keeps the window settled. -/
theorem notifyDiscardedMpdu_spec (seq : ℕ) (h : Settled a t) :
    ∃ a', a.NotifyDiscardedMpdu seq = .ok a' ∧ Settled a' (t.next (.discarded seq)) := by
  unfold NotifyDiscardedMpdu
  rw [getDistance_eq h.queue]
  by_cases hold : t.ahead seq ≥ SEQNO_SPACE_HALF_SIZE
  · have hnext : t.next (.discarded seq) = t := if_neg (not_lt.mpr hold)
    exact ⟨a, if_pos hold, hnext.symm ▸ h⟩
  · have hnext : t.next (.discarded seq) = t.moveTo (t.unwrap seq + 1) := if_pos (not_le.mp hold)
    obtain ⟨a', hok, h'⟩ := advanceTxWindow_spec
      (a := { a with m_txWindow := a.m_txWindow.Advance (t.ahead seq + 1) })
      (h.queue.advance (t.ahead seq + 1)) h.size_le
    exact ⟨a', (if_neg hold).trans hok, hnext ▸ h'⟩

/-! ### Moves -/

/-- The window does not move beyond what was sent. -/
theorem Settled.moveTo_start_le (h : Settled a t) (start : ℕ) :
    (t.moveTo start).start ≤ max start (t.start + t.size) :=
  Acked.add_leading_le h.queue.bound start t.size

/-- Every allowed call moves the window as the specification says. -/
theorem Settled.moves (h : Settled a t) (call : Call) (hallowed : t.Allowed call) :
    t.Moves call (limit t call) fun n => t.Released call n ∨ t.Overtaken call n := by
  have hle := h.size_le
  have hpos := Nat.zero_lt_of_lt h.queue.head
  have hhalf : SEQNO_SPACE_HALF_SIZE = 2048 := rfl
  -- a call that does nothing
  have hstay : t.next call = t →
      t.Moves call (limit t call) fun n => t.Released call n ∨ t.Overtaken call n := by
    intro hnext
    unfold Acked.Moves
    rw [hnext]
    refine ⟨Nat.le_refl _, Nat.le_add_right _ _, fun n hn hlt => ?_⟩
    exact absurd hlt (not_lt.mpr hn.1)
  -- Each call moves the window to a given start, or over what is acknowledged there.
  cases call with
  | transmitted seq =>
    by_cases hbeyond : t.size ≤ t.ahead seq ∧ t.ahead seq < SEQNO_SPACE_HALF_SIZE
    · have hnext : t.next (.transmitted seq) = t.moveTo (t.unwrap seq + 1 - t.size) :=
        if_pos hbeyond
      have hmax := h.moveTo_start_le (t.unwrap seq + 1 - t.size)
      have hfrom : t.unwrap seq + 1 - t.size ≤ (t.moveTo (t.unwrap seq + 1 - t.size)).start :=
        Nat.le_add_right _ _
      have hunwrap : t.unwrap seq = t.start + t.ahead seq := rfl
      rw [hunwrap] at hmax hfrom
      unfold Acked.Moves
      rw [hnext]
      refine ⟨?_, ?_, fun n hn hlt => .inl ?_⟩
      · rw [hunwrap]
        omega
      · change _ ≤ t.start + (SEQNO_SPACE_HALF_SIZE - 1)
        rw [hunwrap]
        omega
      · obtain hlt | hmem := Acked.lt_or_mem_of_lt_moveTo hlt
        · exact .inr (.inr ⟨seq, rfl, hbeyond.2, by omega⟩)
        · exact .inl (hnext ▸ hmem)
    · exact hstay (if_neg hbeyond)
  | acked seq =>
    by_cases hnew : t.ahead seq < SEQNO_SPACE_HALF_SIZE
    · have hin : t.ahead seq < t.size := hallowed.2.resolve_right (not_le.mpr hnew)
      have hnext : t.next (.acked seq) =
          { t with acked := t.unwrap seq :: t.acked }.moveTo t.start := if_pos hnew
      have hmax : (t.next (.acked seq)).start ≤ max t.start (t.start + t.size) := by
        rw [hnext]
        refine Acked.add_leading_le (fun n hn => ?_) t.start t.size
        obtain rfl | hn := mem_cons.mp hn
        · exact Nat.add_lt_add_left hin t.start
        · exact h.queue.bound n hn
      refine ⟨?_, ?_, fun n hn hlt => .inl (.inl ?_)⟩
      · rw [hnext]
        exact Nat.le_add_right _ _
      · change _ ≤ t.start + (SEQNO_SPACE_HALF_SIZE - 1)
        omega
      · rw [hnext] at hlt ⊢
        exact (Acked.lt_or_mem_of_lt_moveTo hlt).resolve_left (not_lt.mpr hn.1)
    · exact hstay (if_neg hnew)
  | discarded seq =>
    by_cases hnew : t.ahead seq < SEQNO_SPACE_HALF_SIZE
    · have hnext : t.next (.discarded seq) = t.moveTo (t.unwrap seq + 1) := if_pos hnew
      have hmax := h.moveTo_start_le (t.unwrap seq + 1)
      have hfrom : t.unwrap seq + 1 ≤ (t.moveTo (t.unwrap seq + 1)).start := Nat.le_add_right _ _
      have hunwrap : t.unwrap seq = t.start + t.ahead seq := rfl
      rw [hunwrap] at hmax hfrom
      unfold Acked.Moves
      rw [hnext]
      refine ⟨?_, ?_, fun n hn hlt => ?_⟩
      · rw [hunwrap]
        omega
      · change _ ≤ t.start + if t.ahead seq = SEQNO_SPACE_HALF_SIZE - 1 then SEQNO_SPACE_HALF_SIZE
          else SEQNO_SPACE_HALF_SIZE - 1
        rw [hunwrap]
        split_ifs <;> omega
      · obtain hlt | hmem := Acked.lt_or_mem_of_lt_moveTo hlt
        · obtain rfl | hlt := Nat.eq_or_lt_of_le (Nat.le_of_lt_succ hlt)
          · exact .inl (.inr (.inl ⟨seq, rfl, rfl⟩))
          · exact .inr ⟨seq, rfl, hnew, hlt⟩
        · exact .inl (.inl (hnext ▸ hmem))
    · exact hstay (if_neg hnew)

/-! ### Runs -/

/-- Every allowed call refines the specification and settles. -/
theorem step_settled (call : Call) (h : Settled a t) (hallowed : acked.Allowed t call) :
    Refinement.StepRefines step acked Settled a t call := by
  cases call with
  | transmitted seq =>
    obtain ⟨a', hok, h'⟩ := notifyTransmittedMpdu_spec seq h
    exact ⟨a', by simp only [step, hok, bind, Except.bind], h'⟩
  | acked seq =>
    obtain ⟨a', hok, h'⟩ := notifyAckedMpdu_spec h hallowed
    exact ⟨a', by simp only [step, hok, bind, Except.bind], h'⟩
  | discarded seq =>
    obtain ⟨a', hok, h'⟩ := notifyDiscardedMpdu_spec seq h
    exact ⟨a', by simp only [step, hok, bind, Except.bind], h'⟩

/-- An agreement that was established has an empty window. -/
theorem establish_spec {a₀ : OriginatorBlockAckAgreement} {respBufferSize nextSeqNumber : ℕ}
    (hok : a₀.Establish respBufferSize nextSeqNumber = .ok a) :
    Settled a ⟨nextSeqNumber, respBufferSize + 1, []⟩ := by
  unfold Establish SetBufferSize SetStartingSequence at hok
  by_cases hsize : respBufferSize + 1 ≤ 256 ∧ (respBufferSize + 1) % 16 = 0
  · by_cases hseq : nextSeqNumber < 4096
    · rw [if_pos hsize] at hok
      simp only [bind, Except.bind, if_pos hseq] at hok
      cases hok
      refine ⟨⟨?_, length_replicate .., Nat.succ_pos _, fun k _ => ?_, nofun⟩, hsize.1, nofun⟩
      · exact (Nat.mod_eq_of_lt hseq).symm
      · exact BlockAckWindow.slot_init _ _ k
    · rw [if_pos hsize] at hok
      simp only [bind, Except.bind, if_neg hseq] at hok
      cases hok
  · rw [if_neg hsize] at hok
    cases hok

/-- **The circular window is the set of acknowledged numbers** of the window: in all runs of an
established agreement every notification returns, the window then has exactly the acknowledged
numbers marked and not the first, and it has moved forward past numbers that were acknowledged,
came at or before a discarded one, or were pushed out. -/
theorem window_keeps (a₀ a : OriginatorBlockAckAgreement) (respBufferSize nextSeqNumber : ℕ)
    (hok : a₀.Establish respBufferSize nextSeqNumber = .ok a) (calls : List Call) :
    Refinement.Before step acked
      (Keeps limit fun t call n => t.Released call n ∨ t.Overtaken call n)
      a ⟨nextSeqNumber, respBufferSize + 1, []⟩ calls := by
  have hsettled := establish_spec hok
  refine (Refinement.refines_iff_before (R := Settled) ?_ hsettled calls).mp
    (Refinement.refines_of_step (fun _ _ call h hallowed => step_settled call h hallowed)
      hsettled calls)
  intro a t call h hallowed
  have hstep := step_settled call h hallowed
  refine iff_of_true hstep ⟨?_, h.moves call hallowed⟩
  obtain ⟨a', hstep, h'⟩ := hstep
  exact ⟨a', hstep, h'.represents⟩

/-- An agreement before the response to its request. -/
def pending : OriginatorBlockAckAgreement := ⟨0, 0, .Init 0 0⟩

/-- A window that the sequence numbers wrap around in. -/
theorem window_keeps_wrap :
    Refinement.Before step acked
      (Keeps limit fun t call n => t.Released call n ∨ t.Overtaken call n)
      ⟨16, 4090, .Init 4090 16⟩ ⟨4090, 16, []⟩ [.transmitted 4095, .acked 4091, .acked 4090,
        .transmitted 12, .acked 12, .discarded 3, .discarded 2051] :=
  window_keeps pending _ 15 4090 rfl _

/-- A discarded MPDU takes those before it along, whether acknowledged or not, and one that is
as far ahead as it can be moves the window by half the numbers. -/
theorem discarding_overtakes :
    pending.Establish 63 0 = .ok ⟨64, 0, .Init 0 64⟩ ∧
    ¬ Refinement.Before step acked
      (Keeps (fun _ _ => SEQNO_SPACE_HALF_SIZE) Acked.Released)
      ⟨64, 0, .Init 0 64⟩ ⟨0, 64, []⟩ [.discarded 5] ∧
    ¬ Refinement.Before step acked
      (Keeps (fun _ _ => SEQNO_SPACE_HALF_SIZE - 1) fun t call n =>
        t.Released call n ∨ t.Overtaken call n)
      ⟨64, 0, .Init 0 64⟩ ⟨0, 64, []⟩ [.discarded 2047] := by
  refine ⟨rfl, ?_, ?_⟩
  · intro h
    have hpass := (h (by decide)).1.2.2.2 0 (by decide) (by decide)
    obtain hmem | ⟨seq, heq, hn⟩ | ⟨seq, heq, -⟩ := hpass
    · exact absurd hmem (by decide)
    · cases heq
      exact absurd hn (by decide)
    · cases heq
  · intro h
    exact absurd (h (by decide)).1.2.2.1 (by decide)

end OriginatorBlockAckAgreement
end Ns3Joined.Wifi
