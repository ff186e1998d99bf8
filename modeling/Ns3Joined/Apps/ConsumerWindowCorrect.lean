import Ns3Joined.Apps.ConsumerWindow

/-!
# What the window-based consumer guarantees

`Outstanding h seq` says of the history of a run that the Interest was sent and neither answered
nor timed out since. `m_inFlight` counts these Interests (`Counts`) as long as no Data comes for
an Interest that is not outstanding: `ConsumerWindow::OnData` counts down for every Data.

The window bounds what is in flight when an Interest is scheduled. A timeout may set the window
back below what is in flight, so the bound that holds of all states is the largest window there
has been; the window itself is one while no timeout sets it back (`Bounded`).
-/

namespace Ns3Joined.Apps.ConsumerWindow

open List hiding beq_eq_decide

/-! ### What is to hold of a history -/

/-- The Interest was sent, and neither answered nor timed out since then. -/
def Outstanding (h : List Action) (seq : UInt32) : Prop :=
  ∃ before after, h = before ++ .sent seq :: after ∧ .answered seq ∉ after ∧ .timedOut seq ∉ after

/-- `m_inFlight` is the number of Interests outstanding. -/
def Counts (s : ConsumerWindow) (h : List Action) : Prop :=
  ∃ seqs : List UInt32, seqs.Nodup ∧ (∀ seq, seq ∈ seqs ↔ Outstanding h seq) ∧
    s.inFlight.toNat = seqs.length

/-- The window was `w` at some time. -/
def Seen (s : ConsumerWindow) (h : List Action) (w : ℕ) : Prop :=
  w = s.initialWindow.toNat ∨ .window w ∈ h

/-- The numbers of the Interests that may time out. -/
def seqs (s : ConsumerWindow) : List UInt32 := s.seqTimeouts.map SeqTimeout.seq

/-- What a call has to be made with: a Data for an Interest that may time out, unless nothing
is in flight, and counters that have not come around. -/
def Fits (s : ConsumerWindow) (_ : List Action) : Call → Prop
  | .startApplication => s.active = false
  | .sendEvent _ =>
    s.inFlight ≠ 0xffffffff ∧ ((∀ seq ∈ s.retxSeqs, seq = 0xffffffff) → s.seq ∉ s.seqs)
  | .onData sequenceNumber =>
    s.active = true ∧ sequenceNumber.toUInt32 ∈ s.seqs ∨ s.inFlight = 0
  | .stopApplication | .onNack | .checkRetxTimeout _ _ => True

instance decidableFits (s : ConsumerWindow) (h : List Action) (call : Call) :
    Decidable (Fits s h call) :=
  match call with
  | .startApplication => inferInstanceAs (Decidable (_ = _))
  | .sendEvent _ =>
    -- over the list, not over all numbers
    have : Decidable (∀ seq ∈ s.retxSeqs, seq = 0xffffffff) := List.decidableBAll _ _
    inferInstanceAs (Decidable (_ ≠ _ ∧ ((∀ seq ∈ s.retxSeqs, seq = 0xffffffff) → _ ∉ _)))
  | .onData _ => inferInstanceAs (Decidable (_ ∧ _ ∈ _ ∨ _ = _))
  | .stopApplication | .onNack | .checkRetxTimeout _ _ => inferInstanceAs (Decidable True)

variable {seq' : UInt32} {fuel : ℕ} {now : ℤ} {call : Call}

section Histories

variable {h : List Action} {a : Action} {seq : UInt32}

/-- **One more action**: a send makes an Interest outstanding, until its answer or timeout. -/
theorem outstanding_snoc :
    Outstanding (h ++ [a]) seq ↔
      a = .sent seq ∨ Outstanding h seq ∧ a ≠ .answered seq ∧ a ≠ .timedOut seq := by
  constructor
  · rintro ⟨before, after, heq, hanswered, htimedOut⟩
    rcases eq_nil_or_concat after with rfl | ⟨after, b, rfl⟩
    · exact .inl (append_inj_right' heq rfl |> List.cons.inj |>.1)
    · rw [concat_eq_append, ← cons_append, ← append_assoc] at heq
      obtain ⟨hinit, hlast⟩ := append_inj' heq rfl
      obtain ⟨rfl, -⟩ := List.cons.inj hlast
      simp only [concat_eq_append, mem_append, mem_singleton, not_or]
        at hanswered htimedOut
      exact .inr ⟨⟨before, after, hinit, hanswered.1, htimedOut.1⟩, Ne.symm hanswered.2,
        Ne.symm htimedOut.2⟩
  · rintro (rfl | ⟨⟨before, after, rfl, hanswered, htimedOut⟩, hne, hne'⟩)
    · exact ⟨h, [], rfl, not_mem_nil, not_mem_nil⟩
    · refine ⟨before, after ++ [a], by rw [append_assoc, cons_append], ?_, ?_⟩
      · rw [mem_append, mem_singleton, not_or]
        exact ⟨hanswered, Ne.symm hne⟩
      · rw [mem_append, mem_singleton, not_or]
        exact ⟨htimedOut, Ne.symm hne'⟩

/-- What is sent is outstanding. -/
theorem outstanding_sent :
    Outstanding (h ++ [.sent seq']) seq ↔ seq = seq' ∨ Outstanding h seq := by
  rw [outstanding_snoc]
  simp [eq_comm]

/-- What is answered is not outstanding any more. -/
theorem outstanding_answered {w : ℕ} :
    Outstanding (h ++ [.answered seq', .window w]) seq ↔ Outstanding h seq ∧ seq ≠ seq' := by
  rw [append_cons, outstanding_snoc, outstanding_snoc]
  simp [eq_comm]

/-- What has timed out is not outstanding any more. -/
theorem outstanding_timedOut {w : ℕ} :
    Outstanding (h ++ [.timedOut seq', .window w]) seq ↔ Outstanding h seq ∧ seq ≠ seq' := by
  rw [append_cons, outstanding_snoc, outstanding_snoc]
  simp [eq_comm]

end Histories

/-! ### The invariant -/

/-- The Interests in flight, and the one that is scheduled. -/
def need (s : ConsumerWindow) : ℕ := s.inFlight.toNat + if s.sendEvent then 1 else 0

/-- The Interests that may time out are those outstanding, and none of them is to be
retransmitted. -/
structure Tracks (s : ConsumerWindow) (h : List Action) : Prop where
  retxSeqs : SortedList.Sorted UInt32.toNat s.retxSeqs
  nodup : s.seqs.Nodup
  mem : ∀ seq, seq ∈ s.seqs ↔ Outstanding h seq
  inFlight : s.inFlight.toNat = s.seqs.length
  disjoint : ∀ seq ∈ s.retxSeqs, seq ∉ s.seqs

/-- A window that was not 0 at first has room for `k` more than what is in flight or scheduled:
some window there has been, and the window there is while no timeout has set it back. -/
structure Bounded (k : ℕ) (s : ConsumerWindow) (h : List Action) : Prop where
  seen : Seen s h s.window
  positive : s.initialWindow ≠ 0 → s.window ≠ 0
  peak : s.initialWindow ≠ 0 → ∃ w, Seen s h w ∧ s.need + k ≤ w
  kept : s.initialWindow ≠ 0 →
    s.setInitialWindowOnTimeout = false ∨ (∀ seq, .timedOut seq ∉ h) → s.need + k ≤ s.window

/-- The invariant. -/
structure Keeps (s : ConsumerWindow) (h : List Action) : Prop where
  tracks : Tracks s h
  bounded : Bounded 0 s h

section Invariant

variable {s s' : ConsumerWindow} {h h' : List Action} {seq : UInt32} {k k' : ℕ}

theorem Tracks.counts (hs : Tracks s h) : Counts s h := ⟨s.seqs, hs.nodup, hs.mem, hs.inFlight⟩

/-- The window bounds what is in flight. -/
theorem Bounded.inFlight_le (hs : Bounded 0 s h) (hinitial : s.initialWindow ≠ 0) :
    (∃ w, Seen s h w ∧ s.inFlight.toNat ≤ w) ∧
      (s.setInitialWindowOnTimeout = false ∨ (∀ seq, .timedOut seq ∉ h) →
        s.inFlight.toNat ≤ s.window) := by
  have hle : s.inFlight.toNat ≤ s.need := Nat.le_add_right _ _
  refine ⟨?_, fun hnone => le_trans hle (hs.kept hinitial hnone)⟩
  obtain ⟨w, hw, hneed⟩ := hs.peak hinitial
  exact ⟨w, hw, le_trans hle hneed⟩

/-- Less in flight, a window that is not narrower. -/
theorem Bounded.widen (hs : Bounded k s h) (hsub : h ⊆ h')
    (hinitial : s'.initialWindow = s.initialWindow)
    (hreset : s'.setInitialWindowOnTimeout = s.setInitialWindowOnTimeout)
    (hseen : Seen s' h' s'.window) (hwindow : s.window ≤ s'.window)
    (hneed : s'.need + k' ≤ s.need + k) : Bounded k' s' h' := by
  refine ⟨hseen, ?_, ?_, ?_⟩
  · intro hne
    rw [hinitial] at hne
    have := hs.positive hne
    omega
  · intro hne
    rw [hinitial] at hne
    obtain ⟨w, hw, hle⟩ := hs.peak hne
    refine ⟨w, ?_, le_trans hneed hle⟩
    unfold Seen
    rw [hinitial]
    exact hw.imp_right fun hmem => hsub hmem
  · intro hne hnone
    rw [hinitial] at hne
    rw [hreset] at hnone
    have hnone' : s.setInitialWindowOnTimeout = false ∨ ∀ seq, .timedOut seq ∉ h :=
      hnone.imp_right fun hnone seq hmem => hnone seq (hsub hmem)
    exact le_trans hneed (le_trans (hs.kept hne hnone') hwindow)

/-- What `ScheduleNextPacket` does: nothing, or it schedules a send when the window is not
full. -/
theorem scheduleNextPacket_cases (s : ConsumerWindow) :
    s.ScheduleNextPacket = s ∨
      s.ScheduleNextPacket = { s with sendEvent := true } ∧
        (s.window ≠ 0 → s.inFlight.toNat < s.window) := by
  unfold ScheduleNextPacket
  split_ifs with hzero hfull
  · exact .inr ⟨rfl, fun hne => absurd hzero hne⟩
  · exact .inl rfl
  · exact .inr ⟨rfl, fun _ => Nat.lt_of_not_le hfull⟩

theorem Tracks.scheduleNextPacket (hs : Tracks s h) : Tracks s.ScheduleNextPacket h := by
  rcases scheduleNextPacket_cases s with heq | ⟨heq, -⟩
  · rw [heq]
    exact hs
  · rw [heq]
    exact ⟨hs.retxSeqs, hs.nodup, hs.mem, hs.inFlight, hs.disjoint⟩

theorem Keeps.scheduleNextPacket (hs : Keeps s h) : Keeps s.ScheduleNextPacket h := by
  refine ⟨hs.tracks.scheduleNextPacket, ?_⟩
  obtain ⟨-, hseen, hpositive, hpeak, hkept⟩ := hs
  rcases scheduleNextPacket_cases s with heq | ⟨heq, hroom⟩
  · rw [heq]
    exact ⟨hseen, hpositive, hpeak, hkept⟩
  · rw [heq]
    refine ⟨hseen, hpositive, ?_, ?_⟩
    · intro hne
      exact ⟨s.window, hseen, Nat.succ_le_of_lt (hroom (hpositive hne))⟩
    · intro hne _
      exact Nat.succ_le_of_lt (hroom (hpositive hne))

/-! ### Sending -/

/-- An entry is put in its place among the others. -/
theorem insertTimeout_perm (entry : SeqTimeout) {l : List SeqTimeout}
    (hnew : entry.seq ∉ l.map SeqTimeout.seq) : (insertTimeout entry l).Perm (entry :: l) := by
  unfold insertTimeout
  rw [if_neg hnew]
  exact perm_orderedInsert _ _ _

theorem toNat_add_one {x : UInt32} (hne : x ≠ 0xffffffff) : (x + 1).toNat = x.toNat + 1 := by
  have hlt := x.toNat_lt
  have hmax : x.toNat ≠ 2 ^ 32 - 1 := fun heq => hne (UInt32.toNat_inj.mp heq)
  rw [UInt32.toNat_add]
  show (x.toNat + 1) % 2 ^ 32 = _
  omega

/-- **Sending** an Interest that is not outstanding. -/
theorem Tracks.sent (hs : Tracks s h) (hroom : s.inFlight ≠ 0xffffffff) (hseq : seq ∉ s.seqs)
    (hretx : seq ∉ s.retxSeqs) :
    Tracks (s.WillSendOutInterest seq now) (h ++ [.sent seq]) := by
  have hperm : (s.WillSendOutInterest seq now).seqs.Perm (seq :: s.seqs) :=
    (insertTimeout_perm ⟨seq, now⟩ hseq).map SeqTimeout.seq
  refine ⟨hs.retxSeqs, ?_, ?_, ?_, ?_⟩
  · rw [hperm.nodup_iff]
    exact nodup_cons.mpr ⟨hseq, hs.nodup⟩
  · intro seq'
    rw [hperm.mem_iff, mem_cons, hs.mem, outstanding_sent]
  · rw [hperm.length_eq, length_cons, ← hs.inFlight]
    exact toNat_add_one hroom
  · intro seq' hseq' hmem
    rcases mem_cons.mp (hperm.mem_iff.mp hmem) with rfl | hmem
    · exact hretx hseq'
    · exact hs.disjoint seq' hseq' hmem

/-- Room for one more is used up by what is sent. -/
theorem Bounded.sent (hs : Bounded 1 s h) (hroom : s.inFlight ≠ 0xffffffff) :
    Bounded 0 (s.WillSendOutInterest seq now) (h ++ [.sent seq]) := by
  refine hs.widen (subset_append_left _ _) rfl rfl ?_ (le_refl _) ?_
  · exact hs.seen.imp_right fun hmem => mem_append_left _ hmem
  · show (s.inFlight + 1).toNat + (if s.sendEvent then 1 else 0) + 0 ≤
      s.inFlight.toNat + (if s.sendEvent then 1 else 0) + 1
    rw [toNat_add_one hroom]
    omega

/-- An event that is taken off the schedule leaves its room. -/
theorem Bounded.unschedule (hs : Bounded 0 s h) (hevent : s.sendEvent = true) :
    Bounded 1 { s with sendEvent := false } h := by
  refine hs.widen (List.Subset.refl _) rfl rfl hs.seen (le_refl _) ?_
  show s.inFlight.toNat + 0 + 1 ≤ s.inFlight.toNat + (if s.sendEvent then 1 else 0) + 0
  rw [hevent]
  exact le_refl _

theorem Bounded.weaken (hs : Bounded k s h) : Bounded 0 s h :=
  hs.widen (List.Subset.refl _) rfl rfl hs.seen (le_refl _) (Nat.le_add_right _ _)

section

variable (htracks : Tracks s h) (hbounded : Bounded 1 s h) (hroom : s.inFlight ≠ 0xffffffff)

include htracks hbounded hroom

/-- `SendPacket` for a number that is not outstanding keeps the invariant. -/
theorem send_keeps (hseq : seq ∉ s.seqs) (hretx : seq ∉ s.retxSeqs) :
    Keeps (s.send seq now).1 (h ++ (s.send seq now).2) :=
  Keeps.scheduleNextPacket ⟨htracks.sent hroom hseq hretx, hbounded.sent hroom⟩

/-- So does the next number in line. -/
theorem sendNext_keeps (hseq : s.seq ∉ s.seqs) (hretx : s.retxSeqs = []) :
    Keeps (s.sendNext now).1 (h ++ (s.sendNext now).2) := by
  unfold sendNext
  split_ifs
  · rw [append_nil]
    exact ⟨htracks, hbounded.weaken⟩
  · have htracks' : Tracks { s with seq := s.seq + 1 } h :=
      ⟨htracks.retxSeqs, htracks.nodup, htracks.mem, htracks.inFlight, htracks.disjoint⟩
    have hbounded' : Bounded 1 { s with seq := s.seq + 1 } h :=
      ⟨hbounded.seen, hbounded.positive, hbounded.peak, hbounded.kept⟩
    apply send_keeps htracks' hbounded' hroom hseq
    show s.seq ∉ s.retxSeqs
    rw [hretx]
    exact not_mem_nil

/-- So does the number that `SendPacket` chooses. -/
theorem sendPacket_keeps (hseq : (∀ seq ∈ s.retxSeqs, seq = 0xffffffff) → s.seq ∉ s.seqs) :
    Keeps (s.SendPacket now).1 (h ++ (s.SendPacket now).2) := by
  unfold SendPacket
  split_ifs
  · rw [append_nil]
    exact ⟨htracks, hbounded.weaken⟩
  match hretx : s.retxSeqs with
  | [] =>
    dsimp only
    refine sendNext_keeps htracks hbounded hroom (hseq fun _ hmem => ?_) hretx
    rw [hretx] at hmem
    cases hmem
  | seq :: retxSeqs =>
    dsimp only
    have hsorted := htracks.retxSeqs
    have hdisjoint := htracks.disjoint
    rw [hretx] at hsorted hdisjoint
    obtain ⟨hfirst, hrest⟩ := pairwise_cons.mp hsorted
    obtain ⟨hnew, hdisjoint⟩ := forall_mem_cons.mp hdisjoint
    have htracks' : Tracks { s with retxSeqs := retxSeqs } h :=
      ⟨hrest, htracks.nodup, htracks.mem, htracks.inFlight, hdisjoint⟩
    have hbounded' : Bounded 1 { s with retxSeqs := retxSeqs } h :=
      ⟨hbounded.seen, hbounded.positive, hbounded.peak, hbounded.kept⟩
    split_ifs with hmax
    · -- nothing is larger than the number that stands for none
      have hnil : retxSeqs = [] := by
        rw [eq_nil_iff_forall_not_mem]
        intro seq' hseq'
        have hlt := Nat.compare_eq_lt.mp (hfirst seq' hseq')
        have hbound := seq'.toNat_lt
        rw [hmax] at hlt
        have : (0xffffffff : UInt32).toNat = 2 ^ 32 - 1 := rfl
        omega
      refine sendNext_keeps htracks' hbounded' hroom (hseq ?_) hnil
      rw [hretx, hnil]
      intro seq' hseq'
      rw [mem_singleton.mp hseq', hmax]
    · refine send_keeps htracks' hbounded' hroom hnew fun hmem => ?_
      have hlt := Nat.compare_eq_lt.mp (hfirst seq hmem)
      exact Nat.lt_irrefl _ hlt

end

/-- So does the scheduled event that sends it. -/
theorem runSendEvent_keeps (hs : Keeps s h) (hroom : s.inFlight ≠ 0xffffffff)
    (hseq : (∀ seq ∈ s.retxSeqs, seq = 0xffffffff) → s.seq ∉ s.seqs) :
    Keeps (s.runSendEvent now).1 (h ++ (s.runSendEvent now).2) := by
  unfold runSendEvent
  split_ifs with hevent
  · have htracks : Tracks { s with sendEvent := false } h :=
      ⟨hs.tracks.retxSeqs, hs.tracks.nodup, hs.tracks.mem, hs.tracks.inFlight,
        hs.tracks.disjoint⟩
    exact sendPacket_keeps htracks (hs.bounded.unschedule hevent) hroom hseq
  · rw [append_nil]
    exact hs

/-! ### Data and timeouts -/

/-- A window does not shrink when one is added to it. -/
theorem le_addOne (window : ℕ) : window ≤ addOne window := by
  unfold addOne
  split_ifs
  · exact Nat.le_succ window
  · exact le_refl _

/-- `Decrement` stops at 0. -/
theorem toNat_decrement (x : UInt32) : (decrement x).toNat = x.toNat - 1 := by
  unfold decrement
  split_ifs with hpos
  · have hle : (1 : UInt32) ≤ x := by
      rw [UInt32.le_iff_toNat_le]
      exact UInt32.lt_iff_toNat_lt.mp hpos
    rw [UInt32.toNat_sub_of_le _ _ hle]
    rfl
  · have : x.toNat ≤ 0 := UInt32.le_iff_toNat_le.mp (UInt32.not_lt.mp hpos)
    omega

/-- An Interest less in flight. -/
theorem Bounded.decrement (hs : Bounded 0 s h) (hsub : h ⊆ h')
    (hinitial : s'.initialWindow = s.initialWindow)
    (hreset : s'.setInitialWindowOnTimeout = s.setInitialWindowOnTimeout)
    (hseen : Seen s' h' s'.window) (hwindow : s.window ≤ s'.window)
    (hinFlight : s'.inFlight = ConsumerWindow.decrement s.inFlight)
    (hevent : s'.sendEvent = s.sendEvent) : Bounded 0 s' h' := by
  refine hs.widen hsub hinitial hreset hseen hwindow ?_
  unfold need
  rw [hinFlight, hevent, toNat_decrement]
  omega

/-- An Interest less in flight, and the window as a timeout leaves it. -/
theorem Bounded.timeout (hs : Bounded 0 s h) (hinitial : s'.initialWindow = s.initialWindow)
    (hreset : s'.setInitialWindowOnTimeout = s.setInitialWindowOnTimeout)
    (hwindow : s'.window =
      if s.setInitialWindowOnTimeout then s.initialWindow.toNat else s.window)
    (hinFlight : s'.inFlight = ConsumerWindow.decrement s.inFlight)
    (hevent : s'.sendEvent = s.sendEvent) :
    Bounded 0 s' (h ++ [.timedOut seq, .window s'.window]) := by
  have hsub : h ⊆ h ++ [.timedOut seq, .window s'.window] := subset_append_left _ _
  have hmem : .window s'.window ∈ h ++ [.timedOut seq, .window s'.window] :=
    mem_append_right _ (mem_cons_of_mem _ mem_cons_self)
  split_ifs at hwindow with hset
  · -- only the largest window there has been is left
    refine ⟨.inr hmem, ?_, ?_, ?_⟩
    · intro hne hzero
      rw [hinitial] at hne
      exact hne (UInt32.toNat_inj.mp (hwindow.symm.trans hzero))
    · intro hne
      rw [hinitial] at hne
      obtain ⟨w, hw, hle⟩ := hs.peak hne
      refine ⟨w, ?_, le_trans ?_ hle⟩
      · unfold Seen
        rw [hinitial]
        exact hw.imp_right fun hmem => hsub hmem
      · unfold need
        rw [hinFlight, hevent, toNat_decrement]
        omega
    · rintro - (hnot | hnone)
      · rw [hreset, hset] at hnot
        cases hnot
      · exact absurd (mem_append_right _ mem_cons_self) (hnone seq)
  · exact hs.decrement hsub hinitial hreset (.inr hmem) (Nat.le_of_eq hwindow.symm) hinFlight hevent

theorem map_filter_ne (l : List SeqTimeout) (seq : UInt32) :
    (l.filter fun entry => entry.seq ≠ seq).map SeqTimeout.seq =
      (l.map SeqTimeout.seq).filter (· ≠ seq) := by
  rw [filter_map]
  rfl

/-- What `Consumer::OnData` leaves: all but the one answered. -/
theorem forget_spec (seq : UInt32) (hactive : s.active = true ∨ s.seqs = []) :
    (s.forget seq).seqs = s.seqs.filter (· ≠ seq) ∧
      (s.forget seq).retxSeqs.Sublist s.retxSeqs := by
  unfold forget
  split_ifs with hif
  · exact ⟨map_filter_ne s.seqTimeouts seq, filter_sublist⟩
  · have hnil := hactive.resolve_left hif
    refine ⟨?_, List.Sublist.refl _⟩
    rw [hnil]
    rfl

@[simp]
theorem forget_inFlight : (s.forget seq).inFlight = s.inFlight := by
  unfold forget
  split_ifs <;> rfl

@[simp]
theorem forget_window : (s.forget seq).window = s.window := by
  unfold forget
  split_ifs <;> rfl

@[simp]
theorem forget_initialWindow : (s.forget seq).initialWindow = s.initialWindow := by
  unfold forget
  split_ifs <;> rfl

@[simp]
theorem forget_setInitialWindowOnTimeout :
    (s.forget seq).setInitialWindowOnTimeout = s.setInitialWindowOnTimeout := by
  unfold forget
  split_ifs <;> rfl

@[simp]
theorem forget_sendEvent : (s.forget seq).sendEvent = s.sendEvent := by
  unfold forget
  split_ifs <;> rfl

/-- **A Data** for an Interest that may time out, or while nothing is in flight. -/
theorem onData_keeps (hs : Keeps s h) {sequenceNumber : UInt64}
    (hdata : s.active = true ∧ sequenceNumber.toUInt32 ∈ s.seqs ∨ s.inFlight = 0) :
    Keeps (s.OnData sequenceNumber).1 (h ++ (s.OnData sequenceNumber).2) := by
  obtain ⟨htracks, hbounded⟩ := hs
  have hnone : s.inFlight = 0 → s.seqs = [] := fun hzero =>
    length_eq_zero_iff.mp (by rw [← htracks.inFlight, hzero]; rfl)
  obtain ⟨hseqs, hretx⟩ :=
    forget_spec sequenceNumber.toUInt32 (hdata.imp And.left hnone)
  apply Keeps.scheduleNextPacket
  refine ⟨⟨List.Pairwise.sublist hretx htracks.retxSeqs, ?_, ?_, ?_, ?_⟩, ?_⟩
  · show (s.forget sequenceNumber.toUInt32).seqs.Nodup
    rw [hseqs]
    exact htracks.nodup.filter _
  · intro seq'
    show seq' ∈ (s.forget sequenceNumber.toUInt32).seqs ↔ _
    rw [hseqs, mem_filter, htracks.mem, decide_eq_true_iff]
    exact outstanding_answered.symm
  · show (decrement (s.forget sequenceNumber.toUInt32).inFlight).toNat =
      (s.forget sequenceNumber.toUInt32).seqs.length
    rw [forget_inFlight, toNat_decrement, hseqs, htracks.inFlight]
    rcases hdata with ⟨-, hmem⟩ | hzero
    · rw [← length_erase_of_mem hmem, htracks.nodup.erase_eq_filter]
      congr 1
      exact filter_congr fun seq' _ => by simp [bne, beq_eq_decide]
    · rw [hnone hzero]
      rfl
  · intro seq' hseq'
    show seq' ∉ (s.forget sequenceNumber.toUInt32).seqs
    rw [hseqs, mem_filter]
    exact fun hmem => htracks.disjoint seq' (hretx.subset hseq') hmem.1
  · refine hbounded.decrement (subset_append_left _ _) forget_initialWindow
      forget_setInitialWindowOnTimeout (.inr ?_) ?_ ?_ forget_sendEvent
    · exact mem_append_right _ (mem_cons_of_mem _ mem_cons_self)
    · show s.window ≤ addOne (s.forget sequenceNumber.toUInt32).window
      rw [forget_window]
      exact le_addOne s.window
    · show decrement (s.forget sequenceNumber.toUInt32).inFlight = _
      rw [forget_inFlight]

/-- **A timeout** of the entry that is first. -/
theorem onTimeout_keeps {entry : SeqTimeout} {seqTimeouts : List SeqTimeout} (hs : Keeps s h)
    (hfirst : s.seqTimeouts = entry :: seqTimeouts) :
    Keeps (OnTimeout { s with seqTimeouts := seqTimeouts } entry.seq).1
      (h ++ (OnTimeout { s with seqTimeouts := seqTimeouts } entry.seq).2) := by
  obtain ⟨htracks, hbounded⟩ := hs
  have hseqs : s.seqs = entry.seq :: seqTimeouts.map SeqTimeout.seq := by
    rw [seqs, hfirst]
    rfl
  have hnodup := htracks.nodup
  rw [hseqs] at hnodup
  obtain ⟨hnew, hnodup⟩ := nodup_cons.mp hnodup
  apply Keeps.scheduleNextPacket
  refine ⟨⟨SortedList.emplace_sorted htracks.retxSeqs, hnodup, ?_, ?_, ?_⟩, ?_⟩
  · intro seq'
    refine Iff.trans ?_ outstanding_timedOut.symm
    rw [← htracks.mem, hseqs, mem_cons]
    constructor
    · intro hmem
      refine ⟨.inr hmem, ?_⟩
      rintro rfl
      exact hnew hmem
    · rintro ⟨hmem, hne⟩
      exact hmem.resolve_left hne
  · show (decrement s.inFlight).toNat = (seqTimeouts.map SeqTimeout.seq).length
    rw [toNat_decrement, htracks.inFlight, hseqs, length_cons, Nat.add_sub_cancel]
  · intro seq' hseq'
    show seq' ∉ seqTimeouts.map SeqTimeout.seq
    rcases SortedList.mem_of_mem_emplace hseq' with rfl | hseq'
    · exact hnew
    · have hdisjoint := htracks.disjoint seq' hseq'
      rw [hseqs] at hdisjoint
      exact not_mem_of_not_mem_cons hdisjoint
  · exact hbounded.timeout rfl rfl rfl rfl rfl

/-- Each timeout that is noticed keeps the invariant. -/
theorem checkTimeouts_keeps {rto : ℤ} (hs : Keeps s h) :
    Keeps (checkTimeouts now rto fuel s).1 (h ++ (checkTimeouts now rto fuel s).2) := by
  induction fuel generalizing s h with
  | zero =>
    rw [checkTimeouts, append_nil]
    exact hs
  | succ fuel ih =>
    rw [checkTimeouts]
    match hentries : s.seqTimeouts with
    | [] =>
      dsimp only
      rw [append_nil]
      exact hs
    | entry :: seqTimeouts =>
      dsimp only
      split_ifs
      · rw [← append_assoc]
        exact ih (onTimeout_keeps hs hentries)
      · rw [append_nil]
        exact hs

end Invariant

/-! ### Runs -/

section Runs

variable {s : ConsumerWindow} {h : List Action}

/-- A new consumer has nothing outstanding. -/
theorem keeps_create (initialWindow : UInt32) (reset : Bool) (seq seqMax : UInt32) :
    Keeps (create initialWindow reset seq seqMax) [] := by
  refine ⟨⟨List.Pairwise.nil, nodup_nil, ?_, rfl, ?_⟩, ⟨.inl rfl, ?_, ?_, ?_⟩⟩
  · intro seq
    refine iff_of_false not_mem_nil ?_
    rintro ⟨before, after, heq, -⟩
    cases append_eq_nil_iff.mp heq.symm |>.2
  · exact fun _ hmem => nomatch hmem
  · intro hne hzero
    exact hne (UInt32.toNat_inj.mp hzero)
  · exact fun _ => ⟨_, .inl rfl, Nat.zero_le _⟩
  · exact fun _ _ => Nat.zero_le _

/-- What is set before the run and stays. -/
def attributes (s : ConsumerWindow) : UInt32 × Bool :=
  (s.initialWindow, s.setInitialWindowOnTimeout)

@[simp]
theorem scheduleNextPacket_attributes : s.ScheduleNextPacket.attributes = s.attributes := by
  rcases scheduleNextPacket_cases s with heq | ⟨heq, -⟩ <;> rw [heq]
  rfl

theorem sendNext_attributes : (s.sendNext now).1.attributes = s.attributes := by
  unfold sendNext
  split_ifs
  · rfl
  · exact scheduleNextPacket_attributes

theorem sendPacket_attributes : (s.SendPacket now).1.attributes = s.attributes := by
  unfold SendPacket
  split_ifs
  · rfl
  match s.retxSeqs with
  | [] => exact sendNext_attributes
  | seq :: retxSeqs =>
    dsimp only
    split_ifs
    · exact sendNext_attributes
    · exact scheduleNextPacket_attributes

theorem checkTimeouts_attributes {rto : ℤ} :
    (checkTimeouts now rto fuel s).1.attributes = s.attributes := by
  induction fuel generalizing s with
  | zero => rfl
  | succ fuel ih =>
    rw [checkTimeouts]
    match s.seqTimeouts with
    | [] => rfl
    | entry :: seqTimeouts =>
      dsimp only
      split_ifs
      · rw [ih]
        exact scheduleNextPacket_attributes
      · rfl

/-- The attributes stay as they were set. -/
theorem step_attributes {s' : ConsumerWindow} {actions : List Action}
    (hok : step s call = .ok (s', actions)) : s'.attributes = s.attributes := by
  match call with
  | .startApplication =>
    unfold step StartApplication at hok
    split_ifs at hok
    · cases hok
    · cases hok
      exact scheduleNextPacket_attributes
  | .stopApplication | .onNack =>
    cases hok
    rfl
  | .sendEvent now =>
    have hfst : s' = (s.runSendEvent now).1 := congrArg Prod.fst (Except.ok.inj hok).symm
    rw [hfst]
    unfold runSendEvent
    split_ifs
    · exact sendPacket_attributes
    · rfl
  | .onData sequenceNumber =>
    cases hok
    refine scheduleNextPacket_attributes.trans ?_
    exact Prod.ext forget_initialWindow forget_setInitialWindowOnTimeout
  | .checkRetxTimeout now rto =>
    have hfst : s' = (s.CheckRetxTimeout now rto).1 := congrArg Prod.fst (Except.ok.inj hok).symm
    rw [hfst]
    exact checkTimeouts_attributes

/-- **Step**: a call made as it is to be does not fail and keeps the invariant. -/
theorem step_keeps (hs : Keeps s h) (hfits : Fits s h call) :
    ∃ s' actions, step s call = .ok (s', actions) ∧ Keeps s' (h ++ actions) := by
  match call with
  | .startApplication =>
    have hactive : s.active = false := hfits
    refine ⟨ScheduleNextPacket { s with active := true }, [], ?_, ?_⟩
    · show (s.StartApplication).map _ = _
      unfold StartApplication
      rw [hactive]
      rfl
    · rw [append_nil]
      obtain ⟨htracks, hbounded⟩ := hs
      apply Keeps.scheduleNextPacket
      exact ⟨⟨htracks.retxSeqs, htracks.nodup, htracks.mem, htracks.inFlight, htracks.disjoint⟩,
        ⟨hbounded.seen, hbounded.positive, hbounded.peak, hbounded.kept⟩⟩
  | .stopApplication =>
    refine ⟨s.StopApplication, [], rfl, ?_⟩
    rw [append_nil]
    obtain ⟨htracks, hbounded⟩ := hs
    refine ⟨⟨htracks.retxSeqs, htracks.nodup, htracks.mem, htracks.inFlight, htracks.disjoint⟩, ?_⟩
    exact hbounded.widen (List.Subset.refl _) rfl rfl hbounded.seen (le_refl _)
      (Nat.add_le_add_left (Nat.zero_le _) _)
  | .sendEvent now => exact ⟨_, _, rfl, runSendEvent_keeps hs hfits.1 hfits.2⟩
  | .onData sequenceNumber => exact ⟨_, _, rfl, onData_keeps hs hfits⟩
  | .onNack =>
    refine ⟨s, [], rfl, ?_⟩
    rw [append_nil]
    exact hs
  | .checkRetxTimeout now rto => exact ⟨_, _, rfl, checkTimeouts_keeps hs⟩

/-- **A run** whose calls fit keeps the invariant. -/
theorem run_keeps {initialWindow : UInt32} {reset : Bool} {seq seqMax : UInt32} {calls : List Call}
    (hfits : TracedRun.Meets step Fits (create initialWindow reset seq seqMax) [] calls) :
    ∃ s h, TracedRun.run step (create initialWindow reset seq seqMax) calls = .ok (s, h) ∧
      Keeps s h ∧ s.attributes = (initialWindow, reset) := by
  refine TracedRun.run_invariant (I := fun s h => Keeps s h ∧ s.attributes = (initialWindow, reset))
    ?_ ⟨keeps_create initialWindow reset seq seqMax, rfl⟩ hfits
  rintro s h call ⟨hs, hattributes⟩ hfits
  obtain ⟨s', actions, hok, hs'⟩ := step_keeps hs hfits
  exact ⟨s', actions, hok, hs', (step_attributes hok).trans hattributes⟩

/-- **Runs of the window-based consumer**: while every Data is for an Interest that is
outstanding, `m_inFlight` counts the Interests outstanding. With a window that was not 0 at
first they are never more than the largest window there has been, nor than the window there is
as long as no timeout sets it back. -/
theorem consumerWindow_counts (initialWindow : UInt32) (reset : Bool) (seq seqMax : UInt32)
    (calls : List Call)
    (hfits : TracedRun.Meets step Fits (create initialWindow reset seq seqMax) [] calls) :
    ∃ s h, TracedRun.run step (create initialWindow reset seq seqMax) calls = .ok (s, h) ∧
      Counts s h ∧
      (initialWindow ≠ 0 →
        (∃ w, (w = initialWindow.toNat ∨ .window w ∈ h) ∧ s.inFlight.toNat ≤ w) ∧
        (reset = false ∨ (∀ seq, .timedOut seq ∉ h) → s.inFlight.toNat ≤ s.window)) := by
  obtain ⟨s, h, hok, hs, hattributes⟩ := run_keeps hfits
  obtain ⟨rfl, rfl⟩ := Prod.ext_iff.mp hattributes
  exact ⟨s, h, hok, hs.tracks.counts, hs.bounded.inFlight_le⟩

/-- A run: sends, a Data, a timeout and a retransmission, a Nack, a stop. -/
def exampleCalls : List Call :=
  [.startApplication, .sendEvent 0, .sendEvent 0, .onData 0, .sendEvent 1, .onNack, .sendEvent 1,
    .checkRetxTimeout 5 5, .onData 2, .sendEvent 6, .onData 1, .stopApplication,
    .checkRetxTimeout 20 5]

theorem consumerWindow_counts_exampleCalls :
    TracedRun.Meets step Fits (create 2 true 0 0xffffffff) [] exampleCalls ∧
      ∃ s h, TracedRun.run step (create 2 true 0 0xffffffff) exampleCalls = .ok (s, h) ∧
        Counts s h ∧
        ((2 : UInt32) ≠ 0 →
          (∃ w, (w = (2 : UInt32).toNat ∨ .window w ∈ h) ∧ s.inFlight.toNat ≤ w) ∧
          (true = false ∨ (∀ seq, .timedOut seq ∉ h) → s.inFlight.toNat ≤ s.window)) :=
  have hfits : TracedRun.Meets step Fits (create 2 true 0 0xffffffff) [] exampleCalls := by
    decide +kernel
  ⟨hfits, consumerWindow_counts 2 true 0 0xffffffff exampleCalls hfits⟩

/-- The window grows to 3, three Interests are in flight and one times out. -/
def resetCalls : List Call :=
  [.startApplication, .sendEvent 0, .onData 0, .sendEvent 0, .sendEvent 0, .onData 1, .sendEvent 1,
    .sendEvent 1, .checkRetxTimeout 5 5]

/-- An Interest is answered twice. -/
def duplicateCalls : List Call :=
  [.startApplication, .sendEvent 0, .onData 0, .sendEvent 0, .onData 0]

/-- A timeout sets the window back below what is in flight, and a second Data for one Interest
counts for another that is outstanding. -/
theorem not_inFlight_le_window :
    (∃ s h, TracedRun.run step (create 1 true 0 0xffffffff) resetCalls = .ok (s, h) ∧
      Counts s h ∧ s.window < s.inFlight.toNat) ∧
    ∃ s h, TracedRun.run step (create 1 true 0 0xffffffff) duplicateCalls = .ok (s, h) ∧
      ¬ Counts s h := by
  constructor
  · have hfits : TracedRun.Meets step Fits (create 1 true 0 0xffffffff) [] resetCalls := by
      decide +kernel
    obtain ⟨s, h, hok, hs, -⟩ := run_keeps hfits
    refine ⟨s, h, hok, hs.tracks.counts, ?_⟩
    have hvalues : (TracedRun.run step (create 1 true 0 0xffffffff) resetCalls).toOption.map
        (fun r => decide (r.1.window < r.1.inFlight.toNat)) = some true := by decide +kernel
    rw [hok] at hvalues
    exact of_decide_eq_true (Option.some.inj hvalues)
  · have hvalues : (TracedRun.run step (create 1 true 0 0xffffffff) duplicateCalls).toOption.map
        (fun r => (r.1.inFlight, r.2)) =
          some (0, [.sent 0, .answered 0, .window 2, .sent 1, .answered 0, .window 3]) := by
      decide +kernel
    match hok : TracedRun.run step (create 1 true 0 0xffffffff) duplicateCalls with
    | .error e =>
      rw [hok] at hvalues
      cases hvalues
    | .ok (s, h) =>
      rw [hok] at hvalues
      obtain ⟨hinFlight, hh⟩ := Prod.mk.inj (Option.some.inj hvalues)
      refine ⟨s, h, rfl, ?_⟩
      rintro ⟨seqs, -, hmem, hlength⟩
      have hone : (1 : UInt32) ∈ seqs := by
        rw [hmem]
        exact ⟨[.sent 0, .answered 0, .window 2], [.answered 0, .window 3], hh, by decide,
          by decide⟩
      rw [show s.inFlight = 0 from hinFlight] at hlength
      rw [length_eq_zero_iff.mp hlength.symm] at hone
      cases hone

end Runs

end Ns3Joined.Apps.ConsumerWindow
