import Ns3Joined.Wifi.BlockAckCache

/-!
# The block ack cache remembers its window

An entry of the table over the sequence numbers stands for the MPDUs received with its number
since the window last came to cover it (`Matches`), also when the window has left the number
behind; so the proof is about what a moved window comes over.

* `resetPortionOfBitmap_spec`: what the loop clears.
* `updateWithMpdu_represents`, `updateWithBlockAckReq_represents`: the window moves.
* `fillBlockAckBitmap_spec`: what a response is filled with.
* `acknowledges_exactly_received`: over all runs, a compressed response acknowledges what was
  received.
* `entry_keeps_fragments`: a run that the condition leaves out.
-/

namespace Ns3Joined.Wifi.BlockAckCache

open CircularRange Function
open List hiding after

variable {c : BlockAckCache} {t : Received} {hdr : WifiMacHeader} {seq s first : ℕ}

/-! ### Entries -/

/-- An entry is 0 if nothing was received, and 1 if all that was received had fragment number
0. -/
structure Matches (entry : ℕ) (mpdus : List WifiMacHeader) : Prop where
  zero : entry = 0 ↔ mpdus = []
  one : entry = 1 ↔ mpdus ≠ [] ∧ ∀ hdr ∈ mpdus, hdr.m_seqFrag = 0

/-- No bit without a frame. -/
theorem matches_nil : Matches 0 [] where
  zero := Iff.of_eq (by simp)
  one := by simp

/-- The bit of a fragment is in the entry. -/
theorem le_or_shiftLeft (entry frag : ℕ) : 2 ^ frag ≤ entry ||| 1 <<< frag := by
  rw [Nat.one_shiftLeft]
  exact Nat.right_le_or

/-- The bit of a later fragment is not the first. -/
theorem two_le_or_shiftLeft {frag : ℕ} (hfrag : frag ≠ 0) (entry : ℕ) :
    2 ≤ entry ||| 1 <<< frag := by
  calc
    2 = 2 ^ 1 := rfl
    _ ≤ 2 ^ frag := Nat.pow_le_pow_right (by decide) (Nat.pos_of_ne_zero hfrag)
    _ ≤ _ := le_or_shiftLeft entry frag

variable {entry : ℕ} {mpdus : List WifiMacHeader} {c' : BlockAckCache} {p q : ℕ → Prop}
  {type : BlockAckType}

/-- Marking the first fragment leaves the entry at one if no later fragment came. -/
theorem or_one_eq_one_iff : entry ||| 1 <<< 0 = 1 ↔ entry ≤ 1 := by
  constructor
  · intro h
    rw [← h]
    exact Nat.left_le_or
  · intro h
    obtain rfl | rfl := Nat.le_one_iff_eq_zero_or_eq_one.mp h <;> rfl

/-- One more frame is marked. -/
theorem Matches.cons (hdr : WifiMacHeader)
    (hentry : hdr.m_seqFrag = 0 → (entry ≤ 1 ↔ ∀ other ∈ mpdus, other.m_seqFrag = 0)) :
    Matches (entry ||| 1 <<< hdr.m_seqFrag) (hdr :: mpdus) := by
  have hpos := le_or_shiftLeft entry hdr.m_seqFrag
  have hpow := Nat.two_pow_pos hdr.m_seqFrag
  refine ⟨iff_of_false (by omega) (cons_ne_nil _ _), ?_⟩
  by_cases hfrag : hdr.m_seqFrag = 0
  · rw [hfrag, or_one_eq_one_iff, hentry hfrag]
    simp [hfrag]
  · have htwo := two_le_or_shiftLeft hfrag entry
    refine iff_of_false (by omega) ?_
    rintro ⟨-, h⟩
    exact hfrag (h hdr mem_cons_self)

/-- An entry is at most one if and only if no later fragment came. -/
theorem Matches.le_one_iff (h : Matches entry mpdus) :
    entry ≤ 1 ↔ ∀ other ∈ mpdus, other.m_seqFrag = 0 := by
  rw [Nat.le_one_iff_eq_zero_or_eq_one, h.zero, h.one]
  constructor
  · rintro (rfl | h)
    · exact nofun
    · exact h.2
  · intro h
    by_cases hnil : mpdus = []
    · exact .inl hnil
    · exact .inr ⟨hnil, h⟩

/-! ### The window -/

/-- The cache has the window of the specification. -/
structure SameWindow (c : BlockAckCache) (t : Received) : Prop where
  start : c.m_winStart = t.winStart
  size : c.m_winSize = t.winSize
  stop : c.m_winEnd = after 4096 t.winStart (t.winSize - 1)
  start_lt : t.winStart < 4096
  size_pos : 0 < t.winSize
  size_le : t.winSize ≤ 2048

/-- The cache stands for what was received. -/
structure Represents (c : BlockAckCache) (t : Received) : Prop extends SameWindow c t where
  entry : ∀ seq < 4096, Matches (c.m_bitmap seq) (t.of seq)

/-- Old is a frame at least half the range behind the window's start. -/
theorem SameWindow.isOld_iff (h : SameWindow c t) :
    QosUtilsIsOldPacket c.m_winStart seq = true ↔ 2048 ≤ distance 4096 t.winStart seq := by
  rw [h.start]
  exact decide_eq_true_iff

/-- The code's test of the window is that of the specification. -/
theorem SameWindow.isInWindow_iff (h : SameWindow c t) :
    IsInWindow seq c.m_winStart c.m_winSize = true ↔ t.Covers seq := by
  rw [h.start, h.size]
  exact decide_eq_true_iff

/-- The assertion on the window passes. -/
theorem SameWindow.winsizeAssert (h : SameWindow c t) : WINSIZE_ASSERT c = .ok c := by
  have hpos := h.size_pos
  have hle := h.size_le
  refine if_pos ?_
  change distance 4096 c.m_winStart c.m_winEnd = c.m_winSize - 1
  rw [h.start, h.size, h.stop, distance_after h.start_lt (by omega)]

/-- The MPDUs of a number are forgotten if the window comes over it. -/
theorem of_moveTo :
    (t.moveTo s first).of seq = if t.Passes s first seq then [] else t.of seq := by
  change List.filter _ (List.filter _ _) = _
  rw [filter_filter]
  split_ifs with hpasses
  · refine filter_eq_nil_iff.mpr fun hdr _ hboth => ?_
    rw [Bool.and_eq_true, decide_eq_true_iff, decide_eq_true_iff] at hboth
    obtain ⟨rfl, hnot⟩ := hboth
    exact hnot hpasses
  · refine filter_congr fun hdr _ => ?_
    by_cases hseq : hdr.m_seqSeq = seq
    · rw [decide_eq_true hseq, Bool.true_and, hseq]
      exact decide_eq_true hpasses
    · rw [decide_eq_false hseq, Bool.false_and]

/-- The frames of a number after one of it came. -/
theorem of_add_self : (t.add hdr).of hdr.m_seqSeq = hdr :: t.of hdr.m_seqSeq :=
  filter_cons_of_pos (decide_eq_true rfl)

/-- The frames of other numbers after one came. -/
theorem of_add_ne (hne : seq ≠ hdr.m_seqSeq) : (t.add hdr).of seq = t.of seq :=
  filter_cons_of_neg (by simpa using hne.symm)

/-- A moved window: the entries of the numbers that it comes over are cleared, but for one of them
maybe, and the others stay. -/
structure Moved (c c' : BlockAckCache) (passes skip : ℕ → Prop) : Prop where
  kept : ∀ seq < 4096, ¬ passes seq → c'.m_bitmap seq = c.m_bitmap seq
  cleared : ∀ seq < 4096, passes seq → ¬ skip seq → c'.m_bitmap seq = 0
  skipped : ∀ seq < 4096, skip seq → c'.m_bitmap seq = c.m_bitmap seq

/-- What was represented is so after the window moved. -/
theorem Represents.entry_of_moved {skip : ℕ → Prop} (h : Represents c t)
    (hmoved : Moved c c' (t.Passes s first) skip) (hseq : seq < 4096) (hskip : ¬ skip seq) :
    Matches (c'.m_bitmap seq) ((t.moveTo s first).of seq) := by
  rw [of_moveTo]
  split_ifs with hpasses
  · rw [hmoved.cleared seq hseq hpasses hskip]
    exact matches_nil
  · rw [hmoved.kept seq hseq hpasses]
    exact h.entry seq hseq

/-! ### Clearing -/

/-- Resetting a part of the bitmap clears exactly that part. -/
theorem resetPortionOfBitmap_spec (c : BlockAckCache) (start stop : ℕ) (hstart : start < 4096)
    (hstop : stop < 4096) :
    ∃ bitmap, c.ResetPortionOfBitmap start stop = .ok { c with m_bitmap := bitmap } ∧
      ∀ j < 4096, bitmap j =
        if distance 4096 start j ≤ distance 4096 start stop then 0 else c.m_bitmap j := by
  refine ⟨(visited 4096 start stop).foldl (fun bitmap i => update bitmap i 0) c.m_bitmap,
    ?_, fun j hj => ?_⟩
  · unfold ResetPortionOfBitmap forEach
    rw [loop_eq _ hstart hstop (distance_lt hstart)]
    rfl
  · rw [foldl_clear]
    exact if_congr (mem_visited_iff hstart hj) rfl rfl

/-! ### Receiving -/

/-- The entries after a fragment was marked. -/
theorem markFragment_entry (c : BlockAckCache) (hdr : WifiMacHeader) :
    (c.markFragment hdr).m_bitmap seq = if seq = hdr.m_seqSeq then
      c.m_bitmap seq ||| 1 <<< hdr.m_seqFrag else c.m_bitmap seq := by
  change update c.m_bitmap hdr.m_seqSeq _ seq = _
  rw [update_apply]
  split_ifs with h
  · rw [h]
    rfl
  · rfl

/-- Marking a fragment represents its coming. -/
theorem Represents.add (h : Represents c t) :
    Represents (c.markFragment hdr) (t.add hdr) where
  toSameWindow := ⟨h.start, h.size, h.stop, h.start_lt, h.size_pos, h.size_le⟩
  entry := by
    intro seq hseq
    have hentry := h.entry seq hseq
    rw [markFragment_entry]
    by_cases heq : seq = hdr.m_seqSeq
    · subst heq
      rw [if_pos rfl, of_add_self]
      exact Matches.cons hdr fun _ => hentry.le_one_iff
    · rw [if_neg heq, of_add_ne heq]
      exact hentry

/-- An MPDU beyond the window is the last of the moved window. -/
theorem Represents.enter (h : Represents c t)
    (hmoved : Moved c c' (t.Passes s first) (· = hdr.m_seqSeq))
    (hwindow : SameWindow c' (t.moveTo s first)) (hpasses : t.Passes s first hdr.m_seqSeq)
    (hstale : hdr.m_seqFrag = 0 → ∀ other ∈ t.of hdr.m_seqSeq, other.m_seqFrag = 0) :
    Represents (c'.markFragment hdr) ((t.moveTo s first).add hdr) where
  toSameWindow :=
    ⟨hwindow.start, hwindow.size, hwindow.stop, hwindow.start_lt, hwindow.size_pos, hwindow.size_le⟩
  entry := by
    intro seq hseq
    rw [markFragment_entry]
    by_cases heq : seq = hdr.m_seqSeq
    · -- its entry still holds what an earlier cycle left
      subst heq
      have hentry := h.entry _ hseq
      rw [if_pos rfl, of_add_self, of_moveTo, if_pos hpasses, hmoved.skipped _ hseq rfl]
      exact Matches.cons hdr fun hfrag =>
        iff_of_true (hentry.le_one_iff.mpr (hstale hfrag)) nofun
    · rw [if_neg heq, of_add_ne heq]
      exact h.entry_of_moved hmoved hseq heq

/-- The moves of `UpdateWithMpdu`, before the entry of the MPDU is marked: the window comes to
end with the number `d` steps after its start. -/
theorem beyond_spec (h : Represents c t) {d : ℕ} (hd : d < 2048) (hout : t.winSize ≤ d) :
    let seq := after 4096 t.winStart d
    let delta := (seq + 4096 - c.m_winEnd) % 4096
    let s := after 4096 t.winStart (d + 1 - t.winSize)
    ∃ bitmap,
      (if delta > 1 then
        c.ResetPortionOfBitmap ((c.m_winEnd + 1) % 4096) ((seq + 4096 - 1) % 4096)
      else
        .ok c) = .ok { c with m_bitmap := bitmap } ∧
      SameWindow { c with
        m_winStart := (c.m_winStart + delta) % 4096, m_winEnd := seq, m_bitmap := bitmap }
        (t.moveTo s t.winNext) ∧
      Moved c { c with
        m_winStart := (c.m_winStart + delta) % 4096, m_winEnd := seq, m_bitmap := bitmap }
        (t.Passes s t.winNext) (· = seq) ∧
      t.Passes s t.winNext seq := by
  have hlt := h.start_lt
  have hpos := h.size_pos
  intro seq delta s
  have hdelta : delta = d + 1 - t.winSize := by
    change distance 4096 c.m_winEnd seq = _
    rw [h.stop, distance_after_after hlt (by omega) (by omega), if_pos (by omega)]
    omega
  have hwindow : ∀ bitmap, SameWindow { c with
      m_winStart := (c.m_winStart + delta) % 4096, m_winEnd := seq, m_bitmap := bitmap }
      (t.moveTo s t.winNext) := by
    intro bitmap
    refine ⟨?_, h.size, ?_, after_lt hlt, hpos, h.size_le⟩
    · change after 4096 c.m_winStart delta = s
      rw [h.start, hdelta]
    · change seq = after 4096 s (t.winSize - 1)
      rw [after_after, show d + 1 - t.winSize + (t.winSize - 1) = d by omega]
  -- what the window comes over, in steps from the old start
  have hpasses_iff : ∀ {k}, k < 4096 →
      (t.Passes s t.winNext (after 4096 t.winStart k) ↔ t.winSize ≤ k ∧ k < d + 1) := by
    intro k hk
    unfold Received.Passes Received.winNext
    rw [after_after, show d + 1 - t.winSize + t.winSize = d + 1 by omega,
      distance_after_after hlt (by omega) hk, distance_after_after hlt (by omega) (by omega),
      if_pos (show t.winSize ≤ d + 1 by omega)]
    split_ifs <;> omega
  have hin : t.Passes s t.winNext seq := (hpasses_iff (by omega)).mpr (by omega)
  by_cases hreset : delta > 1
  · have hfrom : (c.m_winEnd + 1) % 4096 = after 4096 t.winStart t.winSize := by
      rw [h.stop]
      change after 4096 (after 4096 _ _) 1 = _
      rw [after_after, Nat.sub_add_cancel hpos]
    have hto : (seq + 4096 - 1) % 4096 = after 4096 t.winStart (d - 1) :=
      after_pred hlt (by omega) (by omega)
    rw [hfrom, hto]
    obtain ⟨bitmap, hok, hbitmap⟩ := resetPortionOfBitmap_spec c (after 4096 t.winStart t.winSize)
      (after 4096 t.winStart (d - 1)) (after_lt hlt) (after_lt hlt)
    rw [distance_after_after hlt (by omega) (by omega), if_pos (by omega)] at hbitmap
    refine ⟨bitmap, by rw [if_pos hreset, hok], hwindow bitmap, ⟨?_, ?_, ?_⟩, hin⟩
    · intro j hj hnot
      obtain ⟨k, hk, rfl⟩ := exists_eq_after hlt hj
      rw [hpasses_iff hk] at hnot
      refine (hbitmap _ hj).trans (if_neg ?_)
      rw [distance_after_after hlt (by omega) hk]
      split_ifs <;> omega
    · intro j hj hpasses hskip
      obtain ⟨k, hk, rfl⟩ := exists_eq_after hlt hj
      rw [hpasses_iff hk] at hpasses
      have hne : k ≠ d := fun heq => hskip (heq ▸ rfl)
      refine (hbitmap _ hj).trans (if_pos ?_)
      rw [distance_after_after hlt (by omega) hk, if_pos (by omega)]
      omega
    · rintro j hj rfl
      refine (hbitmap _ hj).trans (if_neg ?_)
      rw [distance_after_after hlt (by omega) (by omega), if_pos hout]
      omega
  · -- the window moves by one, and only the MPDU's own entry comes in
    refine ⟨c.m_bitmap, by rw [if_neg hreset], hwindow _, ⟨?_, ?_, ?_⟩, hin⟩
    · exact fun _ _ _ => rfl
    · intro j hj hpasses hskip
      obtain ⟨k, hk, rfl⟩ := exists_eq_after hlt hj
      rw [hpasses_iff hk] at hpasses
      have hne : k ≠ d := fun heq => hskip (heq ▸ rfl)
      omega
    · exact fun _ _ _ => rfl

/-- A frame within the condition is recorded. -/
theorem updateWithMpdu_represents (h : Represents c t) (hwell : hdr.WellFormed)
    (hfits : t.Fits (.updateWithMpdu hdr)) :
    ∃ c', c.UpdateWithMpdu hdr = .ok c' ∧ Represents c' (t.receive hdr) := by
  unfold UpdateWithMpdu Received.receive WifiMacHeader.GetSequenceNumber
  dsimp only
  by_cases hold : 2048 ≤ distance 4096 t.winStart hdr.m_seqSeq
  · rw [if_neg (by simp [h.isOld_iff.mpr hold]), if_pos hold]
    exact ⟨c, rfl, h⟩
  rw [if_pos (by simpa using mt h.isOld_iff.mp hold), if_neg hold]
  by_cases hin : distance 4096 t.winStart hdr.m_seqSeq < t.winSize
  · rw [if_neg (by simp [h.isInWindow_iff.mpr hin]), if_pos hin]
    exact ⟨_, rfl, h.add⟩
  rw [if_pos (by simpa using mt h.isInWindow_iff.mp hin), if_neg hin]
  have hbeyond := beyond_spec h (not_le.mp hold) (not_lt.mp hin)
  dsimp only at hbeyond
  rw [after_distance h.start_lt hwell.1] at hbeyond
  obtain ⟨bitmap, hok, hwindow, hmoved, hpasses⟩ := hbeyond
  refine ⟨_, ?_, h.enter hmoved hwindow hpasses (hfits hin (not_le.mp hold))⟩
  split_ifs at hok ⊢
  · rw [hok]
    change WINSIZE_ASSERT _ >>= _ = _
    rw [hwindow.winsizeAssert]
    rfl
  · obtain rfl : c.m_bitmap = bitmap := congrArg m_bitmap (Except.ok.inj hok)
    change WINSIZE_ASSERT _ >>= _ = _
    rw [hwindow.winsizeAssert]
    rfl

/-! ### Requests -/

/-- Moving the window represents the specification's move. -/
theorem Represents.moveTo (h : Represents c t) (hwindow : SameWindow c' (t.moveTo s first))
    (hmoved : Moved c c' (t.Passes s first) fun _ => False) :
    Represents c' (t.moveTo s first) where
  toSameWindow := hwindow
  entry := fun _ hseq => h.entry_of_moved hmoved hseq id

/-- A window that stays where it is comes over nothing. -/
theorem Represents.moveTo_self (h : Represents c t) :
    Represents c (t.moveTo t.winStart t.winNext) := by
  refine h.moveTo ⟨h.start, h.size, h.stop, h.start_lt, h.size_pos, h.size_le⟩
    ⟨fun _ _ _ => rfl, fun seq _ hpasses _ => absurd hpasses ?_, fun _ _ => False.elim⟩
  unfold Received.Passes Received.winNext
  rw [distance_self (after_lt h.start_lt)]
  exact Nat.not_lt_zero _

/-- A request moves the window. -/
theorem updateWithBlockAckReq_represents (h : Represents c t) (hs : s < 4096) :
    ∃ c', c.UpdateWithBlockAckReq s = .ok c' ∧ Represents c' (t.request s) := by
  unfold UpdateWithBlockAckReq Received.request
  -- an old start changes nothing
  by_cases hold : 2048 ≤ distance 4096 t.winStart s
  · rw [if_neg (by simp [h.isOld_iff.mpr hold]), if_pos hold]
    exact ⟨c, rfl, h⟩
  rw [if_pos (by simpa using mt h.isOld_iff.mp hold), if_neg hold]
  have hlt := h.start_lt
  have hpos := h.size_pos
  have hle := h.size_le
  have hstop : (s + c.m_winSize - 1) % 4096 = after 4096 s (t.winSize - 1) := by
    rw [h.size, after, ← Nat.add_sub_assoc hpos]
  rw [hstop]
  have hwindow : ∀ first bitmap, SameWindow { c with
      m_winStart := s, m_winEnd := after 4096 s (t.winSize - 1), m_bitmap := bitmap }
      (t.moveTo s first) := fun _ _ => ⟨rfl, h.size, rfl, hs, hpos, hle⟩
  obtain ⟨d, hd, rfl⟩ := exists_eq_after hlt hs
  rw [distance_after hlt hd] at hold
  by_cases hin : t.Covers (after 4096 t.winStart d)
  · rw [if_pos (h.isInWindow_iff.mpr hin), if_pos hin]
    have hdsize : d < t.winSize := by
      rwa [Received.Covers, distance_after hlt hd] at hin
    by_cases hsame : after 4096 t.winStart d = c.m_winStart
    · -- nothing to do
      rw [if_neg (not_not_intro hsame), hsame, h.start]
      exact ⟨c, rfl, h.moveTo_self⟩
    · -- the numbers that come in are cleared
      rw [if_pos hsame]
      have hdpos : 0 < d := by
        refine Nat.pos_of_ne_zero fun hzero => hsame ?_
        rw [hzero, after_zero hlt, h.start]
      have hfrom : (c.m_winEnd + 1) % 4096 = t.winNext := by
        rw [h.stop]
        change after 4096 (after 4096 _ _) 1 = _
        rw [after_after, Nat.sub_add_cancel hpos]
        rfl
      have hpasses_iff : ∀ {k}, k < 4096 → (t.Passes (after 4096 t.winStart d) t.winNext
          (after 4096 t.winStart k) ↔ t.winSize ≤ k ∧ k < d + t.winSize) := by
        intro k hk
        unfold Received.Passes Received.winNext
        rw [after_after, distance_after_after hlt (by omega) hk,
          distance_after_after hlt (by omega) (by omega),
          if_pos (show t.winSize ≤ d + t.winSize by omega)]
        split_ifs <;> omega
      obtain ⟨bitmap, hok, hbitmap⟩ := resetPortionOfBitmap_spec
        { c with m_winStart := after 4096 t.winStart d } t.winNext
        (after 4096 (after 4096 t.winStart d) (t.winSize - 1)) (after_lt hlt) (after_lt hs)
      have hcleared : ∀ {k}, k < 4096 → (distance 4096 t.winNext (after 4096 t.winStart k) ≤
          distance 4096 t.winNext (after 4096 (after 4096 t.winStart d) (t.winSize - 1)) ↔
            t.winSize ≤ k ∧ k < d + t.winSize) := by
        intro k hk
        unfold Received.winNext
        rw [after_after, distance_after_after hlt (by omega) hk,
          distance_after_after hlt (by omega) (by omega),
          if_pos (show t.winSize ≤ d + (t.winSize - 1) by omega)]
        split_ifs <;> omega
      refine ⟨_, ?_, h.moveTo (hwindow t.winNext bitmap) ⟨?_, ?_, fun _ _ => False.elim⟩⟩
      · dsimp only
        rw [hfrom, hok]
        change WINSIZE_ASSERT _ = _
        rw [(hwindow t.winNext bitmap).winsizeAssert]
      · intro j hj hnot
        obtain ⟨k, hk, rfl⟩ := exists_eq_after hlt hj
        exact (hbitmap _ hj).trans (if_neg fun hle => hnot ((hpasses_iff hk).mpr
          ((hcleared hk).mp hle)))
      · intro j hj hpasses _
        obtain ⟨k, hk, rfl⟩ := exists_eq_after hlt hj
        exact (hbitmap _ hj).trans (if_pos ((hcleared hk).mpr ((hpasses_iff hk).mp hpasses)))
  · -- the whole window is cleared
    rw [if_neg (mt h.isInWindow_iff.mp hin), if_neg hin]
    obtain ⟨bitmap, hok, hbitmap⟩ := resetPortionOfBitmap_spec
      { c with
        m_winStart := after 4096 t.winStart d
        m_winEnd := after 4096 (after 4096 t.winStart d) (t.winSize - 1) }
      (after 4096 t.winStart d) (after 4096 (after 4096 t.winStart d) (t.winSize - 1)) hs
      (after_lt hs)
    rw [distance_after hs (by omega)] at hbitmap
    have hpasses_iff : ∀ {j}, t.Passes (after 4096 t.winStart d) (after 4096 t.winStart d) j ↔
        distance 4096 (after 4096 t.winStart d) j ≤ t.winSize - 1 := by
      intro j
      unfold Received.Passes
      rw [distance_after hs (by omega)]
      omega
    refine ⟨_, ?_, h.moveTo (hwindow _ bitmap) ⟨?_, ?_, fun _ _ => False.elim⟩⟩
    · dsimp only
      rw [hok]
      change WINSIZE_ASSERT _ = _
      rw [(hwindow t.winNext bitmap).winsizeAssert]
    · exact fun j hj hnot => (hbitmap j hj).trans (if_neg (mt hpasses_iff.mpr hnot))
    · exact fun j hj hpasses _ => (hbitmap j hj).trans (if_pos (hpasses_iff.mp hpasses))

/-! ### Responses -/

open CtrlBAckResponseHeader (Marks Compressed)

/-- Marking in two steps. -/
theorem marks_trans {h₁ h₂ h₃ : CtrlBAckResponseHeader} (h : Marks h₁ h₂ p) (h' : Marks h₂ h₃ q) :
    Marks h₁ h₃ fun k => p k ∨ q k where
  m_startingSeq := h'.m_startingSeq.trans h.m_startingSeq
  m_baType := h'.m_baType.trans h.m_baType
  mark := by
    intro k hk
    rw [h'.mark k (h.m_baType ▸ hk), h.mark k hk, or_assoc]

/-- Marking reads the positions as a set. -/
theorem Marks.congr {h h' : CtrlBAckResponseHeader} (hm : Marks h h' p) (hpq : ∀ k, p k ↔ q k) :
    Marks h h' q :=
  ⟨hm.m_startingSeq, hm.m_baType, fun k hk => (hm.mark k hk).trans (or_congr_right (hpq k))⟩

/-- The loop marks the places whose entry is 1. -/
theorem foldl_fillBody (places : List ℕ) (hplaces : ∀ i ∈ places, i < 4096)
    (header : CtrlBAckResponseHeader) (hstart : header.m_startingSeq < 4096)
    (htype : Compressed header.m_baType) :
    ∃ header', places.foldl (fun s i => c.fillBody i s) (.ok header) = .ok header' ∧
      Marks header header' fun k =>
        ∃ i ∈ places, c.m_bitmap i = 1 ∧ k = distance 4096 header.m_startingSeq i := by
  induction places generalizing header with
  | nil =>
    exact ⟨header, rfl, rfl, rfl, fun k _ => by simp⟩
  | cons i places ih =>
    have hrest := fun j hj => hplaces j (mem_cons_of_mem i hj)
    rw [foldl_cons]
    by_cases hone : c.m_bitmap i = 1
    · obtain ⟨h₁, hok, hmarks⟩ := CtrlBAckResponseHeader.setReceivedPacket_spec hstart
        (hplaces i mem_cons_self) htype
      obtain ⟨h₂, hok', hmarks'⟩ := ih hrest h₁ (hmarks.m_startingSeq ▸ hstart)
        (hmarks.m_baType ▸ htype)
      have hbody : c.fillBody i (.ok header) = .ok h₁ := (if_pos hone).trans hok
      rw [hbody]
      refine ⟨h₂, hok', Marks.congr (marks_trans hmarks hmarks') fun k => ?_⟩
      rw [hmarks.m_startingSeq, exists_mem_cons_iff]
      exact or_congr_left (iff_and_self.mpr fun _ => hone).symm.symm
    · have hbody : c.fillBody i (.ok header) = .ok header := if_neg hone
      obtain ⟨h₂, hok', hmarks'⟩ := ih hrest header hstart htype
      rw [hbody]
      refine ⟨h₂, hok', Marks.congr hmarks' fun k => ?_⟩
      rw [exists_mem_cons_iff]
      exact (or_iff_right fun h => hone h.1).symm

/-- A filled response acknowledges the numbers from its start on, as many as the window has,
whose entry is 1. -/
theorem fillBlockAckBitmap_spec (htype : Compressed type) (hs : s < 4096) (hpos : 0 < c.m_winSize)
    (hle : c.m_winSize ≤ 4096) :
    ∃ header, c.FillBlockAckBitmap (.empty type s) = .ok header ∧
      ∀ seq < 4096, header.IsPacketReceived seq =
        .ok (distance 4096 s seq < CtrlBAckResponseHeader.bits type ∧
          distance 4096 s seq < c.m_winSize ∧ c.m_bitmap seq = 1) := by
  have hstop : (s + c.m_winSize - 1) % 4096 = after 4096 s (c.m_winSize - 1) := by
    rw [after, ← Nat.add_sub_assoc hpos]
  have hplaces : ∀ i ∈ visited 4096 s (after 4096 s (c.m_winSize - 1)), i < 4096 := by
    intro i hi
    obtain ⟨k, -, rfl⟩ := mem_map.mp hi
    exact after_lt hs
  obtain ⟨header, hok, hmarks⟩ := foldl_fillBody (c := c) _ hplaces (.empty type s) hs htype
  have hfill : c.FillBlockAckBitmap (.empty type s) = .ok header := by
    have hloop : forEach c.fillBody s ((s + c.m_winSize - 1) % 4096)
        (.ok (.empty type s)) = .ok (.ok header) := by
      unfold forEach
      rw [hstop, loop_eq _ hs (after_lt hs) (distance_lt hs)]
      exact congrArg Except.ok hok
    obtain rfl | rfl := htype <;> exact congrArg (· >>= id) hloop
  refine ⟨header, hfill, fun seq hseq => ?_⟩
  have hstart : header.m_startingSeq = s := hmarks.m_startingSeq
  have htype' : header.m_baType = type := hmarks.m_baType
  rw [CtrlBAckResponseHeader.isPacketReceived_eq (hstart ▸ hs) hseq (htype' ▸ htype), hstart,
    htype']
  refine congrArg Except.ok ?_
  rw [Bool.eq_iff_iff, Bool.and_eq_true, decide_eq_true_iff, decide_eq_true_iff]
  refine and_congr_right fun hbits => ?_
  have hempty : (CtrlBAckResponseHeader.empty type s).mark (distance 4096 s seq) = false := by
    obtain rfl | rfl := htype <;> exact bit_zero _
  rw [hmarks.mark _ hbits, hempty]
  constructor
  · rintro (h | ⟨i, hi, hone, heq⟩)
    · exact absurd h Bool.false_ne_true
    · have hlt := hplaces i hi
      obtain rfl : seq = i := by
        rw [← after_distance hs hseq, heq]
        exact after_distance hs hlt
      rw [mem_visited_iff hs hlt, distance_after hs (by omega)] at hi
      exact ⟨by omega, hone⟩
  · rintro ⟨hsize, hone⟩
    refine .inr ⟨seq, ?_, hone, rfl⟩
    rw [mem_visited_iff hs hseq, distance_after hs (by omega)]
    omega

/-- A response acknowledges as the specification does. -/
theorem acknowledges_iff (h : Represents c t) (hs : s < 4096) (hseq : seq < 4096)
    (hcovers : t.Covers s) (hfits : t.Fits (.acknowledges type s seq)) :
    (distance 4096 s seq < CtrlBAckResponseHeader.bits type ∧
      distance 4096 s seq < c.m_winSize ∧ c.m_bitmap seq = 1) ↔ t.Acknowledges type s seq := by
  have hlt := h.start_lt
  have hle := h.size_le
  rw [h.size]
  refine and_congr_right fun hbits => ?_
  by_cases hin : t.Covers seq
  · -- the window covers the number, so it is not before the start of the response
    have hafter : distance 4096 s seq < t.winSize := by
      obtain ⟨k, hk, rfl⟩ := exists_eq_after hlt hs
      obtain ⟨l, hl, rfl⟩ := exists_eq_after hlt hseq
      rw [Received.Covers, distance_after hlt hk] at hcovers
      rw [Received.Covers, distance_after hlt hl] at hin
      rw [distance_after_after hlt hk hl] at hbits ⊢
      unfold CtrlBAckResponseHeader.bits at hbits
      split_ifs at hbits ⊢ <;> omega
    have hsame := hfits hbits hafter
    rw [if_pos hin] at hsame
    rw [(h.entry seq hseq).one]
    constructor
    · rintro ⟨-, hne, hall⟩
      exact ⟨hin, hsame.2 hne hall⟩
    · rintro ⟨-, hex⟩
      obtain ⟨hdr, hmem, -⟩ := id hex
      exact ⟨hafter, ne_nil_of_mem hmem, hsame.1 hex⟩
  · refine iff_of_false ?_ fun h => hin h.1
    rintro ⟨hafter, hone⟩
    have hsame := hfits hbits hafter
    rw [if_neg hin] at hsame
    obtain ⟨hne, hall⟩ := (h.entry seq hseq).one.mp hone
    obtain hnil | ⟨hdr, hmem, hfrag⟩ := hsame
    · exact hne hnil
    · exact hfrag (hall hdr hmem)

/-! ### Runs -/

theorem represents_init {winStart winSize : ℕ} (hstart : winStart < 4096) (hpos : 0 < winSize)
    (hle : winSize ≤ 2048) : Represents (Init winStart winSize) ⟨winStart, winSize, []⟩ where
  start := rfl
  size := rfl
  stop := by
    change (winStart + winSize - 1) % 4096 = (winStart + (winSize - 1)) % 4096
    rw [← Nat.add_sub_assoc hpos]
  start_lt := hstart
  size_pos := hpos
  size_le := hle
  entry := fun _ _ => matches_nil

/-- Every call that fits refines the specification. -/
theorem step_refines (call : Call) (h : Represents c t) (hallowed : received.Allowed t call)
    (hfits : t.Fits call) : Refinement.StepRefines step received Represents c t call := by
  cases call with
  | updateWithMpdu hdr =>
    obtain ⟨c', hok, h'⟩ := updateWithMpdu_represents h hallowed hfits
    refine ⟨c', ?_, h'⟩
    simp only [step, hok, bind, Except.bind]
    rfl
  | updateWithBlockAckReq startingSeq =>
    obtain ⟨c', hok, h'⟩ := updateWithBlockAckReq_represents h hallowed
    refine ⟨c', ?_, h'⟩
    simp only [step, hok, bind, Except.bind]
    rfl
  | getWinStart =>
    refine ⟨c, ?_, h⟩
    change Except.ok (c, Answer.winStart c.m_winStart) = _
    rw [h.start]
    rfl
  | acknowledges type startingSeq seq =>
    obtain ⟨rfl, hs, hseq, hcovers⟩ := hallowed
    have hle := h.size ▸ h.size_le
    obtain ⟨header, hok, hreceived⟩ := fillBlockAckBitmap_spec (.inl rfl) hs (h.size ▸ h.size_pos)
      (Nat.le_trans hle (by decide))
    refine ⟨c, ?_, h⟩
    simp only [step, hok, hreceived seq hseq, bind, Except.bind]
    refine congrArg (fun b => Except.ok (c, Answer.acknowledged b)) ?_
    exact decide_eq_decide.mpr (acknowledges_iff h hs hseq hcovers hfits)

/-- **A compressed response acknowledges exactly what was received** unfragmented since the window
last came to cover it, in every run whose calls all fit. -/
theorem acknowledges_exactly_received (winStart winSize : ℕ) (hstart : winStart < 4096)
    (hpos : 0 < winSize) (hle : winSize ≤ 2048) (calls : List Call)
    (hfits : Refinement.Before step received (fun _ => Received.Fits) (Init winStart winSize)
      ⟨winStart, winSize, []⟩ calls) :
    Refinement.Refines step received Represents (Init winStart winSize) ⟨winStart, winSize, []⟩
      calls :=
  Refinement.refines_of_before (fun _ _ call h hallowed hcall => step_refines call h hallowed hcall)
    (represents_init hstart hpos hle) hfits

/-- An MPDU with the given sequence and fragment number. -/
def mpdu (seq frag : ℕ) (moreFrag : Bool) : WifiMacHeader where
  m_ctrlType := WifiMacHeader.TYPE_DATA
  m_ctrlSubtype := 8
  m_ctrlMoreFrag := moreFrag
  m_ctrlRetry := false
  m_addr1 := ⟨fun _ => 2⟩
  m_addr2 := ⟨fun _ => 4⟩
  m_seqFrag := frag
  m_seqSeq := seq
  m_qosTid := 0

/-- A window that slides over the end of the sequence numbers. -/
theorem acknowledges_exactly_received_wrap :
    Refinement.Refines step received Represents (Init 4090 16) ⟨4090, 16, []⟩
      [.updateWithMpdu (mpdu 4091 0 false), .updateWithMpdu (mpdu 3 0 true),
       .updateWithMpdu (mpdu 3 1 false), .updateWithMpdu (mpdu 12 0 false),
       .updateWithBlockAckReq 2, .getWinStart, .acknowledges .COMPRESSED_BLOCK_ACK 2 12,
       .acknowledges .COMPRESSED_BLOCK_ACK 3 3] :=
  acknowledges_exactly_received 4090 16 (by decide) (by decide) (by decide) _ (by decide +kernel)

/-- The entry of an MPDU that moves the window keeps the fragments of the cycle before: an
unfragmented MPDU is not acknowledged. -/
theorem entry_keeps_fragments :
    received.AllAllowed ⟨0, 64, []⟩ [.updateWithMpdu (mpdu 10 1 false),
      .updateWithBlockAckReq 2000, .updateWithBlockAckReq 4000, .updateWithMpdu (mpdu 10 0 false),
      .acknowledges .COMPRESSED_BLOCK_ACK 4043 10] ∧
    Refinement.answers step (Init 0 64) [.updateWithMpdu (mpdu 10 1 false),
      .updateWithBlockAckReq 2000, .updateWithBlockAckReq 4000, .updateWithMpdu (mpdu 10 0 false),
      .acknowledges .COMPRESSED_BLOCK_ACK 4043 10] ≠
    .ok (received.answers ⟨0, 64, []⟩ [.updateWithMpdu (mpdu 10 1 false),
      .updateWithBlockAckReq 2000, .updateWithBlockAckReq 4000, .updateWithMpdu (mpdu 10 0 false),
      .acknowledges .COMPRESSED_BLOCK_ACK 4043 10]) := by
  decide +kernel

end Ns3Joined.Wifi.BlockAckCache
