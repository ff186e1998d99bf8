import Ns3Joined.Internet.TcpRxBufferContents
import Ns3Joined.Internet.TcpRxBufferSack
import Ns3Joined.Library.TracedRun

/-!
# What the receive buffer of TCP reports

* `Reports`: the blocks are what RFC 2018 wants of them.
* `RoomFor`: a segment takes the place of no packet that is reported, unless it drives its block
  out.
* `throughout_reports`: in runs with such segments the blocks are always right, and a segment that
  is out of order is in the first one.
-/

namespace Ns3Joined.Internet.TcpRxBuffer

open SequenceNumber Slices List ExceptFold UInt32 TracedRun

/-! ### Right blocks -/

/-- The byte is in a packet of the buffer. -/
def Holds (b : TcpRxBuffer) (s : SequenceNumber32) : Prop :=
  ∃ i ∈ b.m_data, le i.1 s = true ∧ lt s (i.1 + GetSize i.2) = true

/-- There are at most four blocks. They are not empty, have nothing in common and do not meet, are
above the next byte expected, and are of bytes that are held. -/
structure Reports (b : TcpRxBuffer) : Prop where
  length : b.m_sackList.length ≤ 4
  above : ∀ block ∈ b.m_sackList, lt b.m_nextRxSeq block.1 = true
  pos : ∀ block ∈ b.m_sackList, lt block.1 block.2 = true
  held : ∀ block ∈ b.m_sackList, ∀ s, le block.1 s = true → lt s block.2 = true → Holds b s
  separate : b.m_sackList.Pairwise Separate

/-- The calls of the receiver: a packet whose first byte has the place `start` after the first
sequence number, and a request for bytes. -/
inductive Access
  | Add (start : ℕ) (p : List UInt8)
  | Extract (maxSize : UInt32)

/-- A call, with the buffer before and after it. -/
structure Done where
  before : TcpRxBuffer
  call : Access
  after : TcpRxBuffer

def access (isn : SequenceNumber32) (b : TcpRxBuffer) :
    Access → Except Fault (TcpRxBuffer × List Done)
  | .Add start p => (b.Add p (seq isn start)).map fun r => (r.1, [⟨b, .Add start p, r.1⟩])
  | .Extract maxSize => (b.Extract maxSize).map fun r => (r.1, [⟨b, .Extract maxSize, r.1⟩])

/-- A packet that was stored out of order is in the first block. -/
def FirstReported (done : Done) : Prop :=
  match done.call with
  | .Add _ _ => done.after.m_nextRxSeq = done.before.m_nextRxSeq →
    ∀ i ∈ done.after.m_data, ¬ Holds done.before i.1 →
      ∃ first rest, done.after.m_sackList = first :: rest ∧
        Within (i.1, i.1 + GetSize i.2) first
  | .Extract _ => True

/-! ### Segments that there is room for -/

section Room

variable (isn : SequenceNumber32) (maxBuffer : UInt32) (b : TcpRxBuffer) (t : Received)
  (start length : ℕ)

/-- The packet is inside what is new of the segment: a byte before it is new, and the segment goes
on after it, as far as the window goes. -/
def Inside (i : Entry) : Prop :=
  (∃ m ∈ t.fresh maxBuffer start length, lt (seq isn m) i.1 = true) ∧
    ∃ e ∈ Finset.Ico start (start + length), seq isn e = i.1 + GetSize i.2 ∧
      ∀ m ∈ t.unread, e < m + maxBuffer.toNat

instance decidableInside (i : Entry) : Decidable (Inside isn maxBuffer t start length i) :=
  inferInstanceAs (Decidable (_ ∧ _))

/-- The bytes that are stored with the segment: the new ones, and those of the packets that are
inside. -/
def taken : Finset ℕ :=
  (Finset.Ico start (start + length)).filter fun n =>
    n ∈ t.fresh maxBuffer start length ∨ ∃ i ∈ b.m_data, Inside isn maxBuffer t start length i ∧
      le i.1 (seq isn n) = true ∧ lt (seq isn n) (i.1 + GetSize i.2) = true

/-- None of the bytes is in the block. -/
def Outside (block : SackBlock) : Prop :=
  ∀ n ∈ taken isn maxBuffer b t start length,
    ¬ (le block.1 (seq isn n) = true ∧ lt (seq isn n) block.2 = true)

/-- The block ends with the first of these bytes, or starts after the last one. -/
def Touches (block : SackBlock) : Prop :=
  ∃ n ∈ taken isn maxBuffer b t start length,
    ((∀ m ∈ taken isn maxBuffer b t start length, n ≤ m) ∧ seq isn n = block.2 ∨
      (∀ m ∈ taken isn maxBuffer b t start length, m ≤ n) ∧ seq isn (n + 1) = block.1)

/-- None of the bytes is reported, or they are in the last block only, which goes for want of room:
there are four, and the segment touches none. -/
def RoomFor : Prop :=
  (∀ block ∈ b.m_sackList, Outside isn maxBuffer b t start length block) ∨
    b.m_sackList.length = 4 ∧
      (∀ block ∈ b.m_sackList, ¬ Touches isn maxBuffer b t start length block) ∧
      ∀ block ∈ b.m_sackList.dropLast, Outside isn maxBuffer b t start length block

instance decidableOutside (block : SackBlock) :
    Decidable (Outside isn maxBuffer b t start length block) :=
  inferInstanceAs (Decidable (∀ _ ∈ _, _))

instance decidableTouches (block : SackBlock) :
    Decidable (Touches isn maxBuffer b t start length block) :=
  inferInstanceAs (Decidable (∃ _ ∈ _, _))

instance decidableRoomFor : Decidable (RoomFor isn maxBuffer b t start length) :=
  have := List.decidableBAll (Outside isn maxBuffer b t start length) b.m_sackList
  have := List.decidableBAll (fun block => ¬ Touches isn maxBuffer b t start length block)
    b.m_sackList
  have := List.decidableBAll (Outside isn maxBuffer b t start length) b.m_sackList.dropLast
  inferInstanceAs (Decidable (_ ∨ _ ∧ _ ∧ _))

end Room

variable {isn : SequenceNumber32} {maxBuffer : UInt32} {b b' : TcpRxBuffer} {t : Received}
  {stream : List UInt8} {start length n lo : ℕ} {parts : List Part} {x : Part}

/-- A covered position is held by the buffer. -/
theorem holds_of_covers (hdata : b.m_data = parts.map (entry isn))
    (hparts : ∀ x ∈ parts, Between lo x) (hlo : lo ≤ n) (hlt : n < lo + 2 ^ 31)
    (hn : Covers parts n) : Holds b (seq isn n) := by
  obtain ⟨x, hx, hle, hend⟩ := hn
  obtain ⟨hlox, hltx⟩ := hparts x hx
  refine ⟨entry isn x, hdata ▸ mem_map_of_mem hx, ?_, ?_⟩
  · rw [entry, le_seq (by omega) (by omega), decide_eq_true_iff]
    exact hle
  · change lt (seq isn n) (seq isn x.2 + GetSize x.1) = true
    rw [seq_add_getSize, lt_seq (by omega) (by omega), decide_eq_true_iff]
    exact hend

variable {s : SequenceNumber32} {p : List UInt8} {added : Bool} {data : List Entry}

/-- A sequence number between the ends of a block is of a byte of it. -/
theorem exists_of_between {first last : ℕ} (hfirst : first < last) (hlt : last < first + 2 ^ 31)
    (hle : le (seq isn first) s = true) (hend : lt s (seq isn last) = true) :
    ∃ n, s = seq isn n ∧ first ≤ n ∧ n < last := by
  have hs : s = seq isn (first + (s - seq isn first).toNat) := by
    rw [← seq_add, UInt32.ofNat_toNat, add_comm, sub_add_cancel]
  refine ⟨_, hs, Nat.le_add_right _ _, ?_⟩
  have hlt' := (s - seq isn first).toNat_lt
  generalize (s - seq isn first).toNat = d at hs hlt'
  subst hs
  by_cases hnear : first + d < last + 2 ^ 31
  · rw [lt_seq (by omega) (by omega), decide_eq_true_iff] at hend
    exact hend
  · -- seen from behind, it is before the block
    have hwrap : seq isn first = seq isn (first + 2 ^ 32) := by
      rw [← UInt32.toNat_inj, toNat_seq, toNat_seq]
      omega
    rw [le, hwrap, gt_seq (by omega) (by omega), decide_eq_true (by omega)] at hle
    exact absurd hle (by decide)

/-- Blocks of received bytes that are separate are right. -/
theorem Represents.reports (h : Represents stream isn maxBuffer b t) (hfin : t.fin = false)
    (hlength : b.m_sackList.length ≤ 4) (hseparate : b.m_sackList.Pairwise Separate) :
    Reports b := by
  obtain ⟨parts, hb⟩ := h.buffered
  have hbetween := hb.between le_rfl fun m hm => (h.bytes m hm).2
  have hnext : t.next stream = t.edge := if_neg fun hboth => by
    rw [hfin] at hboth
    exact Bool.false_ne_true hboth.1
  have hedge := edge_lt h fun m hm => (h.bytes m hm).2
  have hread := h.read
  refine ⟨hlength, fun block hblock => ?_, fun block hblock => ?_, fun block hblock s hle hlt => ?_,
    hseparate⟩
  all_goals
    obtain ⟨first, last, rfl, hlo, hfirst, hlast, hheld⟩ := h.sackList block hblock
    dsimp only at *
  · have hne : t.edge ≠ first := by
      rintro rfl
      exact t.edge_notMem (hheld _ le_rfl hfirst)
    rw [h.next, hnext, lt_seq (by omega) (by omega), decide_eq_true_iff]
    omega
  · rw [lt_seq (by omega) (by omega), decide_eq_true_iff]
    exact hfirst
  · obtain ⟨n, rfl, hn, hn'⟩ := exists_of_between hfirst (by omega) hle hlt
    have hmem := hheld n hn hn'
    have hbytes := (h.bytes n hmem).2
    exact holds_of_covers hb.data hbetween (by omega) (by omega)
      ((hb.covers n).mp (Received.mem_unread.mpr ⟨hmem, by omega⟩))

/-! ### Bytes that are stored -/

section Stored

variable {head tail : ℕ}

/-- The bytes of the segment that the buffer takes, for places. -/
structure Fitted (stream : List UInt8) (maxBuffer : UInt32) (t : Received)
    (start length head tail : ℕ) : Prop where
  le : start + length ≤ stream.length
  span : t.InSpan maxBuffer start length
  window : ∀ n, (head ≤ n ∧ n < tail) ↔ start ≤ n ∧ t.next stream ≤ n ∧ n < start + length ∧
    ∀ m ∈ t.unread, n < m + maxBuffer.toNat

/-- The positions a segment adds are those within its trimmed ends that had not come. -/
theorem Fitted.mem_fresh_iff (hfit : Fitted stream maxBuffer t start length head tail) :
    n ∈ t.fresh maxBuffer start length ↔ n ∉ t.bytes ∧ head ≤ n ∧ n < tail :=
  TcpRxBuffer.mem_fresh_iff hfit.le hfit.window

section

variable (hfit : Fitted stream maxBuffer t start length head tail)
  (h : Represents stream isn maxBuffer b t) (hb : Buffered stream isn t.unread b parts)

include hfit h hb

/-- Within the trimmed ends, uncovered and not received are the same. -/
theorem Fitted.not_covers_iff (hn : head ≤ n ∧ n < tail) : ¬ Covers parts n ↔ n ∉ t.bytes := by
  have hread := h.read
  have hedge := (t.le_next stream).1
  have hnext := ((hfit.window n).mp hn).2.1
  rw [← hb.covers n, Received.mem_unread, and_iff_left (by omega)]

/-- Being inside, on the buffer and on the parts. -/
theorem Fitted.inside_iff (hx : x ∈ parts) :
    Inside isn maxBuffer t start length (entry isn x) ↔ IsInside head tail parts x := by
  obtain ⟨hlo, hlt⟩ := hb.between (min_le_right start t.read) hfit.span.2.1 x hx
  have hsegment := hfit.span.1
  have hsize : (entry isn x).1 + GetSize (entry isn x).2 = seq isn (x.2 + x.1.length) :=
    seq_add_getSize isn x.2 x.1
  unfold Inside IsInside
  rw [hsize]
  constructor
  · rintro ⟨⟨m, hm, hmx⟩, e, he, heq, hwindow⟩
    obtain ⟨hnew, hhead, htail⟩ := hfit.mem_fresh_iff.mp hm
    obtain ⟨hstart, hnext, hend, -⟩ := (hfit.window m).mp ⟨hhead, htail⟩
    obtain ⟨hestart, heend⟩ := Finset.mem_Ico.mp he
    rw [entry, lt_seq (by omega) (by omega), decide_eq_true_iff] at hmx
    obtain rfl : e = x.2 + x.1.length := (seq_inj (by omega) (by omega)).mp heq
    exact ⟨⟨m, hhead, hmx, (hfit.not_covers_iff h hb ⟨hhead, htail⟩).mpr hnew⟩,
      ((hfit.window _).mpr ⟨hestart, by omega, heend, hwindow⟩).2⟩
  · rintro ⟨⟨m, hhead, hmx, hnot⟩, hend⟩
    have hmtail : m < tail := by omega
    obtain ⟨hstart, -, hmend, -⟩ := (hfit.window m).mp ⟨hhead, hmtail⟩
    obtain ⟨hestart, -, heend, hwindow⟩ :=
      (hfit.window (x.2 + x.1.length)).mp ⟨by omega, hend⟩
    refine ⟨⟨m, hfit.mem_fresh_iff.mpr ⟨(hfit.not_covers_iff h hb ⟨hhead, hmtail⟩).mp hnot,
      hhead, hmtail⟩, ?_⟩, _, Finset.mem_Ico.mpr ⟨hestart, heend⟩, rfl, hwindow⟩
    rw [entry, lt_seq (by omega) (by omega), decide_eq_true_iff]
    exact hmx

/-- What is stored, for places. -/
theorem Fitted.taken_iff (hlt : (trimAt head tail parts).2.1 < (trimAt head tail parts).2.2) :
    n ∈ taken isn maxBuffer b t start length ↔
      (trimAt head tail parts).2.1 ≤ n ∧ n < (trimAt head tail parts).2.2 := by
  rw [mem_trimAt_segment_iff hb.apart hlt, taken, Finset.mem_filter]
  have hsegment := hfit.span.1
  have hbetween := hb.between (min_le_right start t.read) hfit.span.2.1
  constructor
  · rintro ⟨hn, hfresh | ⟨i, hi, hinside, hle, hend⟩⟩
    · obtain ⟨hnew, hhead, htail⟩ := hfit.mem_fresh_iff.mp hfresh
      exact Or.inl ⟨(hfit.not_covers_iff h hb ⟨hhead, htail⟩).mpr hnew, hhead, htail⟩
    · rw [hb.data] at hi
      obtain ⟨x, hx, rfl⟩ := mem_map.mp hi
      obtain ⟨hlo, hxlt⟩ := hbetween x hx
      obtain ⟨hstart, hn⟩ := Finset.mem_Ico.mp hn
      change lt (seq isn n) (seq isn x.2 + GetSize x.1) = true at hend
      rw [seq_add_getSize, lt_seq (by omega) (by omega), decide_eq_true_iff] at hend
      rw [entry, le_seq (by omega) (by omega), decide_eq_true_iff] at hle
      exact Or.inr ⟨x, hx, (hfit.inside_iff h hb hx).mp hinside, hle, hend⟩
  · rintro (⟨hnot, hn⟩ | ⟨x, hx, hinside, hle, hend⟩)
    · obtain ⟨hstart, -, hnend, -⟩ := (hfit.window n).mp hn
      exact ⟨Finset.mem_Ico.mpr ⟨hstart, hnend⟩, Or.inl (hfit.mem_fresh_iff.mpr
        ⟨(hfit.not_covers_iff h hb hn).mp hnot, hn⟩)⟩
    · obtain ⟨hlo, hxlt⟩ := hbetween x hx
      have hentry := (hfit.inside_iff h hb hx).mpr hinside
      obtain ⟨⟨m, hhead, hmx, -⟩, hxend⟩ := hinside
      obtain ⟨hstart, -, hnend, -⟩ := (hfit.window n).mp ⟨by omega, by omega⟩
      refine ⟨Finset.mem_Ico.mpr ⟨hstart, hnend⟩, Or.inr ⟨entry isn x,
        hb.data ▸ mem_map_of_mem hx, hentry, ?_, ?_⟩⟩
      · rw [entry, le_seq (by omega) (by omega), decide_eq_true_iff]
        exact hle
      · change lt (seq isn n) (seq isn x.2 + GetSize x.1) = true
        rw [seq_add_getSize, lt_seq (by omega) (by omega), decide_eq_true_iff]
        exact hend

end

end Stored

/-! ### `Add` -/

/-- What a call of `Add` did. -/
theorem Add_eq_ok {head tail : SequenceNumber32} {size : UInt32} (hok : b.Add p s = .ok (b', added))
    (htrim : trim (b.fitWindow s (s + GetSize p)).1 (b.fitWindow s (s + GetSize p)).2 b.m_size
      b.m_data = (data, head, tail, size)) :
    (ge head tail = true ∧ b'.m_data = data ∧ b'.m_nextRxSeq = b.m_nextRxSeq ∧
      b'.m_sackList = b.m_sackList) ∨
    ge head tail = false ∧ ∃ piece sackList next avail,
      GetSize piece = tail - head ∧
      (if gt head b.m_nextRxSeq then UpdateSackList b.m_nextRxSeq b.m_sackList head tail
        else .ok b.m_sackList) = .ok sackList ∧
      advance b.m_nextRxSeq b.m_availBytes sackList (assign head piece data) =
        .ok (next, avail, b'.m_sackList) ∧
      b'.m_data = assign head piece data ∧
      b'.m_nextRxSeq =
        if b.m_gotFin && next == b.m_finSeq then next + 1 else next := by
  unfold Add at hok
  dsimp only at hok
  rw [htrim] at hok
  dsimp only at hok
  cases hge : ge head tail with
  | true =>
    rw [hge, if_pos rfl] at hok
    cases hok
    exact Or.inl ⟨rfl, rfl, rfl, rfl⟩
  | false =>
    rw [hge, if_neg Bool.false_ne_true] at hok
    generalize (p.drop (head - s).toNat).take (tail - head).toNat = piece at hok
    refine Or.inr ⟨rfl, piece, ?_⟩
    split at hok
    · cases hok
    rename_i hsize
    split at hok
    · cases hok
    obtain ⟨sackList, hupdate, hok⟩ := bind_eq_ok_iff.mp
      (show ((if gt head b.m_nextRxSeq then
          UpdateSackList b.m_nextRxSeq b.m_sackList head tail else .ok b.m_sackList) >>= _) = _
        by by_cases hgt : gt head b.m_nextRxSeq = true <;> simp only [hgt] at hok ⊢ <;> exact hok)
    obtain ⟨⟨next, avail, sackList'⟩, hadvance, hok⟩ := bind_eq_ok_iff.mp hok
    cases hok
    exact ⟨sackList, next, avail, not_not.mp hsize, hupdate, hadvance, rfl, rfl⟩

/-- There is room for the bytes that are stored. -/
theorem hasRoom_of_roomFor {head tail : ℕ} (hlt : head < tail)
    (htaken : ∀ n, n ∈ taken isn maxBuffer b t start length ↔ head ≤ n ∧ n < tail)
    (hspan : lo ≤ head ∧ tail < lo + 2 ^ 31) {P : ℕ → Prop}
    (hblocks : ∀ block ∈ b.m_sackList, IsBlock isn lo P block)
    (hroom : RoomFor isn maxBuffer b t start length) :
    HasRoom (seq isn head, seq isn tail) b.m_sackList := by
  have hdisjoint (block : SackBlock) (hblock : IsBlock isn lo P block)
      (houtside : Outside isn maxBuffer b t start length block) :
      Disjoint (seq isn head, seq isn tail) block := by
    obtain ⟨first, last, rfl, hlo, hfirst, hlast, -⟩ := hblock
    unfold Disjoint
    rw [le_seq (by omega) (by omega), le_seq (by omega) (by omega), decide_eq_true_iff,
      decide_eq_true_iff]
    by_contra hboth
    -- a byte that both have
    refine houtside (max head first) ((htaken _).mpr (by omega)) ⟨?_, ?_⟩
    · rw [le_seq (by omega) (by omega), decide_eq_true_iff]
      exact le_max_right _ _
    · rw [lt_seq (by omega) (by omega), decide_eq_true_iff]
      omega
  obtain hall | ⟨hfour, htouches, hothers⟩ := hroom
  · exact Or.inl fun block hblock => hdisjoint block (hblocks block hblock) (hall block hblock)
  · refine Or.inr ⟨hfour, fun block hblock hmeet => htouches block hblock ?_, fun block hblock =>
      hdisjoint block (hblocks block (mem_of_mem_dropLast hblock)) (hothers block hblock)⟩
    obtain hmeet | hmeet := hmeet
    · exact ⟨head, (htaken head).mpr ⟨le_rfl, hlt⟩,
        Or.inl ⟨fun m hm => ((htaken m).mp hm).1, hmeet⟩⟩
    · refine ⟨tail - 1, (htaken _).mpr (by omega), Or.inr ⟨fun m hm => ?_, ?_⟩⟩
      · have hlast := ((htaken m).mp hm).2
        omega
      · rw [Nat.sub_add_cancel (by omega)]
        exact hmeet

/-- An entry after storing is the new one or starts where an old one did. -/
theorem mem_assign {i : Entry} (hi : i ∈ assign s p data) : i = (s, p) ∨ ∃ x ∈ data, i.1 = x.1 := by
  induction data with
  | nil => exact Or.inl (mem_singleton.mp hi)
  | cons x rest ih =>
    rw [assign] at hi
    split at hi
    · obtain rfl | hi := mem_cons.mp hi
      · exact Or.inl rfl
      · exact Or.inr ⟨i, hi, rfl⟩
    · split at hi
      · obtain rfl | hi := mem_cons.mp hi
        · exact Or.inr ⟨i, mem_cons_self, rfl⟩
        · refine (ih hi).imp_right fun hrest => ?_
          obtain ⟨y, hy, heq⟩ := hrest
          exact ⟨y, mem_cons_of_mem x hy, heq⟩
      · obtain rfl | hi := mem_cons.mp hi
        · exact Or.inr ⟨x, mem_cons_self, rfl⟩
        · exact Or.inr ⟨i, mem_cons_of_mem x hi, rfl⟩

/-- `Add` of a segment for which there is room, if it is out of order. -/
theorem Add_reports (h : Represents stream isn maxBuffer b t) (hfin : t.fin = false)
    (hle : start + length ≤ stream.length) (hspan : t.InSpan maxBuffer start length)
    (hlength : b.m_sackList.length ≤ 4) (hseparate : b.m_sackList.Pairwise Separate)
    (hroom : t.edge ∉ t.fresh maxBuffer start length → RoomFor isn maxBuffer b t start length)
    (hok : b.Add ((stream.drop start).take length) (seq isn start) = .ok (b', added))
    (h' : Represents stream isn maxBuffer b'
      { t with bytes := t.bytes ∪ t.fresh maxBuffer start length }) :
    b'.m_sackList.length ≤ 4 ∧ b'.m_sackList.Pairwise Separate ∧
      (b'.m_nextRxSeq = b.m_nextRxSeq → ∀ i ∈ b'.m_data, ¬ Holds b i.1 →
        ∃ first rest, b'.m_sackList = first :: rest ∧ Within (i.1, i.1 + GetSize i.2) first) := by
  obtain ⟨parts, hb⟩ := h.buffered
  obtain ⟨head, tail, ⟨hlohead, hlotail, hhead, htail⟩, hwindow, hfitted, htrim⟩ :=
    Add_trim h hle hspan hb
  have hfit : Fitted stream maxBuffer t start length head tail := ⟨hle, hspan, hwindow⟩
  have hbytes := hspan.2.1
  have hsegment := hspan.1
  have hread := h.read
  have hbetween := hb.between (min_le_right start t.read) hbytes
  have hedge := edge_lt h hbytes
  have hnext : t.next stream = t.edge := if_neg fun hboth => by
    rw [hfin] at hboth
    exact Bool.false_ne_true hboth.1
  have hnextSeq : b.m_nextRxSeq = seq isn t.edge := by rw [h.next, hnext]
  -- the packets that remain were there before
  have hold (x : Part) (hx : x ∈ (trimAt head tail parts).1) : Holds b (entry isn x).1 := by
    have hmem := (trimAt_sublist head tail parts).subset hx
    obtain ⟨hlo, hxlt⟩ := hbetween x hmem
    have hpos := hb.apart.pos x hmem
    exact holds_of_covers hb.data hbetween hlo (by omega) ⟨x, hmem, le_rfl, by omega⟩
  have htrim' : trim
      (b.fitWindow (seq isn start) (seq isn start + GetSize ((stream.drop start).take length))).1
      (b.fitWindow (seq isn start) (seq isn start + GetSize ((stream.drop start).take length))).2
      b.m_size b.m_data = ((trimAt head tail parts).1.map (entry isn),
        seq isn (trimAt head tail parts).2.1, seq isn (trimAt head tail parts).2.2,
        UInt32.ofNat (totalLength (trimAt head tail parts).1)) := by
    rw [hfitted]
    exact htrim
  obtain ⟨-, hdata, -, hsack⟩ | ⟨hge, piece, sackList, next, avail, hpiece, hupdate, hadvance,
    hdata, -⟩ := Add_eq_ok hok htrim'
  · rw [hsack]
    refine ⟨hlength, hseparate, fun _ i hi hnot => ?_⟩
    rw [hdata] at hi
    obtain ⟨x, hx, rfl⟩ := mem_map.mp hi
    exact absurd (hold x hx) hnot
  · have hmono := le_trimAt head tail parts
    have hin := trimAt_between hbetween hhead hlotail
    have hlt : (trimAt head tail parts).2.1 < (trimAt head tail parts).2.2 := by
      rw [ge_seq (by omega) (by omega), decide_eq_false_iff_not] at hge
      exact not_le.mp hge
    have htaken (n : ℕ) := hfit.taken_iff (n := n) h hb hlt
    have hedgele : t.edge ≤ (trimAt head tail parts).2.1 := by
      have hfirst := ((hwindow _).mp ⟨hmono.1, lt_of_lt_of_le hlt hmono.2⟩).2.1
      omega
    have hstored (m : ℕ) (hm : (trimAt head tail parts).2.1 ≤ m ∧
        m < (trimAt head tail parts).2.2) : m ∈ t.bytes ∪ t.fresh maxBuffer start length := by
      obtain ⟨hnot, hhm⟩ | ⟨x, hx, -, hxm⟩ := (mem_trimAt_segment_iff hb.apart hlt).mp hm
      · exact Finset.mem_union_right _ (hfit.mem_fresh_iff.mpr
          ⟨(hfit.not_covers_iff h hb hhm).mp hnot, hhm⟩)
      · exact Finset.mem_union_left _
          (Received.mem_unread.mp ((hb.covers m).mpr ⟨x, hx, hxm⟩)).1
    have hgt : gt (seq isn (trimAt head tail parts).2.1) b.m_nextRxSeq =
        decide (t.edge < (trimAt head tail parts).2.1) := by
      rw [hnextSeq, gt_seq (by omega) (by omega)]
    obtain hinorder | houtorder := Nat.eq_or_lt_of_le hedgele
    · -- the next byte expected is after the segment
      rw [hgt, decide_eq_false (by omega), if_neg Bool.false_ne_true] at hupdate
      obtain rfl := Except.ok.inj hupdate
      have hsub := advance_sublist hadvance
      refine ⟨hsub.length_le.trans hlength, hseparate.sublist hsub, fun hsame => ?_⟩
      have hnext' : Received.next stream
          { t with bytes := t.bytes ∪ t.fresh maxBuffer start length } = Received.edge
            { t with bytes := t.bytes ∪ t.fresh maxBuffer start length } := if_neg fun hboth => by
        rw [hfin] at hboth
        exact Bool.false_ne_true hboth.1
      have hread' := h'.read
      have hedge' := edge_lt h' fun m hm => (h'.bytes m hm).2
      have hedge₀ := edge_lt h fun m hm => (h.bytes m hm).2
      dsimp only at hread' hedge'
      rw [h'.next, hnext', hnextSeq, seq_inj (by omega) (by omega)] at hsame
      -- the byte at the edge is there now
      have hmem := hstored t.edge ⟨hinorder.ge, by omega⟩
      exact absurd (hsame ▸ hmem) (Received.edge_notMem _)
    · rw [hgt, decide_eq_true houtorder, if_pos rfl] at hupdate
      have hnotfresh : t.edge ∉ t.fresh maxBuffer start length := fun hfresh => by
        have hfirst := (htaken t.edge).mp
          (Finset.mem_filter.mpr ⟨(Finset.mem_filter.mp hfresh).1, Or.inl hfresh⟩)
        omega
      have hblocks : ∀ block ∈ b.m_sackList,
          IsBlock isn t.edge (· ∈ t.bytes ∪ t.fresh maxBuffer start length) block :=
        fun block hblock => (h.sackList block hblock).imp fun m => Finset.mem_union_left _
      have hspan' : t.edge ≤ (trimAt head tail parts).2.1 ∧
          (trimAt head tail parts).2.2 < t.edge + 2 ^ 31 := by omega
      have hnew : IsBlock isn t.edge (· ∈ t.bytes ∪ t.fresh maxBuffer start length)
          (seq isn (trimAt head tail parts).2.1, seq isn (trimAt head tail parts).2.2) :=
        ⟨_, _, rfl, hspan'.1, hlt, hspan'.2, fun m hm hm' => hstored m ⟨hm, hm'⟩⟩
      obtain ⟨merged, others, hmerged, hwithin, hpairwise, hle'⟩ := UpdateSackList_separate
        (by rw [hgt, decide_eq_true houtorder]) hnew hblocks hseparate hlength
        (hasRoom_of_roomFor hlt htaken hspan' hblocks (hroom hnotfresh))
      obtain rfl := Except.ok.inj (hmerged.symm.trans hupdate)
      -- the next byte expected is not there
      have hnotmem : t.edge ∉ t.bytes ∪ t.fresh maxBuffer start length := fun hmem =>
        (Finset.mem_union.mp hmem).elim t.edge_notMem hnotfresh
      obtain ⟨parts', hb'⟩ := h'.buffered
      have hbetween' : ∀ x ∈ parts', Between t.read x :=
        hb'.between le_rfl fun m hm => (h'.bytes m hm).2
      have hedge₀ := edge_lt h fun m hm => (h.bytes m hm).2
      have hsame : advance (seq isn t.edge) b.m_availBytes (merged :: others)
          (parts'.map (entry isn)) = .ok (seq isn t.edge, b.m_availBytes, merged :: others) :=
        advance_same b.m_availBytes hbetween' hread (by omega) fun x hx heq => by
          have hpos := hb'.apart.pos x hx
          have hmem := Received.mem_unread.mp (hb'.mem_unread hx le_rfl (by omega))
          exact hnotmem (heq ▸ hmem.1)
      rw [← hb'.data, hdata, ← hnextSeq, hadvance] at hsame
      have hsack : b'.m_sackList = merged :: others :=
        congrArg (fun r => r.2.2) (Except.ok.inj hsame)
      rw [hsack]
      refine ⟨hle', hpairwise, fun _ i hi hnot => ⟨merged, others, rfl, ?_⟩⟩
      rw [hdata] at hi
      obtain rfl | ⟨y, hy, heq⟩ := mem_assign hi
      · rw [hpiece, add_comm, sub_add_cancel]
        exact hwithin
      · obtain ⟨x, hx, rfl⟩ := mem_map.mp hy
        rw [heq] at hnot
        exact absurd (hold x hx) hnot

/-! ### Packets without their contents -/

@[simp]
theorem blank_m_data (b : TcpRxBuffer) : b.blank.m_data = b.m_data.map blankEntry := rfl

/-- Blanking keeps the sizes. -/
theorem getSize_blankEntry (i : Entry) : GetSize (blankEntry i).2 = GetSize i.2 :=
  getSize_map _ i.2

/-- A blanked buffer holds the same numbers. -/
theorem holds_blank (b : TcpRxBuffer) (s : SequenceNumber32) : Holds b.blank s ↔ Holds b s := by
  simp only [Holds, blank_m_data, mem_map, exists_exists_and_eq_and, getSize_blankEntry]
  rfl

/-- A blanked buffer reports the same. -/
theorem reports_blank (b : TcpRxBuffer) : Reports b.blank ↔ Reports b := by
  constructor
  · intro h
    exact ⟨h.length, h.above, h.pos,
      fun block hblock s hle hlt => (holds_blank b s).mp (h.held block hblock s hle hlt),
        h.separate⟩
  · intro h
    exact ⟨h.length, h.above, h.pos,
      fun block hblock s hle hlt => (holds_blank b s).mpr (h.held block hblock s hle hlt),
      h.separate⟩

/-- Being inside does not depend on the octets. -/
theorem inside_blank (isn : SequenceNumber32) (maxBuffer : UInt32) (t : Received)
    (start length : ℕ) (i : Entry) : Inside isn maxBuffer t start length (blankEntry i) ↔
      Inside isn maxBuffer t start length i := by
  unfold Inside
  rw [getSize_blankEntry]
  rfl

/-- What a segment adds does not depend on the octets. -/
theorem taken_blank (isn : SequenceNumber32) (maxBuffer : UInt32) (b : TcpRxBuffer) (t : Received)
    (start length : ℕ) : taken isn maxBuffer b.blank t start length =
      taken isn maxBuffer b t start length := by
  unfold taken
  simp only [blank_m_data, mem_map, exists_exists_and_eq_and, getSize_blankEntry,
    inside_blank]
  rfl

/-- The room for a segment does not depend on the octets. -/
theorem roomFor_blank (isn : SequenceNumber32) (maxBuffer : UInt32) (b : TcpRxBuffer)
    (t : Received) (start length : ℕ) : RoomFor isn maxBuffer b.blank t start length ↔
      RoomFor isn maxBuffer b t start length := by
  unfold RoomFor Outside Touches
  rw [taken_blank]
  rfl

/-- A blank segment is a piece of a blank stream. -/
theorem blankBytes_eq_take_drop {N : ℕ} (hle : start + p.length ≤ N) :
    ((List.replicate N (0 : UInt8)).drop start).take p.length = blankBytes p := by
  rw [drop_replicate, take_replicate, min_eq_left (by omega), blankBytes,
    map_const']

/-! ### Runs -/

/-- The stream may be lengthened while its end is not known. -/
theorem Represents.append (h : Represents stream isn maxBuffer b t) (hfin : t.fin = false)
    (more : List UInt8) : Represents (stream ++ more) isn maxBuffer b t := by
  obtain ⟨parts, hb⟩ := h.buffered
  have hnext (stream : List UInt8) : t.next stream = t.edge := if_neg fun hboth => by
    rw [hfin] at hboth
    exact Bool.false_ne_true hboth.1
  refine ⟨⟨parts, hb.data, hb.apart, fun x hx => ?_, hb.covers, hb.size⟩, ?_, h.avail, h.read,
    fun m hm => ?_, h.gotFin, fun hgot => ?_, h.sackList, h.maxBuffer⟩
  · obtain ⟨hle, hget⟩ := hb.slice x hx
    refine ⟨?_, fun i hi => ?_⟩
    · rw [length_append]
      omega
    · rw [hget i hi, List.getElem?_append_left (by omega)]
  · rw [h.next, hnext, hnext]
  · have hbytes := h.bytes m hm
    rw [length_append]
    omega
  · rw [hfin] at hgot
    exact absurd hgot Bool.false_ne_true

/-- A byte of a segment that has the number of the next byte expected is that byte. -/
theorem Represents.eq_edge (h : Represents stream isn maxBuffer b t) (hfin : t.fin = false)
    (hspan : t.InSpan maxBuffer start length) (hn : n ∈ t.fresh maxBuffer start length)
    (heq : seq isn n = b.m_nextRxSeq) : n = t.edge := by
  have hnext : t.next stream = t.edge := if_neg fun hboth => by
    rw [hfin] at hboth
    exact Bool.false_ne_true hboth.1
  have hedge := edge_lt h hspan.2.1
  have hread := h.read
  have hsegment := hspan.1
  have hin := Finset.mem_Ico.mp (Finset.mem_filter.mp hn).1
  rw [h.next, hnext] at heq
  exact (seq_inj (by omega) (by omega)).mp heq

/-- What was received in the history, and how much was taken. -/
def receivedIn (maxBuffer : UInt32) (h : List Done) : Received :=
  h.foldl (fun t done =>
    match done.call with
    | .Add start p => { t with bytes := t.bytes ∪ t.fresh maxBuffer start p.length }
    | .Extract maxSize => { t with read := min t.edge (t.read + maxSize.toNat) }) ⟨∅, 0, false⟩

/-- The call is a segment whose sequence numbers are near those in play, and there is room for it
if it does not have the next byte expected; or the call is no segment. -/
def Fits (isn : SequenceNumber32) (maxBuffer : UInt32) (b : TcpRxBuffer) (h : List Done) :
    Access → Prop
  | .Add start p =>
    (receivedIn maxBuffer h).InSpan maxBuffer start p.length ∧
      ((∃ n ∈ (receivedIn maxBuffer h).fresh maxBuffer start p.length,
          seq isn n = b.m_nextRxSeq) ∨
        RoomFor isn maxBuffer b (receivedIn maxBuffer h) start p.length)
  | .Extract _ => True

instance decidableFits (isn : SequenceNumber32) (maxBuffer : UInt32) (b : TcpRxBuffer)
    (h : List Done) : (call : Access) → Decidable (Fits isn maxBuffer b h call)
  | .Add _ _ => inferInstanceAs (Decidable (_ ∧ (_ ∨ _)))
  | .Extract _ => inferInstanceAs (Decidable True)

/-- The buffer has what was received, and reports it right. -/
structure Kept (isn : SequenceNumber32) (maxBuffer : UInt32) (b : TcpRxBuffer) (h : List Done) :
    Prop where
  represents : ∃ N, Represents (List.replicate N 0) isn maxBuffer b.blank (receivedIn maxBuffer h)
  fin : (receivedIn maxBuffer h).fin = false
  length : b.m_sackList.length ≤ 4
  separate : b.m_sackList.Pairwise Separate
  first : ∀ done ∈ h, FirstReported done

variable {h : List Done}

/-- A kept buffer reports what it holds. -/
theorem Kept.reports (hkept : Kept isn maxBuffer b h) : Reports b := by
  obtain ⟨N, hrepresents⟩ := hkept.represents
  exact (reports_blank b).mp (hrepresents.reports hkept.fin hkept.length hkept.separate)

/-- A successful `Add` is one access of the history. -/
theorem access_Add (hok : b.Add p (seq isn start) = .ok (b', added)) :
    access isn b (.Add start p) = .ok (b', [⟨b, .Add start p, b'⟩]) := by
  rw [access, hok]
  rfl

/-- `Add` within the condition succeeds and keeps the report right. -/
theorem Kept.Add (hkept : Kept isn maxBuffer b h) (hfits : Fits isn maxBuffer b h (.Add start p)) :
    ∃ b' done, access isn b (.Add start p) = .ok (b', done) ∧
        Kept isn maxBuffer b' (h ++ done) := by
  obtain ⟨N, hrepresents⟩ := hkept.represents
  obtain ⟨hspan, hroom⟩ := hfits
  -- the stream as far as the segment goes
  have hlong : Represents (List.replicate (N + (start + p.length)) 0) isn maxBuffer b.blank
      (receivedIn maxBuffer h) := by
    rw [replicate_add]
    exact hrepresents.append hkept.fin _
  have hle : start + p.length ≤
      (List.replicate (N + (start + p.length)) (0 : UInt8)).length := by
    rw [length_replicate]
    omega
  have hbytes := blankBytes_eq_take_drop (p := p) (Nat.le_add_left (start + p.length) N)
  obtain ⟨b₁, hstep, hrepresents'⟩ := Add_refines hlong hle hspan
  dsimp only [step] at hstep
  rw [hbytes] at hstep
  obtain ⟨⟨b₂, added⟩, hblank, hstep⟩ := bind_eq_ok_iff.mp hstep
  obtain rfl : b₂ = b₁ := congrArg Prod.fst (Except.ok.inj hstep)
  have hroom' (hnot : (receivedIn maxBuffer h).edge ∉
      (receivedIn maxBuffer h).fresh maxBuffer start p.length) :
      RoomFor isn maxBuffer b (receivedIn maxBuffer h) start p.length :=
    hroom.resolve_left fun ⟨n, hn, heq⟩ => hnot (hlong.eq_edge hkept.fin hspan hn heq ▸ hn)
  obtain ⟨hlength, hseparate, hfirst⟩ := Add_reports hlong hkept.fin hle hspan hkept.length
    hkept.separate (fun hnot => (roomFor_blank isn maxBuffer b _ start p.length).mpr (hroom' hnot))
    (by rw [hbytes]; exact hblank) hrepresents'
  rw [Add_blank] at hblank
  obtain ⟨⟨b', added'⟩, hok, heq⟩ := map_eq_ok_iff.mp hblank
  obtain rfl : b'.blank = b₂ := congrArg Prod.fst heq
  have hreceived : receivedIn maxBuffer (h ++ [⟨b, .Add start p, b'⟩]) =
      (received (List.replicate (N + (start + p.length)) 0) isn maxBuffer).next
        (receivedIn maxBuffer h) (.add start p.length) := by
    rw [receivedIn, foldl_append]
    rfl
  refine ⟨b', [⟨b, .Add start p, b'⟩], ?_, ⟨N + (start + p.length), ?_⟩, ?_, hlength, hseparate,
    ?_⟩
  · exact access_Add hok
  · rw [hreceived]
    exact hrepresents'
  · rw [hreceived]
    exact hkept.fin
  · refine forall_mem_append.mpr ⟨hkept.first, forall_mem_singleton.mpr ?_⟩
    intro hsame i hi hnot
    have hfirst' := hfirst hsame (blankEntry i) (mem_map_of_mem hi)
      fun hholds => hnot ((holds_blank b i.1).mp hholds)
    rw [getSize_blankEntry] at hfirst'
    exact hfirst'

/-- `Extract` leaves the list of blocks alone. -/
theorem Extract_sackList {maxSize : UInt32} {p : Option (List UInt8)}
    (hok : b.Extract maxSize = .ok (b', p)) : b'.m_sackList = b.m_sackList := by
  unfold Extract at hok
  dsimp only at hok
  generalize (if b.m_availBytes < maxSize then b.m_availBytes else maxSize) = extractSize at hok
  by_cases hzero : extractSize = 0
  · rw [if_pos hzero] at hok
    cases hok
    rfl
  rw [if_neg hzero] at hok
  by_cases hempty : b.m_data.length = 0
  · rw [if_pos hempty] at hok
    cases hok
  · rw [if_neg hempty] at hok
    obtain ⟨r, -, hok⟩ := bind_eq_ok_iff.mp hok
    cases hok
    rfl

/-- `Extract` keeps the report right. -/
theorem Kept.Extract (hkept : Kept isn maxBuffer b h) (maxSize : UInt32) :
    ∃ b' done, access isn b (.Extract maxSize) = .ok (b', done) ∧
      Kept isn maxBuffer b' (h ++ done) := by
  obtain ⟨N, hrepresents⟩ := hkept.represents
  obtain ⟨b₁, hstep, hrepresents'⟩ := Extract_refines hrepresents maxSize
  obtain ⟨⟨b₂, q⟩, hblank, hstep⟩ := bind_eq_ok_iff.mp hstep
  obtain rfl : b₂ = b₁ := congrArg Prod.fst (Except.ok.inj hstep)
  rw [Extract_blank] at hblank
  obtain ⟨⟨b', q'⟩, hok, heq⟩ := map_eq_ok_iff.mp hblank
  obtain rfl : b'.blank = b₂ := congrArg Prod.fst heq
  have hsack := Extract_sackList hok
  have hreceived : receivedIn maxBuffer (h ++ [⟨b, .Extract maxSize, b'⟩]) =
      (received (List.replicate N 0) isn maxBuffer).next (receivedIn maxBuffer h)
        (.extract maxSize) := by
    rw [receivedIn, foldl_append]
    rfl
  refine ⟨b', [⟨b, .Extract maxSize, b'⟩], ?_, ⟨N, ?_⟩, ?_, ?_, ?_, ?_⟩
  · rw [access, hok]
    rfl
  · rw [hreceived]
    exact hrepresents'
  · rw [hreceived]
    exact hkept.fin
  · rw [hsack]
    exact hkept.length
  · rw [hsack]
    exact hkept.separate
  · exact forall_mem_append.mpr ⟨hkept.first, forall_mem_singleton.mpr trivial⟩

/-- In every run whose segments there is room for, the blocks are right after each call, and what
was stored out of order is in the first one. -/
theorem throughout_reports (isn : SequenceNumber32) (maxBuffer : UInt32) (calls : List Access)
    (hfits : TracedRun.Meets (access isn) (Fits isn maxBuffer) (new isn maxBuffer) [] calls) :
    TracedRun.Throughout (access isn) (fun b h => Reports b ∧ ∀ done ∈ h, FirstReported done)
      (new isn maxBuffer) [] calls := by
  refine throughout_of_meets (J := Kept isn maxBuffer) (fun b h call hkept hfits => ?_)
    (fun b h hkept => ⟨hkept.reports, hkept.first⟩) ?_ hfits
  · cases call with
    | Add start p => exact hkept.Add hfits
    | Extract maxSize => exact hkept.Extract maxSize
  · exact ⟨⟨0, represents_new [] isn maxBuffer⟩, rfl, Nat.zero_le _, List.Pairwise.nil, nofun⟩

/-- Segments that leave a hole and fill it, with sequence numbers that wrap. -/
theorem throughout_reports_hole :
    TracedRun.Throughout (access 0xfffffffe)
      (fun b h => Reports b ∧ ∀ done ∈ h, FirstReported done) (new 0xfffffffe 100) []
      [.Add 2 [2, 3], .Add 4 [4, 5], .Add 0 [0, 1], .Extract 20] := by
  have h₁ : (new 0xfffffffe 100 : TcpRxBuffer).Add [2, 3] (seq 0xfffffffe 2) =
      .ok (⟨0xfffffffe, 0, false, 2, 100, 0, [(0, [2, 3])], [(0, 2)]⟩, true) := by
    simp [Add, new, fitWindow, trim, contains, assign, advance, UpdateSackList, mergeBlocks, seq,
      GetSize, ge, gt, lt, bind, Except.bind, halfMaxValue]
  have h₂ : (⟨0xfffffffe, 0, false, 2, 100, 0, [(0, [2, 3])], [(0, 2)]⟩ : TcpRxBuffer).Add
      [4, 5] (seq 0xfffffffe 4) =
      .ok (⟨0xfffffffe, 0, false, 4, 100, 0, [(0, [2, 3]), (2, [4, 5])], [(0, 4)]⟩, true) := by
    simp [Add, fitWindow, trim, contains, assign, advance, UpdateSackList, mergeBlocks, seq,
      GetSize, ge, gt, le, lt, bind, Except.bind, halfMaxValue]
  have h₃ : (⟨0xfffffffe, 0, false, 4, 100, 0, [(0, [2, 3]), (2, [4, 5])], [(0, 4)]⟩ :
      TcpRxBuffer).Add [0, 1] (seq 0xfffffffe 0) =
      .ok (⟨4, 0, false, 6, 100, 6, [(0xfffffffe, [0, 1]), (0, [2, 3]), (2, [4, 5])], []⟩,
        true) := rfl
  refine throughout_reports 0xfffffffe 100 _ ?_
  refine meets_cons (by decide +kernel) (access_Add h₁) ?_
  refine meets_cons (by decide +kernel) (access_Add h₂) ?_
  refine meets_cons (by decide +kernel) (access_Add h₃) ?_
  exact ⟨trivial, fun _ _ _ => trivial⟩

/-- A packet that was reported is inside a later segment. -/
theorem not_reports_inside :
    ¬ TracedRun.Throughout (access 0) (fun b h => Reports b ∧ ∀ done ∈ h, FirstReported done)
      (new 0 100) [] [.Add 10 [10, 11], .Add 9 [9, 10, 11, 12]] := by
  have h₁ : (new 0 100 : TcpRxBuffer).Add [10, 11] (seq 0 10) =
      .ok (⟨0, 0, false, 2, 100, 0, [(10, [10, 11])], [(10, 12)]⟩, true) := by
    simp [Add, new, fitWindow, trim, contains, assign, advance, UpdateSackList, mergeBlocks, seq,
      GetSize, ge, gt, lt, bind, Except.bind, halfMaxValue]
  have h₂ : (⟨0, 0, false, 2, 100, 0, [(10, [10, 11])], [(10, 12)]⟩ : TcpRxBuffer).Add
      [9, 10, 11, 12] (seq 0 9) =
      .ok (⟨0, 0, false, 4, 100, 0, [(9, [9, 10, 11, 12])], [(9, 13), (10, 12)]⟩, true) := by
    simp [Add, fitWindow, trim, contains, assign, advance, UpdateSackList, mergeBlocks, seq,
      GetSize, ge, gt, le, lt, bind, Except.bind, halfMaxValue]
  rintro ⟨b₁, done₁, hok₁, -, b₂, done₂, hok₂, ⟨hreports, -⟩, -⟩
  rw [access_Add h₁] at hok₁
  cases hok₁
  rw [access_Add h₂] at hok₂
  cases hok₂
  -- the new block has the old one
  have hboth := (pairwise_cons.mp hreports.separate).1 (10, 12) (mem_singleton_self _)
  exact absurd hboth (by unfold Separate; decide)

end Ns3Joined.Internet.TcpRxBuffer
