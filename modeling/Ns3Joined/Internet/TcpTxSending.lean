import Ns3Joined.Internet.TcpTxItems

/-!
# What the transmit buffer sends

`CopyFromSequence`, in buffers whose items are where they belong (`Laid`). Bytes that are sent
already are taken from `m_sentList` (`CopyFromSequence_sent`), as long as the items that have one
of them are to be merged (`Retransmittable`); others from `m_appList` (`CopyFromSequence_new`).
-/

namespace Ns3Joined.Internet.TcpTxBuffer

open SequenceNumber Tiles TcpTxItem UInt32
open UInt32 (ofNat ofNat_toNat toNat_inj toNat_zero)

/-- The items lie one after the other, from `m_firstByteSeq` on, and those that are not sent yet
have no flags. -/
structure Laid (b : TcpTxBuffer) : Prop where
  contiguous : Contiguous b.m_firstByteSeq b.m_sentList
  sentSize : b.m_sentSize = ofNat (total length b.m_sentList)
  size : b.m_size = ofNat (total length b.m_sentList + total length b.m_appList)
  bound : total length b.m_sentList + total length b.m_appList < 2 ^ 31
  sentPos : ∀ x ∈ b.m_sentList, 0 < x.length
  appPos : ∀ x ∈ b.m_appList, 0 < x.length
  clean : ∀ x ∈ b.m_appList, x.m_sacked = false ∧ x.m_lost = false ∧ x.m_retrans = false

/-- The bytes that `GetTransmittedSegment` takes are of items with the same flags, that are not
sacked. -/
def Retransmittable (n : UInt32) (k : ℕ) (b : TcpTxBuffer) : Prop :=
  ∀ x ∈ overlapping length k (mergeLimit n (seq b.m_firstByteSeq k) b.m_sentList).toNat
      b.m_sentList, x.m_sacked = false ∧
    ∀ y ∈ overlapping length k (mergeLimit n (seq b.m_firstByteSeq k) b.m_sentList).toNat
      b.m_sentList, x.m_lost = y.m_lost

instance (n : UInt32) (k : ℕ) (b : TcpTxBuffer) : Decidable (b.Retransmittable n k) :=
  inferInstanceAs (Decidable (∀ _ ∈ _, _ ∧ ∀ _ ∈ _, _))

variable {b b' : TcpTxBuffer} {k n : ℕ} {now : ℤ}

/-- The number behind everything held. -/
theorem Laid.tailSequence (h : b.Laid) : b.TailSequence =
    seq b.m_firstByteSeq (total length b.m_sentList + total length b.m_appList) := by
  rw [TailSequence, h.size]
  rfl

/-- The number behind everything sent. -/
theorem Laid.sentEnd (h : b.Laid) :
    b.m_firstByteSeq + b.m_sentSize = seq b.m_firstByteSeq (total length b.m_sentList) := by
  rw [h.sentSize]
  rfl

/-- The bytes held from a position on. -/
theorem Laid.sizeFromSequence (h : b.Laid)
    (hk : k ≤ total length b.m_sentList + total length b.m_appList) :
    b.SizeFromSequence (seq b.m_firstByteSeq k) =
      ofNat (total length b.m_sentList + total length b.m_appList - k) := by
  have hbound := h.bound
  have hge : ge (seq b.m_firstByteSeq (total length b.m_sentList + total length b.m_appList))
      (seq b.m_firstByteSeq k) =
      decide (k ≤ total length b.m_sentList + total length b.m_appList) :=
    ge_seq (by omega) (by omega)
  rw [SizeFromSequence, h.tailSequence, hge, if_pos (by simpa using hk), seq_sub hk]

/-! ### Segments that were sent -/

variable {items : List TcpTxItem}

/-- Some of the bytes are taken, if not all. -/
theorem mergeLimit_bounds (numBytes : UInt32) (hn : 0 < numBytes.toNat) (a : SequenceNumber32)
    (hpos : ∀ x ∈ items, 0 < x.length) (hbound : total length items < 2 ^ 31) :
    0 < (mergeLimit numBytes a items).toNat ∧
      (mergeLimit numBytes a items).toNat ≤ numBytes.toNat := by
  induction items with
  | nil => exact ⟨hn, Nat.le_refl _⟩
  | cons item rest ih =>
    obtain ⟨hitem, hrest⟩ := List.forall_mem_cons.mp hpos
    rw [total_cons] at hbound
    have hsize : item.size.toNat = item.length :=
      toNat_ofNat_of_lt (by omega : item.length < 2 ^ 31)
    unfold mergeLimit
    split_ifs with hstart
    · match rest with
      | [] =>
        dsimp only
        rw [toNat_min, hsize]
        omega
      | next :: rest =>
        rw [total_cons] at hbound
        have hboth : (item.size + next.size).toNat = item.length + next.length := by
          rw [size_eq, size_eq, ← ofNat_add]
          exact toNat_ofNat_of_lt (by omega)
        dsimp only
        split_ifs
        · rw [toNat_min, hboth]
          omega
        · rw [toNat_min, hsize]
          omega
    · exact ih hrest (by omega)

/-- What `CopyFromSequence` makes of the buffer when it takes a segment that was sent. -/
def resent (now : ℤ) (retrans : UInt32) (nodes : ℕ) (l : Located) (b : TcpTxBuffer) : TcpTxBuffer :=
  { b with
    m_sentList := { l with item := { l.item with m_retrans := true, m_lastSent := now } }.list
    m_retrans := if l.item.m_retrans then retrans else retrans + l.item.size
    nodes := nodes }

variable {lost sacked : Bool} {numBytes : UInt32}

/-- Fetching a sent segment succeeds where the items it covers carry the same marks. -/
theorem Laid.getTransmittedSegment (h : b.Laid) (hn : 0 < n)
    (hle : k + n ≤ total length b.m_sentList)
    (hsame : ∀ x ∈ overlapping length k
      (mergeLimit (ofNat n) (seq b.m_firstByteSeq k) b.m_sentList).toNat b.m_sentList,
      x.m_sacked = sacked ∧ x.m_lost = lost) :
    ∃ retrans nodes l,
      b.GetTransmittedSegment (ofNat n) (seq b.m_firstByteSeq k) =
        .ok ({ b with
            m_sentList := { l with item := { l.item with m_retrans := true } }.list
            m_retrans := if l.item.m_retrans then retrans else retrans + l.item.size
            nodes := nodes }, { l with item := { l.item with m_retrans := true } }) ∧
      Found sacked lost b.m_retrans b.m_sentList k
        (mergeLimit (ofNat n) (seq b.m_firstByteSeq k) b.m_sentList).toNat retrans l := by
  have hbound := h.bound
  have hcheck : Checked (some b.m_firstByteSeq) b.m_firstByteSeq b.m_sentList := fun f hf => by
    obtain rfl := Option.some.inj hf
    exact ⟨rfl, h.contiguous⟩
  have htoNat := toNat_ofNat_of_lt (by omega : n < 2 ^ 31)
  obtain ⟨hlimit, hlimit'⟩ := mergeLimit_bounds (ofNat n) (by omega)
    (seq b.m_firstByteSeq k) h.sentPos (by omega)
  obtain ⟨retrans, nodes, l, hok, hfound⟩ := GetPacketFromList_spec b.m_retrans b.nodes hcheck
    (by omega) h.sentPos hlimit (by omega) hsame (Nat.lt_succ_self (b.m_sentList.length + 1))
  rw [ofNat_toNat] at hok
  have hge : ge (seq b.m_firstByteSeq k) (seq b.m_firstByteSeq 0) = decide (0 ≤ k) :=
    ge_seq (by omega) (by omega)
  rw [seq_zero] at hge
  have hne : b.m_sentList ≠ [] := fun hnil => by
    rw [hnil, total_nil] at hle
    omega
  have hsize : ofNat n ≤ b.m_sentSize := by
    rw [h.sentSize, le_iff_toNat_le, htoNat, toNat_ofNat_of_lt (by omega)]
    omega
  refine ⟨retrans, nodes, l, ?_, hfound⟩
  unfold GetTransmittedSegment
  rw [if_pos ⟨by simp [hge], hsize, hne⟩, hok]

/-- What is found starts at the number asked for. -/
theorem Found.startSeq {retrans retrans' : UInt32} {a : SequenceNumber32} {list : List TcpTxItem}
    {l : Located} (h : Found sacked lost retrans list k n retrans' l)
    (hcontiguous : Contiguous a list) : l.item.m_startSeq = seq a k := by
  have hlist := h.recut.contiguous hcontiguous
  rw [Located.list, contiguous_append, contiguous_cons, h.start] at hlist
  exact hlist.2.1

/-- Bytes that are sent already. -/
theorem Laid.copyFromSequence_sent (h : b.Laid) (now : ℤ) (rounds : ℕ) (hn : 0 < n)
    (hle : k + n ≤ total length b.m_sentList) (hsafe : b.Retransmittable (ofNat n) k)
    (hmin : min numBytes.toNat (total length b.m_sentList + total length b.m_appList - k) = n) :
    ∃ lost retrans nodes l,
      b.copyFromSequence now (seq b.m_firstByteSeq k) (rounds + 1) numBytes =
        .ok (b.resent now retrans nodes l, l.item.m_packet) ∧
      Found false lost b.m_retrans b.m_sentList k
        (mergeLimit (ofNat n) (seq b.m_firstByteSeq k) b.m_sentList).toNat retrans l := by
  have hbound := h.bound
  obtain ⟨lost, hsame⟩ : ∃ lost, ∀ x ∈ overlapping length k
      (mergeLimit (ofNat n) (seq b.m_firstByteSeq k) b.m_sentList).toNat b.m_sentList,
      x.m_sacked = false ∧ x.m_lost = lost := by
    unfold Retransmittable at hsafe
    generalize overlapping length k _ b.m_sentList = items at hsafe
    cases items with
    | nil => exact ⟨false, nofun⟩
    | cons y items =>
      exact ⟨y.m_lost, fun x hx => ⟨(hsafe x hx).1, (hsafe x hx).2 y (List.mem_cons_self ..)⟩⟩
  obtain ⟨retrans, nodes, l, hok, hfound⟩ := h.getTransmittedSegment hn hle hsame
  refine ⟨lost, retrans, nodes, l, ?_, hfound⟩
  have htoNat := toNat_ofNat_of_lt (by omega : n < 2 ^ 31)
  have hgt : gt (seq b.m_firstByteSeq 0) (seq b.m_firstByteSeq k) = decide (k < 0) :=
    gt_seq (by omega) (by omega)
  rw [seq_zero] at hgt
  have hmin' : min numBytes (b.SizeFromSequence (seq b.m_firstByteSeq k)) = ofNat n := by
    rw [h.sizeFromSequence (by omega), ← toNat_inj, toNat_min, htoNat,
      toNat_ofNat_of_lt (by omega), hmin]
  have hne : ofNat n ≠ 0 := fun heq => by
    rw [heq, toNat_zero] at htoNat
    omega
  have hge : ge (seq b.m_firstByteSeq (total length b.m_sentList)) (seq b.m_firstByteSeq (k + n)) =
      decide (k + n ≤ total length b.m_sentList) := ge_seq (by omega) (by omega)
  rw [copyFromSequence, hgt, if_neg (by simp)]
  dsimp only
  rw [hmin', if_neg hne, h.sentEnd, seq_add, hge, if_pos (by simpa using hle), hok]
  dsimp only
  rw [if_neg fun hsacked => Bool.false_ne_true (hfound.sacked.symm.trans hsacked)]
  -- The item is where it belongs, and has no more bytes than those that are asked for.
  have hlimit := (mergeLimit_bounds (ofNat n) (by omega)
    (seq b.m_firstByteSeq k) h.sentPos (by omega)).2
  have hsize : l.item.size ≤ ofNat n := by
    rw [le_iff_toNat_le, size_eq, hfound.length, ofNat_toNat]
    exact hlimit
  have hge' : ge (seq b.m_firstByteSeq k) (seq b.m_firstByteSeq 0) = decide (0 ≤ k) :=
    ge_seq (by omega) (by omega)
  rw [seq_zero, ← hfound.startSeq h.contiguous] at hge'
  unfold send
  rw [if_pos ⟨hsize, by simp [hge']⟩]
  rfl

/-! ### New segments -/

/-- What `CopyFromSequence` makes of the buffer when it takes a segment that was not sent. -/
def sentFirst (now : ℤ) (nodes : ℕ) (l : Located) (b : TcpTxBuffer) : TcpTxBuffer :=
  { b with
    m_appList := l.before ++ l.after
    m_sentList := b.m_sentList ++ [{ l.item with
      m_startSeq := b.m_firstByteSeq + b.m_sentSize
      m_lastSent := now
      node := nodes }]
    m_sentSize := b.m_sentSize + l.item.size
    nodes := nodes + 1 }

/-- A list without length is empty. -/
theorem eq_nil_of_total (hpos : ∀ x ∈ items, 0 < x.length) (h : total length items = 0) :
    items = [] := by
  cases items with
  | nil => rfl
  | cons item items =>
    have hitem := hpos item (List.mem_cons_self ..)
    rw [total_cons] at h
    omega

/-- Fetching a new segment cuts it from the front of the unsent list. -/
theorem Laid.getNewSegment (h : b.Laid) (hn : 0 < n) (hle : n ≤ total length b.m_appList) :
    ∃ nodes l,
      b.GetNewSegment (ofNat n) =
        .ok ({ b with
            m_appList := l.before ++ l.after
            m_sentList := b.m_sentList ++ [{ l.item with
              m_startSeq := b.m_firstByteSeq + b.m_sentSize
              node := nodes }]
            m_sentSize := b.m_sentSize + l.item.size
            nodes := nodes + 1 },
          ⟨b.m_sentList, { l.item with
            m_startSeq := b.m_firstByteSeq + b.m_sentSize
            node := nodes }, []⟩) ∧
      Found false false b.m_retrans b.m_appList 0 n b.m_retrans l ∧
      l.before = [] ∧ l.item.m_retrans = false := by
  have hbound := h.bound
  have hsame : ∀ x ∈ overlapping length 0 n b.m_appList,
      x.m_sacked = false ∧ x.m_lost = false := fun x hx => by
    obtain ⟨hsacked, hlost, -⟩ := h.clean x (mem_of_mem_overlapping x hx)
    exact ⟨hsacked, hlost⟩
  have hcheck : Checked none (b.m_firstByteSeq + b.m_sentSize) b.m_appList := nofun
  obtain ⟨retrans, nodes, l, hok, hfound⟩ := GetPacketFromList_spec b.m_retrans b.nodes hcheck
    (by omega) h.appPos hn
    (by omega : 0 + n ≤ total length b.m_appList) hsame
    (Nat.lt_succ_self (b.m_appList.length + 1))
  obtain ⟨rfl, hclean⟩ := hfound.recut.retrans_eq fun x hx => (h.clean x hx).2.2
  have hpos := hfound.recut.length_pos h.appPos
  rw [Located.list, List.forall_mem_append, List.forall_mem_cons] at hpos hclean
  rw [seq_zero] at hok
  refine ⟨nodes, l, ?_, hfound, eq_nil_of_total hpos.1 hfound.start, hclean.2.1⟩
  unfold GetNewSegment
  dsimp only
  rw [hok]
  rfl

/-- Bytes that are not sent yet. -/
theorem Laid.copyFromSequence_new (h : b.Laid) (now : ℤ) (rounds : ℕ) (hn : 0 < n)
    (hle : n ≤ total length b.m_appList)
    (hmin : min numBytes.toNat (total length b.m_appList) = n) :
    ∃ nodes l,
      b.copyFromSequence now (seq b.m_firstByteSeq (total length b.m_sentList)) (rounds + 1)
        numBytes = .ok (b.sentFirst now nodes l, l.item.m_packet) ∧
      Found false false b.m_retrans b.m_appList 0 n b.m_retrans l ∧
      l.before = [] ∧ l.item.m_retrans = false := by
  have hbound := h.bound
  obtain ⟨nodes, l, hok, hfound, hbefore, hretrans⟩ := h.getNewSegment hn hle
  refine ⟨nodes, l, ?_, hfound, hbefore, hretrans⟩
  set k := total length b.m_sentList with hk
  have htoNat := toNat_ofNat_of_lt (by omega : n < 2 ^ 31)
  have hgt : gt (seq b.m_firstByteSeq 0) (seq b.m_firstByteSeq k) = decide (k < 0) :=
    gt_seq (by omega) (by omega)
  rw [seq_zero] at hgt
  have hmin' : min numBytes (b.SizeFromSequence (seq b.m_firstByteSeq k)) = ofNat n := by
    rw [h.sizeFromSequence (by omega), ← hk, Nat.add_sub_cancel_left, ← toNat_inj,
      toNat_min, htoNat, toNat_ofNat_of_lt (by omega), hmin]
  have hne : ofNat n ≠ 0 := fun heq => by
    rw [heq, toNat_zero] at htoNat
    omega
  have hge : ge (seq b.m_firstByteSeq k) (seq b.m_firstByteSeq (k + n)) = decide (k + n ≤ k) :=
    ge_seq (by omega) (by omega)
  have hle' : le (seq b.m_firstByteSeq k) (seq b.m_firstByteSeq k) = decide (k ≤ k) :=
    le_seq (by omega) (by omega)
  rw [copyFromSequence, hgt, if_neg (by simp)]
  dsimp only
  rw [hmin', if_neg hne, h.sentEnd, ← hk, seq_add, hge, if_neg (by simp; omega), hle',
    if_pos (by simp), if_pos rfl, hok]
  dsimp only
  rw [if_neg fun h => Bool.false_ne_true (hretrans.symm.trans h)]
  -- The item begins after what is sent, and has the bytes that are asked for.
  have hge' : ge (seq b.m_firstByteSeq k) (seq b.m_firstByteSeq 0) = decide (0 ≤ k) :=
    ge_seq (by omega) (by omega)
  rw [seq_zero, ← h.sentEnd] at hge'
  have hsize : l.item.size ≤ ofNat n := by
    rw [size_eq, hfound.length]
    exact le_iff_toNat_le.mpr (Nat.le_refl _)
  unfold send
  rw [if_pos ⟨hsize, by simp [hge']⟩]
  rfl

end Ns3Joined.Internet.TcpTxBuffer
