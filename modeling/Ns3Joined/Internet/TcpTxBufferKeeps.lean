import Ns3Joined.Internet.TcpTxMarks

/-!
# What the calls of the transmit buffer keep

* `Sendable`: the bytes from a place on can be copied.
* `Inv.copyFromSequence`: then a copy has the bytes of the application.
* `Inv.update`: `Update`, if no block covers the first segment.
* `Inv.discardUpTo`: `DiscardUpTo`, if the segment that is first then is not sacked or the mark can
  be moved to another one.

In each case the counts stay right and the segments stay where they are (`Inv`).
-/

namespace Ns3Joined.Internet.TcpTxBuffer

open SequenceNumber Tiles TcpTxItem Bool UInt32
open List hiding length

variable {b b' : TcpTxBuffer} {items items' : List TcpTxItem} {item : TcpTxItem}
  {start : SequenceNumber32} {lost : Bool} {retrans retrans' : UInt32} {k m n : ℕ} {now : ℤ}
  {l : Located}

/-! ### Copies -/

/-- The bytes of a request from place `k` on. -/
def requested (numBytes k : ℕ) (b : TcpTxBuffer) : ℕ := min numBytes (b.contents.length - k)

/-- A request can be met: for new bytes; for sent ones that `GetTransmittedSegment` takes from
segments that are marked alike; and for both, if sequence numbers do not wrap in it. -/
def Sendable (numBytes k : ℕ) (b : TcpTxBuffer) : Prop :=
  b.requested numBytes k = 0 ∨ k = total length b.m_sentList ∨
  k + b.requested numBytes k ≤ total length b.m_sentList ∧
    b.Retransmittable (UInt32.ofNat (b.requested numBytes k)) k ∨
  k < total length b.m_sentList ∧ total length b.m_sentList < k + b.requested numBytes k ∧
    (seq b.m_firstByteSeq k).toNat + b.requested numBytes k < 2 ^ 32 ∧
    b.Retransmittable (UInt32.ofNat (total length b.m_sentList - k)) k

instance (numBytes k : ℕ) (b : TcpTxBuffer) : Decidable (b.Sendable numBytes k) :=
  inferInstanceAs (Decidable (_ ∨ _ ∨ _ ∧ _ ∨ _ ∧ _ ∧ _ ∧ _))

/-- A copy of what the application sends, from place `k` on. -/
structure CopyOf (contents : List UInt8) (numBytes k : ℕ) (p : List UInt8) : Prop where
  isPrefix : p <+: contents.drop k
  length_le : p.length ≤ numBytes
  length_pos : 0 < numBytes → k < contents.length → 0 < p.length

variable {sacked modified : Bool} {option : SequenceNumber32 × SequenceNumber32} {node : ℕ}
  {list : List (SequenceNumber32 × SequenceNumber32)} {s : SequenceNumber32}

/-- What is found is the asked piece of the list's bytes. -/
theorem Found.packet (h : Found sacked lost retrans items k n retrans' l) :
    l.item.m_packet = ((bytes items).drop k).take n := by
  have hbytes := h.recut.bytes_eq
  rw [Located.list, bytes_append, bytes_cons] at hbytes
  have hbefore : (bytes l.before).length = k := (length_bytes _).trans h.start
  rw [← hbytes, drop_append_of_le_length hbefore.ge, ← hbefore, drop_length,
    nil_append, take_append_of_le_length h.length.ge, ← h.length]
  exact (take_of_length_le le_rfl).symm

/-- What is found may be handed out as a copy. -/
theorem Found.copyOf (h : Found sacked lost retrans items k n retrans' l)
    (hk : k ≤ total TcpTxItem.length items) (hn : 0 < n) {numBytes : ℕ} (hle : n ≤ numBytes)
    (more : List UInt8) : CopyOf (bytes items ++ more) numBytes k l.item.m_packet where
  isPrefix := by
    rw [h.packet, drop_append_of_le_length (hk.trans_eq (length_bytes items).symm)]
    exact ( take_prefix _ _).trans (prefix_append _ _)
  length_le := h.length.trans_le hle
  length_pos := fun _ _ => hn.trans_eq h.length.symm

/-- What a copy leaves. -/
structure Copied (b : TcpTxBuffer) (numBytes k : ℕ) (b' : TcpTxBuffer) (p : List UInt8) :
    Prop where
  inv : Inv b'
  contents : b'.contents = b.contents
  first : b'.m_firstByteSeq = b.m_firstByteSeq
  copy : CopyOf b.contents numBytes k p

/-- Copying from the part already sent succeeds where splitting is safe. -/
theorem Inv.copyFromSequence_sent (h : Inv b) (now : ℤ) (rounds : ℕ) (numBytes : UInt32)
    (hn : 0 < n) (hle : k + n ≤ total length b.m_sentList)
    (hsafe : b.Retransmittable (UInt32.ofNat n) k)
    (hmin : min numBytes.toNat (total length b.m_sentList + total length b.m_appList - k) = n) :
    ∃ b' p, b.copyFromSequence now (seq b.m_firstByteSeq k) (rounds + 1) numBytes =
      .ok (b', p) ∧ Copied b numBytes.toNat k b' p := by
  obtain ⟨lost, retrans, nodes, l, hok, hfound⟩ :=
    h.toLaid.copyFromSequence_sent now rounds hn hle hsafe hmin
  obtain ⟨hinv, hcontents⟩ := h.resent now nodes hfound
  have hbound := h.bound
  have htoNat := toNat_ofNat_of_lt (by omega : n < 2 ^ 31)
  obtain ⟨hpos, hlimit⟩ := mergeLimit_bounds (UInt32.ofNat n) (by omega)
    (seq b.m_firstByteSeq k) h.sentPos (by omega)
  exact ⟨_, _, hok, hinv, hcontents, rfl, hfound.copyOf (by omega) hpos (by omega) _⟩

/-- Copying from the part not yet sent succeeds. -/
theorem Inv.copyFromSequence_new (h : Inv b) (now : ℤ) (rounds : ℕ) {numBytes : UInt32}
    (hn : 0 < min numBytes.toNat (total length b.m_appList)) :
    ∃ b' p, b.copyFromSequence now (seq b.m_firstByteSeq (total length b.m_sentList)) (rounds + 1)
      numBytes = .ok (b', p) ∧ Copied b numBytes.toNat (total length b.m_sentList) b' p := by
  obtain ⟨nodes, l, hok, hfound, hbefore, hretrans⟩ :=
    h.toLaid.copyFromSequence_new now rounds hn (Nat.min_le_right _ _) rfl
  obtain ⟨hinv, hcontents⟩ := h.sentFirst now nodes hfound hbefore hretrans
  refine ⟨_, _, hok, hinv, hcontents, rfl, ?_⟩
  have hcopy := hfound.copyOf (Nat.zero_le _) hn (Nat.min_le_left _ _) []
  have hlength := length_bytes b.m_sentList
  have hdrop : b.contents.drop (total length b.m_sentList) = bytes b.m_appList := by
    rw [contents, ← hlength, drop_left]
  refine ⟨?_, hcopy.length_le, fun _ _ => hn.trans_eq hfound.length.symm⟩
  rw [hdrop]
  have hprefix := hcopy.isPrefix
  rwa [append_nil, drop_zero] at hprefix

/-- **Copies** have the bytes of the application. -/
theorem Inv.copyFromSequence (h : Inv b) (now : ℤ) (numBytes : UInt32)
    (hk : k ≤ total length b.m_sentList) (hsendable : b.Sendable numBytes.toNat k) :
    ∃ b' p, b.CopyFromSequence now numBytes (seq b.m_firstByteSeq k) = .ok (b', p) ∧
      Copied b numBytes.toNat k b' p := by
  have hbound := h.bound
  have hlength := b.length_contents
  have hgt : gt (seq b.m_firstByteSeq 0) (seq b.m_firstByteSeq k) = decide (k < 0) :=
    gt_seq (by omega) (by omega)
  rw [seq_zero] at hgt
  have hsize := h.toLaid.sizeFromSequence (k := k) (by omega)
  have hmin : min numBytes (b.SizeFromSequence (seq b.m_firstByteSeq k)) =
      UInt32.ofNat (b.requested numBytes.toNat k) := by
    rw [hsize, ← UInt32.toNat_inj, toNat_min, requested, hlength,
      toNat_ofNat_of_lt (by omega), toNat_ofNat_of_lt (by omega)]
  unfold CopyFromSequence
  by_cases hzero : b.requested numBytes.toNat k = 0
  · -- there is nothing to copy
    refine ⟨b, [], ?_, h, rfl, rfl, nil_prefix, Nat.zero_le _, fun hpos hlt => ?_⟩
    · rw [TcpTxBuffer.copyFromSequence, hgt, if_neg (by simp)]
      dsimp only
      rw [hmin, hzero, if_pos (show UInt32.ofNat 0 = 0 from rfl)]
    · unfold requested at hzero
      omega
  · unfold requested at hzero
    obtain hnone | rfl | ⟨hle, hsafe⟩ | ⟨hlt, hpast, hwrap, hsafe⟩ := hsendable
    · exact absurd hnone hzero
    · have happ : b.contents.length - total length b.m_sentList = total length b.m_appList := by
        omega
      rw [happ] at hzero
      exact h.copyFromSequence_new now 1 (Nat.pos_of_ne_zero hzero)
    · refine h.copyFromSequence_sent now 1 numBytes (Nat.pos_of_ne_zero hzero) hle hsafe ?_
      rw [hlength]
    · -- the bytes that were sent already
      have hrequested : b.requested numBytes.toNat k = min numBytes.toNat (b.contents.length - k) :=
        rfl
      have hnot : ge (seq b.m_firstByteSeq (total length b.m_sentList))
          (seq b.m_firstByteSeq (k + b.requested numBytes.toNat k)) =
          decide (k + b.requested numBytes.toNat k ≤ total length b.m_sentList) :=
        ge_seq (by omega) (by omega)
      have hnot' : le (seq b.m_firstByteSeq (total length b.m_sentList))
          (seq b.m_firstByteSeq k) = decide (total length b.m_sentList ≤ k) :=
        le_seq (by omega) (by omega)
      have hraw : seq b.m_firstByteSeq (total length b.m_sentList) > seq b.m_firstByteSeq k ∧
          seq b.m_firstByteSeq (total length b.m_sentList) <
            seq b.m_firstByteSeq (k + b.requested numBytes.toNat k) := by
        rw [gt_iff_lt, lt_iff_toNat_lt, lt_iff_toNat_lt]
        rw [toNat_seq] at hwrap
        rw [toNat_seq, toNat_seq, toNat_seq]
        omega
      obtain ⟨b', p, hok, hcopied⟩ := h.copyFromSequence_sent now 0
        (UInt32.ofNat (total length b.m_sentList - k))
        (by omega : 0 < total length b.m_sentList - k) (by omega) hsafe
        (by rw [toNat_ofNat_of_lt (by omega)]; omega)
      have hless : (UInt32.ofNat (total length b.m_sentList - k)).toNat ≤ numBytes.toNat := by
        rw [toNat_ofNat_of_lt (by omega)]
        omega
      have hsome := hcopied.copy.length_pos
        (by rw [toNat_ofNat_of_lt (by omega)]; omega) (by omega)
      refine ⟨b', p, ?_, hcopied.inv, hcopied.contents, hcopied.first, hcopied.copy.isPrefix,
        hcopied.copy.length_le.trans hless, fun _ _ => hsome⟩
      have hne : UInt32.ofNat (b.requested numBytes.toNat k) ≠ 0 := fun heq => by
        have htoNat := toNat_ofNat_of_lt (by omega : b.requested numBytes.toNat k < 2 ^ 31)
        rw [heq, UInt32.toNat_zero] at htoNat
        omega
      rw [TcpTxBuffer.copyFromSequence, hgt, if_neg (by simp)]
      dsimp only
      rw [hmin, if_neg hne, h.sentEnd, seq_add, hnot, if_neg (by simp; omega), hnot',
        if_neg (by simp; omega), if_pos hraw, seq_sub hlt.le]
      exact hok

/-! ### Reported blocks -/

/-- Which items the loop of `Update` finds in a block. -/
def coverage (option : SequenceNumber32 × SequenceNumber32) :
    SequenceNumber32 → List TcpTxItem → List Bool
  | _, [] => []
  | start, item :: rest =>
    if covered option start item then true :: coverage option (start + item.size) rest
    else if gt (start + item.size) option.2 then false :: rest.map fun _ => false
    else false :: coverage option (start + item.size) rest

/-- What becomes of an item. -/
def sackIf (item : TcpTxItem) (isReported : Bool) : TcpTxItem :=
  if isReported && !item.m_sacked then { item with m_lost := false, m_sacked := true } else item

/-- The items after a block. -/
def sackCovered (option : SequenceNumber32 × SequenceNumber32) (start : SequenceNumber32)
    (items : List TcpTxItem) : List TcpTxItem :=
  List.zipWith sackIf items (coverage option start items)

/-- Some item is sacked that was not. -/
def sacksNew (option : SequenceNumber32 × SequenceNumber32) (start : SequenceNumber32)
    (items : List TcpTxItem) : Bool :=
  (List.zipWith (fun item isReported => isReported && !item.m_sacked) items
    (coverage option start items)).any id

/-- An item outside the block is left as it is. -/
theorem sackIf_false (item : TcpTxItem) : sackIf item false = item := rfl

/-- A block that covers nothing changes nothing. -/
theorem zipWith_sackIf_false (items : List TcpTxItem) :
    List.zipWith sackIf items (items.map fun _ => false) = items := by
  induction items with
  | nil => rfl
  | cons item items ih => rw [map_cons, zipWith_cons_cons, ih, sackIf_false]

/-- Reported blocks change marks only. -/
theorem parts_sackCovered (option : SequenceNumber32 × SequenceNumber32)
    (start : SequenceNumber32) (items : List TcpTxItem) :
    parts (sackCovered option start items) = parts items := by
  have hitem : ∀ (item : TcpTxItem) isReported,
      parts [sackIf item isReported] = parts [item] := by
    intro item isReported
    unfold sackIf
    split_ifs <;> rfl
  unfold sackCovered
  induction items generalizing start with
  | nil => rfl
  | cons item items ih =>
    have hcons : ∀ (x : TcpTxItem) xs, parts (x :: xs) = parts [x] ++ parts xs := fun _ _ => rfl
    rw [coverage]
    split_ifs
    · rw [zipWith_cons_cons, hcons, hitem, ih, ← hcons]
    · rw [zipWith_cons_cons, zipWith_sackIf_false, sackIf_false]
    · rw [zipWith_cons_cons, hcons, hitem, ih, ← hcons]

/-- What a block leaves of the counts and of `m_highestSack`. -/
structure SackedBy (option : SequenceNumber32 × SequenceNumber32) (start : SequenceNumber32)
    (items : List TcpTxItem) (sb sb' : Scoreboard) : Prop where
  sackedOut : Follows TcpTxItem.m_sacked items (sackCovered option start items) sb.m_sackedOut
    sb'.m_sackedOut
  lostOut : Follows TcpTxItem.m_lost items (sackCovered option start items) sb.m_lostOut
    sb'.m_lostOut
  retrans : ∀ x, Follows TcpTxItem.m_retrans items (sackCovered option start items) x x
  modified : sb'.modified = (sb.modified || (coverage option start items).any id)
  found : sb'.m_highestSack.1.isSome = (sb.m_highestSack.1.isSome || sacksNew option start items)
  unchanged : sacksNew option start items = false → sb'.m_highestSack = sb.m_highestSack ∧
    sackCovered option start items = items
  highest : sb'.m_highestSack = sb.m_highestSack ∨
    ∃ x ∈ sackCovered option start items, x.m_sacked = true ∧
      sb'.m_highestSack = (some x.node, x.m_startSeq)

/-- A block that covers nothing leaves the scoreboard. -/
theorem SackedBy.refl_of_false (hcover : coverage option start items = items.map fun _ => false)
    (sb : Scoreboard) : SackedBy option start items sb sb := by
  have heq : sackCovered option start items = items := by
    rw [sackCovered, hcover, zipWith_sackIf_false]
  have hnew : sacksNew option start items = false := by
    rw [sacksNew, hcover]
    clear hcover heq
    induction items with
    | nil => rfl
    | cons item items ih =>
      rw [map_cons, zipWith_cons_cons, any_cons, ih]
      rfl
  have hany : (coverage option start items).any id = false := by
    rw [hcover, any_map]
    exact any_eq_false.mpr fun _ _ => Bool.false_ne_true
  refine ⟨?_, ?_, fun x => ?_, ?_, ?_, fun _ => ⟨rfl, heq⟩, .inl rfl⟩
  · rw [heq]
    exact .refl ..
  · rw [heq]
    exact .refl ..
  · rw [heq]
    exact .refl ..
  · rw [hany, Bool.or_false]
  · rw [hnew, Bool.or_false]

/-- One item that a block covers. -/
theorem sackItem_spec (sb : Scoreboard) (hdisjoint : item.m_sacked = true → item.m_lost = false)
    (hstart : item.m_startSeq = start) :
    ∃ sb', sackItem start sb item = .ok (sb', sackIf item true) ∧
      Follows TcpTxItem.m_sacked [item] [sackIf item true] sb.m_sackedOut sb'.m_sackedOut ∧
      Follows TcpTxItem.m_lost [item] [sackIf item true] sb.m_lostOut sb'.m_lostOut ∧
      sb'.modified = true ∧
      sb'.m_highestSack.1.isSome = (sb.m_highestSack.1.isSome || !item.m_sacked) ∧
      (item.m_sacked = true → sb'.m_highestSack = sb.m_highestSack) ∧
      (sb'.m_highestSack = sb.m_highestSack ∨ (sackIf item true).m_sacked = true ∧
        sb'.m_highestSack = (some (sackIf item true).node, (sackIf item true).m_startSeq)) := by
  unfold sackItem sackIf
  cases hsacked : item.m_sacked with
  | true =>
    rw [if_pos rfl, hdisjoint hsacked, if_neg Bool.false_ne_true]
    refine ⟨_, rfl, .refl .., .refl .., rfl, ?_, fun _ => rfl, .inl rfl⟩
    exact (Bool.or_false _).symm
  | false =>
    have hset : Follows TcpTxItem.m_sacked [item] [{ item with m_lost := false, m_sacked := true }]
        sb.m_sackedOut (if item.m_sacked then sb.m_sackedOut else sb.m_sackedOut + item.size) :=
      .set rfl rfl
    rw [hsacked, if_neg Bool.false_ne_true] at hset
    rw [if_neg Bool.false_ne_true, if_pos (show (true && !false) = true from rfl)]
    refine ⟨_, rfl, hset, .clear rfl, rfl, ?_, fun htrue => absurd htrue Bool.false_ne_true, ?_⟩
    · dsimp only
      split_ifs with hraise
      · exact (Bool.or_true _).symm
      · cases hnode : sb.m_highestSack.1 with
        | none => exact absurd (.inl hnode) hraise
        | some node => rfl
    · dsimp only
      split_ifs
      · exact .inr ⟨rfl, by rw [← hstart]⟩
      · exact .inl rfl

/-- No item that the block covers is sacked and lost. -/
def CoversSound (option : SequenceNumber32 × SequenceNumber32) (start : SequenceNumber32)
    (items : List TcpTxItem) : Prop :=
  ∀ (i : ℕ) (x : TcpTxItem), items[i]? = some x → (coverage option start items)[i]? = some true →
    x.m_sacked = true → x.m_lost = false

/-- **A block** sacks what it covers. -/
theorem sackItems_spec (option : SequenceNumber32 × SequenceNumber32) (sb : Scoreboard)
    (hsound : CoversSound option start items) (hcontiguous : Contiguous start items) :
    ∃ sb', sackItems option start sb items = .ok (sb', sackCovered option start items) ∧
      SackedBy option start items sb sb' := by
  induction items generalizing start sb with
  | nil => exact ⟨sb, rfl, .refl_of_false rfl sb⟩
  | cons item rest ih =>
    obtain ⟨hstart, hcontiguous⟩ := hcontiguous
    rw [sackItems]
    by_cases hcovered : covered option start item = true
    · -- the item is reported
      have hcover : coverage option start (item :: rest) =
          true :: coverage option (start + item.size) rest := if_pos hcovered
      have hitem : item.m_sacked = true → item.m_lost = false :=
        hsound 0 item rfl (by rw [hcover]; rfl)
      have hrest : CoversSound option (start + item.size) rest := fun i x hx hi =>
        hsound (i + 1) x hx (by rw [hcover]; exact hi)
      obtain ⟨sb₁, hok₁, hsacked, hlost, hmodified, hfound, hunchanged, hhighest⟩ :=
        sackItem_spec sb hitem hstart
      obtain ⟨sb', hok, h⟩ := ih sb₁ hrest hcontiguous
      have heq : sackCovered option start (item :: rest) =
          sackIf item true :: sackCovered option (start + item.size) rest := by
        rw [sackCovered, hcover]
        rfl
      have hnew : sacksNew option start (item :: rest) =
          (!item.m_sacked || sacksNew option (start + item.size) rest) := by
        rw [sacksNew, hcover]
        rfl
      have hretrans : (sackIf item true).m_retrans = item.m_retrans ∧
          (sackIf item true).m_packet = item.m_packet := by
        unfold sackIf
        split_ifs <;> exact ⟨rfl, rfl⟩
      rw [if_pos hcovered, hok₁]
      dsimp only
      rw [hok]
      -- the counters follow the first item, and then the others
      refine ⟨sb', by rw [heq], ?_, ?_, fun x => ?_, ?_, ?_, fun hfalse => ?_, ?_⟩
      · rw [heq]
        exact hsacked.cons h.sackedOut
      · rw [heq]
        exact hlost.cons h.lostOut
      · rw [heq]
        exact (Follows.same hretrans.1 hretrans.2).cons (h.retrans x)
      · rw [h.modified, hmodified, hcover, any_cons]
        simp
      · rw [h.found, hfound, hnew, Bool.or_assoc]
      · -- where nothing new is sacked, all stays
        rw [hnew, Bool.or_eq_false_iff, Bool.not_eq_false'] at hfalse
        obtain ⟨hsame, hitems⟩ := h.unchanged hfalse.2
        rw [heq, hitems]
        refine ⟨hsame.trans (hunchanged hfalse.1), ?_⟩
        rw [sackIf, hfalse.1]
        rfl
      · rw [heq]
        obtain hsame | ⟨x, hx, htrue, hset⟩ := h.highest
        · rw [hsame]
          obtain hsame₁ | ⟨htrue, hset⟩ := hhighest
          · exact .inl hsame₁
          · exact .inr ⟨_, mem_cons_self, htrue, hset⟩
        · exact .inr ⟨x, mem_cons_of_mem _ hx, htrue, hset⟩
    · rw [if_neg hcovered]
      by_cases hpast : gt (start + item.size) option.2 = true
      · -- the loop ends
        have hcover : coverage option start (item :: rest) =
            (item :: rest).map fun _ => false := by
          rw [coverage, if_neg hcovered, if_pos hpast]
          rfl
        rw [if_pos hpast]
        refine ⟨sb, ?_, .refl_of_false hcover sb⟩
        rw [sackCovered, hcover, zipWith_sackIf_false]
      · -- the item is passed over
        have hcover : coverage option start (item :: rest) =
            false :: coverage option (start + item.size) rest := by
          rw [coverage, if_neg hcovered, if_neg hpast]
        have hrest : CoversSound option (start + item.size) rest := fun i x hx hi =>
          hsound (i + 1) x hx (by rw [hcover]; exact hi)
        obtain ⟨sb', hok, h⟩ := ih sb hrest hcontiguous
        have heq : sackCovered option start (item :: rest) =
            item :: sackCovered option (start + item.size) rest := by
          rw [sackCovered, hcover]
          rfl
        have hnew : sacksNew option start (item :: rest) =
            sacksNew option (start + item.size) rest := by
          rw [sacksNew, hcover]
          rfl
        rw [if_neg hpast, hok]
        refine ⟨sb', by rw [heq], ?_, ?_, fun x => ?_, ?_, ?_, fun hfalse => ?_, ?_⟩
        · rw [heq]
          exact (Follows.refl ..).cons h.sackedOut
        · rw [heq]
          exact (Follows.refl ..).cons h.lostOut
        · rw [heq]
          exact (Follows.refl ..).cons (h.retrans x)
        · rw [h.modified, hcover]
          rfl
        · rw [h.found, hnew]
        · obtain ⟨hsame, hitems⟩ := h.unchanged (hnew.symm.trans hfalse)
          exact ⟨hsame, by rw [heq, hitems]⟩
        · rw [heq]
          obtain hsame | ⟨x, hx, hset⟩ := h.highest
          · exact .inl hsame
          · exact .inr ⟨x, mem_cons_of_mem _ hx, hset⟩

/-- Every item after a block is an old one with its mark set or not. -/
theorem mem_sackCovered {y : TcpTxItem} (h : y ∈ sackCovered option start items) :
    ∃ x ∈ items, ∃ isReported, y = sackIf x isReported := by
  obtain ⟨i, hi, rfl⟩ := mem_iff_getElem.mp h
  rw [sackCovered, length_zipWith] at hi
  simp only [sackCovered, getElem_zipWith]
  exact ⟨_, getElem_mem _, _, rfl⟩

/-- Sacked segments are left as they are. -/
theorem mem_sackCovered_of_sacked (option : SequenceNumber32 × SequenceNumber32)
    (start : SequenceNumber32) {x : TcpTxItem} (hx : x ∈ items) (hsacked : x.m_sacked = true) :
    x ∈ sackCovered option start items := by
  have hsame : ∀ isReported, sackIf x isReported = x := by
    intro isReported
    rw [sackIf, hsacked]
    cases isReported <;> rfl
  unfold sackCovered
  induction items generalizing start with
  | nil => exact hx
  | cons item items ih =>
    rw [coverage]
    split_ifs
    · rw [zipWith_cons_cons]
      obtain rfl | hx := mem_cons.mp hx
      · rw [hsame]
        exact mem_cons_self
      · exact mem_cons_of_mem _ (ih _ hx)
    · rwa [zipWith_cons_cons, zipWith_sackIf_false, sackIf_false]
    · rw [zipWith_cons_cons]
      obtain rfl | hx := mem_cons.mp hx
      · exact mem_cons_self
      · exact mem_cons_of_mem _ (ih _ hx)

/-- A block that spares the first item leaves it. -/
theorem head?_sackCovered (hhead : ∀ x ∈ items.head?, covered option start x = false) :
    (sackCovered option start items).head? = items.head? := by
  cases items with
  | nil => rfl
  | cons item rest =>
    have hnot := hhead item rfl
    rw [sackCovered, coverage, hnot, if_neg Bool.false_ne_true]
    split_ifs <;> rfl

/-- An item reported is no longer lost, so the two marks stay disjoint. -/
theorem disjoint_sackCovered (hdisjoint : ∀ x ∈ items, x.m_sacked = true → x.m_lost = false) :
    ∀ x ∈ sackCovered option start items, x.m_sacked = true → x.m_lost = false := by
  intro y hy
  obtain ⟨x, hx, isReported, rfl⟩ := mem_sackCovered hy
  unfold sackIf
  split_ifs
  · exact fun _ => rfl
  · exact hdisjoint x hx

/-- The buffer after a block. -/
def afterBlock (option : SequenceNumber32 × SequenceNumber32) (sb : Scoreboard) (b : TcpTxBuffer) :
    TcpTxBuffer :=
  { b with
    m_sentList := sackCovered option b.m_firstByteSeq b.m_sentList
    m_lostOut := sb.m_lostOut
    m_sackedOut := sb.m_sackedOut
    m_highestSack := sb.m_highestSack }

/-- One block of the option keeps the invariant. -/
theorem Inv.afterBlock (h : Inv b) {sb' : Scoreboard}
    (hhead : ∀ x ∈ b.m_sentList.head?, covered option b.m_firstByteSeq x = false)
    (hsacked : SackedBy option b.m_firstByteSeq b.m_sentList
      ⟨b.m_lostOut, b.m_sackedOut, b.m_highestSack, modified⟩ sb') :
    Inv (b.afterBlock option sb') ∧ SameItems b (b.afterBlock option sb') := by
  have hsame : SameItems b (b.afterBlock option sb') :=
    ⟨parts_sackCovered option b.m_firstByteSeq b.m_sentList, rfl, rfl, rfl, rfl⟩
  refine ⟨{
    toCounted := h.toCounted.mark hsame hsacked.sackedOut hsacked.lostOut (hsacked.retrans _)
    disjoint := disjoint_sackCovered h.disjoint
    head := ?_
    highest := ?_ }, hsame⟩
  · intro x hx
    rw [TcpTxBuffer.afterBlock, head?_sackCovered hhead] at hx
    exact h.head x hx
  · obtain heq | ⟨x, hx, htrue, heq⟩ := hsacked.highest
    · rw [TcpTxBuffer.afterBlock, heq]
      exact h.highest.mono fun x hx htrue => mem_sackCovered_of_sacked _ _ hx htrue
    · rw [TcpTxBuffer.afterBlock, heq]
      intro node hnode
      obtain rfl := Option.some.inj hnode
      exact ⟨x, hx, rfl, htrue, rfl⟩

/-! ### Lost segments -/

/-- A segment is found lost. -/
def LosesTo (x x' : TcpTxItem) : Prop :=
  x' = x ∨ x.m_sacked = false ∧ x' = { x with m_lost := true }

theorem LosesTo.refl (items : List TcpTxItem) : List.Forall₂ LosesTo items items :=
  forall₂_same.mpr fun _ _ => .inl rfl

/-- Losing an item keeps its place and its bytes. -/
theorem parts_of_loses (h : List.Forall₂ LosesTo items items') : parts items' = parts items := by
  induction h with
  | nil => rfl
  | cons hitem _ ih =>
    rw [parts_cons, parts_cons, ih]
    obtain rfl | ⟨-, rfl⟩ := hitem <;> rfl

/-- A mark that losing does not touch is counted as before. -/
theorem follows_of_loses {flag : TcpTxItem → Bool} {x : UInt32}
    (hflag : ∀ item, flag { item with m_lost := true } = flag item)
    (h : List.Forall₂ LosesTo items items') : Follows flag items items' x x := by
  induction h with
  | nil => exact .refl ..
  | cons hitem _ ih =>
    refine Follows.cons ?_ ih
    obtain rfl | ⟨-, rfl⟩ := hitem
    · exact .refl ..
    · exact .same (hflag _) rfl

/-- A reported item is not lost. -/
theorem mem_of_loses (h : List.Forall₂ LosesTo items items') (hitem : item ∈ items)
    (hsacked : item.m_sacked = true) : item ∈ items' := by
  induction h with
  | nil => exact hitem
  | cons hone _ ih =>
    obtain rfl | hitem := mem_cons.mp hitem
    · obtain rfl | ⟨hfalse, -⟩ := hone
      · exact mem_cons_self
      · exact absurd (hfalse.symm.trans hsacked) Bool.false_ne_true
    · exact mem_cons_of_mem _ (ih hitem)

/-- Losing spares the reported items, so the two marks stay disjoint. -/
theorem disjoint_of_loses (h : List.Forall₂ LosesTo items items')
    (hdisjoint : ∀ x ∈ items, x.m_sacked = true → x.m_lost = false) :
    ∀ x ∈ items', x.m_sacked = true → x.m_lost = false := by
  induction h with
  | nil => exact hdisjoint
  | cons hone _ ih =>
    rw [forall_mem_cons] at hdisjoint ⊢
    refine ⟨fun htrue => ?_, ih hdisjoint.2⟩
    obtain rfl | ⟨hfalse, rfl⟩ := hone
    · exact hdisjoint.1 htrue
    · exact absurd (hfalse.symm.trans htrue) Bool.false_ne_true

/-- The loop over the items loses some of them and counts what it loses. -/
theorem loseItems_spec (dupAckThresh sacked lostOut : UInt32) (items : List TcpTxItem) :
    List.Forall₂ LosesTo items (loseItems dupAckThresh sacked lostOut items).2.2 ∧
      Follows m_lost items (loseItems dupAckThresh sacked lostOut items).2.2 lostOut
        (loseItems dupAckThresh sacked lostOut items).2.1 := by
  induction items generalizing sacked lostOut with
  | nil => exact ⟨.nil, .refl ..⟩
  | cons item items ih =>
    rw [loseItems]
    dsimp only
    set sacked' := if item.m_sacked then sacked + 1 else sacked
    by_cases hloses : sacked' ≥ dupAckThresh ∧ (!item.m_sacked) = true ∧ (!item.m_lost) = true
    · rw [if_pos hloses]
      obtain ⟨-, hsacked, hlost⟩ := hloses
      rw [not_eq_true'] at hsacked hlost
      obtain ⟨hitems, hfollows⟩ := ih sacked' (lostOut + item.size)
      have hset : Follows m_lost [item] [{ item with m_lost := true }] lostOut
          (if item.m_lost then lostOut else lostOut + item.size) := .set rfl rfl
      rw [hlost, if_neg Bool.false_ne_true] at hset
      exact ⟨.cons (.inr ⟨hsacked, rfl⟩) hitems, hset.cons hfollows⟩
    · rw [if_neg hloses]
      obtain ⟨hitems, hfollows⟩ := ih sacked' lostOut
      exact ⟨.cons (.inl rfl) hitems, (Follows.refl ..).cons hfollows⟩

/-- A node of the list is found. -/
theorem atNode_isSome (h : ∃ x ∈ items, x.node = node) :
    ∃ l, atNode node items = some l ∧ l.list = items := by
  obtain ⟨x, hx, hnode⟩ := h
  induction items with
  | nil => cases hx
  | cons item items ih =>
    rw [atNode]
    by_cases heq : item.node = node
    · rw [if_pos heq]
      exact ⟨_, rfl, rfl⟩
    · rw [if_neg heq]
      obtain rfl | hx := mem_cons.mp hx
      · exact absurd hnode heq
      · obtain ⟨l, hl, hlist⟩ := ih hx
        refine ⟨_, congrArg (Option.map _) hl, ?_⟩
        exact congrArg (item :: ·) hlist

/-- The segments after the first one. -/
theorem loseRest_spec (b : TcpTxBuffer) {rest : List TcpTxItem}
    (hnode : ∃ x ∈ item :: rest, x.node = node) :
    ∃ sacked lostOut rest',
      (if item.node = node then some (0, b.m_lostOut, rest)
        else (atNode node rest).map fun l =>
          let r := loseItems b.m_dupAckThresh 0 b.m_lostOut (l.before ++ [l.item]).reverse
          (r.1, r.2.1, r.2.2.reverse ++ l.after)) = some (sacked, lostOut, rest') ∧
      List.Forall₂ LosesTo rest rest' ∧ Follows m_lost rest rest' b.m_lostOut lostOut := by
  by_cases heq : item.node = node
  · rw [if_pos heq]
    exact ⟨_, _, _, rfl, LosesTo.refl rest, .refl ..⟩
  · rw [if_neg heq]
    obtain ⟨x, hx, hxnode⟩ := hnode
    obtain rfl | hx := mem_cons.mp hx
    · exact absurd hxnode heq
    obtain ⟨l, hl, hlist⟩ := atNode_isSome ⟨x, hx, hxnode⟩
    obtain ⟨hitems, hfollows⟩ := loseItems_spec b.m_dupAckThresh 0 b.m_lostOut
      (l.before ++ [l.item]).reverse
    set r := loseItems b.m_dupAckThresh 0 b.m_lostOut (l.before ++ [l.item]).reverse
    have hrest : rest = (l.before ++ [l.item]) ++ l.after := by
      rw [← hlist, Located.list, append_assoc]
      rfl
    rw [hl]
    refine ⟨_, _, _, rfl, ?_, ?_⟩
    · rw [hrest]
      refine rel_append ?_ (LosesTo.refl l.after)
      have hreverse := forall₂_reverse_iff.mpr hitems
      rwa [reverse_reverse] at hreverse
    · rw [hrest]
      have hreverse := hfollows.reverse
      rw [reverse_reverse] at hreverse
      exact hreverse.append [] l.after

/-- Updating the count of the lost bytes succeeds and keeps the invariant. -/
theorem Inv.updateLostCount (h : Inv b) (hnode : b.m_highestSack.1 = some node) :
    ∃ b', b.UpdateLostCount node = .ok b' ∧ Inv b' ∧ SameItems b b' := by
  obtain ⟨x, hx, hxnode, htrue, -⟩ := h.highest node hnode
  cases hsent : b.m_sentList with
  | nil =>
    rw [hsent] at hx
    exact absurd hx not_mem_nil
  | cons head rest =>
    rw [hsent] at hx
    obtain ⟨sacked, lostOut, rest', hrest, hitems, hfollows⟩ := loseRest_spec b ⟨x, hx, hxnode⟩
    have hhead : head.m_sacked = false := h.head head (by rw [hsent]; rfl)
    -- whatever becomes of the first one
    have hkeep : ∀ {b' : TcpTxBuffer} {head' : TcpTxItem},
        b'.m_sentList = head' :: rest' → LosesTo head head' →
        Follows m_lost [head] [head'] lostOut b'.m_lostOut →
        b'.m_appList = b.m_appList ∧ b'.m_firstByteSeq = b.m_firstByteSeq ∧
          b'.m_size = b.m_size ∧ b'.m_sentSize = b.m_sentSize ∧
          b'.m_sackedOut = b.m_sackedOut ∧ b'.m_retrans = b.m_retrans ∧
          b'.m_highestSack = b.m_highestSack →
        Inv b' ∧ SameItems b b' := by
      intro b' head' hsent' hloses hlost hother
      obtain ⟨happ, hfirst, hsize, hsentSize, hsackedOut, hretrans, hhighest⟩ := hother
      have hall : List.Forall₂ LosesTo b.m_sentList b'.m_sentList := by
        rw [hsent, hsent']
        exact .cons hloses hitems
      have hsame : SameItems b b' := ⟨parts_of_loses hall, happ, hfirst, hsize, hsentSize⟩
      refine ⟨{
        toCounted := h.toCounted.mark hsame ?_ ?_ ?_
        disjoint := disjoint_of_loses hall h.disjoint
        head := ?_
        highest := ?_ }, hsame⟩
      · rw [hsackedOut]
        exact follows_of_loses (fun _ => rfl) hall
      · rw [hsent, hsent']
        unfold Follows at hfollows hlost ⊢
        rw [← UInt32.toNat_inj] at hfollows hlost ⊢
        simp only [total_cons, total_nil, UInt32.toNat_add, toNat_ofNat'] at *
        omega
      · rw [hretrans]
        exact follows_of_loses (fun _ => rfl) hall
      · rw [hsent']
        intro y hy
        obtain rfl := Option.some.inj hy
        obtain rfl | ⟨hfalse, rfl⟩ := hloses
        · exact hhead
        · exact hfalse
      · rw [hhighest]
        exact h.highest.mono fun y hy htrue => mem_of_loses hall hy htrue
    unfold UpdateLostCount
    rw [hsent]
    dsimp only
    rw [hrest]
    dsimp only
    by_cases hloses : sacked ≥ b.m_dupAckThresh ∧ (!head.m_lost) = true
    · rw [if_pos hloses]
      have hset : Follows m_lost [head] [{ head with m_lost := true }] lostOut
          (if head.m_lost then lostOut else lostOut + head.size) := .set rfl rfl
      have hunlost : head.m_lost = false := by simpa using hloses.2
      rw [hunlost, if_neg Bool.false_ne_true] at hset
      exact ⟨_, rfl, hkeep rfl (.inr ⟨hhead, rfl⟩) hset ⟨rfl, rfl, rfl, rfl, rfl, rfl, rfl⟩⟩
    · rw [if_neg hloses]
      exact ⟨_, rfl, hkeep rfl (.inl rfl) (.refl ..) ⟨rfl, rfl, rfl, rfl, rfl, rfl, rfl⟩⟩

/-- The blocks can be taken in: none of them covers the first segment, and if one covers some then
a highest sacked one is known. A block beyond what was sent ends it if none did before. -/
def Updatable (first sentEnd : SequenceNumber32) : Bool → Bool → List TcpTxItem →
    List (SequenceNumber32 × SequenceNumber32) → Prop
  | modified, found, items, [] => items ≠ [] ∧ (modified = true → found = true)
  | modified, found, items, option :: options =>
    (lt sentEnd option.1 = true ∧ modified = false) ∨
      (items.head?.all fun x => !covered option first x) = true ∧
        Updatable first sentEnd (modified || (coverage option first items).any id)
          (found || sacksNew option first items) (sackCovered option first items) options

instance decidableUpdatable (first sentEnd : SequenceNumber32) (modified found : Bool)
    (items : List TcpTxItem) (list : List (SequenceNumber32 × SequenceNumber32)) :
    Decidable (Updatable first sentEnd modified found items list) :=
  match list with
  | [] => inferInstanceAs (Decidable (_ ∧ _))
  | option :: options =>
    have := decidableUpdatable first sentEnd (modified || (coverage option first items).any id)
      (found || sacksNew option first items) (sackCovered option first items) options
    inferInstanceAs (Decidable ((_ ∧ _) ∨ _ ∧ _))

/-- The end of an update succeeds and keeps the invariant. -/
theorem Inv.finishUpdate (h : Inv b) (hne : b.m_sentList ≠ [])
    (hfound : modified = true → b.m_highestSack.1.isSome = true) :
    ∃ b', b.finishUpdate modified = .ok (b', modified) ∧ Inv b' ∧ SameItems b b' := by
  have hlost : ∃ b', b.updateLost modified = .ok b' ∧ Inv b' ∧ SameItems b b' := by
    unfold updateLost
    cases modified with
    | false => exact ⟨b, rfl, h, .refl b⟩
    | true =>
      obtain ⟨node, hnode⟩ := Option.isSome_iff_exists.mp (hfound rfl)
      rw [if_pos rfl, hnode]
      exact h.updateLostCount hnode
  obtain ⟨b', hok, h', hsame⟩ := hlost
  have hne' : b'.m_sentList ≠ [] := by
    intro hnil
    have hparts := hsame.parts
    rw [hnil] at hparts
    exact hne (map_eq_nil_iff.mp hparts.symm)
  obtain ⟨head, rest, hsent⟩ := exists_cons_of_ne_nil hne'
  have hhead : head.m_sacked = false := h'.head head (by rw [hsent]; rfl)
  unfold TcpTxBuffer.finishUpdate
  rw [hok]
  dsimp only
  rw [hsent]
  dsimp only
  rw [if_pos ⟨by rw [hhead]; rfl, h'.toCounted.sacked_add_lost h'.disjoint⟩]
  exact ⟨b', rfl, h', hsame⟩

/-- An update from a list of blocks succeeds and keeps the invariant. -/
theorem Inv.updateFrom (h : Inv b)
    (hupdatable : Updatable b.m_firstByteSeq (b.m_firstByteSeq + b.m_sentSize) modified
      b.m_highestSack.1.isSome b.m_sentList list) :
    ∃ b' modified', b.updateFrom modified list = .ok (b', modified') ∧ Inv b' ∧
      SameItems b b' := by
  induction list generalizing b modified with
  | nil =>
    obtain ⟨b', hok, h', hsame⟩ := h.finishUpdate hupdatable.1 hupdatable.2
    exact ⟨b', modified, hok, h', hsame⟩
  | cons option options ih =>
    rw [TcpTxBuffer.updateFrom]
    by_cases hends : lt (b.m_firstByteSeq + b.m_sentSize) option.1 = true ∧ (!modified) = true
    · rw [if_pos hends]
      exact ⟨b, false, rfl, h, .refl b⟩
    · obtain ⟨hlt, hfalse⟩ | ⟨hhead, hrest⟩ := hupdatable
      · exact absurd ⟨hlt, by rw [hfalse]; rfl⟩ hends
      have hhead' : ∀ x ∈ b.m_sentList.head?, covered option b.m_firstByteSeq x = false := by
        intro x hx
        rw [show b.m_sentList.head? = some x from hx] at hhead
        simpa using hhead
      obtain ⟨sb', hok, hsacked⟩ := sackItems_spec option
        ⟨b.m_lostOut, b.m_sackedOut, b.m_highestSack, modified⟩
        (fun i x hx _ => h.disjoint x (mem_of_getElem? hx)) h.contiguous
      obtain ⟨h₁, hsame₁⟩ := h.afterBlock hhead' hsacked
      have hmodified := hsacked.modified
      have hfound := hsacked.found
      have hrest' : Updatable b.m_firstByteSeq (b.m_firstByteSeq + b.m_sentSize) sb'.modified
          sb'.m_highestSack.1.isSome (sackCovered option b.m_firstByteSeq b.m_sentList)
          options := by
        rw [hmodified, hfound]
        exact hrest
      obtain ⟨b', modified', hok', h', hsame'⟩ := ih h₁ hrest'
      rw [if_neg hends, hok]
      exact ⟨b', modified', hok', h', hsame₁.trans hsame'⟩

/-- **Reported blocks** are taken in. -/
theorem Inv.update (h : Inv b)
    (hupdatable : Updatable b.m_firstByteSeq (b.m_firstByteSeq + b.m_sentSize) false
      b.m_highestSack.1.isSome b.m_sentList list) :
    ∃ b' modified, b.Update list = .ok (b', modified) ∧ Inv b' ∧ SameItems b b' :=
  h.updateFrom hupdatable

/-! ### Acknowledgements -/

/-- Nothing is cut off the front. -/
theorem fragment_zero (item : TcpTxItem) : fragment 0 item = item := by
  have hstart : item.m_startSeq + UInt32.ofNat 0 = item.m_startSeq := add_zero _
  unfold fragment
  rw [hstart]
  rfl

/-- What is left of a list has disjoint marks. -/
theorem disjoint_remaining (hdisjoint : ∀ x ∈ items, x.m_sacked = true → x.m_lost = false) :
    ∀ x ∈ remaining n items, x.m_sacked = true → x.m_lost = false := by
  induction items generalizing n with
  | nil => exact hdisjoint
  | cons item rest ih =>
    obtain ⟨hitem, hrest⟩ := forall_mem_cons.mp hdisjoint
    rw [remaining]
    split_ifs
    · exact ih hrest
    · exact forall_mem_cons.mpr ⟨hitem, hrest⟩

/-- Where a segment is, and whether it is left. -/
theorem exists_place (hcontiguous : Contiguous start items) (hpos : ∀ x ∈ items, 0 < x.length)
    (n : ℕ) (hitem : item ∈ items) : ∃ p, item.m_startSeq = seq start p ∧
      p + item.length ≤ total length items ∧ (p = 0 → items.head? = some item) ∧
      (item ∈ remaining n items ∧ (p = n → (remaining n items).head? = some item) ∨ p < n) := by
  induction items generalizing start n with
  | nil => cases hitem
  | cons first rest ih =>
    obtain ⟨hfirst, hrest⟩ := forall_mem_cons.mp hpos
    rw [contiguous_cons] at hcontiguous
    rw [remaining]
    obtain rfl | hitem := mem_cons.mp hitem
    · refine ⟨0, hcontiguous.1.trans (seq_zero start).symm, ?_, fun _ => rfl, ?_⟩
      · rw [total_cons]
        omega
      · by_cases hn : n = 0
        · subst hn
          rw [if_neg (by omega), fragment_zero]
          exact .inl ⟨mem_cons_self, fun _ => rfl⟩
        · exact .inr (Nat.pos_of_ne_zero hn)
    · obtain ⟨p, hstart, hle, -, hleft⟩ := ih hcontiguous.2 hrest (n - first.length) hitem
      refine ⟨first.length + p, ?_, ?_, fun hzero => ?_, ?_⟩
      · rw [hstart, seq_seq]
      · rw [total_cons]
        omega
      · omega
      · split_ifs with hall
        · obtain ⟨hmem, hhead⟩ | hlt := hleft
          · exact .inl ⟨hmem, fun heq => hhead (by omega)⟩
          · exact .inr (by omega)
        · exact .inl ⟨mem_cons_of_mem _ hitem, fun heq => by omega⟩

/-- The segment that is first once the bytes up to place `k` are gone is not sacked, or the mark can
be moved to another one. -/
def Discardable (k : ℕ) (items : List TcpTxItem) : Prop :=
  ((remaining k items).head?.all fun x => !x.m_sacked) = true ∨ RenoSackable (remaining k items)

instance (k : ℕ) (items : List TcpTxItem) : Decidable (Discardable k items) :=
  inferInstanceAs (Decidable (_ ∨ _))

/-- What `DiscardUpTo` does with the segment that is then at the head. -/
theorem Counted.checkHead (h : b.Counted)
    (hdisjoint : ∀ x ∈ b.m_sentList, x.m_sacked = true → x.m_lost = false)
    (hhead : (b.m_sentList.head?.all fun x => !x.m_sacked) = true ∨ RenoSackable b.m_sentList) :
    ∃ b', b.checkHead b.m_firstByteSeq = .ok b' ∧ Sound b' ∧ SameItems b b' ∧
      (∀ x ∈ b.m_sentList.tail, x.m_sacked = true → x ∈ b'.m_sentList) ∧
      (b'.m_highestSack = b.m_highestSack ∨ ∃ x ∈ b'.m_sentList, x.m_sacked = true ∧
        b'.m_highestSack = (some x.node, x.m_startSeq)) := by
  unfold TcpTxBuffer.checkHead
  cases hsent : b.m_sentList with
  | nil =>
    refine ⟨b, rfl, ⟨h, hdisjoint, ?_⟩, .refl b, fun x hx => ?_, .inl rfl⟩
    · rw [hsent]
      intro x hx
      cases hx
    · cases hx
  | cons head rest =>
    have hcontiguous := h.contiguous
    rw [hsent, contiguous_cons] at hcontiguous
    rw [hsent, forall_mem_cons] at hdisjoint
    rw [hsent] at hhead
    dsimp only
    unfold unsackHead
    -- A head that was reported loses its mark, and another item takes it.
    cases hsacked : head.m_sacked with
    | false =>
      rw [if_neg Bool.false_ne_true]
      dsimp only
      rw [if_pos hcontiguous.1]
      refine ⟨b, rfl, ⟨h, ?_, ?_⟩, .refl b, fun x hx _ => ?_, .inl rfl⟩
      · rw [hsent, forall_mem_cons]
        exact hdisjoint
      · rw [hsent]
        intro x hx
        obtain rfl := Option.some.inj hx
        exact hsacked
      · rw [hsent]
        exact mem_cons_of_mem _ hx
    | true =>
      have hunlost := hdisjoint.1 hsacked
      rw [if_pos rfl, if_neg (by rw [hunlost]; exact Bool.false_ne_true)]
      -- the mark is taken from the head
      set e : TcpTxBuffer := { b with
        m_sentList := { head with m_sacked := false } :: rest
        m_sackedOut := b.m_sackedOut - head.size } with he
      have hclear : Follows TcpTxItem.m_sacked [head] [{ head with m_sacked := false }]
          b.m_sackedOut (if head.m_sacked then b.m_sackedOut - head.size else b.m_sackedOut) :=
        .clear rfl
      rw [hsacked, if_pos rfl] at hclear
      have hsame : SameItems b e := by
        refine ⟨?_, rfl, rfl, rfl, rfl⟩
        rw [hsent]
        rfl
      have hsound : Sound e := by
        refine ⟨h.mark hsame ?_ ?_ ?_, forall_mem_cons.mpr ⟨fun _ => hunlost, hdisjoint.2⟩,
          fun x hx => ?_⟩
        · rw [hsent]
          exact hclear.cons (.refl ..)
        · rw [hsent]
          exact Follows.cons (.same rfl rfl) (.refl ..)
        · rw [hsent]
          exact Follows.cons (.same rfl rfl) (.refl ..)
        · obtain rfl := Option.some.inj hx
          rfl
      have hsackable : RenoSackable e.m_sentList := by
        refine hhead.resolve_left fun hall => ?_
        rw [List.head?_cons, Option.all_some, hsacked] at hall
        exact absurd hall Bool.false_ne_true
      obtain ⟨e₁, hok, hsound₁, hsame₁, hkeeps₁, hhead₁, hhighest₁⟩ := hsound.addRenoSack hsackable
      obtain ⟨hsound₂, hsame₂, hhighest₂, hkeeps₂⟩ := hsound₁.markHeadAsLost
      rw [hok]
      dsimp only [Except.map]
      rw [if_pos hcontiguous.1]
      refine ⟨_, rfl, hsound₂, (hsame.trans hsame₁).trans hsame₂, fun x hx htrue => ?_, ?_⟩
      · exact hkeeps₂ x (hkeeps₁ x (mem_cons_of_mem _ hx) htrue) htrue
      · rw [hhighest₂]
        obtain heq | ⟨x, hx, htrue, heq⟩ := hhighest₁
        · exact .inl heq
        · exact .inr ⟨x, hkeeps₂ x (mem_of_mem_tail hx) htrue, htrue, heq⟩

/-- A number is at least itself. -/
theorem ge_self (s : SequenceNumber32) : ge s s = true := by
  rw [ge, beq_self_eq_true, Bool.or_true]

/-- A difference across a failed comparison lies within half the space. -/
theorem toNat_sub_bounds {a : SequenceNumber32} (hge : ge a s = false) :
    0 < (s - a).toNat ∧ (s - a).toNat ≤ 2 ^ 31 := by
  have hhalf : halfMaxValue.toNat = 2147483647 := rfl
  have hs := s.toNat_lt
  have ha := a.toNat_lt
  rw [ge, gt, Bool.or_eq_false_iff, Bool.or_eq_false_iff, and_eq_false_iff,
    and_eq_false_iff, decide_eq_false_iff_not, decide_eq_false_iff_not,
    decide_eq_false_iff_not, decide_eq_false_iff_not, beq_eq_false_iff_ne, ne_eq,
    ← UInt32.toNat_inj] at hge
  simp only [gt_iff_lt, lt_iff_toNat_lt, le_iff_toNat_le, UInt32.toNat_sub,
    hhalf] at hge ⊢
  omega

/-- Adding the difference gives the number back. -/
theorem seq_toNat_sub (s a : SequenceNumber32) : seq a (s - a).toNat = s := by
  rw [seq, UInt32.ofNat_toNat, UInt32.add_comm, UInt32.sub_add_cancel]

/-- The end of `DiscardUpTo`. -/
theorem Inv.discard_end (h : Inv b) {d : TcpTxBuffer} (hk : 0 < k) (hle : k ≤ 2 ^ 31)
    (hcounted : d.Counted) (hfirst : d.m_firstByteSeq = seq b.m_firstByteSeq k)
    (hsent : d.m_sentList = remaining k b.m_sentList)
    (hhighest : d.m_highestSack = b.m_highestSack)
    (hdiscardable : Discardable k b.m_sentList) :
    ∃ e, d.checkHead (seq b.m_firstByteSeq k) = .ok e ∧ SameItems d e ∧
      Inv (if le e.m_highestSack.2 e.m_firstByteSeq then { e with m_highestSack := (none, 0) }
        else e) := by
  have hdisjoint : ∀ x ∈ d.m_sentList, x.m_sacked = true → x.m_lost = false := by
    rw [hsent]
    exact disjoint_remaining h.disjoint
  rw [Discardable, ← hsent] at hdiscardable
  obtain ⟨e, hok, hsound, hsame, hkeeps, hhighest'⟩ := hcounted.checkHead hdisjoint hdiscardable
  rw [hfirst] at hok
  refine ⟨e, hok, hsame, ?_⟩
  by_cases hreset : le e.m_highestSack.2 e.m_firstByteSeq = true
  · rw [if_pos hreset]
    refine ⟨⟨⟨⟨hsound.contiguous, hsound.sentSize, hsound.size, hsound.bound, hsound.sentPos,
      hsound.appPos, hsound.clean⟩, hsound.sackedOut, hsound.lostOut, hsound.retrans⟩,
      hsound.disjoint, hsound.head⟩, fun node hnode => ?_⟩
    cases hnode
  · rw [if_neg hreset]
    refine ⟨hsound, fun node hnode => ?_⟩
    obtain heq | ⟨x, hx, htrue, heq⟩ := hhighest'
    · -- it is of a segment beyond the first one
      rw [heq, hhighest] at hnode hreset ⊢
      obtain ⟨x, hx, hxnode, htrue, hstart⟩ := h.highest node hnode
      obtain ⟨p, hp, hend, hzero, hleft⟩ := exists_place h.contiguous h.sentPos k hx
      have hbound := h.bound
      have hpos : p ≠ 0 := fun heq =>
        Bool.false_ne_true ((h.head x (hzero heq)).symm.trans htrue)
      have hplace : le (seq b.m_firstByteSeq p) (seq b.m_firstByteSeq k) = decide (p ≤ k) :=
        le_seq (by omega) (by omega)
      rw [hstart, hp, hsame.first, hfirst, hplace, decide_eq_true_iff] at hreset
      obtain ⟨hmem, -⟩ | hlt := hleft
      · rw [← hsent] at hmem
        refine ⟨x, hkeeps x ?_ htrue, hxnode, htrue, hstart⟩
        have hcontiguous := hcounted.contiguous
        cases hlist : d.m_sentList with
        | nil =>
          rw [hlist] at hmem
          exact absurd hmem not_mem_nil
        | cons head rest =>
          rw [hlist] at hmem hcontiguous
          obtain rfl | hmem := mem_cons.mp hmem
          · have heq := hcontiguous.1
            rw [hp, hfirst, seq_inj (by omega) (by omega)] at heq
            omega
          · exact hmem
      · omega
    · rw [heq] at hnode ⊢
      obtain rfl := Option.some.inj hnode
      exact ⟨x, hx, rfl, htrue, rfl⟩

/-- The number of bytes that an acknowledgement is for. -/
def acknowledged (seqNo : SequenceNumber32) (b : TcpTxBuffer) : ℕ :=
  if ge b.m_firstByteSeq seqNo then 0 else (seqNo - b.m_firstByteSeq).toNat

/-- Nothing is left of a list acknowledged whole. -/
theorem remaining_of_length_le (hle : total length items ≤ n) : remaining n items = [] := by
  induction items generalizing n with
  | nil => rfl
  | cons item rest ih =>
    rw [total_cons] at hle
    rw [remaining_cons_of_le (by omega)]
    exact ih (by omega)

/-- **Acknowledgements** take away the bytes that they are for. -/
theorem Inv.discardUpTo (h : Inv b) (now : ℤ)
    (hdiscardable : Discardable (b.acknowledged s) b.m_sentList) :
    ∃ b', b.DiscardUpTo now s = .ok b' ∧ Inv b' ∧
      b'.contents = b.contents.drop (b.acknowledged s) := by
  unfold DiscardUpTo acknowledged
  unfold acknowledged at hdiscardable
  by_cases hge : ge b.m_firstByteSeq s = true
  · rw [if_pos hge, if_pos hge]
    exact ⟨b, rfl, h, rfl⟩
  rw [if_neg hge] at hdiscardable ⊢
  rw [if_neg hge]
  have hfalse := eq_false_iff.mpr hge
  obtain ⟨hk, hle⟩ := toNat_sub_bounds hfalse
  have hs := seq_toNat_sub s b.m_firstByteSeq
  set k := (s - b.m_firstByteSeq).toNat with hkdef
  have hbound := h.bound
  have hlength := b.length_contents
  obtain ⟨d, hok, hd⟩ := h.toCounted.discard now (b.m_sentList.length + b.m_size.toNat)
    (s - b.m_firstByteSeq) (by
      rw [h.size, toNat_ofNat_of_lt (by omega)]
      omega)
  rw [← hkdef] at hd
  have hsize := hd.counted.size_pos_iff
  rw [hd.contents, length_drop] at hsize
  -- the place of the first byte that is left, also if a FIN is acknowledged
  obtain ⟨d', hd', hcounted, hfirst, hsent, hhighest, hcontents⟩ : ∃ d' : TcpTxBuffer,
      (if d.m_size = 0 then { d with m_firstByteSeq := s } else d) = d' ∧ d'.Counted ∧
      d'.m_firstByteSeq = seq b.m_firstByteSeq k ∧ d'.m_sentList = remaining k b.m_sentList ∧
      d'.m_highestSack = b.m_highestSack ∧ d'.contents = b.contents.drop k := by
    by_cases hzero : d.m_size = 0
    · rw [if_pos hzero]
      have hall : b.contents.length ≤ k := by
        rw [hzero] at hsize
        have hnot : ¬ 0 < b.contents.length - k := fun hpos => absurd (hsize.mpr hpos) (by decide)
        omega
      have hnil : d.m_sentList = [] := by
        rw [hd.sentList, remaining_of_length_le (by omega)]
      have hc := hd.counted
      refine ⟨_, rfl, ⟨⟨?_, hc.sentSize, hc.size, hc.bound, hc.sentPos, hc.appPos, hc.clean⟩,
        hc.sackedOut, hc.lostOut, hc.retrans⟩, hs.symm, hd.sentList, hd.setup.highestSack,
        hd.contents⟩
      dsimp only
      rw [hnil]
      trivial
    · rw [if_neg hzero]
      refine ⟨d, rfl, hd.counted, ?_, hd.sentList, hd.setup.highestSack, hd.contents⟩
      have hpos : d.m_size > 0 := UInt32.pos_iff_ne_zero.mpr hzero
      rw [hd.first, Nat.min_eq_left (by have := hsize.mp hpos; omega)]
  obtain ⟨e, hcheck, hsame, hinv⟩ := h.discard_end hk hle hcounted hfirst hsent hhighest
    hdiscardable
  rw [hok]
  dsimp only
  rw [hd']
  rw [hs] at hcheck
  rw [hcheck]
  dsimp only
  set e' := if le e.m_highestSack.2 e.m_firstByteSeq then
    { e with m_highestSack := (none, 0) } else e with he'
  have hfirst' : e'.m_firstByteSeq = s := by
    rw [← hs, ← hfirst, ← hsame.first, he']
    split_ifs <;> rfl
  have hcontents' : e'.contents = e.contents := by
    rw [he']
    split_ifs <;> rfl
  rw [if_pos ⟨by rw [hfirst']; exact ge_self s,
    hinv.toCounted.sacked_add_lost hinv.disjoint⟩]
  exact ⟨e', rfl, hinv, hcontents'.trans (hsame.contents.trans hcontents)⟩

end Ns3Joined.Internet.TcpTxBuffer
