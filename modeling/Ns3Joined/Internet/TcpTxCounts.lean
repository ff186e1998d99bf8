import Ns3Joined.Internet.TcpTxSending

/-!
# The counts of the transmit buffer

`m_sackedOut`, `m_lostOut` and `m_retrans` are the numbers of sent bytes with these flags
(`Counted`), whatever is sent, reported or acknowledged.

* `Laid.of_parts`: flags do not change where the items lie.
* `Counted.resent`, `Counted.sentFirst`: `CopyFromSequence`.
* `Counted.discard`: the loop of `DiscardUpTo`.
-/

namespace Ns3Joined.Internet.TcpTxBuffer

open SequenceNumber Tiles TcpTxItem UInt32
open UInt32 (add_comm add_sub_cancel ofNat ofNat_add ofNat_toNat toNat_sub_of_le toNat_zero)
open List hiding length

/-- The items are where they belong, and are counted. -/
structure Counted (b : TcpTxBuffer) : Prop extends Laid b where
  sackedOut : b.m_sackedOut = ofNat (total (weight TcpTxItem.m_sacked) b.m_sentList)
  lostOut : b.m_lostOut = ofNat (total (weight TcpTxItem.m_lost) b.m_sentList)
  retrans : b.m_retrans = ofNat (total (weight TcpTxItem.m_retrans) b.m_sentList)

/-- The bytes that the buffer holds. -/
def contents (b : TcpTxBuffer) : List UInt8 := bytes b.m_sentList ++ bytes b.m_appList

variable {b b' : TcpTxBuffer} {items items' : List TcpTxItem} {a : SequenceNumber32} {k n : ℕ}
  {now : ℤ} {flag : TcpTxItem → Bool}

/-- The bytes held are those of the two lists. -/
theorem length_contents (b : TcpTxBuffer) : b.contents.length =
    total length b.m_sentList + total length b.m_appList := by
  rw [contents, length_append, length_bytes, length_bytes]

/-- No more is marked than the list holds. -/
theorem weight_le (flag : TcpTxItem → Bool) (items : List TcpTxItem) :
    total (weight flag) items ≤ total length items :=
  total_le_total fun item _ => by
    unfold weight
    split_ifs
    · exact Nat.le_refl _
    · exact Nat.zero_le _

/-! ### Flags -/

/-- Where the items begin, and their packets. -/
def parts (items : List TcpTxItem) : List (SequenceNumber32 × List UInt8) :=
  items.map fun item => (item.m_startSeq, item.m_packet)

section

variable (h : parts items' = parts items)

include h

/-- Lists with equal parts are equally long. -/
theorem total_length_of_parts : total length items' = total length items := by
  have htotal (items : List TcpTxItem) :
      total length items = total (fun part => part.2.length) (parts items) := by
    rw [parts, total_map]
    rfl
  rw [htotal, htotal, h]

/-- Lists with equal parts hold the same bytes. -/
theorem bytes_of_parts : bytes items' = bytes items := by
  have hbytes (items : List TcpTxItem) : bytes items = (parts items).flatMap Prod.snd := by
    rw [parts, flatMap_map]
    rfl
  rw [hbytes, hbytes, h]

/-- Lists with equal parts have items of positive length alike. -/
theorem length_pos_of_parts (hpos : ∀ x ∈ items, 0 < x.length) : ∀ x ∈ items', 0 < x.length := by
  intro x hx
  have hmem : (x.m_startSeq, x.m_packet) ∈ parts items := by
    rw [← h]
    exact mem_map_of_mem hx
  obtain ⟨y, hy, heq⟩ := mem_map.mp hmem
  have hlength := hpos y hy
  rw [length, (Prod.mk.inj heq).2] at hlength
  exact hlength

/-- Lists with equal parts lie contiguous alike. -/
theorem contiguous_of_parts (hcontiguous : Contiguous a items) : Contiguous a items' := by
  induction items generalizing items' a with
  | nil =>
    rw [map_eq_nil_iff.mp h]
    trivial
  | cons item items ih =>
    obtain ⟨item', items', rfl, hhead, htail⟩ := map_eq_cons_iff.mp h
    obtain ⟨hstart, hpacket⟩ := Prod.mk.inj hhead
    obtain ⟨hfirst, hrest⟩ := hcontiguous
    refine ⟨hstart.trans hfirst, ih htail ?_⟩
    rw [size_eq, length, hpacket]
    exact hrest

end

/-- The flags do not matter for where the items lie. -/
theorem Laid.of_parts (h : b.Laid) (hparts : parts b'.m_sentList = parts b.m_sentList)
    (happ : b'.m_appList = b.m_appList) (hfirst : b'.m_firstByteSeq = b.m_firstByteSeq)
    (hsize : b'.m_size = b.m_size) (hsentSize : b'.m_sentSize = b.m_sentSize) : b'.Laid where
  contiguous := hfirst ▸ contiguous_of_parts hparts h.contiguous
  sentSize := by rw [hsentSize, h.sentSize, total_length_of_parts hparts]
  size := by rw [hsize, h.size, total_length_of_parts hparts, happ]
  bound := by
    rw [total_length_of_parts hparts, happ]
    exact h.bound
  sentPos := length_pos_of_parts hparts h.sentPos
  appPos := happ ▸ h.appPos
  clean := happ ▸ h.clean

/-- The contents read the parts only. -/
theorem contents_of_parts (hparts : parts b'.m_sentList = parts b.m_sentList)
    (happ : b'.m_appList = b.m_appList) : b'.contents = b.contents := by
  rw [contents, bytes_of_parts hparts, happ]
  rfl

/-! ### Sending -/

/-- An item changed in its marks keeps the parts of its list. -/
theorem Located.parts_list {l l' : Located} (hbefore : l'.before = l.before)
    (hafter : l'.after = l.after) (hstart : l'.item.m_startSeq = l.item.m_startSeq)
    (hpacket : l'.item.m_packet = l.item.m_packet) : parts l'.list = parts l.list := by
  rw [Located.list, Located.list, parts, parts, map_append, map_append, map_cons,
    map_cons, hbefore, hafter, hstart, hpacket]

/-- An item changed elsewhere keeps the total of a mark. -/
theorem Located.weight_list (l l' : Located) (hbefore : l'.before = l.before)
    (hafter : l'.after = l.after) (hitem : l'.item.weight flag = l.item.weight flag) :
    total (weight flag) l'.list = total (weight flag) l.list := by
  rw [Located.list, Located.list, total_append, total_append, total_cons, total_cons, hbefore,
    hafter, hitem]

variable {sacked lost : Bool} {retrans : UInt32} {nodes : ℕ} {l : Located}

/-- Resending keeps the counts and the contents. -/
theorem Counted.resent (h : b.Counted) (now : ℤ) (nodes : ℕ)
    (hfound : Found sacked lost b.m_retrans b.m_sentList k n retrans l) :
    (b.resent now retrans nodes l).Counted ∧
      (b.resent now retrans nodes l).contents = b.contents := by
  have hrecut := hfound.recut
  have hparts : parts (b.resent now retrans nodes l).m_sentList = parts l.list :=
    Located.parts_list rfl rfl rfl rfl
  have hlength := (total_length_of_parts hparts).trans hrecut.length_eq
  have hbound := h.bound
  refine ⟨{
    contiguous := contiguous_of_parts hparts (hrecut.contiguous h.contiguous)
    sentSize := by rw [hlength]; exact h.sentSize
    size := by rw [hlength]; exact h.size
    bound := by rw [hlength]; exact h.bound
    sentPos := length_pos_of_parts hparts (hrecut.length_pos h.sentPos)
    __ := h
    sackedOut := ?_
    lostOut := ?_
    retrans := ?_ }, ?_⟩
  · refine h.sackedOut.trans (congrArg ofNat (hrecut.sacked_eq.symm.trans ?_))
    exact Located.weight_list
      { l with item := { l.item with m_retrans := true, m_lastSent := now } }
      l rfl rfl rfl
  · refine h.lostOut.trans (congrArg ofNat (hrecut.lost_eq.symm.trans ?_))
    exact Located.weight_list
      { l with item := { l.item with m_retrans := true, m_lastSent := now } }
      l rfl rfl rfl
  · have hcount := hrecut.counted h.retrans
    simp only [TcpTxBuffer.resent, Located.list, total_append, total_cons] at hcount ⊢
    cases hitem : l.item.m_retrans with
    | true =>
      rw [if_pos rfl, hcount]
      simp [weight, hitem, length]
    | false =>
      rw [if_neg Bool.false_ne_true, hcount, size_eq, ← ofNat_add]
      simp only [weight, hitem, length, if_true, Bool.false_eq_true, if_false]
      congr 1
      omega
  · rw [contents, bytes_of_parts hparts, hrecut.bytes_eq]
    rfl

/-- Sending for the first time keeps the counts and the contents. -/
theorem Counted.sentFirst (h : b.Counted) (now : ℤ) (nodes : ℕ)
    (hfound : Found false false b.m_retrans b.m_appList 0 n b.m_retrans l) (hbefore : l.before = [])
    (hretrans : l.item.m_retrans = false) :
    (b.sentFirst now nodes l).Counted ∧
      (b.sentFirst now nodes l).contents = b.contents := by
  have hrecut := hfound.recut
  have hlist : l.list = l.item :: l.after := by
    rw [Located.list, hbefore]
    rfl
  have hbytes := hrecut.bytes_eq
  have hlength := hrecut.length_eq
  have hpos := hrecut.length_pos h.appPos
  have hclean := hrecut.forall_mem
    (P := fun x => x.m_sacked = false ∧ x.m_lost = false ∧ x.m_retrans = false)
    (fun _ _ _ hx => ⟨hx, hx⟩)
    (fun _ t1 _ _ merged hmerged hx => ⟨hmerged.sacked.trans hx.1, hmerged.lost.trans hx.2.1,
      Bool.eq_false_iff.mpr fun h => Bool.false_ne_true (hx.2.2 ▸ hmerged.retransmitted h)⟩)
    h.clean
  rw [hlist] at hbytes hlength hpos hclean
  rw [bytes_cons] at hbytes
  rw [total_cons] at hlength
  rw [forall_mem_cons] at hpos hclean
  obtain ⟨⟨hsacked, hlost, -⟩, hclean⟩ := hclean
  -- The item moves to the end of the sent list without a mark.
  have hzero (flag : TcpTxItem → Bool) (hflag : ∀ item : TcpTxItem, flag { item with
      m_startSeq := b.m_firstByteSeq + b.m_sentSize, m_lastSent := now, node := nodes } = flag item)
      (hitem : flag l.item = false) :
      total (weight flag) (b.sentFirst now nodes l).m_sentList =
        total (weight flag) b.m_sentList := by
    simp only [TcpTxBuffer.sentFirst, total_append, total_cons, total_nil, weight, hflag, hitem,
      Bool.false_eq_true, if_false, Nat.add_zero]
  have hbound := h.bound
  have happ : (b.sentFirst now nodes l).m_appList = l.after := by
    rw [TcpTxBuffer.sentFirst, hbefore]
    rfl
  have hsent : total length (b.sentFirst now nodes l).m_sentList =
      total length b.m_sentList + l.item.length := by
    rw [TcpTxBuffer.sentFirst, total_append, total_cons, total_nil]
    rfl
  refine ⟨{
    contiguous := contiguous_append.mpr ⟨h.contiguous, h.sentEnd, trivial⟩
    sentSize := by rw [hsent, ofNat_add, ← h.sentSize]; rfl
    size := by rw [hsent, happ, Nat.add_assoc, hlength]; exact h.size
    bound := by rw [hsent, happ]; omega
    sentPos := forall_mem_append.mpr ⟨h.sentPos, forall_mem_singleton.mpr hpos.1⟩
    appPos := by rw [happ]; exact hpos.2
    clean := by rw [happ]; exact hclean
    sackedOut := by rw [hzero _ (fun _ => rfl) hsacked]; exact h.sackedOut
    lostOut := by rw [hzero _ (fun _ => rfl) hlost]; exact h.lostOut
    retrans := by rw [hzero _ (fun _ => rfl) hretrans]; exact h.retrans }, ?_⟩
  rw [contents, contents, happ, ← hbytes, ← append_assoc]
  refine congrArg (· ++ bytes l.after) ?_
  rw [TcpTxBuffer.sentFirst, bytes_append, bytes_cons]
  exact congrArg (bytes b.m_sentList ++ ·) (append_nil _)

/-! ### Acknowledging -/

/-- The item without its first `n` bytes. -/
def fragment (n : ℕ) (item : TcpTxItem) : TcpTxItem :=
  { item with
    m_packet := item.m_packet.drop n
    m_startSeq := item.m_startSeq + ofNat n }

/-- The items without their first `n` bytes. -/
def remaining : ℕ → List TcpTxItem → List TcpTxItem
  | _, [] => []
  | n, item :: rest =>
    if item.length ≤ n then remaining (n - item.length) rest else fragment n item :: rest

theorem length_fragment (n : ℕ) (item : TcpTxItem) :
    (fragment n item).length = item.length - n := length_drop

/-- Acknowledging nothing leaves the list. -/
theorem remaining_zero (hpos : ∀ x ∈ items, 0 < x.length) : remaining 0 items = items := by
  cases items with
  | nil => rfl
  | cons item rest =>
    have hitem := hpos item mem_cons_self
    rw [remaining, if_neg (by omega)]
    exact congrArg (fun start => { item with m_startSeq := start } :: rest)
      (add_zero item.m_startSeq)

/-- What is left holds the bytes behind those acknowledged. -/
theorem bytes_remaining (n : ℕ) (items : List TcpTxItem) :
    bytes (remaining n items) = (bytes items).drop n := by
  induction items generalizing n with
  | nil => exact (drop_nil).symm
  | cons item rest ih =>
    rw [remaining, bytes_cons, drop_append, ← length]
    split_ifs with hle
    · rw [ih, drop_eq_nil_of_le hle]
      rfl
    · rw [bytes_cons, Nat.sub_eq_zero_of_le (Nat.le_of_not_le hle)]
      rfl

/-- What is left is shorter by what was acknowledged. -/
theorem length_remaining (n : ℕ) (items : List TcpTxItem) :
    total length (remaining n items) = total length items - n := by
  rw [← length_bytes, bytes_remaining, length_drop, length_bytes]

/-- What is left has items of positive length. -/
theorem remaining_pos (n : ℕ) (hpos : ∀ x ∈ items, 0 < x.length) :
    ∀ x ∈ remaining n items, 0 < x.length := by
  induction items generalizing n with
  | nil => exact hpos
  | cons item rest ih =>
    obtain ⟨hitem, hrest⟩ := forall_mem_cons.mp hpos
    rw [remaining]
    split_ifs with hle
    · exact ih _ hrest
    · refine forall_mem_cons.mpr ⟨?_, hrest⟩
      rw [length_fragment]
      exact Nat.sub_pos_of_lt (Nat.lt_of_not_le hle)

/-- What is left lies contiguous behind what was acknowledged. -/
theorem contiguous_remaining (hcontiguous : Contiguous a items) (hn : n ≤ total length items) :
    Contiguous (seq a n) (remaining n items) := by
  induction items generalizing n a with
  | nil => trivial
  | cons item rest ih =>
    rw [contiguous_cons] at hcontiguous
    rw [total_cons] at hn
    rw [remaining]
    split_ifs with hle
    · have hseq : seq a n = seq (seq a item.length) (n - item.length) := by
        rw [seq_seq, Nat.add_sub_cancel' hle]
      rw [hseq]
      exact ih hcontiguous.2 (by omega)
    · refine contiguous_cons.mpr ⟨congrArg (· + ofNat n) hcontiguous.1, ?_⟩
      rw [length_fragment, seq_seq, Nat.add_sub_cancel' (Nat.le_of_not_le hle)]
      exact hcontiguous.2

variable {item : TcpTxItem} {rest : List TcpTxItem}

/-- What `RemoveFromCounts` takes from a count. -/
theorem weight_remaining_head (flag : TcpTxItem → Bool) (hrest : ∀ x ∈ rest, 0 < x.length)
    (hle : n ≤ item.length) (hflag : flag (fragment n item) = flag item) :
    (if flag item then n else 0) + total (weight flag) (remaining n (item :: rest)) =
      total (weight flag) (item :: rest) := by
  rw [remaining, total_cons]
  by_cases hall : item.length ≤ n
  · rw [if_pos hall, ← Nat.le_antisymm hall hle, Nat.sub_self, remaining_zero hrest]
    rfl
  · rw [if_neg hall, total_cons, weight, weight, hflag, length_fragment, ← Nat.add_assoc]
    split_ifs <;> omega

/-- What sending and acknowledging leave as it is. -/
structure SameSetup (b b' : TcpTxBuffer) : Prop where
  maxBuffer : b'.m_maxBuffer = b.m_maxBuffer
  dupAckThresh : b'.m_dupAckThresh = b.m_dupAckThresh
  highestSack : b'.m_highestSack = b.m_highestSack

/-- `RemoveFromCounts`, for one of the counts. -/
theorem count_remaining {count : UInt32}
    (hcount : count = ofNat (total (weight flag) (item :: rest)))
    (hbound : total length (item :: rest) < 2 ^ 31) (hrest : ∀ x ∈ rest, 0 < x.length)
    (hle : n ≤ item.length) (hflag : flag (fragment n item) = flag item) :
    (flag item = true → count ≥ ofNat n) ∧
      (if flag item then count - ofNat n else count) =
        ofNat (total (weight flag) (remaining n (item :: rest))) := by
  have hweight := weight_remaining_head flag hrest hle hflag
  have hwhole := weight_le flag (item :: rest)
  split_ifs at hweight ⊢ with hset
  · refine ⟨fun _ => ?_, ?_⟩
    · rw [ge_iff_le, le_iff_toNat_le, hcount, toNat_ofNat_of_lt (by omega),
        toNat_ofNat_of_lt (by omega)]
      omega
    · rw [hcount, ← hweight, ofNat_add, add_comm, add_sub_cancel]
  · rw [Nat.zero_add] at hweight
    exact ⟨fun h => absurd h hset, by rw [hcount, hweight]⟩

/-- A segment at the head, or its first bytes, are removed. -/
theorem Counted.removeHead (h : b.Counted) (item' : TcpTxItem) (hsent : b.m_sentList = item :: rest)
    (hle : n ≤ item.length) (hsacked : item'.m_sacked = item.m_sacked)
    (hlost : item'.m_lost = item.m_lost) (hretrans : item'.m_retrans = item.m_retrans) :
    ∃ b', (b.discardBytes (ofNat n) (remaining n b.m_sentList)).RemoveFromCounts item'
        (ofNat n) = .ok b' ∧ b'.Counted ∧ b'.contents = b.contents.drop n ∧
      b'.m_firstByteSeq = seq b.m_firstByteSeq n ∧ b'.m_sentList = remaining n b.m_sentList ∧
      b'.m_appList = b.m_appList ∧ SameSetup b b' := by
  have hbound := h.bound
  have hpos := h.sentPos
  have hlength := length_remaining n b.m_sentList
  have hn : n ≤ total length b.m_sentList := by
    rw [hsent, total_cons]
    omega
  have hcontiguous := contiguous_remaining h.contiguous hn
  have hpos' := remaining_pos n h.sentPos
  have hcontents : bytes (remaining n b.m_sentList) ++ bytes b.m_appList =
      b.contents.drop n := by
    rw [contents, bytes_remaining, drop_append, length_bytes,
      Nat.sub_eq_zero_of_le hn, drop_zero]
  have hbound' : total length (item :: rest) < 2 ^ 31 := by
    rw [← hsent]
    omega
  have hrest : ∀ x ∈ rest, 0 < x.length := by
    rw [hsent] at hpos
    exact (forall_mem_cons.mp hpos).2
  -- Each counter loses what the head carried of its mark.
  obtain ⟨hsacked₁, hsacked₂⟩ := count_remaining (hsent ▸ h.sackedOut) hbound' hrest hle rfl
  obtain ⟨hlost₁, hlost₂⟩ := count_remaining (hsent ▸ h.lostOut) hbound' hrest hle rfl
  obtain ⟨hretrans₁, hretrans₂⟩ := count_remaining (hsent ▸ h.retrans) hbound' hrest hle rfl
  rw [← hsent, ← hsacked] at hsacked₂
  rw [← hsent, ← hlost] at hlost₂
  rw [← hsent, ← hretrans] at hretrans₂
  unfold RemoveFromCounts
  rw [hsacked, hlost, hretrans] at *
  refine ⟨_, if_pos ⟨hsacked₁, hretrans₁, hlost₁⟩, {
    contiguous := hcontiguous
    sentSize := ?_
    size := ?_
    bound := ?_
    sentPos := hpos'
    __ := h
    sackedOut := hsacked₂
    lostOut := hlost₂
    retrans := hretrans₂ }, hcontents, rfl, rfl, rfl, ⟨rfl, rfl, rfl⟩⟩
  · change b.m_sentSize - ofNat n = ofNat (total length (remaining n b.m_sentList))
    rw [hlength, ofNat_sub hn, h.sentSize]
  · change b.m_size - ofNat n = ofNat (total length (remaining n b.m_sentList) +
      total length b.m_appList)
    rw [hlength, ← Nat.sub_add_comm hn, ofNat_sub (by omega), h.size]
  · change total length (remaining n b.m_sentList) + total length b.m_appList < 2 ^ 31
    omega

theorem SameSetup.trans {b'' : TcpTxBuffer} (h : SameSetup b b') (h' : SameSetup b' b'') :
    SameSetup b b'' :=
  ⟨h'.maxBuffer.trans h.maxBuffer, h'.dupAckThresh.trans h.dupAckThresh,
    h'.highestSack.trans h.highestSack⟩

/-- The first segment to be acknowledged is in `m_sentList`, then. -/
theorem Counted.refill (h : b.Counted) (now : ℤ) (offset : UInt32) (hoffset : 0 < offset.toNat)
    (hpos : 0 < b.contents.length) :
    ∃ b', b.refill now offset = .ok b' ∧ b'.Counted ∧ b'.contents = b.contents ∧
      b'.m_firstByteSeq = b.m_firstByteSeq ∧ SameSetup b b' ∧
      (b.m_sentList = [] ∧ (∃ item, b'.m_sentList = [item] ∧
          item.length = min offset.toNat b.contents.length) ∨
        b.m_sentList ≠ [] ∧ b' = b) := by
  unfold TcpTxBuffer.refill
  by_cases hnil : b.m_sentList = []
  · have hlength := b.length_contents
    rw [hnil, total_nil, Nat.zero_add] at hlength
    obtain ⟨nodes, l, hok, hfound, hbefore, hretrans⟩ := h.copyFromSequence_new now 1
      (by omega : 0 < min offset.toNat (total length b.m_appList)) (Nat.min_le_right ..) rfl
    rw [hnil, total_nil, seq_zero] at hok
    obtain ⟨hcounted, hcontents⟩ := h.sentFirst now nodes hfound hbefore hretrans
    rw [if_pos hnil, CopyFromSequence, hok]
    refine ⟨b.sentFirst now nodes l, rfl, hcounted, hcontents, rfl, ⟨rfl, rfl, rfl⟩,
      Or.inl ⟨hnil, { l.item with
        m_startSeq := b.m_firstByteSeq + b.m_sentSize
        m_lastSent := now
        node := nodes }, ?_, ?_⟩⟩
    · rw [TcpTxBuffer.sentFirst, hnil]
      rfl
    · rw [hlength]
      exact hfound.length
  · rw [if_neg hnil]
    exact ⟨b, rfl, h, rfl, rfl, ⟨rfl, rfl, rfl⟩, Or.inr ⟨hnil, rfl⟩⟩

/-- The size is positive if and only if bytes are held. -/
theorem Laid.size_pos_iff (h : b.Laid) : b.m_size > 0 ↔ 0 < b.contents.length := by
  have hbound := h.bound
  rw [length_contents, gt_iff_lt, lt_iff_toNat_lt, h.size, toNat_ofNat_of_lt (by omega)]
  rfl

/-- When nothing is to be acknowledged nothing changes. -/
theorem Laid.nothing_left (h : b.Laid) (hstop : min n b.contents.length = 0) :
    b.contents.drop n = b.contents ∧ remaining n b.m_sentList = b.m_sentList := by
  by_cases hn : n = 0
  · subst hn
    exact ⟨drop_zero, remaining_zero h.sentPos⟩
  · have hlength := b.length_contents
    have hsent : b.m_sentList = [] := eq_nil_of_total h.sentPos (by omega)
    have hcontents : b.contents = [] := eq_nil_of_length_eq_zero (by omega)
    rw [hcontents, hsent]
    exact ⟨drop_nil, rfl⟩

/-- The loop goes on as long as something is to be acknowledged. -/
theorem Laid.go_iff (h : b.Laid) {offset : UInt32} :
    (b.m_size > 0 ∧ offset > 0) ↔ min offset.toNat b.contents.length ≠ 0 := by
  rw [h.size_pos_iff, gt_iff_lt, lt_iff_toNat_lt, toNat_zero]
  omega

/-- What the loop of `DiscardUpTo` comes to. -/
structure Discarded (b : TcpTxBuffer) (n : ℕ) (b' : TcpTxBuffer) : Prop where
  counted : b'.Counted
  contents : b'.contents = b.contents.drop n
  first : b'.m_firstByteSeq = seq b.m_firstByteSeq (min n b.contents.length)
  sentList : b'.m_sentList = remaining n b.m_sentList
  setup : SameSetup b b'

/-- Acknowledging nothing discards nothing. -/
theorem Counted.discarded (h : b.Counted) (hstop : min n b.contents.length = 0) :
    Discarded b n b where
  counted := h
  contents := (h.nothing_left hstop).1.symm
  first := by rw [hstop, seq_zero]
  sentList := (h.nothing_left hstop).2.symm
  setup := ⟨rfl, rfl, rfl⟩

theorem remaining_cons_of_le (hle : item.length ≤ n) (rest : List TcpTxItem) :
    remaining n (item :: rest) = remaining (n - item.length) rest := if_pos hle

/-- A round of the loop, with a segment in `m_sentList`. -/
theorem Counted.discard_round (h : b.Counted) (now : ℤ) {rounds : ℕ} (offset : UInt32)
    (hsent : b.m_sentList = item :: rest)
    (hrest : ∀ {b' : TcpTxBuffer}, b'.Counted → b'.m_sentList = rest →
      b'.contents = b.contents.drop item.length →
      (offset - item.size).toNat = offset.toNat - item.length →
      ∃ b'', TcpTxBuffer.discard now rounds (offset - item.size) b' = .ok b'' ∧
        Discarded b' (offset - item.size).toNat b'') :
    ∃ b', (if item.m_startSeq = b.m_firstByteSeq then
        if offset ≥ item.size then
          match (b.discardBytes item.size rest).RemoveFromCounts item item.size with
          | .error e => .error e
          | .ok b => TcpTxBuffer.discard now rounds (offset - item.size) b
        else
          let item' := { item with
            m_packet := item.m_packet.drop offset.toNat
            m_startSeq := item.m_startSeq + offset }
          (b.discardBytes offset (item' :: rest)).RemoveFromCounts item' offset
      else .error .abort) = .ok b' ∧ Discarded b offset.toNat b' := by
  have hbound := h.bound
  have hpos := h.sentPos
  have hcontiguous := h.contiguous
  have hlength := b.length_contents
  rw [hsent] at hpos hcontiguous
  rw [hsent, total_cons] at hbound hlength
  obtain ⟨-, hpos⟩ := forall_mem_cons.mp hpos
  have hsize : item.size.toNat = item.length :=
    toNat_ofNat_of_lt (by omega : item.length < 2 ^ 31)
  rw [if_pos hcontiguous.1]
  by_cases hle : item.length ≤ offset.toNat
  · -- the whole segment
    have hall := h.removeHead item hsent (Nat.le_refl item.length) rfl rfl rfl
    rw [hsent, remaining_cons_of_le (Nat.le_refl _), Nat.sub_self, remaining_zero hpos] at hall
    obtain ⟨b₁, hok, hcounted, hcontents, hfirst, hsent₁, happ, hsetup⟩ := hall
    have hle' := le_iff_toNat_le.mpr (hsize.trans_le hle)
    have hoffset : (offset - item.size).toNat = offset.toNat - item.length := by
      rw [toNat_sub_of_le _ _ hle', hsize]
    obtain ⟨b', hok', hdiscarded⟩ := hrest hcounted hsent₁ hcontents hoffset
    rw [hoffset] at hdiscarded
    rw [if_pos hle', size_eq, hok]
    refine ⟨b', hok', hdiscarded.counted, ?_, ?_, ?_, hsetup.trans hdiscarded.setup⟩
    · rw [hdiscarded.contents, hcontents, drop_drop, Nat.add_sub_cancel' hle]
    · rw [hdiscarded.first, hfirst, hcontents, seq_seq, length_drop]
      congr 1
      omega
    · rw [hdiscarded.sentList, hsent₁, hsent, remaining_cons_of_le hle]
  · -- its first bytes
    have hpart := h.removeHead (fragment offset.toNat item) hsent (Nat.le_of_not_le hle) rfl rfl rfl
    rw [hsent, remaining, if_neg hle] at hpart
    obtain ⟨b', hok, hcounted, hcontents, hfirst, hsent', happ, hsetup⟩ := hpart
    rw [if_neg fun hge => hle (hsize.symm.trans_le (le_iff_toNat_le.mp hge))]
    unfold fragment at hok
    rw [ofNat_toNat] at hok
    refine ⟨b', hok, hcounted, hcontents, ?_, ?_, hsetup⟩
    · rw [hfirst, Nat.min_eq_left (by omega)]
    · rw [hsent', hsent, remaining, if_neg hle]

/-- The loop takes away the bytes that are acknowledged, as far as there are bytes. -/
theorem Counted.discard (h : b.Counted) (now : ℤ) (rounds : ℕ) (offset : UInt32)
    (hrounds : min offset.toNat b.contents.length = 0 ∨ b.m_sentList.length < rounds) :
    ∃ b', discard now rounds offset b = .ok b' ∧ Discarded b offset.toNat b' := by
  induction rounds generalizing b offset with
  | zero =>
    have hstop := hrounds.resolve_right (Nat.not_lt_zero _)
    rw [TcpTxBuffer.discard, if_neg fun hgo => h.go_iff.mp hgo hstop]
    exact ⟨b, rfl, h.discarded hstop⟩
  | succ rounds ih =>
    rw [TcpTxBuffer.discard]
    by_cases hgo : b.m_size > 0 ∧ offset > 0
    · rw [if_pos hgo]
      have hmin := h.go_iff.mp hgo
      obtain ⟨b₁, hrefill, h₁, hcontents, hfirst, hsetup, hsent⟩ :=
        h.refill now offset (by omega) (by omega)
      rw [hrefill]
      dsimp only
      have hback : ∀ {b'}, Discarded b₁ offset.toNat b' →
          remaining offset.toNat b₁.m_sentList = remaining offset.toNat b.m_sentList →
          Discarded b offset.toNat b' := fun hd hsent => {
        counted := hd.counted
        contents := hd.contents.trans (by rw [hcontents])
        first := hd.first.trans (by rw [hcontents, hfirst])
        sentList := hd.sentList.trans hsent
        setup := hsetup.trans hd.setup }
      have hlength := b₁.length_contents
      obtain ⟨hnil, item, hitem, hall⟩ | ⟨hne, rfl⟩ := hsent
      · -- all that is to go was sent at once
        rw [hitem]
        obtain ⟨b', hok, hd⟩ := h₁.discard_round now offset hitem
          fun hb' hsent' hcontents' hoffset => ih hb' _ (Or.inl (by
            rw [hoffset, hcontents', hcontents, length_drop]
            omega))
        refine ⟨b', hok, hback hd ?_⟩
        rw [hitem, hnil, remaining_cons_of_le (by omega)]
        rfl
      · obtain ⟨item, rest, hitem⟩ := exists_cons_of_ne_nil hne
        have hfuel := hrounds.resolve_left hmin
        rw [hitem, length_cons] at hfuel
        rw [hitem]
        obtain ⟨b', hok, hd⟩ := h₁.discard_round now offset hitem
          fun hb' hsent' hcontents' hoffset => ih hb' _ (Or.inr (by
            rw [hsent']
            omega))
        exact ⟨b', hok, hback hd rfl⟩
    · rw [if_neg hgo]
      have hstop : min offset.toNat b.contents.length = 0 := by
        by_contra hne
        exact hgo (h.go_iff.mpr hne)
      exact ⟨b, rfl, h.discarded hstop⟩

end Ns3Joined.Internet.TcpTxBuffer
