import Ns3Joined.Internet.TcpTxCounts

/-!
# Marking the segments of the transmit buffer

The operations that change nothing but what is known of the segments: blocks that the receiver
reports, the guesses that Reno makes, and losses.

* `Follows`: a count that is changed as the flags of some items are.
* `Inv`: the counts are right, no item is both sacked and lost, and the first one is not sacked.
* `Inv.mark`: what has to be shown of such an operation.
* `sackItems_spec`, `loseItems_spec`: the loops of `Update` and `UpdateLostCount`.
* `Inv.update`: `Update` does what it is for, if it is not told of the first segment.
-/

namespace Ns3Joined.Internet.TcpTxBuffer

open SequenceNumber Tiles TcpTxItem UInt32
open TcpTxItem (m_lost m_sacked)
open UInt32 (add_sub_cancel ofNat ofNat_add toNat_add toNat_inj toNat_ofNat')
open List hiding length

variable {b b' : TcpTxBuffer} {items items' before after : List TcpTxItem} {item item' : TcpTxItem}
  {a start : SequenceNumber32} {x x' x'' : UInt32} {flag : TcpTxItem → Bool}

/-! ### Counts -/

/-- The count changes as the number of bytes with the flag does. -/
def Follows (flag : TcpTxItem → Bool) (items items' : List TcpTxItem) (x x' : UInt32) : Prop :=
  x' + ofNat (total (weight flag) items) = x + ofNat (total (weight flag) items')

namespace Follows

theorem refl (flag : TcpTxItem → Bool) (items : List TcpTxItem) (x : UInt32) :
    Follows flag items items x x := rfl

/-- Changes to the first item and to the rest are counted one after the other. -/
theorem cons {rest rest' : List TcpTxItem} (h : Follows flag [item] [item'] x x')
    (h' : Follows flag rest rest' x' x'') :
    Follows flag (item :: rest) (item' :: rest') x x'' := by
  rw [Follows, ← toNat_inj] at *
  simp only [total_cons, total_nil, toNat_add, toNat_ofNat'] at *
  omega

/-- A change in the middle is counted as the change itself. -/
theorem append (h : Follows flag items items' x x') (before after : List TcpTxItem) :
    Follows flag (before ++ items ++ after) (before ++ items' ++ after) x x' := by
  rw [Follows, ← toNat_inj] at *
  simp only [total_append, toNat_add, toNat_ofNat'] at *
  omega

/-- The order of the list does not matter to the count. -/
theorem reverse (h : Follows flag items items' x x') :
    Follows flag items.reverse items'.reverse x x' := by
  unfold Follows at *
  rwa [total_reverse, total_reverse]

/-- Where the counter was the total it is again. -/
theorem eq (h : Follows flag items items' x x')
    (hx : x = ofNat (total (weight flag) items)) :
    x' = ofNat (total (weight flag) items') := by
  rw [Follows, hx, add_comm] at h
  exact (add_right_inj _).mp h

/-- An item with the same mark and length counts the same. -/
theorem same (hflag : flag item' = flag item) (hpacket : item'.m_packet = item.m_packet) :
    Follows flag [item] [item'] x x := by
  simp only [Follows, total_cons, total_nil, weight, length, hflag, hpacket]

/-- Clearing a mark subtracts the item if it was marked. -/
theorem clear (hflag : flag item' = false) :
    Follows flag [item] [item'] x (if flag item then x - item.size else x) := by
  simp only [Follows, total_cons, total_nil, weight, hflag, size_eq]
  cases flag item
  · rfl
  · simp

/-- Setting a mark adds the item if it was not marked. -/
theorem set (hflag : flag item' = true) (hpacket : item'.m_packet = item.m_packet) :
    Follows flag [item] [item'] x (if flag item then x else x + item.size) := by
  simp only [Follows, total_cons, total_nil, weight, hflag, size_eq, length, hpacket]
  cases flag item <;> simp

end Follows

/-! ### The invariant -/

/-- What is known of the segments is counted, and it makes sense. -/
structure Sound (b : TcpTxBuffer) : Prop extends Counted b where
  disjoint : ∀ x ∈ b.m_sentList, x.m_sacked = true → x.m_lost = false
  head : ∀ x ∈ b.m_sentList.head?, x.m_sacked = false

/-- `m_highestSack` is at a sacked segment. -/
def AtSacked (items : List TcpTxItem) (highestSack : Option ℕ × SequenceNumber32) : Prop :=
  ∀ node ∈ highestSack.1, ∃ x ∈ items, x.node = node ∧ x.m_sacked = true ∧
    highestSack.2 = x.m_startSeq

structure Inv (b : TcpTxBuffer) : Prop extends Sound b where
  highest : AtSacked b.m_sentList b.m_highestSack

/-- The highest report stays where the reported items stay. -/
theorem AtSacked.mono {highestSack : Option ℕ × SequenceNumber32} (h : AtSacked items highestSack)
    (hkeeps : ∀ x ∈ items, x.m_sacked = true → x ∈ items') : AtSacked items' highestSack := by
  intro node hnode
  obtain ⟨x, hx, hnode, hsacked, hstart⟩ := h node hnode
  exact ⟨x, hkeeps x hx hsacked, hnode, hsacked, hstart⟩

/-- What an operation has to leave as it is. -/
structure SameItems (b b' : TcpTxBuffer) : Prop where
  parts : parts b'.m_sentList = parts b.m_sentList
  appList : b'.m_appList = b.m_appList
  first : b'.m_firstByteSeq = b.m_firstByteSeq
  size : b'.m_size = b.m_size
  sentSize : b'.m_sentSize = b.m_sentSize

/-- Items with the same parts have the same contents. -/
theorem SameItems.contents (h : SameItems b b') : b'.contents = b.contents :=
  contents_of_parts h.parts h.appList

theorem SameItems.trans {b'' : TcpTxBuffer} (h : SameItems b b') (h' : SameItems b' b'') :
    SameItems b b'' :=
  ⟨h'.parts.trans h.parts, h'.appList.trans h.appList, h'.first.trans h.first,
    h'.size.trans h.size, h'.sentSize.trans h.sentSize⟩

/-- The flags are changed, and the counts with them. -/
theorem Counted.mark (h : b.Counted) (hsame : SameItems b b')
    (hsacked : Follows m_sacked b.m_sentList b'.m_sentList b.m_sackedOut b'.m_sackedOut)
    (hlost : Follows m_lost b.m_sentList b'.m_sentList b.m_lostOut b'.m_lostOut)
    (hretrans : Follows TcpTxItem.m_retrans b.m_sentList b'.m_sentList b.m_retrans b'.m_retrans) :
    b'.Counted where
  toLaid := h.toLaid.of_parts hsame.parts hsame.appList hsame.first hsame.size hsame.sentSize
  sackedOut := hsacked.eq h.sackedOut
  lostOut := hlost.eq h.lostOut
  retrans := hretrans.eq h.retrans

/-- No byte is both sacked and lost. -/
theorem sacked_add_lost_le (hdisjoint : ∀ x ∈ items, x.m_sacked = true → x.m_lost = false) :
    total (weight m_sacked) items + total (weight m_lost) items ≤
      total length items := by
  rw [← total_add]
  refine total_le_total fun x hx => ?_
  unfold weight
  cases hsacked : x.m_sacked with
  | false =>
    rw [if_neg Bool.false_ne_true, Nat.zero_add]
    split_ifs <;> omega
  | true =>
    rw [hdisjoint x hx hsacked]
    exact Nat.le_refl _

/-- What is reported and what is lost together do not exceed what is sent. -/
theorem Counted.sacked_add_lost (h : b.Counted)
    (hdisjoint : ∀ x ∈ b.m_sentList, x.m_sacked = true → x.m_lost = false) :
    b.m_sentSize ≥ b.m_sackedOut + b.m_lostOut := by
  have hbound := h.bound
  have hle := sacked_add_lost_le hdisjoint
  rw [h.sackedOut, h.lostOut, h.sentSize, ← ofNat_add, ge_iff_le, le_iff_toNat_le,
    toNat_ofNat_of_lt (by omega), toNat_ofNat_of_lt (by omega)]
  exact hle

/-! ### The first segment -/

theorem parts_cons (item : TcpTxItem) (items : List TcpTxItem) :
    parts (item :: items) = (item.m_startSeq, item.m_packet) :: parts items := rfl

/-- Only the first segment is marked, and it is not sacked. -/
theorem Sound.markHead {head : TcpTxItem} {rest : List TcpTxItem} (h : Sound b)
    (b' : TcpTxBuffer) (head' : TcpTxItem) (hsent : b.m_sentList = head :: rest)
    (hsent' : b'.m_sentList = head' :: rest)
    (hitem : head'.m_startSeq = head.m_startSeq ∧ head'.m_packet = head.m_packet)
    (hsacked : head'.m_sacked = false)
    (hother : b'.m_appList = b.m_appList ∧ b'.m_firstByteSeq = b.m_firstByteSeq ∧
      b'.m_size = b.m_size ∧ b'.m_sentSize = b.m_sentSize)
    (hsackedOut : b'.m_sackedOut = b.m_sackedOut)
    (hlost : Follows m_lost [head] [head'] b.m_lostOut b'.m_lostOut)
    (hretrans : Follows TcpTxItem.m_retrans [head] [head'] b.m_retrans b'.m_retrans) :
    Sound b' ∧ SameItems b b' ∧ ∀ x ∈ b.m_sentList, x.m_sacked = true → x ∈ b'.m_sentList := by
  have hsame : SameItems b b' := by
    refine ⟨?_, hother.1, hother.2.1, hother.2.2.1, hother.2.2.2⟩
    rw [hsent, hsent', parts_cons, parts_cons, hitem.1, hitem.2]
  have hunsacked : head.m_sacked = false := h.head head (by rw [hsent]; rfl)
  have hdisjoint := h.disjoint
  rw [hsent, forall_mem_cons] at hdisjoint
  refine ⟨{ toCounted := h.toCounted.mark hsame ?_ ?_ ?_, disjoint := ?_, head := ?_ }, hsame, ?_⟩
  · rw [hsent, hsent', hsackedOut]
    exact (Follows.same (hsacked.trans hunsacked.symm) hitem.2).cons (.refl ..)
  · rw [hsent, hsent']
    exact hlost.cons (.refl ..)
  · rw [hsent, hsent']
    exact hretrans.cons (.refl ..)
  · rw [hsent', forall_mem_cons]
    exact ⟨fun htrue => absurd (hsacked.symm.trans htrue) Bool.false_ne_true, hdisjoint.2⟩
  · rw [hsent']
    rintro x hx
    obtain rfl := Option.some.inj hx
    exact hsacked
  · rw [hsent, hsent']
    intro x hx htrue
    obtain rfl | hx := mem_cons.mp hx
    · exact absurd (hunsacked.symm.trans htrue) Bool.false_ne_true
    · exact mem_cons_of_mem _ hx

theorem SameItems.refl (b : TcpTxBuffer) : SameItems b b := ⟨rfl, rfl, rfl, rfl, rfl⟩

/-- Marking the first item lost keeps the counts and the report. -/
theorem Sound.markHeadAsLost (h : Sound b) : Sound b.MarkHeadAsLost ∧
    SameItems b b.MarkHeadAsLost ∧ b.MarkHeadAsLost.m_highestSack = b.m_highestSack ∧
    ∀ x ∈ b.m_sentList, x.m_sacked = true → x ∈ b.MarkHeadAsLost.m_sentList := by
  by_cases hnil : b.m_sentList = []
  · have heq : b.MarkHeadAsLost = b := by
      unfold MarkHeadAsLost
      rw [hnil]
    rw [heq]
    exact ⟨h, .refl b, rfl, fun x hx _ => hx⟩
  · obtain ⟨head, rest, hsent⟩ := exists_cons_of_ne_nil hnil
    have hunsacked : head.m_sacked = false := h.head head (by rw [hsent]; rfl)
    have heq : b.MarkHeadAsLost = { b with
        m_sentList := { head with m_sacked := false, m_retrans := false, m_lost := true } :: rest
        m_retrans := if head.m_retrans then b.m_retrans - head.size else b.m_retrans
        m_lostOut := if head.m_lost then b.m_lostOut else b.m_lostOut + head.size } := by
      unfold MarkHeadAsLost
      rw [hsent]
      dsimp only
      rw [hunsacked, if_neg Bool.false_ne_true]
    obtain ⟨hsound, hsame, hkeeps⟩ := h.markHead b.MarkHeadAsLost
      { head with m_sacked := false, m_retrans := false, m_lost := true } hsent (by rw [heq])
      ⟨rfl, rfl⟩ rfl (by rw [heq]; exact ⟨rfl, rfl, rfl, rfl⟩) (by rw [heq])
      (by rw [heq]; exact Follows.set rfl rfl) (by rw [heq]; exact Follows.clear rfl)
    exact ⟨hsound, hsame, by rw [heq], hkeeps⟩

/-- Marking the first item lost keeps the invariant. -/
theorem Inv.markHeadAsLost (h : Inv b) : Inv b.MarkHeadAsLost ∧ SameItems b b.MarkHeadAsLost := by
  obtain ⟨hsound, hsame, hhighest, hkeeps⟩ := h.toSound.markHeadAsLost
  refine ⟨⟨hsound, ?_⟩, hsame⟩
  rw [hhighest]
  exact h.highest.mono hkeeps

/-- A positive sent size has items behind it. -/
theorem Laid.ne_nil (h : b.Laid) (hsize : b.m_sentSize ≠ 0) : b.m_sentList ≠ [] := by
  intro hnil
  rw [h.sentSize, hnil] at hsize
  exact hsize rfl

/-- Clearing the first item's retransmission mark succeeds and keeps the invariant. -/
theorem Inv.deleteRetransmittedFlagFromHead (h : Inv b) :
    ∃ b', b.DeleteRetransmittedFlagFromHead = .ok b' ∧ Inv b' ∧ SameItems b b' := by
  unfold DeleteRetransmittedFlagFromHead
  by_cases hsize : b.m_sentSize = 0
  · rw [if_pos hsize]
    exact ⟨b, rfl, h, .refl b⟩
  rw [if_neg hsize]
  obtain ⟨head, rest, hsent⟩ := exists_cons_of_ne_nil (h.ne_nil hsize)
  have hunsacked : head.m_sacked = false := h.head head (by rw [hsent]; rfl)
  rw [hsent]
  dsimp only
  split_ifs with hset
  · have hclear : Follows TcpTxItem.m_retrans [head] [{ head with m_retrans := false }] b.m_retrans
        (if head.m_retrans then b.m_retrans - head.size else b.m_retrans) := Follows.clear rfl
    rw [if_pos hset] at hclear
    obtain ⟨hsound, hsame, hkeeps⟩ := h.toSound.markHead
      { b with
        m_sentList := { head with m_retrans := false } :: rest
        m_retrans := b.m_retrans - head.size } { head with m_retrans := false } hsent rfl
      ⟨rfl, rfl⟩ hunsacked ⟨rfl, rfl, rfl, rfl⟩ rfl
      (Follows.same rfl rfl) hclear
    exact ⟨_, rfl, ⟨hsound, h.highest.mono hkeeps⟩, hsame⟩
  · exact ⟨b, rfl, h, .refl b⟩

/-! ### All segments -/

/-- Without marks the total is zero. -/
theorem total_weight_eq_zero (hflag : ∀ x ∈ items, flag x = false) :
    total (weight flag) items = 0 := by
  induction items with
  | nil => rfl
  | cons item items ih =>
    obtain ⟨hitem, hitems⟩ := forall_mem_cons.mp hflag
    rw [total_cons, ih hitems, weight, hitem]
    rfl

/-- A mark that a map replaces is counted as the mark it replaces. -/
theorem total_weight_map (flag : TcpTxItem → Bool) {flag' : TcpTxItem → Bool}
    (f : TcpTxItem → TcpTxItem) (hflag : ∀ x, flag (f x) = flag' x)
    (hpacket : ∀ x, (f x).m_packet = x.m_packet)
    (items : List TcpTxItem) :
    total (weight flag) (items.map f) = total (weight flag') items := by
  rw [total_map]
  refine total_congr fun x _ => ?_
  rw [weight, weight, hflag, length, hpacket]
  rfl

/-- Marking items keeps their parts. -/
theorem parts_map (f : TcpTxItem → TcpTxItem)
    (hitem : ∀ x, (f x).m_startSeq = x.m_startSeq ∧ (f x).m_packet = x.m_packet)
    (items : List TcpTxItem) : parts (items.map f) = parts items := by
  rw [parts, parts, map_map]
  refine map_congr_left fun x _ => ?_
  rw [Function.comp_apply, (hitem x).1, (hitem x).2]

/-- Where nothing is reported the invariant is that of the counts. -/
theorem Inv.of_unsacked (hcounted : b'.Counted)
    (hsacked : ∀ x ∈ b'.m_sentList, x.m_sacked = false)
    (hhighest : b'.m_highestSack.1 = none) : Inv b' where
  toCounted := hcounted
  disjoint := fun x hx htrue => absurd ((hsacked x hx).symm.trans htrue) Bool.false_ne_true
  head := fun x hx => hsacked x (mem_of_mem_head? hx)
  highest := fun node hnode => by
    rw [hhighest] at hnode
    cases hnode

/-- Forgetting the reports keeps the invariant. -/
theorem Inv.resetRenoSack (h : Inv b) : Inv b.ResetRenoSack ∧ SameItems b b.ResetRenoSack := by
  set f : TcpTxItem → TcpTxItem := fun item => { item with m_sacked := false }
  have hparts := parts_map f (fun _ => ⟨rfl, rfl⟩) b.m_sentList
  have hlost := total_weight_map m_lost f (fun _ => rfl) (fun _ => rfl) b.m_sentList
  have hretrans := total_weight_map TcpTxItem.m_retrans f (fun _ => rfl) (fun _ => rfl)
    b.m_sentList
  have hsacked : ∀ x ∈ b.m_sentList.map f, x.m_sacked = false :=
    forall_mem_map.mpr fun _ _ => rfl
  refine ⟨.of_unsacked {
    toLaid := h.toLaid.of_parts hparts rfl rfl rfl rfl
    sackedOut := congrArg ofNat (total_weight_eq_zero hsacked).symm
    lostOut := h.lostOut.trans (congrArg ofNat hlost.symm)
    retrans := h.retrans.trans (congrArg ofNat hretrans.symm) } hsacked rfl,
    hparts, rfl, rfl, rfl, rfl⟩

/-- What `SetSentListLost` makes of a segment. -/
def setItemLost (resetSack : Bool) (item : TcpTxItem) : TcpTxItem :=
  { item with
    m_sacked := !resetSack && item.m_sacked
    m_lost := resetSack || item.m_lost || !item.m_sacked
    m_retrans := false }

/-- The loop that marks every item, with its count. -/
theorem setLost_eq (resetSack : Bool) (lostOut : UInt32) (items : List TcpTxItem) :
    setLost resetSack lostOut items =
      (if resetSack then lostOut
        else lostOut + ofNat (total (weight m_lost) (items.map (setItemLost resetSack))),
        items.map (setItemLost resetSack)) := by
  induction items generalizing lostOut with
  | nil => cases resetSack <;> simp [setLost]
  | cons item items ih =>
    have hmap : (item :: items).map (setItemLost resetSack) =
        setItemLost resetSack item :: items.map (setItemLost resetSack) := rfl
    have hlength : (setItemLost resetSack item).length = item.length := rfl
    rw [setLost, hmap, total_cons, weight, hlength]
    cases resetSack with
    | true =>
      rw [if_pos rfl, ih]
      rfl
    | false =>
      rw [if_neg Bool.false_ne_true, ih, ih]
      unfold setItemLost
      cases hlost : item.m_lost <;> cases hsacked : item.m_sacked <;>
        simp [ofNat_add, add_assoc, size_eq]

/-- Marking the whole list lost succeeds and keeps the invariant. -/
theorem Inv.setSentListLost (h : Inv b) (resetSack : Bool) :
    ∃ b', b.SetSentListLost resetSack = .ok b' ∧ Inv b' ∧ SameItems b b' := by
  have hparts := parts_map (setItemLost resetSack) (fun _ => ⟨rfl, rfl⟩) b.m_sentList
  have hretrans : ∀ x ∈ b.m_sentList.map (setItemLost resetSack), x.m_retrans = false :=
    forall_mem_map.mpr fun _ _ => rfl
  have hwhole : total (weight fun _ => true) b.m_sentList = total length b.m_sentList :=
    total_congr fun _ _ => rfl
  have hdisjoint : ∀ x ∈ b.m_sentList.map (setItemLost resetSack),
      x.m_sacked = true → x.m_lost = false := by
    refine forall_mem_map.mpr fun x hx htrue => ?_
    unfold setItemLost at htrue ⊢
    obtain ⟨hreset, hsacked⟩ := Bool.and_eq_true_iff.mp htrue
    rw [Bool.not_eq_true'] at hreset
    simp [hreset, hsacked, h.disjoint x hx hsacked]
  rw [SetSentListLost, setLost_eq]
  dsimp only
  set b' : TcpTxBuffer := { b with
    m_sentList := b.m_sentList.map (setItemLost resetSack)
    m_retrans := 0
    m_sackedOut := if resetSack then 0 else b.m_sackedOut
    m_lostOut := if resetSack then (if resetSack then b.m_sentSize else 0)
      else (if resetSack then b.m_sentSize else 0) +
        ofNat (total (weight m_lost) (b.m_sentList.map (setItemLost resetSack)))
    m_highestSack := if resetSack then (none, 0) else b.m_highestSack } with hb'
  -- The counters, for a reset of the reports and without one.
  have hcounted : b'.Counted := {
    toLaid := h.toLaid.of_parts hparts rfl rfl rfl rfl
    sackedOut := by
      cases resetSack with
      | true =>
        exact congrArg ofNat (total_weight_eq_zero (forall_mem_map.mpr
          fun _ _ => rfl)).symm
      | false =>
        exact h.sackedOut.trans (congrArg ofNat
          (total_weight_map m_sacked (setItemLost false) (fun _ => rfl) (fun _ => rfl)
            b.m_sentList).symm)
    lostOut := by
      cases resetSack with
      | true =>
        have hlost := total_weight_map m_lost (setItemLost true) (fun _ => rfl)
          (fun _ => rfl) b.m_sentList
        exact h.sentSize.trans (congrArg ofNat (hlost.trans hwhole).symm)
      | false => exact zero_add _
    retrans := congrArg ofNat (total_weight_eq_zero hretrans).symm }
  rw [if_pos (hcounted.sacked_add_lost hdisjoint)]
  refine ⟨b', rfl, { toCounted := hcounted, disjoint := hdisjoint, head := ?_, highest := ?_ },
    hparts, rfl, rfl, rfl, rfl⟩
  · intro x hx
    rw [hb', List.head?_map] at hx
    obtain ⟨y, hy, rfl⟩ := Option.mem_map.mp hx
    exact Bool.and_eq_false_imp.mpr fun _ => h.head y hy
  · cases resetSack with
    | true =>
      intro node hnode
      cases hnode
    | false =>
      intro node hnode
      obtain ⟨x, hx, hnode, hsacked, hstart⟩ := h.highest node hnode
      exact ⟨setItemLost false x, mem_map_of_mem hx, hnode, hsacked, hstart⟩

/-! ### Segments that are sent anew -/

/-- Putting the sent list back keeps the invariant and the bytes. -/
theorem Inv.resetSentList (h : Inv b) :
    Inv b.ResetSentList ∧ b.ResetSentList.contents = b.contents ∧
      b.ResetSentList.m_firstByteSeq = b.m_firstByteSeq := by
  set f : TcpTxItem → TcpTxItem := fun item =>
    { item with m_retrans := false, m_sacked := false, m_lost := false }
  have hparts := parts_map f (fun _ => ⟨rfl, rfl⟩) b.m_sentList
  have hlength := total_length_of_parts hparts
  have hbound := h.bound
  have hsize := h.size
  have happ : total length (b.m_sentList.map f ++ b.m_appList) =
      total length b.m_sentList + total length b.m_appList := by
    rw [total_append, hlength]
  refine ⟨.of_unsacked {
    contiguous := trivial
    sentSize := rfl
    size := ?_
    bound := ?_
    sentPos := fun x hx => absurd hx not_mem_nil
    appPos := forall_mem_append.mpr ⟨length_pos_of_parts hparts h.sentPos, h.appPos⟩
    clean := forall_mem_append.mpr ⟨forall_mem_map.mpr fun _ _ => ⟨rfl, rfl, rfl⟩,
      h.clean⟩
    sackedOut := rfl
    lostOut := rfl
    retrans := rfl } (fun x hx => absurd hx not_mem_nil) rfl, ?_, rfl⟩
  · change b.m_size = ofNat (0 + total length (b.m_sentList.map f ++ b.m_appList))
    rw [Nat.zero_add, happ]
    exact hsize
  · change 0 + total length (b.m_sentList.map f ++ b.m_appList) < 2 ^ 31
    omega
  · change bytes (b.m_sentList.map f ++ b.m_appList) = _
    rw [bytes_append, bytes_of_parts hparts]
    rfl

/-- The last segment has no marks. -/
theorem Inv.resetLastSegmentSent (h : Inv b)
    (hlast : ∀ x ∈ b.m_sentList.getLast?,
      x.m_sacked = false ∧ x.m_lost = false ∧ x.m_retrans = false) :
    Inv b.ResetLastSegmentSent ∧ b.ResetLastSegmentSent.contents = b.contents ∧
      b.ResetLastSegmentSent.m_firstByteSeq = b.m_firstByteSeq := by
  unfold ResetLastSegmentSent
  cases hitem : b.m_sentList.getLast? with
  | none => exact ⟨h, rfl, rfl⟩
  | some item =>
    obtain ⟨front, hfront⟩ := List.getLast?_eq_some_iff.mp hitem
    obtain ⟨hsacked, hlost, hretrans⟩ := hlast item hitem
    have hdrop : b.m_sentList.dropLast = front := by
      rw [hfront, dropLast_concat]
    have hlength : total length b.m_sentList = total length front + item.length := by
      rw [hfront, total_append, total_cons, total_nil, Nat.add_zero]
    have hpos := h.sentPos
    have hcontiguous := h.contiguous
    have hdisjoint := h.disjoint
    rw [hfront] at hpos hcontiguous hdisjoint
    rw [forall_mem_append] at hpos hdisjoint
    have hbound := h.bound
    have hsentSize := h.sentSize
    have hsize := h.size
    -- The item moves from the end of one list to the front of the other, and carries no mark.
    have hcount : ∀ flag : TcpTxItem → Bool, flag item = false →
        total (weight flag) b.m_sentList = total (weight flag) front := by
      intro flag hflag
      rw [hfront, total_append, total_cons, total_nil, weight, hflag]
      rfl
    dsimp only
    rw [hdrop, hretrans, if_neg Bool.false_ne_true]
    refine ⟨{
      contiguous := (contiguous_append.mp hcontiguous).1
      sentSize := ?_
      size := ?_
      bound := ?_
      sentPos := hpos.1
      appPos := forall_mem_cons.mpr ⟨hpos.2 item mem_cons_self, h.appPos⟩
      clean := forall_mem_cons.mpr ⟨⟨hsacked, hlost, rfl⟩, h.clean⟩
      sackedOut := h.sackedOut.trans (congrArg ofNat (hcount _ hsacked))
      lostOut := h.lostOut.trans (congrArg ofNat (hcount _ hlost))
      retrans := h.retrans.trans (congrArg ofNat (hcount _ hretrans))
      disjoint := hdisjoint.1
      head := ?_
      highest := ?_ }, ?_, rfl⟩
    · rw [hsentSize, hlength, ofNat_add]
      exact add_sub_cancel _ _
    · rw [hsize, hlength, total_cons, ← Nat.add_assoc]
      rfl
    · rw [total_cons, ← Nat.add_assoc]
      change total length front + item.length + total length b.m_appList < 2 ^ 31
      omega
    · intro x hx
      refine h.head x ?_
      rw [hfront, List.head?_append_of_ne_nil _ (ne_nil_of_mem (mem_of_mem_head? hx))]
      exact hx
    · intro node hnode
      obtain ⟨x, hx, hnode, htrue, hstart⟩ := h.highest node hnode
      rw [hfront] at hx
      obtain hx | hx := mem_append.mp hx
      · exact ⟨x, hx, hnode, htrue, hstart⟩
      · rw [mem_singleton.mp hx, hsacked] at htrue
        exact absurd htrue Bool.false_ne_true
    · rw [contents, contents, hfront, bytes_append, bytes_cons, bytes_cons, append_assoc,
        append_assoc]
      rfl

/-! ### Data from the application -/

/-- `Add` keeps the invariant where the whole stays within half the space. -/
theorem Inv.add (h : Inv b) {p : List UInt8}
    (hfits : GetSize p ≤ b.Available → b.contents.length + p.length < 2 ^ 31) :
    Inv (b.Add p).1 ∧ (b.Add p).1.m_firstByteSeq = b.m_firstByteSeq ∧
      (b.Add p).1.contents = if (b.Add p).2 then b.contents ++ p else b.contents := by
  unfold Add
  by_cases hroom : GetSize p ≤ b.Available
  · have hbound := hfits hroom
    have hlength := b.length_contents
    have hsize : (GetSize p).toNat = p.length := toNat_ofNat_of_lt (by omega)
    have hsum := h.size
    rw [if_pos hroom]
    by_cases hpos : GetSize p > 0
    · rw [if_pos hpos]
      have hp : 0 < p.length := by
        have hpos' := lt_iff_toNat_lt.mp hpos
        rwa [hsize] at hpos'
      have happ : total length (b.m_appList ++ [TcpTxItem.new p b.nodes]) =
          total length b.m_appList + p.length := by
        rw [total_append, total_cons, total_nil]
        rfl
      refine ⟨{
        __ := h
        size := ?_
        bound := ?_
        appPos := forall_mem_append.mpr ⟨h.appPos, forall_mem_singleton.mpr hp⟩
        clean := forall_mem_append.mpr ⟨h.clean, forall_mem_singleton.mpr
          ⟨rfl, rfl, rfl⟩⟩
        highest := h.highest }, rfl, ?_⟩
      · dsimp only
        rw [happ, ← Nat.add_assoc, ofNat_add, ← hsum]
        rfl
      · dsimp only
        rw [happ]
        omega
      · rw [if_pos rfl, contents, contents, bytes_append, append_assoc]
        exact congrArg (bytes b.m_sentList ++ ·) (congrArg (bytes b.m_appList ++ ·)
          (append_nil p))
    · rw [if_neg hpos]
      have hp : p = [] := by
        refine eq_nil_of_length_eq_zero ?_
        have hzero : ¬ 0 < (GetSize p).toNat := fun hlt => hpos (lt_iff_toNat_lt.mpr hlt)
        omega
      refine ⟨h, rfl, ?_⟩
      rw [if_pos rfl, hp, append_nil]
  · rw [if_neg hroom]
    exact ⟨h, rfl, rfl⟩

/-! ### Guesses -/

/-- The first unreported item is marked reported. -/
theorem sackFirst_eq {l : Located} (h : sackFirst items = some l) :
    ∃ item, items = l.before ++ item :: l.after ∧ l.item = { item with m_sacked := true } ∧
      items.find? (!·.m_sacked) = some item := by
  induction items generalizing l with
  | nil => cases h
  | cons x rest ih =>
    rw [sackFirst] at h
    split_ifs at h with hsacked
    · obtain ⟨l', hl', rfl⟩ := Option.map_eq_some_iff.mp h
      obtain ⟨item, rfl, hitem, hfind⟩ := ih hl'
      refine ⟨item, rfl, hitem, ?_⟩
      rw [List.find?_cons_of_neg (by simp [hsacked]), hfind]
    · obtain rfl := Option.some.inj h
      exact ⟨x, rfl, rfl, List.find?_cons_of_pos (by simp [hsacked])⟩

/-- There is a segment after the first one, and the one that is sacked is not lost. -/
def RenoSackable (items : List TcpTxItem) : Prop :=
  1 < items.length ∧ (items.tail.find? (!·.m_sacked)).all (!·.m_lost) = true

instance (items : List TcpTxItem) : Decidable (RenoSackable items) :=
  inferInstanceAs (Decidable (_ ∧ _))

/-- The parts of two lists one behind the other. -/
theorem parts_append (before after : List TcpTxItem) :
    parts (before ++ after) = parts before ++ parts after := map_append

/-- A duplicate acknowledgement marks one more item, where one can be marked. -/
theorem Sound.addRenoSack (h : Sound b) (hsackable : RenoSackable b.m_sentList) :
    ∃ b', b.AddRenoSack = .ok b' ∧ Sound b' ∧ SameItems b b' ∧
      (∀ x ∈ b.m_sentList, x.m_sacked = true → x ∈ b'.m_sentList) ∧
      b'.m_sentList.head? = b.m_sentList.head? ∧
      (b'.m_highestSack = b.m_highestSack ∨ ∃ x ∈ b'.m_sentList.tail, x.m_sacked = true ∧
        b'.m_highestSack = (some x.node, x.m_startSeq)) := by
  obtain ⟨hlength, hlost⟩ := hsackable
  obtain ⟨head, second, rest, hsent⟩ : ∃ head second rest,
      b.m_sentList = head :: second :: rest := by
    match hlist : b.m_sentList with
    | [] =>
      rw [hlist] at hlength
      exact absurd hlength (Nat.not_lt_zero _)
    | [_] =>
      rw [hlist] at hlength
      exact absurd hlength (Nat.lt_irrefl _)
    | head :: second :: rest => exact ⟨head, second, rest, rfl⟩
  have hdisjoint := h.disjoint
  have hhead := h.head
  rw [hsent] at hlost
  unfold AddRenoSack
  rw [hsent]
  dsimp only
  cases hfirst : sackFirst (second :: rest) with
  | none =>
    -- all items behind the first are sacked
    refine ⟨b, rfl, h, .refl b, fun x hx _ => ?_, ?_, .inl rfl⟩
    · rw [hsent]
      exact hx
    · rw [hsent]
  | some l =>
    obtain ⟨item, hitems, hitem, hfind⟩ := sackFirst_eq hfirst
    have hunsacked : item.m_sacked = false := by
      have hfound := List.find?_some hfind
      rwa [Bool.not_eq_true'] at hfound
    have hunlost : item.m_lost = false := by
      rw [tail_cons, hfind] at hlost
      exact Bool.not_eq_eq_eq_not.mp hlost
    have hlist : l.list = l.before ++ { item with m_sacked := true } :: l.after := by
      rw [Located.list, hitem]
    have hsame : parts (head :: l.list) = parts b.m_sentList := by
      rw [hsent, hitems, hlist, parts_cons, parts_cons, parts_append, parts_append, parts_cons,
        parts_cons]
    have hfollows : ∀ {flag : TcpTxItem → Bool} {x x' : UInt32},
        Follows flag [item] [{ item with m_sacked := true }] x x' →
        Follows flag b.m_sentList (head :: l.list) x x' := by
      intro flag x x' hitem
      have happend := hitem.append (head :: l.before) l.after
      rw [hsent, hitems, hlist]
      simpa using happend
    rw [hsent, hitems] at hdisjoint
    simp only [forall_mem_cons, forall_mem_append] at hdisjoint
    obtain ⟨hdhead, hdbefore, -, hdafter⟩ := hdisjoint
    -- only the counter of sacked bytes grows
    have hset : Follows m_sacked [item] [{ item with m_sacked := true }] b.m_sackedOut
        (if item.m_sacked then b.m_sackedOut else b.m_sackedOut + item.size) := .set rfl rfl
    rw [hunsacked, if_neg Bool.false_ne_true] at hset
    refine ⟨_, rfl, {
      toCounted := h.toCounted.mark ⟨hsame, rfl, rfl, rfl, rfl⟩ ?_ (hfollows (.same rfl rfl))
        (hfollows (.same rfl rfl))
      disjoint := ?_
      head := ?_ }, ⟨hsame, rfl, rfl, rfl, rfl⟩, ?_, ?_, .inr ⟨l.item, ?_, ?_, rfl⟩⟩
    · dsimp only
      rw [hitem]
      exact hfollows hset
    · dsimp only
      rw [hlist]
      simp only [forall_mem_cons, forall_mem_append]
      exact ⟨hdhead, hdbefore, fun _ => hunlost, hdafter⟩
    · intro x hx
      refine hhead x ?_
      rw [hsent]
      exact hx
    · -- what was sacked is not the item
      intro x hx htrue
      dsimp only
      rw [hitems] at hx
      rw [hlist]
      simp only [mem_cons, mem_append] at hx ⊢
      obtain hx | hx | rfl | hx := hx
      · exact .inl hx
      · exact .inr (.inl hx)
      · exact absurd (hunsacked.symm.trans htrue) Bool.false_ne_true
      · exact .inr (.inr (.inr hx))
    · rfl
    · dsimp only
      rw [tail_cons, Located.list]
      exact mem_append_right _ mem_cons_self
    · rw [hitem]

/-- A duplicate acknowledgement keeps the invariant. -/
theorem Inv.addRenoSack (h : Inv b) (hsackable : RenoSackable b.m_sentList) :
    ∃ b', b.AddRenoSack = .ok b' ∧ Inv b' ∧ SameItems b b' := by
  obtain ⟨b', hok, hsound, hsame, hkeeps, -, hhighest⟩ := h.toSound.addRenoSack hsackable
  refine ⟨b', hok, ⟨hsound, ?_⟩, hsame⟩
  obtain heq | ⟨x, hx, hsacked, heq⟩ := hhighest
  · rw [heq]
    exact h.highest.mono hkeeps
  · rw [heq]
    intro node hnode
    obtain rfl := Option.some.inj hnode
    exact ⟨x, mem_of_mem_tail hx, rfl, hsacked, rfl⟩

/-! ### Sending -/

variable {lost : Bool} {retrans : UInt32} {nodes k n : ℕ} {now : ℤ} {l : Located}

/-- A segment that is not sacked is replaced by one with the same `m_sacked` and `m_lost`. -/
theorem Sound.of_recut (h : Sound b) (hcounted : b'.Counted)
    (hfound : Found false lost b.m_retrans b.m_sentList k n retrans l) (item' : TcpTxItem)
    (hitem : item'.m_sacked = l.item.m_sacked ∧ item'.m_lost = l.item.m_lost)
    (hsent : b'.m_sentList = { l with item := item' }.list) :
    Sound b' ∧ ∀ x ∈ b.m_sentList, x.m_sacked = true → x ∈ b'.m_sentList := by
  have hdisjoint := hfound.recut.forall_mem
    (P := fun x => x.m_sacked = true → x.m_lost = false) (fun _ _ _ hx => ⟨hx, hx⟩)
    (fun _ _ _ _ _ hmerged hx htrue => hmerged.lost.trans (hx (hmerged.sacked.symm.trans htrue)))
    h.disjoint
  have hhead := hfound.recut.head_sacked
  unfold Located.list at hdisjoint hhead hsent
  refine ⟨⟨hcounted, ?_, ?_⟩, ?_⟩
  · rw [hsent]
    rw [forall_mem_append, forall_mem_cons] at hdisjoint ⊢
    refine ⟨hdisjoint.1, fun htrue => ?_, hdisjoint.2.2⟩
    rw [hitem.1, hfound.sacked] at htrue
    exact absurd htrue Bool.false_ne_true
  · intro x hx
    have hsame : (b'.m_sentList.head?).map m_sacked =
        b.m_sentList.head?.map m_sacked := by
      rw [← hhead, hsent]
      cases l.before with
      | nil => exact congrArg some hitem.1
      | cons => rfl
    rw [show b'.m_sentList.head? = some x from hx] at hsame
    obtain ⟨y, hy, heq⟩ := Option.map_eq_some_iff.mp hsame.symm
    rw [← heq]
    exact h.head y hy
  · intro x hx htrue
    have hmem := hfound.recut.mem_of_sacked hx htrue
    unfold Located.list at hmem
    rw [hsent]
    obtain hmem | hmem := mem_append.mp hmem
    · exact mem_append_left _ hmem
    · obtain rfl | hmem := mem_cons.mp hmem
      · exact absurd (hfound.sacked.symm.trans htrue) Bool.false_ne_true
      · exact mem_append_right _ (mem_cons_of_mem _ hmem)

/-- Resending keeps the invariant and the bytes. -/
theorem Inv.resent (h : Inv b) (now : ℤ) (nodes : ℕ)
    (hfound : Found false lost b.m_retrans b.m_sentList k n retrans l) :
    Inv (b.resent now retrans nodes l) ∧ (b.resent now retrans nodes l).contents = b.contents := by
  obtain ⟨hcounted, hcontents⟩ := h.toCounted.resent now nodes hfound
  obtain ⟨hsound, hkeeps⟩ := h.toSound.of_recut hcounted hfound
    { l.item with m_retrans := true, m_lastSent := now } ⟨rfl, rfl⟩ rfl
  exact ⟨⟨hsound, h.highest.mono hkeeps⟩, hcontents⟩

/-- Sending for the first time keeps the invariant and the bytes. -/
theorem Inv.sentFirst (h : Inv b) (now : ℤ) (nodes : ℕ)
    (hfound : Found false false b.m_retrans b.m_appList 0 n b.m_retrans l) (hbefore : l.before = [])
    (hretrans : l.item.m_retrans = false) :
    Inv (b.sentFirst now nodes l) ∧ (b.sentFirst now nodes l).contents = b.contents := by
  obtain ⟨hcounted, hcontents⟩ := h.toCounted.sentFirst now nodes hfound hbefore hretrans
  refine ⟨⟨⟨hcounted, ?_, ?_⟩, h.highest.mono fun x hx _ => mem_append_left _ hx⟩, hcontents⟩
  · refine forall_mem_append.mpr ⟨h.disjoint, forall_mem_singleton.mpr fun _ => ?_⟩
    exact hfound.lost
  · intro x hx
    cases hsent : b.m_sentList with
    | nil =>
      rw [TcpTxBuffer.sentFirst, hsent] at hx
      obtain rfl := Option.some.inj hx
      exact hfound.sacked
    | cons head rest =>
      rw [TcpTxBuffer.sentFirst, hsent] at hx
      obtain rfl := Option.some.inj hx
      exact h.head _ (by rw [hsent]; rfl)

end Ns3Joined.Internet.TcpTxBuffer
