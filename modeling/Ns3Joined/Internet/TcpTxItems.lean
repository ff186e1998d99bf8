import Ns3Joined.Internet.TcpTxBuffer
import Ns3Joined.Library.Tiles

/-!
# Cutting the segments of the transmit buffer anew

`GetPacketFromList` splits and merges the items of a list until one of them has the bytes that it
is asked for. All items it touches have the same `m_sacked` and `m_lost`, or it fails.

* `Recut`: a list from another one by splits and merges.
* `Recut.bytes_eq`, `Recut.weight_eq`, `Recut.contiguous`, …: what does not change.
* `GetPacketFromList_spec`: the list is cut anew, and the item has the bytes.
-/

namespace Ns3Joined.Internet

open SequenceNumber Tiles UInt32
open List hiding length

namespace TcpTxItem

/-- The number of bytes of the packet. -/
def length (item : TcpTxItem) : ℕ := item.m_packet.length

/-- The bytes of an item, if it has the flag. -/
def weight (flag : TcpTxItem → Bool) (item : TcpTxItem) : ℕ := if flag item then item.length else 0

theorem size_eq (item : TcpTxItem) : item.size = UInt32.ofNat item.length := rfl

end TcpTxItem

variable {size : UInt32} {flag : TcpTxItem → Bool} {rounds : ℕ}

namespace TcpTxBuffer

open TcpTxItem

/-- The bytes of the items. -/
def bytes (items : List TcpTxItem) : List UInt8 := items.flatMap TcpTxItem.m_packet

/-- The bytes of the items are as many as the items are long. -/
theorem length_bytes (items : List TcpTxItem) : (bytes items).length = total length items :=
  length_flatMap fun _ _ => rfl

@[simp] theorem bytes_append (items items' : List TcpTxItem) :
    bytes (items ++ items') = bytes items ++ bytes items' := flatMap_append

@[simp] theorem bytes_cons (item : TcpTxItem) (items : List TcpTxItem) :
    bytes (item :: items) = item.m_packet ++ bytes items := flatMap_cons

/-- The items begin where the ones before them end, the first at `start`. -/
def Contiguous : SequenceNumber32 → List TcpTxItem → Prop
  | _, [] => True
  | start, item :: rest => item.m_startSeq = start ∧ Contiguous (start + item.size) rest

variable {a : SequenceNumber32} {before after items items' : List TcpTxItem}
  {item t1 t2 merged : TcpTxItem} {n k : ℕ}

/-- Adding the size of an item moves on by its length. -/
theorem seq_size (a : SequenceNumber32) (n : ℕ) (item : TcpTxItem) :
    seq a n + item.size = seq a (n + item.length) := seq_add a n item.length

/-- Moving on twice. -/
theorem seq_seq (a : SequenceNumber32) (n k : ℕ) : seq (seq a n) k = seq a (n + k) :=
  seq_add a n k

/-- Contiguity of two lists one behind the other. -/
theorem contiguous_append : Contiguous a (before ++ after) ↔
    Contiguous a before ∧ Contiguous (seq a (total length before)) after := by
  induction before generalizing a with
  | nil => simp [Contiguous, seq_zero]
  | cons item before ih =>
    rw [cons_append, Contiguous, Contiguous, ih, total_cons, ← seq_seq, and_assoc]
    rfl

theorem contiguous_cons : Contiguous a (item :: after) ↔
    item.m_startSeq = a ∧ Contiguous (seq a item.length) after := Iff.rfl

/-- Every item starts at a position of the list. -/
theorem Contiguous.exists_start (h : Contiguous a items) (hmem : item ∈ items) :
    ∃ n, n + item.length ≤ total length items ∧ item.m_startSeq = seq a n := by
  obtain ⟨before, after, rfl⟩ := append_of_mem hmem
  rw [contiguous_append, contiguous_cons] at h
  exact ⟨total length before, by rw [total_append, total_cons]; omega, h.2.1⟩

/-! ### One split, one merge -/

/-- What `MergeItems` makes of two items. -/
structure Merged (retrans : UInt32) (t1 t2 : TcpTxItem) (retrans' : UInt32) (merged : TcpTxItem) :
    Prop where
  packet : merged.m_packet = t1.m_packet ++ t2.m_packet
  startSeq : merged.m_startSeq = t1.m_startSeq
  sacked : merged.m_sacked = t1.m_sacked
  sacked' : t2.m_sacked = t1.m_sacked
  lost : merged.m_lost = t1.m_lost
  lost' : t2.m_lost = t1.m_lost
  retransmitted : merged.m_retrans = true → t1.m_retrans = true
  counted : ∃ n, retrans' = retrans - UInt32.ofNat n ∧
    t1.weight TcpTxItem.m_retrans + t2.weight TcpTxItem.m_retrans =
      n + merged.weight TcpTxItem.m_retrans

/-- Items with the same flags are merged; others fail. -/
theorem MergeItems_spec (retrans : UInt32) (t1 t2 : TcpTxItem) :
    (t2.m_sacked = t1.m_sacked → t2.m_lost = t1.m_lost → ∃ retrans' merged,
      MergeItems retrans t1 t2 = .ok (retrans', merged) ∧ Merged retrans t1 t2 retrans' merged) ∧
    (¬ (t2.m_sacked = t1.m_sacked ∧ t2.m_lost = t1.m_lost) →
      MergeItems retrans t1 t2 = .error .abort) := by
  unfold MergeItems
  refine ⟨fun hsacked hlost => ?_, fun hne => ?_⟩
  · rw [if_pos hsacked.symm, if_pos hlost.symm]
    refine ⟨_, _, rfl, ?_⟩
    cases h1 : t1.m_retrans <;> cases h2 : t2.m_retrans
    · exact ⟨rfl, rfl, rfl, hsacked, rfl, hlost, by simp [h1],
        0, by simp, by simp [weight, h1, h2]⟩
    · exact ⟨rfl, rfl, rfl, hsacked, rfl, hlost, by simp [h1],
        t2.length, by simp [size_eq], by simp [weight, h1, h2]⟩
    · exact ⟨rfl, rfl, rfl, hsacked, rfl, hlost, by simp [h1],
        t1.length, by simp [size_eq], by simp [weight, h1, h2]⟩
    · exact ⟨rfl, rfl, rfl, hsacked, rfl, hlost, by simp [h1],
        0, by simp, by simp [weight, h1, h2, length]⟩
  · by_cases hsacked : t1.m_sacked = t2.m_sacked
    · rw [if_pos hsacked, if_neg fun hlost => hne ⟨hsacked.symm, hlost.symm⟩]
    · rw [if_neg hsacked]

/-- A merged item is as long as the two. -/
theorem Merged.length_eq {retrans retrans' : UInt32} (h : Merged retrans t1 t2 retrans' merged) :
    merged.length = t1.length + t2.length := by
  rw [length, h.packet, length_append]
  rfl

/-! ### Cutting anew -/

/-- A list of items, and `m_retrans`, from others by splits and merges of items with the given
`m_sacked` and `m_lost`. -/
inductive Recut (sacked lost : Bool) :
    UInt32 → List TcpTxItem → UInt32 → List TcpTxItem → Prop
  | refl (retrans : UInt32) (items : List TcpTxItem) : Recut sacked lost retrans items retrans items
  | split {retrans retrans' : UInt32} {before after items' : List TcpTxItem} {item : TcpTxItem}
      {size : UInt32} {node : ℕ} (hpos : 0 < size.toNat) (hlt : size.toNat < item.length)
      (hsacked : item.m_sacked = sacked) (hlost : item.m_lost = lost)
      (h : Recut sacked lost retrans
        (before ++ (SplitItems item size node).1 :: (SplitItems item size node).2 :: after)
        retrans' items') :
      Recut sacked lost retrans (before ++ item :: after) retrans' items'
  | merge {retrans retrans₁ retrans' : UInt32} {before after items' : List TcpTxItem}
      {t1 t2 merged : TcpTxItem} (hmerged : Merged retrans t1 t2 retrans₁ merged)
      (hsacked : t1.m_sacked = sacked) (hlost : t1.m_lost = lost)
      (h : Recut sacked lost retrans₁ (before ++ merged :: after) retrans' items') :
      Recut sacked lost retrans (before ++ t1 :: t2 :: after) retrans' items'

variable {sacked lost : Bool} {retrans retrans' : UInt32}

/-- The two halves of a split share the item's length. -/
theorem length_split (item : TcpTxItem) (node : ℕ) (hlt : size.toNat < item.length) :
    (SplitItems item size node).1.length = size.toNat ∧
      (SplitItems item size node).2.length = item.length - size.toNat :=
  ⟨length_take_of_le (Nat.le_of_lt hlt), length_drop⟩

/-- Splitting keeps the total of a mark that both halves keep. -/
theorem weight_split {node : ℕ} (hlt : size.toNat < item.length)
    (h1 : flag (SplitItems item size node).1 = flag item)
    (h2 : flag (SplitItems item size node).2 = flag item) :
    weight flag (SplitItems item size node).1 + weight flag (SplitItems item size node).2 =
      weight flag item := by
  obtain ⟨hlen1, hlen2⟩ := length_split item node hlt
  rw [weight, weight, weight, h1, h2, hlen1, hlen2]
  split_ifs <;> omega

section

variable (h : Recut sacked lost retrans items retrans' items')

include h

/-- Cutting anew keeps the bytes. -/
theorem Recut.bytes_eq : bytes items' = bytes items := by
  induction h with
  | refl => rfl
  | split _ _ _ _ _ ih =>
    rw [ih, bytes_append, bytes_append, bytes_cons, bytes_cons, bytes_cons]
    simp [SplitItems, ← append_assoc]
  | merge hmerged _ _ _ ih =>
    rw [ih, bytes_append, bytes_append, bytes_cons, bytes_cons, bytes_cons, hmerged.packet,
      append_assoc]

/-- The number of bytes with a flag that splits and merges keep. -/
theorem Recut.weight_eq
    (hsplit : ∀ item size node, flag (SplitItems item size node).1 = flag item ∧
      flag (SplitItems item size node).2 = flag item)
    (hmerge : ∀ retrans t1 t2 retrans' merged, Merged retrans t1 t2 retrans' merged →
      flag merged = flag t1 ∧ flag t2 = flag t1) :
    total (weight flag) items' = total (weight flag) items := by
  induction h with
  | refl => rfl
  | @split _ _ before after _ item size node hpos hlt hs hl _ ih =>
    obtain ⟨h1, h2⟩ := hsplit item size node
    rw [ih, total_append, total_cons, total_cons, ← Nat.add_assoc (weight flag _),
      weight_split hlt h1 h2, total_append, total_cons]
  | merge hmerged _ _ _ ih =>
    obtain ⟨h1, h2⟩ := hmerge _ _ _ _ _ hmerged
    simp only [ih, total_append, total_cons, weight, h1, h2, hmerged.length_eq]
    split_ifs <;> omega

/-- Cutting anew keeps what is lost. -/
theorem Recut.lost_eq :
    total (weight TcpTxItem.m_lost) items' = total (weight TcpTxItem.m_lost) items :=
  h.weight_eq (fun _ _ _ => ⟨rfl, rfl⟩) fun _ _ _ _ _ h => ⟨h.lost, h.lost'⟩

/-- Cutting anew keeps what is reported. -/
theorem Recut.sacked_eq :
    total (weight TcpTxItem.m_sacked) items' = total (weight TcpTxItem.m_sacked) items :=
  h.weight_eq (fun _ _ _ => ⟨rfl, rfl⟩) fun _ _ _ _ _ h => ⟨h.sacked, h.sacked'⟩

/-- Cutting anew keeps the length. -/
theorem Recut.length_eq : total length items' = total length items := by
  rw [← length_bytes, ← length_bytes, h.bytes_eq]

/-- `m_retrans` stays the number of bytes that are retransmitted. -/
theorem Recut.counted (hcount : retrans = UInt32.ofNat (total (weight TcpTxItem.m_retrans) items)) :
    retrans' = UInt32.ofNat (total (weight TcpTxItem.m_retrans) items') := by
  induction h with
  | refl => exact hcount
  | @split _ _ before after _ item size node hpos hlt hs hl _ ih =>
    refine ih ?_
    rw [hcount, total_append, total_cons, total_append, total_cons, total_cons,
      ← Nat.add_assoc (weight _ (SplitItems item size node).1), weight_split hlt rfl rfl]
  | merge hmerged _ _ _ ih =>
    obtain ⟨n, hretrans, hweight⟩ := hmerged.counted
    refine ih ?_
    rw [hretrans, hcount, total_append, total_cons, total_cons, total_append, total_cons,
      ← Nat.add_assoc (weight TcpTxItem.m_retrans _), hweight, Nat.add_assoc, Nat.add_left_comm,
      UInt32.ofNat_add n, UInt32.add_comm, UInt32.add_sub_cancel]

/-- Cutting anew keeps the list contiguous. -/
theorem Recut.contiguous (hcontiguous : Contiguous a items) : Contiguous a items' := by
  induction h with
  | refl => exact hcontiguous
  | @split _ _ before after _ item size node hpos hlt hs hl _ ih =>
    obtain ⟨hlen1, hlen2⟩ := length_split item node hlt
    rw [contiguous_append, contiguous_cons] at hcontiguous
    obtain ⟨hbefore, hstart, hafter⟩ := hcontiguous
    refine ih (contiguous_append.mpr ⟨hbefore, hstart, ?_, ?_⟩)
    · rw [size_eq, hlen1, UInt32.ofNat_toNat, ← hstart]
      rfl
    · have hends : item.length = size.toNat + (SplitItems item size node).2.length := by
        rw [hlen2]
        omega
      rw [hends, ← seq_seq] at hafter
      rw [size_eq, size_eq, hlen1]
      exact hafter
  | merge hmerged _ _ _ ih =>
    rw [contiguous_append, contiguous_cons, contiguous_cons, seq_seq, seq_seq] at hcontiguous
    obtain ⟨hbefore, hstart, -, hafter⟩ := hcontiguous
    refine ih (contiguous_append.mpr ⟨hbefore, contiguous_cons.mpr ⟨?_, ?_⟩⟩)
    · rw [hmerged.startSeq, hstart]
    · rwa [hmerged.length_eq, seq_seq, ← Nat.add_assoc]

/-- Cutting anew makes no empty item. -/
theorem Recut.length_pos (hpos : ∀ item ∈ items, 0 < item.length) :
    ∀ item ∈ items', 0 < item.length := by
  induction h with
  | refl => exact hpos
  | @split _ _ before after _ item size node hpos' hlt hs hl _ ih =>
    obtain ⟨hlen1, hlen2⟩ := length_split item node hlt
    simp only [forall_mem_append, forall_mem_cons] at hpos ih
    exact ih ⟨hpos.1, by omega, by omega, hpos.2.2⟩
  | merge hmerged _ _ _ ih =>
    simp only [forall_mem_append, forall_mem_cons, hmerged.length_eq] at hpos ih
    exact ih ⟨hpos.1, by omega, hpos.2.2.2⟩

/-- What holds of an item, for its flags, holds of what is made of it. -/
theorem Recut.forall_mem {P : TcpTxItem → Prop}
    (hsplit : ∀ item size node, P item →
      P (SplitItems item size node).1 ∧ P (SplitItems item size node).2)
    (hmerge : ∀ retrans t1 t2 retrans' merged, Merged retrans t1 t2 retrans' merged → P t1 →
      P merged)
    (hP : ∀ item ∈ items, P item) : ∀ item ∈ items', P item := by
  induction h with
  | refl => exact hP
  | @split _ _ before after _ item size node hpos' hlt hs hl _ ih =>
    simp only [forall_mem_append, forall_mem_cons] at hP ih
    obtain ⟨h1, h2⟩ := hsplit item size node hP.2.1
    exact ih ⟨hP.1, h1, h2, hP.2.2⟩
  | merge hmerged _ _ _ ih =>
    simp only [forall_mem_append, forall_mem_cons] at hP ih
    exact ih ⟨hP.1, hmerge _ _ _ _ _ hmerged hP.2.1, hP.2.2.2⟩

end

/-- A search that wants no reported item leaves the reported ones. -/
theorem Recut.mem_of_sacked (h : Recut false lost retrans items retrans' items')
    (hmem : item ∈ items) (hsacked : item.m_sacked = true) : item ∈ items' := by
  induction h with
  | refl => exact hmem
  | split _ _ hs _ _ ih =>
    refine ih ?_
    simp only [mem_append, mem_cons] at hmem ⊢
    obtain hmem | rfl | hmem := hmem
    · exact Or.inl hmem
    · rw [hs] at hsacked
      exact absurd hsacked Bool.false_ne_true
    · exact Or.inr (Or.inr (Or.inr hmem))
  | merge hmerged hs _ _ ih =>
    refine ih ?_
    simp only [mem_append, mem_cons] at hmem ⊢
    obtain hmem | rfl | rfl | hmem := hmem
    · exact Or.inl hmem
    · rw [hs] at hsacked
      exact absurd hsacked Bool.false_ne_true
    · rw [hmerged.sacked', hs] at hsacked
      exact absurd hsacked Bool.false_ne_true
    · exact Or.inr (Or.inr hmem)

/-- Items that are not retransmitted stay so. -/
theorem Recut.retrans_eq (h : Recut sacked lost retrans items retrans' items')
    (hclean : ∀ item ∈ items, item.m_retrans = false) :
    retrans' = retrans ∧ ∀ item ∈ items', item.m_retrans = false := by
  induction h with
  | refl => exact ⟨rfl, hclean⟩
  | split _ _ _ _ _ ih =>
    simp only [forall_mem_append, forall_mem_cons] at hclean ih
    exact ih ⟨hclean.1, hclean.2.1, hclean.2.1, hclean.2.2⟩
  | merge hmerged _ _ _ ih =>
    simp only [forall_mem_append, forall_mem_cons] at hclean ih
    obtain ⟨hbefore, h1, h2, hafter⟩ := hclean
    have hfalse := Bool.eq_false_iff.mpr fun h => Bool.false_ne_true (h1 ▸ hmerged.retransmitted h)
    obtain ⟨n, hretrans, hweight⟩ := hmerged.counted
    obtain rfl : n = 0 := by
      rw [weight, weight, h1, h2, if_neg Bool.false_ne_true, if_neg Bool.false_ne_true] at hweight
      omega
    obtain ⟨heq, hitems⟩ := ih ⟨hbefore, hfalse, hafter⟩
    exact ⟨heq.trans (hretrans.trans (sub_zero _)), hitems⟩

/-- The head has the same `m_sacked`. -/
theorem Recut.head_sacked (h : Recut sacked lost retrans items retrans' items') :
    items'.head?.map TcpTxItem.m_sacked = items.head?.map TcpTxItem.m_sacked := by
  induction h with
  | refl => rfl
  | @split _ _ before _ _ _ _ _ _ _ _ _ _ ih =>
    rw [ih]
    cases before <;> rfl
  | @merge _ _ _ before _ _ _ _ _ hmerged _ _ _ ih =>
    rw [ih]
    cases before with
    | nil => exact congrArg some hmerged.sacked
    | cons => rfl

/-! ### GetPacketFromList -/

variable {first : Option SequenceNumber32} {list : List TcpTxItem}

/-- The items are where `GetPacketFromList` asserts that they are, if it does. -/
def Checked (first : Option SequenceNumber32) (a : SequenceNumber32) (list : List TcpTxItem) :
    Prop :=
  ∀ f ∈ first, f = a ∧ Contiguous a list

/-- In a contiguous list no item starts before the first. -/
theorem Checked.ge_first (h : Checked first a list) (hbound : total length list < 2 ^ 31)
    (hmem : item ∈ list) : (first.any fun f => !ge item.m_startSeq f) = false := by
  cases first with
  | none => rfl
  | some f =>
    obtain ⟨rfl, hcontiguous⟩ := h f rfl
    obtain ⟨n, hn, hstart⟩ := hcontiguous.exists_start hmem
    have hge : ge (seq f n) (seq f 0) = decide (0 ≤ n) := ge_seq (by omega) (by omega)
    rw [seq_zero, ← hstart] at hge
    simp [hge]

/-- The walk stops at the item that has the place. -/
theorem walk_eq (after : List TcpTxItem)
    (hcheck : ∀ x ∈ before ++ [item], (first.any fun f => !ge x.m_startSeq f) = false)
    {p : ℕ} (hle : p + total length before ≤ k) (hlt : k < p + total length before + item.length)
    (hbound : p + total length (before ++ [item]) < 2 ^ 31) :
    walk first (seq a k) (seq a p) (before ++ item :: after) =
      .ok (seq a (p + total length before), ⟨before, item, after⟩) := by
  induction before generalizing p with
  | nil =>
    simp only [nil_append, total_cons, total_nil] at *
    have hlt' : lt (seq a k) (seq a (p + item.length)) = decide (k < p + item.length) :=
      lt_seq (by omega) (by omega)
    rw [walk, if_neg (by simp [hcheck item]), seq_size, if_pos]
    · rfl
    · rw [hlt']
      simpa using hlt
  | cons x before ih =>
    simp only [cons_append, total_cons, total_append, total_nil] at *
    obtain ⟨hx, hothers⟩ := forall_mem_cons.mp hcheck
    have hlt' : lt (seq a k) (seq a (p + x.length)) = decide (k < p + x.length) :=
      lt_seq (by omega) (by omega)
    have ih' := ih hothers (p := p + x.length) (by omega) (by omega) (by omega)
    rw [walk, if_neg (by simp [hx]), seq_size, if_neg, ih', Nat.add_assoc]
    rw [hlt']
    simp only [decide_eq_true_eq]
    omega

/-- What `GetPacketFromList` finds for `n` bytes at place `k`. -/
structure Found (sacked lost : Bool) (retrans : UInt32) (list : List TcpTxItem) (k n : ℕ)
    (retrans' : UInt32) (l : Located) : Prop where
  recut : Recut sacked lost retrans list retrans' l.list
  start : total length l.before = k
  length : l.item.length = n
  sacked : l.item.m_sacked = sacked
  lost : l.item.m_lost = lost

/-- Below half the space a word is its number. -/
theorem toNat_ofNat_of_lt (h : n < 2 ^ 31) : (UInt32.ofNat n).toNat = n := by
  rw [toNat_ofNat']
  omega

/-- The walk, over items that are where they are asserted to be. -/
theorem Checked.walk_eq (h : Checked first a (before ++ item :: after))
    (hbound : total length (before ++ item :: after) < 2 ^ 31) (hle : total length before ≤ k)
    (hlt : k < total length before + item.length) :
    walk first (seq a k) a (before ++ item :: after) =
      .ok (seq a (total length before), ⟨before, item, after⟩) := by
  have hcheck : ∀ x ∈ before ++ [item], (first.any fun f => !ge x.m_startSeq f) = false := by
    intro x hx
    refine h.ge_first hbound ?_
    simp only [mem_append, mem_cons, not_mem_nil, or_false] at hx ⊢
    exact hx.imp_right Or.inl
  simp only [total_append, total_cons] at hbound
  have hwalk := TcpTxBuffer.walk_eq (a := a) (p := 0) (k := k) after hcheck
    (by omega) (by omega) (by simp only [total_append, total_cons, total_nil]; omega)
  rwa [seq_zero, Nat.zero_add] at hwalk

/-- The item begins at the place and has all bytes, or more. -/
theorem GetPacketFromList_inside (rounds : ℕ) (retrans : UInt32) (nodes : ℕ)
    (hcheck : Checked first a (before ++ item :: after))
    (hbound : total length (before ++ item :: after) < 2 ^ 31) (hn : 0 < n)
    (hle : n ≤ item.length) :
    ∃ retrans' nodes' l,
      GetPacketFromList first a (UInt32.ofNat n) (seq a (total length before)) (rounds + 1) retrans
        nodes (before ++ item :: after) = .ok (retrans', nodes', l) ∧
      Found item.m_sacked item.m_lost retrans (before ++ item :: after) (total length before) n
        retrans' l := by
  have hwalk := hcheck.walk_eq hbound (Nat.le_refl _) (by omega)
  simp only [total_append, total_cons] at hbound
  have hinside : le (seq a (total length before + n)) (seq a (total length before + item.length)) =
      decide (total length before + n ≤ total length before + item.length) :=
    le_seq (by omega) (by omega)
  have htoNat := toNat_ofNat_of_lt (by omega : n < 2 ^ 31)
  have hsize := toNat_ofNat_of_lt (by omega : item.length < 2 ^ 31)
  rw [GetPacketFromList, hwalk]
  dsimp only
  rw [if_pos rfl, seq_add, seq_size, hinside, if_pos (by simpa using hle), size_eq]
  by_cases heq : n = item.length
  · rw [if_pos (by rw [heq])]
    exact ⟨_, _, _, rfl, .refl _ _, rfl, heq.symm, rfl, rfl⟩
  · have hlt : n < item.length := by omega
    rw [if_neg fun h => heq (by rw [← htoNat, h, hsize]),
      if_pos (lt_iff_toNat_lt.mpr (by rwa [htoNat, hsize]))]
    refine ⟨_, _, _, rfl, .split (by rwa [htoNat]) (by rwa [htoNat]) rfl rfl (.refl _ _), rfl, ?_,
      rfl, rfl⟩
    have hlength := (length_split item nodes (by rwa [htoNat] : (UInt32.ofNat n).toNat < _)).1
    rwa [htoNat] at hlength

/-- From the item that begins at the place, which takes in the ones after it. -/
theorem GetPacketFromList_aligned (retrans : UInt32) (nodes : ℕ)
    (hcheck : Checked first a (before ++ item :: after))
    (hbound : total length (before ++ item :: after) < 2 ^ 31)
    (hpos : ∀ x ∈ item :: after, 0 < x.length) (hn : 0 < n) (hle : n ≤ total length (item :: after))
    (hsame : ∀ x ∈ overlapping length 0 n (item :: after),
      x.m_sacked = item.m_sacked ∧ x.m_lost = item.m_lost)
    (hrounds : after.length < rounds) :
    ∃ retrans' nodes' l,
      GetPacketFromList first a (UInt32.ofNat n) (seq a (total length before)) rounds retrans nodes
        (before ++ item :: after) = .ok (retrans', nodes', l) ∧
      Found item.m_sacked item.m_lost retrans (before ++ item :: after) (total length before) n
        retrans' l := by
  induction after generalizing rounds retrans item with
  | nil =>
    obtain ⟨rounds, rfl⟩ := Nat.exists_eq_succ_of_ne_zero (Nat.ne_of_gt hrounds)
    exact GetPacketFromList_inside rounds retrans nodes hcheck hbound hn hle
  | cons next after ih =>
    obtain ⟨rounds, rfl⟩ := Nat.exists_eq_succ_of_ne_zero (Nat.ne_of_gt (Nat.zero_lt_of_lt hrounds))
    by_cases hinside : n ≤ item.length
    · exact GetPacketFromList_inside rounds retrans nodes hcheck hbound hn hinside
    · obtain ⟨hitem, hnext, hafter⟩ : 0 < item.length ∧ 0 < next.length ∧
          ∀ x ∈ after, 0 < x.length := by simpa using hpos
      -- The next item has one of the bytes, and so the same flags.
      rw [overlapping_cons hitem, if_neg (by omega), overlapping_cons hnext] at hsame
      obtain ⟨-, ⟨hsacked, hlost⟩, hsame⟩ : _ ∧ _ ∧ _ := by
        simpa only [forall_mem_cons] using hsame
      obtain ⟨retrans₁, merged, hmerge, hmerged⟩ :=
        (MergeItems_spec retrans item next).1 hsacked hlost
      have hlength := hmerged.length_eq
      have hcut {retrans' : UInt32} {items' : List TcpTxItem}
          (h : Recut item.m_sacked item.m_lost retrans₁ (before ++ merged :: after) retrans'
            items') :
          Recut item.m_sacked item.m_lost retrans (before ++ item :: next :: after) retrans'
            items' :=
        .merge hmerged rfl rfl h
      have hone := hcut (.refl _ _)
      have hwalk := hcheck.walk_eq hbound (Nat.le_refl _) (by omega)
      have hcheck' : Checked first a (before ++ merged :: after) := fun f hf =>
        ⟨(hcheck f hf).1, hone.contiguous (hcheck f hf).2⟩
      have hbound' : total length (before ++ merged :: after) < 2 ^ 31 := by
        rw [hone.length_eq]
        exact hbound
      simp only [total_append, total_cons] at hbound hle
      have hpos' : ∀ x ∈ merged :: after, 0 < x.length :=
        forall_mem_cons.mpr ⟨by omega, hafter⟩
      have hsame' : ∀ x ∈ overlapping length 0 n (merged :: after),
          x.m_sacked = merged.m_sacked ∧ x.m_lost = merged.m_lost := by
        have hends : 0 + n ≤ item.length + next.length ↔
            0 + (0 + n - item.length) ≤ next.length := by omega
        have hrest : 0 + n - (item.length + next.length) =
            0 + (0 + n - item.length) - next.length := by omega
        rw [overlapping_cons (by omega), hlength, forall_mem_cons, hmerged.sacked,
          hmerged.lost]
        refine ⟨⟨rfl, rfl⟩, ?_⟩
        simp only [hends, hrest]
        exact hsame
      have hrounds' : after.length < rounds := by simpa using hrounds
      obtain ⟨retrans', nodes', l, hok, hfound⟩ := ih retrans₁ hcheck' hbound' hpos'
        (by rw [total_cons]; omega) hsame' hrounds'
      refine ⟨retrans', nodes', l, ?_, ?_⟩
      · have hpast : le (seq a (total length before + n))
            (seq a (total length before + item.length)) =
            decide (total length before + n ≤ total length before + item.length) :=
          le_seq (by omega) (by omega)
        rw [GetPacketFromList, hwalk]
        dsimp only
        rw [if_pos rfl, seq_add, seq_size, hpast, if_neg (by simpa using hinside), hmerge]
        exact hok
      · rw [hmerged.sacked, hmerged.lost] at hfound
        exact ⟨hcut hfound.recut, hfound.start, hfound.length, hfound.sacked, hfound.lost⟩

/-- The bytes are found, and cut out, if all items that have one of them have the same flags. -/
theorem GetPacketFromList_spec (retrans : UInt32) (nodes : ℕ) (hcheck : Checked first a list)
    (hbound : total length list < 2 ^ 31) (hpos : ∀ x ∈ list, 0 < x.length) (hn : 0 < n)
    (hle : k + n ≤ total length list)
    (hsame : ∀ x ∈ overlapping length k n list, x.m_sacked = sacked ∧ x.m_lost = lost)
    (hrounds : list.length + 1 < rounds) :
    ∃ retrans' nodes' l,
      GetPacketFromList first a (UInt32.ofNat n) (seq a k) rounds retrans nodes list =
        .ok (retrans', nodes', l) ∧
      Found sacked lost retrans list k n retrans' l := by
  -- The item that the number lies in.
  obtain ⟨before, item, after, rfl, hbefore, hitem⟩ :=
    exists_part (by omega : k < total length list)
  rw [overlapping_append hbefore, overlapping_cons (by omega), forall_mem_cons] at hsame
  obtain ⟨⟨rfl, rfl⟩, hsame⟩ := hsame
  have hafter : ∀ x ∈ after, 0 < x.length := fun x hx =>
    hpos x (mem_append_right _ (mem_cons_of_mem _ hx))
  rw [length_append, length_cons] at hrounds
  simp only [total_append, total_cons] at hle
  obtain heq | hlt := Nat.eq_or_lt_of_le hbefore
  · -- There is nothing to split.
    obtain rfl : total length before = k := heq
    refine GetPacketFromList_aligned retrans nodes hcheck hbound
      (forall_mem_cons.mpr ⟨by omega, hafter⟩) hn (by rw [total_cons]; omega) ?_ (by omega)
    rw [overlapping_cons (by omega), forall_mem_cons]
    rw [Nat.sub_self] at hsame
    exact ⟨⟨rfl, rfl⟩, hsame⟩
  · obtain ⟨rounds, rfl⟩ := Nat.exists_eq_succ_of_ne_zero (by omega : rounds ≠ 0)
    have hwalk := hcheck.walk_eq hbound (Nat.le_of_lt hlt) hitem
    simp only [total_append, total_cons] at hbound
    have hsub : seq a k - seq a (total length before) = UInt32.ofNat (k - total length before) :=
      seq_sub hbefore
    have hsize := toNat_ofNat_of_lt (by omega : k - total length before < 2 ^ 31)
    set size := UInt32.ofNat (k - total length before)
    obtain ⟨hlen1, hlen2⟩ := length_split item nodes (by omega : size.toNat < item.length)
    set parts := SplitItems item size nodes with hparts
    -- The item is split at the number asked for, and the search starts anew behind the cut.
    have hone : Recut item.m_sacked item.m_lost retrans (before ++ item :: after) retrans
        (before ++ parts.1 :: parts.2 :: after) :=
      .split (by omega) (by omega) rfl rfl (.refl _ _)
    have hlist : before ++ parts.1 :: parts.2 :: after =
        (before ++ [parts.1]) ++ parts.2 :: after := (append_cons ..)
    have hstart : total length (before ++ [parts.1]) = k := by
      simp only [total_append, total_cons, total_nil]
      omega
    have hpos' : ∀ x ∈ parts.2 :: after, 0 < x.length :=
      forall_mem_cons.mpr ⟨by omega, hafter⟩
    have hcheck' : Checked first a (before ++ parts.1 :: parts.2 :: after) := fun f hf =>
      ⟨(hcheck f hf).1, hone.contiguous (hcheck f hf).2⟩
    have hbound' : total length (before ++ parts.1 :: parts.2 :: after) < 2 ^ 31 := by
      rw [hone.length_eq, total_append, total_cons]
      exact hbound
    have hsame' : ∀ x ∈ overlapping length 0 n (parts.2 :: after),
        x.m_sacked = parts.2.m_sacked ∧ x.m_lost = parts.2.m_lost := by
      have hends : 0 + n ≤ parts.2.length ↔ k - total length before + n ≤ item.length := by omega
      have hrest : 0 + n - parts.2.length = k - total length before + n - item.length := by omega
      rw [overlapping_cons (by omega), forall_mem_cons]
      refine ⟨⟨rfl, rfl⟩, ?_⟩
      simp only [hends, hrest]
      exact hsame
    rw [hlist] at hcheck' hbound'
    obtain ⟨retrans', nodes', l, hok, hfound⟩ := GetPacketFromList_aligned retrans (nodes + 1)
      hcheck' hbound' hpos' hn (by rw [total_cons]; omega) hsame' (by omega : after.length < rounds)
    rw [hstart] at hok hfound
    rw [← hlist] at hok hfound
    refine ⟨retrans', nodes', l, ?_, ?_⟩
    · have hne : seq a k ≠ seq a (total length before) := fun heq => by
        rw [seq_inj (by omega) (by omega)] at heq
        omega
      have hgt : gt (seq a k) (seq a (total length before)) = decide (total length before < k) :=
        gt_seq (by omega) (by omega)
      rw [GetPacketFromList, hwalk]
      dsimp only
      rw [if_neg hne, hgt, if_pos (by simpa using hlt), hsub]
      exact hok
    · exact ⟨.split (by omega) (by omega) rfl rfl hfound.recut, hfound.start, hfound.length,
        hfound.sacked, hfound.lost⟩

end TcpTxBuffer
end Ns3Joined.Internet
