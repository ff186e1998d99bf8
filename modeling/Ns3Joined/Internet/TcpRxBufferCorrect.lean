import Ns3Joined.Internet.TcpRxBuffer
import Ns3Joined.Library.Slices

/-!
# What the receive buffer of TCP hands on

The buffered packets are slices of the stream, at places of which only the remainders modulo 2³²
are kept. As these are less than 2³¹ apart, what the source does with sequence numbers is what is
done with places (`trim_map`, `assign_map`, `advance_spec`).

* `trimAt`: what `Add` does to the buffered packets, for places.
* `Represents`: the buffer and what was received.
* `step_refines`: every call keeps it.
* `receives`: for all runs.
-/

namespace Ns3Joined.Internet.TcpRxBuffer

open SequenceNumber Slices List UInt32

/-! ### Places -/

/-- A buffered packet, with its place in the stream. -/
abbrev Part := List UInt8 × ℕ

/-- The entry of `m_data` for a packet. -/
def entry (isn : SequenceNumber32) (x : Part) : Entry := (seq isn x.2, x.1)

/-- The packet is between two places that sequence numbers compare rightly. -/
structure Between (lo : ℕ) (x : Part) : Prop where
  lo_le : lo ≤ x.2
  lt : x.2 + x.1.length < lo + 2 ^ 31

/-- Where a segment starts without the bytes that the packet has, -/
def cutHead (x : Part) (head : ℕ) : ℕ := if x.2 ≤ head then x.2 + x.1.length else head

/-- and where it ends. -/
def cutTail (x : Part) (tail : ℕ) : ℕ := if tail ≤ x.2 + x.1.length then x.2 else tail

/-- `trim`, for places: the packets that remain, and what remains of the segment. -/
def trimAt (head tail : ℕ) : List Part → List Part × ℕ × ℕ
  | [] => ([], head, tail)
  | x :: rest =>
    if x.2 ≤ tail then
      if head < x.2 + x.1.length then
        if head < x.2 ∧ x.2 + x.1.length < tail then
          trimAt head tail rest
        else
          let r := trimAt (cutHead x head) (cutTail x tail) rest
          (x :: r.1, r.2)
      else
        let r := trimAt head tail rest
        (x :: r.1, r.2)
    else
      (x :: rest, head, tail)

variable {isn : SequenceNumber32} {lo head tail n : ℕ} {x : Part} {parts : List Part}

/-- Adding the size of a segment moves on by its length. -/
theorem seq_add_getSize (isn : SequenceNumber32) (n : ℕ) (p : List UInt8) :
    seq isn n + GetSize p = seq isn (n + p.length) := seq_add isn n p.length

/-- A head cut to a part stays between the old head and the part's end. -/
theorem cutHead_le (hhead : head < x.2 + x.1.length) :
    head ≤ cutHead x head ∧ cutHead x head ≤ x.2 + x.1.length := by
  unfold cutHead
  split_ifs <;> omega

/-- A tail cut to a part stays between the part's start and the old tail. -/
theorem cutTail_le (htail : x.2 ≤ tail) : x.2 ≤ cutTail x tail ∧ cutTail x tail ≤ tail := by
  unfold cutTail
  split_ifs <;> omega

/-- What is cut off is what the packet has. -/
theorem cut_iff (hhead : head < x.2 + x.1.length) (htail : x.2 ≤ tail) :
    ((x.2 ≤ n ∧ n < x.2 + x.1.length) ∨ (cutHead x head ≤ n ∧ n < cutTail x tail)) ↔
      ((x.2 ≤ n ∧ n < x.2 + x.1.length) ∨ (head ≤ n ∧ n < tail)) := by
  unfold cutHead cutTail
  split_ifs <;> omega

/-- The loop of the source, for packets in a span: `n` is the occupancy by other packets. -/
theorem trim_map (hparts : ∀ x ∈ parts, Between lo x) (hlo : lo ≤ head ∧ lo ≤ tail)
    (hhead : head < lo + 2 ^ 31) (htail : tail < lo + 2 ^ 31) :
    trim (seq isn head) (seq isn tail) (UInt32.ofNat (n + totalLength parts))
        (parts.map (entry isn)) =
      ((trimAt head tail parts).1.map (entry isn), seq isn (trimAt head tail parts).2.1,
        seq isn (trimAt head tail parts).2.2,
        UInt32.ofNat (n + totalLength (trimAt head tail parts).1)) := by
  induction parts generalizing head tail n with
  | nil => rfl
  | cons x rest ih =>
    obtain ⟨hlox, hltx⟩ := hparts x (List.mem_cons_self ..)
    have hrest : ∀ y ∈ rest, Between lo y := fun y hy => hparts y (List.mem_cons_of_mem x hy)
    -- The packet stays, and counts as one of the others.
    have hkeep : ∀ {h t : ℕ}, (lo ≤ h ∧ lo ≤ t) → h < lo + 2 ^ 31 → t < lo + 2 ^ 31 →
        trim (seq isn h) (seq isn t) (UInt32.ofNat (n + totalLength (x :: rest)))
          (rest.map (entry isn)) =
        ((trimAt h t rest).1.map (entry isn), seq isn (trimAt h t rest).2.1,
          seq isn (trimAt h t rest).2.2,
          UInt32.ofNat (n + totalLength (x :: (trimAt h t rest).1))) := by
      intro h t hlo hh ht
      have := ih (n := n + x.1.length) hrest hlo hh ht
      rwa [Nat.add_assoc, Nat.add_assoc] at this
    have hle : le (entry isn x).1 (seq isn tail) = decide (x.2 ≤ tail) :=
      le_seq (by omega) (by omega)
    have hend : (entry isn x).1 + GetSize (entry isn x).2 = seq isn (x.2 + x.1.length) :=
      seq_add_getSize ..
    have hgt : gt (seq isn (x.2 + x.1.length)) (seq isn head) =
        decide (head < x.2 + x.1.length) := gt_seq (by omega) (by omega)
    have hembedded : (gt (entry isn x).1 (seq isn head) &&
        lt (seq isn (x.2 + x.1.length)) (seq isn tail)) =
        decide (head < x.2 ∧ x.2 + x.1.length < tail) := by
      rw [Bool.decide_and]
      exact congrArg₂ _ (gt_seq (by omega) (by omega)) (lt_seq (by omega) (by omega))
    have hcutHead : (if le (entry isn x).1 (seq isn head) = true then seq isn (x.2 + x.1.length)
        else seq isn head) = seq isn (cutHead x head) := by
      rw [entry, le_seq (by omega) (by omega), cutHead, apply_ite (seq isn)]
      simp only [decide_eq_true_eq]
    have hcutTail : (if ge (seq isn (x.2 + x.1.length)) (seq isn tail) = true then (entry isn x).1
        else seq isn tail) = seq isn (cutTail x tail) := by
      rw [entry, ge_seq (by omega) (by omega), cutTail, apply_ite (seq isn)]
      simp only [decide_eq_true_eq]
    rw [List.map_cons, trim, trimAt, hle]
    simp only [decide_eq_true_eq, hend, hgt, hembedded, hcutHead, hcutTail]
    split_ifs with htail' hhead' hin
    · -- embedded: its bytes are taken off the occupancy
      have hsize : UInt32.ofNat (n + totalLength (x :: rest)) - GetSize (entry isn x).2 =
          UInt32.ofNat (n + totalLength rest) := by
        rw [totalLength, Nat.add_left_comm, UInt32.ofNat_add, UInt32.add_comm]
        exact UInt32.add_sub_cancel ..
      rw [hsize]
      exact ih hrest hlo hhead htail
    · have hcut := cutHead_le hhead'
      have hcut' := cutTail_le htail'
      rw [hkeep (by omega) (by omega) (by omega)]
      rfl
    · rw [hkeep hlo hhead htail]
      rfl
    · rfl

/-! ### What is left of a segment -/

/-- Trimming only narrows what is left to store. -/
theorem le_trimAt (head tail : ℕ) (parts : List Part) :
    head ≤ (trimAt head tail parts).2.1 ∧ (trimAt head tail parts).2.2 ≤ tail := by
  induction parts generalizing head tail with
  | nil => exact ⟨le_rfl, le_rfl⟩
  | cons x rest ih =>
    rw [trimAt]
    split_ifs with htail hhead hin
    · exact ih head tail
    · exact ⟨le_trans (cutHead_le hhead).1 (ih _ _).1, le_trans (ih _ _).2 (cutTail_le htail).2⟩
    · exact ih head tail
    · exact ⟨le_rfl, le_rfl⟩

/-- Trimming stays within the half space the parts lie in. -/
theorem trimAt_between (hparts : ∀ x ∈ parts, Between lo x) (hhead : head < lo + 2 ^ 31)
    (htail : lo ≤ tail) :
    (trimAt head tail parts).2.1 < lo + 2 ^ 31 ∧ lo ≤ (trimAt head tail parts).2.2 := by
  induction parts generalizing head tail with
  | nil => exact ⟨hhead, htail⟩
  | cons x rest ih =>
    obtain ⟨hlox, hltx⟩ := hparts x (List.mem_cons_self ..)
    have hrest : ∀ y ∈ rest, Between lo y := fun y hy => hparts y (List.mem_cons_of_mem x hy)
    rw [trimAt]
    split_ifs with htail' hhead' hin
    · exact ih hrest hhead htail
    · exact ih hrest (lt_of_le_of_lt (cutHead_le hhead').2 hltx)
        (le_trans hlox (cutTail_le htail').1)
    · exact ih hrest hhead htail
    · exact ⟨hhead, htail⟩

/-- Trimming keeps some of the parts, in order. -/
theorem trimAt_sublist (head tail : ℕ) (parts : List Part) :
    (trimAt head tail parts).1.Sublist parts := by
  induction parts generalizing head tail with
  | nil => exact List.Sublist.refl _
  | cons x rest ih =>
    rw [trimAt]
    split_ifs with htail hhead hin
    · exact (ih head tail).cons x
    · exact (ih _ _).cons_cons x
    · exact (ih head tail).cons_cons x
    · exact List.Sublist.refl _

/-- Packets that start after the segment does cut off its end only. -/
theorem trimAt_after (hapart : Apart parts) (hafter : ∀ x ∈ parts, head < x.2)
    (hlt : head < tail) :
    (trimAt head tail parts).2.1 = head ∧ head < (trimAt head tail parts).2.2 := by
  induction parts generalizing tail with
  | nil => exact ⟨rfl, hlt⟩
  | cons x rest ih =>
    have hx := hafter x (List.mem_cons_self ..)
    have hrest : ∀ y ∈ rest, head < y.2 := fun y hy => hafter y (List.mem_cons_of_mem x hy)
    rw [trimAt]
    split_ifs with htail hhead hin
    · exact ih hapart.tail hrest hlt
    · have hcut : cutHead x head = head := if_neg (by omega)
      rw [hcut]
      exact ih hapart.tail hrest (lt_of_lt_of_le hx (cutTail_le htail).1)
    · exact ih hapart.tail hrest hlt
    · exact ⟨rfl, hlt⟩

/-- If nothing is left, nothing has changed, and the segment was there already. -/
theorem trimAt_nothing (hapart : Apart parts)
    (hle : (trimAt head tail parts).2.2 ≤ (trimAt head tail parts).2.1) :
    (trimAt head tail parts).1 = parts ∧ ∀ n, head ≤ n → n < tail → Covers parts n := by
  induction parts generalizing head tail with
  | nil => exact ⟨rfl, fun n hn hn' => by simp only [trimAt] at hle; omega⟩
  | cons x rest ih =>
    rw [trimAt] at hle ⊢
    split_ifs at hle ⊢ with htail hhead hin
    · -- An embedded packet starts after the head, and so do the later ones.
      have hx := hapart.pos x (List.mem_cons_self ..)
      have hafter := trimAt_after hapart.tail
        (fun y hy => by have := hapart.head_le y hy; omega) (by omega : head < tail)
      omega
    · obtain ⟨heq, hcovers⟩ := ih hapart.tail hle
      refine ⟨congrArg (x :: ·) heq, fun n hn hn' => covers_cons.mpr ?_⟩
      exact ((cut_iff hhead htail).mpr (Or.inr ⟨hn, hn'⟩)).imp_right
        fun hcut => hcovers n hcut.1 hcut.2
    · obtain ⟨heq, hcovers⟩ := ih hapart.tail hle
      exact ⟨congrArg (x :: ·) heq, fun n hn hn' => covers_cons.mpr (Or.inr (hcovers n hn hn'))⟩
    · exact ⟨rfl, fun n hn hn' => by dsimp only at hle; omega⟩

/-- If something is left, the packets that remain are before or after it, -/
theorem trimAt_apart (hapart : Apart parts)
    (hlt : (trimAt head tail parts).2.1 < (trimAt head tail parts).2.2) :
    ∀ x ∈ (trimAt head tail parts).1, x.2 + x.1.length ≤ (trimAt head tail parts).2.1 ∨
      (trimAt head tail parts).2.2 ≤ x.2 := by
  induction parts generalizing head tail with
  | nil => exact nofun
  | cons x rest ih =>
    rw [trimAt] at hlt ⊢
    split_ifs at hlt ⊢ with htail hhead hin
    · exact ih hapart.tail hlt
    · intro y hy
      obtain rfl | hy := mem_cons.mp hy
      · obtain ⟨hlehead, hletail⟩ := le_trimAt (cutHead y head) (cutTail y tail) rest
        by_cases hyhead : y.2 ≤ head
        · refine Or.inl (le_trans (Nat.le_of_eq ?_) hlehead)
          exact (if_pos hyhead).symm
        · refine Or.inr (le_trans hletail (Nat.le_of_eq ?_))
          exact if_pos (by omega)
      · exact ih hapart.tail hlt y hy
    · intro y hy
      obtain rfl | hy := mem_cons.mp hy
      · have hle := le_trimAt head tail rest
        dsimp only
        omega
      · exact ih hapart.tail hlt y hy
    · intro y hy
      obtain rfl | hy := mem_cons.mp hy
      · exact Or.inr (by dsimp only; omega)
      · have := hapart.head_le y hy
        exact Or.inr (by dsimp only; omega)

/-- Trimming neither loses nor invents a covered position: what the parts covered or the segment
brings. -/
theorem trimAt_covers :
    (Covers (trimAt head tail parts).1 n ∨
      ((trimAt head tail parts).2.1 ≤ n ∧ n < (trimAt head tail parts).2.2)) ↔
      (Covers parts n ∨ (head ≤ n ∧ n < tail)) := by
  induction parts generalizing head tail with
  | nil => rfl
  | cons x rest ih =>
    rw [trimAt]
    split_ifs with htail hhead hin
    · rw [ih, covers_cons, or_assoc]
      refine ⟨Or.inr, fun h => h.elim (fun hx => Or.inr ?_) id⟩
      omega
    · rw [covers_cons, covers_cons, or_assoc, ih, or_left_comm, cut_iff hhead htail,
        or_left_comm, or_assoc]
    · rw [covers_cons, covers_cons, or_assoc, ih, or_assoc]
    · rfl

/-- The first position left after trimming is covered by no part. -/
theorem trimAt_head (hapart : Apart parts)
    (hlt : (trimAt head tail parts).2.1 < (trimAt head tail parts).2.2) :
    ¬ Covers parts (trimAt head tail parts).2.1 := by
  induction parts generalizing head tail with
  | nil => exact not_covers_nil
  | cons x rest ih =>
    rw [trimAt] at hlt ⊢
    rw [covers_cons, not_or]
    split_ifs at hlt ⊢ with htail hhead hin
    · have hx := hapart.pos x (List.mem_cons_self ..)
      have hafter := trimAt_after hapart.tail
        (fun y hy => by have := hapart.head_le y hy; omega) (by omega : head < tail)
      exact ⟨by omega, ih hapart.tail hlt⟩
    · obtain ⟨hlehead, hletail⟩ := le_trimAt (cutHead x head) (cutTail x tail) rest
      refine ⟨fun hxn => ?_, ih hapart.tail hlt⟩
      dsimp only at hlt hxn
      by_cases hxhead : x.2 ≤ head
      · have hcut : cutHead x head = x.2 + x.1.length := if_pos hxhead
        omega
      · have hcut : cutTail x tail = x.2 := if_pos (by omega)
        omega
    · have hle := le_trimAt head tail rest
      exact ⟨by dsimp only; omega, ih hapart.tail hlt⟩
    · dsimp only at hlt ⊢
      refine ⟨by omega, fun ⟨y, hy, hyn, _⟩ => ?_⟩
      have := hapart.head_le y hy
      omega

/-! ### The map -/

variable {p : List UInt8} {block : SackBlock} {sackList : List SackBlock} {head tail : ℕ}

/-- A part that touches no other may be inserted between those before and those behind it. -/
theorem apart_of_mem {l₁ l₂ : List Part} (hpos : 0 < p.length) (hapart : Apart (l₁ ++ l₂))
    (hbefore : ∀ x ∈ l₁, x.2 + x.1.length ≤ n) (hafter : ∀ x ∈ l₂, n + p.length ≤ x.2) :
    Apart (l₁ ++ (p, n) :: l₂) := by
  obtain ⟨hsorted₁, hsorted₂, hcross⟩ := pairwise_append.mp hapart.sorted
  refine ⟨fun x hx => ?_, pairwise_append.mpr ⟨hsorted₁,
    pairwise_cons.mpr ⟨hafter, hsorted₂⟩, fun x hx y hy => ?_⟩⟩
  · obtain hx | hx := mem_append.mp hx
    · exact hapart.pos x (mem_append_left _ hx)
    · obtain rfl | hx := mem_cons.mp hx
      · exact hpos
      · exact hapart.pos x (mem_append_right _ hx)
  · obtain rfl | hy := mem_cons.mp hy
    · exact hbefore x hx
    · exact hcross x hx y hy

/-- A packet that has no place in common with the others goes between them. -/
theorem assign_map (isn : SequenceNumber32) (hparts : ∀ x ∈ parts, Between lo x) (hlo : lo ≤ n)
    (hlt : n < lo + 2 ^ 31) (hpos : 0 < p.length) (hapart : Apart parts)
    (hcut : ∀ x ∈ parts, x.2 + x.1.length ≤ n ∨ n + p.length ≤ x.2) :
    ∃ l₁ l₂, parts = l₁ ++ l₂ ∧
      assign (seq isn n) p (parts.map (entry isn)) = (l₁ ++ (p, n) :: l₂).map (entry isn) ∧
      Apart (l₁ ++ (p, n) :: l₂) := by
  induction parts with
  | nil => exact ⟨[], [], rfl, rfl, apart_of_mem hpos apart_nil nofun nofun⟩
  | cons x rest ih =>
    obtain ⟨hlox, hltx⟩ := hparts x (List.mem_cons_self ..)
    have hx := hcut x (List.mem_cons_self ..)
    have hxpos := hapart.pos x (List.mem_cons_self ..)
    have hkey : lt (seq isn n) (entry isn x).1 = decide (n < x.2) := lt_seq (by omega) (by omega)
    have hkey' : lt (entry isn x).1 (seq isn n) = decide (x.2 < n) :=
      lt_seq (by omega) (by omega)
    rw [List.map_cons, assign, hkey, hkey']
    simp only [decide_eq_true_eq]
    by_cases hbefore : n < x.2
    · refine ⟨[], x :: rest, rfl, if_pos hbefore, apart_of_mem hpos hapart nofun fun y hy => ?_⟩
      obtain rfl | hy := mem_cons.mp hy
      · omega
      · have := hapart.head_le y hy
        omega
    · obtain ⟨l₁, l₂, rfl, hassign, hapart'⟩ := ih
        (fun y hy => hparts y (List.mem_cons_of_mem x hy)) hapart.tail
        fun y hy => hcut y (List.mem_cons_of_mem x hy)
      refine ⟨x :: l₁, l₂, rfl, ?_, fun y hy => ?_, pairwise_cons.mpr ⟨fun y hy => ?_,
        hapart'.sorted⟩⟩
      · rw [if_neg hbefore, if_pos (by omega), hassign]
        rfl
      · obtain rfl | hy := mem_cons.mp hy
        · exact hxpos
        · exact hapart'.pos y hy
      · obtain hy | hy := mem_append.mp hy
        · exact hapart.head_le y (mem_append_left _ hy)
        · obtain rfl | hy := mem_cons.mp hy
          · dsimp only
            omega
          · exact hapart.head_le y (mem_append_right _ hy)

/-- The packets with one that has the places in between. -/
theorem assign_spec (isn : SequenceNumber32) {stream : List UInt8}
    (hparts : ∀ x ∈ parts, Between lo x) (hlo : lo ≤ n) (hlt : n < lo + 2 ^ 31)
    (hpos : 0 < p.length) (hapart : Apart parts)
    (hcut : ∀ x ∈ parts, x.2 + x.1.length ≤ n ∨ n + p.length ≤ x.2)
    (hslice : ∀ x ∈ parts, IsSlice stream x.2 x.1) (hp : IsSlice stream n p) :
    ∃ parts', assign (seq isn n) p (parts.map (entry isn)) = parts'.map (entry isn) ∧
      Apart parts' ∧ (∀ x ∈ parts', IsSlice stream x.2 x.1) ∧
      (∀ m, Covers parts' m ↔ Covers parts m ∨ (n ≤ m ∧ m < n + p.length)) ∧
      totalLength parts' = totalLength parts + p.length ∧
      ∀ x ∈ parts', x = (p, n) ∨ x ∈ parts := by
  obtain ⟨l₁, l₂, rfl, hassign, hapart'⟩ := assign_map isn hparts hlo hlt hpos hapart hcut
  have hmem : ∀ x ∈ l₁ ++ (p, n) :: l₂, x = (p, n) ∨ x ∈ l₁ ++ l₂ := fun x hx =>
    mem_cons.mp (perm_middle.mem_iff.mp hx)
  refine ⟨_, hassign, hapart', fun x hx => ?_, fun m => ?_, ?_, hmem⟩
  · obtain rfl | hx := hmem x hx
    · exact hp
    · exact hslice x hx
  · rw [covers_append, covers_cons, covers_append, or_left_comm, or_comm]
  · rw [totalLength_append, totalLength_append, totalLength, Nat.add_left_comm, Nat.add_comm]

/-- A position at which no part starts is not in the map. -/
theorem contains_map (hparts : ∀ x ∈ parts, Between lo x) (hlo : lo ≤ n)
    (hlt : n < lo + 2 ^ 31) (hne : ∀ x ∈ parts, x.2 ≠ n) :
    contains (seq isn n) (parts.map (entry isn)) = false := by
  unfold contains
  rw [any_eq_false]
  intro i hi
  obtain ⟨x, hx, rfl⟩ := mem_map.mp hi
  obtain ⟨hlox, hltx⟩ := hparts x hx
  have := hne x hx
  rw [entry, lt_seq (by omega) (by omega), lt_seq (by omega) (by omega), ← decide_not,
    ← decide_not, ← Bool.decide_and, decide_eq_true_iff]
  omega

/-! ### The blocks to report -/

/-- A block is of bytes that are in the span, and have the property. -/
def IsBlock (isn : SequenceNumber32) (lo : ℕ) (P : ℕ → Prop) (block : SackBlock) : Prop :=
  ∃ first last, block = (seq isn first, seq isn last) ∧ lo ≤ first ∧ first < last ∧
    last < lo + 2 ^ 31 ∧ ∀ m, first ≤ m → m < last → P m

section Blocks

variable {P : ℕ → Prop}

/-- A block of a property is one of a weaker property. -/
theorem IsBlock.imp {Q : ℕ → Prop} (h : IsBlock isn lo P block) (hPQ : ∀ m, P m → Q m) :
    IsBlock isn lo Q block := by
  obtain ⟨first, last, heq, hlo, hlt, hlast, hP⟩ := h
  exact ⟨first, last, heq, hlo, hlt, hlast, fun m hm hm' => hPQ m (hP m hm hm')⟩

/-- A block beyond a position may be counted from there. -/
theorem IsBlock.after (h : IsBlock isn lo P block) (hle : lo ≤ n) (hlt : n < lo + 2 ^ 31)
    (hn : ¬ P n) (hend : le block.2 (seq isn n) = false) : IsBlock isn n P block := by
  obtain ⟨first, last, rfl, hlo, hfirst, hlast, hP⟩ := h
  rw [le_seq (by omega) (by omega), decide_eq_false_iff_not] at hend
  have hafter : n ≤ first := Nat.le_of_not_lt fun hbefore => hn (hP n (by omega) (by omega))
  exact ⟨first, last, rfl, hafter, hfirst, by omega, hP⟩

/-- Two blocks that meet are one block, and the assertion of the source holds. -/
theorem IsBlock.merge {left right : SackBlock} (hleft : IsBlock isn lo P left)
    (hright : IsBlock isn lo P right) (hmeet : right.1 = left.2) :
    lt left.1 right.2 = true ∧ IsBlock isn lo P (left.1, right.2) := by
  obtain ⟨first, mid, rfl, hlo, hfirst, hmid, hP⟩ := hleft
  obtain ⟨mid', last, rfl, hlo', hmid', hlast, hP'⟩ := hright
  obtain rfl : mid' = mid := (seq_inj (by omega) (by omega)).mp hmeet
  refine ⟨?_, first, last, rfl, hlo, by omega, hlast, fun m hm hm' => ?_⟩
  · rw [lt_seq (by omega) (by omega), decide_eq_true_iff]
    omega
  · by_cases hin : m < mid'
    · exact hP m hm hin
    · exact hP' m (by omega) hm'

/-- Merging blocks succeeds and yields blocks. -/
theorem mergeBlocks_spec {first : SackBlock} {seen rest : List SackBlock}
    (hfirst : IsBlock isn lo P first) (hseen : ∀ b ∈ seen, IsBlock isn lo P b)
    (hrest : ∀ b ∈ rest, IsBlock isn lo P b) :
    ∃ l, mergeBlocks first seen rest = .ok l ∧ ∀ b ∈ l, IsBlock isn lo P b := by
  fun_induction mergeBlocks first seen rest with
  | case1 first seen => exact ⟨_, rfl, forall_mem_cons.mpr ⟨hfirst, hseen⟩⟩
  | case2 first seen current rest hmeet hlt ih =>
    obtain ⟨hcurrent, hrest⟩ := forall_mem_cons.mp hrest
    exact ih (hcurrent.merge hfirst hmeet).2 nofun
      (forall_mem_append.mpr ⟨hseen, hrest⟩)
  | case3 first seen current rest hmeet hlt =>
    obtain ⟨hcurrent, -⟩ := forall_mem_cons.mp hrest
    exact absurd (hcurrent.merge hfirst hmeet).1 hlt
  | case4 first seen current rest hne hmeet hlt ih =>
    obtain ⟨hcurrent, hrest⟩ := forall_mem_cons.mp hrest
    exact ih (hfirst.merge hcurrent hmeet.symm).2 nofun
      (forall_mem_append.mpr ⟨hseen, hrest⟩)
  | case5 first seen current rest hne hmeet hlt =>
    obtain ⟨hcurrent, -⟩ := forall_mem_cons.mp hrest
    exact absurd (hfirst.merge hcurrent hmeet.symm).1 hlt
  | case6 first seen current rest hne hne' ih =>
    obtain ⟨hcurrent, hrest⟩ := forall_mem_cons.mp hrest
    exact ih hfirst (forall_mem_append.mpr ⟨hseen, forall_mem_singleton.mpr hcurrent⟩)
      hrest

/-- Updating the list succeeds and yields blocks. -/
theorem UpdateSackList_spec {nextRxSeq head tail : SequenceNumber32}
    (hgt : gt head nextRxSeq = true) (hnew : IsBlock isn lo P (head, tail))
    (hblocks : ∀ b ∈ sackList, IsBlock isn lo P b) :
    ∃ l, UpdateSackList nextRxSeq sackList head tail = .ok l ∧ ∀ b ∈ l, IsBlock isn lo P b := by
  obtain ⟨l, hok, hl⟩ := mergeBlocks_spec hnew (forall_mem_nil _) hblocks
  refine ⟨_, (if_pos hgt).trans (by rw [hok]; rfl), fun b hb => hl b ?_⟩
  split_ifs at hb
  · exact mem_of_mem_dropLast hb
  · exact hb

/-- The assertion of the source holds, and the blocks that end by then are gone. -/
theorem ClearSackList_spec (isn : SequenceNumber32) (lo : ℕ) (P : ℕ → Prop) (s : SequenceNumber32)
    (hblocks : ∀ b ∈ sackList, IsBlock isn lo P b) :
    ∃ l, ClearSackList s sackList = .ok l ∧
      ∀ b ∈ l, b ∈ sackList ∧ le b.2 s = false := by
  induction sackList with
  | nil => exact ⟨[], rfl, nofun⟩
  | cons block rest ih =>
    obtain ⟨hblock, hrest⟩ := forall_mem_cons.mp hblocks
    obtain ⟨l, hok, hl⟩ := ih hrest
    obtain ⟨first, last, rfl, hlo, hlt, hlast, -⟩ := hblock
    have hassert : lt (seq isn first) (seq isn last) = true := by
      rw [lt_seq (by omega) (by omega), decide_eq_true_iff]
      exact hlt
    refine ⟨_, (if_pos hassert).trans (by rw [hok]; rfl), fun b hb => ?_⟩
    split_ifs at hb with hle
    · exact ⟨List.mem_cons_of_mem _ (hl b hb).1, (hl b hb).2⟩
    · obtain rfl | hb := mem_cons.mp hb
      · exact ⟨List.mem_cons_self .., Bool.eq_false_iff.mpr hle⟩
      · exact ⟨List.mem_cons_of_mem _ (hl b hb).1, (hl b hb).2⟩

end Blocks

/-! ### The next byte expected -/

/-- The loop goes to the first place that is not there. -/
theorem advance_spec {P : ℕ → Prop} (avail : UInt32) (hparts : ∀ x ∈ parts, Between lo x)
    (hapart : Apart parts) (hlo : lo ≤ n) (hlt : n < lo + 2 ^ 31)
    (hcut : ∀ x ∈ parts, x.2 + x.1.length ≤ n ∨ n ≤ x.2) {lo' : ℕ}
    (hblocks : ∀ b ∈ sackList, IsBlock isn lo' P b) :
    ∃ n' l, advance (seq isn n) avail sackList (parts.map (entry isn)) =
        .ok (seq isn n', avail + UInt32.ofNat (n' - n), l) ∧
      n ≤ n' ∧ (∀ m, n ≤ m → m < n' → Covers parts m) ∧ ¬ Covers parts n' ∧
      (∀ b ∈ l, b ∈ sackList ∧ (n < n' → le b.2 (seq isn n') = false)) := by
  induction parts generalizing n avail sackList with
  | nil =>
    refine ⟨n, sackList, ?_, le_rfl, fun m hm hm' => by omega, not_covers_nil,
      fun b hb => ⟨hb, fun h => absurd h (lt_irrefl n)⟩⟩
    rw [Nat.sub_self]
    exact congrArg (fun a => Except.ok (_, a, _)) (add_zero avail).symm
  | cons x rest ih =>
    obtain ⟨hlox, hltx⟩ := hparts x (List.mem_cons_self ..)
    have hx := hcut x (List.mem_cons_self ..)
    have hxpos := hapart.pos x (List.mem_cons_self ..)
    have hrest : ∀ y ∈ rest, Between lo y := fun y hy => hparts y (List.mem_cons_of_mem x hy)
    have hkey : lt (entry isn x).1 (seq isn n) = decide (x.2 < n) := lt_seq (by omega) (by omega)
    have hkey' : gt (entry isn x).1 (seq isn n) = decide (n < x.2) :=
      gt_seq (by omega) (by omega)
    rw [List.map_cons, advance, hkey, hkey']
    simp only [decide_eq_true_eq]
    -- A packet before the next byte is passed over, one behind it ends the loop.
    by_cases hbefore : x.2 < n
    · rw [if_pos hbefore]
      obtain ⟨n', l, hok, hle, hcovers, hnot, hl⟩ := ih avail hrest hapart.tail hlo hlt
        (fun y hy => hcut y (List.mem_cons_of_mem x hy)) hblocks
      refine ⟨n', l, hok, hle, fun m hm hm' => covers_cons.mpr (Or.inr (hcovers m hm hm')),
        fun h => ?_, hl⟩
      obtain h | h := covers_cons.mp h
      · omega
      · exact hnot h
    rw [if_neg hbefore]
    by_cases hafter : n < x.2
    · rw [if_pos hafter]
      refine ⟨n, sackList, ?_, le_rfl, fun m hm hm' => by omega, fun h => ?_,
        fun b hb => ⟨hb, fun h => absurd h (lt_irrefl n)⟩⟩
      · rw [Nat.sub_self]
        exact congrArg (fun a => Except.ok (_, a, _)) (add_zero avail).symm
      · obtain h | ⟨y, hy, hyn, -⟩ := covers_cons.mp h
        · omega
        · have := hapart.head_le y hy
          omega
    · -- The packet starts here: the next byte expected is the one after it.
      obtain rfl : x.2 = n := by omega
      rw [if_neg hafter, entry, seq_add_getSize]
      obtain ⟨l₁, hclear, hl₁⟩ :=
        ClearSackList_spec isn lo' P (seq isn (x.2 + x.1.length)) hblocks
      obtain ⟨n', l, hok, hle, hcovers, hnot, hl⟩ := ih (avail + GetSize x.1) hrest
        hapart.tail (by omega) (by omega)
        (fun y hy => Or.inr (hapart.head_le y hy))
        (fun b hb => hblocks b (hl₁ b hb).1)
      refine ⟨n', l, ?_, by omega, fun m hm hm' => covers_cons.mpr ?_, fun h => ?_, fun b hb => ?_⟩
      · have hsum : avail + GetSize x.1 + UInt32.ofNat (n' - (x.2 + x.1.length)) =
            avail + UInt32.ofNat (n' - x.2) := by
          rw [GetSize, add_assoc, ← UInt32.ofNat_add]
          congr 2
          omega
        simp only [hclear, bind, Except.bind]
        rw [hok, hsum]
      · by_cases hin : m < x.2 + x.1.length
        · exact Or.inl ⟨hm, hin⟩
        · exact Or.inr (hcovers m (by omega) hm')
      · obtain h | h := covers_cons.mp h
        · omega
        · exact hnot h
      · obtain ⟨hb₁, hb'⟩ := hl b hb
        refine ⟨(hl₁ b hb₁).1, fun _ => ?_⟩
        obtain heq | hlt' := Nat.eq_or_lt_of_le hle
        · rw [← heq]
          exact (hl₁ b hb₁).2
        · exact hb' hlt'

end TcpRxBuffer

/-! ### What was received -/

namespace Received

variable {t : Received} {n : ℕ}

/-- The edge is the first position that has not come. -/
theorem edge_notMem (t : Received) : t.edge ∉ t.bytes :=
  Nat.find_spec (Infinite.exists_notMem_finset t.bytes)

/-- Every position before the edge has come. -/
theorem mem_of_lt_edge (h : n < t.edge) : n ∈ t.bytes :=
  not_not.mp (Nat.find_min (Infinite.exists_notMem_finset t.bytes) h)

/-- The edge is where everything before has come and it has not. -/
theorem edge_eq (hlt : ∀ m < n, m ∈ t.bytes) (hn : n ∉ t.bytes) : t.edge = n :=
  le_antisymm (Nat.find_min' _ hn) (Nat.le_of_not_lt fun h => t.edge_notMem (hlt _ h))

/-- Unread are the positions that have come and are not extracted. -/
theorem mem_unread : n ∈ t.unread ↔ n ∈ t.bytes ∧ t.read ≤ n := Finset.mem_filter

/-- The next number expected is the edge, or one more for the final number. -/
theorem le_next (stream : List UInt8) (t : Received) :
    t.edge ≤ t.next stream ∧ t.next stream ≤ t.edge + 1 := by
  unfold next
  split_ifs <;> omega

end Received

namespace TcpRxBuffer

open SequenceNumber Slices

/-- The buffered packets do not overlap, and are those bytes of the stream; `Size` is the sum of
their sizes. -/
structure Buffered (stream : List UInt8) (isn : SequenceNumber32) (unread : Finset ℕ)
    (b : TcpRxBuffer) (parts : List Part) : Prop where
  data : b.m_data = parts.map (entry isn)
  apart : Apart parts
  slice : ∀ x ∈ parts, IsSlice stream x.2 x.1
  covers : ∀ n, n ∈ unread ↔ Covers parts n
  size : b.m_size.toNat = totalLength parts

/-- The buffer has the received bytes that are not taken; `NextRxSequence` is the end of the
contiguous ones, plus one after the end of the stream, and `Available` is how many of these are
not taken. -/
structure Represents (stream : List UInt8) (isn : SequenceNumber32) (maxBuffer : UInt32)
    (b : TcpRxBuffer) (t : Received) : Prop where
  buffered : ∃ parts, Buffered stream isn t.unread b parts
  next : b.m_nextRxSeq = seq isn (t.next stream)
  avail : b.m_availBytes.toNat = t.edge - t.read
  read : t.read ≤ t.edge
  bytes : ∀ m ∈ t.bytes, m < stream.length ∧ m + 2 < t.read + 2 ^ 31
  gotFin : b.m_gotFin = t.fin
  finSeq : t.fin = true → b.m_finSeq = seq isn stream.length ∧ stream.length + 1 < t.read + 2 ^ 31
  sackList : ∀ block ∈ b.m_sackList, IsBlock isn t.edge (· ∈ t.bytes) block
  maxBuffer : b.m_maxBuffer = maxBuffer

section Run

variable {stream : List UInt8} {isn : SequenceNumber32} {maxBuffer : UInt32} {b : TcpRxBuffer}
  {t : Received} {parts : List Part} {lo n start length : ℕ}

/-- Every position of a stored part is unread. -/
theorem Buffered.mem_unread (hb : Buffered stream isn t.unread b parts) {x : Part}
    (hx : x ∈ parts) (hle : x.2 ≤ n) (hlt : n < x.2 + x.1.length) : n ∈ t.unread :=
  (hb.covers n).mpr ⟨x, hx, hle, hlt⟩

/-- The first stored part starts at the first unread position. -/
theorem Buffered.first {x : Part} (hb : Buffered stream isn t.unread b (x :: parts)) :
    x.2 ∈ t.unread ∧ ∀ m ∈ t.unread, x.2 ≤ m := by
  have hpos := hb.apart.pos x (List.mem_cons_self ..)
  refine ⟨hb.mem_unread (List.mem_cons_self ..) le_rfl (by omega), fun m hm => ?_⟩
  obtain h | ⟨y, hy, hle, -⟩ := covers_cons.mp ((hb.covers m).mp hm)
  · exact h.1
  · have := hb.apart.head_le y hy
    omega

/-- All stored parts lie within the half space. -/
theorem Buffered.between (hb : Buffered stream isn t.unread b parts) (hlo : lo ≤ t.read)
    (hspan : ∀ m ∈ t.bytes, m + 2 < lo + 2 ^ 31) : ∀ x ∈ parts, Between lo x := by
  intro x hx
  have hpos := hb.apart.pos x hx
  have hfirst := Received.mem_unread.mp (hb.mem_unread hx le_rfl (by omega))
  have hlast := Received.mem_unread.mp
    (hb.mem_unread (n := x.2 + (x.1.length - 1)) hx (by omega) (by omega))
  have := hspan _ hlast.1
  exact ⟨le_trans hlo hfirst.2, by omega⟩

/-- The edge lies within the half space of what has come. -/
theorem edge_lt (h : Represents stream isn maxBuffer b t)
    (hspan : ∀ m ∈ t.bytes, m + 2 < lo + 2 ^ 31) : t.edge + 1 < lo + 2 ^ 31 := by
  have := h.read
  by_cases hzero : t.edge = 0
  · omega
  · have := hspan (t.edge - 1) (Received.mem_of_lt_edge (by omega))
    omega

/-- The part of the segment in the window. -/
theorem fitWindow_spec (h : Represents stream isn maxBuffer b t)
    (hb : Buffered stream isn t.unread b parts)
    (hspan : t.InSpan maxBuffer start length) :
    ∃ head tail, b.fitWindow (seq isn start) (seq isn (start + length)) =
        (seq isn head, seq isn tail) ∧
      min start t.read ≤ head ∧ min start t.read ≤ tail ∧
      head < min start t.read + 2 ^ 31 ∧ tail ≤ start + length ∧
      ∀ n, (head ≤ n ∧ n < tail) ↔ start ≤ n ∧ t.next stream ≤ n ∧ n < start + length ∧
        ∀ m ∈ t.unread, n < m + maxBuffer.toNat := by
  obtain ⟨hsegment, hbytes, hwindow⟩ := hspan
  have hedge := edge_lt h hbytes
  have hread := h.read
  have hnext := t.le_next stream
  -- The head moves up to the next byte, the tail down to the end of the window.
  have hhead : (if lt (seq isn start) b.m_nextRxSeq then b.m_nextRxSeq else seq isn start) =
      seq isn (max start (t.next stream)) := by
    rw [h.next, lt_seq (by omega) (by omega)]
    simp only [decide_eq_true_eq]
    split_ifs with hlt
    · rw [max_eq_right (Nat.le_of_lt hlt)]
    · rw [max_eq_left (by omega)]
  unfold fitWindow
  rw [hhead, hb.data]
  cases parts with
  | nil =>
    refine ⟨_, _, rfl, by omega, by omega, by omega, le_rfl, fun n => ?_⟩
    have hnone : ∀ m ∈ t.unread, n < m + maxBuffer.toNat :=
      fun m hm => absurd ((hb.covers m).mp hm) not_covers_nil
    rw [max_le_iff]
    tauto
  | cons x rest =>
    obtain ⟨hx, hmin⟩ := hb.first
    have hmax := hwindow x.2 hx hmin
    have hxread := (Received.mem_unread.mp hx).2
    have hmaxSeq : (entry isn x).1 + b.m_maxBuffer = seq isn (x.2 + maxBuffer.toNat) := by
      rw [h.maxBuffer, ← seq_add, UInt32.ofNat_toNat]
      rfl
    have htail : (if lt (seq isn (x.2 + maxBuffer.toNat)) (seq isn (start + length)) then
        seq isn (x.2 + maxBuffer.toNat) else seq isn (start + length)) =
        seq isn (min (x.2 + maxBuffer.toNat) (start + length)) := by
      rw [lt_seq (by omega) (by omega)]
      simp only [decide_eq_true_eq]
      split_ifs with hlt
      · rw [min_eq_left (Nat.le_of_lt hlt)]
      · rw [min_eq_right (by omega)]
    have hhead' : ∀ {head tail : ℕ}, head < tail + 2 ^ 31 → tail < head + 2 ^ 31 →
        (if lt (seq isn tail) (seq isn head) then seq isn tail else seq isn head) =
          seq isn (min tail head) := by
      intro head tail hle hge
      rw [lt_seq hge hle]
      simp only [decide_eq_true_eq]
      split_ifs with hlt
      · rw [min_eq_left (Nat.le_of_lt hlt)]
      · rw [min_eq_right (by omega)]
    refine ⟨min (min (x.2 + maxBuffer.toNat) (start + length)) (max start (t.next stream)),
      min (x.2 + maxBuffer.toNat) (start + length), ?_, by omega, by omega, by omega,
      min_le_right .., fun n => ?_⟩
    · simp only [List.map_cons, hmaxSeq, htail]
      rw [hhead' (by omega) (by omega)]
    · have hiff : (∀ m ∈ t.unread, n < m + maxBuffer.toNat) ↔ n < x.2 + maxBuffer.toNat :=
        ⟨fun hall => hall x.2 hx, fun hlt m hm => by have := hmin m hm; omega⟩
      rw [hiff]
      omega

/-- The edge does not pass the end of the stream. -/
theorem edge_le (hbytes : ∀ m ∈ t.bytes, m < stream.length) : t.edge ≤ stream.length := by
  by_cases hzero : t.edge = 0
  · omega
  · have := hbytes (t.edge - 1) (Received.mem_of_lt_edge (by omega))
    omega

/-- The end of the stream is counted when all before it was received. -/
theorem seq_next (hgotFin : b.m_gotFin = t.fin) (hread : t.read ≤ t.edge)
    (hfinSeq : t.fin = true →
      b.m_finSeq = seq isn stream.length ∧ stream.length + 1 < t.read + 2 ^ 31)
    (hle : t.edge ≤ stream.length) :
    (if b.m_gotFin && seq isn t.edge == b.m_finSeq then seq isn t.edge + 1 else seq isn t.edge) =
      seq isn (t.next stream) := by
  rw [hgotFin, Received.next]
  cases hfin : t.fin with
  | false => rfl
  | true =>
    obtain ⟨hseq, hlt⟩ := hfinSeq hfin
    have heq : (seq isn t.edge == b.m_finSeq) = decide (t.edge = stream.length) := by
      rw [hseq, Bool.eq_iff_iff, beq_iff_eq, decide_eq_true_iff, seq_inj (by omega) (by omega)]
    rw [heq, Bool.true_and]
    simp only [decide_eq_true_eq, true_and]
    split_ifs
    · exact seq_add isn t.edge 1
    · rfl

/-- What is new of a segment is what is new in the window. -/
theorem mem_fresh_iff (hle : start + length ≤ stream.length)
    (hwindow : ∀ n, (head ≤ n ∧ n < tail) ↔ start ≤ n ∧ t.next stream ≤ n ∧ n < start + length ∧
      ∀ m ∈ t.unread, n < m + maxBuffer.toNat) :
    n ∈ t.fresh maxBuffer start length ↔ n ∉ t.bytes ∧ head ≤ n ∧ n < tail := by
  rw [Received.fresh, Finset.mem_filter, Finset.mem_Ico, hwindow]
  refine ⟨fun ⟨⟨hstart, hend⟩, hnew, hlt⟩ => ⟨hnew, hstart, ?_, hend, hlt⟩,
    fun ⟨hnew, hstart, _, hend, hlt⟩ => ⟨⟨hstart, hend⟩, hnew, hlt⟩⟩
  -- The end of the stream is after all bytes of the segment.
  have hedge : t.edge ≤ n := Nat.le_of_not_lt fun h => hnew (Received.mem_of_lt_edge h)
  unfold Received.next
  split_ifs <;> omega

section

variable (h : Represents stream isn maxBuffer b t) (hle : start + length ≤ stream.length)
  (hspan : t.InSpan maxBuffer start length)

include h hle hspan

/-- What `Add` finds: the segment's part in the window, and what trimming leaves of it. -/
theorem Add_trim (hb : Buffered stream isn t.unread b parts) :
    ∃ head tail,
      (min start t.read ≤ head ∧ min start t.read ≤ tail ∧ head < min start t.read + 2 ^ 31 ∧
        tail ≤ start + length) ∧
      (∀ n, (head ≤ n ∧ n < tail) ↔ start ≤ n ∧ t.next stream ≤ n ∧ n < start + length ∧
        ∀ m ∈ t.unread, n < m + maxBuffer.toNat) ∧
      b.fitWindow (seq isn start) (seq isn start + GetSize ((stream.drop start).take length)) =
        (seq isn head, seq isn tail) ∧
      trim (seq isn head) (seq isn tail) b.m_size b.m_data =
        ((trimAt head tail parts).1.map (entry isn), seq isn (trimAt head tail parts).2.1,
          seq isn (trimAt head tail parts).2.2,
          UInt32.ofNat (totalLength (trimAt head tail parts).1)) := by
  obtain ⟨head, tail, hfit, hlohead, hlotail, hhead, htail, hwindow⟩ := fitWindow_spec h hb hspan
  obtain ⟨hsegment, hbytes, -⟩ := hspan
  have hlength : ((stream.drop start).take length).length = length := by
    rw [List.length_take, List.length_drop]
    omega
  have hsize : b.m_size = UInt32.ofNat (0 + totalLength parts) := by
    rw [Nat.zero_add, ← hb.size, UInt32.ofNat_toNat]
  refine ⟨head, tail, ⟨hlohead, hlotail, hhead, htail⟩, hwindow, ?_, ?_⟩
  · rw [seq_add_getSize, hlength, hfit]
  · rw [hb.data, hsize, trim_map (hb.between (min_le_right ..) hbytes) ⟨hlohead, hlotail⟩ hhead
      (by omega), Nat.zero_add]

omit h hle hspan in
/-- The blocks to report, with one of new bytes. -/
theorem exists_sackList {P : ℕ → Prop} (hnew : IsBlock isn lo P (seq isn head, seq isn tail))
    (hblocks : ∀ block ∈ b.m_sackList, IsBlock isn lo P block) :
    ∃ l, (if gt (seq isn head) b.m_nextRxSeq then
        UpdateSackList b.m_nextRxSeq b.m_sackList (seq isn head) (seq isn tail)
        else .ok b.m_sackList) = .ok l ∧ ∀ block ∈ l, IsBlock isn lo P block := by
  by_cases hgt : gt (seq isn head) b.m_nextRxSeq = true
  · obtain ⟨l, hok, hl⟩ := UpdateSackList_spec hgt hnew hblocks
    exact ⟨l, (if_pos hgt).trans hok, hl⟩
  · exact ⟨b.m_sackList, if_neg hgt, hblocks⟩

omit h hle hspan in
/-- `Add` of a packet that has new bytes in the window. -/
theorem Add_eq {p piece : List UInt8} {s headSeq tailSeq nextRxSeq : SequenceNumber32}
    {w : SequenceNumber32 × SequenceNumber32} {data data' : List Entry}
    {size availBytes : UInt32} {sackList sackList' : List SackBlock}
    (hfit : b.fitWindow s (s + GetSize p) = w)
    (htrim : trim w.1 w.2 b.m_size b.m_data = (data, headSeq, tailSeq, size))
    (hge : ge headSeq tailSeq = false)
    (hpiece : (p.drop (headSeq - s).toNat).take (tailSeq - headSeq).toNat = piece)
    (hsize : GetSize piece = tailSeq - headSeq) (hcontains : contains headSeq data = false)
    (hassign : assign headSeq piece data = data')
    (hupdate : (if gt headSeq b.m_nextRxSeq then
      UpdateSackList b.m_nextRxSeq b.m_sackList headSeq tailSeq else .ok b.m_sackList) =
        .ok sackList)
    (hadvance : advance b.m_nextRxSeq b.m_availBytes sackList data' =
      .ok (nextRxSeq, availBytes, sackList')) :
    b.Add p s = .ok ({ b with
      m_data := data'
      m_size := size + GetSize piece
      m_nextRxSeq := if b.m_gotFin && nextRxSeq == b.m_finSeq then nextRxSeq + 1 else nextRxSeq
      m_availBytes := availBytes
      m_sackList := sackList' }, true) := by
  unfold Add
  dsimp only
  rw [hfit, htrim]
  dsimp only
  rw [hge, hpiece, hsize, hcontains, hassign]
  simp only [ne_eq, not_true_eq_false, if_false, Bool.false_eq_true]
  by_cases hgt : gt headSeq b.m_nextRxSeq = true
  · rw [if_pos hgt] at hupdate ⊢
    simp only [bind, Except.bind, hupdate, hadvance]
  · rw [if_neg hgt] at hupdate ⊢
    obtain rfl := Except.ok.inj hupdate
    simp only [bind, Except.bind, hadvance]

/-- What is left of a segment is stored. -/
theorem Add_stores (hb : Buffered stream isn t.unread b parts) {parts' : List Part}
    (hsub : ∀ x ∈ parts', x ∈ parts) (hapart : Apart parts')
    (hcut : ∀ x ∈ parts', x.2 + x.1.length ≤ head ∨ tail ≤ x.2) (hstart : start ≤ head)
    (hedge : t.edge ≤ head) (hlt : head < tail) (htail : tail ≤ start + length)
    (hcovers : ∀ n, n ∈ ((received stream isn maxBuffer).next t (.add start length)).unread ↔
      Covers parts' n ∨ (head ≤ n ∧ n < tail))
    {w : SequenceNumber32 × SequenceNumber32}
    (hfit : b.fitWindow (seq isn start)
      (seq isn start + GetSize ((stream.drop start).take length)) = w)
    (htrim : trim w.1 w.2 b.m_size b.m_data = (parts'.map (entry isn), seq isn head,
      seq isn tail, UInt32.ofNat (totalLength parts'))) :
    ∃ b', b.Add ((stream.drop start).take length) (seq isn start) = .ok (b', true) ∧
      Represents stream isn maxBuffer b'
        ((received stream isn maxBuffer).next t (.add start length)) := by
  set t' := (received stream isn maxBuffer).next t (.add start length) with ht'
  set piece := (((stream.drop start).take length).drop (head - start)).take (tail - head)
    with hpiece
  obtain ⟨hsegment, hbytes, -⟩ := hspan
  have hread := h.read
  have hbetween : ∀ x ∈ parts', Between (min start t.read) x :=
    fun x hx => hb.between (min_le_right ..) hbytes x (hsub x hx)
  -- The part of the segment that is stored, and the list it is stored in.
  have hp : IsSlice stream start ((stream.drop start).take length) := by
    have := (isSlice_self stream).sub (n := start) (m := length) hle
    rwa [Nat.zero_add] at this
  have hlength : ((stream.drop start).take length).length = length := by
    rw [List.length_take, List.length_drop]
    omega
  have hplength : piece.length = tail - head := by
    rw [hpiece, List.length_take, List.length_drop, hlength]
    omega
  have hslice : IsSlice stream head piece := by
    have := hp.sub (n := head - start) (m := tail - head) (by omega)
    rwa [Nat.add_sub_cancel' hstart] at this
  obtain ⟨parts'', hassign, hapart'', hslice'', hcovers'', htotal, hmem⟩ :=
    assign_spec isn hbetween (by omega) (by omega) (by omega) hapart
      (fun x hx => (hcut x hx).imp_right fun h => by omega) (fun x hx => hb.slice x (hsub x hx))
      hslice
  rw [hplength, Nat.add_sub_cancel' (Nat.le_of_lt hlt)] at hcovers''
  have hbetween'' : ∀ x ∈ parts'', Between (min start t.read) x := by
    intro x hx
    obtain rfl | hx := hmem x hx
    · exact ⟨by dsimp only; omega, by dsimp only; omega⟩
    · exact hbetween x hx
  have hunread : ∀ n, n ∈ t'.unread ↔ Covers parts'' n :=
    fun n => (hcovers n).trans (hcovers'' n).symm
  have hbytes' : ∀ n, n ∈ t.bytes → n ∈ t'.bytes := fun n hn => Finset.mem_union_left _ hn
  have hnext : t.next stream = t.edge := if_neg fun h => by omega
  have hedge' := edge_lt h hbytes
  -- The blocks to report, and the next byte expected.
  have hnew : ∀ n, head ≤ n → n < tail → n ∈ t'.bytes := fun n hn hn' =>
    (Received.mem_unread.mp ((hcovers n).mpr (Or.inr ⟨hn, hn'⟩))).1
  have hblocks : ∀ block ∈ b.m_sackList, IsBlock isn t.edge (· ∈ t'.bytes) block :=
    fun block hblock => (h.sackList block hblock).imp hbytes'
  obtain ⟨sackList, hupdate, hsackList⟩ :=
    exists_sackList ⟨head, tail, rfl, hedge, hlt, by omega, hnew⟩ hblocks
  have hstraddle : ∀ x ∈ parts'', x.2 + x.1.length ≤ t.edge ∨ t.edge ≤ x.2 := by
    intro x hx
    obtain rfl | hx := hmem x hx
    · exact Or.inr hedge
    · refine or_iff_not_imp_left.mpr fun hend => Nat.le_of_not_lt fun hbefore => ?_
      have := hb.mem_unread (hsub x hx) (Nat.le_of_lt hbefore) (Nat.lt_of_not_le hend)
      exact t.edge_notMem (Received.mem_unread.mp this).1
  obtain ⟨n', sackList', hadvance, hle', hcontiguous, hend, hsackList'⟩ :=
    advance_spec b.m_availBytes hbetween'' hapart'' (by omega) (by omega) hstraddle
      hsackList
  -- The loop ends at the first gap, which is the edge of what has come.
  have hedge'' : t'.edge = n' := by
    refine Received.edge_eq (fun m hm => ?_) fun hmem' => ?_
    · by_cases hold : m < t.edge
      · exact hbytes' m (Received.mem_of_lt_edge hold)
      · exact (Received.mem_unread.mp ((hunread m).mpr (hcontiguous m (by omega) hm))).1
    · exact hend ((hunread n').mp (Received.mem_unread.mpr ⟨hmem', le_trans hread hle'⟩))
  have hmembytes : ∀ m ∈ t'.bytes, m < stream.length ∧ m + 2 < min start t.read + 2 ^ 31 := by
    intro m hm
    obtain hm | hm := Finset.mem_union.mp hm
    · exact ⟨(h.bytes m hm).1, hbytes m hm⟩
    · have := Finset.mem_Ico.mp (Finset.mem_filter.mp hm).1
      omega
  -- Nothing the code computes wraps around.
  have htotal' : totalLength parts'' < 2 ^ 31 := by
    have := hapart''.totalLength_le
      (by omega : min start t.read ≤ min start t.read + 2 ^ 31 - 1)
      (fun x hx => (hbetween'' x hx).lo_le)
      fun x hx => by have := (hbetween'' x hx).lt; omega
    omega
  have hnlt : n' + 1 < min start t.read + 2 ^ 31 := by
    by_cases hzero : n' = 0
    · omega
    · have := hmembytes (n' - 1) (Received.mem_of_lt_edge (by omega))
      omega
  have hsize : GetSize piece = UInt32.ofNat (tail - head) := by rw [GetSize, hplength]
  have hstartSeq : (seq isn head - seq isn start).toNat = head - start := by
    rw [seq_sub hstart, UInt32.toNat_ofNat', Nat.mod_eq_of_lt (by omega)]
  have hlengthSeq : seq isn tail - seq isn head = UInt32.ofNat (tail - head) :=
    seq_sub (Nat.le_of_lt hlt)
  have hcontains : contains (seq isn head) (parts'.map (entry isn)) = false := by
    refine contains_map hbetween (by omega) (by omega) fun x hx heq => ?_
    have := hapart.pos x hx
    have := hcut x hx
    omega
  have hge : ge (seq isn head) (seq isn tail) = false := by
    rw [ge_seq (by omega) (by omega), decide_eq_false_iff_not]
    exact Nat.not_le_of_lt hlt
  have hnextSeq : b.m_nextRxSeq = seq isn t.edge := by rw [h.next, hnext]
  -- The new state, and field by field what it represents.
  refine ⟨{ b with
    m_data := parts''.map (entry isn)
    m_size := UInt32.ofNat (totalLength parts') + GetSize piece
    m_nextRxSeq := if b.m_gotFin && seq isn n' == b.m_finSeq then seq isn n' + 1 else seq isn n'
    m_availBytes := b.m_availBytes + UInt32.ofNat (n' - t.edge)
    m_sackList := sackList' }, ?_, ?_⟩
  · refine Add_eq hfit htrim hge ?_ (hsize.trans hlengthSeq.symm) hcontains hassign hupdate ?_
    · rw [hstartSeq, hlengthSeq, UInt32.toNat_ofNat', Nat.mod_eq_of_lt (by omega)]
    · rw [hnextSeq]
      exact hadvance
  · refine ⟨⟨parts'', rfl, hapart'', hslice'', hunread, ?_⟩, ?_, ?_, ?_, ?_, h.gotFin, h.finSeq, ?_,
      h.maxBuffer⟩
    · rw [hsize, ← UInt32.ofNat_add, UInt32.toNat_ofNat', Nat.mod_eq_of_lt (by omega)]
      omega
    · dsimp only
      rw [← hedge'']
      exact seq_next h.gotFin (by rw [hedge'']; exact le_trans hread hle') h.finSeq
        (edge_le fun m hm => (hmembytes m hm).1)
    · have hold := h.avail
      dsimp only
      rw [UInt32.toNat_add, hold, UInt32.toNat_ofNat', hedge'']
      change (t.edge - t.read + (n' - t.edge) % 2 ^ 32) % 2 ^ 32 = n' - t.read
      omega
    · rw [hedge'']
      exact le_trans hread hle'
    · intro m hm
      obtain ⟨hlen, hspan⟩ := hmembytes m hm
      exact ⟨hlen, lt_of_lt_of_le hspan (Nat.add_le_add_right (min_le_right ..) _)⟩
    · intro block hblock
      obtain ⟨hold, hclear⟩ := hsackList' block hblock
      rw [hedge'']
      obtain heq | hlt' := Nat.eq_or_lt_of_le hle'
      · exact heq ▸ hsackList block hold
      · exact (hsackList block hold).after hle' (by omega) (hedge'' ▸ t'.edge_notMem)
          (hclear hlt')

/-- `Add` simulates the arrival of a part of the stream. -/
theorem Add_refines :
    Refinement.StepRefines (step stream isn) (received stream isn maxBuffer)
      (Represents stream isn maxBuffer) b t (.add start length) := by
  obtain ⟨parts, hb⟩ := h.buffered
  obtain ⟨head, tail, ⟨hlohead, hlotail, hhead, htail⟩, hwindow, hfit, htrim⟩ :=
    Add_trim h hle hspan hb
  have hmono := le_trimAt head tail parts
  have hseg := hspan.1
  have hin := trimAt_between (hb.between (min_le_right ..) hspan.2.1) hhead hlotail
  -- Something new is left to store, or everything was there already.
  by_cases hlt : (trimAt head tail parts).2.1 < (trimAt head tail parts).2.2
  · obtain ⟨hstart, hnext, -, hin'⟩ :=
      (hwindow (trimAt head tail parts).2.1).mp ⟨hmono.1, lt_of_lt_of_le hlt hmono.2⟩
    have hedge := le_trans (t.le_next stream).1 hnext
    have hunread : ∀ n, n ∈ ((received stream isn maxBuffer).next t (.add start length)).unread ↔
        Covers parts n ∨ (head ≤ n ∧ n < tail) := by
      intro n
      rw [← hb.covers n, Received.mem_unread, Received.mem_unread]
      change (n ∈ t.bytes ∪ t.fresh maxBuffer start length ∧ t.read ≤ n) ↔ _
      rw [Finset.mem_union, mem_fresh_iff hle hwindow]
      have hafter : head ≤ n ∧ n < tail → t.read ≤ n := fun hn =>
        le_trans h.read (le_trans (t.le_next stream).1 ((hwindow n).mp hn).2.1)
      tauto
    have hnew : (trimAt head tail parts).2.1 ∉ t.bytes := fun hmem =>
      trimAt_head hb.apart hlt ((hb.covers _).mp
        (Received.mem_unread.mpr ⟨hmem, le_trans h.read hedge⟩))
    have hfresh : (t.fresh maxBuffer start length).Nonempty :=
      ⟨_, (mem_fresh_iff hle hwindow).mpr ⟨hnew, hmono.1, lt_of_lt_of_le hlt hmono.2⟩⟩
    obtain ⟨b', hadd, hb'⟩ := Add_stores h hle hspan hb
      (fun x hx => (trimAt_sublist head tail parts).subset hx)
      (hb.apart.sublist (trimAt_sublist head tail parts)) (trimAt_apart hb.apart hlt) hstart hedge
      hlt (le_trans hmono.2 htail) (fun n => (hunread n).trans trimAt_covers.symm) hfit htrim
    refine ⟨b', ?_, hb'⟩
    simp only [step, received, bind, Except.bind, hadd, hfresh, decide_true]
  · obtain ⟨heq, hcovers⟩ := trimAt_nothing hb.apart (Nat.le_of_not_lt hlt)
    have hfresh : t.fresh maxBuffer start length = ∅ := by
      refine Finset.eq_empty_of_forall_notMem fun n hn => ?_
      obtain ⟨hnew, hn⟩ := (mem_fresh_iff hle hwindow).mp hn
      exact hnew (Received.mem_unread.mp ((hb.covers n).mpr (hcovers n hn.1 hn.2))).1
    have hsame : (received stream isn maxBuffer).next t (.add start length) = t := by
      dsimp only [received]
      rw [hfresh, Finset.union_empty]
    have hb' : ({ b with
        m_data := (trimAt head tail parts).1.map (entry isn)
        m_size := UInt32.ofNat (totalLength (trimAt head tail parts).1) } : TcpRxBuffer) = b := by
      rw [heq, ← hb.data, ← hb.size, UInt32.ofNat_toNat]
    refine ⟨b, ?_, hsame.symm ▸ h⟩
    have hge : ge (seq isn (trimAt head tail parts).2.1) (seq isn (trimAt head tail parts).2.2) =
        true := by
      rw [ge_seq (by omega) (by omega), decide_eq_true_iff]
      exact Nat.le_of_not_lt hlt
    dsimp only [step, received]
    unfold Add
    dsimp only
    rw [hfit]
    dsimp only
    rw [htrim, hfresh]
    dsimp only
    rw [if_pos hge, hb']
    rfl

end

/-! ### Segments out -/

/-- Differences of lengths are computed without wrap-around. -/
theorem ofNat_add_sub (m n : ℕ) : UInt32.ofNat (m + n) - UInt32.ofNat n = UInt32.ofNat m := by
  rw [UInt32.ofNat_add, UInt32.add_sub_cancel]

/-- A length below `2 ^ 32` is zero if its machine word is. -/
theorem ofNat_eq_zero (hlt : n < 2 ^ 32) : UInt32.ofNat n = 0 ↔ n = 0 := by
  rw [← UInt32.toNat_inj, UInt32.toNat_ofNat', Nat.mod_eq_of_lt hlt]
  rfl

section ExtractLoop

variable {next k : ℕ} {x : Part} {rest : List Part} (size avail : ℕ) (out : List UInt8)
  (hkey : le (entry isn x).1 (seq isn next) = true) (hk : 0 < k) (hlt : k < 2 ^ 32)

include hkey hk hlt

/-- The first packet is taken as a whole. -/
theorem extractLoop_whole (hle : x.1.length ≤ k) :
    extractLoop (seq isn next) out (UInt32.ofNat k)
        (UInt32.ofNat (size + totalLength (x :: rest))) (UInt32.ofNat (avail + k))
        ((x :: rest).map (entry isn)) =
      extractLoop (seq isn next) (out ++ x.1) (UInt32.ofNat (k - x.1.length))
        (UInt32.ofNat (size + totalLength rest)) (UInt32.ofNat (avail + (k - x.1.length)))
        (rest.map (entry isn)) := by
  have hzero : ¬ UInt32.ofNat k = 0 := fun h => Nat.ne_of_gt hk ((ofNat_eq_zero hlt).mp h)
  have hsize : GetSize (entry isn x).2 = UInt32.ofNat x.1.length := rfl
  have hwhole : UInt32.ofNat x.1.length ≤ UInt32.ofNat k := by
    rw [UInt32.le_iff_toNat_le, UInt32.toNat_ofNat', UInt32.toNat_ofNat',
      Nat.mod_eq_of_lt (by omega), Nat.mod_eq_of_lt hlt]
    exact hle
  have hsum : size + totalLength (x :: rest) = size + totalLength rest + x.1.length := by
    rw [totalLength]
    omega
  have hsub : UInt32.ofNat k - UInt32.ofNat x.1.length = UInt32.ofNat (k - x.1.length) := by
    conv_lhs => rw [← Nat.sub_add_cancel hle]
    exact ofNat_add_sub ..
  have havail : avail + k = avail + (k - x.1.length) + x.1.length := by omega
  rw [List.map_cons, extractLoop, if_neg hzero, if_pos hkey]
  dsimp only
  rw [hsize, if_pos hwhole, hsum, ofNat_add_sub, hsub, havail, ofNat_add_sub]
  rfl

/-- A part of the first packet is taken, and the other part put in its place. -/
theorem extractLoop_part (hx : Between lo x) (hlen : k < x.1.length) {parts' : List Part}
    (hassign : assign (seq isn (x.2 + k)) ((x.1.drop k).take (x.1.length - k))
      (rest.map (entry isn)) = parts'.map (entry isn))
    (htotal : totalLength (x :: rest) = totalLength parts' + k) :
    extractLoop (seq isn next) out (UInt32.ofNat k)
        (UInt32.ofNat (size + totalLength (x :: rest))) (UInt32.ofNat (avail + k))
        ((x :: rest).map (entry isn)) =
      .ok (out ++ x.1.take k, UInt32.ofNat (size + totalLength parts'), UInt32.ofNat avail,
        parts'.map (entry isn)) := by
  obtain ⟨hlox, hltx⟩ := hx
  have hzero : ¬ UInt32.ofNat k = 0 := fun h => Nat.ne_of_gt hk ((ofNat_eq_zero hlt).mp h)
  have hsize : GetSize (entry isn x).2 = UInt32.ofNat x.1.length := rfl
  have hdata : (entry isn x).2 = x.1 := rfl
  have hpart : ¬ UInt32.ofNat x.1.length ≤ UInt32.ofNat k := by
    rw [UInt32.le_iff_toNat_le, UInt32.toNat_ofNat', UInt32.toNat_ofNat',
      Nat.mod_eq_of_lt (by omega), Nat.mod_eq_of_lt hlt]
    exact Nat.not_le_of_lt hlen
  have hnew : (entry isn x).1 + UInt32.ofNat k = seq isn (x.2 + k) := by rw [entry, seq_add]
  have hsub : UInt32.ofNat x.1.length - UInt32.ofNat k = UInt32.ofNat (x.1.length - k) := by
    conv_lhs => rw [← Nat.sub_add_cancel (Nat.le_of_lt hlen)]
    exact ofNat_add_sub ..
  have hbefore : lt (seq isn (x.2 + k)) (entry isn x).1 = false := by
    rw [entry, lt_seq (by omega) (by omega), decide_eq_false_iff_not]
    omega
  have hafter : lt (entry isn x).1 (seq isn (x.2 + k)) = true := by
    rw [entry, lt_seq (by omega) (by omega), decide_eq_true_iff]
    omega
  rw [List.map_cons, extractLoop, if_neg hzero, if_pos hkey]
  dsimp only
  rw [hsize, if_neg hpart, hnew, hsub, UInt32.toNat_ofNat', UInt32.toNat_ofNat',
    Nat.mod_eq_of_lt hlt, Nat.mod_eq_of_lt (by omega), hdata, assign, hbefore, hafter,
    if_neg Bool.false_ne_true, if_pos rfl, hassign, htotal, ← Nat.add_assoc, ofNat_add_sub,
    ofNat_add_sub, List.eraseP_cons_of_pos (by exact beq_self_eq_true _)]
  rfl

end ExtractLoop

/-- The bytes that the loop takes are the next ones of the stream. -/
theorem extractLoop_spec (isn : SequenceNumber32) {next : ℕ} (r k size avail : ℕ)
    (out : List UInt8) (hparts : ∀ x ∈ parts, Between lo x) (hapart : Apart parts)
    (hslice : ∀ x ∈ parts, IsSlice stream x.2 x.1) (hlo : lo ≤ r) (hfirst : ∀ x ∈ parts, r ≤ x.2)
    (hcovers : ∀ n, r ≤ n → n < r + k → Covers parts n) (hnext : r + k ≤ next)
    (hlt : next < lo + 2 ^ 31) :
    ∃ parts', extractLoop (seq isn next) out (UInt32.ofNat k)
        (UInt32.ofNat (size + totalLength parts)) (UInt32.ofNat (avail + k))
        (parts.map (entry isn)) =
          .ok (out ++ (stream.drop r).take k, UInt32.ofNat (size + totalLength parts'),
            UInt32.ofNat avail, parts'.map (entry isn)) ∧
      Apart parts' ∧ (∀ x ∈ parts', IsSlice stream x.2 x.1) ∧
      ∀ n, Covers parts' n ↔ Covers parts n ∧ r + k ≤ n := by
  -- One turn of the loop for each packet, with the bytes still wanted.
  induction parts generalizing r k out with
  | nil =>
    obtain rfl : k = 0 := by
      by_contra hk
      exact not_covers_nil (hcovers r le_rfl (by omega))
    refine ⟨[], ?_, hapart, nofun, fun n => ?_⟩
    · rw [List.take_zero, List.append_nil]
      exact if_pos rfl
    · exact ⟨fun h => absurd h not_covers_nil, fun h => h.1⟩
  | cons x rest ih =>
    by_cases hk : k = 0
    · subst hk
      refine ⟨x :: rest, ?_, hapart, hslice, fun n => ⟨fun h => ⟨h, ?_⟩, fun h => h.1⟩⟩
      · rw [List.take_zero, List.append_nil]
        exact if_pos rfl
      · obtain ⟨y, hy, hle, -⟩ := h
        exact le_trans (hfirst y hy) hle
    -- The first packet starts with the byte that is to be taken next.
    obtain ⟨hlox, hltx⟩ := hparts x (List.mem_cons_self ..)
    have hxpos := hapart.pos x (List.mem_cons_self ..)
    have hxr : x.2 = r := by
      refine le_antisymm ?_ (hfirst x (List.mem_cons_self ..))
      obtain h | ⟨y, hy, hle, -⟩ := covers_cons.mp (hcovers r le_rfl (by omega))
      · exact h.1
      · have := hapart.head_le y hy
        omega
    have hpart : x.1 = (stream.drop r).take x.1.length :=
      hxr ▸ (hslice x (List.mem_cons_self ..)).eq_take_drop
    have hkey : le (entry isn x).1 (seq isn next) = true := by
      rw [entry, le_seq (by omega) (by omega), decide_eq_true_iff]
      omega
    have hrest : ∀ y ∈ rest, Between lo y := fun y hy => hparts y (List.mem_cons_of_mem x hy)
    have hslice' : ∀ y ∈ rest, IsSlice stream y.2 y.1 :=
      fun y hy => hslice y (List.mem_cons_of_mem x hy)
    -- It is taken whole, or cut and its rest stored again.
    by_cases hle : x.1.length ≤ k
    · obtain ⟨parts', hok, hapart', hslice'', hcovers'⟩ := ih (r + x.1.length)
        (k - x.1.length) (out ++ x.1) hrest hapart.tail hslice' (by omega)
        (fun y hy => hxr ▸ hapart.head_le y hy)
        (fun n hn hn' => (covers_cons.mp (hcovers n (by omega) (by omega))).resolve_left
          (by omega))
        (by omega)
      refine ⟨parts', ?_, hapart', hslice'', fun n => ?_⟩
      · have hout : out ++ (stream.drop r).take k =
            out ++ x.1 ++ (stream.drop (r + x.1.length)).take (k - x.1.length) := by
          conv_lhs => rw [← Nat.add_sub_cancel' hle, List.take_add, ← hpart, List.drop_drop]
          rw [List.append_assoc]
        rw [extractLoop_whole size avail out hkey (by omega) (by omega) hle, hout]
        exact hok
      · rw [hcovers', covers_cons]
        refine ⟨fun h => ⟨Or.inr h.1, by omega⟩, fun h => ⟨h.1.resolve_left (by omega), by omega⟩⟩
    · set piece := (x.1.drop k).take (x.1.length - k) with hpiece
      have hplength : piece.length = x.1.length - k := by
        rw [hpiece, List.length_take, List.length_drop]
        omega
      obtain ⟨parts', hassign, hapart', hslice'', hcovers', htotal, -⟩ :=
        assign_spec (n := r + k) (p := piece) isn hrest (by omega) (by omega) (by omega)
          hapart.tail (fun y hy => Or.inr (by have := hapart.head_le y hy; omega)) hslice'
          (hxr ▸ (hslice x (List.mem_cons_self ..)).sub (by omega))
      refine ⟨parts', ?_, hapart', hslice'', fun n => ?_⟩
      · have hout : x.1.take k = (stream.drop r).take k := by
          rw [hpart, List.take_take, min_eq_left (Nat.le_of_not_le hle)]
        have hsum : totalLength (x :: rest) = totalLength parts' + k := by
          rw [totalLength, htotal]
          omega
        rw [← hxr] at hassign
        rw [extractLoop_part size avail out hkey (by omega) (by omega) ⟨hlox, hltx⟩ (by omega)
          hassign hsum, hout]
      · rw [hcovers', covers_cons, hplength]
        constructor
        · rintro (h | h)
          · obtain ⟨y, hy, hyn, -⟩ := id h
            have := hapart.head_le y hy
            exact ⟨Or.inr h, by omega⟩
          · exact ⟨Or.inl (by omega), h.1⟩
        · rintro ⟨h | h, hle⟩
          · exact Or.inr (by omega)
          · exact Or.inl h

/-- Everything between the application and the edge is stored. -/
theorem Represents.mem_buffered (hb : Buffered stream isn t.unread b parts)
    (hle : t.read ≤ n) (hlt : n < t.edge) : Covers parts n :=
  (hb.covers n).mp (Received.mem_unread.mpr ⟨Received.mem_of_lt_edge hlt, hle⟩)

/-- `Extract` simulates the application's reading. -/
theorem Extract_refines (h : Represents stream isn maxBuffer b t) (maxSize : UInt32) :
    Refinement.StepRefines (step stream isn) (received stream isn maxBuffer)
      (Represents stream isn maxBuffer) b t (.extract maxSize) := by
  obtain ⟨parts, hb⟩ := h.buffered
  have hread := h.read
  have hedge := edge_lt h fun m hm => (h.bytes m hm).2
  have hlength := edge_le fun m hm => (h.bytes m hm).1
  have hnext := t.le_next stream
  -- The number of bytes handed out.
  set k := min (t.edge - t.read) maxSize.toNat with hk
  have hsize : (if b.m_availBytes < maxSize then b.m_availBytes else maxSize) =
      UInt32.ofNat k := by
    have havail : b.m_availBytes = UInt32.ofNat (t.edge - t.read) := by
      rw [← h.avail, UInt32.ofNat_toNat]
    by_cases hlt : b.m_availBytes < maxSize
    · rw [if_pos hlt, havail, hk, min_eq_left]
      exact h.avail ▸ Nat.le_of_lt (UInt32.lt_iff_toNat_lt.mp hlt)
    · rw [if_neg hlt, hk, min_eq_right, UInt32.ofNat_toNat]
      exact h.avail ▸ Nat.le_of_not_lt fun h => hlt (UInt32.lt_iff_toNat_lt.mpr h)
  have hread' : min t.edge (t.read + maxSize.toNat) = t.read + k := by omega
  by_cases hzero : k = 0
  · refine ⟨b, ?_, ?_⟩
    · dsimp only [step, received]
      unfold Extract
      dsimp only
      rw [hsize, ← hk, if_pos hzero, hzero]
      rfl
    · dsimp only [received]
      rw [hread', hzero]
      exact h
  · obtain ⟨parts', hok, hapart', hslice', hcovers'⟩ := extractLoop_spec isn
      t.read k 0 (t.edge - t.read - k) [] (hb.between le_rfl fun m hm => (h.bytes m hm).2)
      hb.apart hb.slice le_rfl
      (fun x hx => (Received.mem_unread.mp (hb.mem_unread hx le_rfl
        (by have := hb.apart.pos x hx; omega))).2)
      (fun n hn hn' => Represents.mem_buffered hb hn (by omega))
      (by omega : t.read + k ≤ t.next stream) (by omega)
    -- The assertions of the code pass.
    have hlength' : ((stream.drop t.read).take k).length = k := by
      rw [List.length_take, List.length_drop]
      omega
    have hzero' : ¬ UInt32.ofNat k = 0 := fun h => hzero ((ofNat_eq_zero (by omega)).mp h)
    have hdata : ¬ b.m_data.length = 0 := by
      obtain ⟨x, hx, -⟩ := Represents.mem_buffered hb le_rfl (by omega : t.read < t.edge)
      rw [hb.data, List.length_map]
      exact Nat.ne_of_gt (List.length_pos_of_mem hx)
    have havail : b.m_availBytes = UInt32.ofNat (t.edge - t.read - k + k) := by
      rw [Nat.sub_add_cancel (by omega), ← h.avail, UInt32.ofNat_toNat]
    have hsize' : b.m_size = UInt32.ofNat (0 + totalLength parts) := by
      rw [Nat.zero_add, ← hb.size, UInt32.ofNat_toNat]
    have htotal : t.read + totalLength parts' ≤ t.read + 2 ^ 31 - 1 := by
      refine hapart'.totalLength_le_of_covers (by omega) fun n hn => ?_
      have hn' := Received.mem_unread.mp ((hb.covers n).mpr ((hcovers' n).mp hn).1)
      have := h.bytes n hn'.1
      omega
    -- What is left is the unread part behind the bytes handed out.
    refine ⟨{ b with
      m_data := parts'.map (entry isn)
      m_size := UInt32.ofNat (0 + totalLength parts')
      m_availBytes := UInt32.ofNat (t.edge - t.read - k) }, ?_, ?_⟩
    · dsimp only [step, received]
      unfold Extract
      dsimp only
      rw [hsize, ← hk, if_neg hzero, if_neg hzero', if_neg hdata, h.next, hsize', havail, hb.data,
        hok, List.nil_append]
      simp only [bind, Except.bind, GetSize, hlength', if_neg hzero']
    · have hunread : ∀ n, n ∈ ((received stream isn maxBuffer).next t (.extract maxSize)).unread ↔
          n ∈ t.unread ∧ t.read + k ≤ n := by
        intro n
        rw [Received.mem_unread, Received.mem_unread]
        dsimp only [received]
        rw [hread']
        refine ⟨fun hn => ⟨⟨hn.1, by omega⟩, hn.2⟩, fun hn => ⟨hn.1.1, hn.2⟩⟩
      have hread'' : ((received stream isn maxBuffer).next t (.extract maxSize)).read =
          t.read + k := hread'
      refine ⟨⟨parts', rfl, hapart', hslice', fun n => ?_, ?_⟩, h.next, ?_, ?_, fun m hm => ?_,
        h.gotFin, fun hfin => ?_, h.sackList, h.maxBuffer⟩
      · rw [hunread, hcovers', hb.covers]
      · rw [UInt32.toNat_ofNat', Nat.mod_eq_of_lt (by omega), Nat.zero_add]
      · rw [hread'', UInt32.toNat_ofNat', Nat.mod_eq_of_lt (by omega)]
        exact Nat.sub_sub ..
      · rw [hread'']
        change t.read + k ≤ t.edge
        omega
      · rw [hread'']
        have := h.bytes m hm
        omega
      · rw [hread'']
        have := h.finSeq hfin
        exact ⟨this.1, by omega⟩

/-! ### Runs -/

/-- `SetFinSequence` simulates the news of the end. -/
theorem SetFinSequence_refines (h : Represents stream isn maxBuffer b t)
    (hlt : stream.length + 1 < t.read + 2 ^ 31) :
    Refinement.StepRefines (step stream isn) (received stream isn maxBuffer)
      (Represents stream isn maxBuffer) b t .setFinSequence := by
  obtain ⟨parts, hb⟩ := h.buffered
  have hread := h.read
  have hedge := edge_le fun m hm => (h.bytes m hm).1
  have hnext := t.le_next stream
  refine ⟨_, rfl, ⟨parts, hb.data, hb.apart, hb.slice, hb.covers, hb.size⟩, ?_, h.avail, h.read,
    h.bytes, rfl, fun _ => ⟨rfl, hlt⟩, h.sackList, h.maxBuffer⟩
  have heq : (b.m_nextRxSeq == seq isn stream.length) = decide (t.next stream = stream.length) := by
    rw [h.next, Bool.eq_iff_iff, beq_iff_eq, decide_eq_true_iff, seq_inj (by omega) (by omega)]
  have hedge' : Received.edge { t with fin := true } = t.edge := rfl
  dsimp only [SetFinSequence, received, Received.next]
  rw [heq, hedge']
  simp only [decide_eq_true_eq, true_and]
  rw [h.next]
  -- If the end was counted before, the place after it is not the end.
  unfold Received.next at hnext ⊢
  split_ifs at hnext ⊢
  all_goals
    first
    | rfl
    | exact seq_add isn t.edge 1
    | omega

/-- `Finished` says that the end is known and everything before it has come. -/
theorem Finished_eq (h : Represents stream isn maxBuffer b t) :
    b.Finished = decide (t.fin = true ∧ t.edge = stream.length) := by
  have hread := h.read
  have hedge := edge_le fun m hm => (h.bytes m hm).1
  rw [Finished, h.gotFin, h.next]
  cases hfin : t.fin with
  | false => rfl
  | true =>
    obtain ⟨hseq, hlt⟩ := h.finSeq hfin
    rw [hseq, Bool.true_and, Received.next, hfin]
    simp only [true_and]
    split_ifs with heq
    · rw [lt_seq (by omega) (by omega)]
      exact decide_eq_decide.mpr (by omega)
    · rw [lt_seq (by omega) (by omega)]
      exact decide_eq_decide.mpr (by omega)

/-- What `MaxRxSequence` answers, in terms of the stream. -/
theorem MaxRxSequence_eq (h : Represents stream isn maxBuffer b t) :
    b.MaxRxSequence = if t.fin then seq isn stream.length
      else if t.read < t.edge then seq isn t.read + maxBuffer
      else seq isn t.edge + maxBuffer := by
  obtain ⟨parts, hb⟩ := h.buffered
  have hread := h.read
  have hedge := edge_lt h fun m hm => (h.bytes m hm).2
  rw [MaxRxSequence, h.gotFin]
  cases hfin : t.fin with
  | true => exact (h.finSeq hfin).1
  | false =>
    have hnext : t.next stream = t.edge := if_neg fun h => by simp [hfin] at h
    simp only [Bool.false_eq_true, if_false]
    rw [hb.data, h.next, hnext, h.maxBuffer]
    cases parts with
    | nil =>
      have hempty : ¬ t.read < t.edge := fun hlt =>
        not_covers_nil (Represents.mem_buffered hb le_rfl hlt)
      exact (if_neg hempty).symm
    | cons x rest =>
      obtain ⟨hx, hmin⟩ := hb.first
      obtain ⟨hxbytes, hxread⟩ := Received.mem_unread.mp hx
      have hxlt := (h.bytes x.2 hxbytes).2
      have hgt : gt (seq isn t.edge) (entry isn x).1 = decide (x.2 < t.edge) :=
        gt_seq (by omega) (by omega)
      simp only [List.map_cons, hgt, decide_eq_true_eq]
      -- The first packet starts with the first byte that is not taken, if that was received.
      by_cases hlt : t.read < t.edge
      · have hfirst : x.2 = t.read := le_antisymm
          (hmin _ (Received.mem_unread.mpr ⟨Received.mem_of_lt_edge hlt, le_rfl⟩)) hxread
        rw [if_pos hlt, if_pos (by omega), entry, hfirst]
      · rw [if_neg hlt, if_neg (by omega)]

/-- Every call does what a receiver is to do. -/
theorem step_refines (call : Call) (h : Represents stream isn maxBuffer b t)
    (hallowed : (received stream isn maxBuffer).Allowed t call) :
    Refinement.StepRefines (step stream isn) (received stream isn maxBuffer)
      (Represents stream isn maxBuffer) b t call := by
  cases call with
  | add start length => exact Add_refines h hallowed.1 hallowed.2
  | extract maxSize => exact Extract_refines h maxSize
  | setFinSequence => exact SetFinSequence_refines h hallowed
  | finished => exact ⟨b, by rw [step, Finished_eq h]; rfl, h⟩
  | maxRxSequence => exact ⟨b, by rw [step, MaxRxSequence_eq h]; rfl, h⟩

/-- A new buffer represents a connection on which nothing has come. -/
theorem represents_new (stream : List UInt8) (isn : SequenceNumber32) (maxBuffer : UInt32) :
    Represents stream isn maxBuffer (new isn maxBuffer) ⟨∅, 0, false⟩ := by
  have hedge : Received.edge ⟨∅, 0, false⟩ = 0 :=
    Received.edge_eq (fun m hm => absurd hm (Nat.not_lt_zero m)) (Finset.notMem_empty 0)
  refine ⟨⟨[], rfl, apart_nil, nofun, fun n => ?_, rfl⟩, ?_, ?_, ?_, ?_, rfl, nofun, nofun, rfl⟩
  · exact ⟨fun h => absurd (Received.mem_unread.mp h).1 (Finset.notMem_empty n),
      fun h => absurd h not_covers_nil⟩
  · exact (seq_zero isn).symm.trans (congrArg (seq isn) hedge.symm)
  · rw [hedge]
    rfl
  · exact Nat.zero_le _
  · exact fun m hm => absurd hm (Finset.notMem_empty m)

end Run

/-- The bytes that the application gets, put together. -/
def extracted : List Answer → List UInt8
  | [] => []
  | .packet (some p) :: answers => p ++ extracted answers
  | _ :: answers => extracted answers

/-- A receiver hands on what comes next in the stream. -/
theorem extracted_eq (stream : List UInt8) (isn : SequenceNumber32) (maxBuffer : UInt32)
    (calls : List Call) {t : Received} (hread : t.read ≤ t.edge) :
    ∃ n, extracted ((received stream isn maxBuffer).answers t calls) =
      (stream.drop t.read).take n := by
  induction calls generalizing t with
  | nil => exact ⟨0, (List.take_zero ..).symm⟩
  | cons call calls ih =>
    cases call with
    | add start length =>
      have hmono : t.edge ≤ ((received stream isn maxBuffer).next t (.add start length)).edge :=
        Nat.le_of_not_lt fun h => Received.edge_notMem _
          (Finset.mem_union_left _ (Received.mem_of_lt_edge h))
      exact ih (t := (received stream isn maxBuffer).next t (.add start length))
        (le_trans hread hmono)
    | extract maxSize =>
      obtain ⟨n, hn⟩ := ih (t := (received stream isn maxBuffer).next t (.extract maxSize))
        (min_le_left ..)
      have hread' : min t.edge (t.read + maxSize.toNat) =
          t.read + min (t.edge - t.read) maxSize.toNat := by omega
      rw [Refinement.Spec.answers]
      dsimp only [received] at hn ⊢
      rw [hread'] at hn ⊢
      split_ifs with hzero
      · rw [hzero, Nat.add_zero] at hn ⊢
        exact ⟨n, hn⟩
      · refine ⟨min (t.edge - t.read) maxSize.toNat + n, ?_⟩
        rw [List.take_add, List.drop_drop]
        exact congrArg (_ ++ ·) hn
    | setFinSequence => exact ih (t := (received stream isn maxBuffer).next t .setFinSequence) hread
    | finished => exact ih hread
    | maxRxSequence => exact ih hread

end Ns3Joined.Internet.TcpRxBuffer
