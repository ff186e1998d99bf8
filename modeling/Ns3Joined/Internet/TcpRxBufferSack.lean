import Ns3Joined.Internet.TcpRxBufferCorrect
import Ns3Joined.Library.ExceptFold

/-!
# The blocks that the receive buffer of TCP reports

* `mergeBlocks_separate`: a block that has nothing in common with the others stays so when it is
  put together with those next to it.
* `mem_trimAt_iff`: the packets that a segment takes the place of.
-/

namespace Ns3Joined.Internet.TcpRxBuffer

open SequenceNumber Slices List

/-! ### Blocks that are put together -/

/-- The blocks have nothing in common. -/
def Disjoint (a b : SackBlock) : Prop := le a.2 b.1 = true ∨ le b.2 a.1 = true

/-- The blocks have nothing in common and do not meet. -/
def Separate (a b : SackBlock) : Prop := lt a.2 b.1 = true ∨ lt b.2 a.1 = true

/-- The blocks meet. -/
def Meet (a b : SackBlock) : Prop := a.1 = b.2 ∨ a.2 = b.1

/-- What is in the one block is in the other. -/
def Within (a b : SackBlock) : Prop := le b.1 a.1 = true ∧ le a.2 b.2 = true

variable {isn : SequenceNumber32} {lo : ℕ} {P : ℕ → Prop} {a b c first current : SackBlock}
  {seen rest sackList : List SackBlock}

/-- At most and not equal is less. -/
theorem lt_of_le_of_ne {x y : SequenceNumber32} (hle : le x y = true) (hne : x ≠ y) :
    lt x y = true := by
  rw [lt, Bool.and_eq_true]
  exact ⟨hle, bne_iff_ne.mpr hne⟩

/-- Being apart is symmetric. -/
theorem Separate.symm (h : Separate a b) : Separate b a := Or.symm h

/-- Disjoint blocks that do not meet are apart. -/
theorem separate_of_disjoint (h : Disjoint a b) (hmeet : ¬ Meet a b) : Separate a b := by
  obtain ⟨hne, hne'⟩ := not_or.mp hmeet
  exact h.imp (fun hle => lt_of_le_of_ne hle hne') fun hle => lt_of_le_of_ne hle (Ne.symm hne)

section

variable (ha : IsBlock isn lo P a)

include ha

/-- Two blocks that meet go to a block that has nothing in common with a third one, if one of them
has nothing in common with it and the other one is apart from it. -/
theorem Disjoint.merge (hb : IsBlock isn lo P b) (hc : IsBlock isn lo P c) (hmeet : b.1 = a.2)
    (hapart : Disjoint b c ∧ Separate a c ∨ Disjoint a c ∧ Separate b c) :
    Disjoint (a.1, b.2) c := by
  obtain ⟨a₁, a₂, rfl, _, _, _, -⟩ := ha
  obtain ⟨b₁, b₂, rfl, _, _, _, -⟩ := hb
  obtain ⟨c₁, c₂, rfl, _, _, _, -⟩ := hc
  obtain rfl : b₁ = a₂ := (seq_inj (by omega) (by omega)).mp hmeet
  unfold Disjoint Separate at *
  simp (disch := omega) only [le_seq, lt_seq, decide_eq_true_iff] at hapart ⊢
  omega

theorem Within.refl : Within a a := by
  obtain ⟨a₁, a₂, rfl, _, _, _, -⟩ := ha
  unfold Within
  rw [le_seq (by omega) (by omega), le_seq (by omega) (by omega)]
  simp

theorem Within.trans (hb : IsBlock isn lo P b) (hc : IsBlock isn lo P c) (hab : Within a b)
    (hbc : Within b c) : Within a c := by
  obtain ⟨a₁, a₂, rfl, _, _, _, -⟩ := ha
  obtain ⟨b₁, b₂, rfl, _, _, _, -⟩ := hb
  obtain ⟨c₁, c₂, rfl, _, _, _, -⟩ := hc
  unfold Within at *
  rw [le_seq (by omega) (by omega), le_seq (by omega) (by omega)] at *
  simp only [decide_eq_true_iff] at *
  omega

/-- Two blocks that meet lie within the merged one. -/
theorem within_merge (hb : IsBlock isn lo P b) (hmeet : b.1 = a.2) :
    Within a (a.1, b.2) ∧ Within b (a.1, b.2) := by
  obtain ⟨a₁, a₂, rfl, _, _, _, -⟩ := ha
  obtain ⟨b₁, b₂, rfl, _, _, _, -⟩ := hb
  obtain rfl : b₁ = a₂ := (seq_inj (by omega) (by omega)).mp hmeet
  unfold Within
  repeat rw [le_seq (by omega) (by omega)]
  simp only [decide_eq_true_iff]
  omega

end

/-- In a list of separate blocks each is apart from the others. -/
theorem separate_of_pairwise (h : (seen ++ current :: rest).Pairwise Separate) :
    ∀ b ∈ seen ++ rest, Separate current b := by
  obtain ⟨-, hcurrent, hcross⟩ := pairwise_append.mp h
  intro b hb
  obtain hb | hb := mem_append.mp hb
  · exact (hcross b hb current mem_cons_self).symm
  · exact (pairwise_cons.mp hcurrent).1 b hb

/-- The block is put together with those that meet it. The others stay, and all of them are
separate: of a block that has nothing in common with the others, and is separate from those that
were examined. -/
theorem mergeBlocks_separate (hfirst : IsBlock isn lo P first)
    (hblocks : ∀ b ∈ seen ++ rest, IsBlock isn lo P b)
    (hdisjoint : ∀ b ∈ seen ++ rest, Disjoint first b) (hseen : ∀ b ∈ seen, Separate first b)
    (hseparate : (seen ++ rest).Pairwise Separate) :
    ∃ merged others, mergeBlocks first seen rest = .ok (merged :: others) ∧
      IsBlock isn lo P merged ∧ Within first merged ∧ others.Sublist (seen ++ rest) ∧
      (merged :: others).Pairwise Separate := by
  fun_induction mergeBlocks first seen rest with
  | case1 first seen =>
    rw [append_nil] at hseparate ⊢
    exact ⟨first, seen, rfl, hfirst, .refl hfirst, List.Sublist.refl _,
      pairwise_cons.mpr ⟨hseen, hseparate⟩⟩
  | case2 first seen current rest hmeet hlt ih =>
    have hcurrent := hblocks current (by simp)
    have hless := (sublist_cons_self current rest).append_left seen
    have hothers := separate_of_pairwise hseparate
    have hmerged := (hcurrent.merge hfirst hmeet).2
    obtain ⟨merged, others, hok, hblock, hwithin, hsub, hpairwise⟩ := ih hmerged
      (fun b hb => hblocks b (hless.subset hb))
      (fun b hb => .merge hcurrent hfirst (hblocks b (hless.subset hb)) hmeet
        (.inl ⟨hdisjoint b (hless.subset hb), hothers b hb⟩))
      (forall_mem_nil _) (hseparate.sublist hless)
    exact ⟨merged, others, hok, hblock,
      (within_merge hcurrent hfirst hmeet).2.trans hfirst hmerged hblock hwithin,
      hsub.trans hless, hpairwise⟩
  | case3 first seen current rest hmeet hlt =>
    exact absurd ((hblocks current (by simp)).merge hfirst hmeet).1 hlt
  | case4 first seen current rest hne hmeet hlt ih =>
    have hcurrent := hblocks current (by simp)
    have hless := (sublist_cons_self current rest).append_left seen
    have hothers := separate_of_pairwise hseparate
    have hmerged := (hfirst.merge hcurrent hmeet.symm).2
    obtain ⟨merged, others, hok, hblock, hwithin, hsub, hpairwise⟩ := ih hmerged
      (fun b hb => hblocks b (hless.subset hb))
      (fun b hb => .merge hfirst hcurrent (hblocks b (hless.subset hb)) hmeet.symm
        (.inr ⟨hdisjoint b (hless.subset hb), hothers b hb⟩))
      (forall_mem_nil _) (hseparate.sublist hless)
    exact ⟨merged, others, hok, hblock,
      (within_merge hfirst hcurrent hmeet.symm).1.trans hfirst hmerged hblock hwithin,
      hsub.trans hless, hpairwise⟩
  | case5 first seen current rest hne hmeet hlt =>
    exact absurd (hfirst.merge (hblocks current (by simp)) hmeet.symm).1 hlt
  | case6 first seen current rest hne hne' ih =>
    have hcurrent : Separate first current :=
      separate_of_disjoint (hdisjoint current (by simp)) (not_or.mpr ⟨hne, hne'⟩)
    have happend := append_cons seen current rest
    rw [happend] at hblocks hdisjoint hseparate ⊢
    exact ih hfirst hblocks hdisjoint
      (forall_mem_append.mpr ⟨hseen, forall_mem_singleton.mpr hcurrent⟩) hseparate

/-- A block that meets no other is put in front. -/
theorem mergeBlocks_of_not_meet (hmeet : ∀ b ∈ rest, ¬ Meet first b) :
    mergeBlocks first seen rest = .ok (first :: (seen ++ rest)) := by
  induction rest generalizing seen with
  | nil => rw [mergeBlocks, append_nil]
  | cons current rest ih =>
    obtain ⟨hcurrent, hrest⟩ := forall_mem_cons.mp hmeet
    obtain ⟨hne, hne'⟩ := not_or.mp hcurrent
    rw [mergeBlocks, if_neg hne, if_neg hne', ih hrest, append_assoc]
    rfl

/-- The block has nothing in common with the others, of which the last one does not count if it goes
for want of room: if there are four, and the new block meets none. -/
def HasRoom (first : SackBlock) (sackList : List SackBlock) : Prop :=
  (∀ b ∈ sackList, Disjoint first b) ∨
    sackList.length = 4 ∧ (∀ b ∈ sackList, ¬ Meet first b) ∧ ∀ b ∈ sackList.dropLast,
      Disjoint first b

/-- Updating the list keeps its blocks separate and covers what it covered. -/
theorem UpdateSackList_separate {nextRxSeq head tail : SequenceNumber32}
    (hgt : gt head nextRxSeq = true) (hnew : IsBlock isn lo P (head, tail))
    (hblocks : ∀ b ∈ sackList, IsBlock isn lo P b) (hseparate : sackList.Pairwise Separate)
    (hlength : sackList.length ≤ 4)
    (hroom : HasRoom (head, tail) sackList) :
    ∃ merged others, UpdateSackList nextRxSeq sackList head tail = .ok (merged :: others) ∧
      Within (head, tail) merged ∧ (merged :: others).Pairwise Separate ∧
      (merged :: others).length ≤ 4 := by
  unfold UpdateSackList
  rw [if_pos hgt]
  obtain hdisjoint | ⟨hfour, hmeet, hdisjoint⟩ := hroom
  · obtain ⟨merged, others, hok, -, hwithin, hsub, hpairwise⟩ := mergeBlocks_separate hnew
      (show ∀ b ∈ [] ++ sackList, _ from hblocks) hdisjoint nofun hseparate
    rw [hok]
    have hle := hsub.length_le
    rw [nil_append] at hle
    change ∃ m o, Except.ok (if (merged :: others).length > 4 then _ else _) = _ ∧ _
    by_cases hlong : (merged :: others).length > 4
    · have hne : others ≠ [] := by
        rintro rfl
        exact absurd hlong (by simp)
      rw [if_pos hlong, dropLast_cons_of_ne_nil hne]
      refine ⟨merged, others.dropLast, rfl, hwithin, hpairwise.sublist
        (others.dropLast_sublist.cons_cons merged), ?_⟩
      rw [length_cons, length_dropLast]
      omega
    · rw [if_neg hlong]
      exact ⟨merged, others, rfl, hwithin, hpairwise, not_lt.mp hlong⟩
  · -- the last block goes
    have hne : sackList ≠ [] := ne_nil_of_length_pos (by omega)
    rw [mergeBlocks_of_not_meet hmeet, nil_append]
    refine ⟨(head, tail), sackList.dropLast, ?_, .refl hnew, pairwise_cons.mpr
      ⟨fun b hb => ?_, hseparate.sublist sackList.dropLast_sublist⟩, ?_⟩
    · have hlong : ((head, tail) :: sackList).length > 4 := by
        rw [length_cons]
        omega
      change Except.ok (if ((head, tail) :: sackList).length > 4 then _ else _) = _
      rw [if_pos hlong, dropLast_cons_of_ne_nil hne]
    · exact separate_of_disjoint (hdisjoint b hb) (hmeet b (mem_of_mem_dropLast hb))
    · rw [length_cons, length_dropLast]
      omega

/-! ### Blocks that are cleared -/

variable {l : List SackBlock}

/-- Clearing the list only removes blocks. -/
theorem ClearSackList_sublist {s : SequenceNumber32} (hok : ClearSackList s sackList = .ok l) :
    l.Sublist sackList := by
  induction sackList generalizing l with
  | nil =>
    cases hok
    exact List.Sublist.refl _
  | cons block rest ih =>
    rw [ClearSackList] at hok
    split at hok
    · obtain ⟨l', hl', hok⟩ := ExceptFold.bind_eq_ok_iff.mp hok
      cases hok
      split
      · exact (ih hl').cons block
      · exact (ih hl').cons_cons block
    · cases hok

/-- Moving the expected number on only removes blocks. -/
theorem advance_sublist {next next' : SequenceNumber32} {avail avail' : UInt32} {data : List Entry}
    (hok : advance next avail sackList data = .ok (next', avail', l)) : l.Sublist sackList := by
  induction data generalizing next avail sackList with
  | nil =>
    cases hok
    exact List.Sublist.refl _
  | cons i rest ih =>
    rw [advance] at hok
    split at hok
    · exact ih hok
    · split at hok
      · cases hok
        exact List.Sublist.refl _
      · obtain ⟨l', hl', hok⟩ := ExceptFold.bind_eq_ok_iff.mp hok
        exact (ih hok).trans (ClearSackList_sublist hl')

/-- If the next byte is not there, nothing is cleared. -/
theorem advance_same {n : ℕ} {parts : List Part} (avail : UInt32)
    (hparts : ∀ x ∈ parts, Between lo x) (hlo : lo ≤ n) (hlt : n < lo + 2 ^ 31)
    (hne : ∀ x ∈ parts, x.2 ≠ n) : advance (seq isn n) avail sackList (parts.map (entry isn)) =
      .ok (seq isn n, avail, sackList) := by
  induction parts with
  | nil => rfl
  | cons x rest ih =>
    obtain ⟨hlox, hltx⟩ := hparts x mem_cons_self
    have hx := hne x mem_cons_self
    have hkey : lt (entry isn x).1 (seq isn n) = decide (x.2 < n) := lt_seq (by omega) (by omega)
    have hkey' : gt (entry isn x).1 (seq isn n) = decide (n < x.2) :=
      gt_seq (by omega) (by omega)
    rw [map_cons, advance, hkey, hkey']
    simp only [decide_eq_true_eq]
    by_cases hbefore : x.2 < n
    · rw [if_pos hbefore]
      exact ih (fun y hy => hparts y (mem_cons_of_mem x hy))
        fun y hy => hne y (mem_cons_of_mem x hy)
    · rw [if_neg hbefore, if_pos (by omega)]

/-! ### What a segment takes the place of -/

section Segment

variable {head tail n : ℕ} {x : Part} {parts : List Part}

/-- A byte of the segment before the packet is new, and the segment goes on after the packet. -/
def IsInside (head tail : ℕ) (parts : List Part) (x : Part) : Prop :=
  (∃ m, head ≤ m ∧ m < x.2 ∧ ¬ Covers parts m) ∧ x.2 + x.1.length < tail

/-- Outside the first part, the others decide what is covered. -/
theorem not_covers_cons_iff {m : ℕ} (hm : m < x.2 ∨ x.2 + x.1.length ≤ m) :
    ¬ Covers (x :: parts) m ↔ ¬ Covers parts m := by
  rw [covers_cons, not_or, and_iff_right]
  omega

/-- Nothing is covered before the first part. -/
theorem not_covers_of_lt {m : ℕ} (hbefore : ∀ y ∈ parts, m < y.2) : ¬ Covers parts m :=
  fun ⟨y, hy, hle, _⟩ => absurd (hbefore y hy) (not_lt.mpr hle)

/-- The parts that trimming keeps are those not inside the segment. -/
theorem mem_trimAt_iff (hapart : Apart parts) (hx : x ∈ parts) :
    x ∈ (trimAt head tail parts).1 ↔ ¬ IsInside head tail parts x := by
  induction parts generalizing head tail with
  | nil => exact absurd hx not_mem_nil
  | cons y rest ih =>
    have hypos := hapart.pos y mem_cons_self
    -- of the packets after this one, those that are inside stay so without it
    have hrest {head' tail' : ℕ} (hx : x ∈ rest)
        (hhead : (∃ m, head' ≤ m ∧ m < x.2 ∧ ¬ Covers rest m) ↔
          ∃ m, head ≤ m ∧ m < x.2 ∧ ¬ Covers (y :: rest) m)
        (htail : x.2 + x.1.length < tail' ↔ x.2 + x.1.length < tail) :
        x ∈ (trimAt head' tail' rest).1 ↔ ¬ IsInside head tail (y :: rest) x := by
      rw [ih hapart.tail hx, IsInside, IsInside, hhead, htail]
    -- a segment that starts before this one starts with a new byte
    have hnew' (hbefore : head < y.2) : ¬ Covers rest head := not_covers_of_lt fun z hz => by
      have hle := hapart.head_le z hz
      omega
    have hnew (hbefore : head < y.2) : ¬ Covers (y :: rest) head :=
      (not_covers_cons_iff (Or.inl hbefore)).mpr (hnew' hbefore)
    rw [trimAt]
    split_ifs with htail hhead hin
    · obtain rfl | hx := mem_cons.mp hx
      · -- it is inside, and does not remain
        have hnot : x ∉ (trimAt head tail rest).1 := fun hmem => by
          have hle := hapart.head_le x ((trimAt_sublist head tail rest).subset hmem)
          omega
        exact ⟨fun hmem => absurd hmem hnot,
          fun hinside => absurd ⟨⟨head, le_rfl, hin.1, hnew hin.1⟩, hin.2⟩ hinside⟩
      · have hle := hapart.head_le x hx
        exact hrest hx ⟨fun _ => ⟨head, le_rfl, by omega, hnew hin.1⟩,
          fun _ => ⟨head, le_rfl, by omega, hnew' hin.1⟩⟩ Iff.rfl
    · obtain rfl | hxs := mem_cons.mp hx
      · refine ⟨fun _ hinside => ?_, fun _ => mem_cons_self⟩
        obtain ⟨⟨m, hm, hmx, -⟩, hend⟩ := hinside
        omega
      · have hle := hapart.head_le x hxs
        have hxpos := hapart.pos x hx
        have hne : x ≠ y := by
          rintro rfl
          omega
        rw [mem_cons, or_iff_right hne]
        refine hrest hxs ?_ ?_
        · unfold cutHead
          split_ifs with hyhead
          · -- what is before the end of this packet is not new
            refine exists_congr fun m => ⟨?_, ?_⟩
            · rintro ⟨hm, hmx, hnot⟩
              exact ⟨by omega, hmx, (not_covers_cons_iff (Or.inr hm)).mpr hnot⟩
            · rintro ⟨hm, hmx, hnot⟩
              obtain ⟨hnoty, hnot⟩ := not_or.mp (mt covers_cons.mpr hnot)
              exact ⟨by omega, hmx, hnot⟩
          · exact ⟨fun _ => ⟨head, le_rfl, by omega, hnew (by omega)⟩,
              fun _ => ⟨head, le_rfl, by omega, hnew' (by omega)⟩⟩
        · unfold cutTail
          split_ifs <;> omega
    · obtain rfl | hxs := mem_cons.mp hx
      · refine ⟨fun _ hinside => ?_, fun _ => mem_cons_self⟩
        obtain ⟨⟨m, hm, hmx, -⟩, hend⟩ := hinside
        omega
      · have hle := hapart.head_le x hxs
        have hne : x ≠ y := by
          rintro rfl
          omega
        rw [mem_cons, or_iff_right hne]
        refine hrest hxs (exists_congr fun m => and_congr_right fun hm => and_congr_right fun _ =>
          (not_covers_cons_iff (Or.inr (by omega))).symm) Iff.rfl
    · have hafter : y.2 ≤ x.2 := by
        obtain rfl | hxs := mem_cons.mp hx
        · exact le_rfl
        · have hle := hapart.head_le x hxs
          omega
      exact ⟨fun _ hinside => by have hend := hinside.2; omega, fun _ => hx⟩

/-- What is left of the segment: the bytes of it that are new, and those of the packets that are
inside. -/
theorem mem_trimAt_segment_iff (hapart : Apart parts)
    (hlt : (trimAt head tail parts).2.1 < (trimAt head tail parts).2.2) :
    ((trimAt head tail parts).2.1 ≤ n ∧ n < (trimAt head tail parts).2.2) ↔
      (¬ Covers parts n ∧ head ≤ n ∧ n < tail) ∨
        ∃ x ∈ parts, IsInside head tail parts x ∧ x.2 ≤ n ∧ n < x.2 + x.1.length := by
  have hcovers : (Covers (trimAt head tail parts).1 n ∨
      ((trimAt head tail parts).2.1 ≤ n ∧ n < (trimAt head tail parts).2.2)) ↔
      (Covers parts n ∨ (head ≤ n ∧ n < tail)) := trimAt_covers
  have hremain := trimAt_apart hapart hlt
  have hsub := (trimAt_sublist head tail parts).subset
  constructor
  · intro hn
    by_cases hold : Covers parts n
    · obtain ⟨x, hx, hxn⟩ := hold
      refine Or.inr ⟨x, hx, ?_, hxn⟩
      by_contra hinside
      have hside := hremain x ((mem_trimAt_iff hapart hx).mpr hinside)
      omega
    · exact Or.inl ⟨hold, (hcovers.mp (Or.inr hn)).resolve_left hold⟩
  · rintro (⟨hnew, hn⟩ | ⟨x, hx, hinside, hxn⟩)
    · exact (hcovers.mpr (Or.inr hn)).resolve_left fun ⟨y, hy, hyn⟩ => hnew ⟨y, hsub hy, hyn⟩
    · refine (hcovers.mpr (Or.inl ⟨x, hx, hxn⟩)).resolve_left fun ⟨y, hy, hyn⟩ => ?_
      obtain rfl := hapart.eq_of_mem hx (hsub hy) hxn hyn
      exact (mem_trimAt_iff hapart hx).mp hy hinside

end Segment

end Ns3Joined.Internet.TcpRxBuffer
