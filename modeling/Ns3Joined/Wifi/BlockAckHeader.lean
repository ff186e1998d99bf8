import Mathlib.Data.UInt
import Ns3Joined.Fault
import Ns3Joined.Library.CircularRange
import Ns3Joined.Wifi.WifiMacHeader

/-!
# The block ack response

The bitmap of `CtrlBAckResponseHeader` (`ctrl-headers.cc`): what `SetReceivedPacket` writes
and `IsPacketReceived` reads.

* `CtrlBAckResponseHeader.isPacketReceived_eq`: reading a compressed response.
* `CtrlBAckResponseHeader.setReceivedPacket_spec`: setting adds the one packet, if the bitmap
  has a bit for it.
-/

namespace Ns3Joined.Wifi

open Function

inductive BlockAckType
  | BASIC_BLOCK_ACK
  | COMPRESSED_BLOCK_ACK
  | EXTENDED_COMPRESSED_BLOCK_ACK
  | MULTI_TID_BLOCK_ACK
deriving DecidableEq, Repr

/-- A `CtrlBAckResponseHeader`: the members of the union are fields of their own, since a
header keeps its type. -/
structure CtrlBAckResponseHeader where
  m_startingSeq : ℕ
  m_baType : BlockAckType
  m_bitmap : ℕ → UInt16
  m_compressedBitmap : UInt64
  m_extendedCompressedBitmap : ℕ → UInt64

namespace CtrlBAckResponseHeader

/-- A header after `SetType` and `SetStartingSequence`, the bitmap still empty. -/
def empty (type : BlockAckType) (startingSeq : ℕ) : CtrlBAckResponseHeader where
  m_startingSeq := startingSeq
  m_baType := type
  m_bitmap := fun _ => 0
  m_compressedBitmap := 0
  m_extendedCompressedBitmap := fun _ => 0

def IsInBitmap (h : CtrlBAckResponseHeader) (seq : ℕ) : Bool :=
  if h.m_baType = .EXTENDED_COMPRESSED_BLOCK_ACK then
    (seq + 4096 - h.m_startingSeq) % 4096 < 256
  else
    (seq + 4096 - h.m_startingSeq) % 4096 < 64

def IndexInBitmap (h : CtrlBAckResponseHeader) (seq : ℕ) : Except Fault ℕ :=
  let index := if seq ≥ h.m_startingSeq then seq - h.m_startingSeq else 4096 - h.m_startingSeq + seq
  if h.m_baType = .EXTENDED_COMPRESSED_BLOCK_ACK then
    if index ≤ 255 then .ok index else .error .abort
  else
    if index ≤ 63 then .ok index else .error .abort

/-- `SetReceivedPacket`. The extended bitmap's word is shifted by the whole index: C++ gives a
shift of 64 or more no meaning, and the model takes it modulo 64, as x86-64 does. -/
def SetReceivedPacket (h : CtrlBAckResponseHeader) (seq : ℕ) :
    Except Fault CtrlBAckResponseHeader :=
  if !h.IsInBitmap seq then
    .ok h
  else
    match h.m_baType with
    | .BASIC_BLOCK_ACK => do
      let index ← h.IndexInBitmap seq
      .ok { h with m_bitmap := update h.m_bitmap index (h.m_bitmap index ||| 0x0001) }
    | .COMPRESSED_BLOCK_ACK => do
      let index ← h.IndexInBitmap seq
      .ok { h with m_compressedBitmap := h.m_compressedBitmap ||| (1 <<< UInt64.ofNat index) }
    | .EXTENDED_COMPRESSED_BLOCK_ACK => do
      let index ← h.IndexInBitmap seq
      .ok { h with
        m_extendedCompressedBitmap := update h.m_extendedCompressedBitmap (index / 64)
          (h.m_extendedCompressedBitmap (index / 64) ||| (1 <<< UInt64.ofNat index)) }
    | .MULTI_TID_BLOCK_ACK => .error .abort

def IsPacketReceived (h : CtrlBAckResponseHeader) (seq : ℕ) : Except Fault Bool :=
  if !h.IsInBitmap seq then
    .ok false
  else
    match h.m_baType with
    | .BASIC_BLOCK_ACK => .ok false
    | .COMPRESSED_BLOCK_ACK => do
      let index ← h.IndexInBitmap seq
      .ok ((h.m_compressedBitmap >>> UInt64.ofNat index) &&& 1 == 1)
    | .EXTENDED_COMPRESSED_BLOCK_ACK => do
      let index ← h.IndexInBitmap seq
      .ok ((h.m_extendedCompressedBitmap (index / 64) >>> UInt64.ofNat index) &&& 1 == 1)
    | .MULTI_TID_BLOCK_ACK => .error .abort

end CtrlBAckResponseHeader

/-! ### Bits of a word -/

/-- The bit of a word that a shift by `i` brings to the front. -/
def bit (word : UInt64) (i : ℕ) : Bool := (word >>> UInt64.ofNat i) &&& 1 == 1

/-- The index of a bit is taken modulo the width of the word. -/
theorem toNat_ofNat_mod (i : ℕ) : (UInt64.ofNat i).toNat % 64 = i % 64 := by
  rw [UInt64.toNat_ofNat']
  omega

/-- A bit of a word is that of its number. -/
theorem bit_eq_testBit (word : UInt64) (i : ℕ) : bit word i = word.toNat.testBit (i % 64) := by
  rw [bit, Bool.eq_iff_iff, beq_iff_eq, ← UInt64.toNat_inj, UInt64.toNat_and,
    UInt64.toNat_shiftRight, toNat_ofNat_mod, Nat.testBit_eq_decide_div_mod_eq,
    Nat.shiftRight_eq_div_pow, decide_eq_true_iff]
  change _ &&& 1 = 1 ↔ _
  rw [Nat.and_one_is_mod]

/-- Setting one bit leaves the others. -/
theorem bit_set (word : UInt64) (i j : ℕ) :
    bit (word ||| (1 <<< UInt64.ofNat i)) j = (bit word j || i % 64 == j % 64) := by
  have hi : i % 64 < 64 := Nat.mod_lt _ (by decide)
  have hone : (1 <<< UInt64.ofNat i : UInt64).toNat = 2 ^ (i % 64) := by
    rw [UInt64.toNat_shiftLeft, toNat_ofNat_mod, Nat.shiftLeft_eq]
    change 1 * 2 ^ (i % 64) % 2 ^ 64 = 2 ^ (i % 64)
    rw [Nat.one_mul, Nat.mod_eq_of_lt (Nat.pow_lt_pow_right (by decide) hi)]
  rw [bit_eq_testBit, bit_eq_testBit, UInt64.toNat_or, Nat.testBit_or, hone,
    Nat.testBit_two_pow]
  rfl

/-- The zero word has no bit. -/
theorem bit_zero (i : ℕ) : bit 0 i = false := by
  rw [bit_eq_testBit]
  exact Nat.zero_testBit _

/-! ### The bitmap -/

namespace CtrlBAckResponseHeader

variable {h : CtrlBAckResponseHeader} {seq j : ℕ}

/-- How many sequence numbers a bitmap has room for. -/
def bits (type : BlockAckType) : ℕ := if type = .EXTENDED_COMPRESSED_BLOCK_ACK then 256 else 64

/-- A bitmap with one bit for each sequence number. -/
def Compressed (type : BlockAckType) : Prop :=
  type = .COMPRESSED_BLOCK_ACK ∨ type = .EXTENDED_COMPRESSED_BLOCK_ACK

instance (type : BlockAckType) : Decidable (Compressed type) :=
  inferInstanceAs (Decidable (_ ∨ _))

/-- The bit of the bitmap for the sequence number that many steps after the first. -/
def mark (h : CtrlBAckResponseHeader) (index : ℕ) : Bool :=
  match h.m_baType with
  | .EXTENDED_COMPRESSED_BLOCK_ACK => bit (h.m_extendedCompressedBitmap (index / 64)) index
  | _ => bit h.m_compressedBitmap index

/-- The bitmap covers a window behind the starting number. -/
theorem isInBitmap_iff :
    h.IsInBitmap seq = true ↔
      CircularRange.distance 4096 h.m_startingSeq seq < bits h.m_baType := by
  unfold IsInBitmap bits CircularRange.distance
  split_ifs <;> exact decide_eq_true_iff

/-- The index of a number of the bitmap is its distance from the start. -/
theorem indexInBitmap_eq (hstart : h.m_startingSeq < 4096) (hseq : seq < 4096)
    (hin : h.IsInBitmap seq = true) :
    h.IndexInBitmap seq = .ok (CircularRange.distance 4096 h.m_startingSeq seq) := by
  have hlt := isInBitmap_iff.mp hin
  have hindex : (if seq ≥ h.m_startingSeq then seq - h.m_startingSeq
      else 4096 - h.m_startingSeq + seq) = CircularRange.distance 4096 h.m_startingSeq seq := by
    rw [CircularRange.distance_eq hstart hseq]
    split_ifs <;> omega
  unfold IndexInBitmap
  dsimp only
  rw [hindex]
  unfold bits at hlt
  split_ifs at hlt ⊢ <;> first | rfl | omega

/-- A compressed response is read bit by bit. -/
theorem isPacketReceived_eq (hstart : h.m_startingSeq < 4096) (hseq : seq < 4096)
    (htype : Compressed h.m_baType) :
    h.IsPacketReceived seq = .ok (decide (CircularRange.distance 4096 h.m_startingSeq seq <
      bits h.m_baType) && h.mark (CircularRange.distance 4096 h.m_startingSeq seq)) := by
  unfold IsPacketReceived mark
  by_cases hin : h.IsInBitmap seq = true
  · rw [if_neg (by simp [hin]), decide_eq_true (isInBitmap_iff.mp hin), Bool.true_and]
    rcases htype with htype | htype <;>
      simp only [htype, indexInBitmap_eq hstart hseq hin, bind, Except.bind] <;> rfl
  · rw [if_pos (by simp [hin]), decide_eq_false (mt isInBitmap_iff.mpr hin), Bool.false_and]

/-- What a header tells of its packets stays, but for one more. -/
structure Marks (h h' : CtrlBAckResponseHeader) (p : ℕ → Prop) : Prop where
  m_startingSeq : h'.m_startingSeq = h.m_startingSeq
  m_baType : h'.m_baType = h.m_baType
  mark : ∀ k < bits h.m_baType, h'.mark k = true ↔ h.mark k = true ∨ p k

/-- Setting a packet returns, and adds the packet if the bitmap has a bit for it. -/
theorem setReceivedPacket_spec (hstart : h.m_startingSeq < 4096) (hseq : seq < 4096)
    (htype : Compressed h.m_baType) :
    ∃ h', h.SetReceivedPacket seq = .ok h' ∧
      Marks h h' (· = CircularRange.distance 4096 h.m_startingSeq seq) := by
  by_cases hin : h.IsInBitmap seq = true
  · have hlt := isInBitmap_iff.mp hin
    generalize hk : CircularRange.distance 4096 h.m_startingSeq seq = index at hlt
    have hindex := indexInBitmap_eq hstart hseq hin
    rw [hk] at hindex
    rcases htype with htype | htype
    · -- one word
      refine ⟨{ h with m_compressedBitmap := h.m_compressedBitmap ||| (1 <<< UInt64.ofNat index) },
        ?_, rfl, rfl, ?_⟩
      · unfold SetReceivedPacket
        rw [if_neg (by simp [hin])]
        simp only [htype, hindex, bind, Except.bind]
      · intro k hlt'
        simp only [bits, htype] at hlt hlt'
        simp only [mark, htype, bit_set, Bool.or_eq_true, beq_iff_eq]
        refine or_congr_right ?_
        simp at hlt hlt'
        omega
    · -- the word that holds the bit
      refine ⟨{ h with
        m_extendedCompressedBitmap := update h.m_extendedCompressedBitmap (index / 64)
          (h.m_extendedCompressedBitmap (index / 64) ||| (1 <<< UInt64.ofNat index)) },
        ?_, rfl, rfl, ?_⟩
      · unfold SetReceivedPacket
        rw [if_neg (by simp [hin])]
        simp only [htype, hindex, bind, Except.bind]
      · intro k hlt'
        simp only [mark, htype]
        by_cases hword : k / 64 = index / 64
        · rw [hword, update_self, bit_set, Bool.or_eq_true, beq_iff_eq]
          refine or_congr_right ?_
          omega
        · rw [update_of_ne hword]
          refine (or_iff_left ?_).symm
          rintro rfl
          exact hword rfl
  · refine ⟨h, ?_, rfl, rfl, ?_⟩
    · unfold SetReceivedPacket
      rw [if_pos (by simp [hin])]
    · intro k hk
      refine (or_iff_left ?_).symm
      rintro rfl
      exact hin (isInBitmap_iff.mpr hk)

end CtrlBAckResponseHeader
end Ns3Joined.Wifi
