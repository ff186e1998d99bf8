import Mathlib.Data.UInt

/-!
# Sequence numbers

`SequenceNumber32` (`sequence-number.h`): 32-bit numbers with an order that wraps.

* `gt`, `ge`, `lt`, `le`: the comparisons.
* `seq isn n`: the sequence number of the `n`-th byte after the initial one.
* `gt_seq`, `ge_seq`, `lt_seq`, `le_seq`: bytes that are less than 2³¹ apart are compared by their
  places.
-/

namespace Ns3Joined.Internet

open UInt32

/-- A `SequenceNumber32`, for its value. -/
abbrev SequenceNumber32 := UInt32

namespace SequenceNumber

/-- `std::numeric_limits<uint32_t>::max () / 2`. -/
def halfMaxValue : UInt32 := 0x7fffffff

/-- `operator >`. -/
def gt (a b : SequenceNumber32) : Bool :=
  (decide (a > b) && decide (a - b ≤ halfMaxValue)) ||
    (decide (b > a) && decide (b - a > halfMaxValue))

/-- `operator <=`. -/
def le (a b : SequenceNumber32) : Bool := !gt a b

/-- `operator >=`. -/
def ge (a b : SequenceNumber32) : Bool := gt a b || a == b

/-- `operator <`. -/
def lt (a b : SequenceNumber32) : Bool := !gt a b && a != b

/-- The sequence number `n` after `isn`. -/
def seq (isn : SequenceNumber32) (n : ℕ) : SequenceNumber32 := isn + UInt32.ofNat n

variable {isn : SequenceNumber32} {x y n : ℕ}

/-- The wire number of the byte at a distance from the first. -/
theorem toNat_seq (isn : SequenceNumber32) (n : ℕ) :
    (seq isn n).toNat = (isn.toNat + n) % 2 ^ 32 := by
  rw [seq, UInt32.toNat_add, toNat_ofNat', Nat.add_mod_mod]

theorem seq_zero (isn : SequenceNumber32) : seq isn 0 = isn := add_zero isn

/-- Moving on in the stream is adding to the wire number. -/
theorem seq_add (isn : SequenceNumber32) (x n : ℕ) :
    seq isn x + UInt32.ofNat n = seq isn (x + n) := by
  rw [seq, seq, add_assoc, ← ofNat_add]

/-- Sequence numbers of bytes at most 2³² apart are equal for equal bytes only. -/
theorem seq_inj (hxy : x < y + 2 ^ 32) (hyx : y < x + 2 ^ 32) :
    seq isn x = seq isn y ↔ x = y := by
  rw [← UInt32.toNat_inj, toNat_seq, toNat_seq]
  omega

/-- The difference of two wire numbers is the distance in the stream. -/
theorem seq_sub (hle : y ≤ x) : seq isn x - seq isn y = UInt32.ofNat (x - y) := by
  obtain ⟨n, rfl⟩ := Nat.exists_eq_add_of_le hle
  rw [← seq_add, Nat.add_sub_cancel_left, UInt32.add_comm, UInt32.add_sub_cancel]

section

variable (hxy : x < y + 2 ^ 31) (hyx : y < x + 2 ^ 31)

include hxy hyx

/-- Within half the space the comparison `>` is that of positions. -/
theorem gt_seq : gt (seq isn x) (seq isn y) = decide (y < x) := by
  have hhalf : halfMaxValue.toNat = 2147483647 := rfl
  rw [gt, Bool.eq_iff_iff]
  simp only [Bool.or_eq_true, Bool.and_eq_true, decide_eq_true_iff, gt_iff_lt,
    lt_iff_toNat_lt, le_iff_toNat_le, UInt32.toNat_sub, toNat_seq, hhalf]
  omega

/-- Within half the space the comparison `<=` is that of positions. -/
theorem le_seq : le (seq isn x) (seq isn y) = decide (x ≤ y) := by
  rw [le, gt_seq hxy hyx, ← decide_not]
  exact decide_eq_decide.mpr Nat.not_lt

/-- Within half the space the comparison `>=` is that of positions. -/
theorem ge_seq : ge (seq isn x) (seq isn y) = decide (y ≤ x) := by
  have heq : (seq isn x == seq isn y) = decide (x = y) := by
    rw [Bool.eq_iff_iff, beq_iff_eq, decide_eq_true_iff, seq_inj (by omega) (by omega)]
  rw [ge, gt_seq hxy hyx, heq, ← Bool.decide_or]
  exact decide_eq_decide.mpr (by omega)

/-- Within half the space the comparison `<` is that of positions. -/
theorem lt_seq : lt (seq isn x) (seq isn y) = decide (x < y) := by
  have heq : (seq isn x != seq isn y) = decide (x ≠ y) := by
    rw [Bool.eq_iff_iff, bne_iff_ne, decide_eq_true_iff, ne_eq, seq_inj (by omega) (by omega)]
  rw [lt, gt_seq hxy hyx, heq, ← decide_not, ← Bool.decide_and]
  exact decide_eq_decide.mpr (by omega)

end

end SequenceNumber
end Ns3Joined.Internet
