import Mathlib.Data.BitVec
import Mathlib.Tactic.Ring
import Ns3Joined.Fault

/-!
# Sequence numbers of any width

The template `SequenceNumber<NUMERIC_TYPE, SIGNED_TYPE>` (`sequence-number.h`) over words of
`n` bits. A value of either type is a `BitVec n`; one of the signed type is read by `toInt`.

* `gt`, `lt`, `le`, `ge`: the comparisons.
* `sub`: the difference of two sequence numbers, a value of the signed type.
* `sub_eq`: the difference is that of the words, and at one distance there is none.
* `comparison_and_difference`: what the operators have to do with each other.
* `window_order`: in a window of half the range they are those of the offsets.
-/

namespace Ns3Joined.Network.SequenceNumber

open BitVec (add_comm intMin le_def ofNat toInt_ofNat' toNat_inj)

variable {n : ℕ} {a b x : BitVec n}

/-- `std::numeric_limits<NUMERIC_TYPE>::max ()`. -/
def maxValue (n : ℕ) : BitVec n := ofNat n (2 ^ n - 1)

/-- `std::numeric_limits<NUMERIC_TYPE>::max () / 2`. -/
def halfMaxValue (n : ℕ) : BitVec n := ofNat n ((2 ^ n - 1) / 2)

/-- The unary minus of the signed type. A type of less than the 32 bits of `int` is promoted
first, so that the result is converted back; a wider one has no value for minus its least. -/
def negate (x : BitVec n) : Except Fault (BitVec n) :=
  if 32 ≤ n ∧ x = intMin n then
    .error .undefined
  else
    .ok (-x)

/-- `operator + (SIGNED_TYPE delta)`. -/
def add (a delta : BitVec n) : BitVec n := a + delta

/-- `operator - (const SequenceNumber &other)`. -/
def sub (a b : BitVec n) : Except Fault (BitVec n) :=
  if a > b then
    let diff := a - b
    if diff < halfMaxValue n then
      .ok diff
    else
      negate (maxValue n - a + 1 + b)
  else
    let diff := b - a
    if diff < halfMaxValue n then
      negate diff
    else
      .ok (maxValue n - b + 1 + a)

/-- `operator >`. -/
def gt (a b : BitVec n) : Bool :=
  (decide (a > b) && decide (a - b ≤ halfMaxValue n)) ||
    (decide (b > a) && decide (b - a > halfMaxValue n))

/-- `operator <=`. -/
def le (a b : BitVec n) : Bool := !gt a b

/-- `operator >=`. -/
def ge (a b : BitVec n) : Bool := gt a b || a == b

/-- `operator <`. -/
def lt (a b : BitVec n) : Bool := !gt a b && a != b

/-! ### The half of the range -/

/-- The half of the range, as a number. -/
theorem toNat_halfMaxValue (n : ℕ) : (halfMaxValue n).toNat = (2 ^ n - 1) / 2 := by
  rw [halfMaxValue, BitVec.toNat_ofNat]
  refine Nat.mod_eq_of_lt ?_
  have hpos : 0 < 2 ^ n := Nat.two_pow_pos n
  omega

/-- The largest number is followed by zero. -/
theorem maxValue_add_one (n : ℕ) : maxValue n + 1 = 0 := by
  refine BitVec.eq_of_toNat_eq ?_
  have hpos : 0 < 2 ^ n := Nat.two_pow_pos n
  rw [maxValue, BitVec.toNat_add, BitVec.toNat_ofNat]
  change ((2 ^ n - 1) % 2 ^ n + 1 % 2 ^ n) % 2 ^ n = 0 % 2 ^ n
  rw [← Nat.add_mod, Nat.sub_add_cancel hpos, Nat.mod_self, Nat.zero_mod]

/-- The way round from one word to the other is the difference taken backwards. -/
theorem maxValue_sub_add (a b : BitVec n) : maxValue n - a + 1 + b = b - a := by
  calc maxValue n - a + 1 + b = (maxValue n + 1) + b - a := by ring
    _ = b - a := by rw [maxValue_add_one, zero_add]

/-- The one word that lies as far ahead as it lies behind. -/
theorem eq_intMin_iff (hn : 0 < n) : x = intMin n ↔ 2 * x.toNat = 2 ^ n := by
  have hpow : 2 ^ n = 2 * 2 ^ (n - 1) := (mul_pow_sub_one hn.ne' 2).symm
  rw [← toNat_inj, BitVec.toNat_intMin_of_pos hn]
  omega

/-- A difference in the lower half is not the least signed number. -/
theorem ne_intMin_of_lt (h : x < halfMaxValue n) : x ≠ intMin n := by
  have hx : x.toNat < (2 ^ n - 1) / 2 := by
    rw [← toNat_halfMaxValue]
    exact h
  have hn : 0 < n := by
    refine Nat.pos_of_ne_zero ?_
    rintro rfl
    omega
  rw [ne_eq, eq_intMin_iff hn]
  omega

/-- A positive signed number lies in the lower half. -/
theorem toInt_pos_iff : 0 < x.toInt ↔ 0 < x.toNat ∧ 2 * x.toNat < 2 ^ n := by
  have hx : x.toNat < 2 ^ n := x.isLt
  rw [BitVec.toInt_eq_toNat_cond]
  split_ifs <;> omega

/-- A positive signed number is not the least one. -/
theorem ne_intMin_of_pos (h : 0 < x.toInt) : x ≠ intMin n := by
  obtain ⟨hpos, hx⟩ := toInt_pos_iff.mp h
  have hn : 0 < n := by
    refine Nat.pos_of_ne_zero ?_
    rintro rfl
    omega
  rw [ne_eq, eq_intMin_iff hn]
  omega

/-! ### The operators -/

/-- What the subtraction returns: one word that lies half the range above another has no
difference, where the signed type is at least as wide as `int`. -/
theorem sub_eq (a b : BitVec n) : sub a b =
    if 32 ≤ n ∧ a > b ∧ a - b = intMin n then .error .undefined else .ok (a - b) := by
  have hneg : -(b - a) = a - b := neg_sub b a
  have hmin : b - a = intMin n ↔ a - b = intMin n := by
    rw [← hneg, BitVec.neg_eq_intMin]
  -- all four branches are the difference, two of them by `negate`
  simp only [sub, negate, maxValue_sub_add, hneg, hmin]
  by_cases hab : a > b
  · by_cases hlt : a - b < halfMaxValue n
    · simp [hab, hlt, ne_intMin_of_lt hlt]
    · simp [hab, hlt]
  · by_cases hlt : b - a < halfMaxValue n
    · have hne : a - b ≠ intMin n := fun h => ne_intMin_of_lt hlt (hmin.mpr h)
      simp [hab, hlt, hne]
    · simp [hab, hlt]

/-- Off the distance of half the range, the greater number is the one that lies ahead. -/
theorem gt_iff (hne : a - b ≠ intMin n) : gt a b = true ↔ 0 < (a - b).toInt := by
  have hn : 0 < n := by
    refine Nat.pos_of_ne_zero ?_
    rintro rfl
    exact hne (BitVec.eq_of_zero_length rfl)
  rw [ne_eq, eq_intMin_iff hn] at hne
  have hgt : gt a b = true ↔ (b.toNat < a.toNat ∧ (a - b).toNat ≤ (2 ^ n - 1) / 2) ∨
      (a.toNat < b.toNat ∧ (2 ^ n - 1) / 2 < (b - a).toNat) := by
    rw [← toNat_halfMaxValue]
    simp only [gt, Bool.or_eq_true, Bool.and_eq_true, decide_eq_true_iff]
    rfl
  -- by which of the two words is the greater one
  rw [hgt, toInt_pos_iff]
  rcases Nat.lt_trichotomy a.toNat b.toNat with hab | hab | hab
  · have hb : b.toNat < 2 ^ n := b.isLt
    have hback : (b - a).toNat = b.toNat - a.toNat :=
      BitVec.toNat_sub_of_le (le_def.mpr hab.le)
    -- from the smaller word the way goes round
    have hround : (a - b).toNat = 2 ^ n - (b.toNat - a.toNat) := by
      rw [BitVec.toNat_sub, Nat.mod_eq_of_lt (by omega)]
      omega
    omega
  · have hzero : (a - b).toNat = 0 := by
      rw [toNat_inj.mp hab, BitVec.sub_self]
      rfl
    omega
  · have hahead : (a - b).toNat = a.toNat - b.toNat :=
      BitVec.toNat_sub_of_le (le_def.mpr hab.le)
    omega

/-- Of two numbers one is the lesser, or they are equal, and never two of these. -/
theorem exactly_one (a b : BitVec n) : [lt a b, a == b, gt a b].count true = 1 := by
  have hself : gt a a = false := by simp [gt]
  by_cases hab : a = b
  -- `lt` is neither greater nor equal
  · subst hab
    simp [lt, hself]
  · cases hgt : gt a b <;> simp [lt, hgt, bne_iff_ne.mpr hab, beq_eq_false_iff_ne.mpr hab]

/-- What the comparison and the subtraction have to do with each other: one relation of the
three holds; a difference that there is leads from one number to the other, and there is one
whose sign tells the order unless the two lie half the range apart; and a step forward by less
than that is a step up, which the difference gives back. -/
theorem comparison_and_difference (a b : BitVec n) :
    [lt a b, a == b, gt a b].count true = 1 ∧
    (∀ diff, sub a b = .ok diff → add b diff = a) ∧
    (a - b ≠ intMin n →
      ∃ diff, sub a b = .ok diff ∧ (gt a b = true ↔ 0 < diff.toInt)) ∧
    ∀ d : BitVec n, 0 < d.toInt → d.toInt < 2 ^ (n - 1) →
      gt (add a d) a = true ∧ sub (add a d) a = .ok d := by
  refine ⟨exactly_one a b, ?_, ?_, ?_⟩
  · intro diff hdiff
    rw [sub_eq] at hdiff
    split_ifs at hdiff
    cases hdiff
    rw [add, add_comm, BitVec.sub_add_cancel]
  · intro hne
    refine ⟨a - b, ?_, gt_iff hne⟩
    rw [sub_eq, if_neg fun h => hne h.2.2]
  · intro d hpos _
    have hback : a + d - a = d := by rw [add_comm, BitVec.add_sub_cancel]
    have hne : a + d - a ≠ intMin n := by
      rw [hback]
      exact ne_intMin_of_pos hpos
    rw [add, gt_iff hne, sub_eq, if_neg fun h => hne h.2.2, hback]
    exact ⟨hpos, rfl⟩

/-- Two offsets in half the range are as far apart as the numbers. -/
theorem toInt_add_sub_add (hn : 0 < n) (x : BitVec n) {i j : ℕ} (hi : i < 2 ^ (n - 1))
    (hj : j < 2 ^ (n - 1)) :
    (x + ofNat n i - (x + ofNat n j)).toInt = (i : ℤ) - j := by
  have hpow : 2 ^ n = 2 * 2 ^ (n - 1) := (mul_pow_sub_one hn.ne' 2).symm
  rw [add_sub_add_left_eq_sub, BitVec.toInt_sub, toInt_ofNat', toInt_ofNat',
    Int.bmod_sub_bmod, Int.sub_bmod_bmod]
  apply Int.bmod_eq_of_le_mul_two <;> rw [hpow] <;> omega

/-- **In a window of half the range** the comparisons are those of the offsets, wherever the
window lies, and the difference is that of the offsets. -/
theorem window_order (hn : 0 < n) (x : BitVec n) {i j : ℕ} (hi : i < 2 ^ (n - 1))
    (hj : j < 2 ^ (n - 1)) :
    (lt (add x (.ofNat n i)) (add x (.ofNat n j)) = true ↔ i < j) ∧
    (le (add x (.ofNat n i)) (add x (.ofNat n j)) = true ↔ i ≤ j) ∧
    (gt (add x (.ofNat n i)) (add x (.ofNat n j)) = true ↔ j < i) ∧
    (ge (add x (.ofNat n i)) (add x (.ofNat n j)) = true ↔ j ≤ i) ∧
    ∃ diff, sub (add x (.ofNat n i)) (add x (.ofNat n j)) = .ok diff ∧ diff.toInt = i - j := by
  unfold add
  have hdiff := toInt_add_sub_add hn x hi hj
  generalize ha : x + ofNat n i = a at *
  generalize hb : x + ofNat n j = b at *
  have hne : a - b ≠ intMin n := by
    intro h
    rw [h, BitVec.toInt_intMin_of_pos hn] at hdiff
    have hcast : ((2 ^ (n - 1) : ℕ) : ℤ) = 2 ^ (n - 1) := by push_cast; rfl
    omega
  have hgt : gt a b = true ↔ j < i := by
    rw [gt_iff hne, hdiff]
    omega
  have heq : a = b ↔ i = j := by
    have hzero : (0 : BitVec n).toInt = 0 := BitVec.toInt_zero
    rw [← sub_eq_zero, ← BitVec.toInt_inj, hdiff, hzero]
    omega
  refine ⟨?_, ?_, hgt, ?_, a - b, ?_, hdiff⟩
  · rw [lt, Bool.and_eq_true, Bool.not_eq_true', ← Bool.not_eq_true, hgt, bne_iff_ne, ne_eq, heq]
    omega
  · rw [le, Bool.not_eq_true', ← Bool.not_eq_true, hgt]
    omega
  · rw [ge, Bool.or_eq_true, hgt, beq_iff_eq, heq]
    omega
  · rw [sub_eq, if_neg fun h => hne h.2.2]

/-- Offsets 3 and 100 from 250, in octets. -/
theorem window_order_octets : lt (add 250#8 (.ofNat 8 3)) (add 250#8 (.ofNat 8 100)) = true :=
  (window_order (by decide) 250#8 (by decide) (by decide)).1.mpr (by decide)

/-- Across the wrap: five steps from three below zero. -/
example : sub (add 0xfffffffd#32 5#32) 0xfffffffd#32 = .ok 5#32 := by decide

/-- Half the range apart, the sign of the difference does not tell the order: 0 is greater than
2³¹ and their difference is negative; the other way round there is none. -/
theorem not_sign_of_difference : gt 0#32 0x80000000#32 = true ∧
    (∃ diff, sub 0#32 0x80000000#32 = .ok diff ∧ ¬ 0 < diff.toInt) ∧
    sub 0x80000000#32 0#32 = .error .undefined := by
  refine ⟨by decide, ⟨0x80000000#32, by decide, by decide⟩, by decide⟩

end Ns3Joined.Network.SequenceNumber
