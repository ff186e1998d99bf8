import Mathlib.Data.List.Basic
import Mathlib.Data.Nat.Bitwise

/-!
# Bits in words

Bits that are kept in words of `w` bits, from the lowest bit of the first word on. Bits beyond the
last word are not set.

* `bit_eq_of_word`: the bits of one word.
* `bitsOf`: the lowest bits of a number, and `getD_append_bitsOf`: where they are when they are put
  after others.
-/

namespace WordBits

open List

variable {w i : ℕ} {words more : List ℕ} {x : ℕ}

/-- A bit of the words. -/
def bit (w : ℕ) (words : List ℕ) (i : ℕ) : Bool := (words.getD (i / w) 0).testBit (i % w)

/-- The bit of a sequence of words lies in the word of its place. -/
theorem bit_eq_of_word (h : words[i / w]? = some x) : bit w words i = x.testBit (i % w) := by
  rw [bit, getD_eq_getElem?_getD, h, Option.getD_some]

/-- The bits of a longer sequence in its front part. -/
theorem bit_append_left (h : i / w < words.length) :
    bit w (words ++ more) i = bit w words i := by
  rw [bit, bit, getD_append _ _ _ _ h]

/-- The bits of a longer sequence in its back part. -/
theorem bit_append_right (hw : 0 < w) (h : w * words.length ≤ i) :
    bit w (words ++ more) i = bit w more (i - w * words.length) := by
  obtain ⟨k, rfl⟩ := Nat.exists_eq_add_of_le h
  rw [bit, bit, Nat.mul_add_div hw, Nat.mul_add_mod,
    getD_append_right _ _ _ _ (Nat.le_add_right _ _),
    Nat.add_sub_cancel_left, Nat.add_sub_cancel_left]

/-- The bits of a single word. -/
theorem bit_singleton (hx : x < 2 ^ w) : bit w [x] i = x.testBit i := by
  rw [bit]
  by_cases hi : i < w
  · rw [Nat.div_eq_of_lt hi, Nat.mod_eq_of_lt hi]
    rfl
  · obtain rfl | hw := Nat.eq_zero_or_pos w
    · obtain rfl : x = 0 := by omega
      rw [Nat.zero_testBit, Nat.div_zero]
      exact Nat.zero_testBit _
    · have hpos : 1 ≤ i / w := (Nat.one_le_div_iff hw).mpr (Nat.le_of_not_lt hi)
      rw [Nat.testBit_lt_two_pow (hx.trans_le (Nat.pow_le_pow_right Nat.two_pos
        (Nat.le_of_not_lt hi))), getD_eq_default _ _ hpos, Nat.zero_testBit]

/-- The lowest `n` bits. -/
def bitsOf (x n : ℕ) : List Bool := (List.range n).map x.testBit

variable {n : ℕ}

@[simp] theorem length_bitsOf (x n : ℕ) : (bitsOf x n).length = n := by
  rw [bitsOf, length_map, length_range]

/-- The bits listed of a number are the number's. -/
theorem getD_bitsOf (hx : x < 2 ^ n) (i : ℕ) : (bitsOf x n).getD i false = x.testBit i := by
  by_cases hi : i < n
  · rw [getD_eq_getElem _ _ (by rw [length_bitsOf]; exact hi)]
    simp [bitsOf]
  · rw [getD_eq_default _ _ (by rw [length_bitsOf]; omega)]
    exact (Nat.testBit_lt_two_pow (hx.trans_le (Nat.pow_le_pow_right Nat.two_pos
      (Nat.le_of_not_lt hi)))).symm

/-- The bits of a list with a number's bits behind it. -/
theorem getD_append_bitsOf (hx : x < 2 ^ n) (bits : List Bool) (i : ℕ) :
    (bits ++ bitsOf x n).getD i false =
      if i < bits.length then bits.getD i false else x.testBit (i - bits.length) := by
  split_ifs with hi
  · exact getD_append _ _ _ _ hi
  · rw [getD_append_right _ _ _ _ (Nat.le_of_not_lt hi), getD_bitsOf hx]

end WordBits
