import Mathlib.Tactic.Ring

/-!
# Long division in binary

To divide `a` by `b` to some fraction digits, the remainder is shifted, divided and shifted again.
`Partway` is the equation between these: what is left of it is counted in units of `2 ^ z`, so that
`z` trailing zeros of the divisor may be left out.

* `Partway.start`, `Partway.shift`, `Partway.divide`: the steps.
* `Partway.quotient`, `Partway.exact`: what the digits say in the end.
-/

namespace LongDivision

/-- Of the quotient of `a` and `b` there are the `d` digits of `q`, and of the next digits `s` have
been shifted in: then there remain `r` units. -/
structure Partway (a b z d s q r : ℕ) : Prop where
  eq : a * 2 ^ (d + s) = q * 2 ^ s * b + r * 2 ^ z
  lt : r * 2 ^ z < b * 2 ^ s

variable {a b z d s q r e : ℕ}

/-- Before the first step. -/
theorem Partway.start (hb : 0 < b) (a z : ℕ) : Partway a b z 0 z (a / b) (a % b) where
  eq := by
    calc
      a * 2 ^ (0 + z) = (b * (a / b) + a % b) * 2 ^ z := by rw [Nat.div_add_mod, Nat.zero_add]
      _ = a / b * 2 ^ z * b + a % b * 2 ^ z := by ring
  lt := Nat.mul_lt_mul_of_pos_right (Nat.mod_lt a hb) (Nat.two_pow_pos z)

/-- Shifting the remainder. -/
theorem Partway.shift (h : Partway a b z d s q r) (k : ℕ) :
    Partway a b z d (s + k) q (r * 2 ^ k) where
  eq := by
    calc
      a * 2 ^ (d + (s + k)) = a * 2 ^ (d + s) * 2 ^ k := by rw [← Nat.add_assoc, pow_add, mul_assoc]
      _ = q * 2 ^ (s + k) * b + r * 2 ^ k * 2 ^ z := by rw [h.eq, pow_add]; ring
  lt := by
    calc
      r * 2 ^ k * 2 ^ z = r * 2 ^ z * 2 ^ k := by ring
      _ < b * 2 ^ s * 2 ^ k := Nat.mul_lt_mul_of_pos_right h.lt (Nat.two_pow_pos k)
      _ = b * 2 ^ (s + k) := by rw [pow_add, mul_assoc]

/-- One digit of the quotient. -/
theorem Partway.divide (h : Partway a b z d s q r) (hb : e * 2 ^ z = b) (he : 0 < e) :
    Partway a b z (d + s) 0 (q * 2 ^ s + r / e) (r % e) where
  eq := by
    calc
      a * 2 ^ (d + s + 0) = q * 2 ^ s * b + (e * (r / e) + r % e) * 2 ^ z := by
        rw [Nat.add_zero, h.eq, Nat.div_add_mod]
      _ = (q * 2 ^ s + r / e) * 2 ^ 0 * b + r % e * 2 ^ z := by
        rw [← hb]
        ring
  lt := by
    rw [← hb, pow_zero, mul_one]
    exact Nat.mul_lt_mul_of_pos_right (Nat.mod_lt r he) (Nat.two_pow_pos z)

/-- After all steps the quotient is the whole one. -/
theorem Partway.quotient (h : Partway a b z d 0 q r) : a * 2 ^ d / b = q := by
  have heq := h.eq
  have hlt := h.lt
  rw [Nat.add_zero, pow_zero, mul_one] at heq
  rw [pow_zero, mul_one] at hlt
  rw [heq, Nat.mul_comm q b, Nat.mul_add_div (Nat.zero_lt_of_lt hlt), Nat.div_eq_of_lt hlt,
    Nat.add_zero]

/-- Without a remainder all further digits are zero. -/
theorem Partway.exact (h : Partway a b z d s q 0) (n : ℕ) : a * 2 ^ (d + n) / b = q * 2 ^ n := by
  have hb : 0 < b := Nat.pos_of_mul_pos_right (Nat.zero_lt_of_lt h.lt)
  have heq : a * 2 ^ d = q * b := by
    refine Nat.eq_of_mul_eq_mul_right (Nat.two_pow_pos s) ?_
    calc
      a * 2 ^ d * 2 ^ s = q * 2 ^ s * b + 0 * 2 ^ z := by rw [← h.eq, pow_add, mul_assoc]
      _ = q * b * 2 ^ s := by ring
  calc
    a * 2 ^ (d + n) / b = q * 2 ^ n * b / b := by rw [pow_add, ← mul_assoc, heq]; ring_nf
    _ = q * 2 ^ n := Nat.mul_div_cancel _ hb

end LongDivision
