import Mathlib.Analysis.Real.Sqrt
import Mathlib.Data.Nat.Cast.Field
import Mathlib.Data.Nat.Cast.Order.Field

/-!
# Inverse square roots by Newton's method

The iteration `x ↦ x * (3 - c * x²) / 2` for `1 / √c`. One iteration never ends above the inverse
square root, from wherever it started below twice of it, and it does not lose much: an estimate that
was not above it does not get smaller.

In fixed point an estimate is a count of parts of `1 / S`, and what is computed is rounded down
twice. It stays below the exact iteration, so it stays below the inverse square root.

* `newton`, `mul_newton_sq_le`: the exact iteration.
* `step`, `step_le_newton`: the one in fixed point.
* `mul_step_sq_le`: it ends below, and `step_pos`: but not at zero.
-/

namespace InverseSqrt

section Exact

variable {K : Type*} [Field K] [LinearOrder K] [IsStrictOrderedRing K]

/-- One iteration for `1 / √c` from `x`. -/
def newton (c x : K) : K := x * (3 - c * x ^ 2) / 2

variable {c x : K}

/-- Newton's step in terms of the square: the error is squared. -/
theorem mul_newton_sq (c x : K) :
    c * newton c x ^ 2 = 1 - (4 - c * x ^ 2) * (1 - c * x ^ 2) ^ 2 / 4 := by
  unfold newton
  ring

/-- The iteration ends below, from an estimate that is at most twice too large. -/
theorem mul_newton_sq_le (h : c * x ^ 2 ≤ 4) : c * newton c x ^ 2 ≤ 1 := by
  rw [mul_newton_sq]
  have hloss : 0 ≤ (4 - c * x ^ 2) * (1 - c * x ^ 2) ^ 2 / 4 :=
    div_nonneg (mul_nonneg (sub_nonneg.mpr h) (sq_nonneg _)) (by norm_num)
  linarith

end Exact

/-! ### Fixed point -/

/-- One iteration in parts of `1 / S`, rounded down twice. -/
def step (S c r : ℕ) : ℕ := (3 * S ^ 2 - c * r ^ 2) / 4 * r / (S ^ 2 / 2)

variable {S c r : ℕ}

/-- What is computed is not above the exact iteration. -/
theorem step_le_newton (heven : 2 ∣ S) (hpos : 0 < S) (h : c * r ^ 2 ≤ 3 * S ^ 2) :
    (step S c r : ℚ) ≤ S * newton (c : ℚ) (r / S) := by
  have hS : (0 : ℚ) < S := Nat.cast_pos.mpr hpos
  have hhalf : ((S ^ 2 / 2 : ℕ) : ℚ) = (S : ℚ) ^ 2 / 2 := by
    rw [Nat.cast_div (Dvd.dvd.pow heven two_ne_zero) (by norm_num), Nat.cast_pow]
    norm_num
  have hdiff : ((3 * S ^ 2 - c * r ^ 2 : ℕ) : ℚ) = 3 * (S : ℚ) ^ 2 - c * (r : ℚ) ^ 2 := by
    rw [Nat.cast_sub h]
    push_cast
    ring
  calc (step S c r : ℚ)
      ≤ (((3 * S ^ 2 - c * r ^ 2) / 4 * r : ℕ) : ℚ) / ((S ^ 2 / 2 : ℕ) : ℚ) := Nat.cast_div_le
    _ ≤ (3 * (S : ℚ) ^ 2 - c * (r : ℚ) ^ 2) / 4 * r / ((S : ℚ) ^ 2 / 2) := by
        rw [hhalf, Nat.cast_mul]
        -- the inner quotient was rounded down as well
        have hinner : (((3 * S ^ 2 - c * r ^ 2) / 4 : ℕ) : ℚ) ≤
            (3 * (S : ℚ) ^ 2 - c * (r : ℚ) ^ 2) / 4 := by
          rw [← hdiff]
          exact Nat.cast_div_le
        gcongr
    _ = S * newton (c : ℚ) (r / S) := by
        unfold newton
        field_simp
        ring

/-- The fixed-point iteration ends below the inverse square root. -/
theorem mul_step_sq_le (heven : 2 ∣ S) (hpos : 0 < S) (h : c * r ^ 2 ≤ 3 * S ^ 2) :
    c * step S c r ^ 2 ≤ S ^ 2 := by
  have hS : (0 : ℚ) < S := Nat.cast_pos.mpr hpos
  have hstart : (c : ℚ) * (r / S) ^ 2 ≤ 4 := by
    rw [div_pow, ← mul_div_assoc, div_le_iff₀ (pow_pos hS 2)]
    have hcast : ((c * r ^ 2 : ℕ) : ℚ) ≤ ((3 * S ^ 2 : ℕ) : ℚ) := Nat.cast_le.mpr h
    push_cast at hcast
    nlinarith [sq_nonneg (S : ℚ)]
  have hle := step_le_newton heven hpos h
  have hsq : (step S c r : ℚ) ^ 2 ≤ (S * newton (c : ℚ) (r / S)) ^ 2 :=
    pow_le_pow_left₀ (Nat.cast_nonneg _) hle 2
  have hcast : ((c * step S c r ^ 2 : ℕ) : ℚ) ≤ ((S ^ 2 : ℕ) : ℚ) := by
    push_cast
    calc (c : ℚ) * (step S c r : ℚ) ^ 2
        ≤ c * (S * newton (c : ℚ) (r / S)) ^ 2 := by gcongr
      _ = S ^ 2 * (c * newton (c : ℚ) (r / S) ^ 2) := by ring
      _ ≤ S ^ 2 * 1 := by
          gcongr
          exact mul_newton_sq_le hstart
      _ = (S : ℚ) ^ 2 := mul_one _
  exact Nat.cast_le.mp hcast

/-- The iteration stays short of `1`. -/
theorem step_lt (heven : 2 ∣ S) (hlt : r < S) (hc : 0 < c) (h : c * r ^ 2 ≤ 3 * S ^ 2) :
    step S c r < S := by
  have hpos : 0 < S := Nat.zero_lt_of_lt hlt
  obtain rfl | hc₂ : c = 1 ∨ 2 ≤ c := by omega
  · -- for one the estimate is below the inverse square root, and something is lost
    have hS : (0 : ℚ) < S := Nat.cast_pos.mpr hpos
    have hx : (r / S : ℚ) < 1 := (div_lt_one hS).mpr (Nat.cast_lt.mpr hlt)
    have hx₀ : (0 : ℚ) ≤ r / S := div_nonneg (Nat.cast_nonneg r) hS.le
    have hnewton : newton ((1 : ℕ) : ℚ) (r / S) < 1 := by
      unfold newton
      push_cast
      nlinarith [mul_nonneg hx₀ hx₀, mul_pos (sub_pos.mpr hx) (sub_pos.mpr hx)]
    have hcast : (step S 1 r : ℚ) < S := calc
      (step S 1 r : ℚ) ≤ S * newton ((1 : ℕ) : ℚ) (r / S) := step_le_newton heven hpos h
      _ < S * 1 := mul_lt_mul_of_pos_left hnewton hS
      _ = S := mul_one _
    exact Nat.cast_lt.mp hcast
  · -- for more the inverse square root itself is short of it
    have hsq := mul_step_sq_le heven hpos h
    nlinarith

/-- The iteration does not come to zero, if the estimate is short of `1` and not above the inverse
square root for one less. -/
theorem step_pos (hr : 0 < r) (hlt : r < S) (hc : c ≤ S ^ 2) (h : c * r ^ 2 ≤ S ^ 2 + r ^ 2) :
    0 < step S c r := by
  have hhalf : 0 < S ^ 2 / 2 := Nat.div_pos (by nlinarith) two_pos
  refine Nat.div_pos ?_ hhalf
  obtain rfl | hr₂ : r = 1 ∨ 2 ≤ r := by omega
  · -- one part: what is subtracted is the count itself
    rw [one_pow, mul_one, mul_one]
    omega
  · -- otherwise half of the square comes out even if two thirds of it are subtracted
    have hsq : r ^ 2 + 3 ≤ S ^ 2 := by nlinarith
    have hquarter : S ^ 2 / 2 ≤ (3 * S ^ 2 - c * r ^ 2) / 4 * 2 := by omega
    exact hquarter.trans (Nat.mul_le_mul_left _ hr₂)

/-- One part stays one part. -/
theorem step_one (heven : 2 ∣ S) (hc : c ≤ S ^ 2) (hS : 2 ≤ S) : step S c 1 = 1 := by
  have hdvd : 2 * 2 ∣ S * S := Nat.mul_dvd_mul heven heven
  obtain ⟨k, hk⟩ := hdvd
  have hfour : 4 ≤ S * S := Nat.mul_le_mul hS hS
  unfold step
  rw [one_pow, mul_one, mul_one, pow_two]
  rw [pow_two] at hc
  exact Nat.div_eq_of_lt_le (by omega) (by omega)

/-- An estimate that is not above the inverse square root, in real numbers. -/
theorem mul_sqrt_le (h : c * r ^ 2 ≤ S ^ 2) : (r : ℝ) * √c ≤ S := by
  have hcast : ((c * r ^ 2 : ℕ) : ℝ) ≤ ((S ^ 2 : ℕ) : ℝ) := Nat.cast_le.mpr h
  refine (abs_le_of_sq_le_sq' ?_ (Nat.cast_nonneg S)).2
  rw [mul_pow, Real.sq_sqrt (Nat.cast_nonneg c), mul_comm]
  push_cast at hcast
  exact hcast

end InverseSqrt
