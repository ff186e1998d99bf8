import Mathlib.Data.Nat.Init
import Mathlib.Tactic.Common
import Ns3Joined.Fault
import Ns3Joined.Library.ExceptFold
import Ns3Joined.Library.LongDivision

/-!
# `int64x64_t`

Q64.64 fixed point numbers on native integers of 128 bits, as in `int64x64-128.cc`. The negation of
a signed integer is that of two's complement; of the least one, whose magnitude no signed integer
has, it is the same word.
-/

namespace Ns3Joined.Core

/-- `uint128_t`, and `int128_t` as its word. -/
abbrev uint128_t := BitVec 128

namespace int64x64_t

/-- Mask for the fraction part. -/
def HP_MASK_LO : BitVec 64 := 0xffffffffffffffff#64

/-- Mask for the sign and the integer part, a `uint64_t` too. -/
def HP_MASK_HI : BitVec 64 := ~~~HP_MASK_LO

/-- High bit of `uint128_t`. -/
def HP128_MASK_HI_BIT : uint128_t := 1#128 <<< 127

/-- The number of fraction digits. -/
def DIGITS : ℕ := 64

/-- `output_sign`: whether the result is negative, and the magnitudes. -/
def output_sign (sa sb : uint128_t) : Bool × uint128_t × uint128_t :=
  let negA := sa.slt 0
  let negB := sb.slt 0
  ((negA && !negB) || (!negA && negB), if negA then -sa else sa, if negB then -sb else sb)

/-- `int64x64_t::Umul`. -/
def Umul (a b : uint128_t) : Except Fault uint128_t :=
  let aL := a &&& HP_MASK_LO.setWidth 128
  let bL := b &&& HP_MASK_LO.setWidth 128
  let aH := (a >>> 64) &&& HP_MASK_LO.setWidth 128
  let bH := (b >>> 64) &&& HP_MASK_LO.setWidth 128
  -- the fractional part, the middle part and the high part
  let loPart := aL * bL
  let midPart := aL * bH + aH * bL
  let hiPart := aH * bH
  if hiPart &&& HP_MASK_HI.setWidth 128 ≠ 0 then .error .abort
  else
    -- adding 64-bit terms to get 128-bit results, with carries
    let result := (loPart >>> 64) + (midPart &&& HP_MASK_LO.setWidth 128)
    let res1 := (midPart >>> 64) + (hiPart &&& HP_MASK_LO.setWidth 128)
    .ok (result + (res1 <<< 64))

/-- `int64x64_t::Mul`. -/
def Mul (v o : uint128_t) : Except Fault uint128_t :=
  let s := output_sign v o
  (Umul s.2.1 s.2.2).map fun result => if s.1 then -result else result

namespace Udiv

/-- Skip trailing zeros in the divisor, for at most this many rounds: the shift and the divisor. -/
def skipTrailingZeros : ℕ → ℕ → uint128_t → ℕ × uint128_t
  | 0, shift, den => (shift, den)
  | rounds + 1, shift, den =>
    if den &&& 1 = 0 then skipTrailingZeros rounds (shift + 1) (den >>> 1) else (shift, den)

/-- Skip leading zeros in the remainder: the shift and the remainder. -/
def skipLeadingZeros : ℕ → ℕ → uint128_t → ℕ × uint128_t
  | 0, shift, rem => (shift, rem)
  | rounds + 1, shift, rem =>
    if rem &&& HP128_MASK_HI_BIT = 0 then skipLeadingZeros rounds (shift + 1) (rem <<< 1)
    else (shift, rem)

/-- Cast off denominator bits, if the lowest is zero or the remainder is smaller: the shift and the
divisor. -/
def castOff (rem : uint128_t) : ℕ → ℕ → uint128_t → ℕ × uint128_t
  | 0, shift, den => (shift, den)
  | rounds + 1, shift, den =>
    if den &&& 1 = 0 ∨ rem < den then castOff rem rounds (shift + 1) (den >>> 1)
    else (shift, den)

/-- The loop over the digits: how many there are, and the result. -/
def loop : ℕ → ℕ → ℕ → uint128_t → uint128_t → uint128_t → Except Fault (ℕ × uint128_t)
  | 0, _, _, _, _, _ => .error .diverges
  | rounds + 1, digis, shift, result, rem, den =>
    if digis < DIGITS ∧ rem ≠ 0 then
      let skipped := skipLeadingZeros (DIGITS - (digis + shift)) shift rem
      let cast := castOff skipped.2 (DIGITS - (digis + skipped.1)) skipped.1 den
      if cast.2 = 0 then .error .undefined
      else
        -- add in the quotient as shift bits of the fraction
        loop rounds (digis + cast.1) 0 (result <<< cast.1 + skipped.2 / cast.2)
          (skipped.2 % cast.2) cast.2
    else .ok (digis, result)

/-- Did we run out of remainder? -/
def finish (r : ℕ × uint128_t) : uint128_t :=
  if r.1 < DIGITS then r.2 <<< (DIGITS - r.1) else r.2

end Udiv

/-- `int64x64_t::Udiv`. -/
def Udiv (a b : uint128_t) : Except Fault uint128_t :=
  if b = 0 then .error .undefined
  else
    let quo := a / b
    let rem := a % b
    -- remainder not less than divisor
    if ¬ rem < b then .error .abort
    else
      let skipped := Udiv.skipTrailingZeros DIGITS 0 b
      (Udiv.loop (DIGITS + 1) 0 skipped.1 quo rem skipped.2).map Udiv.finish

/-- `int64x64_t::Div`. -/
def Div (v o : uint128_t) : Except Fault uint128_t :=
  let s := output_sign v o
  (Udiv s.2.1 s.2.2).map fun result => if s.1 then -result else result

/-- `int64x64_t::UmulByInvert`. -/
def UmulByInvert (a b : uint128_t) : uint128_t :=
  let ah := a >>> 64
  let bh := b >>> 64
  let al := a &&& HP_MASK_LO.setWidth 128
  let bl := b &&& HP_MASK_LO.setWidth 128
  let hi := ah * bh
  let mid := ah * bl + al * bh
  hi + (mid >>> 64)

/-- `int64x64_t::MulByInvert`. -/
def MulByInvert (v o : uint128_t) : uint128_t :=
  let negResult := v.slt 0
  let a := if negResult then -v else v
  let result := UmulByInvert a o
  if negResult then -result else result

/-- The constructor from explicit high and low values. -/
def ofHighLow (hi lo : BitVec 64) : uint128_t := (hi.signExtend 128 <<< 64) ||| lo.setWidth 128

/-- The constructor from an integral type. -/
def ofInteger (v : BitVec 64) : uint128_t := v.signExtend 128 <<< 64

/-- `int64x64_t::GetHigh`: the integer portion. -/
def GetHigh (v : uint128_t) : BitVec 64 := (v.sshiftRight 64).setWidth 64

/-- `int64x64_t::Invert`. -/
def Invert (v : BitVec 64) : Except Fault uint128_t :=
  if ¬ 1 < v then .error .abort
  else
    let a : uint128_t := 1#128 <<< 64
    (Udiv a (v.setWidth 128)).map fun result =>
      let tmp := MulByInvert (ofHighLow v 0) result
      if GetHigh tmp ≠ 1 then result + 1 else result

end int64x64_t

end Ns3Joined.Core

/-!
## Products and quotients of `int64x64_t`

The words of a product and of a quotient are always those of the exact result, truncated toward
zero, modulo `2 ^ 128`: so they are right where it is representable. The digits of a quotient come
from a long division (`Udiv.Held`), in which the divisor is odd as long as digits are missing and
the remainder is shifted up to the highest bit, so that no bit of the divisor is ever cast off.

* `Umul_eq`, `Udiv_eq`: products and quotients of magnitudes.
* `Mul_eq`, `Div_eq`: those of signed operands.
-/

namespace Ns3Joined.Core.int64x64_t

open BitVec

variable {a b x : uint128_t}

theorem and_lo_toNat (x : uint128_t) :
    (x &&& HP_MASK_LO.setWidth 128).toNat = x.toNat % 2 ^ 64 := by
  rw [toNat_and]
  exact Nat.and_two_pow_sub_one_eq_mod x.toNat 64

theorem shiftRight_toNat (x : uint128_t) : (x >>> 64).toNat = x.toNat / 2 ^ 64 := by
  rw [toNat_ushiftRight, Nat.shiftRight_eq_div_pow]

theorem hi_toNat (x : uint128_t) :
    ((x >>> 64) &&& HP_MASK_LO.setWidth 128).toNat = x.toNat / 2 ^ 64 := by
  rw [and_lo_toNat, shiftRight_toNat]
  have hx := x.isLt
  omega

theorem and_hi_eq_zero (x : uint128_t) : x &&& HP_MASK_HI.setWidth 128 = 0 :=
  and_zero

/-- The parts of a product carry as they are added. -/
theorem parts_mod (lo mid hi : ℕ) :
    (lo / 2 ^ 64 + mid % 2 ^ 64 + (mid / 2 ^ 64 + hi % 2 ^ 64) * 2 ^ 64) % 2 ^ 128 =
      (hi * 2 ^ 128 + mid * 2 ^ 64 + lo) / 2 ^ 64 % 2 ^ 128 := by
  omega

/-- A product from four products of halves. -/
theorem product_parts (a b : ℕ) :
    a / 2 ^ 64 * (b / 2 ^ 64) * 2 ^ 128 +
      (a % 2 ^ 64 * (b / 2 ^ 64) + a / 2 ^ 64 * (b % 2 ^ 64)) * 2 ^ 64 +
      a % 2 ^ 64 * (b % 2 ^ 64) = a * b := by
  calc
    _ = (2 ^ 64 * (a / 2 ^ 64) + a % 2 ^ 64) * (2 ^ 64 * (b / 2 ^ 64) + b % 2 ^ 64) := by ring
    _ = a * b := by rw [Nat.div_add_mod, Nat.div_add_mod]

theorem shiftLeft_toNat (x : uint128_t) (n : ℕ) :
    (x <<< n).toNat = x.toNat * 2 ^ n % 2 ^ 128 := by
  rw [toNat_shiftLeft, Nat.shiftLeft_eq]

theorem mul_toNat_of_lt (h : a.toNat * b.toNat < 2 ^ 128) : (a * b).toNat = a.toNat * b.toNat := by
  rw [toNat_mul, Nat.mod_eq_of_lt h]

/-- **`Umul`** for operands up to `2 ^ 127`. -/
theorem Umul_eq (ha : a.toNat ≤ 2 ^ 127) (hb : b.toNat ≤ 2 ^ 127) :
    Umul a b = .ok (BitVec.ofNat 128 (a.toNat * b.toNat / 2 ^ 64)) := by
  unfold Umul
  rw [if_neg (by rw [and_hi_eq_zero]; exact fun h => h rfl)]
  refine congrArg Except.ok (eq_of_toNat_eq ?_)
  have haH : a.toNat / 2 ^ 64 ≤ 2 ^ 63 := Nat.div_le_of_le_mul (by omega)
  have hbH : b.toNat / 2 ^ 64 ≤ 2 ^ 63 := Nat.div_le_of_le_mul (by omega)
  have haL : a.toNat % 2 ^ 64 ≤ 2 ^ 64 - 1 := by omega
  have hbL : b.toNat % 2 ^ 64 ≤ 2 ^ 64 - 1 := by omega
  have hlo := Nat.mul_le_mul haL hbL
  have hLH := Nat.mul_le_mul haL hbH
  have hHL := Nat.mul_le_mul haH hbL
  have hHH := Nat.mul_le_mul haH hbH
  have hmid : ((a &&& HP_MASK_LO.setWidth 128) * ((b >>> 64) &&& HP_MASK_LO.setWidth 128) +
      ((a >>> 64) &&& HP_MASK_LO.setWidth 128) * (b &&& HP_MASK_LO.setWidth 128)).toNat =
      a.toNat % 2 ^ 64 * (b.toNat / 2 ^ 64) + a.toNat / 2 ^ 64 * (b.toNat % 2 ^ 64) := by
    rw [toNat_add, mul_toNat_of_lt, mul_toNat_of_lt, hi_toNat, hi_toNat, and_lo_toNat,
      and_lo_toNat]
    · omega
    · rw [hi_toNat, and_lo_toNat]
      omega
    · rw [hi_toNat, and_lo_toNat]
      omega
  rw [toNat_add, toNat_add, shiftLeft_toNat, toNat_add, shiftRight_toNat,
    shiftRight_toNat, and_lo_toNat, and_lo_toNat, hmid, mul_toNat_of_lt, mul_toNat_of_lt,
    and_lo_toNat, and_lo_toNat, hi_toNat, hi_toNat, toNat_ofNat, ← product_parts a.toNat,
    ← parts_mod]
  · omega
  · rw [hi_toNat, hi_toNat]
    omega
  · rw [and_lo_toNat, and_lo_toNat]
    omega

/-! ### Division -/

variable {q z : ℕ} {y result : uint128_t}

namespace Udiv

open LongDivision

variable {rem den : uint128_t} {rounds shift digis : ℕ}

theorem and_one_eq_zero_iff (x : uint128_t) : x &&& 1 = 0 ↔ x.toNat % 2 = 0 := by
  rw [← toNat_inj, toNat_and]
  change x.toNat &&& 1 = 0 ↔ _
  rw [Nat.and_one_is_mod]

theorem and_high_eq_zero_iff (x : uint128_t) :
    x &&& HP128_MASK_HI_BIT = 0 ↔ x.toNat < 2 ^ 127 := by
  have hx := x.isLt
  rw [← toNat_inj, toNat_and]
  change x.toNat &&& 2 ^ 127 = 0 ↔ _
  have hdiv : (x.toNat &&& 2 ^ 127) / 2 ^ 127 = x.toNat / 2 ^ 127 % 2 := by
    rw [Nat.and_div_two_pow, Nat.div_self (Nat.two_pow_pos 127), Nat.and_one_is_mod]
  have hmod : (x.toNat &&& 2 ^ 127) % 2 ^ 127 = 0 := by
    rw [Nat.and_mod_two_pow, Nat.mod_self, Nat.and_zero]
  omega

theorem shiftRight_one_toNat (x : uint128_t) : (x >>> 1).toNat = x.toNat / 2 := by
  rw [toNat_ushiftRight, Nat.shiftRight_eq_div_pow, pow_one]

/-- The zeros at the end of the divisor are counted and taken off. -/
theorem skipTrailingZeros_spec (rounds shift : ℕ) (den : uint128_t) :
    ∃ z, (skipTrailingZeros rounds shift den).1 = shift + z ∧
      (skipTrailingZeros rounds shift den).2.toNat * 2 ^ z = den.toNat ∧ z ≤ rounds ∧
      (z = rounds ∨ (skipTrailingZeros rounds shift den).2.toNat % 2 ≠ 0) := by
  induction rounds generalizing shift den with
  | zero => exact ⟨0, rfl, Nat.mul_one _, le_rfl, Or.inl rfl⟩
  | succ rounds ih =>
    rw [skipTrailingZeros]
    split_ifs with heven
    · obtain ⟨z, hshift, hden, hz, hend⟩ := ih (shift + 1) (den >>> 1)
      refine ⟨z + 1, by rw [hshift]; omega, ?_, by omega, hend.imp_left (congrArg (· + 1))⟩
      rw [pow_succ, ← mul_assoc, hden, shiftRight_one_toNat]
      exact Nat.div_mul_cancel (Nat.dvd_of_mod_eq_zero ((and_one_eq_zero_iff den).mp heven))
    · exact ⟨0, rfl, Nat.mul_one _, Nat.zero_le _,
        Or.inr fun h => heven ((and_one_eq_zero_iff den).mpr h)⟩

/-- The zeros at the front of the remainder are counted and shifted out. -/
theorem skipLeadingZeros_spec (rounds shift : ℕ) (rem : uint128_t) :
    ∃ k, (skipLeadingZeros rounds shift rem).1 = shift + k ∧
      (skipLeadingZeros rounds shift rem).2.toNat = rem.toNat * 2 ^ k ∧ k ≤ rounds ∧
      (k = rounds ∨ 2 ^ 127 ≤ (skipLeadingZeros rounds shift rem).2.toNat) := by
  induction rounds generalizing shift rem with
  | zero => exact ⟨0, rfl, (Nat.mul_one _).symm, le_rfl, Or.inl rfl⟩
  | succ rounds ih =>
    rw [skipLeadingZeros]
    split_ifs with hlow
    · obtain ⟨k, hshift, hrem, hk, hend⟩ := ih (shift + 1) (rem <<< 1)
      refine ⟨k + 1, by rw [hshift]; omega, ?_, by omega, hend.imp_left (congrArg (· + 1))⟩
      have hlt := (and_high_eq_zero_iff rem).mp hlow
      calc
        _ = rem.toNat * 2 ^ 1 % 2 ^ 128 * 2 ^ k := by rw [hrem, shiftLeft_toNat]
        _ = rem.toNat * 2 * 2 ^ k := by rw [pow_one, Nat.mod_eq_of_lt (by omega)]
        _ = rem.toNat * 2 ^ (k + 1) := by rw [pow_succ, mul_assoc, Nat.mul_comm 2]
    · exact ⟨0, rfl, (Nat.mul_one _).symm, Nat.zero_le _,
        Or.inr (Nat.le_of_not_lt fun h => hlow ((and_high_eq_zero_iff rem).mpr h))⟩

/-- No denominator bits are cast off: it is odd, and the remainder is not smaller. -/
theorem castOff_eq (h : rounds = 0 ∨ den.toNat % 2 ≠ 0 ∧ den.toNat ≤ rem.toNat) :
    castOff rem rounds shift den = (shift, den) := by
  cases rounds with
  | zero => rfl
  | succ rounds =>
    obtain ⟨hodd, hle⟩ := h.resolve_left (Nat.succ_ne_zero rounds)
    rw [castOff, if_neg]
    rintro (heven | hlt)
    · exact hodd ((and_one_eq_zero_iff den).mp heven)
    · exact absurd (lt_def.mp hlt) (Nat.not_lt.mpr hle)

/-- Where the loop over the digits is. -/
structure Held (a b z digis shift : ℕ) (result rem den : uint128_t) (q : ℕ) : Prop where
  partway : Partway a b z digis shift q rem.toNat
  result : result.toNat = q % 2 ^ 128
  divisor : den.toNat * 2 ^ z = b
  pos : 0 < den.toNat
  le : den.toNat ≤ 2 ^ 127
  odd : digis + shift < DIGITS → den.toNat % 2 ≠ 0
  digits : digis + shift ≤ DIGITS
  progress : 0 < shift ∨ rem.toNat < den.toNat

section

variable {a b : ℕ} (h : Held a b z digis shift result rem den q)

include h

/-- When the loop ends, the digits that are held are the quotient. -/
theorem Held.finish (hend : ¬ (digis < DIGITS ∧ rem ≠ 0)) :
    finish (digis, result) = BitVec.ofNat 128 (a * 2 ^ 64 / b) := by
  have hdigits := h.digits
  refine eq_of_toNat_eq ?_
  rw [toNat_ofNat]
  unfold Udiv.finish
  change (if digis < DIGITS then result <<< (DIGITS - digis) else result).toNat = _
  split_ifs with hdigis
  · -- nothing remains
    have hrem : rem.toNat = 0 := congrArg BitVec.toNat (not_not.mp (not_and.mp hend hdigis))
    have hexact := (hrem ▸ h.partway).exact (DIGITS - digis)
    rw [Nat.add_sub_cancel' hdigis.le] at hexact
    rw [shiftLeft_toNat, h.result, Nat.mod_mul_mod]
    exact congrArg (· % 2 ^ 128) hexact.symm
  · obtain rfl : digis = DIGITS := by omega
    obtain rfl : shift = 0 := by omega
    rw [h.result]
    exact congrArg (· % 2 ^ 128) h.partway.quotient.symm

/-- One round of the loop adds at least one digit. -/
theorem Held.round (hdigis : digis < DIGITS) (hrem : rem ≠ 0) :
    ∃ shift' q', 0 < shift' ∧
      (∀ rounds, loop (rounds + 1) digis shift result rem den =
        loop rounds (digis + shift') 0
          (result <<< shift' + (skipLeadingZeros (DIGITS - (digis + shift)) shift rem).2 / den)
          ((skipLeadingZeros (DIGITS - (digis + shift)) shift rem).2 % den) den) ∧
      Held a b z (digis + shift') 0
        (result <<< shift' + (skipLeadingZeros (DIGITS - (digis + shift)) shift rem).2 / den)
        ((skipLeadingZeros (DIGITS - (digis + shift)) shift rem).2 % den) den q' := by
  obtain ⟨k, hshift, hskipped, hk, hend⟩ :=
    skipLeadingZeros_spec (DIGITS - (digis + shift)) shift rem
  have hdigits := h.digits
  -- if there are digits to come, the remainder has its highest bit
  have hcast : castOff (skipLeadingZeros (DIGITS - (digis + shift)) shift rem).2
      (DIGITS - (digis + (shift + k))) (shift + k) den = (shift + k, den) := by
    apply castOff_eq
    obtain hall | hhigh := hend
    · exact Or.inl (by omega)
    · by_cases hmore : digis + shift < DIGITS
      · exact Or.inr ⟨h.odd hmore, h.le.trans hhigh⟩
      · exact Or.inl (by omega)
  have hpos : 0 < shift + k := by
    obtain hpos | hlt := h.progress
    · exact Nat.add_pos_left hpos k
    · by_contra hzero
      obtain ⟨rfl, rfl⟩ := Nat.add_eq_zero_iff.mp (Nat.eq_zero_of_not_pos hzero)
      obtain hall | hhigh := hend
      · omega
      · rw [hskipped, pow_zero, mul_one] at hhigh
        have hle := h.le
        omega
  have hpartway := (hskipped ▸ h.partway.shift k).divide h.divisor h.pos
  refine ⟨shift + k, _, hpos, fun rounds => ?_, ⟨hpartway, ?_, h.divisor, h.pos, h.le, ?_, ?_, ?_⟩⟩
  · have hne : den ≠ 0 := fun hzero => absurd h.pos (by rw [hzero]; exact Nat.lt_irrefl 0)
    rw [loop, if_pos ⟨hdigis, hrem⟩]
    simp only [hshift, hcast, if_neg hne]
  · rw [toNat_add, shiftLeft_toNat, h.result, toNat_udiv]
    simp only [Nat.mod_mul_mod, Nat.mod_add_mod]
  · exact fun hmore => h.odd (by omega)
  · omega
  · exact Or.inr (Nat.mod_lt _ h.pos)

/-- The loop of `Udiv` ends with the quotient. -/
theorem Held.loop (hrounds : DIGITS < rounds + digis) :
    (Udiv.loop rounds digis shift result rem den).map Udiv.finish =
      .ok (BitVec.ofNat 128 (a * 2 ^ 64 / b)) := by
  induction rounds generalizing digis shift result rem q with
  | zero =>
    have hdigits := h.digits
    omega
  | succ rounds ih =>
    by_cases hmore : digis < DIGITS ∧ rem ≠ 0
    · obtain ⟨shift', q', hpos, hstep, hheld⟩ := h.round hmore.1 hmore.2
      rw [hstep]
      exact ih hheld (by omega)
    · rw [Udiv.loop, if_neg hmore]
      exact congrArg Except.ok (h.finish hmore)

end

end Udiv

/-- **`Udiv`** for divisors up to `2 ^ 127`. -/
theorem Udiv_eq (hb : b ≠ 0) (hle : b.toNat ≤ 2 ^ 127) :
    Udiv a b = .ok (BitVec.ofNat 128 (a.toNat * 2 ^ 64 / b.toNat)) := by
  have hpos : 0 < b.toNat := Nat.pos_of_ne_zero fun h => hb (eq_of_toNat_eq h)
  have hlt : a % b < b := lt_def.mpr (Nat.mod_lt _ hpos)
  obtain ⟨z, hshift, hden, hz, hend⟩ := Udiv.skipTrailingZeros_spec DIGITS 0 b
  unfold Udiv
  rw [if_neg hb, if_neg (not_not.mpr hlt)]
  refine Udiv.Held.loop (z := z) (q := a.toNat / b.toNat) ⟨?_, ?_, hden, ?_, ?_, ?_, ?_, ?_⟩ ?_
  · rw [hshift, Nat.zero_add]
    exact LongDivision.Partway.start hpos a.toNat z
  · rw [toNat_udiv, Nat.mod_eq_of_lt (Nat.lt_of_le_of_lt (Nat.div_le_self _ _) a.isLt)]
  · exact Nat.pos_of_mul_pos_right (hden ▸ hpos)
  · exact (Nat.le_mul_of_pos_right _ (Nat.two_pow_pos z)).trans (hden.trans_le hle)
  · intro hmore
    refine hend.resolve_left ?_
    omega
  · omega
  · rw [hshift, Nat.zero_add]
    by_cases hzero : z = 0
    · refine Or.inr ?_
      rw [hzero, pow_zero, mul_one] at hden
      rw [hden]
      exact Nat.mod_lt _ hpos
    · exact Or.inl (Nat.pos_of_ne_zero hzero)
  · omega

/-! ### Signs -/

/-- The integer of this magnitude, negative or not. -/
def withSign (negative : Bool) (n : ℕ) : ℤ := if negative then -n else n

theorem withSign_mul (negA negB : Bool) (m n : ℕ) :
    withSign negA m * withSign negB n = withSign (negA ^^ negB) (m * n) := by
  cases negA <;> cases negB <;> simp [withSign]

theorem withSign_tdiv (negA negB : Bool) (m n : ℕ) :
    (withSign negA m).tdiv (withSign negB n) = withSign (negA ^^ negB) (m / n) := by
  cases negA <;> cases negB <;> simp [withSign]

/-- A result with its sign, as a word. -/
theorem withSign_word (negative : Bool) (n : ℕ) :
    (if negative then -BitVec.ofNat 128 n else BitVec.ofNat 128 n) =
      BitVec.ofInt 128 (withSign negative n) := by
  cases negative with
  | false => rfl
  | true => simp [withSign, ofInt_neg]

/-- The magnitude of a signed word. -/
def magnitude (x : uint128_t) : uint128_t := if x.slt 0 then -x else x

/-- A number is its magnitude with its sign. -/
theorem magnitude_spec (x : uint128_t) :
    x.toInt = withSign (x.slt 0) (magnitude x).toNat ∧ (magnitude x).toNat ≤ 2 ^ 127 := by
  have hcond := toInt_eq_toNat_cond x
  have hx := x.isLt
  unfold magnitude withSign
  rw [slt_eq_decide, show (0 : uint128_t).toInt = 0 from rfl]
  by_cases hneg : x.toInt < 0
  · rw [decide_eq_true hneg, if_pos rfl, if_pos rfl, toNat_neg]
    split_ifs at hcond <;> omega
  · rw [decide_eq_false hneg, if_neg Bool.false_ne_true, if_neg Bool.false_ne_true]
    split_ifs at hcond <;> omega

theorem output_sign_eq (x y : uint128_t) :
    output_sign x y = (x.slt 0 ^^ y.slt 0, magnitude x, magnitude y) := by
  unfold output_sign magnitude
  cases x.slt 0 <;> cases y.slt 0 <;> rfl

/-- The exact product of two Q64.64 numbers, truncated toward zero to 64 fraction digits. -/
def product (x y : uint128_t) : ℤ := (x.toInt * y.toInt).tdiv (2 ^ 64)

/-- The exact quotient, truncated toward zero to 64 fraction digits. -/
def quotient (x y : uint128_t) : ℤ := (x.toInt * 2 ^ 64).tdiv y.toInt

/-- The product from the magnitudes. -/
theorem product_eq (x y : uint128_t) : product x y =
    withSign (x.slt 0 ^^ y.slt 0) ((magnitude x).toNat * (magnitude y).toNat / 2 ^ 64) := by
  unfold product
  rw [(magnitude_spec x).1, (magnitude_spec y).1, withSign_mul]
  have hdiv := withSign_tdiv (x.slt 0 ^^ y.slt 0) false
    ((magnitude x).toNat * (magnitude y).toNat) (2 ^ 64)
  rw [Bool.xor_false] at hdiv
  exact hdiv

/-- The quotient from the magnitudes. -/
theorem quotient_eq (x y : uint128_t) : quotient x y =
    withSign (x.slt 0 ^^ y.slt 0) ((magnitude x).toNat * 2 ^ 64 / (magnitude y).toNat) := by
  have hscale := withSign_mul (x.slt 0) false (magnitude x).toNat (2 ^ 64)
  rw [Bool.xor_false] at hscale
  unfold quotient
  rw [(magnitude_spec x).1, (magnitude_spec y).1, ← withSign_tdiv, ← hscale]
  rfl

/-- **`Mul`** gives the product modulo `2 ^ 128`. -/
theorem Mul_eq (x y : uint128_t) : Mul x y = .ok (BitVec.ofInt 128 (product x y)) := by
  change (Umul (output_sign x y).2.1 (output_sign x y).2.2).map
    (fun result => if (output_sign x y).1 then -result else result) = _
  rw [output_sign_eq, Umul_eq (magnitude_spec x).2 (magnitude_spec y).2, product_eq]
  exact congrArg Except.ok (withSign_word _ _)

theorem magnitude_ne_zero (hy : y ≠ 0) : magnitude y ≠ 0 := by
  unfold magnitude
  split_ifs
  · exact fun h => hy (neg_eq_zero_iff.mp h)
  · exact hy

/-- **`Div`** gives the quotient modulo `2 ^ 128`. -/
theorem Div_eq (x : uint128_t) (hy : y ≠ 0) : Div x y = .ok (BitVec.ofInt 128 (quotient x y)) := by
  change (Udiv (output_sign x y).2.1 (output_sign x y).2.2).map
    (fun result => if (output_sign x y).1 then -result else result) = _
  rw [output_sign_eq, Udiv_eq (magnitude_ne_zero hy) (magnitude_spec y).2, quotient_eq]
  exact congrArg Except.ok (withSign_word _ _)

end Ns3Joined.Core.int64x64_t
