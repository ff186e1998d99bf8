import Ns3Joined.Core.Int64x64
import Mathlib.Tactic.Linarith

/-!
# Division by an integer through its inverse

`Invert` rounds `2 ^ 128 / v` up. The product with it is above `n / v` by less than `1 / v`, which
is too little to reach the next integer, and for negative `n` too little to leave the integer, since
the product drops what is below `2 ^ -64`.

* `Invert_eq`: the inverse is the reciprocal, rounded up.
* `reciprocal_floor`: the error does not show in the integer portion.
* `getHigh_mulByInvert`: the integer portion of the product is the quotient, rounded down.
-/

namespace Ns3Joined.Core.int64x64_t

open BitVec

variable {m v inv e : ℕ}

/-! ### Reciprocals -/

/-- A multiple `c` of the divisor just above `m` is just above the product too. -/
theorem reciprocal_ceil {c s : ℕ} (hinv : inv * v = 2 ^ 128 + e) (he : e < v) (hv : v < 2 ^ 63)
    (hm : m ≤ 2 ^ 63) (hc : m + s = c * v) (hs : s < v) :
    m * inv / 2 ^ 64 ≤ c * 2 ^ 64 ∧ c * 2 ^ 64 < m * inv / 2 ^ 64 + 2 ^ 64 := by
  have hpos : 0 < v := by omega
  have hscaled : m * inv * v + s * 2 ^ 128 = c * v * 2 ^ 128 + m * e := by
    calc
      m * inv * v + s * 2 ^ 128 = m * (inv * v) + s * 2 ^ 128 := by rw [mul_assoc]
      _ = (m + s) * 2 ^ 128 + m * e := by rw [hinv]; ring
      _ = c * v * 2 ^ 128 + m * e := by rw [hc]
  have hme : m * e < 2 ^ 64 * v := by
    calc
      m * e ≤ 2 ^ 63 * e := Nat.mul_le_mul_right e hm
      _ < 2 ^ 64 * v := by omega
  constructor
  · -- what is dropped is more than the error
    have hlt : m * inv * v < (c * 2 ^ 64 + 1) * 2 ^ 64 * v := by
      calc
        m * inv * v < c * v * 2 ^ 128 + 2 ^ 64 * v := by omega
        _ = (c * 2 ^ 64 + 1) * 2 ^ 64 * v := by ring
    have hlt' := Nat.lt_of_mul_lt_mul_right hlt
    omega
  · -- and less than what the product is above the multiple before
    have hslack : s * 2 ^ 128 + 2 ^ 128 ≤ v * 2 ^ 128 := by omega
    have hsmall : 2 ^ 64 * v ≤ 2 ^ 128 := by omega
    have hle : (c * 2 ^ 64 + 1) * 2 ^ 64 * v ≤ (m * inv + 2 ^ 128) * v := by
      calc
        (c * 2 ^ 64 + 1) * 2 ^ 64 * v = c * v * 2 ^ 128 + 2 ^ 64 * v := by ring
        _ ≤ m * inv * v + v * 2 ^ 128 := by linarith [Nat.zero_le (m * e)]
        _ = (m * inv + 2 ^ 128) * v := by ring
    have hle' := Nat.le_of_mul_le_mul_right hle hpos
    omega

/-- The reciprocal rounded up gives the quotient rounded down. -/
theorem reciprocal_floor (hinv : inv * v = 2 ^ 128 + e) (he : e < v) (hv : v < 2 ^ 63)
    (hm : m < 2 ^ 63) : m * inv / 2 ^ 64 / 2 ^ 64 = m / v := by
  have hpos : 0 < v := by omega
  have hme : m * e < 2 ^ 128 := by
    calc
      m * e ≤ 2 ^ 63 * e := Nat.mul_le_mul_right e hm.le
      _ < 2 ^ 128 := by omega
  calc
    m * inv / 2 ^ 64 / 2 ^ 64 = m * inv / 2 ^ 128 := Nat.div_div_eq_div_mul _ _ _
    _ = m * inv * v / (2 ^ 128 * v) := (Nat.mul_div_mul_right _ _ hpos).symm
    _ = (2 ^ 128 * m + m * e) / 2 ^ 128 / v := by
      rw [Nat.div_div_eq_div_mul, mul_assoc, hinv]
      ring_nf
    _ = m / v := by rw [Nat.mul_add_div (Nat.two_pow_pos 128), Nat.div_eq_of_lt hme, Nat.add_zero]

/-- The integer portion of the product, rounded down for either sign. -/
theorem reciprocal_fdiv (hinv : inv * v = 2 ^ 128 + e) (he : e < v) (hv : v < 2 ^ 63) {n : ℤ}
    (hn : n.natAbs = m) (hm : m ≤ 2 ^ 63) (hpos : ¬ n < 0 → m < 2 ^ 63) :
    withSign (decide (n < 0)) (m * inv / 2 ^ 64) / 2 ^ 64 = n.fdiv v := by
  rw [Int.fdiv_eq_ediv_of_nonneg _ (Int.natCast_nonneg v)]
  by_cases hneg : n < 0
  · -- the least multiple of the divisor that is not below the magnitude
    have hvpos : 0 < v := by omega
    have hdiv := Nat.div_add_mod (m + (v - 1)) v
    have hmod := Nat.mod_lt (m + (v - 1)) hvpos
    have hc : m + (v - 1 - (m + (v - 1)) % v) = (m + (v - 1)) / v * v := by
      rw [Nat.mul_comm]
      omega
    obtain ⟨hle, hlt⟩ := reciprocal_ceil hinv he hv hm hc (by omega)
    have hquotient : n / v = -((m + (v - 1)) / v : ℕ) := by
      have hc' : (m : ℤ) + (v - 1 - (m + (v - 1)) % v : ℕ) = ((m + (v - 1)) / v : ℕ) * v := by
        exact_mod_cast hc
      rw [Int.ediv_eq_iff_of_pos (by omega), Int.neg_mul, ← hc']
      omega
    rw [decide_eq_true hneg, hquotient]
    change -((m * inv / 2 ^ 64 : ℕ) : ℤ) / 2 ^ 64 = _
    omega
  · obtain rfl : n = (m : ℤ) := by omega
    rw [decide_eq_false hneg]
    change ((m * inv / 2 ^ 64 : ℕ) : ℤ) / 2 ^ 64 = _
    have hfloor := reciprocal_floor hinv he hv (hpos hneg)
    rw [← Int.natCast_ediv, ← hfloor, Int.natCast_ediv]
    rfl

/-! ### Words -/

variable {a b : uint128_t} {n w : BitVec 64}

theorem toInt_bounds (n : BitVec 64) : -2 ^ 63 ≤ n.toInt ∧ n.toInt < 2 ^ 63 := by
  have hcond := toInt_eq_toNat_cond n
  have hn := n.isLt
  split_ifs at hcond <;> omega

/-- An integer is kept in the high half. -/
theorem ofInteger_toInt (n : BitVec 64) : (ofInteger n).toInt = n.toInt * 2 ^ 64 := by
  have hn := toInt_bounds n
  have hextend : (n.signExtend 128).toInt = n.toInt :=
    toInt_signExtend_of_le (by decide)
  have hcond := toInt_eq_toNat_cond (n.signExtend 128)
  have hcond' := toInt_eq_toNat_cond (ofInteger n)
  have hword : (ofInteger n).toNat = (n.signExtend 128).toNat * 2 ^ 64 % 2 ^ 128 :=
    shiftLeft_toNat _ 64
  rw [hextend] at hcond
  have hlt := (n.signExtend 128).isLt
  split_ifs at hcond hcond' <;> omega

theorem withSign_natAbs (negative : Bool) (k : ℕ) : (withSign negative k).natAbs = k := by
  cases negative with
  | false => rfl
  | true => exact Int.natAbs_neg _

theorem withSign_bounds (negative : Bool) (k : ℕ) :
    -(k : ℤ) ≤ withSign negative k ∧ withSign negative k ≤ k := by
  cases negative with
  | false => exact ⟨by change -(k : ℤ) ≤ k; omega, le_rfl⟩
  | true => exact ⟨le_rfl, by change -(k : ℤ) ≤ k; omega⟩

theorem magnitude_ofInteger (n : BitVec 64) :
    (magnitude (ofInteger n)).toNat = n.toInt.natAbs * 2 ^ 64 := by
  have hnat := congrArg Int.natAbs (magnitude_spec (ofInteger n)).1
  rw [withSign_natAbs, ofInteger_toInt, Int.natAbs_mul] at hnat
  exact hnat.symm

theorem ofInteger_slt (n : BitVec 64) : (ofInteger n).slt 0 = decide (n.toInt < 0) := by
  rw [slt_eq_decide, ofInteger_toInt, decide_eq_decide]
  change n.toInt * 2 ^ 64 < 0 ↔ _
  omega

/-- `UmulByInvert` for an integer: the product of its magnitude, shifted down. -/
theorem UmulByInvert_toNat (ha : a.toNat = m * 2 ^ 64) (hm : m ≤ 2 ^ 63) (hb : b.toNat ≤ 2 ^ 127) :
    (UmulByInvert a b).toNat = m * b.toNat / 2 ^ 64 := by
  have hhigh : (a >>> 64).toNat = m := by
    rw [shiftRight_toNat, ha]
    omega
  have hlow : (a &&& HP_MASK_LO.setWidth 128).toNat = 0 := by
    rw [and_lo_toNat, ha]
    omega
  have hbH : b.toNat / 2 ^ 64 ≤ 2 ^ 63 := by omega
  have hbL : b.toNat % 2 ^ 64 ≤ 2 ^ 64 - 1 := by omega
  have hhi := Nat.mul_le_mul hm hbH
  have hmid := Nat.mul_le_mul hm hbL
  have hsplit : m * b.toNat = m * (b.toNat / 2 ^ 64) * 2 ^ 64 + m * (b.toNat % 2 ^ 64) := by
    conv_lhs => rw [← Nat.div_add_mod b.toNat (2 ^ 64)]
    ring
  have hhi' : ((a >>> 64) * (b >>> 64)).toNat = m * (b.toNat / 2 ^ 64) := by
    rw [mul_toNat_of_lt, hhigh, shiftRight_toNat]
    rw [hhigh, shiftRight_toNat]
    omega
  have hmid' : ((a >>> 64) * (b &&& HP_MASK_LO.setWidth 128) +
      (a &&& HP_MASK_LO.setWidth 128) * (b >>> 64)).toNat = m * (b.toNat % 2 ^ 64) := by
    rw [toNat_add, toNat_mul, toNat_mul, hhigh, hlow, and_lo_toNat]
    omega
  unfold UmulByInvert
  rw [toNat_add, shiftRight_toNat, hhi', hmid', hsplit]
  omega

/-- It fits in 126 bits and so has no sign. -/
theorem UmulByInvert_le (ha : a.toNat = m * 2 ^ 64) (hm : m ≤ 2 ^ 63) (hb : b.toNat ≤ 2 ^ 127) :
    (UmulByInvert a b).toNat ≤ 2 ^ 126 := by
  rw [UmulByInvert_toNat ha hm hb]
  have hle := Nat.mul_le_mul hm hb
  exact Nat.div_le_of_le_mul (by omega)

/-- `GetHigh` rounds down. -/
theorem getHigh_toInt (x : uint128_t) : (GetHigh x).toInt = x.toInt / 2 ^ 64 := by
  have hshift : (x.sshiftRight 64).toInt = x.toInt / 2 ^ 64 := by
    rw [toInt_sshiftRight, Int.shiftRight_eq_div_pow]
    rfl
  have hcond := toInt_eq_toNat_cond x
  have hcond' := toInt_eq_toNat_cond (x.sshiftRight 64)
  have hcond'' := toInt_eq_toNat_cond (GetHigh x)
  have hx := x.isLt
  have hword : (GetHigh x).toNat = (x.sshiftRight 64).toNat % 2 ^ 64 := toNat_setWidth _ _
  rw [hshift] at hcond'
  split_ifs at hcond hcond' hcond'' <;> omega

/-- **`MulByInvert`** for an integer, by magnitudes. -/
theorem MulByInvert_toInt (hb : b.toNat ≤ 2 ^ 127) :
    (MulByInvert (ofInteger n) b).toInt =
      withSign (decide (n.toInt < 0)) (n.toInt.natAbs * b.toNat / 2 ^ 64) := by
  have hn := toInt_bounds n
  have hm : n.toInt.natAbs ≤ 2 ^ 63 := by omega
  have hresult := UmulByInvert_toNat (magnitude_ofInteger n) hm hb
  have hle := UmulByInvert_le (magnitude_ofInteger n) hm hb
  change (if (ofInteger n).slt 0 then -UmulByInvert (magnitude (ofInteger n)) b
    else UmulByInvert (magnitude (ofInteger n)) b).toInt = _
  have hword := withSign_word ((ofInteger n).slt 0)
    (UmulByInvert (magnitude (ofInteger n)) b).toNat
  rw [ofNat_toNat, setWidth_eq] at hword
  rw [hword, ← hresult, ofInteger_slt]
  have hbounds := withSign_bounds (decide (n.toInt < 0))
      (UmulByInvert (magnitude (ofInteger n)) b).toNat
  exact toInt_ofInt_eq_self (by decide) (by omega) (by omega)

/-- **`Invert`** gives the reciprocal, rounded up. -/
theorem Invert_eq (hw : 2 ≤ w.toNat) (hlt : w.toNat < 2 ^ 63) :
    ∃ inv e, Invert w = .ok inv ∧ inv.toNat * w.toNat = 2 ^ 128 + e ∧ e < w.toNat ∧
      inv.toNat ≤ 2 ^ 127 := by
  have hwide : (w.setWidth 128).toNat = w.toNat := by
    rw [toNat_setWidth, Nat.mod_eq_of_lt (by omega)]
  have hne : w.setWidth 128 ≠ 0 := by
    intro hzero
    rw [hzero] at hwide
    have hpos : (0 : uint128_t).toNat = 0 := rfl
    omega
  have hdivide : Udiv (1#128 <<< 64) (w.setWidth 128) =
      .ok (BitVec.ofNat 128 (2 ^ 128 / w.toNat)) := by
    rw [Udiv_eq hne (by omega), hwide]
    rfl
  -- rounded down, the reciprocal times the divisor is what the integer portion is asked for
  obtain ⟨u, hu⟩ : ∃ u, u = BitVec.ofNat 128 (2 ^ 128 / w.toNat) := ⟨_, rfl⟩
  have hhalf : 2 ^ 128 / w.toNat ≤ 2 ^ 127 := Nat.div_le_of_le_mul (by omega)
  have hdown : u.toNat = 2 ^ 128 / w.toNat := by
    rw [hu, toNat_ofNat, Nat.mod_eq_of_lt (by omega)]
  have hdivmod := Nat.div_add_mod (2 ^ 128) w.toNat
  have hmod := Nat.mod_lt (2 ^ 128) (show 0 < w.toNat by omega)
  rw [← hdown, Nat.mul_comm] at hdivmod
  have hint : w.toInt = w.toNat := by
    have hcond := toInt_eq_toNat_cond w
    split_ifs at hcond <;> omega
  have hhigh : (GetHigh (MulByInvert (ofHighLow w 0) u)).toInt =
      ((u.toNat * w.toNat / 2 ^ 128 : ℕ) : ℤ) := by
    have hsame : ofHighLow w 0 = ofInteger w := or_zero
    rw [hsame, getHigh_toInt, MulByInvert_toInt (by omega), hint,
      decide_eq_false (by omega : ¬ (w.toNat : ℤ) < 0), Int.natAbs_natCast,
      Nat.mul_comm w.toNat]
    change ((u.toNat * w.toNat / 2 ^ 64 : ℕ) : ℤ) / 2 ^ 64 = _
    omega
  have hInvert : Invert w =
      .ok (if GetHigh (MulByInvert (ofHighLow w 0) u) ≠ 1 then u + 1 else u) := by
    have hlt' : 1 < w := lt_def.mpr hw
    unfold Invert
    rw [if_neg (not_not.mpr hlt')]
    change (Udiv (1#128 <<< 64) (w.setWidth 128)).map _ = _
    rw [hdivide, ← hu]
    rfl
  by_cases hone : GetHigh (MulByInvert (ofHighLow w 0) u) = 1
  · rw [hone] at hhigh
    refine ⟨u, 0, by rw [hInvert, if_neg (not_not.mpr hone)], ?_, by omega, by omega⟩
    have hcast : (1 : BitVec 64).toInt = 1 := rfl
    omega
  · have hup : (u + 1).toNat = u.toNat + 1 := by
      rw [toNat_add]
      change (u.toNat + 1) % 2 ^ 128 = _
      omega
    have hnot : u.toNat * w.toNat ≠ 2 ^ 128 := by
      intro hexact
      refine hone (eq_of_toInt_eq ?_)
      rw [hhigh, hexact]
      rfl
    refine ⟨u + 1, w.toNat - 2 ^ 128 % w.toNat, by rw [hInvert, if_pos hone], ?_, by omega, ?_⟩
    · rw [hup, Nat.succ_mul]
      omega
    · rw [hup]
      by_contra hgt
      have hfull : u.toNat = 2 ^ 127 := by omega
      rw [hfull] at hdivmod hnot
      omega

/-- The integer portion of the product with the inverse is the quotient, rounded down. -/
theorem getHigh_mulByInvert (n v : BitVec 64) (hv : 2 ≤ v.toNat) (hlt : v.toNat < 2 ^ 63) :
    ∃ inv, Invert v = .ok inv ∧
      (GetHigh (MulByInvert (ofInteger n) inv)).toInt = n.toInt.fdiv v.toNat := by
  obtain ⟨inv, e, hok, hinv, he, hle⟩ := Invert_eq hv hlt
  have hn := toInt_bounds n
  refine ⟨inv, hok, ?_⟩
  rw [getHigh_toInt, MulByInvert_toInt hle]
  exact reciprocal_fdiv hinv he hlt rfl (by omega) (by omega)

/-- Of -10 divided by 3. -/
theorem getHigh_mulByInvert_three :
    (2 ≤ (3#64).toNat ∧ (3#64).toNat < 2 ^ 63) ∧ ∃ inv, Invert 3#64 = .ok inv ∧
      (GetHigh (MulByInvert (ofInteger (-10#64)) inv)).toInt =
        (-10#64).toInt.fdiv (3#64).toNat :=
  ⟨by decide, getHigh_mulByInvert (-10#64) 3#64 (by decide) (by decide)⟩

end Ns3Joined.Core.int64x64_t
