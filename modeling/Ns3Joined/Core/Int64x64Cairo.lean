import Ns3Joined.Core.CairoWideint
import Ns3Joined.Core.Int64x64Invert

/-!
# `int64x64_t` on two words

The implementation of `int64x64-cairo.cc`, and that it computes the words of the native one: its
loops take the same turns (`skipTrailingZeros_word`, `skipLeadingZeros_word`, `castOff_word`,
`loop_word`), since the conditions are those of the word. Only the product differs: this one is
refused where the high part does not fit 64 bits, and the native one never, as the mask it checks
the high part with is 0.

* `Div_word`: the quotients are the same.
* `Mul_word`: the products are the same, but for those that are refused.
* `operations_right_iff`: exactly when both are what they are to be.
-/

namespace Ns3Joined.Core.int64x64_t.cairo

open cairo_uint128_t ExceptFold BitVec

/-- High bit of the fractional part. -/
def HPCAIRO_MASK_HI_BIT : BitVec 64 := 1#64 <<< 63

/-- `output_sign`: whether the result is negative, and the magnitudes. -/
def output_sign (sa sb : cairo_uint128_t) : Bool × cairo_uint128_t × cairo_uint128_t :=
  let negA := negative sa
  let negB := negative sb
  ((negA && !negB) || (!negA && negB), if negA then negate sa else sa,
    if negB then negate sb else sb)

/-- `int64x64_t::Umul`. -/
def Umul (a b : cairo_uint128_t) : Except Fault cairo_uint128_t :=
  let loPart := mul64x64 a.lo b.lo
  let midPart := add (mul64x64 a.lo b.hi) (mul64x64 a.hi b.lo)
  let hiPart := mul64x64 a.hi b.hi
  if hiPart.hi ≠ 0 then .error .abort
  else
    -- adding 64-bit terms to get 128-bit results, with carries
    let result := add (ofUint64 loPart.hi) (ofUint64 midPart.lo)
    let res1 := add (ofUint64 midPart.hi) (ofUint64 hiPart.lo)
    .ok (add result (lsl res1 64))

/-- `int64x64_t::Mul`. -/
def Mul (v o : cairo_uint128_t) : Except Fault cairo_uint128_t :=
  let s := output_sign v o
  (Umul s.2.1 s.2.2).map fun result => if s.1 then negate result else result

namespace Udiv

/-- Skip trailing zeros in the divisor. -/
def skipTrailingZeros : ℕ → ℕ → cairo_uint128_t → ℕ × cairo_uint128_t
  | 0, shift, den => (shift, den)
  | rounds + 1, shift, den =>
    if den.lo &&& 1 = 0 then skipTrailingZeros rounds (shift + 1) (rsl den 1) else (shift, den)

/-- Skip leading zeros in the remainder. -/
def skipLeadingZeros : ℕ → ℕ → cairo_uint128_t → ℕ × cairo_uint128_t
  | 0, shift, rem => (shift, rem)
  | rounds + 1, shift, rem =>
    if rem.hi &&& HPCAIRO_MASK_HI_BIT = 0 then skipLeadingZeros rounds (shift + 1) (lsl rem 1)
    else (shift, rem)

/-- Cast off denominator bits, if the lowest is zero or the remainder is smaller. -/
def castOff (rem : cairo_uint128_t) : ℕ → ℕ → cairo_uint128_t → ℕ × cairo_uint128_t
  | 0, shift, den => (shift, den)
  | rounds + 1, shift, den =>
    if den.lo &&& 1 = 0 ∨ lt rem den = true then castOff rem rounds (shift + 1) (rsl den 1)
    else (shift, den)

/-- The loop over the digits. -/
def loop : ℕ → ℕ → ℕ → cairo_uint128_t → cairo_uint128_t → cairo_uint128_t →
    Except Fault (ℕ × cairo_uint128_t)
  | 0, _, _, _, _, _ => .error .diverges
  | rounds + 1, digis, shift, result, rem, den =>
    if digis < DIGITS ∧ eq rem (ofUint64 0) = false then do
      let skipped := skipLeadingZeros (DIGITS - (digis + shift)) shift rem
      let cast := castOff skipped.2 (DIGITS - (digis + skipped.1)) skipped.1 den
      let qr ← divrem skipped.2 cast.2
      -- add in the quotient as shift bits of the fraction
      loop rounds (digis + cast.1) 0 (add (lsl result cast.1) qr.1) qr.2 cast.2
    else .ok (digis, result)

/-- Did we run out of remainder? -/
def finish (r : ℕ × cairo_uint128_t) : cairo_uint128_t :=
  if r.1 < DIGITS then lsl r.2 (DIGITS - r.1) else r.2

/-- The fraction, from the shift and the divisor without its trailing zeros. -/
def fraction (quo rem : cairo_uint128_t) (skipped : ℕ × cairo_uint128_t) :
    Except Fault cairo_uint128_t :=
  (loop (DIGITS + 1) 0 skipped.1 quo rem skipped.2).map finish

end Udiv

/-- `int64x64_t::Udiv`. -/
def Udiv (a b : cairo_uint128_t) : Except Fault cairo_uint128_t := do
  let qr ← divrem a b
  -- remainder not less than divisor
  if lt qr.2 b = false then .error .abort
  else Udiv.fraction qr.1 qr.2 (Udiv.skipTrailingZeros DIGITS 0 b)

/-- `int64x64_t::Div`. -/
def Div (v o : cairo_uint128_t) : Except Fault cairo_uint128_t :=
  let s := output_sign v o
  (Udiv s.2.1 s.2.2).map fun result => if s.1 then negate result else result

/-! ### The loops take the same turns -/

variable {a b rem den result : cairo_uint128_t} {rounds digis shift : ℕ}

theorem word_and_one_iff (a : cairo_uint128_t) : a.lo &&& 1 = 0 ↔ word a &&& 1 = 0 := by
  rw [int64x64_t.Udiv.and_one_eq_zero_iff, ← toNat_inj, toNat_and, word_toNat]
  change a.lo.toNat &&& 1 = 0 ↔ _
  rw [Nat.and_one_is_mod]
  omega

theorem word_and_high_iff (a : cairo_uint128_t) :
    a.hi &&& HPCAIRO_MASK_HI_BIT = 0 ↔ word a &&& HP128_MASK_HI_BIT = 0 :=
  (msbset64_eq_zero_iff a).trans (int64x64_t.Udiv.and_high_eq_zero_iff (word a)).symm

theorem word_eq_zero (a : cairo_uint128_t) : eq a (ofUint64 0) = decide (word a = 0) := by
  have hzero : word (ofUint64 0) = 0 := eq_of_toNat_eq (by rw [word_ofUint64]; rfl)
  rw [eq_eq, hzero]

theorem skipTrailingZeros_word (rounds shift : ℕ) (den : cairo_uint128_t) :
    int64x64_t.Udiv.skipTrailingZeros rounds shift (word den) =
      ((Udiv.skipTrailingZeros rounds shift den).1,
        word (Udiv.skipTrailingZeros rounds shift den).2) := by
  induction rounds generalizing shift den with
  | zero => rfl
  | succ rounds ih =>
    rw [int64x64_t.Udiv.skipTrailingZeros, Udiv.skipTrailingZeros]
    by_cases heven : den.lo &&& 1 = 0
    · rw [if_pos heven, if_pos ((word_and_one_iff den).mp heven), ← word_rsl_one]
      exact ih (shift + 1) (rsl den 1)
    · rw [if_neg heven, if_neg fun h => heven ((word_and_one_iff den).mpr h)]

theorem skipLeadingZeros_word (rounds shift : ℕ) (rem : cairo_uint128_t) :
    int64x64_t.Udiv.skipLeadingZeros rounds shift (word rem) =
      ((Udiv.skipLeadingZeros rounds shift rem).1,
        word (Udiv.skipLeadingZeros rounds shift rem).2) := by
  induction rounds generalizing shift rem with
  | zero => rfl
  | succ rounds ih =>
    rw [int64x64_t.Udiv.skipLeadingZeros, Udiv.skipLeadingZeros]
    by_cases hlow : rem.hi &&& HPCAIRO_MASK_HI_BIT = 0
    · rw [if_pos hlow, if_pos ((word_and_high_iff rem).mp hlow), ← word_lsl rem (by decide)]
      exact ih (shift + 1) (lsl rem 1)
    · rw [if_neg hlow, if_neg fun h => hlow ((word_and_high_iff rem).mpr h)]

/-- Casting off digits does the same as for one word. -/
theorem castOff_word (rem : cairo_uint128_t) (rounds shift : ℕ) (den : cairo_uint128_t) :
    int64x64_t.Udiv.castOff (word rem) rounds shift (word den) =
      ((Udiv.castOff rem rounds shift den).1, word (Udiv.castOff rem rounds shift den).2) := by
  induction rounds generalizing shift den with
  | zero => rfl
  | succ rounds ih =>
    have hsame : (den.lo &&& 1 = 0 ∨ lt rem den = true) ↔
        (word den &&& 1 = 0 ∨ word rem < word den) := by
      rw [word_and_one_iff, lt_eq, decide_eq_true_eq]
    rw [int64x64_t.Udiv.castOff, Udiv.castOff]
    by_cases hcast : den.lo &&& 1 = 0 ∨ lt rem den = true
    · rw [if_pos hcast, if_pos (hsame.mp hcast), ← word_rsl_one]
      exact ih (shift + 1) (rsl den 1)
    · rw [if_neg hcast, if_neg fun h => hcast (hsame.mpr h)]

theorem skipLeadingZeros_le (rounds shift : ℕ) (rem : uint128_t) :
    (int64x64_t.Udiv.skipLeadingZeros rounds shift rem).1 ≤ shift + rounds := by
  obtain ⟨k, hshift, -, hk, -⟩ := int64x64_t.Udiv.skipLeadingZeros_spec rounds shift rem
  omega

theorem castOff_le (rem : uint128_t) (rounds shift : ℕ) (den : uint128_t) :
    (int64x64_t.Udiv.castOff rem rounds shift den).1 ≤ shift + rounds := by
  induction rounds generalizing shift den with
  | zero => exact le_rfl
  | succ rounds ih =>
    rw [int64x64_t.Udiv.castOff]
    split_ifs
    · exact (ih (shift + 1) (den >>> 1)).trans (by omega)
    · exact Nat.le_add_right _ _

/-- Where the native loop returns, this one does, with the same digits. -/
theorem loop_word {r : ℕ × uint128_t} (hshift : shift ≤ DIGITS)
    (h : int64x64_t.Udiv.loop rounds digis shift (word result) (word rem) (word den) = .ok r) :
    ∃ r', Udiv.loop rounds digis shift result rem den = .ok r' ∧ r = (r'.1, word r'.2) := by
  induction rounds generalizing digis shift result rem den with
  | zero => cases h
  | succ rounds ih =>
    rw [int64x64_t.Udiv.loop] at h
    have hzero : eq rem (ofUint64 0) = false ↔ word rem ≠ 0 := by
      rw [word_eq_zero, decide_eq_false_iff_not]
    rw [Udiv.loop]
    by_cases hmore : digis < DIGITS ∧ word rem ≠ 0
    · rw [if_pos hmore] at h
      rw [if_pos ⟨hmore.1, hzero.mpr hmore.2⟩]
      have hskip := skipLeadingZeros_le (DIGITS - (digis + shift)) shift (word rem)
      rw [skipLeadingZeros_word] at hskip
      have hcast := castOff_le (word (Udiv.skipLeadingZeros (DIGITS - (digis + shift)) shift rem).2)
        (DIGITS - (digis + (Udiv.skipLeadingZeros (DIGITS - (digis + shift)) shift rem).1))
        (Udiv.skipLeadingZeros (DIGITS - (digis + shift)) shift rem).1 (word den)
      rw [castOff_word] at hcast
      simp only [skipLeadingZeros_word, castOff_word] at h
      split_ifs at h with hden
      obtain ⟨quo, rem', hdivrem, hquo, hrem⟩ := divrem_eq
        (Udiv.skipLeadingZeros (DIGITS - (digis + shift)) shift rem).2 hden
      have hdigits : DIGITS = 64 := rfl
      rw [← word_lsl result (by omega), ← hquo, ← hrem, ← word_add] at h
      obtain ⟨r', hr', hword⟩ := ih (by omega) h
      refine ⟨r', ?_, hword⟩
      simp only [hdivrem]
      exact hr'
    · rw [if_neg hmore] at h
      rw [if_neg fun h' => hmore ⟨h'.1, hzero.mp h'.2⟩]
      cases h
      exact ⟨(digis, result), rfl, rfl⟩

theorem finish_word (r : ℕ × cairo_uint128_t) :
    word (Udiv.finish r) = int64x64_t.Udiv.finish (r.1, word r.2) := by
  have hdigits : DIGITS = 64 := rfl
  unfold Udiv.finish int64x64_t.Udiv.finish
  split_ifs
  · exact word_lsl r.2 (by omega)
  · rfl

/-- **`Udiv`** does the same as for one word. -/
theorem Udiv_word {q : uint128_t} (h : int64x64_t.Udiv (word a) (word b) = .ok q) :
    ∃ q', Udiv a b = .ok q' ∧ word q' = q := by
  by_cases hb : word b = 0
  · unfold int64x64_t.Udiv at h
    rw [if_pos hb] at h
    cases h
  · obtain ⟨quo, rem, hdivrem, hquo, hrem⟩ := divrem_eq a hb
    obtain ⟨z, hshift, -, hz, -⟩ := int64x64_t.Udiv.skipTrailingZeros_spec DIGITS 0 (word b)
    unfold int64x64_t.Udiv at h
    simp only [skipTrailingZeros_word, ← hquo, ← hrem, if_neg hb] at h hshift
    split_ifs at h with hlt
    obtain ⟨r, hr, hfinish⟩ := map_eq_ok_iff.mp h
    obtain ⟨r', hr', hword⟩ := loop_word (by omega) hr
    refine ⟨Udiv.finish r', ?_, by rw [finish_word, ← hword, hfinish]⟩
    have hfraction : Udiv.fraction quo rem (Udiv.skipTrailingZeros DIGITS 0 b) =
        .ok (Udiv.finish r') := by
      unfold Udiv.fraction
      rw [hr']
      rfl
    unfold Udiv
    rw [hdivrem, ok_bind, lt_eq, decide_eq_true hlt, if_neg (by decide), hfraction]

theorem output_sign_word (x y : cairo_uint128_t) :
    ((output_sign x y).1, word (output_sign x y).2.1, word (output_sign x y).2.2) =
      int64x64_t.output_sign (word x) (word y) := by
  unfold output_sign int64x64_t.output_sign
  rw [← negative_eq, ← negative_eq]
  cases negative x <;> cases negative y <;> simp [word_negate]

theorem word_signed (negative : Bool) (result : cairo_uint128_t) :
    word (if negative then negate result else result) =
      if negative then -word result else word result := by
  cases negative with
  | false => rfl
  | true => exact word_negate result

/-- **`Div`** does the same as for one word. -/
theorem Div_word (x : cairo_uint128_t) {y : cairo_uint128_t} (hy : word y ≠ 0) :
    (Div x y).map word = int64x64_t.Div (word x) (word y) := by
  obtain ⟨q, hq⟩ : ∃ q, int64x64_t.Div (word x) (word y) = .ok q := ⟨_, Div_eq (word x) hy⟩
  rw [hq]
  change (int64x64_t.Udiv (int64x64_t.output_sign (word x) (word y)).2.1
    (int64x64_t.output_sign (word x) (word y)).2.2).map (fun result =>
      if (int64x64_t.output_sign (word x) (word y)).1 then -result else result) = .ok q at hq
  rw [← output_sign_word] at hq
  obtain ⟨result, hresult, rfl⟩ := map_eq_ok_iff.mp hq
  obtain ⟨result', hresult', rfl⟩ := Udiv_word hresult
  unfold Div
  simp only [hresult']
  exact congrArg Except.ok (word_signed _ _)

/-! ### Products -/

theorem hi_eq (a : cairo_uint128_t) : a.hi.toNat = (word a).toNat / 2 ^ 64 := by
  have hlo := a.lo.isLt
  rw [word_toNat]
  omega

theorem lo_eq (a : cairo_uint128_t) : a.lo.toNat = (word a).toNat % 2 ^ 64 := by
  have hlo := a.lo.isLt
  rw [word_toNat]
  omega

/-- The product of magnitudes is refused where the high part does not fit 64 bits. -/
theorem Umul_word (ha : (word a).toNat ≤ 2 ^ 127) (hb : (word b).toNat ≤ 2 ^ 127) :
    (Umul a b).map word =
      if a.hi.toNat * b.hi.toNat < 2 ^ 64 then int64x64_t.Umul (word a) (word b)
      else .error .abort := by
  have hhigh : (mul64x64 a.hi b.hi).hi = 0 ↔ a.hi.toNat * b.hi.toNat < 2 ^ 64 := by
    rw [← toNat_inj, hi_eq, mul64x64_toNat]
    change _ = 0 ↔ _
    omega
  unfold Umul
  by_cases hfits : a.hi.toNat * b.hi.toNat < 2 ^ 64
  · rw [if_pos hfits, if_neg (not_not.mpr (hhigh.mpr hfits)), Umul_eq ha hb]
    refine congrArg Except.ok (eq_of_toNat_eq ?_)
    have hmid : (word (add (mul64x64 a.lo b.hi) (mul64x64 a.hi b.lo))).toNat =
        a.lo.toNat * b.hi.toNat + a.hi.toNat * b.lo.toNat := by
      have haH : a.hi.toNat ≤ 2 ^ 63 := by rw [hi_eq]; omega
      have hbH : b.hi.toNat ≤ 2 ^ 63 := by rw [hi_eq]; omega
      have haL : a.lo.toNat ≤ 2 ^ 64 - 1 := by rw [lo_eq]; omega
      have hbL : b.lo.toNat ≤ 2 ^ 64 - 1 := by rw [lo_eq]; omega
      have hLH := Nat.mul_le_mul haL hbH
      have hHL := Nat.mul_le_mul haH hbL
      rw [word_add, toNat_add, mul64x64_toNat, mul64x64_toNat, Nat.mod_eq_of_lt (by omega)]
    rw [word_add, word_add, word_lsl _ (by decide), word_add, toNat_add, toNat_add,
      shiftLeft_toNat, toNat_add, word_ofUint64, word_ofUint64, word_ofUint64, word_ofUint64,
      hi_eq, lo_eq (add _ _), hi_eq (add _ _), lo_eq (mul64x64 _ _), mul64x64_toNat,
      mul64x64_toNat, hmid, toNat_ofNat, ← product_parts (word a).toNat, ← parts_mod,
      ← hi_eq, ← hi_eq, ← lo_eq, ← lo_eq]
    omega
  · rw [if_neg hfits, if_pos fun h => hfits (hhigh.mp h)]
    rfl

/-- The product of signed operands is that of the words, or refused. -/
theorem Mul_word (x y : cairo_uint128_t) :
    (Mul x y).map word =
      if (output_sign x y).2.1.hi.toNat * (output_sign x y).2.2.hi.toNat < 2 ^ 64 then
        int64x64_t.Mul (word x) (word y)
      else .error .abort := by
  have hsign := output_sign_word x y
  have hmagnitudes := hsign.trans (output_sign_eq (word x) (word y))
  have ha : (word (output_sign x y).2.1).toNat ≤ 2 ^ 127 := by
    rw [show word (output_sign x y).2.1 = magnitude (word x) from
      congrArg (fun s => s.2.1) hmagnitudes]
    exact (magnitude_spec (word x)).2
  have hb : (word (output_sign x y).2.2).toNat ≤ 2 ^ 127 := by
    rw [show word (output_sign x y).2.2 = magnitude (word y) from
      congrArg (fun s => s.2.2) hmagnitudes]
    exact (magnitude_spec (word y)).2
  have hUmul := Umul_word ha hb
  have hnative : int64x64_t.Mul (word x) (word y) =
      (int64x64_t.Umul (word (output_sign x y).2.1) (word (output_sign x y).2.2)).map fun result =>
        if (output_sign x y).1 then -result else result := by
    change (int64x64_t.Umul (int64x64_t.output_sign (word x) (word y)).2.1
      (int64x64_t.output_sign (word x) (word y)).2.2).map (fun result =>
        if (int64x64_t.output_sign (word x) (word y)).1 then -result else result) = _
    rw [← hsign]
  have hcairo : Mul x y = (Umul (output_sign x y).2.1 (output_sign x y).2.2).map fun result =>
    if (output_sign x y).1 then negate result else result := rfl
  rw [hcairo]
  by_cases hfits : (output_sign x y).2.1.hi.toNat * (output_sign x y).2.2.hi.toNat < 2 ^ 64
  · rw [if_pos hfits] at hUmul
    rw [if_pos hfits, hnative, ← hUmul]
    cases Umul (output_sign x y).2.1 (output_sign x y).2.2 with
    | error e => rfl
    | ok result => exact congrArg Except.ok (word_signed _ _)
  · rw [if_neg hfits] at hUmul
    rw [if_neg hfits]
    cases hresult : Umul (output_sign x y).2.1 (output_sign x y).2.2 with
    | error e =>
      rw [hresult] at hUmul
      cases hUmul
      rfl
    | ok result =>
      rw [hresult] at hUmul
      cases hUmul

/-! ### The claim -/

/-- The two words of a word. -/
def words (x : uint128_t) : cairo_uint128_t := { lo := x.setWidth 64, hi := (x >>> 64).setWidth 64 }

theorem word_words (x : uint128_t) : word (words x) = x := by
  have hx := x.isLt
  refine eq_of_toNat_eq ?_
  rw [word_toNat]
  change ((x >>> 64).setWidth 64).toNat * 2 ^ 64 + (x.setWidth 64).toNat = x.toNat
  rw [toNat_setWidth, toNat_setWidth, shiftRight_toNat]
  omega

/-- A Q64.64 number has this many units in the last place. -/
def Representable (n : ℤ) : Prop := -2 ^ 127 ≤ n ∧ n < 2 ^ 127

/-- The result is the number where it is representable, and an abort otherwise. -/
structure Checked (result : Except Fault uint128_t) (n : ℤ) : Prop where
  exact : Representable n → result = .ok (BitVec.ofInt 128 n)
  refused : ¬ Representable n → result = .error .abort

/-- What the two implementations are to do with a pair of operands. -/
structure OperationsRight (x y : uint128_t) : Prop where
  mul : Checked (int64x64_t.Mul x y) (product x y)
  mul_cairo : Checked ((Mul (words x) (words y)).map word) (product x y)
  mul_same : (Mul (words x) (words y)).map word = int64x64_t.Mul x y
  div : y ≠ 0 → Representable (quotient x y) →
    int64x64_t.Div x y = .ok (BitVec.ofInt 128 (quotient x y))
  div_cairo : y ≠ 0 → Representable (quotient x y) →
    (Div (words x) (words y)).map word = .ok (BitVec.ofInt 128 (quotient x y))
  div_same : y ≠ 0 → (Div (words x) (words y)).map word = int64x64_t.Div x y

/-- **`Mul`** does the same as for one word, where the product can be represented. -/
theorem Mul_eq_of_representable {x y : uint128_t} (h : Representable (product x y)) :
    (Mul (words x) (words y)).map word = int64x64_t.Mul x y := by
  have hmagnitudes := (output_sign_word (words x) (words y)).trans
    (output_sign_eq (word (words x)) (word (words y)))
  rw [word_words, word_words] at hmagnitudes
  have hx : word (output_sign (words x) (words y)).2.1 = magnitude x :=
    congrArg (fun s => s.2.1) hmagnitudes
  have hy : word (output_sign (words x) (words y)).2.2 = magnitude y :=
    congrArg (fun s => s.2.2) hmagnitudes
  have hfits : (magnitude x).toNat * (magnitude y).toNat / 2 ^ 64 ≤ 2 ^ 127 := by
    have hnat := congrArg Int.natAbs (product_eq x y)
    rw [withSign_natAbs] at hnat
    rw [← hnat]
    obtain ⟨hlow, hhigh⟩ := h
    omega
  have hparts := product_parts (magnitude x).toNat (magnitude y).toNat
  rw [Mul_word, hi_eq, hi_eq, hx, hy, word_words, word_words, if_pos (by omega)]

/-- The two implementations are right for a pair of operands exactly when its product is
representable. -/
theorem operations_right_iff (x y : uint128_t) :
    OperationsRight x y ↔ Representable (product x y) := by
  constructor
  · -- the native product is never refused
    intro h
    by_contra hnot
    have hrefused := h.mul.refused hnot
    rw [Mul_eq] at hrefused
    cases hrefused
  · intro h
    have hmul : Checked (int64x64_t.Mul x y) (product x y) :=
      ⟨fun _ => Mul_eq x y, fun hnot => absurd h hnot⟩
    have hsame := Mul_eq_of_representable h
    have hdiv : y ≠ 0 → (Div (words x) (words y)).map word = int64x64_t.Div x y := by
      intro hy
      rw [Div_word (words x) (by rwa [word_words]), word_words, word_words]
    exact ⟨hmul, hsame ▸ hmul, hsame, fun hy _ => Div_eq x hy,
      fun hy _ => (hdiv hy).trans (Div_eq x hy), hdiv⟩

/-- Three billion times four billion is beyond the integers of 64 bits, and is not refused. -/
theorem product_not_refused : ¬ ∀ x y : uint128_t, OperationsRight x y := by
  intro hall
  have hrefused := (hall (ofInteger 3000000000#64) (ofInteger 4000000000#64)).mul.refused (by
    rintro ⟨-, hlt⟩
    exact absurd hlt (by decide))
  rw [Mul_eq] at hrefused
  cases hrefused

end Ns3Joined.Core.int64x64_t.cairo
