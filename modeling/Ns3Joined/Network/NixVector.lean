import Ns3Joined.Library.ExceptFold
import Ns3Joined.Library.Tiles
import Ns3Joined.Library.WordBits
import Ns3Joined.Network.PacketSerialize

/-!
# Neighbor indices in a nix-vector

`NixVector::AddNeighborIndex` and `ExtractNeighborIndex` (`model/nix-vector.cc`), with shifts that
fail if the amount is not below the width of a word.

* `Holds`: the words have the bits of the indices, one after the other.
* `Holds.addNeighborIndex`: one more index.
* `Holds.extractNeighborIndex`: the last one that is not used.
* `indicesReturn_iff`: when the indices come back.
-/

namespace Ns3Joined.Network.NixVector

open Tiles WordBits List ExceptFold UInt32
open UInt32 (le_iff_toNat_le not_lt toNat toNat_add toNat_div toNat_inj toNat_mod toNat_or
  toNat_shiftLeft toNat_shiftRight toNat_sub toNat_sub_of_le)

/-- The constructor. -/
def new : NixVector where
  m_nixVector := [0]
  m_used := 0
  m_currentVectorBitSize := 0
  m_totalBitSize := 0

/-- `value << amount`. -/
def shiftLeft (value amount : UInt32) : Except Fault UInt32 :=
  if amount < 32 then .ok (value <<< amount) else .error .undefined

/-- `value >> amount`. -/
def shiftRight (value amount : UInt32) : Except Fault UInt32 :=
  if amount < 32 then .ok (value >>> amount) else .error .undefined

/-- `m_nixVector.at (index)`. -/
def wordAt (nix : NixVector) (index : UInt32) : Except Fault UInt32 :=
  match nix.m_nixVector[index.toNat]? with
  | some word => .ok word
  | none => .error .outOfRange

def GetRemainingBits (nix : NixVector) : UInt32 := nix.m_totalBitSize - nix.m_used

def AddNeighborIndex (newBits numberOfBits : UInt32) (nix : NixVector) : Except Fault NixVector :=
  if numberOfBits > 32 then .error .abort
  else if nix.m_currentVectorBitSize + numberOfBits > 32 then
    if nix.m_currentVectorBitSize = 32 then
      .ok { nix with
        m_nixVector := nix.m_nixVector ++ [newBits]
        m_currentVectorBitSize := numberOfBits
        m_totalBitSize := nix.m_totalBitSize + numberOfBits }
    else
      match nix.m_nixVector.getLast? with
      | none => .error .undefined
      | some back => do
        let tempBits ← shiftLeft newBits nix.m_currentVectorBitSize
        let newBits ← shiftRight newBits (32 - nix.m_currentVectorBitSize)
        .ok { nix with
          m_nixVector := nix.m_nixVector.dropLast ++ [tempBits ||| back] ++ [newBits]
          m_currentVectorBitSize := numberOfBits - (32 - nix.m_currentVectorBitSize)
          m_totalBitSize := nix.m_totalBitSize + numberOfBits }
  else
    match nix.m_nixVector.getLast? with
    | none => .error .undefined
    | some back => do
      let newBits ← shiftLeft newBits nix.m_currentVectorBitSize
      .ok { nix with
        m_nixVector := nix.m_nixVector.dropLast ++ [newBits ||| back]
        m_currentVectorBitSize := nix.m_currentVectorBitSize + numberOfBits
        m_totalBitSize := nix.m_totalBitSize + numberOfBits }

/-- The bits of an index, `used` of the word at `vectorIndex` and the others of the one before. -/
def extractFrom (vectorIndex numberOfBits used : UInt32) (nix : NixVector) :
    Except Fault UInt32 := do
  let high ← nix.wordAt vectorIndex
  let high ← shiftLeft high (32 - used)
  let high ← shiftRight high (32 - used - (numberOfBits - used))
  let low ← nix.wordAt (vectorIndex - 1)
  let low ← shiftRight low (32 - (numberOfBits - used))
  .ok (high ||| low)

/-- The bits of an index that are all in the word at `vectorIndex`, up to `used`. -/
def extractWithin (vectorIndex numberOfBits used : UInt32) (nix : NixVector) :
    Except Fault UInt32 := do
  let word ← nix.wordAt vectorIndex
  let word ← shiftLeft word (32 - used)
  shiftRight word (32 - numberOfBits)

def ExtractNeighborIndex (numberOfBits : UInt32) (nix : NixVector) :
    Except Fault (NixVector × UInt32) :=
  let totalRemainingBits := nix.GetRemainingBits
  if numberOfBits > 32 then .error .abort
  else if numberOfBits > totalRemainingBits then .error .abort
  else if numberOfBits ≤ 0 then .error .abort
  else
    let vectorIndex := (totalRemainingBits - 1) / 32
    (if vectorIndex > 0 ∧ numberOfBits - 1 > (totalRemainingBits - 1) % 32 then
      nix.extractFrom vectorIndex numberOfBits (totalRemainingBits % 32)
    else nix.extractWithin vectorIndex numberOfBits (totalRemainingBits % 32)).map
      fun extractedBits => ({ nix with m_used := nix.m_used + numberOfBits }, extractedBits)

/-! ### Words -/

/-- The words hold the bits, and no others. -/
structure Holds (nix : NixVector) (bits : List Bool) : Prop where
  size : bits.length + 32 = 32 * nix.m_nixVector.length + nix.m_currentVectorBitSize.toNat
  le : nix.m_currentVectorBitSize.toNat ≤ 32
  ne : nix.m_nixVector ≠ []
  bit : ∀ i, bit 32 (nix.m_nixVector.map toNat) i = bits.getD i false
  total : nix.m_totalBitSize.toNat = bits.length % 2 ^ 32

variable {nix nix' : NixVector} {bits : List Bool} {value numberOfBits amount : UInt32} {i : ℕ}

theorem holds_new : Holds new [] where
  size := rfl
  le := Nat.zero_le _
  ne := cons_ne_nil _ _
  bit := fun i => by
    rw [getD_nil]
    exact (bit_singleton (w := 32) (Nat.two_pow_pos 32)).trans (Nat.zero_testBit i)
  total := rfl

theorem shiftLeft_eq (value : UInt32) (h : amount.toNat < 32) :
    shiftLeft value amount = .ok (value <<< amount) := if_pos (lt_iff_toNat_lt.mpr h)

theorem shiftRight_eq (value : UInt32) (h : amount.toNat < 32) :
    shiftRight value amount = .ok (value >>> amount) := if_pos (lt_iff_toNat_lt.mpr h)

/-- The bits of a word shifted to the left. -/
theorem testBit_shiftLeft (value : UInt32) (h : amount.toNat < 32) (i : ℕ) :
    (value <<< amount).toNat.testBit i =
      (decide (i < 32) && (decide (amount.toNat ≤ i) &&
          value.toNat.testBit (i - amount.toNat))) := by
  rw [toNat_shiftLeft, Nat.mod_eq_of_lt h, Nat.testBit_mod_two_pow, Nat.testBit_shiftLeft]

/-- The bits of a word shifted to the right. -/
theorem testBit_shiftRight (value : UInt32) (h : amount.toNat < 32) (i : ℕ) :
    (value >>> amount).toNat.testBit i = value.toNat.testBit (amount.toNat + i) := by
  rw [toNat_shiftRight, Nat.mod_eq_of_lt h, Nat.testBit_shiftRight]

/-- A word has no bit from 32 on. -/
theorem testBit_of_le (value : UInt32) (h : 32 ≤ i) : value.toNat.testBit i = false :=
  Nat.testBit_lt_two_pow (value.toNat_lt.trans_le (Nat.pow_le_pow_right Nat.two_pos h))

/-- A bit of the last of some words. -/
theorem bit_concat (front : List UInt32) (last : UInt32) (i : ℕ) :
    WordBits.bit 32 ((front ++ [last]).map toNat) i =
      if i < 32 * front.length then WordBits.bit 32 (front.map toNat) i
      else last.toNat.testBit (i - 32 * front.length) := by
  have hlength : (front.map toNat).length = front.length := length_map _
  rw [map_append, map_singleton]
  split_ifs with hi
  · exact bit_append_left (by rw [hlength]; omega)
  · rw [bit_append_right (by omega) (by rw [hlength]; omega), hlength,
      bit_singleton last.toNat_lt]

/-- The bits of a value that is put in the last word, after those that are there. -/
theorem bit_or_last (front : List UInt32) (back : UInt32) (value : UInt32)
    (h : amount.toNat < 32) (i : ℕ) (hi : i < 32 * front.length + 32) :
    WordBits.bit 32 ((front ++ [value <<< amount ||| back]).map toNat) i =
      (WordBits.bit 32 ((front ++ [back]).map toNat) i ||
        (decide (32 * front.length + amount.toNat ≤ i) &&
          value.toNat.testBit (i - (32 * front.length + amount.toNat)))) := by
  rw [bit_concat, bit_concat]
  split_ifs with hfront
  · rw [decide_eq_false (by omega), Bool.false_and, Bool.or_false]
  · rw [toNat_or, Nat.testBit_or, testBit_shiftLeft value h, Bool.or_comm,
      decide_eq_true (by omega : i - 32 * front.length < 32), Bool.true_and, ← Nat.sub_sub]
    congr 2
    exact decide_eq_decide.mpr (by omega)

/-- One more index. -/
theorem Holds.addNeighborIndex (h : Holds nix bits) (hpos : 1 ≤ numberOfBits.toNat)
    (hle : numberOfBits.toNat ≤ 32) (hvalue : value.toNat < 2 ^ numberOfBits.toNat) :
    ∃ nix', nix.AddNeighborIndex value numberOfBits = .ok nix' ∧
      Holds nix' (bits ++ bitsOf value.toNat numberOfBits.toNat) ∧ nix'.m_used = nix.m_used := by
  have hsize := h.size
  have hcur := h.le
  have h32 : (32 : UInt32).toNat = 32 := rfl
  have hlength : (bits ++ bitsOf value.toNat numberOfBits.toNat).length =
      bits.length + numberOfBits.toNat := by
    rw [length_append, length_bitsOf]
  have htotal : (nix.m_totalBitSize + numberOfBits).toNat =
      (bits ++ bitsOf value.toNat numberOfBits.toNat).length % 2 ^ 32 := by
    rw [toNat_add, h.total, hlength, Nat.mod_add_mod]
  have hsum : (nix.m_currentVectorBitSize + numberOfBits).toNat =
      nix.m_currentVectorBitSize.toNat + numberOfBits.toNat := by
    rw [toNat_add]
    omega
  obtain ⟨front, back, hwords⟩ : ∃ front back, nix.m_nixVector = front ++ [back] :=
    ⟨_, _, (dropLast_concat_getLast h.ne).symm⟩
  have hlast : nix.m_nixVector.getLast? = some back := by
    rw [hwords, List.getLast?_concat]
  have hdrop : nix.m_nixVector.dropLast = front := by
    rw [hwords, dropLast_concat]
  have hcount : nix.m_nixVector.length = front.length + 1 := by
    rw [hwords, length_append, length_singleton]
  have hbits : ∀ i, WordBits.bit 32 ((front ++ [back]).map toNat) i = bits.getD i false := by
    rw [← hwords]
    exact h.bit
  unfold AddNeighborIndex
  rw [if_neg (by rw [gt_iff_lt, lt_iff_toNat_lt, h32]; omega)]
  by_cases hover : nix.m_currentVectorBitSize + numberOfBits > 32
  · have hover' := hover
    rw [gt_iff_lt, lt_iff_toNat_lt, h32, hsum] at hover'
    rw [if_pos hover]
    by_cases hfull : nix.m_currentVectorBitSize = 32
    · -- a new word
      rw [if_pos hfull]
      refine ⟨_, rfl, ⟨?_, hle, append_ne_nil_of_right_ne_nil _ (cons_ne_nil _ _),
        fun i => ?_, htotal⟩, rfl⟩
      · -- 32 bits for each word but the last
        rw [hlength, length_append, length_singleton]
        rw [hfull, h32] at hsize
        dsimp only
        omega
      · rw [hfull, h32] at hsize
        dsimp only
        rw [bit_concat, h.bit, getD_append_bitsOf hvalue,
          (by omega : 32 * nix.m_nixVector.length = bits.length)]
    · -- the rest of the last word, and a new one
      have hless : nix.m_currentVectorBitSize.toNat < 32 :=
        Nat.lt_of_le_of_ne hcur fun heq => hfull (toNat_inj.mp heq)
      have hroom : (32 - nix.m_currentVectorBitSize).toNat =
          32 - nix.m_currentVectorBitSize.toNat :=
        toNat_sub_of_le _ _ (le_iff_toNat_le.mpr hcur)
      have hrest : (numberOfBits - (32 - nix.m_currentVectorBitSize)).toNat =
          numberOfBits.toNat - (32 - nix.m_currentVectorBitSize.toNat) := by
        rw [toNat_sub_of_le _ _ (le_iff_toNat_le.mpr (by rw [hroom]; omega)), hroom]
      rw [if_neg hfull, hlast]
      dsimp only
      rw [shiftLeft_eq value hless, shiftRight_eq value (by rw [hroom]; omega)]
      refine ⟨_, rfl, ⟨?_, ?_, append_ne_nil_of_right_ne_nil _ (cons_ne_nil _ _),
        fun i => ?_, htotal⟩, rfl⟩
      · rw [hlength, hdrop, length_append, length_append, length_singleton,
          length_singleton, hrest]
        omega
      · rw [hrest]
        omega
      · have hfront : (front ++ [value <<< nix.m_currentVectorBitSize ||| back]).length =
            front.length + 1 := by
          rw [length_append, length_singleton]
        dsimp only
        rw [hdrop, bit_concat, hfront, getD_append_bitsOf hvalue]
        -- up to the end of the last word, and behind it
        by_cases hi : i < 32 * (front.length + 1)
        · rw [if_pos hi, bit_or_last front back value hless i (by omega), hbits]
          by_cases hin : i < bits.length
          · rw [if_pos hin, decide_eq_false (by omega), Bool.false_and, Bool.or_false]
          · rw [if_neg hin, decide_eq_true (by omega), Bool.true_and,
              getD_eq_default _ _ (by omega), Bool.false_or]
            congr 1
            omega
        · rw [if_neg hi, if_neg (by omega), testBit_shiftRight value (by rw [hroom]; omega), hroom]
          congr 1
          omega
  · -- the last word has room for all bits
    have hfits := hover
    rw [gt_iff_lt, lt_iff_toNat_lt, h32, hsum] at hfits
    rw [if_neg hover, hlast]
    dsimp only
    rw [shiftLeft_eq value (by omega)]
    refine ⟨_, rfl, ⟨?_, ?_, append_ne_nil_of_right_ne_nil _ (cons_ne_nil _ _),
      fun i => ?_, htotal⟩, rfl⟩
    · rw [hlength, hdrop, length_append, length_singleton, hsum]
      omega
    · rw [hsum]
      omega
    · dsimp only
      rw [hdrop, getD_append_bitsOf hvalue]
      by_cases hi : i < 32 * front.length + 32
      · rw [bit_or_last front back value (by omega) i hi, hbits]
        by_cases hin : i < bits.length
        · rw [if_pos hin, decide_eq_false (by omega), Bool.false_and, Bool.or_false]
        · rw [if_neg hin, decide_eq_true (by omega), Bool.true_and,
            getD_eq_default _ _ (by omega), Bool.false_or]
          congr 1
          omega
      · -- beyond the last word
        rw [bit_concat, if_neg (by omega), testBit_of_le _ (by omega), if_neg (by omega)]
        exact (Nat.testBit_lt_two_pow (hvalue.trans_le
          (Nat.pow_le_pow_right Nat.two_pos (by omega)))).symm

/-! ### Indices -/

variable {k j q : ℕ} {word : UInt32}

/-- The bits of the words are those held. -/
theorem Holds.testBit_word (h : Holds nix bits) (hword : nix.m_nixVector[q]? = some word)
    (hj : j < 32) : word.toNat.testBit j = bits.getD (32 * q + j) false := by
  have hdiv : (32 * q + j) / 32 = q := by omega
  have hmod : (32 * q + j) % 32 = j := by omega
  rw [← h.bit, bit_eq_of_word (x := word.toNat), hmod]
  rw [hdiv, List.getElem?_map, hword]
  rfl

/-- The word at an index in range. -/
theorem wordAt_eq {index : UInt32} (hword : nix.m_nixVector[q]? = some word)
    (hindex : index.toNat = q) : nix.wordAt index = .ok word := by
  rw [wordAt, hindex, hword]

/-- Below the bits held there is a word. -/
theorem Holds.exists_word (h : Holds nix bits) (hq : 32 * q < bits.length) :
    ∃ word, nix.m_nixVector[q]? = some word := by
  have hsize := h.size
  have hle := h.le
  have hlt : q < nix.m_nixVector.length := by omega
  exact ⟨_, List.getElem?_eq_getElem hlt⟩

variable {used vectorIndex : UInt32}

/-- All bits are in one word. -/
theorem Holds.extractWithin (h : Holds nix bits) (hindex : vectorIndex.toNat = q)
    (hq : 32 * q < bits.length) (hpos : 1 ≤ numberOfBits.toNat) (hle : numberOfBits.toNat ≤ 32) :
    (used.toNat = 0 → nix.extractWithin vectorIndex numberOfBits used = .error .undefined) ∧
    (numberOfBits.toNat ≤ used.toNat → used.toNat < 32 →
      ∃ v, nix.extractWithin vectorIndex numberOfBits used = .ok v ∧
        ∀ j, v.toNat.testBit j = (decide (j < numberOfBits.toNat) &&
          bits.getD (32 * q + used.toNat - numberOfBits.toNat + j) false)) := by
  obtain ⟨word, hword⟩ := h.exists_word hq
  have hroom : (32 - numberOfBits).toNat = 32 - numberOfBits.toNat :=
    toNat_sub_of_le _ _ (le_iff_toNat_le.mpr hle)
  unfold NixVector.extractWithin
  rw [wordAt_eq hword hindex]
  constructor
  · intro hzero
    obtain rfl : used = 0 := toNat_inj.mp hzero
    rfl
  · intro hused hlt
    have hroom' : (32 - used).toNat = 32 - used.toNat :=
      toNat_sub_of_le _ _ (le_iff_toNat_le.mpr hlt.le)
    refine ⟨(word <<< (32 - used)) >>> (32 - numberOfBits), ?_, fun j => ?_⟩
    · have hleft : shiftLeft word (32 - used) = .ok (word <<< (32 - used)) :=
        shiftLeft_eq word (by rw [hroom']; omega)
      have hright : shiftRight (word <<< (32 - used)) (32 - numberOfBits) =
          .ok ((word <<< (32 - used)) >>> (32 - numberOfBits)) :=
        shiftRight_eq _ (by rw [hroom]; omega)
      rw [← hright]
      exact congrArg (fun r => r >>= fun word => shiftRight word (32 - numberOfBits)) hleft
    · rw [testBit_shiftRight _ (by rw [hroom]; omega), testBit_shiftLeft _ (by rw [hroom']; omega),
        hroom, hroom']
      by_cases hj : j < numberOfBits.toNat
      · rw [decide_eq_true hj, decide_eq_true (by omega), decide_eq_true (by omega),
          Bool.true_and, Bool.true_and, Bool.true_and, h.testBit_word hword (by omega)]
        congr 1
        omega
      · rw [decide_eq_false hj, decide_eq_false (by omega), Bool.false_and, Bool.false_and]

/-- The bits are in two words. -/
theorem Holds.extractFrom (h : Holds nix bits) (hindex : vectorIndex.toNat = q + 1)
    (hq : 32 * (q + 1) < bits.length) (hused : 0 < used.toNat)
    (hlt : used.toNat < numberOfBits.toNat) (hle : numberOfBits.toNat ≤ 32) :
    ∃ v, nix.extractFrom vectorIndex numberOfBits used = .ok v ∧
      ∀ j, v.toNat.testBit j = (decide (j < numberOfBits.toNat) &&
        bits.getD (32 * (q + 1) + used.toNat - numberOfBits.toNat + j) false) := by
  obtain ⟨high, hhigh⟩ := h.exists_word hq
  obtain ⟨low, hlow⟩ := h.exists_word (q := q) (by omega)
  have h1 : (1 : UInt32).toNat = 1 := rfl
  have hbefore : (vectorIndex - 1).toNat = q := by
    rw [toNat_sub_of_le _ _ (le_iff_toNat_le.mpr (by rw [h1]; omega)), hindex, h1]
    omega
  have hroom : (32 - used).toNat = 32 - used.toNat :=
    toNat_sub_of_le _ _ (le_iff_toNat_le.mpr (by
      change used.toNat ≤ 32
      omega))
  have hrest : (numberOfBits - used).toNat = numberOfBits.toNat - used.toNat :=
    toNat_sub_of_le _ _ (le_iff_toNat_le.mpr hlt.le)
  have hright : (32 - used - (numberOfBits - used)).toNat = 32 - numberOfBits.toNat := by
    rw [toNat_sub_of_le _ _ (le_iff_toNat_le.mpr (by rw [hroom, hrest]; omega)),
      hroom, hrest]
    omega
  have hright' : (32 - (numberOfBits - used)).toNat =
      32 - (numberOfBits.toNat - used.toNat) := by
    rw [toNat_sub_of_le _ _ (le_iff_toNat_le.mpr (by
      rw [hrest]
      change numberOfBits.toNat - used.toNat ≤ 32
      omega)), hrest]
    rfl
  refine ⟨(high <<< (32 - used)) >>> (32 - used - (numberOfBits - used)) |||
    low >>> (32 - (numberOfBits - used)), ?_, fun j => ?_⟩
  · unfold NixVector.extractFrom
    rw [wordAt_eq hhigh hindex, ok_bind, shiftLeft_eq high (by rw [hroom]; omega),
      ok_bind, shiftRight_eq _ (by rw [hright]; omega), ok_bind,
      wordAt_eq hlow hbefore, ok_bind, shiftRight_eq low (by rw [hright']; omega)]
    rfl
  · rw [toNat_or, Nat.testBit_or, testBit_shiftRight _ (by rw [hright]; omega),
      testBit_shiftLeft _ (by rw [hroom]; omega), testBit_shiftRight _ (by rw [hright']; omega),
      hright, hright', hroom]
    by_cases hj : j < numberOfBits.toNat
    · rw [decide_eq_true hj, decide_eq_true (by omega), Bool.true_and, Bool.true_and]
      by_cases hsplit : j < numberOfBits.toNat - used.toNat
      · -- a bit of the word before
        rw [decide_eq_false (by omega), Bool.false_and, Bool.false_or,
          h.testBit_word hlow (by omega)]
        congr 1
        omega
      · rw [decide_eq_true (by omega), Bool.true_and, testBit_of_le low (by omega), Bool.or_false,
          h.testBit_word hhigh (by omega)]
        congr 1
        omega
    · rw [decide_eq_false hj, decide_eq_false (by omega), Bool.false_and, Bool.false_and,
        testBit_of_le low (by omega)]
      rfl

/-- **The last index that is not used**, if the bits up to it do not end with a word. -/
theorem Holds.extractNeighborIndex (h : Holds nix bits) (hk : nix.GetRemainingBits.toNat = k)
    (hkle : k ≤ bits.length) (hpos : 1 ≤ numberOfBits.toNat) (hle : numberOfBits.toNat ≤ 32)
    (hn : numberOfBits.toNat ≤ k) :
    (k % 32 = 0 → nix.ExtractNeighborIndex numberOfBits = .error .undefined) ∧
    (k % 32 ≠ 0 → ∃ v, nix.ExtractNeighborIndex numberOfBits =
        .ok ({ nix with m_used := nix.m_used + numberOfBits }, v) ∧
      ∀ j, v.toNat.testBit j = (decide (j < numberOfBits.toNat) &&
        bits.getD (k - numberOfBits.toNat + j) false)) := by
  have h0 : (0 : UInt32).toNat = 0 := rfl
  have h1 : (1 : UInt32).toNat = 1 := rfl
  have h32 : (32 : UInt32).toNat = 32 := rfl
  have hlast : (nix.GetRemainingBits - 1).toNat = k - 1 := by
    rw [toNat_sub_of_le _ _ (le_iff_toNat_le.mpr (by rw [hk, h1]; omega)), hk, h1]
  have hindex : ((nix.GetRemainingBits - 1) / 32).toNat = (k - 1) / 32 := by
    rw [toNat_div, hlast, h32]
  have hused : (nix.GetRemainingBits % 32).toNat = k % 32 := by
    rw [toNat_mod, hk, h32]
  have hspans : ((nix.GetRemainingBits - 1) / 32 > 0 ∧
      numberOfBits - 1 > (nix.GetRemainingBits - 1) % 32) ↔
      0 < (k - 1) / 32 ∧ (k - 1) % 32 < numberOfBits.toNat - 1 := by
    rw [gt_iff_lt, gt_iff_lt, lt_iff_toNat_lt, lt_iff_toNat_lt, hindex,
      toNat_mod, hlast, h0, h32, toNat_sub_of_le _ _ (le_iff_toNat_le.mpr
        (by rw [h1]; exact hpos)), h1]
  unfold ExtractNeighborIndex
  dsimp only
  rw [if_neg (by rw [gt_iff_lt, lt_iff_toNat_lt, h32]; omega),
    if_neg (by rw [gt_iff_lt, lt_iff_toNat_lt, hk]; omega),
    if_neg (by rw [le_iff_toNat_le, h0]; omega)]
  constructor
  · intro hzero
    rw [if_neg (by rw [hspans]; omega),
      (h.extractWithin hindex (by omega) hpos hle).1 (by rw [hused, hzero])]
    rfl
  · intro hne
    -- The index spans two words, or lies within one.
    by_cases hspan : 0 < (k - 1) / 32 ∧ (k - 1) % 32 < numberOfBits.toNat - 1
    · rw [if_pos (hspans.mpr hspan)]
      have hindex' : ((nix.GetRemainingBits - 1) / 32).toNat = k / 32 - 1 + 1 := by
        rw [hindex]
        omega
      have hlt : (nix.GetRemainingBits % 32).toNat < numberOfBits.toNat := by
        rw [hused]
        omega
      obtain ⟨v, hok, hv⟩ := h.extractFrom hindex' (by omega) (by rw [hused]; omega) hlt hle
      refine ⟨v, by rw [hok]; rfl, fun j => ?_⟩
      rw [hv, hused]
      congr 2
      omega
    · rw [if_neg (fun hspans' => hspan (hspans.mp hspans'))]
      have hwithin : numberOfBits.toNat ≤ (nix.GetRemainingBits % 32).toNat := by
        rw [hused]
        omega
      obtain ⟨v, hok, hv⟩ := (h.extractWithin hindex (by omega) hpos hle).2 hwithin
        (by rw [hused]; omega)
      refine ⟨v, by rw [hok]; rfl, fun j => ?_⟩
      rw [hv, hused]
      congr 2
      omega

/-! ### Runs -/

/-- `AddNeighborIndex` for all indices, which are values with widths. -/
def addAll (nix : NixVector) : List (UInt32 × UInt32) → Except Fault NixVector
  | [] => .ok nix
  | index :: indices =>
    match nix.AddNeighborIndex index.1 index.2 with
    | .error e => .error e
    | .ok nix => addAll nix indices

/-- `ExtractNeighborIndex` gives the indices, and each takes its width away from the bits that
remain. -/
def Restores (nix : NixVector) : List (UInt32 × UInt32) → Prop
  | [] => True
  | index :: indices =>
    ∃ nix', nix.ExtractNeighborIndex index.2 = .ok (nix', index.1) ∧
      nix'.GetRemainingBits.toNat + index.2.toNat = nix.GetRemainingBits.toNat ∧
      Restores nix' indices

/-- The indices come back, the last one first. -/
def RoundTrips (indices : List (UInt32 × UInt32)) : Prop :=
  ∃ nix, addAll new indices = .ok nix ∧ Restores nix indices.reverse

/-- The width is between 1 and 32, and the value fits. -/
def IsIndex (index : UInt32 × UInt32) : Prop :=
  1 ≤ index.2.toNat ∧ index.2.toNat ≤ 32 ∧ index.1.toNat < 2 ^ index.2.toNat

instance (index : UInt32 × UInt32) : Decidable (IsIndex index) :=
  inferInstanceAs (Decidable (_ ∧ _ ∧ _))

/-- The number of bits of the indices. -/
def bitCount (indices : List (UInt32 × UInt32)) : ℕ := total (fun index => index.2.toNat) indices

/-- Fewer than `2 ^ 32` bits, and after no index they end with a word. -/
def EndsWithin (indices : List (UInt32 × UInt32)) : Prop :=
  bitCount indices < 2 ^ 32 ∧ ∀ n < indices.length, bitCount (indices.take (n + 1)) % 32 ≠ 0

instance (indices : List (UInt32 × UInt32)) : Decidable (EndsWithin indices) :=
  inferInstanceAs (Decidable (_ ∧ ∀ n < indices.length, _))

/-- The bits of the indices. -/
def code (indices : List (UInt32 × UInt32)) : List Bool :=
  indices.flatMap fun index => bitsOf index.1.toNat index.2.toNat

variable {indices : List (UInt32 × UInt32)} {index : UInt32 × UInt32}

/-- The code of the indices is as long as their bits. -/
theorem length_code (indices : List (UInt32 × UInt32)) : (code indices).length = bitCount indices :=
  length_flatMap fun _ _ => length_bitsOf _ _

/-- The code of two lists of indices. -/
theorem code_append (indices indices' : List (UInt32 × UInt32)) :
    code (indices ++ indices') = code indices ++ code indices' := flatMap_append

/-- The bits of one more index. -/
theorem bitCount_concat (indices : List (UInt32 × UInt32)) (index : UInt32 × UInt32) :
    bitCount (indices ++ [index]) = bitCount indices + index.2.toNat := by
  rw [bitCount, total_append, total_cons, total_nil, Nat.add_zero]
  rfl

/-- The bound on each prefix, with one more index. -/
theorem endsWithin_concat (indices : List (UInt32 × UInt32)) (index : UInt32 × UInt32) :
    EndsWithin (indices ++ [index]) ↔ bitCount (indices ++ [index]) < 2 ^ 32 ∧
      bitCount (indices ++ [index]) % 32 ≠ 0 ∧
      ∀ n < indices.length, bitCount (indices.take (n + 1)) % 32 ≠ 0 := by
  have htake : ∀ n < indices.length,
      (indices ++ [index]).take (n + 1) = indices.take (n + 1) := fun n hn =>
    take_append_of_le_length hn
  have hall : (indices ++ [index]).take (indices.length + 1) = indices ++ [index] :=
    take_of_length_le (by rw [length_append, length_singleton])
  unfold EndsWithin
  rw [length_append, length_singleton]
  refine and_congr_right fun _ => ⟨fun h => ⟨?_, fun n hn => ?_⟩, fun ⟨hlast, h⟩ n hn => ?_⟩
  · have hlast := h indices.length (Nat.lt_succ_self _)
    rwa [hall] at hlast
  · have hbefore := h n (Nat.lt_succ_of_lt hn)
    rwa [htake n hn] at hbefore
  · obtain hn | rfl := Nat.lt_succ_iff_lt_or_eq.mp hn
    · rw [htake n hn]
      exact h n hn
    · rw [hall]
      exact hlast

/-- Adding indices succeeds and appends their code. -/
theorem Holds.addAll (h : Holds nix bits) (hindices : ∀ index ∈ indices, IsIndex index) :
    ∃ nix', nix.addAll indices = .ok nix' ∧ Holds nix' (bits ++ code indices) ∧
      nix'.m_used = nix.m_used := by
  induction indices generalizing nix bits with
  | nil =>
    refine ⟨nix, rfl, ?_, rfl⟩
    rw [show code [] = [] from rfl, append_nil]
    exact h
  | cons index indices ih =>
    obtain ⟨⟨hpos, hle, hvalue⟩, hindices⟩ := forall_mem_cons.mp hindices
    obtain ⟨nix₁, hok, h₁, hused₁⟩ := h.addNeighborIndex hpos hle hvalue
    obtain ⟨nix₂, hok₂, h₂, hused₂⟩ := ih h₁ hindices
    refine ⟨nix₂, ?_, ?_, hused₂.trans hused₁⟩
    · rw [NixVector.addAll, hok]
      exact hok₂
    · rw [append_assoc] at h₂
      exact h₂

/-- An index that was added comes back if its bits do not end with a word, and otherwise a word is
shifted by its width. -/
theorem Holds.extract_last (h : Holds nix (code (indices ++ [index]) ++ bits))
    (hindex : IsIndex index) (hk : nix.GetRemainingBits.toNat = bitCount (indices ++ [index])) :
    (bitCount (indices ++ [index]) % 32 = 0 →
      nix.ExtractNeighborIndex index.2 = .error .undefined) ∧
    (bitCount (indices ++ [index]) % 32 ≠ 0 → nix.ExtractNeighborIndex index.2 =
      .ok ({ nix with m_used := nix.m_used + index.2 }, index.1)) := by
  obtain ⟨hpos, hle, hvalue⟩ := hindex
  have hwidth := bitCount_concat indices index
  have hlength := length_code (indices ++ [index])
  obtain ⟨hzero, hsome⟩ := h.extractNeighborIndex hk
    (by rw [length_append]; omega) hpos hle (by omega)
  refine ⟨hzero, fun hne => ?_⟩
  obtain ⟨v, hok, hv⟩ := hsome hne
  suffices heq : v = index.1 by rw [hok, heq]
  refine toNat_inj.mp (Nat.eq_of_testBit_eq fun j => ?_)
  rw [hv, hwidth, Nat.add_sub_cancel]
  by_cases hj : j < index.2.toNat
  · have hcode : code (indices ++ [index]) =
        code indices ++ bitsOf index.1.toNat index.2.toNat := by
      rw [code_append]
      exact congrArg (code indices ++ ·) (append_nil _)
    have hfront := length_code indices
    rw [decide_eq_true hj, Bool.true_and, getD_append _ _ _ _ (by rw [hlength]; omega),
      hcode, getD_append_bitsOf hvalue, hfront, if_neg (by omega), Nat.add_sub_cancel_left]
  · rw [decide_eq_false hj, Bool.false_and]
    exact (Nat.testBit_lt_two_pow (hvalue.trans_le
      (Nat.pow_le_pow_right Nat.two_pos (Nat.le_of_not_lt hj)))).symm

/-- What is left after an index. -/
theorem toNat_remaining (h : index.2.toNat ≤ nix.GetRemainingBits.toNat) :
    ({ nix with m_used := nix.m_used + index.2 } : NixVector).GetRemainingBits.toNat =
      nix.GetRemainingBits.toNat - index.2.toNat := by
  have hsub : ({ nix with m_used := nix.m_used + index.2 } : NixVector).GetRemainingBits =
      nix.GetRemainingBits - index.2 := by
    have hused := nix.m_used.toNat_lt
    have hindex := index.2.toNat_lt
    rw [GetRemainingBits, GetRemainingBits, ← toNat_inj]
    simp only [toNat_sub, toNat_add]
    omega
  rw [hsub, toNat_sub_of_le _ _ (le_iff_toNat_le.mpr h)]

/-- An index is given only if that many bits remain, and they are then taken away. -/
theorem extractNeighborIndex_ok (hok : nix.ExtractNeighborIndex index.2 = .ok (nix', value)) :
    index.2.toNat ≤ nix.GetRemainingBits.toNat ∧
      nix' = { nix with m_used := nix.m_used + index.2 } := by
  unfold ExtractNeighborIndex at hok
  dsimp only at hok
  by_cases hwide : index.2 > 32
  · rw [if_pos hwide] at hok
    cases hok
  rw [if_neg hwide] at hok
  by_cases hmore : index.2 > nix.GetRemainingBits
  · rw [if_pos hmore] at hok
    cases hok
  rw [if_neg hmore] at hok
  by_cases hnone : index.2 ≤ 0
  · rw [if_pos hnone] at hok
    cases hok
  rw [if_neg hnone] at hok
  obtain ⟨v, -, heq⟩ := map_eq_ok_iff.mp hok
  refine ⟨?_, (congrArg Prod.fst heq).symm⟩
  rwa [gt_iff_lt, not_lt, le_iff_toNat_le] at hmore

/-- The indices come back from the last one on, if the counters are right. -/
theorem Holds.restores_iff (h : Holds nix (code indices ++ bits))
    (hindices : ∀ index ∈ indices, IsIndex index)
    (hk : nix.GetRemainingBits.toNat = bitCount indices % 2 ^ 32) :
    Restores nix indices.reverse ↔ EndsWithin indices := by
  induction indices using List.reverseRecOn generalizing nix bits with
  | nil =>
    have hnone : EndsWithin [] := by decide
    exact ⟨fun _ => hnone, fun _ => trivial⟩
  | append_singleton indices index ih =>
    have hwidth := bitCount_concat indices index
    have hindex := hindices index (mem_append_right _ (mem_singleton_self _))
    have hfront : ∀ index ∈ indices, IsIndex index := fun index hindex =>
      hindices index (mem_append_left _ hindex)
    obtain ⟨hpos, hle, -⟩ := id hindex
    -- what is left is right again, after as many bits were taken away as remain
    have hrest : index.2.toNat ≤ nix.GetRemainingBits.toNat →
        (Restores { nix with m_used := nix.m_used + index.2 } indices.reverse ↔
          EndsWithin indices) := by
      intro hremain
      have hcode : code (indices ++ [index]) ++ bits =
          code indices ++ (bitsOf index.1.toNat index.2.toNat ++ bits) := by
        rw [code_append, append_assoc]
        exact congrArg (fun last => code indices ++ (last ++ bits)) (append_nil _)
      have hrest : Holds { nix with m_used := nix.m_used + index.2 }
          (code indices ++ (bitsOf index.1.toNat index.2.toNat ++ bits)) := by
        rw [← hcode]
        exact ⟨h.size, h.le, h.ne, h.bit, h.total⟩
      refine ih hrest hfront ?_
      rw [toNat_remaining hremain, hk]
      omega
    rw [reverse_append, reverse_singleton, singleton_append, Restores,
      endsWithin_concat]
    constructor
    · rintro ⟨nix', hok, -, hrestores⟩
      obtain ⟨hremain, rfl⟩ := extractNeighborIndex_ok hok
      obtain ⟨hlt, hends⟩ := (hrest hremain).mp hrestores
      have hlt' : bitCount (indices ++ [index]) < 2 ^ 32 := by omega
      refine ⟨hlt', fun hzero => ?_, hends⟩
      rw [(h.extract_last hindex (by rw [hk, Nat.mod_eq_of_lt hlt'])).1 hzero] at hok
      cases hok
    · rintro ⟨hlt, hne, hends⟩
      have hk' : nix.GetRemainingBits.toNat = bitCount (indices ++ [index]) := by
        rw [hk, Nat.mod_eq_of_lt hlt]
      have hremain : index.2.toNat ≤ nix.GetRemainingBits.toNat := by omega
      refine ⟨_, (h.extract_last hindex hk').2 hne, ?_, (hrest hremain).mpr ⟨by omega, hends⟩⟩
      rw [toNat_remaining hremain]
      omega

/-- **Neighbor indices** come back exactly if there are fewer than `2 ^ 32` bits and after no index
they end with a word. -/
theorem indicesReturn_iff (hindices : ∀ index ∈ indices, IsIndex index) :
    RoundTrips indices ↔ EndsWithin indices := by
  obtain ⟨nix, hok, h, hused⟩ := holds_new.addAll hindices
  have hk : nix.GetRemainingBits.toNat = bitCount indices % 2 ^ 32 := by
    have hzero : nix.m_used = 0 := hused
    rw [GetRemainingBits, hzero, sub_zero, h.total, nil_append, length_code]
  have hall : Holds nix (code indices ++ []) := by
    rw [append_nil]
    exact h
  have hiff := hall.restores_iff hindices hk
  rw [← hiff]
  refine ⟨fun ⟨nix', hok', hrestores⟩ => ?_, fun hrestores => ⟨nix, hok, hrestores⟩⟩
  rw [hok] at hok'
  cases hok'
  exact hrestores

/-- The second index is in two words. -/
theorem indicesReturn_twoWords : RoundTrips [(5, 3), (0x70000001, 31), (0, 1)] :=
  (indicesReturn_iff (by
    intro index hindex
    simp only [mem_cons, not_mem_nil, or_false] at hindex
    obtain rfl | rfl | rfl := hindex <;> decide)).mpr (by decide +kernel)

/-- An index that fills a word. -/
theorem not_indicesReturn_word : ¬ RoundTrips [(5, 3), (0x1fffffff, 29)] := by
  rintro ⟨nix, hok, nix', hextract, -⟩
  have hnix : addAll new [(5, 3), (0x1fffffff, 29)] = .ok ⟨[0xfffffffd], 0, 32, 32⟩ := by
    decide +kernel
  rw [hnix] at hok
  cases hok
  have hfails : (⟨[0xfffffffd], 0, 32, 32⟩ : NixVector).ExtractNeighborIndex 29 =
      .error .undefined := by decide +kernel
  have hwidth : (⟨[0xfffffffd], 0, 32, 32⟩ : NixVector).ExtractNeighborIndex 29 =
      .ok (nix', 0x1fffffff) := hextract
  rw [hfails] at hwidth
  cases hwidth

end Ns3Joined.Network.NixVector
