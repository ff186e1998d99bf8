import Ns3Joined.Fault
import Ns3Joined.Library.TrackedRead
import Mathlib

/-!
# Reading from a buffer

`Buffer::Iterator` (`network/model/buffer.h`), where it reads. The octets of a buffer are those in
front of its zero area, the zeros, and those behind it; an iterator is a position.

`ReadU8` asserts that there is an octet. `ReadNtohU16` and `ReadNtohU32` do not, unless they touch
the zero area: on their fast paths they read what is in memory behind the buffer, which is
undefined.

* `Buffer`, `Reading`: the octets, and what reads them.
* `Holds`, `Checked`: the octets are there; if they are not, that is noticed.
* `wp_ReadU8`, `wp_readWord`, `wp_readWords`, `wp_Read`, `wp_Next`: the rules of the operations.
-/

namespace Ns3Joined.Network.BufferIterator

open TrackedRead Tracked

/-- The octets of a buffer. -/
structure Buffer where
  front : List UInt8
  zeros : ℕ
  back : List UInt8
deriving DecidableEq, Repr

/-- What reads from a `Buffer::Iterator`. -/
abbrev Reading := Tracked Fault

namespace Buffer

variable (b : Buffer)

def octets : List UInt8 := b.front ++ List.replicate b.zeros 0 ++ b.back

def size : ℕ := b.front.length + b.zeros + b.back.length

def m_zeroStart : ℕ := b.front.length

def m_zeroEnd : ℕ := b.front.length + b.zeros

/-- The octet at a place. -/
def octet (i : ℕ) : UInt8 := b.octets.getD i 0

/-- The number in the `n` octets from `i`, the first of them the highest. -/
def word : ℕ → ℕ → ℕ
  | 0, _ => 0
  | n + 1, i => word n i * 256 + (b.octet (i + n)).toNat

/-- The buffer has `n` octets from `i`. -/
def Holds (i n : ℕ) : Prop := i + n ≤ b.size

instance (i n : ℕ) : Decidable (b.Holds i n) := inferInstanceAs (Decidable (_ ≤ _))

/-- One of the fast paths of `ReadNtohU16` and `ReadNtohU32` is taken. -/
def Fast (i n : ℕ) : Prop := i + n ≤ b.m_zeroStart ∨ b.m_zeroEnd ≤ i

instance (i n : ℕ) : Decidable (b.Fast i n) := inferInstanceAs (Decidable (_ ∨ _))

/-- The octets are there, or it is asserted that they are. -/
def Checked (i n : ℕ) : Prop := b.Holds i n ∨ ¬ b.Fast i n

end Buffer

/-! ### The operations -/

def PeekU8 (b : Buffer) (i : ℕ) : Reading UInt8 :=
  if b.Holds i 1 then ⟨.ok (b.octet i), i + 1⟩ else throw .abort

def ReadU8 (b : Buffer) (i : ℕ) : Reading (UInt8 × ℕ) := do
  let octet ← PeekU8 b i
  return (octet, i + 1)

/-- `SlowReadNtohU16` and `SlowReadNtohU32`, of `n` octets, behind those that give `retval`. -/
def slowRead (b : Buffer) : ℕ → ℕ → ℕ → Reading (ℕ × ℕ)
  | 0, retval, i => pure (retval, i)
  | n + 1, retval, i => do
    let octet ← ReadU8 b i
    slowRead b n (retval * 256 + octet.1.toNat) octet.2

/-- `ReadNtohU16` and `ReadNtohU32`, of `n` octets. -/
def readWord (b : Buffer) (n i : ℕ) : Reading (ℕ × ℕ) :=
  if b.Fast i n then
    if b.Holds i n then ⟨.ok (b.word n i, i + n), i + n⟩ else throw .undefined
  else slowRead b n 0 i

def ReadNtohU16 (b : Buffer) (i : ℕ) : Reading (UInt16 × ℕ) := do
  let word ← readWord b 2 i
  return (UInt16.ofNat word.1, word.2)

def ReadNtohU32 (b : Buffer) (i : ℕ) : Reading (UInt32 × ℕ) := do
  let word ← readWord b 4 i
  return (UInt32.ofNat word.1, word.2)

def Read (b : Buffer) : ℕ → ℕ → Reading (List UInt8 × ℕ)
  | 0, i => pure ([], i)
  | n + 1, i => do
    let octet ← ReadU8 b i
    let octets ← Read b n octet.2
    return (octet.1 :: octets.1, octets.2)

def Next (b : Buffer) (i delta : ℕ) : Reading ℕ :=
  if b.Holds i delta then pure (i + delta) else throw .abort

/-- `ReadNtohU32`, a number of times. -/
def readWords (b : Buffer) : ℕ → ℕ → Reading (List UInt32 × ℕ)
  | 0, i => pure ([], i)
  | n + 1, i => do
    let word ← ReadNtohU32 b i
    let words ← readWords b n word.2
    return (word.1 :: words.1, words.2)

/-- `ReadNtohU32`, twice each time. -/
def readPairs (b : Buffer) : ℕ → ℕ → Reading (List (UInt32 × UInt32) × ℕ)
  | 0, i => pure ([], i)
  | n + 1, i => do
    let first ← ReadNtohU32 b i
    let second ← ReadNtohU32 b first.2
    let pairs ← readPairs b n second.2
    return ((first.1, second.1) :: pairs.1, pairs.2)

/-! ### The octets -/

section

variable {b : Buffer} {i n r : ℕ} {E : Fault → ℕ → Prop}

/-- Where the fast path is not taken the position is in front of the end. -/
theorem Buffer.lt_size_of_not_fast (h : ¬ b.Fast i n) : i < b.size := by
  unfold Buffer.Fast Buffer.m_zeroEnd at h
  unfold Buffer.size
  omega

/-- Fewer octets are readable where more are. -/
theorem Buffer.Holds.mono {k : ℕ} (h : b.Holds i n) (hk : k ≤ n) : b.Holds i k := by
  unfold Buffer.Holds at h ⊢
  omega

/-- Octets are readable behind others that are. -/
theorem Buffer.holds_add {k : ℕ} : b.Holds i (n + k) ↔ b.Holds (i + n) k := by
  unfold Buffer.Holds
  rw [Nat.add_assoc]

/-- The words that are read are there, or the first that is not is looked for on the slow path. -/
def Buffer.WordsChecked (b : Buffer) (i n : ℕ) : Prop :=
  ∀ k < n, i + 4 * k ≤ b.size → b.Checked (i + 4 * k) 4

/-- The words checked, with one more in front. -/
theorem Buffer.wordsChecked_succ (hi : i ≤ b.size) :
    b.WordsChecked i (n + 1) ↔ b.Checked i 4 ∧ (b.Holds i 4 → b.WordsChecked (i + 4) n) := by
  unfold Buffer.WordsChecked
  rw [Nat.forall_lt_succ_left]
  refine and_congr ⟨fun h => h hi, fun h _ => h⟩ ?_
  -- Behind a word that is not there, no other is.
  constructor
  · intro h _ k hk hle
    have hplace : i + 4 * (k + 1) = i + 4 + 4 * k := by omega
    rw [← hplace] at hle ⊢
    exact h k hk hle
  · intro h k hk hle
    have hplace : i + 4 * (k + 1) = i + 4 + 4 * k := by omega
    rw [hplace] at hle ⊢
    exact h (show i + 4 ≤ b.size by omega) k hk hle

/-- Words that are all there are checked. -/
theorem Buffer.Holds.wordsChecked (h : b.Holds i (4 * n)) : b.WordsChecked i n := by
  intro k hk _
  refine .inl ?_
  unfold Buffer.Holds at h ⊢
  omega

/-- The words from a place. -/
def Buffer.words (b : Buffer) : ℕ → ℕ → List UInt32
  | 0, _ => []
  | n + 1, i => UInt32.ofNat (b.word 4 i) :: b.words n (i + 4)

/-- The pairs of words from a place. -/
def Buffer.pairs (b : Buffer) : ℕ → ℕ → List (UInt32 × UInt32)
  | 0, _ => []
  | n + 1, i => (UInt32.ofNat (b.word 4 i), UInt32.ofNat (b.word 4 (i + 4))) :: b.pairs n (i + 8)

/-! ### The rules -/

/-- The rule for `PeekU8`. -/
@[simp]
theorem wp_PeekU8 {Q : UInt8 → ℕ → Prop} :
    (PeekU8 b i).wp Q E r ↔
      (b.Holds i 1 → Q (b.octet i) (max r (i + 1))) ∧ (¬ b.Holds i 1 → E .abort r) := by
  unfold PeekU8
  split_ifs with h
  · exact ⟨fun hQ => ⟨fun _ => hQ, fun hn => absurd h hn⟩, fun hQ => hQ.1 h⟩
  · rw [wp_throw]
    exact ⟨fun hE => ⟨fun hp => absurd hp h, fun _ => hE⟩, fun hE => hE.2 h⟩

/-- The rule for `ReadU8`. -/
@[simp]
theorem wp_ReadU8 {Q : UInt8 × ℕ → ℕ → Prop} :
    (ReadU8 b i).wp Q E r ↔
      (b.Holds i 1 → Q (b.octet i, i + 1) (max r (i + 1))) ∧ (¬ b.Holds i 1 → E .abort r) := by
  simp [ReadU8]

/-- The rule for `Next`. -/
@[simp]
theorem wp_Next {Q : ℕ → ℕ → Prop} :
    (Next b i n).wp Q E r ↔
      (b.Holds i n → Q (i + n) r) ∧ (¬ b.Holds i n → E .abort r) := by
  unfold Next
  split_ifs with h
  · rw [wp_pure]
    exact ⟨fun hQ => ⟨fun _ => hQ, fun hn => absurd h hn⟩, fun hQ => hQ.1 h⟩
  · rw [wp_throw]
    exact ⟨fun hE => ⟨fun hp => absurd hp h, fun _ => hE⟩, fun hE => hE.2 h⟩

/-- A word with one more octet in front. -/
theorem word_succ (b : Buffer) (n i : ℕ) :
    b.word (n + 1) i = (b.octet i).toNat * 256 ^ n + b.word n (i + 1) := by
  induction n with
  | zero => simp [Buffer.word]
  | succ n ih =>
    calc b.word (n + 2) i
        = b.word (n + 1) i * 256 + (b.octet (i + (n + 1))).toNat := rfl
      _ = ((b.octet i).toNat * 256 ^ n + b.word n (i + 1)) * 256 +
            (b.octet (i + 1 + n)).toNat := by rw [ih, Nat.add_right_comm i 1 n, Nat.add_assoc]
      _ = (b.octet i).toNat * 256 ^ (n + 1) + b.word (n + 1) (i + 1) := by
          rw [Nat.pow_succ, Buffer.word, Nat.add_mul, Nat.mul_assoc, Nat.add_assoc]

/-- The rule for the slow path of a word. -/
theorem wp_slowRead {retval : ℕ} {Q : ℕ × ℕ → ℕ → Prop} (hi : i ≤ b.size) (hr : i ≤ r) :
    (slowRead b n retval i).wp Q E r ↔
      (b.Holds i n → Q (retval * 256 ^ n + b.word n i, i + n) (max r (i + n))) ∧
        (¬ b.Holds i n → E .abort (max r b.size)) := by
  induction n generalizing i r retval with
  | zero =>
    have h0 : b.Holds i 0 := hi
    simp [slowRead, Buffer.word, h0, hr]
  | succ n ih =>
    simp only [slowRead, wp_bind, wp_ReadU8]
    by_cases h1 : b.Holds i 1
    · have hi' : i + 1 ≤ b.size := h1
      have hholds : b.Holds i (n + 1) ↔ b.Holds (i + 1) n := by
        rw [Nat.add_comm n 1, Buffer.holds_add]
      rw [ih hi' (le_max_right _ _), hholds, word_succ]
      have hvalue : (retval * 256 + (b.octet i).toNat) * 256 ^ n + b.word n (i + 1) =
          retval * 256 ^ (n + 1) + ((b.octet i).toNat * 256 ^ n + b.word n (i + 1)) := by
        rw [Nat.add_mul, Nat.pow_succ', Nat.mul_assoc, Nat.add_assoc]
      have hreach : max (max r (i + 1)) (i + 1 + n) = max r (i + (n + 1)) := by omega
      have hsize : max (max r (i + 1)) b.size = max r b.size := by omega
      rw [hvalue, hreach, hsize, Nat.add_assoc i 1 n, Nat.add_comm 1 n]
      simp [h1]
    · -- The octet that is missing is the one behind the last.
      have hsize : b.size = i := by
        unfold Buffer.Holds at h1
        omega
      have hn : ¬ b.Holds i (n + 1) := fun h => h1 (h.mono (by omega))
      have hreach : max r b.size = r := by omega
      simp [h1, hn, hreach]

/-- Where what is undefined is not accepted. -/
theorem wp_readWord {Q : ℕ × ℕ → ℕ → Prop} (hE : ∀ r, ¬ E .undefined r) (hr : i ≤ r) :
    (readWord b n i).wp Q E r ↔
      b.Checked i n ∧ (b.Holds i n → Q (b.word n i, i + n) (max r (i + n))) ∧
        (¬ b.Holds i n → E .abort (max r b.size)) := by
  unfold readWord
  by_cases hfast : b.Fast i n
  · by_cases hholds : b.Holds i n
    · simp only [hfast, hholds, if_true, Buffer.Checked, true_or, true_and, true_implies,
        not_true_eq_false, false_implies, and_true]
      exact Iff.rfl
    · have hchecked : ¬ b.Checked i n := fun h => h.elim hholds fun h => h hfast
      simp [hfast, hholds, hchecked, hE]
  · have hi : i ≤ b.size := (Buffer.lt_size_of_not_fast hfast).le
    rw [if_neg hfast, wp_slowRead hi hr]
    simp [Buffer.Checked, hfast]

/-- The rule for a word of two octets. -/
theorem wp_ReadNtohU16 {Q : UInt16 × ℕ → ℕ → Prop} (hE : ∀ r, ¬ E .undefined r) (hr : i ≤ r) :
    (ReadNtohU16 b i).wp Q E r ↔
      b.Checked i 2 ∧ (b.Holds i 2 → Q (UInt16.ofNat (b.word 2 i), i + 2) (max r (i + 2))) ∧
        (¬ b.Holds i 2 → E .abort (max r b.size)) := by
  unfold ReadNtohU16
  rw [wp_bind, wp_readWord hE hr]
  simp only [wp_pure]

/-- The rule for a word of four octets. -/
theorem wp_ReadNtohU32 {Q : UInt32 × ℕ → ℕ → Prop} (hE : ∀ r, ¬ E .undefined r) (hr : i ≤ r) :
    (ReadNtohU32 b i).wp Q E r ↔
      b.Checked i 4 ∧ (b.Holds i 4 → Q (UInt32.ofNat (b.word 4 i), i + 4) (max r (i + 4))) ∧
        (¬ b.Holds i 4 → E .abort (max r b.size)) := by
  unfold ReadNtohU32
  rw [wp_bind, wp_readWord hE hr]
  simp only [wp_pure]

/-- The rule for several words. -/
theorem wp_readWords {Q : List UInt32 × ℕ → ℕ → Prop} (hE : ∀ r, ¬ E .undefined r)
    (hi : i ≤ b.size) (hr : i ≤ r) :
    (readWords b n i).wp Q E r ↔
      b.WordsChecked i n ∧ (b.Holds i (4 * n) → Q (b.words n i, i + 4 * n) (max r (i + 4 * n))) ∧
        (¬ b.Holds i (4 * n) → E .abort (max r b.size)) := by
  induction n generalizing i r Q with
  | zero =>
    have h0 : b.Holds i 0 := hi
    have hchecked : b.WordsChecked i 0 := Buffer.Holds.wordsChecked (n := 0) h0
    simp [readWords, Buffer.words, h0, hchecked, hr]
  | succ n ih =>
    simp only [readWords, wp_bind]
    rw [wp_ReadNtohU32 hE hr, Buffer.wordsChecked_succ hi]
    by_cases h4 : b.Holds i 4
    · have hi' : i + 4 ≤ b.size := h4
      have hholds : b.Holds i (4 * (n + 1)) ↔ b.Holds (i + 4) (4 * n) := by
        rw [Nat.mul_succ, Nat.add_comm (4 * n), Buffer.holds_add]
      rw [ih hi' (le_max_right _ _), hholds]
      have hreach : max (max r (i + 4)) (i + 4 + 4 * n) = max r (i + 4 * (n + 1)) := by omega
      have hsize : max (max r (i + 4)) b.size = max r b.size := by omega
      have hplace : i + 4 + 4 * n = i + 4 * (n + 1) := by omega
      rw [hreach, hsize, hplace]
      simp [h4, Buffer.words, Buffer.Checked]
    · have hn : ¬ b.Holds i (4 * (n + 1)) := fun h => h4 (h.mono (by omega))
      simp [h4, hn]

/-- The rule for several pairs of words. -/
theorem wp_readPairs {Q : List (UInt32 × UInt32) × ℕ → ℕ → Prop} (hE : ∀ r, ¬ E .undefined r)
    (hi : i ≤ b.size) (hr : i ≤ r) :
    (readPairs b n i).wp Q E r ↔
      b.WordsChecked i (2 * n) ∧
      (b.Holds i (4 * (2 * n)) →
        Q (b.pairs n i, i + 4 * (2 * n)) (max r (i + 4 * (2 * n)))) ∧
      (¬ b.Holds i (4 * (2 * n)) → E .abort (max r b.size)) := by
  induction n generalizing i r Q with
  | zero =>
    have h0 : b.Holds i 0 := hi
    have hchecked : b.WordsChecked i 0 := Buffer.Holds.wordsChecked (n := 0) h0
    simp [readPairs, Buffer.pairs, h0, hchecked, hr]
  | succ n ih =>
    have htwo : 2 * (n + 1) = 2 * n + 1 + 1 := by omega
    simp only [readPairs, wp_bind]
    rw [wp_ReadNtohU32 hE hr, htwo, Buffer.wordsChecked_succ hi]
    by_cases h4 : b.Holds i 4
    swap
    · have hn : ¬ b.Holds i (4 * (2 * n + 1 + 1)) := fun h => h4 (h.mono (by omega))
      simp [h4, hn]
    have hi4 : i + 4 ≤ b.size := h4
    have hchecked : b.Checked i 4 := .inl h4
    simp only [h4, hchecked, true_and, true_implies, not_true_eq_false, false_implies, and_true]
    rw [wp_ReadNtohU32 hE (le_max_right _ _), Buffer.wordsChecked_succ hi4]
    by_cases h8 : b.Holds (i + 4) 4
    swap
    · have hn : ¬ b.Holds i (4 * (2 * n + 1 + 1)) := by
        intro h
        exact h8 (Buffer.holds_add.mp (h.mono (show 4 + 4 ≤ _ by omega)))
      have hsize : max (max r (i + 4)) b.size = max r b.size := by omega
      simp [h8, hn, hsize]
    have hi8 : i + 8 ≤ b.size := h8
    have hchecked' : b.Checked (i + 4) 4 := .inl h8
    have hplace : i + 4 + 4 = i + 8 := rfl
    simp only [h8, hchecked', true_and, true_implies, not_true_eq_false, false_implies, and_true,
      hplace, wp_pure]
    rw [ih hi8 (le_max_right _ _)]
    have hholds : b.Holds i (4 * (2 * n + 1 + 1)) ↔ b.Holds (i + 8) (4 * (2 * n)) := by
      rw [← Buffer.holds_add, show 8 + 4 * (2 * n) = 4 * (2 * n + 1 + 1) by omega]
    have hreach : max (max (max r (i + 4)) (i + 8)) (i + 8 + 4 * (2 * n)) =
        max r (i + 4 * (2 * n + 1 + 1)) := by omega
    have hsize : max (max (max r (i + 4)) (i + 8)) b.size = max r b.size := by omega
    have hend : i + 8 + 4 * (2 * n) = i + 4 * (2 * n + 1 + 1) := by omega
    rw [hholds, hreach, hsize, hend]
    rfl

/-- The rule for a block of octets. -/
theorem wp_Read {Q : List UInt8 × ℕ → ℕ → Prop} (hi : i ≤ b.size) (hr : i ≤ r) :
    (Read b n i).wp Q E r ↔
      (b.Holds i n → Q ((List.range' i n).map b.octet, i + n) (max r (i + n))) ∧
        (¬ b.Holds i n → E .abort (max r b.size)) := by
  induction n generalizing i r Q with
  | zero =>
    have h0 : b.Holds i 0 := hi
    simp [Read, h0, hr]
  | succ n ih =>
    simp only [Read, wp_bind, wp_ReadU8]
    by_cases h1 : b.Holds i 1
    · have hi' : i + 1 ≤ b.size := h1
      have hholds : b.Holds i (n + 1) ↔ b.Holds (i + 1) n := by
        rw [Nat.add_comm n 1, Buffer.holds_add]
      rw [ih hi' (le_max_right _ _), hholds]
      have hreach : max (max r (i + 1)) (i + 1 + n) = max r (i + (n + 1)) := by omega
      have hsize : max (max r (i + 1)) b.size = max r b.size := by omega
      rw [hreach, hsize, Nat.add_assoc i 1 n, Nat.add_comm 1 n]
      simp [h1, List.range'_succ]
    · have hsize : b.size = i := by
        unfold Buffer.Holds at h1
        omega
      have hn : ¬ b.Holds i (n + 1) := fun h => h1 (h.mono (by omega))
      have hreach : max r b.size = r := by omega
      simp [h1, hn, hreach]

/-! ### The rules where nothing may be thrown -/

/-- When `PeekU8` returns. -/
@[simp]
theorem returns_PeekU8 {Q : UInt8 → ℕ → Prop} :
    (PeekU8 b i).Returns Q r ↔ b.Holds i 1 ∧ Q (b.octet i) (max r (i + 1)) := by
  unfold Returns
  rw [wp_PeekU8]
  exact ⟨fun h => ⟨not_not.mp h.2, h.1 (not_not.mp h.2)⟩, fun h => ⟨fun _ => h.2, fun hn => hn h.1⟩⟩

/-- When `ReadU8` returns. -/
@[simp]
theorem returns_ReadU8 {Q : UInt8 × ℕ → ℕ → Prop} :
    (ReadU8 b i).Returns Q r ↔ b.Holds i 1 ∧ Q (b.octet i, i + 1) (max r (i + 1)) := by
  simp [ReadU8]

/-- When `Next` returns. -/
@[simp]
theorem returns_Next {Q : ℕ → ℕ → Prop} :
    (Next b i n).Returns Q r ↔ b.Holds i n ∧ Q (i + n) r := by
  unfold Returns
  rw [wp_Next]
  exact ⟨fun h => ⟨not_not.mp h.2, h.1 (not_not.mp h.2)⟩, fun h => ⟨fun _ => h.2, fun hn => hn h.1⟩⟩

/-- When the slow path of a word returns. -/
theorem returns_slowRead {retval : ℕ} {Q : ℕ × ℕ → ℕ → Prop} :
    (slowRead b (n + 1) retval i).Returns Q r ↔ b.Holds i (n + 1) ∧
      Q (retval * 256 ^ (n + 1) + b.word (n + 1) i, i + (n + 1)) (max r (i + (n + 1))) := by
  have hholds : b.Holds i (n + 1) ↔ b.Holds i 1 ∧ b.Holds (i + 1) n := by
    unfold Buffer.Holds
    omega
  rw [slowRead, returns_bind, returns_ReadU8, hholds, and_assoc]
  refine and_congr_right fun h1 => ?_
  have hvalue : (retval * 256 + (b.octet i).toNat) * 256 ^ n + b.word n (i + 1) =
      retval * 256 ^ (n + 1) + b.word (n + 1) i := by
    rw [word_succ, Nat.add_mul, Nat.pow_succ', Nat.mul_assoc, Nat.add_assoc]
  have hreach : max (max r (i + 1)) (i + 1 + n) = max r (i + (n + 1)) := by omega
  have hplace : i + 1 + n = i + (n + 1) := by omega
  unfold Returns
  rw [wp_slowRead h1 (le_max_right _ _), hvalue, hreach, hplace]
  exact ⟨fun h => ⟨not_not.mp h.2, h.1 (not_not.mp h.2)⟩, fun h => ⟨fun _ => h.2, fun hn => hn h.1⟩⟩

/-- When reading a word returns. -/
theorem returns_readWord {Q : ℕ × ℕ → ℕ → Prop} :
    (readWord b (n + 1) i).Returns Q r ↔ b.Holds i (n + 1) ∧
      Q (b.word (n + 1) i, i + (n + 1)) (max r (i + (n + 1))) := by
  unfold readWord
  by_cases hfast : b.Fast i (n + 1)
  · by_cases hholds : b.Holds i (n + 1)
    · simp only [hfast, hholds, if_true, true_and]
      exact Iff.rfl
    · simp [hfast, hholds]
  · rw [if_neg hfast, returns_slowRead, Nat.zero_mul, Nat.zero_add]

/-- When reading a word of two octets returns. -/
theorem returns_ReadNtohU16 {Q : UInt16 × ℕ → ℕ → Prop} :
    (ReadNtohU16 b i).Returns Q r ↔
      b.Holds i 2 ∧ Q (UInt16.ofNat (b.word 2 i), i + 2) (max r (i + 2)) := by
  rw [ReadNtohU16, returns_bind, returns_readWord]
  simp only [returns_pure]

/-- When reading a word of four octets returns. -/
theorem returns_ReadNtohU32 {Q : UInt32 × ℕ → ℕ → Prop} :
    (ReadNtohU32 b i).Returns Q r ↔
      b.Holds i 4 ∧ Q (UInt32.ofNat (b.word 4 i), i + 4) (max r (i + 4)) := by
  rw [ReadNtohU32, returns_bind, returns_readWord]
  simp only [returns_pure]

/-- When reading pairs of words returns. -/
theorem returns_readPairs {Q : List (UInt32 × UInt32) × ℕ → ℕ → Prop} (hi : i ≤ b.size)
    (hr : i ≤ r) :
    (readPairs b n i).Returns Q r ↔ b.Holds i (8 * n) ∧
      Q (b.pairs n i, i + 8 * n) (max r (i + 8 * n)) := by
  have height : 4 * (2 * n) = 8 * n := by omega
  unfold Returns
  rw [wp_readPairs (fun _ h => h) hi hr, height]
  constructor
  · rintro ⟨_, hQ, hn⟩
    exact ⟨not_not.mp hn, hQ (not_not.mp hn)⟩
  · rintro ⟨h, hQ⟩
    rw [← height] at h
    exact ⟨h.wordsChecked, fun _ => hQ, fun hn => hn (height ▸ h)⟩

/-- When reading a block of octets returns. -/
theorem returns_Read {Q : List UInt8 × ℕ → ℕ → Prop} (hi : i ≤ b.size) (hr : i ≤ r) :
    (Read b n i).Returns Q r ↔
      b.Holds i n ∧ Q ((List.range' i n).map b.octet, i + n) (max r (i + n)) := by
  unfold Returns
  rw [wp_Read hi hr]
  exact ⟨fun h => ⟨not_not.mp h.2, h.1 (not_not.mp h.2)⟩, fun h => ⟨fun _ => h.2, fun hn => hn h.1⟩⟩

end

end Ns3Joined.Network.BufferIterator
