import Mathlib.Data.Fin.Basic
import Ns3Joined.Fault

/-!
# Sequence numbers of 10 bits

The class `SequenceNumber10` of `lte-rlc-sequence-number.h`. Two numbers are compared by how far
they are from a base, which must be the same for both.

* `num n b`: the number `n`, with the base `b`, where `n` and `b` are not reduced.
* `gt_num`, `lt_num`: the comparisons are those of the numbers that are not reduced, if
  these are within 1024 from the base on.
-/

namespace Ns3Joined.Lte

structure SequenceNumber10 where
  m_value : Fin 1024
  m_modulusBase : Fin 1024
deriving DecidableEq, Repr

namespace SequenceNumber10

/-- The constructor. -/
def new (value : ℕ) : SequenceNumber10 := ⟨Fin.ofNat 1024 value, 0⟩

def SetModulusBase (a modulusBase : SequenceNumber10) : SequenceNumber10 :=
  { a with m_modulusBase := modulusBase.m_value }

/-- What `operator++` leaves. -/
def next (a : SequenceNumber10) : SequenceNumber10 := { a with m_value := a.m_value + 1 }

/-- `operator +`. -/
def add (a : SequenceNumber10) (delta : ℕ) : SequenceNumber10 :=
  { a with m_value := a.m_value + Fin.ofNat 1024 delta }

/-- `operator -`. -/
def sub (a : SequenceNumber10) (delta : ℕ) : SequenceNumber10 :=
  { a with m_value := a.m_value - Fin.ofNat 1024 delta }

/-- `(m_value - m_modulusBase) % 1024` as a `uint16_t`; the remainder may be negative. -/
def place (a : SequenceNumber10) : ℕ :=
  (Int.tmod ((a.m_value.val : ℤ) - a.m_modulusBase.val) 1024 % 65536).toNat

/-- `operator >`. -/
def gt (a other : SequenceNumber10) : Except Fault Bool :=
  if a.m_modulusBase = other.m_modulusBase then .ok (decide (a.place > other.place))
  else .error .abort

/-- `operator <=`. -/
def le (a other : SequenceNumber10) : Except Fault Bool := do
  let gt ← a.gt other
  .ok !gt

/-- `operator >=`. -/
def ge (a other : SequenceNumber10) : Except Fault Bool := do
  let gt ← a.gt other
  .ok (gt || a.m_value == other.m_value)

/-- `operator <`. -/
def lt (a other : SequenceNumber10) : Except Fault Bool := do
  let gt ← a.gt other
  .ok (!gt && a.m_value != other.m_value)

/-! ### Numbers that are not reduced -/

/-- The number `n`, with the base `b`. -/
def num (n b : ℕ) : SequenceNumber10 := ⟨Fin.ofNat 1024 n, Fin.ofNat 1024 b⟩

variable {m n b : ℕ}

/-- Numbers of ten bits are equal if and only if the remainders are. -/
theorem ofNat_eq_iff : Fin.ofNat 1024 m = Fin.ofNat 1024 n ↔ m % 1024 = n % 1024 := by
  rw [Fin.ext_iff]
  rfl

section

variable (hm : b ≤ m) (hm' : m < b + 1024)

include hm hm'

/-- Within a window numbers of ten bits tell positions apart. -/
theorem ofNat_inj (hn : b ≤ n) (hn' : n < b + 1024) :
    Fin.ofNat 1024 m = Fin.ofNat 1024 n ↔ m = n := by
  rw [ofNat_eq_iff]
  omega

/-- The place the code computes of a number above the base. -/
theorem place_num :
    (num m b).place = if b % 1024 + (m - b) < 1024 then m - b else 64512 + (m - b) := by
  have hvalue : ((num m b).m_value.val : ℤ) = ((m % 1024 : ℕ) : ℤ) := rfl
  have hbase : ((num m b).m_modulusBase.val : ℤ) = ((b % 1024 : ℕ) : ℤ) := rfl
  rw [place, hvalue, hbase]
  split_ifs with hlt
  · have hdiff : ((m % 1024 : ℕ) : ℤ) - ((b % 1024 : ℕ) : ℤ) = ((m - b : ℕ) : ℤ) := by omega
    rw [hdiff, Int.tmod_eq_emod_of_nonneg (Int.natCast_nonneg _)]
    omega
  · have hdiff : ((m % 1024 : ℕ) : ℤ) - ((b % 1024 : ℕ) : ℤ) = -((1024 - (m - b) : ℕ) : ℤ) := by
      omega
    rw [hdiff, Int.neg_tmod, Int.tmod_eq_emod_of_nonneg (Int.natCast_nonneg _)]
    omega

/-- Within a window the code's `>` is that of positions. -/
theorem gt_num (hn : b ≤ n) (hn' : n < b + 1024) :
    (num m b).gt (num n b) = .ok (decide (n < m)) := by
  have hplace : (num m b).place > (num n b).place ↔ n < m := by
    rw [place_num hm hm', place_num hn hn']
    split_ifs <;> omega
  exact (if_pos rfl).trans (congrArg Except.ok (decide_eq_decide.mpr hplace))

/-- Within a window the code's `==` is that of positions. -/
theorem value_num_eq (hn : b ≤ n) (hn' : n < b + 1024) :
    ((num m b).m_value == (num n b).m_value) = decide (m = n) := by
  rw [Bool.eq_iff_iff, beq_iff_eq, decide_eq_true_eq]
  exact ofNat_inj hm hm' hn hn'

/-- Within a window the code's `<` is that of positions. -/
theorem lt_num (hn : b ≤ n) (hn' : n < b + 1024) :
    (num m b).lt (num n b) = .ok (decide (m < n)) := by
  have hand : (!decide (n < m) && !decide (m = n)) = decide (m < n) := by
    rw [← decide_not, ← decide_not, ← Bool.decide_and]
    exact decide_eq_decide.mpr (by omega)
  rw [lt, gt_num hm hm' hn hn', bne, value_num_eq hm hm' hn hn', ← hand]
  rfl

end

/-- The next number is that of the next position. -/
theorem next_num : (num m b).next = num (m + 1) b := by
  refine congrArg (SequenceNumber10.mk · _) (Fin.ext ?_)
  show (m % 1024 + 1) % 1024 = (m + 1) % 1024
  omega

/-- Adding moves the position on. -/
theorem add_num (delta : ℕ) : (num m b).add delta = num (m + delta) b := by
  refine congrArg (SequenceNumber10.mk · _) (Fin.ext ?_)
  show (m % 1024 + delta % 1024) % 1024 = (m + delta) % 1024
  omega

theorem setModulusBase_num (a : ℕ) : (num m b).SetModulusBase (num n a) = num m n := rfl

end SequenceNumber10
end Ns3Joined.Lte
