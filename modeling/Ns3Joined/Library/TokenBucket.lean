import Mathlib.Algebra.Order.Field.Basic
import Mathlib.Tactic.Linarith
import Mathlib.Tactic.Ring

/-!
# Token buckets

A bucket fills at a constant rate until it is full. What is taken out of it has to be there, so it
has to wait for what is missing.

* `level_mono`: the level rises with the time.
* `isLeast_wait`: the time at which what is missing has flown in is the first one at which the
  bucket holds enough.
* `isLeast_max`: two conditions that last once they hold are first met at the later of their times.
-/

/-- A bucket: how fast it fills, how much it can hold, and how much it held at one time. -/
structure TokenBucket (K : Type*) where
  rate : K
  capacity : K
  tokens : K
  checkpoint : K

namespace TokenBucket

section

variable {K : Type*} [LinearOrder K] {t t' : K}

/-- Of two conditions that last once they hold, the first time at which both do. -/
theorem isLeast_max {P Q : K → Prop} {p q : K} (hP : ∀ a b, a ≤ b → P a → P b)
    (hQ : ∀ a b, a ≤ b → Q a → Q b) (hp : IsLeast {t' | t ≤ t' ∧ P t'} p)
    (hq : IsLeast {t' | t ≤ t' ∧ Q t'} q) :
    IsLeast {t' | t ≤ t' ∧ P t' ∧ Q t'} (max p q) :=
  ⟨⟨hp.1.1.trans (le_max_left p q), hP _ _ (le_max_left p q) hp.1.2,
    hQ _ _ (le_max_right p q) hq.1.2⟩,
    fun _ ht' => max_le (hp.2 ⟨ht'.1, ht'.2.1⟩) (hq.2 ⟨ht'.1, ht'.2.2⟩)⟩

/-- A least time stays least as long as it has not come. -/
theorem isLeast_later {P : K → Prop} {p : K} (hp : IsLeast {t' | t ≤ t' ∧ P t'} p)
    (ht : t ≤ t') (htp : t' ≤ p) : IsLeast {t'' | t' ≤ t'' ∧ P t''} p :=
  ⟨⟨htp, hp.1.2⟩, fun _ h => hp.2 ⟨ht.trans h.1, h.2⟩⟩

end

variable {K : Type*} [Field K] [LinearOrder K]
variable {b : TokenBucket K} {size t t' : K}

/-- How much the bucket holds. -/
def level (b : TokenBucket K) (t : K) : K :=
  min (b.tokens + (t - b.checkpoint) * b.rate) b.capacity

/-- The bucket holds enough. -/
def Holds (b : TokenBucket K) (size t : K) : Prop := size ≤ b.level t

instance (b : TokenBucket K) (size t : K) : Decidable (b.Holds size t) :=
  inferInstanceAs (Decidable (_ ≤ _))

/-- How long it takes until what is missing has flown in. -/
def wait (b : TokenBucket K) (size t : K) : K := max 0 (size - b.level t) / b.rate

/-- While too few tokens are there the bucket is not full, and they grow linearly. -/
theorem level_of_not_holds (h : ¬ b.Holds size t) (hsize : size ≤ b.capacity) :
    b.level t = b.tokens + (t - b.checkpoint) * b.rate := by
  refine min_eq_left (le_of_not_ge fun hfull => h ?_)
  unfold Holds level
  rw [min_eq_right hfull]
  exact hsize

variable [IsStrictOrderedRing K]

/-- Tokens do not become fewer while nothing is sent. -/
theorem level_mono (hrate : 0 ≤ b.rate) (ht : t ≤ t') : b.level t ≤ b.level t' :=
  min_le_min_right b.capacity (add_le_add_right
    (mul_le_mul_of_nonneg_right (sub_le_sub_right ht b.checkpoint) hrate) b.tokens)

/-- What could be sent can be sent later. -/
theorem Holds.mono (h : b.Holds size t) (hrate : 0 ≤ b.rate) (ht : t ≤ t') : b.Holds size t' :=
  le_trans h (level_mono hrate ht)

/-- The wait is not negative. -/
theorem wait_nonneg (hrate : 0 ≤ b.rate) : 0 ≤ b.wait size t :=
  div_nonneg (le_max_left 0 _) hrate

/-- There is no wait when the tokens are there. -/
theorem wait_of_holds (h : b.Holds size t) : b.wait size t = 0 := by
  unfold wait
  rw [max_eq_left (sub_nonpos.mpr h), zero_div]

/-- The wait is for the tokens that are missing. -/
theorem wait_of_not_holds (h : ¬ b.Holds size t) : b.wait size t = (size - b.level t) / b.rate := by
  unfold wait
  rw [max_eq_right (sub_nonneg.mpr (le_of_not_ge h))]

/-- There is a wait while tokens are missing. -/
theorem wait_pos (hrate : 0 < b.rate) (h : ¬ b.Holds size t) : 0 < b.wait size t := by
  rw [wait_of_not_holds h]
  exact div_pos (sub_pos.mpr (lt_of_not_ge h)) hrate

/-- The wait leads to the least time at which the tokens are there. -/
theorem isLeast_wait (hrate : ¬ b.Holds size t → 0 < b.rate) (hsize : size ≤ b.capacity) :
    IsLeast {t' | t ≤ t' ∧ b.Holds size t'} (t + b.wait size t) := by
  by_cases h : b.Holds size t
  · rw [wait_of_holds h, add_zero]
    exact ⟨⟨le_refl t, h⟩, fun t' ht' => ht'.1⟩
  · have hlevel := level_of_not_holds h hsize
    have hflown : b.wait size t * b.rate = size - b.level t := by
      rw [wait_of_not_holds h, div_mul_cancel₀ _ (hrate h).ne']
    refine ⟨⟨le_add_of_nonneg_right (wait_nonneg (hrate h).le), le_min ?_ hsize⟩, fun t' ht' => ?_⟩
    · apply le_of_eq
      calc
        size = b.level t + b.wait size t * b.rate := by rw [hflown, add_sub_cancel]
        _ = b.tokens + (t + b.wait size t - b.checkpoint) * b.rate := by rw [hlevel]; ring
    · -- by then what has flown in since `t` is what was missing
      have henough : size ≤ b.tokens + (t' - b.checkpoint) * b.rate :=
        ht'.2.trans (min_le_left _ _)
      have hle : b.wait size t * b.rate ≤ (t' - t) * b.rate := by
        rw [hflown, hlevel]
        linarith
      have := le_of_mul_le_mul_right hle (hrate h)
      linarith

end TokenBucket
