import Ns3Joined.Core.CalendarScheduler

/-!
# What the calendar scheduler guarantees

Bucket `i` has the events of the list whose day is dealt to `i`, in the order of the list
(`Layout`), and the search starts at the day of the last event removed (`Cursor`). No event
is due before that day, so once around the buckets the search finds the first event of the
list, in the bucket of its day if that is less than a round away (`search_near`), and as the
earliest of all first events otherwise (`search_far`).

The width makes no difference to that. What goes wrong are time stamps at the end of the
range: the day of such an event ends past the largest number, and the bucket top wraps.
`calendarScheduler_refines` says what a run has to keep from.
-/

namespace Ns3Joined.Core.CalendarScheduler

open List UInt32

/-! ### What is to be done -/

/-- The events held and the time stamp of the last one that was next. -/
structure Calendar where
  held : List Event
  last : UInt64

/-- The sorted list, for callers that insert no event before the last one removed. -/
def calendar : Refinement.Spec Calendar SchedulerCall (Option Event) where
  Allowed t call :=
    sortedList.Allowed t.held call ∧
      match call with
      | .insert ev => t.last ≤ ev.key.ts
      | _ => True
  next t call :=
    { held := sortedList.next t.held call
      last :=
        match call, t.held with
        | .removeNext, first :: _ => first.key.ts
        | _, _ => t.last }
  answer t call := sortedList.answer t.held call

/-! ### Days -/

/-- The number of the day of a time stamp. -/
def day (width ts : UInt64) : ℕ := ts.toNat / width.toNat

/-- The bucket of an event is its day modulo the number of buckets. -/
theorem hash_eq (s : CalendarScheduler) (ts : UInt64) :
    s.Hash ts = day s.width ts % s.nBuckets := by
  rw [Hash, UInt64.toNat_div]
  rfl

theorem dayEnd_eq (width ts : UInt64) : dayEnd width ts = (day width ts + 1) * width.toNat := rfl

variable {ts width : UInt64} {n newSize : ℕ} {ev next first : Event} {s' : CalendarScheduler}

/-- Days are in the order of the time stamps. -/
theorem day_mono {a b : UInt64} (h : a.toNat ≤ b.toNat) : day width a ≤ day width b :=
  Nat.div_le_div_right h

/-- The end of a day, if it does not wrap. -/
theorem toNat_dayEnd (hw : 0 < width.toNat) (h : dayEnd width ts < 2 ^ 64) :
    ((ts / width + 1) * width).toNat = dayEnd width ts := by
  have hday : day width ts + 1 < 2 ^ 64 :=
    calc
      day width ts + 1 ≤ (day width ts + 1) * width.toNat := Nat.le_mul_of_pos_right _ hw
      _ < 2 ^ 64 := h
  have hdiv : (ts / width + 1).toNat = day width ts + 1 := by
    rw [UInt64.toNat_add, UInt64.toNat_div]
    exact Nat.mod_eq_of_lt hday
  rw [UInt64.toNat_mul, hdiv]
  exact Nat.mod_eq_of_lt h

/-- A time stamp is before the end of a day if its day is not later. -/
theorem lt_dayEnd_iff (hw : 0 < width.toNat) {d : ℕ} :
    ts.toNat < (d + 1) * width.toNat ↔ day width ts ≤ d := by
  unfold day
  rw [← Nat.div_lt_iff_lt_mul hw, Nat.lt_succ_iff]

/-- Within a round, only one day is dealt to a bucket. -/
theorem day_eq_of_mod_eq {d e k : ℕ} (hle : d ≤ e) (hlt : e ≤ d + k) (hk : k < n)
    (hmod : e % n = (d + k) % n) : e = d + k := by
  have hdvd : n ∣ d + k - e := (Nat.modEq_iff_dvd' hlt).mp hmod
  have hzero : d + k - e = 0 := Nat.eq_zero_of_dvd_of_lt hdvd (by omega)
  omega

/-! ### Layout -/

theorem getElem!_setIfInBounds {buckets : Array (List Event)} {i : ℕ} (hi : i < buckets.size)
    (bucket : List Event) (j : ℕ) :
    (buckets.setIfInBounds i bucket)[j]! = if i = j then bucket else buckets[j]! := by
  by_cases hj : j < buckets.size
  · rw [getElem!_pos (buckets.setIfInBounds i bucket) j (by rwa [Array.size_setIfInBounds]),
      getElem!_pos buckets j hj, Array.getElem_setIfInBounds]
  · rw [getElem!_neg (buckets.setIfInBounds i bucket) j (by rwa [Array.size_setIfInBounds]),
      getElem!_neg buckets j hj, if_neg (by omega)]

/-- Each bucket has the events of its days, in the order of the list. -/
structure Layout (s : CalendarScheduler) (held : List Event) : Prop where
  size : s.buckets.size = s.nBuckets
  nBuckets_pos : 0 < s.nBuckets
  width_pos : 0 < s.width.toNat
  increasing : Increasing held
  bucket : ∀ i < s.nBuckets, s.buckets[i]! = held.filter fun ev => s.Hash ev.key.ts == i

section Layout

variable {s : CalendarScheduler} {held : List Event}

theorem Layout.hash_lt (h : Layout s held) (ts : UInt64) : s.Hash ts < s.nBuckets :=
  Nat.mod_lt _ h.nBuckets_pos

/-- An event is put in its bucket with the others. -/
theorem insertInBucket_perm (ev : Event) (bucket : List Event) :
    (insertInBucket ev bucket).Perm (ev :: bucket) := by
  induction bucket with
  | nil => exact List.Perm.refl _
  | cons first bucket ih =>
    rw [insertInBucket]
    split_ifs
    · exact List.Perm.refl _
    · exact (ih.cons first).trans (List.Perm.swap ev first bucket)

/-- The bucket stays in order. -/
theorem increasing_insertInBucket {bucket : List Event} (h : Increasing bucket)
    (hnew : ∀ ev' ∈ bucket, ev'.rank ≠ ev.rank) : Increasing (insertInBucket ev bucket) := by
  induction bucket with
  | nil => exact pairwise_singleton _ _
  | cons first bucket ih =>
    obtain ⟨hfirst, hbucket⟩ := pairwise_cons.mp h
    obtain ⟨hne, hnew⟩ := forall_mem_cons.mp hnew
    rw [insertInBucket]
    split_ifs with hlt
    · apply pairwise_cons.mpr
      refine ⟨fun ev' hev' => ?_, h⟩
      rcases mem_cons.mp hev' with rfl | hev'
      · exact hlt
      · exact lt_trans hlt (hfirst ev' hev')
    · apply pairwise_cons.mpr
      refine ⟨fun ev' hev' => ?_, ih hbucket hnew⟩
      rcases mem_cons.mp ((insertInBucket_perm ev bucket).mem_iff.mp hev') with rfl | hev'
      · exact lt_of_le_of_ne (le_of_not_gt hlt) hne
      · exact hfirst ev' hev'

/-- The layout depends on buckets, their number and their width only. -/
theorem Layout.congr (h : Layout s held) (hb : s'.buckets = s.buckets)
    (hn : s'.nBuckets = s.nBuckets) (hw : s'.width = s.width) : Layout s' held := by
  have hhash : ∀ ts, s'.Hash ts = s.Hash ts := by
    intro ts
    rw [Hash, Hash, hn, hw]
  constructor
  · rw [hb, hn]
    exact h.size
  · rw [hn]
    exact h.nBuckets_pos
  · rw [hw]
    exact h.width_pos
  · exact h.increasing
  · intro i hi
    rw [hn] at hi
    simp only [hb, hhash]
    exact h.bucket i hi

/-- `DoInsert` puts an event where it belongs. -/
theorem Layout.doInsert (h : Layout s held) (hnew : ∀ ev' ∈ held, ev'.rank ≠ ev.rank) :
    Layout (s.DoInsert ev) (insertEvent ev held) := by
  have hlt : s.Hash ev.key.ts < s.buckets.size := by
    rw [h.size]
    exact h.hash_lt _
  refine ⟨?_, h.nBuckets_pos, h.width_pos, h.increasing.insertEvent hnew, ?_⟩
  · show (s.buckets.setIfInBounds _ _).size = _
    rw [Array.size_setIfInBounds]
    exact h.size
  · intro i hi
    show (s.buckets.setIfInBounds _ _)[i]! =
      (insertEvent ev held).filter fun ev' => s.Hash ev'.key.ts == i
    rw [getElem!_setIfInBounds hlt, h.bucket _ (h.hash_lt _)]
    apply Increasing.eq_of_mem_iff
    · split_ifs
      · apply increasing_insertInBucket (h.increasing.filter _)
        intro ev' hev'
        exact hnew ev' (mem_of_mem_filter hev')
      · rw [h.bucket i hi]
        exact h.increasing.filter _
    · exact (h.increasing.insertEvent hnew).filter _
    · intro ev'
      rw [mem_filter, (insertEvent_perm ev held).mem_iff]
      split_ifs with hbucket
      · rw [(insertInBucket_perm ev _).mem_iff, mem_cons, mem_filter, mem_cons,
          hbucket]
        constructor
        · rintro (rfl | ⟨hmem, hhash⟩)
          · exact ⟨.inl rfl, beq_iff_eq.mpr hbucket⟩
          · exact ⟨.inr hmem, hhash⟩
        · rintro ⟨rfl | hmem, hhash⟩
          · exact .inl rfl
          · exact .inr ⟨hmem, hhash⟩
      · rw [h.bucket i hi, mem_filter, mem_cons]
        constructor
        · rintro ⟨hmem, hhash⟩
          exact ⟨.inr hmem, hhash⟩
        · rintro ⟨rfl | hmem, hhash⟩
          · exact absurd (beq_iff_eq.mp hhash) hbucket
          · exact ⟨hmem, hhash⟩

/-- The first event of all is the first one of its bucket. -/
theorem Layout.head? (h : Layout s held) (hfirst : held.head? = some first) :
    s.buckets[s.Hash first.key.ts]!.head? = some first := by
  match held with
  | [] => cases hfirst
  | _ :: held =>
    cases hfirst
    rw [h.bucket _ (h.hash_lt _)]
    simp only [filter_cons, beq_self_eq_true, if_true, List.head?_cons]

/-- Erase an event from its bucket. -/
def eraseEvent (s : CalendarScheduler) (ev : Event) : CalendarScheduler :=
  let bucket := s.Hash ev.key.ts
  { s with buckets := s.buckets.setIfInBounds bucket (s.buckets[bucket]!.erase ev) }

/-- Taking an event out leaves the others where they belong. -/
theorem Layout.erase (h : Layout s held) (ev : Event) :
    Layout (s.eraseEvent ev) (held.erase ev) := by
  have hlt : s.Hash ev.key.ts < s.buckets.size := by
    rw [h.size]
    exact h.hash_lt _
  have herase : Increasing (held.erase ev) := List.Pairwise.sublist erase_sublist h.increasing
  refine ⟨?_, h.nBuckets_pos, h.width_pos, herase, ?_⟩
  · show (s.buckets.setIfInBounds _ _).size = _
    rw [Array.size_setIfInBounds]
    exact h.size
  · intro i hi
    show (s.buckets.setIfInBounds _ _)[i]! =
      (held.erase ev).filter fun ev' => s.Hash ev'.key.ts == i
    rw [getElem!_setIfInBounds hlt, h.bucket _ (h.hash_lt _)]
    have hincreasing := h.increasing.filter fun ev' => s.Hash ev'.key.ts == s.Hash ev.key.ts
    apply Increasing.eq_of_mem_iff
    · split_ifs
      · exact List.Pairwise.sublist erase_sublist hincreasing
      · rw [h.bucket i hi]
        exact h.increasing.filter _
    · exact herase.filter _
    · intro ev'
      rw [mem_filter, h.increasing.nodup.mem_erase_iff]
      split_ifs with hbucket
      · rw [hincreasing.nodup.mem_erase_iff, mem_filter, hbucket, and_assoc]
      · rw [h.bucket i hi, mem_filter]
        constructor
        · rintro ⟨hmem, hhash⟩
          refine ⟨⟨?_, hmem⟩, hhash⟩
          rintro rfl
          exact hbucket (beq_iff_eq.mp hhash)
        · rintro ⟨⟨-, hmem⟩, hhash⟩
          exact ⟨hmem, hhash⟩

/-- So does taking out the first one. -/
theorem Layout.popFront (h : Layout s held) (hfirst : held.head? = some first) :
    Layout (s.popFront (s.Hash first.key.ts)) held.tail := by
  have hhead := h.head? hfirst
  match held with
  | [] => cases hfirst
  | _ :: held =>
    cases hfirst
    have herase := h.erase first
    rw [erase_cons_head] at herase
    apply herase.congr
    · match hbucket : s.buckets[s.Hash first.key.ts]! with
      | [] =>
        rw [hbucket] at hhead
        cases hhead
      | _ :: bucket =>
        rw [hbucket] at hhead
        cases hhead
        show s.buckets.setIfInBounds _ s.buckets[s.Hash first.key.ts]!.tail =
          s.buckets.setIfInBounds _ (s.buckets[s.Hash first.key.ts]!.erase first)
        rw [hbucket, erase_cons_head, tail_cons]
    · rfl
    · rfl

end Layout

/-! ### The search -/

/-- The search starts at the day of the last event removed, and no event is due before. -/
structure Cursor (s : CalendarScheduler) (held : List Event) (last : UInt64) : Prop where
  lastPrio : s.lastPrio = last
  due : ∀ ev ∈ held, last.toNat ≤ ev.key.ts.toNat
  lastBucket : s.lastBucket = s.Hash last
  bucketTop : s.bucketTop.toNat = dayEnd s.width last
  wrapped : s.wrapped = false

/-- The loop looks at day `d + k`. -/
structure Scan.At (s : CalendarScheduler) (d k : ℕ) (scan : Scan) : Prop where
  i : scan.i = (d + k) % s.nBuckets
  bucketTop : scan.bucketTop.toNat = (d + k + 1) * s.width.toNat
  wrapped : scan.wrapped = false

/-- The loop has noted the event as the earliest one, with its bucket. -/
def Scan.Noted (s : CalendarScheduler) (first : Event) (scan : Scan) : Prop :=
  scan.min = first ∧ scan.minBucket = some (s.Hash first.key.ts)

section Search

variable {s : CalendarScheduler} {held : List Event} {last : UInt64} {d k rounds : ℕ} {scan : Scan}

/-- The scan goes on to the next day. -/
theorem Scan.At.advance (h : scan.At s d k) (hfit : (d + k + 2) * s.width.toNat < 2 ^ 64) :
    (scan.advance s).At s d (k + 1) := by
  have hsum : scan.bucketTop.toNat + s.width.toNat = (d + (k + 1) + 1) * s.width.toNat := by
    rw [h.bucketTop, ← Nat.succ_mul]
    congr 1
  have hlt : scan.bucketTop.toNat + s.width.toNat < 2 ^ 64 := by
    rw [hsum]
    exact hfit
  constructor
  · show (scan.i + 1) % s.nBuckets = _
    rw [h.i, Nat.mod_add_mod, Nat.add_assoc]
  · show (scan.bucketTop + s.width).toNat = _
    rw [UInt64.toNat_add, Nat.mod_eq_of_lt hlt, hsum]
  · show (scan.wrapped || decide _) = false
    rw [h.wrapped, Bool.false_or, decide_eq_false_iff_not]
    omega

theorem Scan.see_at (h : scan.At s d k) (next : Event) : (scan.see next).At s d k := by
  unfold Scan.see
  split_ifs
  · exact ⟨h.i, h.bucketTop, h.wrapped⟩
  · exact h

/-- What is first in a bucket is held, and of one of the days of the bucket. -/
theorem Layout.of_head? (h : Layout s held) {i : ℕ} (hi : i < s.nBuckets)
    (hnext : s.buckets[i]!.head? = some next) :
    next ∈ held ∧ day s.width next.key.ts % s.nBuckets = i := by
  rw [h.bucket i hi] at hnext
  have hmem := mem_of_mem_head? hnext
  obtain ⟨hheld, hhash⟩ := mem_filter.mp hmem
  exact ⟨hheld, (hash_eq s next.key.ts).symm.trans (beq_iff_eq.mp hhash)⟩

/-- A first event that is due at day `d + k` has that day. -/
theorem Layout.day_of_due (h : Layout s held) (hdue : ∀ ev ∈ held, d ≤ day s.width ev.key.ts)
    (hat : scan.At s d k) (hk : k < s.nBuckets) (hnext : s.buckets[scan.i]!.head? = some next)
    (hlt : next.key.ts < scan.bucketTop) : day s.width next.key.ts = d + k := by
  have hi : scan.i < s.nBuckets := by
    rw [hat.i]
    exact Nat.mod_lt _ h.nBuckets_pos
  obtain ⟨hmem, hmod⟩ := h.of_head? hi hnext
  rw [UInt64.lt_iff_toNat_lt, hat.bucketTop, lt_dayEnd_iff h.width_pos] at hlt
  exact day_eq_of_mod_eq (hdue next hmem) hlt hk (hmod.trans hat.i)

section

variable (h : Layout s held) (hfirst : held.head? = some first)

include h hfirst

/-- No event is before the day of the first one. -/
theorem Layout.day_first_le (hev : ev ∈ held) : day s.width first.key.ts ≤ day s.width ev.key.ts :=
  day_mono (EventKey.ts_le_of_rank_le (h.increasing.rank_le hfirst hev))

/-- When the scan comes to the day of the first event, it finds it. -/
theorem Layout.head?_at (hat : scan.At s d k) (hday : day s.width first.key.ts = d + k) :
    s.buckets[scan.i]!.head? = some first ∧ first.key.ts < scan.bucketTop := by
  constructor
  · rw [hat.i, ← hday, ← hash_eq]
    exact h.head? hfirst
  · rw [UInt64.lt_iff_toNat_lt, hat.bucketTop, lt_dayEnd_iff h.width_pos, hday]

/-- **Less than a round away**: the search ends at the day of the first event. -/
theorem search_near (hdue : ∀ ev ∈ held, d ≤ day s.width ev.key.ts)
    (hfit : dayEnd s.width first.key.ts < 2 ^ 64) (hat : scan.At s d k)
    (hrounds : k + rounds ≤ s.nBuckets) (hle : d + k ≤ day s.width first.key.ts)
    (hlt : day s.width first.key.ts < d + k + rounds) :
    ∃ scan', s.search rounds scan = (scan', some first) ∧
      scan'.At s d (day s.width first.key.ts - d) := by
  induction rounds generalizing k scan with
  | zero => omega
  | succ rounds ih =>
    have hnext : ∀ scan : Scan, scan.At s d k → d + k ≠ day s.width first.key.ts →
        ∃ scan', s.search rounds (scan.advance s) = (scan', some first) ∧
          scan'.At s d (day s.width first.key.ts - d) := by
      intro scan hat hne
      apply ih (hat.advance ?_) (by omega) (by omega) (by omega)
      calc
        (d + k + 2) * s.width.toNat ≤ (day s.width first.key.ts + 1) * s.width.toNat :=
          Nat.mul_le_mul_right _ (by omega)
        _ < 2 ^ 64 := hfit
    rw [search]
    split
    next hnone =>
      apply hnext scan hat
      intro heq
      rw [(h.head?_at hfirst hat heq.symm).1] at hnone
      cases hnone
    next next hsome =>
      by_cases hlt' : next.key.ts < scan.bucketTop
      · -- due, so its day is this one, and the first event is not later
        have hi : scan.i < s.nBuckets := by
          rw [hat.i]
          exact Nat.mod_lt _ h.nBuckets_pos
        have hday := h.day_of_due hdue hat (by omega) hsome hlt'
        have hfirstDay := h.day_first_le hfirst (h.of_head? hi hsome).1
        have heq : day s.width first.key.ts = d + k := by omega
        rw [(h.head?_at hfirst hat heq).1] at hsome
        cases hsome
        refine ⟨scan, if_pos hlt', ?_⟩
        rwa [heq, Nat.add_sub_cancel_left]
      · rw [if_neg hlt']
        apply hnext _ (Scan.see_at hat next)
        intro heq
        obtain ⟨hhead, hdue'⟩ := h.head?_at hfirst hat heq.symm
        rw [hhead] at hsome
        cases hsome
        exact hlt' hdue'

end

/-- What the loop has seen is not before the first event, or is that event. -/
def Scan.Tracks (s : CalendarScheduler) (first : Event) (scan : Scan) : Prop :=
  first.rank < scan.min.rank ∨ scan.Noted s first

/-- The scan keeps the earliest event that it has seen. -/
theorem Scan.Tracks.see (h : scan.Tracks s first) (hne : next ≠ first → first.rank < next.rank)
    (hi : next = first → scan.i = s.Hash first.key.ts) :
    (scan.see next).Tracks s first ∧
      (scan.Noted s first ∨ next = first → (scan.see next).Noted s first) := by
  have hkeep : scan.Noted s first → (scan.see next).Noted s first := by
    intro hnoted
    have hnlt : ¬ next.rank < scan.min.rank := by
      rw [hnoted.1]
      by_cases heq : next = first
      · rw [heq]
        exact lt_irrefl _
      · exact lt_asymm (hne heq)
    rwa [Scan.see, if_neg hnlt]
  by_cases heq : next = first
  · have hnoted : (scan.see next).Noted s first := by
      rcases h with hlt | hnoted
      · rw [Scan.see, if_pos (by rwa [heq])]
        exact ⟨heq, congrArg some (hi heq)⟩
      · exact hkeep hnoted
    exact ⟨.inr hnoted, fun _ => hnoted⟩
  · refine ⟨?_, fun hor => hkeep (hor.resolve_right heq)⟩
    unfold Scan.see
    split_ifs
    · exact .inl (hne heq)
    · exact h

/-- **A round or more away**: the search goes once around and notes the first event. -/
theorem search_far (h : Layout s held) (hfirst : held.head? = some first)
    (hdue : ∀ ev ∈ held, d ≤ day s.width ev.key.ts) (hat : scan.At s d k)
    (htracks : scan.Tracks s first) (hrounds : k + rounds ≤ s.nBuckets)
    (hfar : d + k + rounds ≤ day s.width first.key.ts)
    (hfit : (d + k + rounds + 1) * s.width.toNat < 2 ^ 64) :
    ∃ scan', s.search rounds scan = (scan', none) ∧ scan'.wrapped = false ∧
      scan'.Tracks s first ∧
      ((scan.Noted s first ∨ ∃ j, k ≤ j ∧ j < k + rounds ∧
        (d + j) % s.nBuckets = s.Hash first.key.ts) → scan'.Noted s first) := by
  induction rounds generalizing k scan with
  | zero =>
    refine ⟨scan, rfl, hat.wrapped, htracks, ?_⟩
    rintro (hnoted | ⟨j, hk, hj, -⟩)
    · exact hnoted
    · omega
  | succ rounds ih =>
    have hi : scan.i < s.nBuckets := by
      rw [hat.i]
      exact Nat.mod_lt _ h.nBuckets_pos
    -- the rest of the round, after this bucket
    have hnext : ∀ scan₁ : Scan, scan₁.At s d k → scan₁.Tracks s first →
        ((scan.Noted s first ∨ scan.i = s.Hash first.key.ts) → scan₁.Noted s first) →
        ∃ scan', s.search rounds (scan₁.advance s) = (scan', none) ∧ scan'.wrapped = false ∧
          scan'.Tracks s first ∧
          ((scan.Noted s first ∨ ∃ j, k ≤ j ∧ j < k + (rounds + 1) ∧
            (d + j) % s.nBuckets = s.Hash first.key.ts) → scan'.Noted s first) := by
      intro scan₁ hat₁ htracks₁ hnoted₁
      have hfit' : (d + k + 2) * s.width.toNat < 2 ^ 64 :=
        calc
          (d + k + 2) * s.width.toNat ≤ (d + k + (rounds + 1) + 1) * s.width.toNat :=
            Nat.mul_le_mul_right _ (by omega)
          _ < 2 ^ 64 := hfit
      obtain ⟨scan', hsearch, hwrapped, htracks', hnoted'⟩ :=
        ih (hat₁.advance hfit') htracks₁ (by omega) (by omega)
          (by rwa [show d + (k + 1) + rounds + 1 = d + k + (rounds + 1) + 1 by omega])
      refine ⟨scan', hsearch, hwrapped, htracks', ?_⟩
      rintro (hnoted | ⟨j, hk, hj, hmod⟩)
      · exact hnoted' (.inl (hnoted₁ (.inl hnoted)))
      · by_cases hjk : j = k
        · apply hnoted' (.inl (hnoted₁ (.inr ?_)))
          rw [hat.i, ← hjk, hmod]
        · exact hnoted' (.inr ⟨j, by omega, by omega, hmod⟩)
    -- The bucket is empty, or its first event is not due and is only noted.
    rw [search]
    split
    next hnone =>
      apply hnext scan hat htracks
      rintro (hnoted | hhash)
      · exact hnoted
      · rw [hhash, h.head? hfirst] at hnone
        cases hnone
    next next hsome =>
      obtain ⟨hmem, hmod⟩ := h.of_head? hi hsome
      have hnotDue : ¬ next.key.ts < scan.bucketTop := by
        intro hlt
        have hday := h.day_of_due hdue hat (by omega) hsome hlt
        have hfirstDay := h.day_first_le hfirst hmem
        omega
      rw [if_neg hnotDue]
      have hlt : next ≠ first → first.rank < next.rank := by
        intro hne
        match held, hfirst with
        | _ :: held, rfl =>
          rcases mem_cons.mp hmem with heq | hmem
          · exact absurd heq hne
          · exact (pairwise_cons.mp h.increasing).1 next hmem
      have hbucket : next = first → scan.i = s.Hash first.key.ts := by
        rintro rfl
        rw [hash_eq, hmod]
      obtain ⟨htracks', hnoted'⟩ := htracks.see hlt hbucket
      apply hnext _ (Scan.see_at hat next) htracks'
      rintro (hnoted | hhash)
      · exact hnoted' (.inl hnoted)
      · rw [hhash, h.head? hfirst] at hsome
        cases hsome
        exact hnoted' (.inr rfl)

/-- A search as `PeekNext` and `DoRemoveNext` make it. -/
theorem Cursor.at (h : Cursor s held last) (sentinel : Event) :
    Scan.At s (day s.width last) 0 ⟨s.lastBucket, s.bucketTop, sentinel, none, s.wrapped⟩ where
  i := by rw [h.lastBucket, hash_eq, Nat.add_zero]
  bucketTop := by rw [h.bucketTop, dayEnd_eq, Nat.add_zero]
  wrapped := h.wrapped

theorem Cursor.day_le (h : Cursor s held last) (hev : ev ∈ held) :
    day s.width last ≤ day s.width ev.key.ts := day_mono (h.due ev hev)

/-- Within `n` days, every bucket is visited. -/
theorem exists_mod_eq {e : ℕ} (hn : 0 < n) (hle : d ≤ e) :
    ∃ j, 0 ≤ j ∧ j < 0 + n ∧ (d + j) % n = e % n := by
  refine ⟨(e - d) % n, Nat.zero_le _, ?_, ?_⟩
  · rw [Nat.zero_add]
    exact Nat.mod_lt _ hn
  · rw [Nat.add_mod_mod]
    congr 1
    omega

/-- **The search from the last bucket once around.** -/
theorem searchAll_spec (h : Layout s held) (hc : Cursor s held last)
    (hfirst : held.head? = some first) (sentinel : Event) (hbefore : first.rank < sentinel.rank)
    (hfit : (min (day s.width first.key.ts) (day s.width last + s.nBuckets) + 1) *
      s.width.toNat < 2 ^ 64) :
    ∃ scan, scan.wrapped = false ∧
      (s.searchAll sentinel = (scan, some first) ∧ scan.i = s.Hash first.key.ts ∧
          scan.bucketTop.toNat = dayEnd s.width first.key.ts ∨
        s.searchAll sentinel = (scan, none) ∧ scan.Noted s first) := by
  have hmem : first ∈ held := mem_of_mem_head? hfirst
  have hle := hc.day_le hmem
  have hdue : ∀ ev ∈ held, day s.width last ≤ day s.width ev.key.ts := fun ev hev => hc.day_le hev
  by_cases hnear : day s.width first.key.ts < day s.width last + s.nBuckets
  · rw [Nat.min_eq_left (Nat.le_of_lt hnear)] at hfit
    obtain ⟨scan, hsearch, hat⟩ := search_near h hfirst hdue hfit (hc.at sentinel)
      (Nat.le_of_eq (Nat.zero_add _)) (by omega) (by omega)
    refine ⟨scan, hat.wrapped, .inl ⟨hsearch, ?_, ?_⟩⟩
    · rw [hat.i, hash_eq, ← Nat.add_sub_assoc hle, Nat.add_sub_cancel_left]
    · rw [hat.bucketTop, dayEnd_eq, ← Nat.add_sub_assoc hle, Nat.add_sub_cancel_left]
  · rw [Nat.min_eq_right (Nat.le_of_not_lt hnear)] at hfit
    obtain ⟨scan, hsearch, hwrapped, -, hnoted⟩ := search_far h hfirst hdue (hc.at sentinel)
      (.inl hbefore) (Nat.le_of_eq (Nat.zero_add _)) (by omega) hfit
    refine ⟨scan, hwrapped, .inr ⟨hsearch, hnoted (.inr ?_)⟩⟩
    rw [hash_eq]
    exact exists_mod_eq h.nBuckets_pos hle

/-- **`PeekNext`** finds the first event. -/
theorem peekNext_spec (h : Layout s held) (hc : Cursor s held last)
    (hfirst : held.head? = some first) (hempty : s.IsEmpty = false)
    (hbefore : first.rank < peekSentinel.rank)
    (hfit : (min (day s.width first.key.ts) (day s.width last + s.nBuckets) + 1) *
      s.width.toNat < 2 ^ 64) :
    s.PeekNext = .ok (s, first) := by
  have hsame : ∀ scan : Scan, scan.wrapped = false → { s with wrapped := scan.wrapped } = s := by
    intro scan hwrapped
    rw [hwrapped, ← hc.wrapped]
  unfold PeekNext
  rw [if_neg (by rw [hempty]; exact Bool.false_ne_true)]
  obtain ⟨scan, hwrapped, ⟨hsearch, -⟩ | ⟨hsearch, hnoted⟩⟩ :=
    searchAll_spec h hc hfirst peekSentinel hbefore hfit
  · rw [hsearch]
    dsimp only
    rw [hsame scan hwrapped]
  · rw [hsearch]
    dsimp only
    rw [hsame scan hwrapped, hnoted.1]

/-- Every event comes before the key that the search of `RemoveNext` starts from. -/
theorem rank_lt_removeSentinel (hw : 0 < s.width.toNat)
    (hfit : dayEnd s.width first.key.ts < 2 ^ 64) : first.rank < removeSentinel.rank := by
  apply EventKey.rank_lt_iff.mpr
  left
  rw [UInt64.lt_iff_toNat_lt]
  have hsentinel : removeSentinel.key.ts.toNat = 18446744073709551615 := by decide +kernel
  have hlt : first.key.ts.toNat < dayEnd s.width first.key.ts := (lt_dayEnd_iff hw).mpr (le_refl _)
  show first.key.ts.toNat < removeSentinel.key.ts.toNat
  omega

/-- What `DoRemoveNext` does when the day of the next event ends within 64 bits. -/
theorem doRemoveNext_spec (h : Layout s held) (hc : Cursor s held last)
    (hfirst : held.head? = some first) (hempty : s.IsEmpty = false)
    (hfit : dayEnd s.width first.key.ts < 2 ^ 64) :
    ∃ s', s.DoRemoveNext = .ok (s', first) ∧ Layout s' held.tail ∧
      Cursor s' held.tail first.key.ts ∧ s'.width = s.width ∧ s'.nBuckets = s.nBuckets ∧
      s'.qSize = s.qSize := by
  have hfit' : (min (day s.width first.key.ts) (day s.width last + s.nBuckets) + 1) *
      s.width.toNat < 2 ^ 64 :=
    calc
      _ ≤ (day s.width first.key.ts + 1) * s.width.toNat :=
        Nat.mul_le_mul_right _ (Nat.succ_le_succ (Nat.min_le_left _ _))
      _ < 2 ^ 64 := hfit
  have hdue : ∀ ev ∈ held.tail, first.key.ts.toNat ≤ ev.key.ts.toNat := fun ev hev =>
    EventKey.ts_le_of_rank_le (h.increasing.rank_le hfirst (mem_of_mem_tail hev))
  unfold DoRemoveNext
  rw [if_neg (by rw [hempty]; exact Bool.false_ne_true)]
  obtain ⟨scan, hwrapped, ⟨hsearch, hi, htop⟩ | ⟨hsearch, hnoted⟩⟩ :=
    searchAll_spec h hc hfirst removeSentinel (rank_lt_removeSentinel h.width_pos hfit) hfit'
  · rw [hsearch]
    dsimp only
    rw [hi]
    refine ⟨_, rfl, Layout.popFront ?_ hfirst, ⟨rfl, hdue, rfl, htop, hwrapped⟩, rfl, rfl, rfl⟩
    exact h.congr rfl rfl rfl
  · have hhead : s.buckets[s.Hash first.key.ts]!.headI = first := by
      have hhead? := h.head? hfirst
      match hbucket : s.buckets[s.Hash first.key.ts]! with
      | [] =>
        rw [hbucket] at hhead?
        cases hhead?
      | _ :: _ =>
        rw [hbucket] at hhead?
        cases hhead?
        rfl
    rw [hsearch]
    dsimp only
    rw [hnoted.2]
    dsimp only
    rw [hhead, hnoted.1]
    refine ⟨_, rfl, Layout.popFront ?_ hfirst, ⟨rfl, hdue, rfl, ?_, ?_⟩, rfl, rfl, rfl⟩
    · exact h.congr rfl rfl rfl
    · exact toNat_dayEnd h.width_pos hfit
    · show (scan.wrapped || decide _) = false
      rw [hwrapped, Bool.false_or, decide_eq_false_iff_not]
      omega

end Search

/-! ### Insertions one after the other -/

section Fold

variable {s : CalendarScheduler} {held acc evs : List Event} {last : UInt64}

/-- Insertions change the buckets only. -/
theorem foldl_doInsert_eq (evs : List Event) (s : CalendarScheduler) :
    evs.foldl DoInsert s = { s with buckets := (evs.foldl DoInsert s).buckets } := by
  induction evs generalizing s with
  | nil => rfl
  | cons ev evs ih =>
    rw [foldl_cons, ih (s.DoInsert ev)]
    rfl

/-- No two events have the same key. -/
theorem Increasing.nodup_ranks (h : Increasing held) : (held.map Event.rank).Nodup :=
  pairwise_map.mpr (List.Pairwise.imp (fun hlt => ne_of_lt hlt) h)

/-- Inserting events one after the other gives the layout of all of them. -/
theorem layout_foldl (h : Layout s acc) (hheld : Increasing held)
    (hperm : held.Perm (evs ++ acc)) : Layout (evs.foldl DoInsert s) held := by
  induction evs generalizing s acc with
  | nil =>
    have heq : held = acc := hheld.eq_of_mem_iff h.increasing fun ev => hperm.mem_iff
    rwa [heq]
  | cons ev evs ih =>
    have hnodup : ((ev :: evs ++ acc).map Event.rank).Nodup :=
      (hperm.map Event.rank).nodup_iff.mp (Increasing.nodup_ranks hheld)
    have hnew : ∀ ev' ∈ acc, ev'.rank ≠ ev.rank := by
      intro ev' hev' heq
      rw [cons_append, map_cons, nodup_cons] at hnodup
      apply hnodup.1
      rw [← heq]
      exact mem_map_of_mem (mem_append_right evs hev')
    apply ih (h.doInsert hnew)
    calc
      held.Perm (ev :: evs ++ acc) := hperm
      List.Perm _ (evs ++ ev :: acc) := perm_middle.symm
      List.Perm _ (evs ++ insertEvent ev acc) := (insertEvent_perm ev acc).symm.append_left evs

/-- The buckets together have the events that are held. -/
theorem Layout.flatten_perm (h : Layout s held) : s.buckets.toList.flatten.Perm held := by
  have hget : ∀ i (hi : i < s.buckets.toList.length), s.buckets.toList[i] =
      held.filter fun ev => s.Hash ev.key.ts == i := by
    intro i hi
    rw [Array.length_toList] at hi
    rw [Array.getElem_toList, ← getElem!_pos s.buckets i hi]
    rw [h.size] at hi
    exact h.bucket i hi
  have hmem : ∀ bucket ∈ s.buckets.toList, ∃ i,
      bucket = held.filter fun ev => s.Hash ev.key.ts == i := by
    intro bucket hbucket
    obtain ⟨i, hi, rfl⟩ := getElem_of_mem hbucket
    exact ⟨i, hget i hi⟩
  have hnodup : s.buckets.toList.flatten.Nodup := by
    apply nodup_flatten.mpr
    constructor
    · intro bucket hbucket
      obtain ⟨i, rfl⟩ := hmem bucket hbucket
      exact h.increasing.nodup.filter _
    · rw [pairwise_iff_getElem]
      intro i j hi hj hij
      rw [hget i hi, hget j hj]
      intro ev hevi hevj
      have hhashi := beq_iff_eq.mp (mem_filter.mp hevi).2
      have hhashj := beq_iff_eq.mp (mem_filter.mp hevj).2
      omega
  apply (perm_ext_iff_of_nodup hnodup h.increasing.nodup).mpr
  intro ev
  rw [mem_flatten]
  constructor
  · rintro ⟨bucket, hbucket, hev⟩
    obtain ⟨i, rfl⟩ := hmem bucket hbucket
    exact mem_of_mem_filter hev
  · intro hev
    have hlt : s.Hash ev.key.ts < s.buckets.toList.length := by
      rw [Array.length_toList, h.size]
      exact h.hash_lt _
    refine ⟨s.buckets.toList[s.Hash ev.key.ts], getElem_mem hlt, ?_⟩
    rw [hget _ hlt]
    exact mem_filter.mpr ⟨hev, beq_self_eq_true _⟩

end Fold

/-! ### Resizing -/

/-- The new width, from the first events held. -/
def widthFor (held : List Event) : UInt64 :=
  if held.length < 2 then 1
  else newWidth ((held.take (numSamples held.length)).map fun ev => ev.key.ts)

/-- The days of the samples, of the old width, and the day to start from, of the new one, end
within 64 bits. -/
def ResizeFits (s : CalendarScheduler) (held : List Event) (last : UInt64) : Prop :=
  (2 ≤ held.length →
    ∀ ev ∈ held.take (numSamples held.length), dayEnd s.width ev.key.ts < 2 ^ 64) ∧
    dayEnd (widthFor held) last < 2 ^ 64

section Resize

variable {s : CalendarScheduler} {held : List Event} {last : UInt64}

/-- What is kept by the functions that take no part in the counting. -/
structure SameShape (s s' : CalendarScheduler) : Prop where
  width : s'.width = s.width
  nBuckets : s'.nBuckets = s.nBuckets
  qSize : s'.qSize = s.qSize

/-- The new width is not 0. -/
theorem newWidth_pos (samples : List UInt64) : 0 < (newWidth samples).toNat := by
  have hmax : ∀ width : UInt64, 0 < (max width 1).toNat := by
    intro width
    show 0 < (if width ≤ 1 then 1 else width).toNat
    split_ifs with hle
    · decide
    · rw [UInt64.le_iff_toNat_le] at hle
      have hone : (1 : UInt64).toNat = 1 := rfl
      omega
  exact hmax _

theorem widthFor_pos (held : List Event) : 0 < (widthFor held).toNat := by
  unfold widthFor
  split_ifs
  · decide
  · exact newWidth_pos _

theorem numSamples_le (n : ℕ) : numSamples n ≤ n := by
  unfold numSamples
  split_ifs <;> omega

theorem two_le_numSamples (h : 2 ≤ n) : 2 ≤ numSamples n := by
  unfold numSamples
  split_ifs <;> omega

theorem isEmpty_eq_false (hq : s.qSize.toNat = n) (hn : 0 < n) : s.IsEmpty = false := by
  apply beq_eq_false_iff_ne.mpr
  rintro hzero
  rw [hzero] at hq
  have : (0 : UInt32).toNat = 0 := rfl
  omega

/-- The samples are the first events, taken out. -/
theorem gather_spec (h : Layout s held) (hc : Cursor s held last) (hempty : s.IsEmpty = false)
    (hn : n ≤ held.length) (hfit : ∀ ev ∈ held.take n, dayEnd s.width ev.key.ts < 2 ^ 64) :
    ∃ s', gather n s = .ok (s', held.take n) ∧ Layout s' (held.drop n) ∧
      s'.wrapped = false ∧ SameShape s s' := by
  induction n generalizing s held last with
  | zero => exact ⟨s, rfl, h, hc.wrapped, rfl, rfl, rfl⟩
  | succ n ih =>
    match held with
    | [] => exact absurd hn (by simp)
    | first :: held =>
      obtain ⟨hfirst, hrest⟩ := forall_mem_cons.mp hfit
      obtain ⟨s₁, hnext, h₁, hc₁, hw, hb, hq⟩ := doRemoveNext_spec h hc rfl hempty hfirst
      have hempty₁ : s₁.IsEmpty = false := by
        rw [IsEmpty, hq]
        exact hempty
      obtain ⟨s₂, hgather, h₂, hwrapped, hshape⟩ := ih h₁ hc₁ hempty₁ (Nat.le_of_succ_le_succ hn)
        (by rwa [hw])
      refine ⟨s₂, ?_, h₂, hwrapped, hshape.width.trans hw, hshape.nBuckets.trans hb,
        hshape.qSize.trans hq⟩
      rw [gather, hnext]
      show (gather n s₁ >>= fun r => _) = _
      rw [hgather]
      rfl

/-- `CalculateNewWidth` leaves the events as they were. -/
theorem calculateNewWidth_spec (h : Layout s held) (hc : Cursor s held last)
    (hq : s.qSize.toNat = held.length)
    (hfit : 2 ≤ held.length →
      ∀ ev ∈ held.take (numSamples held.length), dayEnd s.width ev.key.ts < 2 ^ 64) :
    ∃ s', s.CalculateNewWidth = .ok (s', widthFor held) ∧ Layout s' held ∧ Cursor s' held last ∧
      SameShape s s' := by
  have htwo : (2 : UInt32).toNat = 2 := rfl
  unfold CalculateNewWidth widthFor
  by_cases hlen : held.length < 2
  · rw [if_pos (lt_iff_toNat_lt.mpr (by omega)), if_pos hlen]
    exact ⟨s, rfl, h, hc, rfl, rfl, rfl⟩
  · rw [if_neg (fun hlt => hlen (by have := lt_iff_toNat_lt.mp hlt; omega)), if_neg hlen, hq]
    obtain ⟨s', hgather, h', hwrapped, hshape⟩ := gather_spec h hc
      (isEmpty_eq_false hq (by omega)) (numSamples_le _) (hfit (by omega))
    have hback : Layout ((held.take (numSamples held.length)).foldl DoInsert s') held := by
      apply layout_foldl h' h.increasing
      rw [take_append_drop]
    rw [foldl_doInsert_eq] at hback
    have hsamples : ¬ (held.take (numSamples held.length)).length - 1 = 0 := by
      have htwo := two_le_numSamples (Nat.le_of_not_lt hlen)
      rw [length_take, Nat.min_eq_left (numSamples_le _)]
      omega
    rw [hgather]
    dsimp only [bind, Except.bind]
    rw [foldl_doInsert_eq, if_neg hsamples]
    refine ⟨_, rfl, hback.congr rfl rfl rfl, ⟨hc.lastPrio, hc.due, ?_, ?_, hwrapped⟩,
      hshape.width, hshape.nBuckets, hshape.qSize⟩
    · show s.lastBucket = (last / s'.width).toNat % s'.nBuckets
      rw [hshape.width, hshape.nBuckets]
      exact hc.lastBucket
    · show s.bucketTop.toNat = dayEnd s'.width last
      rw [hshape.width]
      exact hc.bucketTop

/-- `DoResize` gives the same events another layout. -/
theorem doResize_spec (h : Layout s held) (hc : Cursor s held last) (hsize : 0 < newSize)
    (hw : 0 < width.toNat) (hfit : dayEnd width last < 2 ^ 64) :
    Layout (s.DoResize newSize width) held ∧ Cursor (s.DoResize newSize width) held last ∧
      (s.DoResize newSize width).nBuckets = newSize ∧
      (s.DoResize newSize width).qSize = s.qSize := by
  have hempty : Layout (s.Init newSize width s.lastPrio) [] := by
    refine ⟨Array.size_replicate, hsize, hw, List.Pairwise.nil, ?_⟩
    intro i hi
    show (Array.replicate newSize [])[i]! = []
    rw [getElem!_pos (Array.replicate newSize []) i (by rwa [Array.size_replicate])]
    exact Array.getElem_replicate _
  have hall : Layout (s.DoResize newSize width) held := by
    apply layout_foldl hempty h.increasing
    rw [append_nil]
    exact h.flatten_perm.symm
  refine ⟨hall, ?_, ?_, ?_⟩
  · -- the cursor is the one of `Init`
    unfold DoResize
    rw [foldl_doInsert_eq, hc.lastPrio]
    refine ⟨rfl, hc.due, rfl, toNat_dayEnd hw hfit, ?_⟩
    show (s.wrapped || decide _) = false
    rw [hc.wrapped, Bool.false_or, decide_eq_false_iff_not]
    omega
  · unfold DoResize
    rw [foldl_doInsert_eq]
    rfl
  · unfold DoResize
    rw [foldl_doInsert_eq]
    rfl

end Resize

/-! ### Calls -/

/-- The scheduler holds the events. -/
structure Holds (s : CalendarScheduler) (t : Calendar) : Prop where
  layout : Layout s t.held
  cursor : Cursor s t.held t.last
  qSize : s.qSize.toNat = t.held.length
  nBuckets_lt : s.nBuckets < 2 ^ 16

/-- Whether an insertion that leaves a number of events makes the calendar larger. -/
def Grows (s : CalendarScheduler) (length : ℕ) : Prop :=
  s.nBuckets * 2 < length ∧ s.nBuckets < 32768

/-- Whether a removal that leaves a number of events makes the calendar smaller. -/
def Shrinks (s : CalendarScheduler) (length : ℕ) : Prop := length < s.nBuckets / 2

/-- The time stamps at hand are so far from the end of the range that no bucket top of the
call wraps, the number of events fits, and a removal finds its event. -/
def InReach (s : CalendarScheduler) (t : Calendar) : SchedulerCall → Prop
  | .insert ev =>
    t.held.length + 1 < 2 ^ 32 ∧
      (Grows s (t.held.length + 1) → ResizeFits s (insertEvent ev t.held) t.last)
  | .peekNext => ∀ first ∈ t.held.head?, first.rank < peekSentinel.rank ∧
      (min (day s.width first.key.ts) (day s.width t.last + s.nBuckets) + 1) * s.width.toNat <
        2 ^ 64
  | .removeNext => ∀ first ∈ t.held.head?, dayEnd s.width first.key.ts < 2 ^ 64 ∧
      (Shrinks s t.held.tail.length → ResizeFits s t.held.tail first.key.ts)
  | .remove ev =>
    (s.buckets[s.Hash ev.key.ts]!.find? fun ev' => ev'.key.uid == ev.key.uid) = some ev ∧
      (Shrinks s (t.held.erase ev).length → ResizeFits s (t.held.erase ev) t.last)

instance (t : Calendar) (call : SchedulerCall) : Decidable (calendar.Allowed t call) :=
  match call with
  | .insert ev => inferInstanceAs (Decidable (sortedList.Allowed _ _ ∧ t.last ≤ ev.key.ts))
  | .peekNext | .removeNext | .remove _ => inferInstanceAs (Decidable (_ ∧ True))

instance (s : CalendarScheduler) (held : List Event) (last : UInt64) :
    Decidable (ResizeFits s held last) :=
  inferInstanceAs (Decidable ((_ → ∀ _ ∈ held.take _, _) ∧ _))

instance (s : CalendarScheduler) (t : Calendar) (call : SchedulerCall) :
    Decidable (InReach s t call) :=
  match call with
  | .insert _ => inferInstanceAs (Decidable (_ ∧ (_ ∧ _ → ResizeFits _ _ _)))
  | .peekNext => inferInstanceAs (Decidable (∀ first ∈ t.held.head?, _ ∧ _))
  | .removeNext =>
    inferInstanceAs (Decidable (∀ first ∈ t.held.head?, _ ∧ (_ < _ → ResizeFits _ _ _)))
  | .remove _ => inferInstanceAs (Decidable (_ ∧ (_ < _ → ResizeFits _ _ _)))

section Calls

variable {s : CalendarScheduler} {t : Calendar}

/-- `Resize` keeps what is held. -/
theorem Holds.resize (h : Holds s t) (hpos : 0 < newSize) (hlt : newSize < 2 ^ 16)
    (hfit : ResizeFits s t.held t.last) : ∃ s', s.Resize newSize = .ok s' ∧ Holds s' t := by
  obtain ⟨s', hok, hlayout, hcursor, hshape⟩ :=
    calculateNewWidth_spec h.layout h.cursor h.qSize hfit.1
  obtain ⟨hlayout', hcursor', hn, hq⟩ :=
    doResize_spec hlayout hcursor hpos (widthFor_pos t.held) hfit.2
  refine ⟨s'.DoResize newSize (widthFor t.held), ?_, hlayout', hcursor', ?_, ?_⟩
  · have hwidth : widthFor t.held ≠ 0 := by
      intro hzero
      have hpos := widthFor_pos t.held
      rw [hzero] at hpos
      exact absurd hpos (lt_irrefl _)
    rw [Resize, hok]
    dsimp only [bind, Except.bind]
    rw [if_neg (not_or.mpr ⟨Nat.ne_of_gt hpos, hwidth⟩)]
    rfl
  · rw [hq, hshape.qSize]
    exact h.qSize
  · rw [hn]
    exact hlt

theorem Holds.resizeUp (h : Holds s t) (hfit : Grows s t.held.length →
    ResizeFits s t.held t.last) : ∃ s', s.ResizeUp = .ok s' ∧ Holds s' t := by
  have hpos := h.layout.nBuckets_pos
  unfold ResizeUp
  rw [h.qSize]
  split_ifs with hgrows
  · exact h.resize (by omega) (by omega) (hfit hgrows)
  · exact ⟨s, rfl, h⟩

theorem Holds.resizeDown (h : Holds s t) (hfit : Shrinks s t.held.length →
    ResizeFits s t.held t.last) : ∃ s', s.ResizeDown = .ok s' ∧ Holds s' t := by
  have hlt := h.nBuckets_lt
  unfold ResizeDown
  rw [h.qSize]
  split_ifs with hshrinks
  · exact h.resize (by omega) (by omega) (hfit hshrinks)
  · exact ⟨s, rfl, h⟩

theorem ResizeFits.congr {held : List Event} {last : UInt64} (h : ResizeFits s held last)
    (hw : s'.width = s.width) : ResizeFits s' held last := by
  rw [ResizeFits, hw]
  exact h

/-- **`Insert`** -/
theorem Holds.insert (h : Holds s t) (hnew : ∀ ev' ∈ t.held, ev'.rank ≠ ev.rank)
    (hlast : t.last ≤ ev.key.ts) (hreach : InReach s t (.insert ev)) :
    ∃ s', s.Insert ev = .ok s' ∧ Holds s' ⟨insertEvent ev t.held, t.last⟩ := by
  have hlen : (insertEvent ev t.held).length = t.held.length + 1 :=
    (insertEvent_perm ev t.held).length_eq
  have hdue : ∀ ev' ∈ insertEvent ev t.held, t.last.toNat ≤ ev'.key.ts.toNat := by
    intro ev' hev'
    rcases mem_cons.mp ((insertEvent_perm ev t.held).mem_iff.mp hev') with rfl | hev'
    · exact UInt64.le_iff_toNat_le.mp hlast
    · exact h.cursor.due ev' hev'
  apply Holds.resizeUp
  · refine ⟨(h.layout.doInsert hnew).congr rfl rfl rfl, ?_, ?_, h.nBuckets_lt⟩
    · exact ⟨h.cursor.lastPrio, hdue, h.cursor.lastBucket, h.cursor.bucketTop, h.cursor.wrapped⟩
    · show (s.qSize + 1).toNat = (insertEvent ev t.held).length
      rw [UInt32.toNat_add, h.qSize, hlen]
      exact Nat.mod_eq_of_lt hreach.1
  · intro hgrows
    rw [hlen] at hgrows
    exact (hreach.2 hgrows).congr rfl

/-- What is held by one event less: the count goes down by one. -/
theorem qSize_pred {qSize : UInt32} (h : qSize.toNat = n + 1) : (qSize - 1).toNat = n := by
  rw [UInt32.toNat_sub_of_le _ _ (by rw [le_iff_toNat_le]; show 1 ≤ _; omega), h]
  rfl

/-- **`RemoveNext`** -/
theorem Holds.removeNext (h : Holds s t) (hfirst : t.held.head? = some first)
    (hreach : InReach s t .removeNext) :
    ∃ s', s.RemoveNext = .ok (s', first) ∧ Holds s' ⟨t.held.tail, first.key.ts⟩ := by
  obtain ⟨hfit, hshrinks⟩ := hreach first hfirst
  have hlen : t.held.length = t.held.tail.length + 1 := by
    match t.held, hfirst with
    | _ :: _, _ => rfl
  have hempty : s.IsEmpty = false := isEmpty_eq_false h.qSize (by omega)
  obtain ⟨s₁, hok, hlayout, hcursor, hw, hn, hq⟩ :=
    doRemoveNext_spec h.layout h.cursor hfirst hempty hfit
  have hholds : Holds { s₁ with qSize := s₁.qSize - 1 } ⟨t.held.tail, first.key.ts⟩ := by
    refine ⟨hlayout.congr rfl rfl rfl, ?_, ?_, ?_⟩
    · exact ⟨hcursor.lastPrio, hcursor.due, hcursor.lastBucket, hcursor.bucketTop, hcursor.wrapped⟩
    · show (s₁.qSize - 1).toNat = t.held.tail.length
      rw [hq]
      exact qSize_pred (h.qSize.trans hlen)
    · show s₁.nBuckets < 2 ^ 16
      rw [hn]
      exact h.nBuckets_lt
  obtain ⟨s', hresize, hholds'⟩ := hholds.resizeDown (by
    intro hs
    refine (hshrinks ?_).congr hw
    rw [Shrinks, ← hn]
    exact hs)
  refine ⟨s', ?_, hholds'⟩
  rw [RemoveNext, hok]
  dsimp only [bind, Except.bind]
  rw [hresize]
  rfl

/-- **`Remove`** -/
theorem Holds.remove (h : Holds s t) (hmem : ev ∈ t.held) (hreach : InReach s t (.remove ev)) :
    ∃ s', s.Remove ev = .ok s' ∧ Holds s' ⟨t.held.erase ev, t.last⟩ := by
  obtain ⟨hfind, hshrinks⟩ := hreach
  have hlen : t.held.length = (t.held.erase ev).length + 1 :=
    (length_erase_add_one hmem).symm
  have hempty : s.IsEmpty = false := isEmpty_eq_false h.qSize (by omega)
  unfold Remove
  dsimp only
  rw [if_neg (by rw [hempty]; exact Bool.false_ne_true), hfind]
  dsimp only
  rw [if_pos rfl]
  apply Holds.resizeDown
  · refine ⟨(h.layout.erase ev).congr rfl rfl rfl, ?_, qSize_pred (h.qSize.trans hlen),
      h.nBuckets_lt⟩
    exact ⟨h.cursor.lastPrio, fun ev' hev' => h.cursor.due ev' (mem_of_mem_erase hev'),
      h.cursor.lastBucket, h.cursor.bucketTop, h.cursor.wrapped⟩
  · intro hs
    exact (hshrinks hs).congr rfl

/-- **One call** does what a scheduler is to do. -/
theorem Holds.step (h : Holds s t) {call : SchedulerCall} (hallowed : calendar.Allowed t call)
    (hreach : InReach s t call) : Refinement.StepRefines step calendar Holds s t call := by
  cases call with
  | insert ev =>
    obtain ⟨s', hok, hholds⟩ := h.insert hallowed.1 hallowed.2 hreach
    refine ⟨s', ?_, hholds⟩
    show (s.Insert ev).map _ = _
    rw [hok]
    rfl
  | peekNext =>
    obtain ⟨first, hfirst⟩ := Option.isSome_iff_exists.mp (isSome_head?.mpr hallowed.1)
    obtain ⟨hbefore, hfit⟩ := hreach first hfirst
    have hempty : s.IsEmpty = false :=
      isEmpty_eq_false h.qSize (length_pos_of_mem (mem_of_mem_head? hfirst))
    refine ⟨s, ?_, h⟩
    show s.PeekNext.map _ = .ok (s, t.held.head?)
    rw [peekNext_spec h.layout h.cursor hfirst hempty hbefore hfit, hfirst]
    rfl
  | removeNext =>
    obtain ⟨first, hfirst⟩ := Option.isSome_iff_exists.mp (isSome_head?.mpr hallowed.1)
    obtain ⟨s', hok, hholds⟩ := h.removeNext hfirst hreach
    refine ⟨s', ?_, ?_⟩
    · show s.RemoveNext.map _ = .ok (s', t.held.head?)
      rw [hok, hfirst]
      rfl
    · match t, hfirst with
      | ⟨_ :: _, _⟩, rfl => exact hholds
  | remove ev =>
    obtain ⟨s', hok, hholds⟩ := h.remove hallowed.1 hreach
    refine ⟨s', ?_, hholds⟩
    show (s.Remove ev).map _ = _
    rw [hok]
    rfl

theorem holds_create : Holds create ⟨[], 0⟩ := by
  refine ⟨⟨rfl, by decide, by decide, List.Pairwise.nil, ?_⟩,
    ⟨rfl, fun ev hev => absurd hev not_mem_nil, rfl, rfl, rfl⟩, rfl, by decide⟩
  intro i hi
  show (Array.replicate 2 [])[i]! = []
  rw [getElem!_pos (Array.replicate 2 []) i hi]
  exact Array.getElem_replicate _

end Calls

/-! ### Runs -/

/-- **The calendar works as a sorted list**, and no bucket top wraps, in every run that keeps
from the end of the range and whose removals find their event. -/
theorem calendarScheduler_refines (calls : List SchedulerCall)
    (h : Refinement.Before step calendar InReach create ⟨[], 0⟩ calls) :
    Refinement.Refines step calendar Holds create ⟨[], 0⟩ calls :=
  Refinement.refines_of_before (fun _ _ _ hholds hallowed hreach => hholds.step hallowed hreach)
    holds_create h

/-- An event with a time stamp and a uid. -/
def exampleEvent (ts : UInt64) (uid : UInt32) : Event := ⟨uid.toNat, ⟨ts, uid, 0⟩⟩

/-- The fifth insertion makes the calendar larger, and event 9000 is more than a round away. -/
def exampleCalls : List SchedulerCall :=
  [.insert (exampleEvent 70 4), .insert (exampleEvent 30 5), .insert (exampleEvent 30 6),
    .insert (exampleEvent 9000 7), .insert (exampleEvent 45 8), .peekNext, .removeNext, .removeNext,
    .remove (exampleEvent 70 4), .removeNext, .peekNext, .removeNext]

theorem refines_exampleCalls : Refinement.Refines step calendar Holds create ⟨[], 0⟩ exampleCalls :=
  calendarScheduler_refines exampleCalls (by decide +kernel)

/-- **The largest time stamp** is not before the sentinel, and its day ends past the largest
number: `DoRemoveNext` takes the event from bucket `-1`. -/
theorem not_refines_lastTimeStamp :
    ¬ ∀ calls, Refinement.Refines step calendar Holds create ⟨[], 0⟩ calls := by
  intro h
  have hall : calendar.AllAllowed ⟨[], 0⟩
      [.insert (exampleEvent (2 ^ 64 - 1) 4), .removeNext] := by decide +kernel
  have hanswers := (h _).answers hall
  revert hanswers
  decide +kernel

end Ns3Joined.Core.CalendarScheduler
