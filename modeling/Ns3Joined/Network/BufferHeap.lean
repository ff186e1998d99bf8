import Ns3Joined.Network.Buffer

/-!
# Who shares a block

`Holds m held l` says that the buffers of `l` hold the bytes written beside them, and what keeps
it so: a block counts its buffers, all of them lie within its dirty area, and a buffer that ends
where the dirty area ends has its last byte behind the last bytes of the others (`tails`). The
last is what makes growth at the end safe: the dirty area ends at a virtual offset, and the
buffers may have zero areas of different sizes.

`held` are blocks that a function has a reference to before a buffer has. Each step of the
functions has one lemma here.
-/

namespace Ns3Joined.Network.Buffer

open List Function

/-! ### Offsets -/

/-- A sum that fits is computed without wrap-around. -/
theorem toNat_add {a b : UInt32} (h : a.toNat + b.toNat < 2 ^ 32) :
    (a + b).toNat = a.toNat + b.toNat :=
  BitVec.toNat_add_of_lt h

/-- A difference that is not negative is computed without wrap-around. -/
theorem toNat_sub {a b : UInt32} (h : b.toNat ≤ a.toNat) : (a - b).toNat = a.toNat - b.toNat :=
  UInt32.toNat_sub_of_le _ _ (UInt32.le_iff_toNat_le.mpr h)

/-- The offsets of a buffer in their order. -/
structure Shape (b : Handle) : Prop where
  start_le : b.m_start.toNat ≤ b.m_zeroAreaStart.toNat
  zero_le : b.m_zeroAreaStart.toNat ≤ b.m_zeroAreaEnd.toNat
  le_end : b.m_zeroAreaEnd.toNat ≤ b.m_end.toNat

/-- Where the bytes of the buffer end in the block. -/
def internalEnd (b : Handle) : ℕ :=
  b.m_zeroAreaStart.toNat + (b.m_end.toNat - b.m_zeroAreaEnd.toNat)

/-- The bytes of the buffer. -/
def content (area : ℕ → UInt8) (b : Handle) : List UInt8 :=
  Area.read area b.m_start.toNat (b.m_zeroAreaStart.toNat - b.m_start.toNat) ++
    List.replicate (b.m_zeroAreaEnd.toNat - b.m_zeroAreaStart.toNat) 0 ++
    Area.read area b.m_zeroAreaStart.toNat (b.m_end.toNat - b.m_zeroAreaEnd.toNat)

/-- The buffer lies within the block and its dirty area. -/
structure Within (d : Data) (b : Handle) : Prop extends Shape b where
  dirtyStart_le : d.m_dirtyStart.toNat ≤ b.m_start.toNat
  le_dirtyEnd : b.m_end.toNat ≤ d.m_dirtyEnd.toNat
  internalEnd_le : internalEnd b ≤ d.m_size.toNat

variable {b : Handle}

/-- A handle stays within data that grew. -/
theorem Within.mono {d d' : Data} (h : Within d b)
    (hstart : d'.m_dirtyStart.toNat ≤ d.m_dirtyStart.toNat)
    (hend : d.m_dirtyEnd.toNat ≤ d'.m_dirtyEnd.toNat) (hsize : d'.m_size = d.m_size) :
    Within d' b where
  toShape := h.toShape
  dirtyStart_le := hstart.trans h.dirtyStart_le
  le_dirtyEnd := h.le_dirtyEnd.trans hend
  internalEnd_le := hsize ▸ h.internalEnd_le

/-- The mark of the largest zero area does not matter. -/
theorem Within.setMax {d : Data} (h : Within d b) (w : UInt32) :
    Within d { b with m_maxZeroAreaStart := w } :=
  ⟨⟨h.start_le, h.zero_le, h.le_end⟩, h.dirtyStart_le, h.le_dirtyEnd, h.internalEnd_le⟩

section Offsets

variable {area area' : ℕ → UInt8}

/-- The bytes of a buffer are as many as its offsets say. -/
theorem length_content (area : ℕ → UInt8) (h : Shape b) :
    (content area b).length = b.m_end.toNat - b.m_start.toNat := by
  obtain ⟨hstart, hzero, hend⟩ := h
  unfold content
  rw [length_append, length_append, length_replicate, Area.length_read,
    Area.length_read]
  omega

/-- `GetSize` is the difference of the offsets. -/
theorem toNat_getSize (h : Shape b) : (GetSize b).toNat = b.m_end.toNat - b.m_start.toNat := by
  obtain ⟨hstart, hzero, hend⟩ := h
  exact toNat_sub (by omega)

/-- The internal size leaves the zeros out. -/
theorem toNat_getInternalSize (h : Shape b) :
    (GetInternalSize b).toNat = internalEnd b - b.m_start.toNat := by
  obtain ⟨hstart, hzero, hend⟩ := h
  have hlt := b.m_end.toNat_lt
  have hsub := toNat_sub hstart
  unfold GetInternalSize internalEnd
  rw [UInt32.toNat_sub, UInt32.toNat_add, hsub]
  omega

/-- The internal end leaves the zeros out. -/
theorem toNat_getInternalEnd (h : Shape b) : (GetInternalEnd b).toNat = internalEnd b := by
  obtain ⟨hstart, hzero, hend⟩ := h
  have hsub := toNat_sub hzero
  unfold GetInternalEnd internalEnd
  rw [toNat_sub (by omega), hsub]
  omega

/-- The bytes depend on the internal part of the area only. -/
theorem content_congr (h : Shape b)
    (hsame : ∀ k, b.m_start.toNat ≤ k → k < internalEnd b → area k = area' k) :
    content area b = content area' b := by
  obtain ⟨hstart, hzero, hend⟩ := h
  unfold internalEnd at hsame
  have hfirst : Area.read area b.m_start.toNat (b.m_zeroAreaStart.toNat - b.m_start.toNat) =
      Area.read area' b.m_start.toNat (b.m_zeroAreaStart.toNat - b.m_start.toNat) :=
    Area.read_congr fun k hle hlt => hsame k hle (by omega)
  have hlast : Area.read area b.m_zeroAreaStart.toNat (b.m_end.toNat - b.m_zeroAreaEnd.toNat) =
      Area.read area' b.m_zeroAreaStart.toNat (b.m_end.toNat - b.m_zeroAreaEnd.toNat) :=
    Area.read_congr fun k hle hlt => hsame k (by omega) hlt
  unfold content
  rw [hfirst, hlast]

end Offsets

/-! ### Blocks and the buffers that share them -/

/-- A buffer and its bytes. -/
abbrev Entry := Handle × List UInt8

/-- How many buffers refer to the block. -/
def refs (l : List Entry) (address : ℕ) : ℕ := l.countP fun x => x.1.m_data = address

/-- The buffers hold the bytes beside them. -/
structure Holds (m : Heap) (held : List ℕ) (l : List Entry) : Prop where
  entry : ∀ x ∈ l, ∃ d, m.data x.1.m_data = some d ∧ Within d x.1 ∧ content d.m_data x.1 = x.2
  counted : ∀ a d, m.data a = some d → d.m_count.toNat = held.count a + refs l a
  tails : ∀ x ∈ l, ∀ y ∈ l, y.1.m_data = x.1.m_data → ∀ d, m.data x.1.m_data = some d →
    x.1.m_end = d.m_dirtyEnd → internalEnd y.1 ≤ internalEnd x.1
  free : ∀ a ∈ m.g_freeList, ∃ d, m.data a = some d ∧ d.m_count = 0
  nodup : m.g_freeList.Nodup
  fresh : ∀ a d, m.data a = some d → a < m.fresh

section Heaps

variable {m : Heap} {held : List ℕ} {l l' : List Entry} {a a' : ℕ} {d d' : Data} {x : Entry}
  {b' : Handle} {bytes bytes' : List UInt8}

@[simp]
theorem set_data_self : (m.set a d).data a = some d := update_self ..

theorem set_data_of_ne (h : a' ≠ a) : (m.set a d).data a' = m.data a' := update_of_ne h ..

/-- The references to data, with one more buffer. -/
theorem refs_cons : refs (x :: l) a = refs l a + if x.1.m_data = a then 1 else 0 := by
  unfold refs
  rw [countP_cons]
  simp

/-- No reference to data if and only if no buffer points to it. -/
theorem refs_eq_zero : refs l a = 0 ↔ ∀ x ∈ l, x.1.m_data ≠ a := by
  unfold refs
  rw [countP_eq_zero]
  simp

/-- What is known of a buffer that points to given data. -/
theorem Holds.entry_of (h : Holds m held l) (hx : x ∈ l) (ha : x.1.m_data = a)
    (hd : m.data a = some d) : Within d x.1 ∧ content d.m_data x.1 = x.2 := by
  obtain ⟨d₁, hd₁, hrest⟩ := h.entry x hx
  rw [ha, hd] at hd₁
  cases hd₁
  exact hrest

/-- The order of the buffers does not matter. -/
theorem Holds.perm (h : Holds m held l) (hperm : l.Perm l') : Holds m held l' where
  entry x hx := h.entry x (hperm.mem_iff.mpr hx)
  counted a d hd := by
    rw [h.counted a d hd]
    unfold refs
    rw [hperm.countP_eq]
  tails x hx y hy := h.tails x (hperm.mem_iff.mpr hx) y (hperm.mem_iff.mpr hy)
  __ := h

/-- The other variables of the class do not matter. -/
theorem Holds.of_data {m' : Heap} (h : Holds m held l) (hdata : m'.data = m.data)
    (hfree : m'.g_freeList.Sublist m.g_freeList) (hfresh : m.fresh ≤ m'.fresh) :
    Holds m' held l where
  entry := by
    rw [hdata]
    exact h.entry
  counted := by
    rw [hdata]
    exact h.counted
  tails := by
    rw [hdata]
    exact h.tails
  free := by
    rw [hdata]
    exact fun a ha => h.free a (hfree.subset ha)
  nodup := h.nodup.sublist hfree
  fresh := by
    rw [hdata]
    exact fun a d hd => (h.fresh a d hd).trans_le hfresh

/-- Data in use is not on the free list. -/
theorem Holds.not_free (h : Holds m held l) (hused : 0 < held.count a + refs l a) :
    a ∉ m.g_freeList := by
  intro hfree
  obtain ⟨d, hd, hzero⟩ := h.free a hfree
  have hcount := h.counted a d hd
  rw [hzero] at hcount
  have hzero' : (0 : UInt32).toNat = 0 := rfl
  omega

/-- The data of a buffer is not on the free list. -/
theorem Holds.head_not_free (h : Holds m held ((b, bytes) :: l)) : b.m_data ∉ m.g_freeList := by
  apply h.not_free
  rw [refs_cons, if_pos rfl]
  omega

/-- Data that is held is not on the free list. -/
theorem Holds.held_not_free (h : Holds m (a :: held) l) : a ∉ m.g_freeList := by
  apply h.not_free
  rw [count_cons_self]
  omega

/-- Setting data to what it is changes nothing. -/
theorem set_self (hd : m.data a = some d) : m.set a d = m := by
  unfold Heap.set
  rw [← hd, update_eq_self]

/-- A pointer with data behind it can be read. -/
theorem deref_of_data (hd : m.data a = some d) : deref m a = .ok d := by
  unfold deref
  rw [hd]

/-- The reference count counts the references. -/
theorem Holds.count_head (h : Holds m held ((b, bytes) :: l)) (hd : m.data b.m_data = some d) :
    d.m_count.toNat = held.count b.m_data + refs l b.m_data + 1 := by
  have hcount := h.counted _ d hd
  rw [refs_cons, if_pos rfl] at hcount
  exact hcount

/-- Data that nothing refers to may be deallocated. -/
theorem Holds.deallocate (h : Holds m held l) (hzero : held.count a + refs l a = 0)
    (hfree : a ∉ m.g_freeList) : Holds (Deallocate m a) held l where
  entry x hx := by
    obtain ⟨d, hd, hrest⟩ := h.entry x hx
    have hne : x.1.m_data ≠ a := refs_eq_zero.mp (by omega) x hx
    exact ⟨d, (update_of_ne hne ..).trans hd, hrest⟩
  counted a' d hd := by
    by_cases ha : a' = a
    · subst ha
      have hnone : (Deallocate m a').data a' = none := update_self ..
      rw [hnone] at hd
      cases hd
    · exact h.counted a' d ((update_of_ne ha ..).symm.trans hd)
  tails x hx y hy hsame d hd := by
    have hne : x.1.m_data ≠ a := refs_eq_zero.mp (by omega) x hx
    exact h.tails x hx y hy hsame d ((update_of_ne hne ..).symm.trans hd)
  free a' ha' := by
    obtain ⟨d, hd, hcount⟩ := h.free a' ha'
    have hne : a' ≠ a := fun heq => hfree (heq ▸ ha')
    exact ⟨d, (update_of_ne hne ..).trans hd, hcount⟩
  nodup := h.nodup
  fresh a' d hd := by
    by_cases ha : a' = a
    · subst ha
      have hnone : (Deallocate m a').data a' = none := update_self ..
      rw [hnone] at hd
      cases hd
    · exact h.fresh a' d ((update_of_ne ha ..).symm.trans hd)

/-- **One block changes**, with the buffers that share it; the other blocks and their buffers
stay as they are. -/
theorem Holds.set {held' : List ℕ} (h : Holds m held l) (hfree : a ∉ m.g_freeList)
    (hfresh : a < m.fresh) (hothers : ∀ x ∈ l', x.1.m_data ≠ a → x ∈ l)
    (hcounts : ∀ a', a' ≠ a → held'.count a' + refs l' a' = held.count a' + refs l a')
    (hcounted : d.m_count.toNat = held'.count a + refs l' a)
    (hentry : ∀ x ∈ l', x.1.m_data = a → Within d x.1 ∧ content d.m_data x.1 = x.2)
    (htails : ∀ x ∈ l', ∀ y ∈ l', x.1.m_data = a → y.1.m_data = a → x.1.m_end = d.m_dirtyEnd →
      internalEnd y.1 ≤ internalEnd x.1) : Holds (m.set a d) held' l' where
  entry x hx := by
    by_cases ha : x.1.m_data = a
    · exact ⟨d, ha ▸ set_data_self, hentry x hx ha⟩
    · obtain ⟨d', hd', hrest⟩ := h.entry x (hothers x hx ha)
      exact ⟨d', (set_data_of_ne ha).trans hd', hrest⟩
  counted a' d' hd' := by
    by_cases ha : a' = a
    · subst ha
      rw [set_data_self] at hd'
      cases hd'
      exact hcounted
    · rw [set_data_of_ne ha] at hd'
      rw [h.counted a' d' hd', hcounts a' ha]
  tails x hx y hy hsame d' hd' := by
    by_cases ha : x.1.m_data = a
    · rw [ha, set_data_self] at hd'
      cases hd'
      exact htails x hx y hy ha (hsame.trans ha)
    · have hy' := hothers y hy fun heq => ha (hsame.symm.trans heq)
      rw [set_data_of_ne ha] at hd'
      exact h.tails x (hothers x hx ha) y hy' hsame d' hd'
  free a' ha' := by
    obtain ⟨d', hd', hzero⟩ := h.free a' ha'
    have hne : a' ≠ a := fun heq => hfree (heq ▸ ha')
    exact ⟨d', (set_data_of_ne hne).trans hd', hzero⟩
  nodup := h.nodup
  fresh a' d' hd' := by
    by_cases ha : a' = a
    · exact ha ▸ hfresh
    · rw [set_data_of_ne ha] at hd'
      exact h.fresh a' d' hd'

/-- A block without buffers is taken, with a count of one. -/
theorem Holds.acquire (h : Holds m held l) (hzero : held.count a + refs l a = 0)
    (hfree : a ∉ m.g_freeList) (hfresh : a < m.fresh) (hcount : d.m_count = 1) :
    Holds (m.set a d) (a :: held) l := by
  have hunshared : ∀ x ∈ l, x.1.m_data ≠ a := refs_eq_zero.mp (by omega)
  apply h.set hfree hfresh fun x hx _ => hx
  · intro a' ha'
    rw [count_cons_of_ne (Ne.symm ha')]
  · have hone : (1 : UInt32).toNat = 1 := rfl
    rw [count_cons_self, hcount, hone]
    omega
  · exact fun x hx ha => absurd ha (hunshared x hx)
  · exact fun x hx _ _ ha => absurd ha (hunshared x hx)

/-- What `Create` gives: a block that nobody shares, with room for the bytes that were asked
for, and the blocks in use as they were. -/
structure Created (m : Heap) (l : List Entry) (dataSize : UInt32) (m' : Heap) (a : ℕ) :
    Prop where
  holds : Holds m' [a] l
  block : ∃ d, m'.data a = some d ∧ dataSize ≤ d.m_size
  unshared : refs l a = 0
  same : ∀ a' d', m.data a' = some d' → d'.m_count ≠ 0 → m'.data a' = some d'

/-- Allocation gives fresh data of the size. -/
theorem allocate_created (dataSize : UInt32) (h : Holds m [] l) (hnil : m.g_freeList = [])
    (hfits : dataSize.toNat + 19 < 2 ^ 32) :
    ∃ m' a, Allocate m dataSize = .ok (m', a) ∧ Created m l dataSize m' a := by
  have hnone : m.data m.fresh = none := by
    cases hd : m.data m.fresh with
    | none => rfl
    | some d => exact absurd (h.fresh _ d hd) (Nat.lt_irrefl _)
  have hunshared : refs l m.fresh = 0 := by
    apply refs_eq_zero.mpr
    intro x hx heq
    obtain ⟨d, hd, -⟩ := h.entry x hx
    rw [heq, hnone] at hd
    cases hd
  have hfresh : Holds { m with fresh := m.fresh + 1 } [] l :=
    h.of_data rfl (List.Sublist.refl _) (Nat.le_succ _)
  -- the size that is allocated
  have hone : (1 : UInt32).toNat = 1 := rfl
  have hroom : (if dataSize = 0 then 1 else dataSize).toNat - 1 + sizeofData < 2 ^ 32 := by
    unfold sizeofData
    split_ifs
    · decide
    · omega
  refine ⟨_, _, if_pos hroom, hfresh.acquire ?_ ?_ (Nat.lt_succ_self _) rfl,
    ⟨_, set_data_self, ?_⟩, hunshared, ?_⟩
  · rw [count_nil, hunshared]
  · rw [hnil]
    exact not_mem_nil
  · dsimp only
    split_ifs with hreq
    · subst hreq
      decide
    · exact UInt32.le_refl _
  · intro a d hd _
    have hne : a ≠ m.fresh := by
      rintro rfl
      rw [hnone] at hd
      cases hd
    exact (update_of_ne hne ..).trans hd

/-- Creation from the free list gives fresh data of the size. -/
theorem createFrom_created (dataSize : UInt32) {freeList : List ℕ}
    (h : Holds { m with g_freeList := freeList } [] l) (hfits : dataSize.toNat + 19 < 2 ^ 32) :
    ∃ m' a, createFrom m dataSize freeList = .ok (m', a) ∧ Created m l dataSize m' a := by
  induction freeList generalizing m with
  | nil =>
    obtain ⟨m', a, hok, hcreated⟩ := allocate_created dataSize h rfl hfits
    exact ⟨m', a, hok, hcreated.holds, hcreated.block, hcreated.unshared, hcreated.same⟩
  | cons address freeList ih =>
    obtain ⟨d, hd, hcount⟩ := h.free address mem_cons_self
    have hzero : ([] : List ℕ).count address + refs l address = 0 := by
      rw [← h.counted address d hd, hcount]
      rfl
    have hrest : Holds { m with g_freeList := freeList } [] l :=
      h.of_data rfl (sublist_cons_self ..) le_rfl
    have hout : address ∉ freeList := (nodup_cons.mp h.nodup).1
    have hne : ∀ a' d', m.data a' = some d' → d'.m_count ≠ 0 → a' ≠ address := by
      rintro a' d' hd' hne rfl
      have hd : m.data a' = some d := hd
      rw [hd] at hd'
      cases hd'
      exact hne hcount
    unfold createFrom
    rw [deref_of_data (show m.data address = some d from hd)]
    by_cases hfits : dataSize ≤ d.m_size
    · -- the block is taken
      refine ⟨_, _, if_pos hfits, hrest.acquire hzero hout (h.fresh address d hd) rfl,
        ⟨_, set_data_self, hfits⟩, ?_, ?_⟩
      · simpa using hzero
      · intro a' d' hd' hcount'
        exact (set_data_of_ne (hne a' d' hd' hcount')).trans hd'
    · -- the block is freed
      obtain ⟨m', a, hok, hcreated⟩ := ih (m := Deallocate m address) (hrest.deallocate hzero hout)
      refine ⟨m', a, (if_neg hfits).trans hok, hcreated.holds, hcreated.block,
        hcreated.unshared, ?_⟩
      intro a' d' hd' hcount'
      have hd'' : (Deallocate m address).data a' = some d' :=
        (update_of_ne (hne a' d' hd' hcount') ..).trans hd'
      exact hcreated.same a' d' hd'' hcount'

/-- Creation gives fresh data of the size. -/
theorem create_created (dataSize : UInt32) (h : Holds m [] l)
    (hfits : dataSize.toNat + 19 < 2 ^ 32) :
    ∃ m' a, Create m dataSize = .ok (m', a) ∧ Created m l dataSize m' a :=
  createFrom_created dataSize h hfits

/-- Releasing a buffer drops its reference and leaves the other data. -/
theorem Holds.release (h : Holds m held ((b, bytes) :: l)) :
    ∃ m', release m b.m_data = .ok m' ∧ Holds m' held l ∧
      ∀ a, a ≠ b.m_data → m'.data a = m.data a := by
  obtain ⟨d, hd, -⟩ := h.entry _ mem_cons_self
  have hcount := h.count_head hd
  have hfree := h.head_not_free
  dsimp only at hd
  have hone : (1 : UInt32).toNat = 1 := rfl
  have hsub : (d.m_count - 1).toNat = held.count b.m_data + refs l b.m_data := by
    rw [toNat_sub (by omega)]
    omega
  have hset : Holds (m.set b.m_data { d with m_count := d.m_count - 1 }) held l := by
    apply h.set hfree (h.fresh _ d hd) fun x hx _ => mem_cons_of_mem _ hx
    · intro a ha
      rw [refs_cons, if_neg (Ne.symm ha), Nat.add_zero]
    · exact hsub
    · intro x hx ha
      have hrest := h.entry_of (mem_cons_of_mem _ hx) ha hd
      exact ⟨hrest.1.mono le_rfl le_rfl rfl, hrest.2⟩
    · intro x hx y hy ha ha' hend
      exact h.tails x (mem_cons_of_mem _ hx) y (mem_cons_of_mem _ hy)
        (ha'.trans ha.symm) d (ha ▸ hd) hend
  unfold Buffer.release
  rw [deref_of_data hd]
  by_cases hzero : d.m_count - 1 = 0
  · have hunused : held.count b.m_data + refs l b.m_data = 0 := by
      rw [← hsub, hzero]
      rfl
    refine ⟨_, congrArg Except.ok (if_pos hzero), ?_, ?_⟩
    · unfold Recycle
      dsimp only
      split_ifs
      · exact (hset.deallocate hunused hfree).of_data rfl (List.Sublist.refl _) le_rfl
      · exact
          { entry := hset.entry
            __ := hset
            free := forall_mem_cons.mpr ⟨⟨_, set_data_self, hzero⟩, hset.free⟩
            nodup := nodup_cons.mpr ⟨hfree, hset.nodup⟩
            fresh := hset.fresh }
    · intro a ha
      unfold Recycle
      dsimp only
      split_ifs
      · exact (update_of_ne ha ..).trans (set_data_of_ne ha)
      · exact set_data_of_ne ha
  · exact ⟨_, congrArg Except.ok (if_neg hzero), hset, fun a ha => set_data_of_ne ha⟩

/-- A buffer gets a block that was taken for it. -/
theorem Holds.attach (h : Holds m (a :: held) l) (hunshared : refs l a = 0)
    (hd : m.data a = some d) (hcount : d'.m_count = d.m_count) (hb : b.m_data = a)
    (hwithin : Within d' b) :
    Holds (m.set a d') held ((b, content d'.m_data b) :: l) := by
  have hout : ∀ x ∈ l, x.1.m_data ≠ a := refs_eq_zero.mp hunshared
  apply h.set h.held_not_free (h.fresh a d hd)
  · intro x hx ha
    rcases mem_cons.mp hx with rfl | hx
    · exact absurd hb ha
    · exact hx
  · intro a' ha'
    rw [refs_cons, if_neg (fun heq => ha' (heq.symm.trans hb)), count_cons_of_ne (Ne.symm ha')]
    rfl
  · rw [hcount, h.counted a d hd, count_cons_self, refs_cons, if_pos hb]
    omega
  · intro x hx ha
    rcases mem_cons.mp hx with rfl | hx
    · exact ⟨hwithin, rfl⟩
    · exact absurd ha (hout x hx)
  · intro x hx y hy ha ha' _
    rcases mem_cons.mp hx with rfl | hx
    · rcases mem_cons.mp hy with rfl | hy
      · exact le_rfl
      · exact absurd ha' (hout y hy)
    · exact absurd ha (hout x hx)

/-- Held data that no buffer refers to may be changed. -/
theorem Holds.setHeld (h : Holds m (a :: held) l) (hunshared : refs l a = 0)
    (hd : m.data a = some d) (hcount : d'.m_count = d.m_count) :
    Holds (m.set a d') (a :: held) l := by
  have hout : ∀ x ∈ l, x.1.m_data ≠ a := refs_eq_zero.mp hunshared
  apply h.set h.held_not_free (h.fresh a d hd) (fun x hx _ => hx) (fun _ _ => rfl)
  · rw [hcount, h.counted a d hd]
  · exact fun x hx ha => absurd ha (hout x hx)
  · exact fun x hx _ _ ha => absurd ha (hout x hx)

/-- **A buffer changes in place.** The buffers it shares the block with keep their bytes. -/
theorem Holds.modify (h : Holds m held ((b, bytes) :: l)) (hd : m.data b.m_data = some d)
    (hcount : d'.m_count = d.m_count) (hb : b'.m_data = b.m_data) (hwithin : Within d' b')
    (hsharers : ∀ y ∈ l, y.1.m_data = b.m_data → Within d y.1 →
      Within d' y.1 ∧ content d'.m_data y.1 = content d.m_data y.1)
    (htail : b'.m_end = d'.m_dirtyEnd →
      ∀ y ∈ l, y.1.m_data = b.m_data → internalEnd y.1 ≤ internalEnd b')
    (htails : ∀ y ∈ l, y.1.m_data = b.m_data → y.1.m_end = d'.m_dirtyEnd →
      y.1.m_end = d.m_dirtyEnd ∧ internalEnd b' ≤ internalEnd y.1) :
    Holds (m.set b.m_data d') held ((b', content d'.m_data b') :: l) := by
  have hentry : ∀ y ∈ l, y.1.m_data = b.m_data →
      Within d y.1 ∧ content d.m_data y.1 = y.2 :=
    fun y hy ha => h.entry_of (mem_cons_of_mem _ hy) ha hd
  apply h.set h.head_not_free (h.fresh _ d hd)
  · intro x hx ha
    rcases mem_cons.mp hx with rfl | hx
    · exact absurd hb ha
    · exact mem_cons_of_mem _ hx
  · intro a ha
    rw [refs_cons, refs_cons, hb]
  · rw [hcount, h.counted _ d hd, refs_cons, refs_cons, hb]
  · intro x hx ha
    rcases mem_cons.mp hx with rfl | hx
    · exact ⟨hwithin, rfl⟩
    · obtain ⟨hin, hbytes⟩ := hentry x hx ha
      obtain ⟨hin', hsame⟩ := hsharers x hx ha hin
      exact ⟨hin', hsame.trans hbytes⟩
  · intro x hx y hy ha ha' hend
    rcases mem_cons.mp hx with rfl | hx
    · rcases mem_cons.mp hy with rfl | hy
      · exact le_rfl
      · exact htail hend y hy ha'
    · obtain ⟨hend', hle⟩ := htails x hx ha hend
      rcases mem_cons.mp hy with rfl | hy
      · exact hle
      · exact h.tails x (mem_cons_of_mem _ hx) y (mem_cons_of_mem _ hy)
          (ha'.trans ha.symm) d (ha ▸ hd) hend'

/-- One more buffer on the block, with the offsets of another. -/
theorem Holds.share (h : Holds m held ((b, bytes) :: l)) (hd : m.data b.m_data = some d)
    (hcount : d.m_count.toNat + 1 < 2 ^ 32) (w : UInt32) :
    Holds (m.set b.m_data { d with m_count := d.m_count + 1 }) held
      (({ b with m_maxZeroAreaStart := w }, bytes) :: (b, bytes) :: l) := by
  have hone : (1 : UInt32).toNat = 1 := rfl
  have hself : (b, bytes) ∈ (b, bytes) :: l := mem_cons_self ..
  have hentry : ∀ x ∈ (b, bytes) :: l, x.1.m_data = b.m_data →
      Within d x.1 ∧ content d.m_data x.1 = x.2 := fun x hx ha => h.entry_of hx ha hd
  have htails : ∀ x ∈ (b, bytes) :: l, ∀ y ∈ (b, bytes) :: l, x.1.m_data = b.m_data →
      y.1.m_data = b.m_data → x.1.m_end = d.m_dirtyEnd → internalEnd y.1 ≤ internalEnd x.1 :=
    fun x hx y hy ha ha' hend => h.tails x hx y hy (ha'.trans ha.symm) d (ha ▸ hd) hend
  apply h.set h.head_not_free (h.fresh _ d hd)
  · intro x hx ha
    rcases mem_cons.mp hx with rfl | hx
    · exact absurd rfl ha
    · exact hx
  · intro a ha
    rw [refs_cons, if_neg (Ne.symm ha), Nat.add_zero]
  · have hrefs : refs (({ b with m_maxZeroAreaStart := w }, bytes) :: (b, bytes) :: l) b.m_data =
        refs ((b, bytes) :: l) b.m_data + 1 := refs_cons.trans (congrArg _ (if_pos rfl))
    rw [toNat_add (by omega), h.counted _ d hd, hone, hrefs, Nat.add_assoc]
  · intro x hx ha
    have hin : Within d x.1 ∧ content d.m_data x.1 = x.2 := by
      rcases mem_cons.mp hx with rfl | hx
      · exact ⟨(hentry _ hself rfl).1.setMax w, (hentry _ hself rfl).2⟩
      · exact hentry x hx ha
    exact ⟨hin.1.mono le_rfl le_rfl rfl, hin.2⟩
  · intro x hx y hy ha ha' hend
    rcases mem_cons.mp hx with rfl | hx
    · rcases mem_cons.mp hy with rfl | hy
      · exact le_rfl
      · exact htails _ hself y hy rfl ha' hend
    · rcases mem_cons.mp hy with rfl | hy
      · have hle := htails x hx _ hself ha rfl hend
        exact hle
      · exact htails x hx y hy ha ha' hend

end Heaps

end Ns3Joined.Network.Buffer
