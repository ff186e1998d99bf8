import Ns3Joined.Network.BufferHeap

/-!
# The functions of a buffer

What each function of `Buffer` does to the bytes: `AddAtStart` and `AddAtEnd` open a gap whose
bytes no other buffer has, `Write` fills it, `RemoveAtStart` and `RemoveAtEnd` drop bytes at one
end, and none of them changes the bytes of another buffer.
-/

namespace Ns3Joined.Network.Buffer

open List UInt32 Area

variable {m : Heap} {l : List Entry} {d : Data} {b b' : Handle} {bytes bytes' : List UInt8}
  {area area' : ℕ → UInt8}

/-! ### Bytes at the ends -/

variable {n start : ℕ} {held : List ℕ} {gap rest : List UInt8}

/-- A buffer that starts `n` bytes earlier. -/
theorem content_start (h : Shape b) (hstart : b'.m_start.toNat + n = b.m_start.toNat)
    (hzero : b'.m_zeroAreaStart = b.m_zeroAreaStart) (hzero' : b'.m_zeroAreaEnd = b.m_zeroAreaEnd)
    (hend : b'.m_end = b.m_end) :
    content area b' = read area b'.m_start.toNat n ++ content area b := by
  obtain ⟨hle, -, -⟩ := h
  have hsplit : b.m_zeroAreaStart.toNat - b'.m_start.toNat =
      n + (b.m_zeroAreaStart.toNat - b.m_start.toNat) := by omega
  unfold content
  rw [hzero, hzero', hend, hsplit, read_add, hstart]
  simp only [append_assoc]

/-- A buffer that ends `n` bytes later. -/
theorem content_end (h : Shape b) (hend : b'.m_end.toNat = b.m_end.toNat + n)
    (hstart : b'.m_start = b.m_start) (hzero : b'.m_zeroAreaStart = b.m_zeroAreaStart)
    (hzero' : b'.m_zeroAreaEnd = b.m_zeroAreaEnd) :
    content area b' = content area b ++ read area (internalEnd b) n := by
  obtain ⟨-, -, hle⟩ := h
  have hsplit : b'.m_end.toNat - b.m_zeroAreaEnd.toNat =
      b.m_end.toNat - b.m_zeroAreaEnd.toNat + n := by omega
  unfold content internalEnd
  rw [hzero, hzero', hstart, hsplit, read_add]
  simp only [append_assoc]

/-- The bytes of a buffer are determined by its parts. -/
theorem content_of_offsets {off off' z k : ℕ}
    (hfirst : b.m_zeroAreaStart.toNat - b.m_start.toNat = n)
    (hzero : b.m_zeroAreaEnd.toNat - b.m_zeroAreaStart.toNat = z)
    (hlast : b.m_end.toNat - b.m_zeroAreaEnd.toNat = k) (hoff : n = 0 ∨ b.m_start.toNat = off)
    (hoff' : k = 0 ∨ b.m_zeroAreaStart.toNat = off') :
    content area b = read area off n ++ List.replicate z 0 ++ read area off' k := by
  subst hfirst hzero hlast
  unfold content
  rw [read_eq rfl hoff, read_eq rfl hoff']

/-- Offsets from which `n` bytes at the start are gone. -/
theorem content_drop
    (hfirst : b'.m_zeroAreaStart.toNat - b'.m_start.toNat =
      b.m_zeroAreaStart.toNat - b.m_start.toNat - n)
    (hzero : b'.m_zeroAreaEnd.toNat - b'.m_zeroAreaStart.toNat =
      b.m_zeroAreaEnd.toNat - b.m_zeroAreaStart.toNat -
        (n - (b.m_zeroAreaStart.toNat - b.m_start.toNat)))
    (hlast : b'.m_end.toNat - b'.m_zeroAreaEnd.toNat =
      b.m_end.toNat - b.m_zeroAreaEnd.toNat - (n - (b.m_zeroAreaStart.toNat - b.m_start.toNat +
        (b.m_zeroAreaEnd.toNat - b.m_zeroAreaStart.toNat))))
    (hoff : b'.m_zeroAreaStart.toNat - b'.m_start.toNat = 0 ∨
      b'.m_start.toNat = b.m_start.toNat + n)
    (hoff' : b'.m_end.toNat - b'.m_zeroAreaEnd.toNat = 0 ∨
      b'.m_zeroAreaStart.toNat = b.m_zeroAreaStart.toNat +
        (n - (b.m_zeroAreaStart.toNat - b.m_start.toNat +
          (b.m_zeroAreaEnd.toNat - b.m_zeroAreaStart.toNat)))) :
    content area b' = (content area b).drop n := by
  rw [content_of_offsets hfirst hzero hlast (hfirst ▸ hoff) (hlast ▸ hoff')]
  unfold content
  rw [drop_append, drop_append, drop_replicate, drop_read, drop_read,
    length_append, length_read, length_replicate]

/-- The first bytes of a buffer, from the part in front, the zeros and the part behind. -/
theorem take_content (n : ℕ) : (content area b).take n =
    read area b.m_start.toNat (min n (b.m_zeroAreaStart.toNat - b.m_start.toNat)) ++
      List.replicate (min (n - (b.m_zeroAreaStart.toNat - b.m_start.toNat))
        (b.m_zeroAreaEnd.toNat - b.m_zeroAreaStart.toNat)) 0 ++
      read area b.m_zeroAreaStart.toNat
        (min (n - (b.m_zeroAreaStart.toNat - b.m_start.toNat +
          (b.m_zeroAreaEnd.toNat - b.m_zeroAreaStart.toNat)))
          (b.m_end.toNat - b.m_zeroAreaEnd.toNat)) := by
  unfold content
  rw [take_append, take_append, take_replicate, take_read, take_read,
    length_append, length_read, length_replicate]

/-- What `RemoveAtStart` and `RemoveAtEnd` do to the offsets: the buffer keeps within what it
had, and one that still ends where it did has its last byte where it was. -/
structure Shrinks (b' b : Handle) : Prop extends Shape b' where
  data_eq : b'.m_data = b.m_data
  start_ge : b.m_start.toNat ≤ b'.m_start.toNat
  end_le : b'.m_end.toNat ≤ b.m_end.toNat
  internalEnd_le : internalEnd b' ≤ internalEnd b
  tail : b'.m_end.toNat = b.m_end.toNat → internalEnd b' = internalEnd b

/-- `RemoveAtStart` drops bytes at the front. -/
theorem removeAtStart_shrinks {start : UInt32} (h : Shape b)
    (hfits : b.m_start.toNat + start.toNat < 2 ^ 32) :
    Shrinks (RemoveAtStart b start) b ∧
      ∀ area, content area (RemoveAtStart b start) = (content area b).drop start.toNat := by
  obtain ⟨hstart, hzero, hend⟩ := h
  have hnew := toNat_add hfits
  have hsize := toNat_sub hzero
  unfold RemoveAtStart updateMaxZeroAreaStart
  dsimp only
  split_ifs with h₁ h₂ h₃ <;> rw [le_iff_toNat_le, hnew] at h₁
  · -- only the start of the buffer
    constructor
    · refine ⟨⟨?_, ?_, ?_⟩, rfl, ?_, ?_, ?_, fun _ => rfl⟩ <;> simp only [internalEnd] <;> omega
    · intro area
      apply content_drop <;> dsimp only <;> omega
  · -- and the start of the zero area
    rw [le_iff_toNat_le, hnew] at h₂
    have hdelta : (b.m_start + start - b.m_zeroAreaStart).toNat =
        b.m_start.toNat + start.toNat - b.m_zeroAreaStart.toNat := by
      rw [toNat_sub (by omega), hnew]
    have hzeroEnd := toNat_sub (a := b.m_zeroAreaEnd)
      (b := b.m_start + start - b.m_zeroAreaStart) (by omega)
    have hnewEnd := toNat_sub (a := b.m_end)
      (b := b.m_start + start - b.m_zeroAreaStart) (by omega)
    constructor
    · refine ⟨⟨?_, ?_, ?_⟩, rfl, ?_, ?_, ?_, ?_⟩ <;> simp only [internalEnd] <;> omega
    · intro area
      apply content_drop <;> dsimp only <;> omega
  · -- and all of the zero area
    rw [le_iff_toNat_le, hnew] at h₂ h₃
    have hnewStart := toNat_sub (a := b.m_start + start)
      (b := b.m_zeroAreaEnd - b.m_zeroAreaStart) (by omega)
    have hnewEnd := toNat_sub (a := b.m_end)
      (b := b.m_zeroAreaEnd - b.m_zeroAreaStart) (by omega)
    constructor
    · refine ⟨⟨?_, ?_, ?_⟩, rfl, ?_, ?_, ?_, ?_⟩ <;> simp only [internalEnd] <;> omega
    · intro area
      apply content_drop <;> dsimp only <;> omega
  · -- all of the buffer
    rw [le_iff_toNat_le, hnew] at h₂ h₃
    have hnewEnd := toNat_sub (a := b.m_end)
      (b := b.m_zeroAreaEnd - b.m_zeroAreaStart) (by omega)
    constructor
    · refine ⟨⟨?_, ?_, ?_⟩, rfl, ?_, ?_, ?_, ?_⟩ <;> simp only [internalEnd] <;> omega
    · intro area
      apply content_drop <;> dsimp only <;> omega

/-- The bytes of a handle whose parts are cut behind. -/
theorem content_take
    (hfirst : b'.m_zeroAreaStart.toNat - b'.m_start.toNat =
      min n (b.m_zeroAreaStart.toNat - b.m_start.toNat))
    (hzero : b'.m_zeroAreaEnd.toNat - b'.m_zeroAreaStart.toNat =
      min (n - (b.m_zeroAreaStart.toNat - b.m_start.toNat))
        (b.m_zeroAreaEnd.toNat - b.m_zeroAreaStart.toNat))
    (hlast : b'.m_end.toNat - b'.m_zeroAreaEnd.toNat =
      min (n - (b.m_zeroAreaStart.toNat - b.m_start.toNat +
          (b.m_zeroAreaEnd.toNat - b.m_zeroAreaStart.toNat)))
        (b.m_end.toNat - b.m_zeroAreaEnd.toNat))
    (hoff : b'.m_start = b.m_start)
    (hoff' : b'.m_end.toNat - b'.m_zeroAreaEnd.toNat = 0 ∨ b'.m_zeroAreaStart = b.m_zeroAreaStart) :
    content area b' = (content area b).take n := by
  rw [take_content]
  exact content_of_offsets hfirst hzero hlast (.inr (congrArg _ hoff))
    ((hlast ▸ hoff').imp_right (congrArg _))

/-- `RemoveAtEnd` drops bytes at the end. -/
theorem removeAtEnd_shrinks (remove : UInt32) (h : Shape b) :
    Shrinks (RemoveAtEnd b remove) b ∧
      ∀ area, content area (RemoveAtEnd b remove) =
        (content area b).take ((content area b).length - remove.toNat) := by
  have hlength : ∀ area, (content area b).length = b.m_end.toNat - b.m_start.toNat :=
    fun _ => length_content _ h
  obtain ⟨hstart, hzero, hend⟩ := h
  have hsize := toNat_sub (a := b.m_end) (b := b.m_start) (by omega)
  have hmin : (min remove (b.m_end - b.m_start)).toNat =
      min remove.toNat (b.m_end.toNat - b.m_start.toNat) := by
    rw [toNat_min, hsize]
  have hnew := toNat_sub (a := b.m_end) (b := min remove (b.m_end - b.m_start)) (by omega)
  unfold RemoveAtEnd updateMaxZeroAreaStart
  dsimp only
  split_ifs with h₁ h₂ h₃ <;> rw [lt_iff_toNat_lt, hnew] at h₁
  · -- only the end of the buffer
    constructor
    · refine ⟨⟨?_, ?_, ?_⟩, rfl, ?_, ?_, ?_, ?_⟩ <;> simp only [internalEnd] <;> omega
    · intro area
      rw [hlength]
      refine content_take ?_ ?_ ?_ rfl (.inr rfl) <;> dsimp only <;> omega
  · -- and the end of the zero area
    rw [lt_iff_toNat_lt, hnew] at h₂
    constructor
    · refine ⟨⟨?_, ?_, ?_⟩, rfl, ?_, ?_, ?_, ?_⟩ <;> simp only [internalEnd] <;> omega
    · intro area
      rw [hlength]
      refine content_take ?_ ?_ ?_ rfl (.inr rfl) <;> dsimp only <;> omega
  · -- and all of the zero area
    rw [lt_iff_toNat_lt, hnew] at h₂ h₃
    constructor
    · refine ⟨⟨?_, ?_, ?_⟩, rfl, ?_, ?_, ?_, ?_⟩ <;> simp only [internalEnd] <;> omega
    · intro area
      rw [hlength]
      refine content_take ?_ ?_ ?_ rfl (.inl ?_) <;> dsimp only <;> omega
  · -- all of the buffer
    rw [lt_iff_toNat_lt, hnew] at h₂ h₃
    constructor
    · refine ⟨⟨?_, ?_, ?_⟩, rfl, ?_, ?_, ?_, ?_⟩ <;> simp only [internalEnd] <;> omega
    · intro area
      rw [hlength]
      refine content_take ?_ ?_ ?_ rfl (.inl ?_) <;> dsimp only <;> omega

/-- A handle that shrinks stays held with what is left of its bytes. -/
theorem Holds.shrink {held : List ℕ} (h : Holds m held ((b, bytes) :: l)) (hshrinks : Shrinks b' b)
    {f : List UInt8 → List UInt8} (hcontent : ∀ area, content area b' = f (content area b)) :
    Holds m held ((b', f bytes) :: l) := by
  obtain ⟨d, hd, hwithin, hbytes⟩ := h.entry _ mem_cons_self
  dsimp only at hd hwithin hbytes
  have hwithin' : Within d b' :=
    { toShape := hshrinks.toShape
      dirtyStart_le := hwithin.dirtyStart_le.trans hshrinks.start_ge
      le_dirtyEnd := hshrinks.end_le.trans hwithin.le_dirtyEnd
      internalEnd_le := hshrinks.internalEnd_le.trans hwithin.internalEnd_le }
  rw [← hbytes, ← hcontent, ← set_self hd]
  apply h.modify hd rfl hshrinks.data_eq hwithin' fun y _ _ hy => ⟨hy, rfl⟩
  · -- a buffer that ends where the dirty area ends did so before
    intro hend y hy ha
    have hsame : b.m_end = d.m_dirtyEnd := by
      apply UInt32.toNat_inj.mp
      have hle := hshrinks.end_le
      rw [hend] at hle
      exact Nat.le_antisymm hwithin.le_dirtyEnd hle
    rw [hshrinks.tail (by rw [hend, hsame])]
    exact h.tails _ mem_cons_self y (mem_cons_of_mem _ hy) ha d hd hsame
  · intro y hy ha hend
    have hle := h.tails y (mem_cons_of_mem _ hy) _ mem_cons_self ha.symm d
      (ha ▸ hd) hend
    exact ⟨hend, hshrinks.internalEnd_le.trans hle⟩

/-! ### Writing -/

/-- Bytes that no other buffer has are written. -/
theorem Holds.overwrite {old : List UInt8} (h : Holds m held ((b, old) :: l)) (off : UInt32)
    (bytes : List UInt8) (hd : m.data b.m_data = some d)
    (hroom : off.toNat + bytes.length ≤ d.m_size.toNat)
    (hown : ∀ y ∈ l, y.1.m_data = b.m_data →
      off.toNat + bytes.length ≤ y.1.m_start.toNat ∨ internalEnd y.1 ≤ off.toNat) :
    ∃ m', writeBlock m b.m_data off bytes = .ok m' ∧
      Holds m' held ((b, content (write d.m_data off.toNat bytes) b) :: l) := by
  refine ⟨m.set b.m_data { d with m_data := write d.m_data off.toNat bytes }, ?_, ?_⟩
  · unfold writeBlock
    rw [deref_of_data hd]
    exact if_pos hroom
  · have hwithin := (h.entry_of mem_cons_self rfl hd).1
    have hwithin' : Within { d with m_data := write d.m_data off.toNat bytes } b :=
      hwithin.mono le_rfl le_rfl rfl
    refine h.modify hd rfl rfl hwithin' ?_ ?_ ?_
    · intro y hy ha hin
      refine ⟨hin.mono le_rfl le_rfl rfl, content_congr hin.toShape ?_⟩
      intro k hle hlt
      rcases hown y hy ha with hbefore | hbehind
      · exact write_of_le (hbefore.trans hle)
      · exact write_of_lt (hlt.trans_le hbehind)
    · intro hend y hy ha
      exact h.tails _ mem_cons_self y (mem_cons_of_mem _ hy) ha d hd hend
    · intro y hy ha hend
      exact ⟨hend, h.tails y (mem_cons_of_mem _ hy) _ mem_cons_self ha.symm d
        (ha ▸ hd) hend⟩

/-- The assertions before a write hold outside of the zero area. -/
theorem checkNoZero_of_le {start stop : ℕ} (hle : b.m_start.toNat ≤ start)
    (hend : stop ≤ b.m_end.toNat)
    (hout : stop ≤ b.m_zeroAreaStart.toNat ∨ b.m_zeroAreaEnd.toNat ≤ start) :
    CheckNoZero b start stop = true := by
  apply all_eq_true.mpr
  intro k hk
  have hk := mem_range.mp hk
  unfold Check
  simp only [Bool.and_eq_true, Bool.not_eq_true', Bool.and_eq_false_iff, decide_eq_true_eq,
    decide_eq_false_iff_not]
  omega

/-- A gap at the start is filled. -/
theorem Holds.fillStart (h : Holds m held ((b, gap ++ rest) :: l))
    (hlength : gap.length = bytes.length)
    (hroom : b.m_start.toNat + bytes.length ≤ b.m_zeroAreaStart.toNat)
    (hown : ∀ y ∈ l, y.1.m_data = b.m_data → b.m_start.toNat + bytes.length ≤ y.1.m_start.toNat) :
    ∃ m', Write m b b.m_start bytes = .ok m' ∧ Holds m' held ((b, bytes ++ rest) :: l) := by
  obtain ⟨d, hd, hwithin, hbytes⟩ := h.entry _ mem_cons_self
  dsimp only at hd hwithin hbytes
  obtain ⟨hstart, hzero, hend⟩ := hwithin.toShape
  have hlast := hwithin.internalEnd_le
  have hcheck : CheckNoZero b b.m_start.toNat bytes.length = true :=
    checkNoZero_of_le le_rfl (by omega) (.inl (by omega))
  unfold internalEnd at hlast
  obtain ⟨m', hok, hholds⟩ := h.overwrite b.m_start bytes hd (by omega)
    fun y hy ha => .inl (hown y hy ha)
  refine ⟨m', ?_, ?_⟩
  · unfold Write
    rw [if_neg (not_not_intro hcheck), if_pos (le_iff_toNat_le.mpr hstart)]
    exact hok
  · -- the bytes behind the gap
    have hlt := b.m_zeroAreaStart.toNat_lt
    have hofNat : (UInt32.ofNat bytes.length).toNat = bytes.length :=
      Nat.mod_eq_of_lt (by omega)
    have hbehind : (b.m_start + UInt32.ofNat bytes.length).toNat =
        b.m_start.toNat + bytes.length := by
      rw [toNat_add (by omega), hofNat]
    let tail : Handle := { b with m_start := b.m_start + UInt32.ofNat bytes.length }
    have hshape : Shape tail := ⟨hbehind.trans_le hroom, hzero, hend⟩
    have hsplit : ∀ area, content area b =
        read area b.m_start.toNat bytes.length ++ content area tail :=
      fun area => content_start hshape hbehind.symm rfl rfl rfl
    have hrest : content d.m_data tail = rest := by
      rw [hsplit] at hbytes
      exact (append_inj hbytes (length_read.trans hlength.symm)).2
    have hsame : content (write d.m_data b.m_start.toNat bytes) tail =
        content d.m_data tail :=
      content_congr hshape fun k hle _ => write_of_le (hbehind.symm.trans_le hle)
    rw [hsplit, read_write_self, hsame, hrest] at hholds
    exact hholds

/-- A gap at the end is filled. -/
theorem Holds.fillEnd (h : Holds m held ((b, rest ++ gap) :: l)) (off : UInt32)
    (hlength : gap.length = bytes.length) (hoff : off.toNat + bytes.length = b.m_end.toNat)
    (hroom : b.m_zeroAreaEnd.toNat ≤ off.toNat)
    (hown : ∀ y ∈ l, y.1.m_data = b.m_data → internalEnd y.1 + bytes.length ≤ internalEnd b) :
    ∃ m', Write m b off bytes = .ok m' ∧ Holds m' held ((b, rest ++ bytes) :: l) := by
  obtain ⟨d, hd, hwithin, hbytes⟩ := h.entry _ mem_cons_self
  dsimp only at hd hwithin hbytes
  obtain ⟨hstart, hzero, hend⟩ := hwithin.toShape
  have hlast := hwithin.internalEnd_le
  have hcheck : CheckNoZero b off.toNat bytes.length = true :=
    checkNoZero_of_le (by omega) (by omega) (.inr hroom)
  -- the offset in the block
  let inner := if off ≤ b.m_zeroAreaStart then off else off - (b.m_zeroAreaEnd - b.m_zeroAreaStart)
  have hinner : inner.toNat + bytes.length = internalEnd b := by
    have hsize := toNat_sub hzero
    unfold inner internalEnd
    split_ifs with hle
    · rw [le_iff_toNat_le] at hle
      omega
    · rw [toNat_sub (by omega)]
      omega
  obtain ⟨m', hok, hholds⟩ := h.overwrite inner bytes hd (by omega)
    fun y hy ha => .inr (by have := hown y hy ha; omega)
  refine ⟨m', ?_, ?_⟩
  · unfold Write
    rw [if_neg (not_not_intro hcheck)]
    split_ifs with hle
    · have hif : inner = off := if_pos hle
      exact hif ▸ hok
    · have hif : inner = off - (b.m_zeroAreaEnd - b.m_zeroAreaStart) := if_neg hle
      exact hif ▸ hok
  · -- the bytes before the gap
    let head : Handle := { b with m_end := off }
    have hshape : Shape head := ⟨hstart, hzero, hroom⟩
    have hhead : internalEnd head = inner.toNat := by
      unfold internalEnd at hinner ⊢
      dsimp only [head]
      omega
    have hsplit : ∀ area, content area b =
        content area head ++ read area inner.toNat bytes.length := by
      intro area
      rw [← hhead]
      exact content_end hshape hoff.symm rfl rfl rfl
    have hrest : content d.m_data head = rest := by
      rw [hsplit] at hbytes
      exact (append_inj' hbytes (length_read.trans hlength.symm)).1
    have hsame : content (write d.m_data inner.toNat bytes) head =
        content d.m_data head :=
      content_congr hshape fun k _ hlt => write_of_lt (hhead ▸ hlt)
    rw [hsplit, read_write_self, hsame, hrest] at hholds
    exact hholds

/-! ### Growing -/

/-- An offset moved along with the start, without wrap-around. -/
theorem toNat_relocate {a b start : UInt32} (hle : b.toNat ≤ a.toNat)
    (hfits : start.toNat + (a.toNat - b.toNat) < 2 ^ 32) :
    (a + (start - b)).toNat = start.toNat + (a.toNat - b.toNat) := by
  have hb := b.toNat_lt
  rw [UInt32.toNat_add, UInt32.toNat_sub]
  omega

/-- The same bytes elsewhere. -/
theorem content_shift (h : Shape b)
    (hstart : b'.m_start.toNat = start + (b.m_start.toNat - b.m_start.toNat))
    (hzero : b'.m_zeroAreaStart.toNat = start + (b.m_zeroAreaStart.toNat - b.m_start.toNat))
    (hzero' : b'.m_zeroAreaEnd.toNat = start + (b.m_zeroAreaEnd.toNat - b.m_start.toNat))
    (hend : b'.m_end.toNat = start + (b.m_end.toNat - b.m_start.toNat))
    (hsame : ∀ k < internalEnd b - b.m_start.toNat,
      area' (start + k) = area (b.m_start.toNat + k)) :
    content area' b' = content area b := by
  obtain ⟨hle₁, hle₂, hle₃⟩ := h
  unfold internalEnd at hsame
  have hfirst : read area' b'.m_start.toNat
      (b'.m_zeroAreaStart.toNat - b'.m_start.toNat) =
      read area b.m_start.toNat (b.m_zeroAreaStart.toNat - b.m_start.toNat) := by
    rw [hstart, hzero, Nat.sub_self, Nat.add_zero, Nat.add_sub_cancel_left]
    exact read_shift fun k hk => hsame k (by omega)
  have hzeros : b'.m_zeroAreaEnd.toNat - b'.m_zeroAreaStart.toNat =
      b.m_zeroAreaEnd.toNat - b.m_zeroAreaStart.toNat := by omega
  have hlast : read area' b'.m_zeroAreaStart.toNat
      (b'.m_end.toNat - b'.m_zeroAreaEnd.toNat) =
      read area b.m_zeroAreaStart.toNat (b.m_end.toNat - b.m_zeroAreaEnd.toNat) := by
    have hsize : b'.m_end.toNat - b'.m_zeroAreaEnd.toNat =
        b.m_end.toNat - b.m_zeroAreaEnd.toNat := by omega
    rw [hsize, hzero]
    apply read_shift
    intro k hk
    have hat := hsame (b.m_zeroAreaStart.toNat - b.m_start.toNat + k) (by omega)
    rw [← Nat.add_assoc, ← Nat.add_assoc, Nat.add_sub_cancel' hle₁] at hat
    exact hat
  unfold content
  rw [hfirst, hzeros, hlast]

/-- What `moveToNew` gives: the bytes in a block that no other buffer has, with room for more. -/
structure Moved (m : Heap) (b : Handle) (start grow : ℕ) (bytes : List UInt8) (l : List Entry) :
    Prop extends Shape b where
  holds : Holds m [b.m_data] l
  unshared : refs l b.m_data = 0
  block : ∃ d, m.data b.m_data = some d ∧ internalEnd b + (grow - start) ≤ d.m_size.toNat ∧
    content d.m_data b = bytes
  start_eq : b.m_start.toNat = start
  end_eq : b.m_end.toNat = start + bytes.length

/-- There is a block for the bytes and `grow` more, and offsets into it. -/
def MoveFits (b : Handle) (grow : UInt32) : Prop :=
  (GetSize b).toNat + grow.toNat < 2 ^ 32 ∧ (GetInternalSize b).toNat + grow.toNat + 19 < 2 ^ 32

instance (b : Handle) (grow : UInt32) : Decidable (MoveFits b grow) :=
  inferInstanceAs (Decidable (_ ∧ _))

/-- Moving to new data keeps the bytes and puts the growth around them. -/
theorem Holds.moveToNew (h : Holds m [] ((b, bytes) :: l)) (start grow : UInt32)
    (hstart : start.toNat ≤ grow.toNat) (hfits : MoveFits b grow) :
    ∃ m' b', moveToNew m b start grow = .ok (m', b') ∧
      Moved m' b' start.toNat grow.toNat bytes l := by
  obtain ⟨d, hd, hwithin, hbytes⟩ := h.entry _ mem_cons_self
  dsimp only at hd hwithin hbytes
  have hlength := length_content d.m_data hwithin.toShape
  have hinner := toNat_getInternalSize hwithin.toShape
  have hend := hwithin.internalEnd_le
  obtain ⟨hfits, halloc⟩ := hfits
  rw [toNat_getSize hwithin.toShape] at hfits
  obtain ⟨hle₁, hle₂, hle₃⟩ := hwithin.toShape
  rw [hbytes] at hlength
  have hsize : internalEnd b - b.m_start.toNat ≤ bytes.length := by
    unfold internalEnd
    omega
  have hstartEnd : b.m_start.toNat ≤ internalEnd b := by
    unfold internalEnd
    omega
  obtain ⟨m₁, a, hcreate, hcreated⟩ :=
    create_created (GetInternalSize b + grow) h (by rw [toNat_add (by omega)]; omega)
  obtain ⟨da, hda, hroom⟩ := hcreated.block
  have hne : a ≠ b.m_data := fun heq =>
    refs_eq_zero.mp hcreated.unshared _ mem_cons_self heq.symm
  have hunshared : refs l a = 0 := by
    have hzero := hcreated.unshared
    rw [refs_cons] at hzero
    omega
  have hcount : d.m_count ≠ 0 := by
    intro hzero
    have hcount := h.count_head hd
    rw [hzero] at hcount
    exact absurd hcount (by rw [show (0 : UInt32).toNat = 0 from rfl]; omega)
  have hd₁ : m₁.data b.m_data = some d := hcreated.same _ d hd hcount
  rw [le_iff_toNat_le, toNat_add (by omega), hinner] at hroom
  -- the copy
  let copied := read d.m_data b.m_start.toNat (internalEnd b - b.m_start.toNat)
  let d' : Data := { da with m_data := write da.m_data start.toNat copied }
  have hread : readBlock d b.m_start (GetInternalSize b) = .ok copied := by
    unfold readBlock
    rw [if_pos (by omega), hinner]
  have hlengthCopied : copied.length = internalEnd b - b.m_start.toNat := length_read
  have hwrite : writeBlock m₁ a start copied = .ok (m₁.set a d') := by
    unfold writeBlock
    rw [deref_of_data hda]
    exact if_pos (by omega)
  have hheld : Holds (m₁.set a d') [a] ((b, bytes) :: l) :=
    hcreated.holds.setHeld hcreated.unshared hda rfl
  obtain ⟨m', hrelease, hholds, hframe⟩ := hheld.release
  -- the offsets
  have hstart' : (relocate b a start).m_start.toNat = _ := toNat_relocate le_rfl (by omega)
  have hzero : (relocate b a start).m_zeroAreaStart.toNat = _ := toNat_relocate hle₁ (by omega)
  have hzero' : (relocate b a start).m_zeroAreaEnd.toNat = _ :=
    toNat_relocate (hle₁.trans hle₂) (by omega)
  have hend' : (relocate b a start).m_end.toNat = _ :=
    toNat_relocate (hle₁.trans (hle₂.trans hle₃)) (by omega)
  refine ⟨m', relocate b a start, ?_, ⟨by omega, by omega, by omega⟩, hholds, hunshared,
    ⟨d', ?_, ?_, ?_⟩, by omega, by omega⟩
  · unfold Buffer.moveToNew
    simp only [hcreate, deref_of_data hd₁, hread, hwrite, hrelease, bind, Except.bind, pure,
      Except.pure]
  · exact (hframe a hne).trans set_data_self
  · change _ ≤ da.m_size.toNat
    unfold internalEnd at hroom ⊢
    omega
  · rw [← hbytes]
    apply content_shift hwithin.toShape hstart' hzero hzero' hend'
    intro k hk
    have hk' : k < copied.length := hlengthCopied.symm ▸ hk
    calc d'.m_data (start.toNat + k)
        = copied[k] := write_of_mem hk'
      _ = d.m_data (b.m_start.toNat + k) := getElem_read hk'

/-- The buffer with its new offsets in the block it was moved to. -/
theorem Moved.attach {grow : ℕ} (h : Moved m b start grow bytes l) (hb : b'.m_data = b.m_data)
    (hshape : Shape b') (hroom : internalEnd b' ≤ internalEnd b + (grow - start)) :
    ∃ (m' : Heap) (d : Data), content d.m_data b = bytes ∧ updateDirty m b' = .ok m' ∧
      Holds m' [] ((b', content d.m_data b') :: l) := by
  obtain ⟨d, hd, hfits, hcontent⟩ := h.block
  let d' : Data := { d with m_dirtyStart := b'.m_start, m_dirtyEnd := b'.m_end }
  have hwithin : Within d' b' := ⟨hshape, le_rfl, le_rfl, hroom.trans hfits⟩
  refine ⟨m.set b.m_data d', d, hcontent, ?_, h.holds.attach h.unshared hd rfl hb hwithin⟩
  unfold updateDirty
  rw [hb, deref_of_data hd]
  rfl

/-- With one reference no other buffer shares the data. -/
theorem Holds.unshared (h : Holds m [] ((b, bytes) :: l)) (hd : m.data b.m_data = some d)
    (hcount : d.m_count = 1) : ∀ y ∈ l, y.1.m_data ≠ b.m_data := by
  have hrefs := h.count_head hd
  have hone : (1 : UInt32).toNat = 1 := rfl
  rw [hcount, hone, count_nil] at hrefs
  exact refs_eq_zero.mp (by omega)

/-- A buffer's own reference counts. -/
theorem Holds.one_le_count (h : Holds m [] ((b, bytes) :: l)) (hd : m.data b.m_data = some d)
    (hle : ¬ 1 < d.m_count) : d.m_count = 1 := by
  have hrefs := h.count_head hd
  have hone : (1 : UInt32).toNat = 1 := rfl
  rw [lt_iff_toNat_lt, hone] at hle
  apply UInt32.toNat_inj.mp
  omega

/-- `AddAtStart` stays in the block. -/
def StartsInPlace (d : Data) (b : Handle) (start : UInt32) : Prop :=
  start ≤ b.m_start ∧ ¬ (1 < d.m_count ∧ d.m_dirtyStart < b.m_start)

instance (d : Data) (b : Handle) (start : UInt32) : Decidable (StartsInPlace d b start) :=
  inferInstanceAs (Decidable (_ ∧ _))

/-- **`AddAtStart`** opens a gap before the bytes that belongs to no other buffer. -/
theorem Holds.addAtStart (h : Holds m [] ((b, bytes) :: l)) (hd : m.data b.m_data = some d)
    (start : UInt32) (hfits : ¬ StartsInPlace d b start → MoveFits b start) :
    ∃ m' b' gap, AddAtStart m b start = .ok (m', b') ∧ gap.length = start.toNat ∧
      Holds m' [] ((b', gap ++ bytes) :: l) ∧
      b'.m_start.toNat + start.toNat ≤ b'.m_zeroAreaStart.toNat ∧
      ∀ y ∈ l, y.1.m_data = b'.m_data → b'.m_start.toNat + start.toNat ≤ y.1.m_start.toNat := by
  obtain ⟨hwithin, hbytes⟩ := h.entry_of mem_cons_self rfl hd
  dsimp only at hwithin hbytes
  unfold AddAtStart
  rw [deref_of_data hd]
  by_cases hplace : StartsInPlace d b start
  · -- in place
    obtain ⟨hroom, hclean⟩ := hplace
    rw [le_iff_toNat_le] at hroom
    have hfirst : d.m_count = 1 ∨ b.m_start = d.m_dirtyStart := by
      by_cases hmany : 1 < d.m_count
      · have hnlt : ¬ d.m_dirtyStart < b.m_start := fun hlt => hclean ⟨hmany, hlt⟩
        rw [lt_iff_toNat_lt] at hnlt
        exact .inr (UInt32.toNat_inj.mp
          (Nat.le_antisymm (Nat.le_of_not_lt hnlt) hwithin.dirtyStart_le))
      · exact .inl (h.one_le_count hd hmany)
    have hnew := toNat_sub hroom
    -- the other buffers on the block start behind the gap
    have hbehind : ∀ y ∈ l, y.1.m_data = b.m_data → b.m_start.toNat ≤ y.1.m_start.toNat := by
      intro y hy ha
      rcases hfirst with hone | hdirty
      · exact absurd ha (h.unshared hd hone y hy)
      · rw [hdirty]
        exact (h.entry_of (mem_cons_of_mem _ hy) ha hd).1.dirtyStart_le
    let b' := updateMaxZeroAreaStart { b with m_start := b.m_start - start }
    let d' := { d with m_dirtyStart := b.m_start - start }
    have hshape : Shape b' :=
      ⟨(Nat.le_of_eq hnew).trans ((Nat.sub_le _ _).trans hwithin.start_le), hwithin.zero_le,
        hwithin.le_end⟩
    have hcontent : content d'.m_data b' =
        read d.m_data b'.m_start.toNat start.toNat ++ bytes := by
      rw [← hbytes]
      exact content_start hwithin.toShape (by dsimp only [b', updateMaxZeroAreaStart]; omega)
        rfl rfl rfl
    refine ⟨m.set b.m_data d', b', read d.m_data b'.m_start.toNat start.toNat, ?_,
      length_read, ?_, ?_, ?_⟩
    · change (if _ then _ else _) = _
      rw [if_pos ⟨le_iff_toNat_le.mpr hroom, hclean⟩]
      simp only [if_neg (not_not_intro hfirst)]
      rfl
    · have hwithin' : Within d' b' :=
        ⟨hshape, le_rfl, hwithin.le_dirtyEnd, hwithin.internalEnd_le⟩
      rw [← hcontent]
      refine h.modify hd rfl rfl hwithin' ?_ ?_ ?_
      · intro y hy ha hin
        have hle := hbehind y hy ha
        refine ⟨⟨hin.toShape, ?_, hin.le_dirtyEnd, hin.internalEnd_le⟩, rfl⟩
        dsimp only [d']
        omega
      · intro hend y hy ha
        exact h.tails _ mem_cons_self y (mem_cons_of_mem _ hy) ha d hd hend
      · intro y hy ha hend
        exact ⟨hend, h.tails y (mem_cons_of_mem _ hy) _ mem_cons_self ha.symm d
          (ha ▸ hd) hend⟩
    · have hle := hwithin.start_le
      dsimp only [b', updateMaxZeroAreaStart]
      omega
    · intro y hy ha
      have hle := hbehind y hy ha
      dsimp only [b', updateMaxZeroAreaStart]
      omega
  · -- in a new block
    obtain ⟨m₁, b₁, hmove, hmoved⟩ := h.moveToNew start start le_rfl (hfits hplace)
    have hstart := hmoved.start_eq
    have hnew : (b₁.m_start - start).toNat = 0 := by
      rw [toNat_sub (by omega)]
      omega
    let b' := updateMaxZeroAreaStart { b₁ with m_start := b₁.m_start - start }
    have hshape : Shape b' :=
      ⟨hnew.trans_le (Nat.zero_le _), hmoved.zero_le, hmoved.le_end⟩
    obtain ⟨m', d', hcontent, hdirty, hholds⟩ :=
      hmoved.attach (show b'.m_data = b₁.m_data from rfl) hshape (Nat.le_add_right _ _)
    have hsplit : content d'.m_data b' =
        read d'.m_data b'.m_start.toNat start.toNat ++ bytes := by
      rw [← hcontent]
      exact content_start hmoved.toShape (hnew.symm ▸ (by omega)) rfl rfl rfl
    refine ⟨m', b', read d'.m_data b'.m_start.toNat start.toNat, ?_,
      length_read, hsplit ▸ hholds, ?_, ?_⟩
    · change (if _ then _ else _) = _
      refine (if_neg hplace).trans ?_
      change updateDirty m₁ { b₁ with m_start := b₁.m_start - start } = _ at hdirty
      simp only [hmove, hdirty, bind, Except.bind, pure, Except.pure]
      rfl
    · have hle := hmoved.start_le
      have hnew' : b'.m_start.toNat = 0 := hnew
      rw [hnew', Nat.zero_add, ← hstart]
      exact hle
    · intro y hy ha
      exact absurd ha (refs_eq_zero.mp hmoved.unshared y hy)

/-- `AddAtEnd` stays in the block. -/
def GrowsInPlace (d : Data) (b : Handle) (grow : UInt32) : Prop :=
  GetInternalEnd b + grow ≤ d.m_size ∧ ¬ (1 < d.m_count ∧ b.m_end < d.m_dirtyEnd)

instance (d : Data) (b : Handle) (grow : UInt32) : Decidable (GrowsInPlace d b grow) :=
  inferInstanceAs (Decidable (_ ∧ _))

section Grow

variable {grow : UInt32} (hshape : Shape b) (hfits : b.m_end.toNat + grow.toNat < 2 ^ 32)

include hshape hfits

/-- Growing at the end keeps the shape of the offsets. -/
theorem Shape.addAtEnd : Shape (updateMaxZeroAreaStart { b with m_end := b.m_end + grow }) where
  start_le := hshape.start_le
  zero_le := hshape.zero_le
  le_end := by
    have hle := hshape.le_end
    have hnew := toNat_add hfits
    dsimp only [updateMaxZeroAreaStart]
    omega

/-- The internal end after growing at the end. -/
theorem internalEnd_addAtEnd :
    internalEnd (updateMaxZeroAreaStart { b with m_end := b.m_end + grow }) =
      internalEnd b + grow.toNat := by
  have hle := hshape.le_end
  have hnew := toNat_add hfits
  dsimp only [internalEnd, updateMaxZeroAreaStart]
  omega

end Grow

/-- **`AddAtEnd`** opens a gap behind the bytes that belongs to no other buffer. -/
theorem Holds.addAtEnd (h : Holds m [] ((b, bytes) :: l)) (hd : m.data b.m_data = some d)
    (grow : UInt32)
    (hplace : GrowsInPlace d b grow → b.m_end.toNat + grow.toNat < 2 ^ 32)
    (hmove : ¬ GrowsInPlace d b grow → MoveFits b grow) :
    ∃ m' b' gap, AddAtEnd m b grow = .ok (m', b') ∧ gap.length = grow.toNat ∧
      Holds m' [] ((b', bytes ++ gap) :: l) ∧
      b'.m_zeroAreaEnd.toNat + grow.toNat ≤ b'.m_end.toNat ∧
      ∀ y ∈ l, y.1.m_data = b'.m_data → internalEnd y.1 + grow.toNat ≤ internalEnd b' := by
  obtain ⟨hwithin, hbytes⟩ := h.entry_of mem_cons_self rfl hd
  dsimp only at hwithin hbytes
  unfold AddAtEnd
  rw [deref_of_data hd]
  by_cases hgrows : GrowsInPlace d b grow
  · -- in place
    have hfits := hplace hgrows
    obtain ⟨hroom, hclean⟩ := id hgrows
    have hinner := toNat_getInternalEnd hwithin.toShape
    have hshape := hwithin.toShape
    have hle : internalEnd b ≤ b.m_end.toNat := by
      obtain ⟨hle₁, hle₂, hle₃⟩ := hshape
      unfold internalEnd
      omega
    rw [le_iff_toNat_le, toNat_add (by omega), hinner] at hroom
    have hlast : d.m_count = 1 ∨ b.m_end = d.m_dirtyEnd := by
      by_cases hmany : 1 < d.m_count
      · have hnlt : ¬ b.m_end < d.m_dirtyEnd := fun hlt => hclean ⟨hmany, hlt⟩
        rw [lt_iff_toNat_lt] at hnlt
        exact .inr (UInt32.toNat_inj.mp
          (Nat.le_antisymm hwithin.le_dirtyEnd (Nat.le_of_not_lt hnlt)))
      · exact .inl (h.one_le_count hd hmany)
    have hnew := toNat_add hfits
    -- the other buffers on the block end before the gap
    have hbefore : ∀ y ∈ l, y.1.m_data = b.m_data → Within d y.1 ∧ b.m_end = d.m_dirtyEnd ∧
        internalEnd y.1 ≤ internalEnd b := by
      intro y hy ha
      rcases hlast with hone | hdirty
      · exact absurd ha (h.unshared hd hone y hy)
      · exact ⟨(h.entry_of (mem_cons_of_mem _ hy) ha hd).1, hdirty,
          h.tails _ mem_cons_self y (mem_cons_of_mem _ hy) ha d hd hdirty⟩
    let b' := updateMaxZeroAreaStart { b with m_end := b.m_end + grow }
    let d' := { d with m_dirtyEnd := b.m_end + grow }
    have hend' : b'.m_end.toNat = b.m_end.toNat + grow.toNat := hnew
    have hinner' : internalEnd b' = internalEnd b + grow.toNat := internalEnd_addAtEnd hshape hfits
    have hwithin' : Within d' b' :=
      ⟨hshape.addAtEnd hfits, hwithin.dirtyStart_le, le_rfl, hinner'.trans_le hroom⟩
    have hcontent : content d'.m_data b' =
        bytes ++ read d.m_data (internalEnd b) grow.toNat := by
      rw [← hbytes]
      exact content_end hshape hend' rfl rfl rfl
    refine ⟨m.set b.m_data d', b', read d.m_data (internalEnd b) grow.toNat, ?_,
      length_read, ?_, ?_, ?_⟩
    · change (if _ then _ else _) = _
      refine (if_pos hgrows).trans ?_
      simp only [if_neg (not_not_intro hlast)]
      rfl
    · rw [← hcontent]
      refine h.modify hd rfl rfl hwithin' ?_ ?_ ?_
      · intro y hy ha hin
        obtain ⟨-, hdirty, -⟩ := hbefore y hy ha
        refine ⟨hin.mono le_rfl ?_ rfl, rfl⟩
        rw [← hdirty]
        exact (Nat.le_add_right _ _).trans hnew.ge
      · intro _ y hy ha
        obtain ⟨-, -, hle⟩ := hbefore y hy ha
        omega
      · -- nobody ends behind the gap, unless it is empty
        intro y hy ha hend
        obtain ⟨hin, hdirty, hle⟩ := hbefore y hy ha
        have hend : y.1.m_end = b.m_end + grow := hend
        have hlt := hin.le_dirtyEnd
        rw [hend, hnew, ← hdirty] at hlt
        have hzero : grow.toNat = 0 := by omega
        have hsame : y.1.m_end = d.m_dirtyEnd := by
          rw [hend, ← hdirty]
          apply UInt32.toNat_inj.mp
          omega
        have hge := h.tails y (mem_cons_of_mem _ hy) _ mem_cons_self ha.symm d
          (ha ▸ hd) hsame
        refine ⟨hsame, ?_⟩
        dsimp only at hge
        omega
    · have hle := hshape.le_end
      change b.m_zeroAreaEnd.toNat + _ ≤ _
      omega
    · intro y hy ha
      obtain ⟨-, -, hle⟩ := hbefore y hy ha
      omega
  · -- in a new block
    have hfits := hmove hgrows
    have hsize := hfits.1
    rw [toNat_getSize hwithin.toShape, ← length_content d.m_data hwithin.toShape, hbytes] at hsize
    obtain ⟨m₁, b₁, hmove, hmoved⟩ :=
      h.moveToNew 0 grow (Nat.zero_le _) hfits
    have hstart : b₁.m_start.toNat = 0 := hmoved.start_eq
    have hend := hmoved.end_eq
    rw [show (0 : UInt32).toNat = 0 from rfl, Nat.zero_add] at hend
    have hlt : b₁.m_end.toNat + grow.toNat < 2 ^ 32 := by omega
    have hshape := hmoved.toShape
    let b' := updateMaxZeroAreaStart { b₁ with m_end := b₁.m_end + grow }
    have hend' : b'.m_end.toNat = b₁.m_end.toNat + grow.toNat := toNat_add hlt
    have hinner' : internalEnd b' = internalEnd b₁ + grow.toNat := internalEnd_addAtEnd hshape hlt
    obtain ⟨m', d', hcontent, hdirty, hholds⟩ :=
      hmoved.attach (show b'.m_data = b₁.m_data from rfl) (hshape.addAtEnd hlt) hinner'.le
    have hsplit : content d'.m_data b' =
        bytes ++ read d'.m_data (internalEnd b₁) grow.toNat := by
      rw [← hcontent]
      exact content_end hshape hend' rfl rfl rfl
    refine ⟨m', b', read d'.m_data (internalEnd b₁) grow.toNat, ?_,
      length_read, hsplit ▸ hholds, ?_, ?_⟩
    · change (if _ then _ else _) = _
      refine (if_neg hgrows).trans ?_
      change updateDirty m₁ { b₁ with m_end := b₁.m_end + grow } = _ at hdirty
      simp only [hmove, hdirty, bind, Except.bind, pure, Except.pure]
      rfl
    · have hle := hshape.le_end
      change b₁.m_zeroAreaEnd.toNat + _ ≤ _
      omega
    · intro y hy ha
      exact absurd ha (refs_eq_zero.mp hmoved.unshared y hy)

/-! ### Reading -/

/-- `CopyData` returns the first bytes. -/
theorem CopyData_eq (h : Holds m held ((b, bytes) :: l)) (size : UInt32) :
    CopyData m b size = .ok (bytes.take size.toNat) := by
  obtain ⟨d, hd, hwithin, hbytes⟩ := h.entry _ mem_cons_self
  dsimp only at hd hwithin hbytes
  have hlast := hwithin.internalEnd_le
  obtain ⟨hle₁, hle₂, hle₃⟩ := hwithin.toShape
  unfold internalEnd at hlast
  -- the sizes of the three parts
  have hfirst : (min (b.m_zeroAreaStart - b.m_start) size).toNat =
      min size.toNat (b.m_zeroAreaStart.toNat - b.m_start.toNat) := by
    rw [toNat_min, toNat_sub hle₁, Nat.min_comm]
  have hsize := toNat_sub (a := size) (b := min (b.m_zeroAreaStart - b.m_start) size)
    (hfirst ▸ Nat.min_le_left _ _)
  have hzeros : (min (b.m_zeroAreaEnd - b.m_zeroAreaStart)
      (size - min (b.m_zeroAreaStart - b.m_start) size)).toNat =
      min (size.toNat - (b.m_zeroAreaStart.toNat - b.m_start.toNat))
        (b.m_zeroAreaEnd.toNat - b.m_zeroAreaStart.toNat) := by
    rw [toNat_min, toNat_sub hle₂, hsize, hfirst, ← Nat.sub_eq_sub_min, Nat.min_comm]
  have hsize' := toNat_sub (a := size - min (b.m_zeroAreaStart - b.m_start) size)
    (b := min (b.m_zeroAreaEnd - b.m_zeroAreaStart)
      (size - min (b.m_zeroAreaStart - b.m_start) size)) (toNat_min _ _ ▸ Nat.min_le_right _ _)
  have hrest : (min (b.m_end - b.m_zeroAreaEnd)
      (size - min (b.m_zeroAreaStart - b.m_start) size -
        min (b.m_zeroAreaEnd - b.m_zeroAreaStart)
          (size - min (b.m_zeroAreaStart - b.m_start) size))).toNat =
      min (size.toNat - (b.m_zeroAreaStart.toNat - b.m_start.toNat +
        (b.m_zeroAreaEnd.toNat - b.m_zeroAreaStart.toNat)))
        (b.m_end.toNat - b.m_zeroAreaEnd.toNat) := by
    rw [toNat_min, toNat_sub hle₃, hsize', hsize, hfirst, hzeros, ← Nat.sub_eq_sub_min,
      ← Nat.sub_eq_sub_min, Nat.sub_sub, Nat.min_comm]
  unfold CopyData readBlock
  rw [deref_of_data hd]
  dsimp only [bind, Except.bind]
  have hread : b.m_start.toNat + min size.toNat (b.m_zeroAreaStart.toNat - b.m_start.toNat) ≤
      d.m_size.toNat :=
    ((Nat.add_le_add_left (Nat.min_le_right _ _) _).trans (Nat.add_sub_cancel' hle₁).le).trans
      ((Nat.le_add_right _ _).trans hlast)
  rw [if_pos (hfirst ▸ hread)]
  dsimp only
  rw [if_pos (hrest ▸ (Nat.add_le_add_left (Nat.min_le_right _ _) _).trans hlast), hfirst, hzeros,
    hrest, ← hbytes, take_content]
  rfl

/-! ### Making and dropping buffers -/

/-- Copying a buffer adds a reference and no bytes. -/
theorem Holds.copy (h : Holds m held ((b, bytes) :: l)) (hd : m.data b.m_data = some d)
    (hcount : d.m_count.toNat + 1 < 2 ^ 32) :
    ∃ m' b', copy m b = .ok (m', b') ∧ b' = { b with m_maxZeroAreaStart := b.m_zeroAreaStart } ∧
      Holds m' held ((b', bytes) :: (b, bytes) :: l) := by
  refine ⟨_, _, ?_, rfl, h.share hd hcount b.m_zeroAreaStart⟩
  unfold Buffer.copy
  rw [deref_of_data hd]
  rfl

/-- What is removed at the end leaves what was asked for, or there is nothing left. -/
theorem min_sub_removed {start length size : ℕ} (hsize : size < 2 ^ 32)
    (h : start + length ≤ size ∨ size ≤ start ∨ start + length = size + 2 ^ 32) :
    min length (size - start) =
      min (size - start - (2 ^ 32 - (start + length) % 2 ^ 32 + size) % 2 ^ 32) (size - start) := by
  omega

/-- A fragment holds a piece of the bytes. -/
theorem Holds.createFragment {held : List ℕ} {start length : UInt32}
    (h : Holds m held ((b, bytes) :: l)) (hd : m.data b.m_data = some d)
    (hcount : d.m_count.toNat + 1 < 2 ^ 32) (hstart : b.m_start.toNat + start.toNat < 2 ^ 32)
    (hlength : start.toNat + length.toNat ≤ bytes.length ∨ bytes.length ≤ start.toNat ∨
      start.toNat + length.toNat = bytes.length + 2 ^ 32) :
    ∃ m' b', CreateFragment m b start length = .ok (m', b') ∧
      Holds m' held ((b', (bytes.drop start.toNat).take length.toNat) :: (b, bytes) :: l) := by
  obtain ⟨m', tmp, hok, htmp, hholds⟩ := h.copy hd hcount
  have hshape := (h.entry_of mem_cons_self rfl hd).1.toShape
  have hshape' : Shape tmp := htmp ▸ ⟨hshape.start_le, hshape.zero_le, hshape.le_end⟩
  have hstart' : tmp.m_start = b.m_start := by rw [htmp]
  obtain ⟨hshrinks, hdrop⟩ := removeAtStart_shrinks hshape' (hstart' ▸ hstart)
  have hdropped := hholds.shrink hshrinks hdrop
  let remove := GetSize b - (start + length)
  obtain ⟨hshrinks', htake⟩ := removeAtEnd_shrinks remove hshrinks.toShape
  have htaken := hdropped.shrink (f := fun x => x.take (x.length - remove.toNat)) hshrinks' htake
  have hremove : (bytes.drop start.toNat).take length.toNat =
      (bytes.drop start.toNat).take ((bytes.drop start.toNat).length - remove.toNat) := by
    have hsize := toNat_getSize hshape
    have hbytes := length_content d.m_data hshape
    rw [(h.entry_of mem_cons_self rfl hd).2] at hbytes
    dsimp only at hsize hbytes
    have hend := b.m_end.toNat_lt
    have hnat : remove.toNat =
        (2 ^ 32 - (start.toNat + length.toNat) % 2 ^ 32 + bytes.length) % 2 ^ 32 := by
      unfold remove
      rw [UInt32.toNat_sub, UInt32.toNat_add, hsize, hbytes]
    rw [take_eq_take_iff, length_drop, hnat]
    exact min_sub_removed (by omega) hlength
  refine ⟨m', RemoveAtEnd (RemoveAtStart tmp start) remove, ?_, hremove ▸ htaken⟩
  unfold CreateFragment
  rw [hok]
  rfl

/-- Assignment makes both buffers the same. -/
theorem Holds.assign (h : Holds m [] ((b, bytes) :: (b', bytes') :: l))
    (hcount : b.m_data ≠ b'.m_data →
      ∀ d, m.data b'.m_data = some d → d.m_count.toNat + 1 < 2 ^ 32) :
    ∃ m', assign m b b' = .ok (m', b') ∧
      Holds m' [] ((b', bytes') :: (b', bytes') :: l) := by
  unfold Buffer.assign
  by_cases hsame : b.m_data = b'.m_data
  · -- the same block, with other offsets
    obtain ⟨d, hd, -⟩ := h.entry _ mem_cons_self
    dsimp only at hd
    have hother : (b', bytes') ∈ (b', bytes') :: l := mem_cons_self ..
    obtain ⟨hwithin, hbytes⟩ := h.entry_of (mem_cons_of_mem _ hother) hsame.symm hd
    dsimp only at hwithin hbytes
    have hset : Holds (m.set b.m_data d) [] ((b', content d.m_data b') :: (b', bytes') :: l) := by
      refine h.modify hd rfl hsame.symm hwithin (fun _ _ _ hy => ⟨hy, rfl⟩) ?_ ?_
      · intro hend y hy ha
        exact h.tails _ (mem_cons_of_mem _ hother) y (mem_cons_of_mem _ hy)
          (ha.trans hsame) d (hsame ▸ hd) hend
      · intro y hy ha hend
        exact ⟨hend, h.tails y (mem_cons_of_mem _ hy) _ (mem_cons_of_mem _ hother)
          (hsame.symm.trans ha.symm) d (ha ▸ hd) hend⟩
    rw [set_self hd, hbytes] at hset
    rw [if_pos hsame]
    exact ⟨_, rfl, hset.of_data rfl (List.Sublist.refl _) le_rfl⟩
  · -- a reference less to one block and one more to the other
    obtain ⟨m₁, hrelease, hholds, hframe⟩ := h.release
    obtain ⟨d, hd, -⟩ := hholds.entry _ mem_cons_self
    dsimp only at hd
    have hd' : m.data b'.m_data = some d := (hframe _ (Ne.symm hsame)).symm.trans hd
    have hshare := hholds.share hd (hcount hsame d hd') b'.m_maxZeroAreaStart
    rw [if_neg hsame, hrelease]
    simp only [deref_of_data hd, bind, Except.bind, pure, Except.pure]
    exact ⟨_, rfl, hshare.of_data rfl (List.Sublist.refl _) le_rfl⟩

/-- Destruction drops the buffer. -/
theorem Holds.destroy (h : Holds m [] ((b, bytes) :: l)) :
    ∃ m', destroy m b = .ok m' ∧ Holds m' [] l := by
  have h' : Holds { m with g_recommendedStart := max m.g_recommendedStart b.m_maxZeroAreaStart } []
      ((b, bytes) :: l) := h.of_data rfl (List.Sublist.refl _) le_rfl
  obtain ⟨m', hok, hholds, -⟩ := h'.release
  exact ⟨m', hok, hholds⟩

/-- The size of the block that a new buffer gets. -/
def firstSize (m : Heap) : UInt32 :=
  match m.g_freeList with
  | [] => 1
  | address :: _ => ((m.data address).map Data.m_size).getD 0

/-- Data created without a size has the recommended one. -/
theorem create_zero {m' : Heap} {a : ℕ} (hok : Create m 0 = .ok (m', a)) (hd : m'.data a = some d) :
    d.m_size = firstSize m ∧ m'.g_recommendedStart = m.g_recommendedStart := by
  unfold Create at hok
  unfold firstSize
  cases hfree : m.g_freeList with
  | nil =>
    rw [hfree] at hok
    cases hok
    have hd' := (Function.update_self ..).symm.trans hd
    cases hd'
    exact ⟨rfl, rfl⟩
  | cons address rest =>
    rw [hfree] at hok
    unfold createFrom deref at hok
    cases hdata : m.data address with
    | none =>
      rw [hdata] at hok
      cases hok
    | some data =>
      rw [hdata] at hok
      have hle : (0 : UInt32) ≤ data.m_size := le_iff_toNat_le.mpr (Nat.zero_le _)
      simp only [bind, Except.bind, if_pos hle] at hok
      cases hok
      rw [set_data_self] at hd
      cases hd
      dsimp only
      rw [hdata]
      exact ⟨rfl, rfl⟩

/-- A new buffer holds its zeros. -/
theorem Holds.initialize {zeroSize : UInt32} (h : Holds m [] l)
    (hfits : (min (firstSize m) m.g_recommendedStart).toNat + zeroSize.toNat < 2 ^ 32) :
    ∃ m' b, Initialize m zeroSize = .ok (m', b) ∧
      Holds m' [] ((b, List.replicate zeroSize.toNat 0) :: l) := by
  obtain ⟨m₁, a, hcreate, hcreated⟩ := create_created 0 h (by decide)
  obtain ⟨d, hd, -⟩ := hcreated.block
  obtain ⟨hsize, hrecommended⟩ := create_zero hcreate hd
  rw [← hsize, ← hrecommended] at hfits
  let start := min d.m_size m₁.g_recommendedStart
  let b : Handle := ⟨a, start, start, start + zeroSize, start, start + zeroSize⟩
  let d' : Data := { d with m_dirtyStart := b.m_start, m_dirtyEnd := b.m_end }
  have hend : (start + zeroSize).toNat = start.toNat + zeroSize.toNat := toNat_add hfits
  have hinner : internalEnd b = start.toNat :=
    (congrArg (start.toNat + ·) (Nat.sub_self _)).trans (Nat.add_zero _)
  have hstart : start.toNat ≤ d.m_size.toNat := by
    rw [show start.toNat = _ from toNat_min _ _]
    exact Nat.min_le_left _ _
  have hwithin : Within d' b :=
    ⟨⟨le_rfl, (Nat.le_add_right _ _).trans hend.ge, le_rfl⟩, le_rfl, le_rfl,
      hinner.trans_le hstart⟩
  have hcontent : content d'.m_data b = List.replicate zeroSize.toNat 0 := by
    unfold content
    dsimp only [b]
    rw [Nat.sub_self, Nat.sub_self, hend, Nat.add_sub_cancel_left]
    exact append_nil _
  refine ⟨m₁.set a d', b, ?_, ?_⟩
  · unfold Initialize
    simp only [hcreate, deref_of_data hd, bind, Except.bind, pure, Except.pure]
    rfl
  · rw [← hcontent]
    exact hcreated.holds.attach hcreated.unshared hd rfl rfl hwithin

end Ns3Joined.Network.Buffer
