import Ns3Joined.Network.BufferCorrect
import Ns3Joined.Network.BufferFullCopy

/-!
# When one buffer comes behind another

`AddAtEnd` of a buffer is right where it copies, unless both buffers are in one block and the first
one grows there: `Write` then finds its source in the block that it writes to. Where it merges zero
areas, it writes the bytes behind them too far back in the block, as if the zeros were in it.

* `writeFrom_all`: `Write` of a whole buffer, into one without zeros.
* `Holds.appendCopied`: the bytes behind a copy.
* `Holds.appendZeros`: the bytes behind merged zeros. They are right by accident (`LandsRight`).
* `addAtEndBuffer_iff`: **exactly when `AddAtEnd` appends the bytes.**
-/

namespace Ns3Joined.Network.Buffer

open List ExceptFold UInt32

variable {m m' m₁ : Heap} {l : List Entry} {a : ℕ} {d d' e : Data} {b b' b₁ o : Handle}
  {bytes bytes' : List UInt8} {start grow off n : UInt32}

/-! ### From buffer to buffer -/

variable {destOff : UInt32}

/-- What `memcpy` does within the bounds. -/
theorem memcpy_eq {a' : ℕ} (hd : m.data a = some d) (he : m.data a' = some e)
    (hread : off.toNat + n.toNat ≤ e.m_size.toNat)
    (hroom : destOff.toNat + n.toNat ≤ d.m_size.toNat) :
    memcpy m a destOff a' off n =
      .ok (m.set a (d.write destOff.toNat (Area.read e.m_data off.toNat n.toNat))) := by
  unfold memcpy
  split_ifs with hzero
  · have hnat : n.toNat = 0 := by
      rw [hzero]
      rfl
    rw [hnat, Area.read_zero, Data.write_nil, set_self hd]
    rfl
  · rw [deref_of_data he, ok_bind, readBlock_eq_ok.mpr ⟨hread, rfl⟩,
      ok_bind]
    exact (writeBlock_eq_ok hd).mpr ⟨by rw [Area.length_read]; exact hroom, rfl⟩

/-- What `memset` does within the bounds. -/
theorem memset_eq (hd : m.data a = some d) (hroom : destOff.toNat + n.toNat ≤ d.m_size.toNat) :
    memset m a destOff n =
      .ok (m.set a (d.write destOff.toNat (List.replicate n.toNat 0))) := by
  unfold memset
  split_ifs with hzero
  · have hnat : n.toNat = 0 := by
      rw [hzero]
      rfl
    rw [hnat, replicate_zero, Data.write_nil, set_self hd]
  · exact (writeBlock_eq_ok hd).mpr ⟨by rw [length_replicate]; exact hroom, rfl⟩

variable {i : UInt32} {y : List UInt8}

section Transfers

variable (he : m.data o.m_data = some e) (hwithin : Within e o) (hd : m.data b.m_data = some d)

/-- The offsets of a handle within its data do not wrap. -/
theorem Within.lt {b : Handle} (h : Within d b) : b.m_end.toNat < 2 ^ 32 ∧
    b.m_zeroAreaStart.toNat + (b.m_end.toNat - b.m_zeroAreaEnd.toNat) ≤ d.m_size.toNat :=
  ⟨b.m_end.toNat_lt, h.internalEnd_le⟩

include he hwithin hd

/-- The first part, from the start of the source. -/
theorem writeFirst_eq
    (hroom : i.toNat + (o.m_zeroAreaStart.toNat - o.m_start.toNat) ≤ d.m_size.toNat) :
    writeFirst b o ⟨m, i, o.m_start, o.m_end - o.m_start⟩ =
      .ok ⟨m.set b.m_data (d.write i.toNat
          (Area.read e.m_data o.m_start.toNat (o.m_zeroAreaStart.toNat - o.m_start.toNat))),
        i + (o.m_zeroAreaStart - o.m_start), o.m_zeroAreaStart, o.m_end - o.m_zeroAreaStart⟩ := by
  obtain ⟨hlt, hinner⟩ := hwithin.lt
  obtain ⟨hle₁, hle₂, hle₃⟩ := hwithin.toShape
  have hsub := toNat_sub hle₁
  have hmin : min (o.m_end - o.m_start) (o.m_zeroAreaStart - o.m_start) =
      o.m_zeroAreaStart - o.m_start := by
    apply UInt32.toNat_inj.mp
    rw [toNat_min, toNat_sub (by omega), hsub]
    omega
  have hread : o.m_start.toNat + (o.m_zeroAreaStart - o.m_start).toNat ≤ e.m_size.toNat := by omega
  have hcopy := memcpy_eq hd he hread (hsub.symm ▸ hroom)
  rw [hsub] at hcopy
  unfold writeFirst
  dsimp only
  rw [if_pos (le_iff_toNat_le.mpr hle₁), hmin, hcopy, add_sub_cancel,
    sub_sub_sub_cancel_right]
  rfl

omit he in
/-- The second part, from the start of the zeros. -/
theorem writeZeroArea_eq
    (hroom : i.toNat + (o.m_zeroAreaEnd.toNat - o.m_zeroAreaStart.toNat) ≤ d.m_size.toNat) :
    writeZeroArea b o ⟨m, i, o.m_zeroAreaStart, o.m_end - o.m_zeroAreaStart⟩ =
      .ok ⟨m.set b.m_data (d.write i.toNat
          (List.replicate (o.m_zeroAreaEnd.toNat - o.m_zeroAreaStart.toNat) 0)),
        i + (o.m_zeroAreaEnd - o.m_zeroAreaStart), o.m_zeroAreaEnd, o.m_end - o.m_zeroAreaEnd⟩ := by
  obtain ⟨hlt, hinner⟩ := hwithin.lt
  obtain ⟨hle₁, hle₂, hle₃⟩ := hwithin.toShape
  have hsub := toNat_sub hle₂
  have hmin : min (o.m_end - o.m_zeroAreaStart) (o.m_zeroAreaEnd - o.m_zeroAreaStart) =
      o.m_zeroAreaEnd - o.m_zeroAreaStart := by
    apply UInt32.toNat_inj.mp
    rw [toNat_min, toNat_sub (by omega), hsub]
    omega
  rw [← hsub] at hroom
  have hset := memset_eq hd hroom
  rw [hsub] at hset
  unfold writeZeroArea
  dsimp only
  rw [if_pos (le_iff_toNat_le.mpr hle₂), hmin, hset, add_sub_cancel,
    sub_sub_sub_cancel_right]
  rfl

/-- The last part, from the end of the zeros. -/
theorem writeLast_eq
    (hroom : i.toNat + (o.m_end.toNat - o.m_zeroAreaEnd.toNat) ≤ d.m_size.toNat) :
    writeLast b o ⟨m, i, o.m_zeroAreaEnd, o.m_end - o.m_zeroAreaEnd⟩ =
      .ok (m.set b.m_data (d.write i.toNat
        (Area.read e.m_data o.m_zeroAreaStart.toNat (o.m_end.toNat - o.m_zeroAreaEnd.toNat)))) := by
  obtain ⟨hlt, hinner⟩ := hwithin.lt
  have hsub := toNat_sub hwithin.le_end
  have hread : o.m_zeroAreaStart.toNat + (o.m_end - o.m_zeroAreaEnd).toNat ≤ e.m_size.toNat := by
    omega
  have hcopy := memcpy_eq hd he hread (hsub.symm ▸ hroom)
  rw [hsub] at hcopy
  have hmin : min (o.m_end - o.m_zeroAreaEnd) (o.m_end - o.m_zeroAreaEnd) =
      o.m_end - o.m_zeroAreaEnd := by
    apply UInt32.toNat_inj.mp
    rw [toNat_min, Nat.min_self]
  unfold writeLast
  dsimp only
  rw [sub_sub_cancel, hmin, hcopy]

end Transfers

/-- **`Write` of a whole buffer** writes its bytes where it is told to, in the block. -/
theorem writeFrom_all {held : List ℕ} (h : Holds m held l) (ho : (o, y) ∈ l)
    (hne : b.m_data ≠ o.m_data) (hd : m.data b.m_data = some d)
    (hcheck : CheckNoZero b i.toNat (i + (o.m_end - o.m_start)).toNat = true)
    (hroom : i.toNat + y.length ≤ d.m_size.toNat) :
    WriteFrom m b i o o.m_start o.m_end = writeBlock m b.m_data i y := by
  obtain ⟨e, he, hwithin, hfirst, hlast, hparts⟩ := h.parts ho
  obtain ⟨hlt, hinner⟩ := hwithin.lt
  obtain ⟨hle₁, hle₂, hle₃⟩ := hwithin.toShape
  have hfirstLength : (firstBytes o y).length = o.m_zeroAreaStart.toNat - o.m_start.toNat := by
    rw [← hfirst, Area.length_read]
  have hlastLength : (lastBytes o y).length = o.m_end.toNat - o.m_zeroAreaEnd.toNat := by
    rw [← hlast, Area.length_read]
  have hlength : y.length = (firstBytes o y).length +
      (o.m_zeroAreaEnd.toNat - o.m_zeroAreaStart.toNat) + (lastBytes o y).length := by
    conv_lhs => rw [hparts]
    rw [length_append, length_append, length_replicate]
  have hsize := d.m_size.toNat_lt
  have hcurrent₁ : (i + (o.m_zeroAreaStart - o.m_start)).toNat =
      i.toNat + (firstBytes o y).length := by
    rw [toNat_add, toNat_sub hle₁, hfirstLength]
    rw [toNat_sub hle₁]
    omega
  have hcurrent₂ : (i + (o.m_zeroAreaStart - o.m_start) +
      (o.m_zeroAreaEnd - o.m_zeroAreaStart)).toNat = i.toNat + (firstBytes o y ++
        List.replicate (o.m_zeroAreaEnd.toNat - o.m_zeroAreaStart.toNat) 0).length := by
    rw [toNat_add, hcurrent₁, toNat_sub hle₂, length_append, length_replicate,
      Nat.add_assoc]
    rw [hcurrent₁, toNat_sub hle₂]
    omega
  have hstart : o.m_start ≤ o.m_end :=
    le_iff_toNat_le.mpr (hle₁.trans (hle₂.trans hle₃))
  -- the source is in another block, which stays as it is
  have hsource : ∀ d₁ d₂, ((m.set b.m_data d₁).set b.m_data d₂).data o.m_data = some e :=
    fun _ _ => (set_data_of_ne hne.symm).trans ((set_data_of_ne hne.symm).trans he)
  unfold WriteFrom
  dsimp only
  rw [if_neg (not_not_intro hstart), if_neg hne, if_neg (not_not_intro hcheck),
    writeFirst_eq he hwithin hd (by omega), ok_bind,
    writeZeroArea_eq hwithin set_data_self (by rw [hcurrent₁]; dsimp only [Data.write]; omega),
    ok_bind,
    writeLast_eq (hsource _ _) hwithin set_data_self (by
      rw [hcurrent₂, length_append, length_replicate]
      dsimp only [Data.write]
      omega)]
  rw [set_set, set_set, hfirst, hlast, hcurrent₂, hcurrent₁, Data.write_write, Data.write_write,
    ← hparts]
  exact ((writeBlock_eq_ok hd).mpr ⟨hroom, rfl⟩).symm

/-- **`Write` of what is behind the zeros** of a buffer. -/
theorem writeFrom_behind (hzeros : o.m_zeroAreaStart.toNat < o.m_zeroAreaEnd.toNat)
    (hle : o.m_zeroAreaEnd.toNat ≤ o.m_end.toNat) (hne : b.m_data ≠ o.m_data)
    (hcheck : CheckNoZero b i.toNat (i + (o.m_end - o.m_zeroAreaEnd)).toNat = true) :
    WriteFrom m b i o o.m_zeroAreaEnd o.m_end =
      memcpy m b.m_data i o.m_data o.m_zeroAreaStart (o.m_end - o.m_zeroAreaEnd) := by
  have hfirst : ¬ o.m_zeroAreaEnd ≤ o.m_zeroAreaStart := fun hle =>
    absurd (le_iff_toNat_le.mp hle) (Nat.not_le_of_lt hzeros)
  have hnone : min (o.m_end - o.m_zeroAreaEnd) (o.m_zeroAreaEnd - o.m_zeroAreaEnd) = 0 := by
    apply UInt32.toNat_inj.mp
    rw [sub_self, toNat_min]
    exact Nat.min_zero _
  have hmin : min (o.m_end - o.m_zeroAreaEnd) (o.m_end - o.m_zeroAreaEnd) =
      o.m_end - o.m_zeroAreaEnd := by
    apply UInt32.toNat_inj.mp
    rw [toNat_min, Nat.min_self]
  unfold WriteFrom writeFirst writeZeroArea writeLast
  dsimp only
  rw [if_neg (not_not_intro (le_iff_toNat_le.mpr hle)), if_neg hne,
    if_neg (not_not_intro hcheck), if_neg hfirst, ok_bind]
  dsimp only
  rw [if_pos (UInt32.le_refl _), hnone]
  show memcpy m b.m_data (i + 0) o.m_data
    (o.m_zeroAreaEnd + 0 - (o.m_zeroAreaEnd - o.m_zeroAreaStart))
    (min (o.m_end - o.m_zeroAreaEnd - 0) (o.m_end - (o.m_zeroAreaEnd + 0))) = _
  rw [add_zero, add_zero, sub_zero, sub_sub_cancel, hmin]

/-! ### Behind a copy -/

variable {x : List UInt8}

/-- The bytes behind a buffer that has no zeros. -/
theorem Holds.appendCopied (h : Holds m [] ((b, x) :: l)) (hd : m.data b.m_data = some d)
    (ho : (o, y) ∈ l) (hnoZeros : b.m_zeroAreaEnd = b.m_zeroAreaStart)
    (hend : b.m_end.toNat + y.length < 2 ^ 32) (hfits : x.length + y.length + 19 < 2 ^ 32) :
    ∃ m' b' i, AddAtEnd m b (GetSize o) = .ok (m', b') ∧ Prev b'.m_end (GetSize o) = .ok i ∧
      if b.m_data = o.m_data ∧ GrowsInPlace d b (GetSize o) then
        WriteFrom m' b' i o o.m_start o.m_end = .error .abort
      else ∃ m'', WriteFrom m' b' i o o.m_start o.m_end = .ok m'' ∧
        Holds m'' [] ((b', x ++ y) :: l) := by
  obtain ⟨e, he, hwithin, hfirst, hlast, hparts⟩ := h.parts (mem_cons_of_mem _ ho)
  have hsize : y.length = (GetSize o).toNat := by
    have hlength := length_content e.m_data hwithin.toShape
    rw [(h.entry_of (mem_cons_of_mem _ ho) rfl he).2] at hlength
    exact hlength.trans (toNat_getSize hwithin.toShape).symm
  rw [hsize] at hend hfits
  obtain ⟨m', b', i, gap, hok, hprev, hholds, hgap, hroom, hi, hwrite⟩ :=
    h.addAtEnd_write hd hend hfits
  refine ⟨m', b', i, hok, hprev, ?_⟩
  have hstart : o.m_start ≤ o.m_end := le_iff_toNat_le.mpr
    (hwithin.start_le.trans (hwithin.zero_le.trans hwithin.le_end))
  obtain ⟨d', hd', hwithin', hcontent⟩ := hholds.entry _ mem_cons_self
  dsimp only at hd' hwithin' hcontent
  -- the block of the buffer, and its zeros
  have hblock : (b'.m_data = o.m_data ↔ b.m_data = o.m_data ∧ GrowsInPlace d b (GetSize o)) ∧
      b'.m_zeroAreaEnd = b'.m_zeroAreaStart := by
    obtain ⟨hplace, -, rfl⟩ | ⟨hplace, m₁, b₁, hmoved, -, rfl⟩ := addAtEnd_cases hd hok
    · exact ⟨(and_iff_left hplace).symm, hnoZeros⟩
    · obtain ⟨m₂, b₂, hmoved', hspec⟩ := h.moveToNew 0 (GetSize o) (Nat.zero_le _)
        (h.moveFits hfits)
      rw [hmoved] at hmoved'
      cases hmoved'
      refine ⟨⟨fun heq => ?_, fun hboth => absurd hboth.2 hplace⟩, ?_⟩
      · exact absurd heq.symm (refs_eq_zero.mp hspec.unshared _ ho)
      · obtain ⟨m₃, address, data, copied, -, -, -, -, rfl⟩ := moveToNew_cases hmoved
        show b.m_zeroAreaEnd + _ = b.m_zeroAreaStart + _
        rw [hnoZeros]
  obtain ⟨hsame, hnoZeros'⟩ := hblock
  split_ifs with hboth
  · unfold WriteFrom
    dsimp only
    rw [if_neg (not_not_intro hstart), if_pos (hsame.mpr hboth)]
  · have hne : b'.m_data ≠ o.m_data := fun heq => hboth (hsame.mp heq)
    obtain ⟨m'', hok', hholds'⟩ := hwrite y hsize
    refine ⟨m'', ?_, hholds'⟩
    have hle := hwithin'.start_le.trans hwithin'.zero_le
    have hadd : (i + (o.m_end - o.m_start)).toNat = b'.m_end.toNat := by
      have hlt := b'.m_end.toNat_lt
      change (i + GetSize o).toNat = _
      rw [toNat_add (by omega)]
      exact hi
    have hcheck : CheckNoZero b' i.toNat (i + (o.m_end - o.m_start)).toNat = true :=
      checkNoZero_of_le (by omega) (by omega) (.inr hroom)
    -- without zeros, the offset is the one in the block
    have hinner := hwithin'.internalEnd_le
    have hzeros := hwithin'.zero_le
    unfold internalEnd at hinner
    have heq := congrArg UInt32.toNat hnoZeros'
    rw [writeFrom_all hholds (mem_cons_of_mem _ ho) hne hd' hcheck (by omega), ← hok']
    unfold Write at hok' ⊢
    split_ifs at hok' ⊢
    · rfl
    · rw [hnoZeros', sub_self, sub_zero]

/-! ### Behind zeros -/

/-- Where `AddAtEnd` makes room: the block, and the offset in it. -/
def growTarget (m : Heap) (d : Data) (b : Handle) (grow : UInt32) : Except Fault (Data × ℕ) :=
  if GrowsInPlace d b grow then .ok (d, internalEnd b)
  else do
    let (m, address) ← Create m (GetInternalSize b + grow)
    let data ← deref m address
    return (data, (GetInternalSize b).toNat)

/-- What is in the room that `AddAtEnd` makes was there before. -/
theorem Holds.addAtEnd_target (h : Holds m [] ((b, bytes) :: l)) (hd : m.data b.m_data = some d)
    (hend : b.m_end.toNat + grow.toNat < 2 ^ 32)
    (hfits : bytes.length + grow.toNat + 19 < 2 ^ 32)
    (hok : AddAtEnd m b grow = .ok (m', b')) :
    (refs l b.m_data = 0 → refs l b'.m_data = 0) ∧
    b'.m_zeroAreaEnd.toNat - b'.m_zeroAreaStart.toNat =
      b.m_zeroAreaEnd.toNat - b.m_zeroAreaStart.toNat ∧
    b'.m_end.toNat - b'.m_zeroAreaEnd.toNat =
      b.m_end.toNat - b.m_zeroAreaEnd.toNat + grow.toNat ∧
    ∃ data p d', growTarget m d b grow = .ok (data, p) ∧ p + grow.toNat = internalEnd b' ∧
      m'.data b'.m_data = some d' ∧ d'.m_size = data.m_size ∧
      ∀ k, p ≤ k → d'.m_data k = data.m_data k := by
  obtain ⟨hwithin, hbytes⟩ := h.entry_of mem_cons_self rfl hd
  dsimp only at hwithin hbytes
  have hinner := toNat_getInternalSize hwithin.toShape
  have hlength := length_content d.m_data hwithin.toShape
  rw [hbytes] at hlength
  obtain ⟨hle₁, hle₂, hle₃⟩ := hwithin.toShape
  -- The buffer grows in place, or its bytes move to a new block.
  obtain ⟨hplace, rfl, rfl⟩ | ⟨hplace, m₁, b₁, hmoved, hdirty, rfl⟩ := addAtEnd_cases hd hok
  · have hnew := toNat_add hend
    refine ⟨id, rfl, ?_, d, internalEnd b, _, if_pos hplace, ?_, set_data_self, rfl,
      fun _ _ => rfl⟩
    · show (b.m_end + grow).toNat - b.m_zeroAreaEnd.toNat = _
      omega
    · show _ = b.m_zeroAreaStart.toNat + ((b.m_end + grow).toNat - b.m_zeroAreaEnd.toNat)
      unfold internalEnd
      omega
  · obtain ⟨m₂, b₂, hmoved', hspec⟩ := h.moveToNew 0 grow (Nat.zero_le _) (h.moveFits hfits)
    rw [hmoved] at hmoved'
    cases hmoved'
    obtain ⟨m₃, address, data, copied, hcreate, hdata, hcopied, hrelease, hb₁⟩ :=
      moveToNew_cases hmoved
    have hzero : (0 : UInt32).toNat = 0 := rfl
    have hstart : b₁.m_start.toNat = 0 := hspec.start_eq
    have hend₁ : b₁.m_end.toNat = bytes.length := by
      rw [hspec.end_eq, hzero, Nat.zero_add]
    have hzero₁ : b₁.m_zeroAreaStart.toNat = b.m_zeroAreaStart.toNat - b.m_start.toNat := by
      rw [hb₁]
      exact (toNat_relocate hle₁ (by omega)).trans (Nat.zero_add _)
    have hzero₂ : b₁.m_zeroAreaEnd.toNat = b.m_zeroAreaEnd.toNat - b.m_start.toNat := by
      rw [hb₁]
      exact (toNat_relocate (hle₁.trans hle₂) (by omega)).trans (Nat.zero_add _)
    have hnew : (b₁.m_end + grow).toNat = b₁.m_end.toNat + grow.toNat := toNat_add (by omega)
    obtain ⟨d₁, hd₁, -⟩ := hspec.block
    -- the block is the new one
    have hfits' : (GetInternalSize b + grow).toNat + 19 < 2 ^ 32 := by
      have hle := (h.moveFits hfits).2
      rw [toNat_add (by omega)]
      exact hle
    obtain ⟨m₄, address', hcreate', hcreated⟩ := create_created (GetInternalSize b + grow) h hfits'
    rw [hcreate] at hcreate'
    cases hcreate'
    have hne : address ≠ b.m_data := fun heq =>
      refs_eq_zero.mp hcreated.unshared _ mem_cons_self heq.symm
    have hheld : Holds (m₃.set address (data.write (0 : UInt32).toNat copied)) [address]
        ((b, bytes) :: l) := hcreated.holds.setHeld hcreated.unshared hdata rfl
    obtain ⟨m₅, hrelease', -, hframe⟩ := hheld.release
    rw [hrelease] at hrelease'
    cases hrelease'
    have hd₁' : d₁ = data.write 0 copied := by
      rw [hb₁] at hd₁
      have heq := (hframe address hne).trans set_data_self
      exact Option.some.inj (hd₁.symm.trans heq)
    obtain rfl : m' = m₁.set b₁.m_data { d₁ with
        m_dirtyStart := b₁.m_start, m_dirtyEnd := b₁.m_end + grow } := by
      unfold updateDirty at hdirty
      rw [deref_of_data hd₁] at hdirty
      cases hdirty
      rfl
    refine ⟨fun _ => hspec.unshared, ?_, ?_, data, (GetInternalSize b).toNat, _, ?_, ?_,
      set_data_self, ?_, ?_⟩
    · show b₁.m_zeroAreaEnd.toNat - b₁.m_zeroAreaStart.toNat = _
      omega
    · show (b₁.m_end + grow).toNat - b₁.m_zeroAreaEnd.toNat = _
      omega
    · unfold growTarget
      rw [if_neg hplace, hcreate, ok_bind]
      dsimp only
      rw [deref_of_data hdata]
      rfl
    · show _ = b₁.m_zeroAreaStart.toNat + ((b₁.m_end + grow).toNat - b₁.m_zeroAreaEnd.toNat)
      unfold internalEnd at hinner
      omega
    · rw [hd₁']
      rfl
    · intro k hk
      have hle : 0 + copied.length ≤ k := by omega
      show d₁.m_data k = _
      rw [hd₁']
      exact Area.write_of_le hle

/-- The heap and the buffer after the zero areas were merged. -/
def mergedHeap (m : Heap) (d : Data) (b o : Handle) : Heap :=
  m.set b.m_data { d with m_dirtyEnd := (mergeZeros b o).m_zeroAreaEnd }

/-- Behind the zeros of both buffers, the bytes `last` are written as many places too far as there
are zeros. This does no harm if the block has room for it and happens to have the same bytes. -/
def LandsRight (m : Heap) (d : Data) (b o : Handle) (last : List UInt8) : Prop :=
  ∃ data p, growTarget (mergedHeap m d b o) { d with m_dirtyEnd := (mergeZeros b o).m_zeroAreaEnd }
      (mergeZeros b o) (o.m_end - o.m_zeroAreaEnd) = .ok (data, p) ∧
    let q := p + ((mergeZeros b o).m_zeroAreaEnd.toNat - b.m_zeroAreaStart.toNat)
    q + last.length ≤ data.m_size.toNat ∧
      Area.read (Area.write data.m_data q last) p last.length = last

section

variable (h : Holds m [] ((b, x) :: l)) (hd : m.data b.m_data = some d) (ho : (o, y) ∈ l)
  (hmeets : MeetsZeros d b o) (hend : b.m_end.toNat + y.length < 2 ^ 32)

include h hd ho hmeets hend

/-- The zeros of the second buffer come to those of the first. -/
theorem Holds.mergeZeros :
    Holds (mergedHeap m d b o) [] ((Buffer.mergeZeros b o,
        x ++ List.replicate (o.m_zeroAreaEnd.toNat - o.m_zeroAreaStart.toNat) 0) :: l) ∧
      (Buffer.mergeZeros b o).m_zeroAreaEnd.toNat =
        b.m_end.toNat + (o.m_zeroAreaEnd.toNat - o.m_zeroAreaStart.toNat) ∧
      refs l b.m_data = 0 ∧ o.m_zeroAreaStart.toNat < o.m_zeroAreaEnd.toNat ∧
      y = List.replicate (o.m_zeroAreaEnd.toNat - o.m_zeroAreaStart.toNat) 0 ++
        lastBytes o y := by
  obtain ⟨hone, hlast, hdirty, hfirst, hzeros⟩ := hmeets
  obtain ⟨e, he, hwithin', -, -, hparts⟩ := h.parts (mem_cons_of_mem _ ho)
  obtain ⟨hwithin, hbytes⟩ := h.entry_of mem_cons_self rfl hd
  dsimp only at hwithin hbytes
  obtain ⟨hle₁, hle₂, hle₃⟩ := hwithin.toShape
  have hsub := toNat_sub hwithin'.zero_le
  have hpos : 0 < o.m_zeroAreaEnd.toNat - o.m_zeroAreaStart.toNat :=
    hsub ▸ lt_iff_toNat_lt.mp hzeros
  have hnone : firstBytes o y = [] := by
    unfold firstBytes
    rw [hfirst, Nat.sub_self, take_zero]
  rw [hnone, nil_append] at hparts
  have hlength : o.m_zeroAreaEnd.toNat - o.m_zeroAreaStart.toNat ≤ y.length := by
    conv_rhs => rw [hparts]
    rw [length_append, length_replicate]
    exact Nat.le_add_right _ _
  have hnew : (Buffer.mergeZeros b o).m_zeroAreaEnd.toNat =
      b.m_end.toNat + (o.m_zeroAreaEnd.toNat - o.m_zeroAreaStart.toNat) := by
    unfold Buffer.mergeZeros
    dsimp only
    rw [← hlast, toNat_add (by omega), hsub]
  have hown := h.unshared hd hone
  refine ⟨?_, hnew, refs_eq_zero.mpr hown, by omega, hparts⟩
  -- Only the end moves: the zeros of both are one zero area.
  let d' : Data := { d with m_dirtyEnd := (Buffer.mergeZeros b o).m_zeroAreaEnd }
  have hend' : (Buffer.mergeZeros b o).m_end.toNat = (Buffer.mergeZeros b o).m_zeroAreaEnd.toNat :=
    rfl
  have hwithin₁ : Within d' (Buffer.mergeZeros b o) := by
    refine ⟨⟨hle₁, ?_, Nat.le_refl _⟩, hwithin.dirtyStart_le, Nat.le_refl _, ?_⟩
    · show b.m_zeroAreaStart.toNat ≤ _
      omega
    · have hinner := hwithin.internalEnd_le
      unfold internalEnd at hinner ⊢
      show b.m_zeroAreaStart.toNat + _ ≤ d.m_size.toNat
      omega
  have hcontent : content d'.m_data (Buffer.mergeZeros b o) =
      x ++ List.replicate (o.m_zeroAreaEnd.toNat - o.m_zeroAreaStart.toNat) 0 := by
    have hnolast : b.m_end.toNat - b.m_zeroAreaEnd.toNat = 0 := by
      rw [hlast, Nat.sub_self]
    have hmerged : (Buffer.mergeZeros b o).m_zeroAreaEnd.toNat - b.m_zeroAreaStart.toNat =
        b.m_zeroAreaEnd.toNat - b.m_zeroAreaStart.toNat +
          (o.m_zeroAreaEnd.toNat - o.m_zeroAreaStart.toNat) := by
      rw [hnew, hlast]
      rw [hlast] at hle₃
      omega
    rw [← hbytes]
    unfold content
    rw [hend', Nat.sub_self, hnolast]
    show Area.read d.m_data b.m_start.toNat (b.m_zeroAreaStart.toNat - b.m_start.toNat) ++
      List.replicate ((Buffer.mergeZeros b o).m_zeroAreaEnd.toNat - b.m_zeroAreaStart.toNat) 0 ++
        [] = _
    rw [hmerged, replicate_add, Area.read_zero, append_nil, append_nil,
      append_assoc]
  rw [← hcontent]
  exact h.modify hd rfl rfl hwithin₁ (fun y hy heq => absurd heq (hown y hy))
    (fun _ y hy heq => absurd heq (hown y hy)) fun y hy heq => absurd heq (hown y hy)

/-- **The bytes behind merged zeros** are right if there are none, or by accident. -/
theorem Holds.appendZeros (hfits : x.length + y.length + 19 < 2 ^ 32) :
    ∃ m' b' i, AddAtEnd (mergedHeap m d b o) (Buffer.mergeZeros b o)
        (o.m_end - o.m_zeroAreaEnd) = .ok (m', b') ∧
      Prev b'.m_end (o.m_end - o.m_zeroAreaEnd) = .ok i ∧
      Prev o.m_end (o.m_end - o.m_zeroAreaEnd) = .ok o.m_zeroAreaEnd ∧
      ((∃ m'', WriteFrom m' b' i o o.m_zeroAreaEnd o.m_end = .ok m'' ∧
          Holds m'' [] ((b', x ++ y) :: l)) ↔
        o.m_end = o.m_zeroAreaEnd ∨ LandsRight m d b o (lastBytes o y)) := by
  obtain ⟨hmerged, hzerosEnd, hown, hzeros, hparts⟩ := h.mergeZeros hd ho hmeets hend
  obtain ⟨e, he, hwithin', -, hlast, -⟩ := hmerged.parts (mem_cons_of_mem _ ho)
  have hlastSize := toNat_sub hwithin'.le_end
  have hlastLength : (lastBytes o y).length = (o.m_end - o.m_zeroAreaEnd).toNat := by
    rw [← hlast, Area.length_read, hlastSize]
  have hlength : y.length = (o.m_zeroAreaEnd.toNat - o.m_zeroAreaStart.toNat) +
      (o.m_end - o.m_zeroAreaEnd).toNat := by
    conv_lhs => rw [hparts]
    rw [length_append, length_replicate, hlastLength]
  have hd₁ : (mergedHeap m d b o).data (Buffer.mergeZeros b o).m_data =
      some { d with m_dirtyEnd := (Buffer.mergeZeros b o).m_zeroAreaEnd } := set_data_self
  have hend₁ : (Buffer.mergeZeros b o).m_end.toNat + (o.m_end - o.m_zeroAreaEnd).toNat <
      2 ^ 32 := by
    show (Buffer.mergeZeros b o).m_zeroAreaEnd.toNat + _ < _
    omega
  have hfits₁ : (x ++ List.replicate (o.m_zeroAreaEnd.toNat - o.m_zeroAreaStart.toNat)
      (0 : UInt8)).length + (o.m_end - o.m_zeroAreaEnd).toNat + 19 < 2 ^ 32 := by
    rw [length_append, length_replicate]
    omega
  obtain ⟨m', b', i, gap, hok, hprev, hholds, hgap, hroom, hi, -⟩ :=
    hmerged.addAtEnd_write hd₁ hend₁ hfits₁
  obtain ⟨hown', hsame, hbehind, data, p, d', htarget, hp, hd', hsize, hdata⟩ :=
    hmerged.addAtEnd_target hd₁ hend₁ hfits₁ hok
  have hown₂ : refs l b'.m_data = 0 := hown' hown
  have hunshared := refs_eq_zero.mp hown₂
  have hne : b'.m_data ≠ o.m_data := (hunshared _ ho).symm
  have hprevo : Prev o.m_end (o.m_end - o.m_zeroAreaEnd) = .ok o.m_zeroAreaEnd := by
    have hle : ¬ o.m_end < o.m_end - o.m_zeroAreaEnd := by
      rw [lt_iff_toNat_lt, hlastSize]
      exact Nat.not_lt.mpr (Nat.sub_le _ _)
    unfold Prev
    rw [if_neg hle, sub_sub_cancel]
  refine ⟨m', b', i, hok, hprev, hprevo, ?_⟩
  obtain ⟨hwithin₂, hcontent⟩ := hholds.entry_of mem_cons_self rfl hd'
  dsimp only at hwithin₂ hcontent
  obtain ⟨hle₁, hle₂, hle₃⟩ := hwithin₂.toShape
  -- nothing is behind the zeros but the new bytes
  have hnew : b'.m_end.toNat - b'.m_zeroAreaEnd.toNat = (o.m_end - o.m_zeroAreaEnd).toNat := by
    rw [hbehind]
    show (Buffer.mergeZeros b o).m_zeroAreaEnd.toNat - (Buffer.mergeZeros b o).m_zeroAreaEnd.toNat +
      _ = _
    rw [Nat.sub_self, Nat.zero_add]
  have hi' : i.toNat = b'.m_zeroAreaEnd.toNat := by
    have hsum := Nat.sub_add_cancel hle₃
    rw [hnew, Nat.add_comm] at hsum
    exact Nat.add_right_cancel (hi.trans hsum.symm)
  have hp' : p = b'.m_zeroAreaStart.toNat := by
    unfold internalEnd at hp
    rw [hnew] at hp
    exact Nat.add_right_cancel hp
  have hstart : b'.m_start.toNat ≤ i.toNat := hi' ▸ hle₁.trans hle₂
  have hadd : (i + (o.m_end - o.m_zeroAreaEnd)).toNat = b'.m_end.toNat :=
    (toNat_add (hi ▸ b'.m_end.toNat_lt)).trans hi
  have hcheck : CheckNoZero b' i.toNat (i + (o.m_end - o.m_zeroAreaEnd)).toNat = true :=
    checkNoZero_of_le hstart (Nat.le_of_eq hadd) (.inr hroom)
  rw [writeFrom_behind hzeros hwithin'.le_end hne hcheck]
  by_cases hempty : o.m_end = o.m_zeroAreaEnd
  · -- no bytes are written
    have hnat : (o.m_end - o.m_zeroAreaEnd).toNat = 0 := by
      rw [hempty, sub_self]
      rfl
    have hnil : lastBytes o y = [] := eq_nil_of_length_eq_zero (hlastLength.trans hnat)
    have hgapNil : gap = [] := eq_nil_of_length_eq_zero (hgap.trans hnat)
    rw [hnil, append_nil] at hparts
    rw [hgapNil, append_nil, ← hparts] at hholds
    refine iff_of_true ⟨m', ?_, hholds⟩ (.inl hempty)
    unfold memcpy
    rw [if_pos (by rw [hempty, sub_self])]
    rfl
  · have hne₀ : o.m_end - o.m_zeroAreaEnd ≠ 0 := fun hzero => hempty (sub_eq_zero.mp hzero)
    obtain ⟨e', he', hwithin'', -, hlast', -⟩ := hholds.parts (mem_cons_of_mem _ ho)
    have hread := readLast hwithin''
    rw [hlast'] at hread
    have hcopy : memcpy m' b'.m_data i o.m_data o.m_zeroAreaStart (o.m_end - o.m_zeroAreaEnd) =
        writeBlock m' b'.m_data i (lastBytes o y) := by
      unfold memcpy
      rw [if_neg hne₀, deref_of_data he', ok_bind, hread]
      rfl
    rw [hcopy, or_iff_right hempty]
    -- only the last bytes are others
    have hcontent' : content (Area.write d'.m_data i.toNat (lastBytes o y)) b' =
        x ++ List.replicate (o.m_zeroAreaEnd.toNat - o.m_zeroAreaStart.toNat) 0 ++
          Area.read (Area.write d'.m_data i.toNat (lastBytes o y)) b'.m_zeroAreaStart.toNat
            (b'.m_end.toNat - b'.m_zeroAreaEnd.toNat) := by
      unfold content at hcontent ⊢
      have hbefore := (append_inj' hcontent (by rw [Area.length_read, hnew, hgap])).1
      have hdisjoint : b'.m_start.toNat + (b'.m_zeroAreaStart.toNat - b'.m_start.toNat) ≤
        i.toNat := by
        rw [Nat.add_sub_cancel' hle₁, hi']
        exact hle₂
      rw [Area.read_write_of_disjoint (.inl hdisjoint), hbefore]
    have harea : Area.read (Area.write d'.m_data i.toNat (lastBytes o y)) b'.m_zeroAreaStart.toNat
          (b'.m_end.toNat - b'.m_zeroAreaEnd.toNat) =
        Area.read (Area.write data.m_data i.toNat (lastBytes o y)) p (lastBytes o y).length := by
      rw [hnew, hlastLength, hp']
      refine Area.read_congr fun k hk _ => ?_
      unfold Area.write
      rw [hdata k (hp' ▸ hk)]
    have hq : p + ((Buffer.mergeZeros b o).m_zeroAreaEnd.toNat - b.m_zeroAreaStart.toNat) =
        i.toNat := by
      have hsame' : b'.m_zeroAreaEnd.toNat - b'.m_zeroAreaStart.toNat =
        (Buffer.mergeZeros b o).m_zeroAreaEnd.toNat - b.m_zeroAreaStart.toNat := hsame
      rw [← hsame', hp', hi']
      exact Nat.add_sub_cancel' hle₂
    constructor
    · rintro ⟨m'', hwrite, hholds''⟩
      obtain ⟨hfitsBlock, rfl⟩ := (writeBlock_eq_ok hd').mp hwrite
      have hbytes := (hholds''.entry_of mem_cons_self rfl set_data_self).2
      dsimp only [Data.write] at hbytes
      rw [hcontent', harea] at hbytes
      conv_rhs at hbytes => rw [hparts, ← append_assoc]
      refine ⟨data, p, htarget, ?_⟩
      rw [hq]
      exact ⟨hsize ▸ hfitsBlock, append_cancel_left hbytes⟩
    · rintro ⟨data', p', htarget', hlands⟩
      rw [htarget] at htarget'
      cases htarget'
      rw [hq] at hlands
      obtain ⟨hfitsBlock, hright⟩ := hlands
      obtain ⟨m'', hwrite, hholds''⟩ := hholds.overwrite i (lastBytes o y) hd'
        (hsize.symm ▸ hfitsBlock) fun y' hy' heq => absurd heq (hunshared y' hy')
      rw [hcontent', harea, hright, append_assoc, ← hparts] at hholds''
      exact ⟨m'', hwrite, hholds''⟩

end

/-! ### Any two buffers -/

/-- The assignment of the full copy of a buffer with zeros to it. -/
theorem Holds.assignFullCopy (h : Holds m [] ((b, x) :: l))
    (hzeros : b.m_zeroAreaEnd - b.m_zeroAreaStart ≠ 0)
    (hfits : m.g_recommendedStart.toNat + x.length + 19 < 2 ^ 32) :
    ∃ m₁ tmp m₂ m₃, CreateFullCopy m b = .ok (m₁, tmp) ∧ Buffer.assign m₁ b tmp = .ok (m₂, tmp) ∧
      Buffer.destroy m₂ tmp = .ok m₃ ∧ Holds m₃ [] ((tmp, x) :: l) ∧
      tmp.m_zeroAreaEnd = tmp.m_zeroAreaStart ∧ (∀ y ∈ l, y.1.m_data ≠ tmp.m_data) ∧
      tmp.m_end.toNat ≤ m.g_recommendedStart.toNat + x.length := by
  obtain ⟨m₁, tmp, hcopy, hplain⟩ := h.createFullCopy hzeros hfits
  have hswap := hplain.holds.perm (List.Perm.swap (b, x) (tmp, x) l)
  obtain ⟨m₂, hassign, hholds₂⟩ := hswap.assign fun _ d hd => by
    have hcount := hplain.holds.count_head hd
    rw [hplain.own, count_nil] at hcount
    omega
  obtain ⟨m₃, hdestroy, hholds₃⟩ := hholds₂.destroy
  have hown := refs_eq_zero.mp hplain.own
  exact ⟨m₁, tmp, m₂, m₃, hcopy, hassign, hdestroy, hholds₃, hplain.noZeros,
    fun y hy => hown y (mem_cons_of_mem _ hy), hplain.end_le⟩

/-- The assignment of a copy of a buffer to it. -/
theorem Holds.assignCopy (h : Holds m [] ((b, x) :: l)) (hd : m.data b.m_data = some d) :
    ∃ m₁ tmp m₂ m₃, Buffer.copy m b = .ok (m₁, tmp) ∧ Buffer.assign m₁ b tmp = .ok (m₂, tmp) ∧
      Buffer.destroy m₂ tmp = .ok m₃ ∧ Holds m₃ [] ((tmp, x) :: l) ∧ m₃.data = m.data ∧
      tmp = { b with m_maxZeroAreaStart := b.m_zeroAreaStart } := by
  obtain ⟨hwithin, hbytes⟩ := h.entry_of mem_cons_self rfl hd
  dsimp only at hwithin hbytes
  let tmp : Handle := { b with m_maxZeroAreaStart := b.m_zeroAreaStart }
  let d₁ : Data := { d with m_count := d.m_count + 1 }
  have hholds : Holds m [] ((tmp, x) :: l) := by
    have hset : Holds (m.set b.m_data d) [] ((tmp, content d.m_data tmp) :: l) := by
      refine h.modify hd rfl rfl (hwithin.setMax _) (fun _ _ _ hy => ⟨hy, rfl⟩) ?_ ?_
      · intro hend y hy heq
        exact h.tails _ mem_cons_self y (mem_cons_of_mem _ hy) heq d hd hend
      · intro y hy heq hend
        exact ⟨hend, h.tails y (mem_cons_of_mem _ hy) _ mem_cons_self heq.symm d
          (heq ▸ hd) hend⟩
    have hsame : content d.m_data tmp = x := hbytes
    rwa [set_self hd, hsame] at hset
  have hcopy : Buffer.copy m b = .ok (m.set b.m_data d₁, tmp) := by
    unfold Buffer.copy
    rw [deref_of_data hd]
    rfl
  -- the count goes up and down again
  have hcount : d.m_count + 1 - 1 = d.m_count := add_sub_cancel_right _ _
  have hpos : d.m_count ≠ 0 := by
    intro hzero
    have hhead := h.count_head hd
    rw [hzero] at hhead
    exact absurd hhead (Nat.ne_of_lt (Nat.succ_pos _))
  have hback : (m.set b.m_data d₁).set b.m_data { d₁ with m_count := d₁.m_count - 1 } = m := by
    rw [set_set]
    show m.set b.m_data { d with m_count := d.m_count + 1 - 1 } = m
    rw [hcount]
    exact set_self hd
  let r := max (max m.g_recommendedStart b.m_maxZeroAreaStart) tmp.m_maxZeroAreaStart
  have hdestroy : Buffer.destroy { m.set b.m_data d₁ with
      g_recommendedStart := max m.g_recommendedStart b.m_maxZeroAreaStart } tmp =
        .ok { m with g_recommendedStart := r } := by
    have hd₁ : ({ m.set b.m_data d₁ with g_recommendedStart := r } : Heap).data b.m_data =
        some d₁ := set_data_self
    show Buffer.release { m.set b.m_data d₁ with g_recommendedStart := r } b.m_data = _
    unfold Buffer.release
    rw [deref_of_data hd₁, ok_bind]
    have hcount₁ : d₁.m_count - 1 = d.m_count := hcount
    dsimp only
    rw [hcount₁, if_neg hpos]
    rw [hcount₁] at hback
    show Except.ok { (m.set b.m_data d₁).set b.m_data { d₁ with m_count := d.m_count } with
      g_recommendedStart := r } = _
    rw [hback]
  refine ⟨_, tmp, _, _, hcopy, ?_, hdestroy, ?_, rfl, rfl⟩
  · unfold Buffer.assign
    rw [if_pos (show b.m_data = tmp.m_data from rfl)]
    rfl
  · exact hholds.of_data rfl (List.Sublist.refl _) (Nat.le_refl _)

/-- The offsets are `uint32_t`s. -/
def AppendFits (m : Heap) (b : Handle) (x y : List UInt8) : Prop :=
  b.m_end.toNat + y.length < 2 ^ 32 ∧
    m.g_recommendedStart.toNat + x.length + y.length + 19 < 2 ^ 32

/-- When the bytes come to be behind the buffer: if the zero areas meet, there are no more bytes
behind them, but by accident; else the buffer does not stay in a block of both. -/
def Appends (m : Heap) (d : Data) (b o : Handle) (y : List UInt8) : Prop :=
  if MeetsZeros d b o then o.m_end = o.m_zeroAreaEnd ∨ LandsRight m d b o (lastBytes o y)
  else ¬ (b.m_zeroAreaEnd = b.m_zeroAreaStart ∧ b.m_data = o.m_data ∧
    GrowsInPlace d b (GetSize o))

/-- Merged zeros, in one equation. -/
theorem addAtEndBuffer_zeros {m' : Heap} (hd : m.data b.m_data = some d)
    (hmeets : MeetsZeros d b o)
    (hok : AddAtEnd (mergedHeap m d b o) (mergeZeros b o) (o.m_end - o.m_zeroAreaEnd) =
      .ok (m', b'))
    (hprev : Prev b'.m_end (o.m_end - o.m_zeroAreaEnd) = .ok i)
    (hprev' : Prev o.m_end (o.m_end - o.m_zeroAreaEnd) = .ok o.m_zeroAreaEnd) :
    AddAtEndBuffer m b o =
      WriteFrom m' b' i o o.m_zeroAreaEnd o.m_end >>= fun m => .ok (m, b') := by
  unfold AddAtEndBuffer
  rw [deref_of_data hd, ok_bind, if_pos hmeets]
  change (AddAtEnd (mergedHeap m d b o) (mergeZeros b o) (o.m_end - o.m_zeroAreaEnd) >>= _) = _
  rw [hok, ok_bind]
  dsimp only
  rw [hprev, ok_bind, hprev', ok_bind]
  rfl

/-- A copy, in one equation. -/
theorem addAtEndBuffer_copied {m₁ m₂ m₃ m₄ : Heap} {tmp : Handle} (hd : m.data b.m_data = some d)
    (hmeets : ¬ MeetsZeros d b o) (hcopy : CreateFullCopy m b = .ok (m₁, tmp))
    (hassign : assign m₁ b tmp = .ok (m₂, tmp)) (hdestroy : destroy m₂ tmp = .ok m₃)
    (hok : AddAtEnd m₃ tmp (GetSize o) = .ok (m₄, b'))
    (hprev : Prev b'.m_end (GetSize o) = .ok i) :
    AddAtEndBuffer m b o = WriteFrom m₄ b' i o o.m_start o.m_end >>= fun m => .ok (m, b') := by
  unfold AddAtEndBuffer
  rw [deref_of_data hd, ok_bind, if_neg hmeets, hcopy, ok_bind]
  dsimp only
  rw [hassign, ok_bind]
  dsimp only
  rw [hdestroy, ok_bind, hok, ok_bind]
  dsimp only
  rw [hprev, ok_bind]
  rfl

/-- **`AddAtEnd` of a buffer** leaves its bytes behind those that were there, and all other
buffers as they are, exactly if `Appends`. -/
theorem addAtEndBuffer_iff (h : Holds m [] ((b, x) :: l)) (hd : m.data b.m_data = some d)
    (ho : (o, y) ∈ l) (hfits : AppendFits m b x y) :
    (∃ m' b', AddAtEndBuffer m b o = .ok (m', b') ∧ Holds m' [] ((b', x ++ y) :: l)) ↔
      Appends m d b o y := by
  obtain ⟨hend, hsize⟩ := hfits
  unfold Appends
  split_ifs with hmeets
  · obtain ⟨m', b', i, hok, hprev, hprev', hiff⟩ := h.appendZeros hd ho hmeets hend (by omega)
    rw [← hiff, addAtEndBuffer_zeros hd hmeets hok hprev hprev']
    constructor
    · rintro ⟨m₁, b₁, hrun, hholds⟩
      obtain ⟨m₂, hwrite, hrest⟩ := bind_eq_ok_iff.mp hrun
      cases hrest
      exact ⟨m₁, hwrite, hholds⟩
    · rintro ⟨m'', hwrite, hholds⟩
      exact ⟨m'', b', by rw [hwrite]; rfl, hholds⟩
  · by_cases hzeros : b.m_zeroAreaEnd - b.m_zeroAreaStart ≠ 0
    · -- the full copy has a block of its own
      obtain ⟨m₁, tmp, m₂, m₃, hcopy, hassign, hdestroy, hholds, hnoZeros, hown, hle⟩ :=
        h.assignFullCopy hzeros (by omega)
      obtain ⟨d₃, hd₃, -⟩ := hholds.entry _ mem_cons_self
      obtain ⟨m₄, b', i, hok, hprev, hrest⟩ :=
        hholds.appendCopied hd₃ ho hnoZeros (by omega) (by omega)
      rw [if_neg fun hboth => hown _ ho hboth.1.symm] at hrest
      obtain ⟨m₅, hwrite, hholds'⟩ := hrest
      have hdifferent : b.m_zeroAreaEnd ≠ b.m_zeroAreaStart := fun heq =>
        hzeros (sub_eq_zero.mpr heq)
      refine iff_of_true ⟨m₅, b', ?_, hholds'⟩ fun hall => hdifferent hall.1
      rw [addAtEndBuffer_copied hd hmeets hcopy hassign hdestroy hok hprev, hwrite]
      rfl
    · -- without zeros, the block stays
      have hnoZeros : b.m_zeroAreaEnd = b.m_zeroAreaStart :=
        sub_eq_zero.mp (not_not.mp hzeros)
      obtain ⟨m₁, tmp, m₂, m₃, hcopy, hassign, hdestroy, hholds, hdata, htmp⟩ := h.assignCopy hd
      have hfull : CreateFullCopy m b = .ok (m₁, tmp) := by
        unfold CreateFullCopy
        rw [if_neg hzeros]
        exact hcopy
      have hd₃ : m₃.data tmp.m_data = some d := by
        rw [hdata, htmp]
        exact hd
      obtain ⟨m₄, b', i, hok, hprev, hrest⟩ :=
        hholds.appendCopied hd₃ ho (htmp ▸ hnoZeros) (htmp ▸ hend) (by omega)
      rw [addAtEndBuffer_copied hd hmeets hfull hassign hdestroy hok hprev]
      have hsame : (tmp.m_data = o.m_data ∧ GrowsInPlace d tmp (GetSize o)) ↔
          b.m_data = o.m_data ∧ GrowsInPlace d b (GetSize o) := by
        rw [htmp]
        exact Iff.rfl
      rw [and_iff_right hnoZeros, ← hsame]
      split_ifs at hrest with hboth
      · refine iff_of_false ?_ (not_not_intro hboth)
        rintro ⟨m₅, b₅, hrun, -⟩
        rw [hrest] at hrun
        cases hrun
      · obtain ⟨m₅, hwrite, hholds'⟩ := hrest
        refine iff_of_true ⟨m₅, b', ?_, hholds'⟩ hboth
        rw [hwrite]
        rfl

/-! ### Zeros and zeros, and bytes behind them -/

/-- Two zeros, and three zeros behind them. -/
theorem addAtEndBuffer_iff_zeros :
    ∃ m₁ m₂ b o m' b', Initialize (initial fun _ _ => 7).heap 2 = .ok (m₁, b) ∧
      Initialize m₁ 3 = .ok (m₂, o) ∧ AddAtEndBuffer m₂ b o = .ok (m', b') ∧
      Holds m' [] [(b', List.replicate 2 0 ++ List.replicate 3 0), (o, List.replicate 3 0)] := by
  obtain ⟨l, hnil, -, h₀⟩ := represents_initial fun _ _ => 7
  obtain rfl : l = [] := map_eq_nil_iff.mp hnil.symm
  have hfits₁ : (min (firstSize (initial fun _ _ => 7).heap)
    (initial fun _ _ => 7).heap.g_recommendedStart).toNat + (2 : UInt32).toNat < 2 ^ 32 := by
    decide +kernel
  obtain ⟨m₁, b, hok₁, h₁⟩ := h₀.initialize hfits₁
  have hstart₁ : (Initialize (initial fun _ _ => 7).heap 2).map
      (fun r => min (firstSize r.1) r.1.g_recommendedStart) = .ok 0 := by decide +kernel
  rw [hok₁] at hstart₁
  have hstart : min (firstSize m₁) m₁.g_recommendedStart = 0 := Except.ok.inj hstart₁
  have hfits₂ : (min (firstSize m₁) m₁.g_recommendedStart).toNat + (3 : UInt32).toNat < 2 ^ 32 := by
    rw [hstart]
    decide
  obtain ⟨m₂, o, hok₂, h₂⟩ := h₁.initialize hfits₂
  have hrun : (Initialize (initial fun _ _ => 7).heap 2 >>= fun r => (Initialize r.1 3).map
      fun r' => (r.2, r'.2, r'.1.g_recommendedStart, (r'.1.data 0).map fun d =>
        (d.m_count, d.m_dirtyEnd))) =
      .ok ((⟨0, 0, 0, 2, 0, 2⟩, ⟨1, 0, 0, 3, 0, 3⟩, 0, some (1, 2)) :
        Handle × Handle × UInt32 × Option (UInt32 × UInt32)) := by decide +kernel
  rw [hok₁, ok_bind, hok₂] at hrun
  obtain ⟨rfl, rfl, hrecommended, hdata⟩ : b = ⟨0, 0, 0, 2, 0, 2⟩ ∧ o = ⟨1, 0, 0, 3, 0, 3⟩ ∧
      m₂.g_recommendedStart = 0 ∧
      (m₂.data 0).map (fun d => (d.m_count, d.m_dirtyEnd)) = some (1, 2) := by
    have heq := Except.ok.inj hrun
    simp only [Prod.mk.injEq] at heq
    exact heq
  obtain ⟨d, hd, hcounts⟩ := Option.map_eq_some_iff.mp hdata
  obtain ⟨hcount, hdirty⟩ := Prod.mk.inj hcounts
  have hfits : AppendFits m₂ ⟨0, 0, 0, 2, 0, 2⟩ (List.replicate (2 : UInt32).toNat 0)
      (List.replicate (3 : UInt32).toNat 0) := by
    unfold AppendFits
    rw [hrecommended]
    decide
  have happends : Appends m₂ d ⟨0, 0, 0, 2, 0, 2⟩ ⟨1, 0, 0, 3, 0, 3⟩
      (List.replicate (3 : UInt32).toNat 0) := by
    unfold Appends
    rw [if_pos ⟨hcount, rfl, hdirty.symm, rfl, by decide⟩]
    exact .inl rfl
  have hswap := h₂.perm (List.Perm.swap _ _ [])
  obtain ⟨m', b', hok, hholds⟩ :=
    (addAtEndBuffer_iff hswap hd mem_cons_self hfits).mpr happends
  exact ⟨m₁, m₂, _, _, m', b', hok₁, hok₂, hok, hholds⟩

/-- The block of a buffer that is gone is taken for one zero; a zero and two bytes behind it come
to be two zeros and what was in the block. -/
theorem addAtEndBuffer_behind_zeros :
    (do
      let (m, b) ← Initialize (initial fun _ _ => 7).heap 0
      let (m, b) ← AddAtEnd m b 20
      let m ← destroy m b
      let (m, b) ← Initialize m 1
      let (m, o) ← Initialize m 1
      let (m, o) ← AddAtEnd m o 2
      let m ← Write m o (o.m_end - 2) [1, 2]
      let x ← CopyData m b 4
      let y ← CopyData m o 4
      let (m, b) ← AddAtEndBuffer m b o
      return (x, y, ← CopyData m b 4)) = .ok (([0], [0, 1, 2], [0, 0, 7, 7]) :
        List UInt8 × List UInt8 × List UInt8) := by
  decide +kernel

end Ns3Joined.Network.Buffer
