import Ns3Joined.Library.ExceptFold
import Ns3Joined.Network.BufferAppend
import Ns3Joined.Network.BufferOperations

/-!
# The full copy of a buffer

What `AddAtStart` and `AddAtEnd` can do to the offsets, and the buffer that `CreateFullCopy` makes
of one with zeros: it has the zeros in its block.

* `moveToNew_cases`, `addAtStart_cases`, `addAtEnd_cases`: in the block where the buffer is, or in
  a new one.
* `Plain`: a buffer without zeros on a block that no other one has. Growing leaves it so.
* `Holds.createFullCopy`: the copy is `Plain` and has the bytes of the buffer.
-/

namespace Ns3Joined.Network.Buffer

open List ExceptFold UInt32

variable {m m' m₁ : Heap} {l : List Entry} {a : ℕ} {d d' e : Data} {b b' b₁ o : Handle}
  {bytes bytes' : List UInt8} {start grow off n : UInt32}

/-! ### What the functions can do -/

/-- The block with other bytes from an offset on. -/
def Data.write (d : Data) (off : ℕ) (bytes : List UInt8) : Data :=
  { d with m_data := Area.write d.m_data off bytes }

/-- Two writes one behind the other are one write. -/
theorem Data.write_write {off : ℕ} : (d.write off bytes).write (off + bytes.length) bytes' =
    d.write off (bytes ++ bytes') :=
  congrArg (fun area => { d with m_data := area }) Area.write_append

/-- Writing nothing changes nothing. -/
theorem Data.write_nil {off : ℕ} : d.write off [] = d :=
  congrArg (fun area => { d with m_data := area }) Area.write_nil

/-- The later of two updates counts. -/
theorem set_set (address : ℕ) : (m.set address d).set address d' = m.set address d' := by
  unfold Heap.set
  dsimp only
  rw [Function.update_idem]

/-- Reading a pointer succeeds if and only if there is data behind it. -/
theorem deref_eq_ok : deref m a = .ok d ↔ m.data a = some d := by
  unfold deref
  cases m.data a with
  | none => simp
  | some data => simp

/-- Reading a block succeeds if and only if it lies within the data. -/
theorem readBlock_eq_ok : readBlock d off n = .ok bytes ↔
    off.toNat + n.toNat ≤ d.m_size.toNat ∧ bytes = Area.read d.m_data off.toNat n.toNat := by
  unfold readBlock
  split_ifs with hle
  · simp [hle, eq_comm]
  · simp [hle]

/-- Writing a block succeeds if and only if it lies within the data. -/
theorem writeBlock_eq_ok (hd : m.data a = some d) : writeBlock m a off bytes = .ok m' ↔
    off.toNat + bytes.length ≤ d.m_size.toNat ∧
      m' = m.set a (d.write off.toNat bytes) := by
  unfold writeBlock
  rw [deref_of_data hd, ok_bind]
  split_ifs with hle
  · simp [hle, eq_comm, pure, Except.pure, Data.write]
  · simp [hle]

/-- Bytes that are in the block go to another one. -/
theorem moveToNew_cases (hok : moveToNew m b start grow = .ok (m₁, b₁)) :
    ∃ m' address data bytes, Create m (GetInternalSize b + grow) = .ok (m', address) ∧
      m'.data address = some data ∧ bytes.length = (GetInternalSize b).toNat ∧
      release (m'.set address (data.write start.toNat bytes)) b.m_data = .ok m₁ ∧
      b₁ = relocate b address start := by
  unfold moveToNew at hok
  obtain ⟨⟨m', address⟩, hcreate, hok⟩ := bind_eq_ok_iff.mp hok
  obtain ⟨e, he, hok⟩ := bind_eq_ok_iff.mp hok
  obtain ⟨bytes, hread, hok⟩ := bind_eq_ok_iff.mp hok
  obtain ⟨m₂, hwrite, hok⟩ := bind_eq_ok_iff.mp hok
  obtain ⟨m₃, hrelease, hok⟩ := bind_eq_ok_iff.mp hok
  cases hok
  obtain ⟨data, hdata, -⟩ := bind_eq_ok_iff.mp hwrite
  rw [deref_eq_ok] at hdata
  obtain ⟨-, rfl⟩ := (writeBlock_eq_ok hdata).mp hwrite
  obtain ⟨-, rfl⟩ := readBlock_eq_ok.mp hread
  exact ⟨m', address, data, _, hcreate, hdata, Area.length_read, hrelease, rfl⟩

/-- `AddAtStart` grows in place or moves the bytes. -/
theorem addAtStart_cases (hd : m.data b.m_data = some d)
    (hok : AddAtStart m b start = .ok (m', b')) :
    (StartsInPlace d b start ∧
      b' = updateMaxZeroAreaStart { b with m_start := b.m_start - start }) ∨
    ∃ m₁ b₁, moveToNew m b start start = .ok (m₁, b₁) ∧
      b' = updateMaxZeroAreaStart { b₁ with m_start := b₁.m_start - start } := by
  unfold AddAtStart at hok
  rw [deref_of_data hd, ok_bind] at hok
  by_cases hplace : StartsInPlace d b start
  · replace hok := (if_pos hplace).symm.trans hok
    dsimp only at hok
    split_ifs at hok
    · cases hok
      exact .inl ⟨hplace, rfl⟩
    · cases hok
  · replace hok := (if_neg hplace).symm.trans hok
    obtain ⟨⟨m₁, b₁⟩, hmove, hok⟩ := bind_eq_ok_iff.mp hok
    obtain ⟨m₂, -, hok⟩ := bind_eq_ok_iff.mp hok
    cases hok
    exact .inr ⟨m₁, b₁, hmove, rfl⟩

/-- `AddAtEnd` grows in place or moves the bytes. -/
theorem addAtEnd_cases (hd : m.data b.m_data = some d)
    (hok : AddAtEnd m b grow = .ok (m', b')) :
    (GrowsInPlace d b grow ∧ m' = m.set b.m_data { d with m_dirtyEnd := b.m_end + grow } ∧
      b' = updateMaxZeroAreaStart { b with m_end := b.m_end + grow }) ∨
    ¬ GrowsInPlace d b grow ∧ ∃ m₁ b₁, moveToNew m b 0 grow = .ok (m₁, b₁) ∧
      updateDirty m₁ { b₁ with m_end := b₁.m_end + grow } = .ok m' ∧
      b' = updateMaxZeroAreaStart { b₁ with m_end := b₁.m_end + grow } := by
  unfold AddAtEnd at hok
  rw [deref_of_data hd, ok_bind] at hok
  by_cases hplace : GrowsInPlace d b grow
  · replace hok := (if_pos hplace).symm.trans hok
    dsimp only at hok
    split_ifs at hok
    · cases hok
      exact .inl ⟨hplace, rfl, rfl⟩
    · cases hok
  · replace hok := (if_neg hplace).symm.trans hok
    obtain ⟨⟨m₁, b₁⟩, hmove, hok⟩ := bind_eq_ok_iff.mp hok
    obtain ⟨m₂, hdirty, hok⟩ := bind_eq_ok_iff.mp hok
    cases hok
    exact .inr ⟨hplace, m₁, b₁, hmove, hdirty, rfl⟩

/-! ### A buffer of one's own -/

/-- A buffer without zeros on a block that no other one has. -/
structure Plain (m : Heap) (b : Handle) (bytes : List UInt8) (l : List Entry) (bound : ℕ) :
    Prop where
  holds : Holds m [] ((b, bytes) :: l)
  noZeros : b.m_zeroAreaEnd = b.m_zeroAreaStart
  own : refs l b.m_data = 0
  end_le : b.m_end.toNat ≤ bound + bytes.length

variable {bound : ℕ}

/-- A buffer made without zeros is plain. -/
theorem Holds.initializePlain (h : Holds m [] l) :
    ∃ m' b, Initialize m 0 = .ok (m', b) ∧ Plain m' b [] l m.g_recommendedStart.toNat := by
  have hzero : (0 : UInt32).toNat = 0 := rfl
  have hfits : (min (firstSize m) m.g_recommendedStart).toNat + (0 : UInt32).toNat < 2 ^ 32 := by
    rw [hzero, Nat.add_zero]
    exact toNat_lt _
  obtain ⟨m', b, hok, hholds⟩ := h.initialize hfits
  obtain ⟨m₁, address, hcreate, hcreated⟩ := create_created 0 h (by decide)
  have hinit := hok
  unfold Initialize at hinit
  rw [hcreate, ok_bind] at hinit
  obtain ⟨d, hd, hinit⟩ := bind_eq_ok_iff.mp hinit
  rw [deref_eq_ok] at hd
  obtain ⟨-, hrecommended⟩ := create_zero hcreate hd
  cases hinit
  refine ⟨_, _, hok, hholds, add_zero _, hcreated.unshared, ?_⟩
  show (min d.m_size m₁.g_recommendedStart + 0).toNat ≤ _
  rw [add_zero, toNat_min, hrecommended]
  exact Nat.min_le_right _ _

/-- Bytes that fit with the growth can be moved. -/
theorem Holds.moveFits (h : Holds m [] ((b, bytes) :: l))
    (hfits : bytes.length + grow.toNat + 19 < 2 ^ 32) : MoveFits b grow := by
  obtain ⟨d, hd, hwithin, hbytes⟩ := h.entry _ mem_cons_self
  dsimp only at hwithin hbytes
  have hlength := length_content d.m_data hwithin.toShape
  have hinner := toNat_getInternalSize hwithin.toShape
  have hsize := toNat_getSize hwithin.toShape
  obtain ⟨hle₁, hle₂, hle₃⟩ := hwithin.toShape
  unfold internalEnd at hinner
  rw [hbytes] at hlength
  exact ⟨by omega, by omega⟩

/-- **`AddAtStart`** leaves it so. -/
theorem Plain.addAtStart (h : Plain m b bytes l bound)
    (hfits : bytes.length + start.toNat + 19 < 2 ^ 32) :
    ∃ m' b', AddAtStart m b start = .ok (m', b') ∧
      b'.m_start.toNat + start.toNat ≤ b'.m_zeroAreaStart.toNat ∧ Shape b' ∧
      (∃ gap, Holds m' [] ((b', gap ++ bytes) :: l)) ∧
      ∀ new : List UInt8, new.length = start.toNat →
        ∃ m'', Write m' b' b'.m_start new = .ok m'' ∧ Plain m'' b' (new ++ bytes) l bound := by
  obtain ⟨d, hd, -⟩ := h.holds.entry _ mem_cons_self
  dsimp only at hd
  have hmove : ¬ StartsInPlace d b start → MoveFits b start := fun _ => h.holds.moveFits hfits
  obtain ⟨m', b', gap, hok, hgap, hholds, hroom, hown⟩ := h.holds.addAtStart hd start hmove
  obtain ⟨d', hd', hwithin, hcontent⟩ := hholds.entry _ mem_cons_self
  dsimp only at hwithin hcontent
  have hlength := length_content d'.m_data hwithin.toShape
  rw [hcontent, length_append] at hlength
  -- in the block where it was or in a new one
  have hkept : b'.m_zeroAreaEnd = b'.m_zeroAreaStart ∧ refs l b'.m_data = 0 ∧
      b'.m_end.toNat ≤ bound + (start.toNat + bytes.length) := by
    obtain ⟨-, rfl⟩ | ⟨m₁, b₁, hmoved, rfl⟩ := addAtStart_cases hd hok
    · refine ⟨h.noZeros, h.own, ?_⟩
      have hle := h.end_le
      show b.m_end.toNat ≤ _
      omega
    · obtain ⟨m₂, b₂, hmoved', hspec⟩ := h.holds.moveToNew start start (Nat.le_refl _)
        (h.holds.moveFits hfits)
      rw [hmoved] at hmoved'
      cases hmoved'
      refine ⟨?_, hspec.unshared, ?_⟩
      · obtain ⟨m₃, address, data, copied, -, -, -, -, rfl⟩ := moveToNew_cases hmoved
        show b.m_zeroAreaEnd + _ = b.m_zeroAreaStart + _
        rw [h.noZeros]
      · have hend := hspec.end_eq
        show b₁.m_end.toNat ≤ _
        omega
  obtain ⟨hnoZeros, hrefs, hend⟩ := hkept
  refine ⟨m', b', hok, hroom, hwithin.toShape, ⟨gap, hholds⟩, fun new hnew => ?_⟩
  obtain ⟨m'', hwrite, hholds'⟩ := hholds.fillStart (hgap.trans hnew.symm) (hnew ▸ hroom)
    fun y hy heq => hnew ▸ hown y hy heq
  refine ⟨m'', hwrite, hholds', hnoZeros, hrefs, ?_⟩
  rw [length_append, hnew]
  exact hend

/-- `AddAtEnd`, and what is written there. -/
theorem Holds.addAtEnd_write (h : Holds m [] ((b, bytes) :: l)) (hd : m.data b.m_data = some d)
    (hend : b.m_end.toNat + grow.toNat < 2 ^ 32)
    (hfits : bytes.length + grow.toNat + 19 < 2 ^ 32) :
    ∃ m' b' i gap, AddAtEnd m b grow = .ok (m', b') ∧ Prev b'.m_end grow = .ok i ∧
      Holds m' [] ((b', bytes ++ gap) :: l) ∧ gap.length = grow.toNat ∧
      b'.m_zeroAreaEnd.toNat ≤ i.toNat ∧ i.toNat + grow.toNat = b'.m_end.toNat ∧
      ∀ new : List UInt8, new.length = grow.toNat →
        ∃ m'', Write m' b' i new = .ok m'' ∧ Holds m'' [] ((b', bytes ++ new) :: l) := by
  obtain ⟨m', b', gap, hok, hgap, hholds, hroom, hown⟩ :=
    h.addAtEnd hd grow (fun _ => hend) fun _ => h.moveFits hfits
  have hprev : ¬ b'.m_end < grow := by
    rw [lt_iff_toNat_lt]
    omega
  have hoff := toNat_sub (a := b'.m_end) (b := grow) (by omega)
  refine ⟨m', b', b'.m_end - grow, gap, hok, if_neg hprev, hholds, hgap, by omega, by omega,
    fun new hnew => ?_⟩
  exact hholds.fillEnd (b'.m_end - grow) (hgap.trans hnew.symm) (by omega) (by omega)
    fun y hy heq => hnew ▸ hown y hy heq

/-- **`AddAtEnd`** leaves it so. -/
theorem Plain.addAtEnd (h : Plain m b bytes l bound)
    (hfits : bound + bytes.length + grow.toNat + 19 < 2 ^ 32) :
    ∃ m' b' i, AddAtEnd m b grow = .ok (m', b') ∧ Prev b'.m_end grow = .ok i ∧
      (∃ gap, Holds m' [] ((b', bytes ++ gap) :: l)) ∧ ∀ new : List UInt8, new.length = grow.toNat →
        ∃ m'', Write m' b' i new = .ok m'' ∧ Plain m'' b' (bytes ++ new) l bound := by
  obtain ⟨d, hd, -⟩ := h.holds.entry _ mem_cons_self
  dsimp only at hd
  have hle := h.end_le
  have hend : b.m_end.toNat + grow.toNat < 2 ^ 32 := by omega
  obtain ⟨m', b', i, gap, hok, hprev, hholds, hgap, hroom, hi, hwrite⟩ :=
    h.holds.addAtEnd_write hd hend (by omega)
  obtain ⟨d', hd', hwithin, hcontent⟩ := hholds.entry _ mem_cons_self
  dsimp only at hwithin hcontent
  have hlength := length_content d'.m_data hwithin.toShape
  rw [hcontent, length_append] at hlength
  have hkept : b'.m_zeroAreaEnd = b'.m_zeroAreaStart ∧ refs l b'.m_data = 0 ∧
      b'.m_end.toNat ≤ bound + (bytes.length + grow.toNat) := by
    obtain ⟨-, -, rfl⟩ | ⟨-, m₁, b₁, hmoved, -, rfl⟩ := addAtEnd_cases hd hok
    · refine ⟨h.noZeros, h.own, ?_⟩
      show (b.m_end + grow).toNat ≤ _
      rw [toNat_add (by omega)]
      omega
    · obtain ⟨m₂, b₂, hmoved', hspec⟩ := h.holds.moveToNew 0 grow (Nat.zero_le _)
        (h.holds.moveFits (by omega))
      rw [hmoved] at hmoved'
      cases hmoved'
      have hstart : b₁.m_start.toNat = 0 := hspec.start_eq
      refine ⟨?_, hspec.unshared, ?_⟩
      · obtain ⟨m₃, address, data, copied, -, -, -, -, rfl⟩ := moveToNew_cases hmoved
        show b.m_zeroAreaEnd + _ = b.m_zeroAreaStart + _
        rw [h.noZeros]
      · have hend := hspec.end_eq
        have hzero : (0 : UInt32).toNat = 0 := rfl
        show (b₁.m_end + grow).toNat ≤ _
        rw [toNat_add (by omega)]
        omega
  obtain ⟨hnoZeros, hrefs, hend⟩ := hkept
  refine ⟨m', b', i, hok, hprev, ⟨gap, hholds⟩, fun new hnew => ?_⟩
  obtain ⟨m'', hok', hholds'⟩ := hwrite new hnew
  refine ⟨m'', hok', hholds', hnoZeros, hrefs, ?_⟩
  rw [length_append, hnew]
  exact hend

/-! ### The full copy -/

/-- The bytes before the zero area. -/
def firstBytes (b : Handle) (bytes : List UInt8) : List UInt8 :=
  bytes.take (b.m_zeroAreaStart.toNat - b.m_start.toNat)

/-- The bytes behind it. -/
def lastBytes (b : Handle) (bytes : List UInt8) : List UInt8 :=
  bytes.drop (b.m_zeroAreaEnd.toNat - b.m_start.toNat)

/-- The bytes of a buffer in three parts, as they are in the block. -/
theorem Holds.parts {held : List ℕ} (h : Holds m held l) (hb : (b, bytes) ∈ l) :
    ∃ d, m.data b.m_data = some d ∧ Within d b ∧
      Area.read d.m_data b.m_start.toNat (b.m_zeroAreaStart.toNat - b.m_start.toNat) =
        firstBytes b bytes ∧
      Area.read d.m_data b.m_zeroAreaStart.toNat (b.m_end.toNat - b.m_zeroAreaEnd.toNat) =
        lastBytes b bytes ∧
      bytes = firstBytes b bytes ++
        List.replicate (b.m_zeroAreaEnd.toNat - b.m_zeroAreaStart.toNat) 0 ++
          lastBytes b bytes := by
  obtain ⟨d, hd, hwithin, hbytes⟩ := h.entry _ hb
  dsimp only at hd hwithin hbytes
  obtain ⟨hle₁, hle₂, hle₃⟩ := hwithin.toShape
  have hfirst : firstBytes b bytes =
      Area.read d.m_data b.m_start.toNat (b.m_zeroAreaStart.toNat - b.m_start.toNat) := by
    unfold firstBytes
    rw [← hbytes, content, append_assoc]
    exact take_left' Area.length_read
  have hlast : lastBytes b bytes =
      Area.read d.m_data b.m_zeroAreaStart.toNat (b.m_end.toNat - b.m_zeroAreaEnd.toNat) := by
    unfold lastBytes
    rw [← hbytes, content]
    refine drop_left' ?_
    rw [length_append, Area.length_read, length_replicate]
    omega
  refine ⟨d, hd, hwithin, hfirst.symm, hlast.symm, ?_⟩
  rw [hfirst, hlast]
  exact hbytes.symm

/-- The bytes in front of the zeros can be read. -/
theorem readFirst (hwithin : Within d b) : readBlock d b.m_start (b.m_zeroAreaStart - b.m_start) =
    .ok (Area.read d.m_data b.m_start.toNat (b.m_zeroAreaStart.toNat - b.m_start.toNat)) := by
  have hlast := hwithin.internalEnd_le
  obtain ⟨hle₁, hle₂, hle₃⟩ := hwithin.toShape
  have hsub := toNat_sub hle₁
  unfold internalEnd at hlast
  rw [readBlock_eq_ok, hsub]
  exact ⟨by omega, rfl⟩

/-- The bytes behind the zeros can be read. -/
theorem readLast (hwithin : Within d b) :
    readBlock d b.m_zeroAreaStart (b.m_end - b.m_zeroAreaEnd) =
    .ok (Area.read d.m_data b.m_zeroAreaStart.toNat (b.m_end.toNat - b.m_zeroAreaEnd.toNat)) := by
  have hlast := hwithin.internalEnd_le
  obtain ⟨hle₁, hle₂, hle₃⟩ := hwithin.toShape
  have hsub := toNat_sub hle₃
  unfold internalEnd at hlast
  rw [readBlock_eq_ok, hsub]
  exact ⟨by omega, rfl⟩

/-- Zeros are written as other bytes are. -/
theorem writeZeros_eq (hshape : Shape b) (hlen : n ≠ 0)
    (hroom : b.m_start.toNat + n.toNat ≤ b.m_zeroAreaStart.toNat) :
    WriteZeros m b b.m_start n = Write m b b.m_start (List.replicate n.toNat 0) := by
  obtain ⟨hle₁, hle₂, hle₃⟩ := hshape
  have hlt := b.m_zeroAreaStart.toNat_lt
  have hadd := toNat_add (a := b.m_start) (b := n) (by omega)
  have hcheck : CheckNoZero b b.m_start.toNat (b.m_start + n).toNat = true :=
    checkNoZero_of_le (Nat.le_refl _) (by omega) (.inl (by omega))
  have hcheck' : CheckNoZero b b.m_start.toNat (List.replicate n.toNat (0 : UInt8)).length =
      true := by
    rw [length_replicate]
    exact checkNoZero_of_le (Nat.le_refl _) (by omega) (.inl (by omega))
  unfold WriteZeros Write memset
  rw [if_neg (not_not_intro hcheck), if_neg (not_not_intro hcheck'),
    if_pos (le_iff_toNat_le.mpr hle₁), if_pos (le_iff_toNat_le.mpr hle₁), if_neg hlen]

/-- **`CreateFullCopy`** of a buffer with zeros has them in its block. -/
theorem Holds.createFullCopy (h : Holds m [] ((b, bytes) :: l))
    (hzeros : b.m_zeroAreaEnd - b.m_zeroAreaStart ≠ 0)
    (hfits : m.g_recommendedStart.toNat + bytes.length + 19 < 2 ^ 32) :
    ∃ m' tmp, CreateFullCopy m b = .ok (m', tmp) ∧
      Plain m' tmp bytes ((b, bytes) :: l) m.g_recommendedStart.toNat := by
  have hmem : (b, bytes) ∈ (b, bytes) :: l := mem_cons_self
  obtain ⟨d, hd, hwithin, hfirst, hlast, hparts⟩ := h.parts hmem
  obtain ⟨hle₁, hle₂, hle₃⟩ := hwithin.toShape
  have hfirstLength : (firstBytes b bytes).length = (b.m_zeroAreaStart - b.m_start).toNat := by
    rw [← hfirst, Area.length_read, toNat_sub hle₁]
  have hlastLength : (lastBytes b bytes).length = (b.m_end - b.m_zeroAreaEnd).toNat := by
    rw [← hlast, Area.length_read, toNat_sub hle₃]
  have hzerosLength := toNat_sub hle₂
  have hlength : bytes.length = (b.m_zeroAreaStart - b.m_start).toNat +
      (b.m_zeroAreaEnd - b.m_zeroAreaStart).toNat + (b.m_end - b.m_zeroAreaEnd).toNat := by
    conv_lhs => rw [hparts]
    rw [length_append, length_append, hfirstLength, hlastLength, length_replicate,
      hzerosLength]
  -- the zeros
  obtain ⟨m₁, t₁, hinit, hplain₁⟩ := h.initializePlain
  have hfits₁ : ([] : List UInt8).length + (b.m_zeroAreaEnd - b.m_zeroAreaStart).toNat + 19 <
      2 ^ 32 := by
    rw [length_nil]
    omega
  obtain ⟨m₂, t₂, hadd₂, hroom₂, hshape₂, -, hwrite₂⟩ := hplain₁.addAtStart hfits₁
  obtain ⟨m₃, hok₃, hplain₃⟩ := hwrite₂ _ (length_replicate (a := (0 : UInt8)))
  rw [← writeZeros_eq hshape₂ hzeros hroom₂] at hok₃
  rw [append_nil] at hplain₃
  -- what is before them
  have hfits₃ : (List.replicate (b.m_zeroAreaEnd - b.m_zeroAreaStart).toNat (0 : UInt8)).length +
      (b.m_zeroAreaStart - b.m_start).toNat + 19 < 2 ^ 32 := by
    rw [length_replicate]
    omega
  obtain ⟨m₄, t₄, hadd₄, -, -, ⟨gap₄, hholds₄⟩, hwrite₄⟩ := hplain₃.addAtStart hfits₃
  obtain ⟨m₅, hok₅, hplain₅⟩ := hwrite₄ _ hfirstLength
  obtain ⟨d₄, hd₄, hwithin₄, hfirst₄, -⟩ := hholds₄.parts (mem_cons_of_mem _ hmem)
  have hread₄ := readFirst hwithin₄
  rw [hfirst₄] at hread₄
  -- what is behind them
  have hfits₅ : m.g_recommendedStart.toNat + (firstBytes b bytes ++
      List.replicate (b.m_zeroAreaEnd - b.m_zeroAreaStart).toNat 0).length +
        (b.m_end - b.m_zeroAreaEnd).toNat + 19 < 2 ^ 32 := by
    rw [length_append, length_replicate]
    omega
  obtain ⟨m₆, t₆, i, hadd₆, hprev, ⟨gap₆, hholds₆⟩, hwrite₆⟩ := hplain₅.addAtEnd hfits₅
  obtain ⟨m₇, hok₇, hplain₇⟩ := hwrite₆ _ hlastLength
  obtain ⟨d₆, hd₆, hwithin₆, -, hlast₆, -⟩ := hholds₆.parts (mem_cons_of_mem _ hmem)
  have hread₆ := readLast hwithin₆
  rw [hlast₆] at hread₆
  refine ⟨m₇, t₆, ?_, ?_⟩
  · unfold CreateFullCopy
    rw [if_pos hzeros, hinit, ok_bind]
    dsimp only
    rw [hadd₂, ok_bind]
    dsimp only
    rw [hok₃, ok_bind, hadd₄, ok_bind]
    dsimp only
    rw [deref_of_data hd₄, ok_bind, hread₄, ok_bind, hok₅,
      ok_bind, hadd₆, ok_bind]
    dsimp only
    rw [hprev, ok_bind, deref_of_data hd₆, ok_bind, hread₆,
      ok_bind, hok₇]
    rfl
  · rw [hzerosLength, ← hparts] at hplain₇
    exact hplain₇

end Ns3Joined.Network.Buffer
