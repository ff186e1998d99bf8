import Ns3Joined.Network.BufferCorrect
import Ns3Joined.Network.BufferFullCopy
import Ns3Joined.Network.PacketSerialize

/-!
# When a packet fits the memory

`Packet::Serialize` counts the sizes of its parts, but not the length before the nix-vector, the
metadata and the bytes, nor the room between the metadata and the next word. So it goes on for a
maximum that is some bytes too small.

Each `Serialize` has one lemma, which says what it returns and how far it writes. The two loops over
the items do what one run of `writeAll` does over all pieces (`sizeFrom_eq`, `writeFrom_eq`).

* `serialize_iff`: **the maxima for which `Serialize` does what it should**, those outside of the
  gaps between what is counted and what is written.
-/

namespace Ns3Joined.Network

open List ExceptFold UInt32 WriteLog

open WriteLog (Write Piece Within writeAll place width)

/-! ### Sizes -/

/-- A word in host order takes its octets. -/
@[simp]
theorem length_hostBytes (n v : ℕ) : (hostBytes n v).length = n := by
  induction n generalizing v with
  | zero => rfl
  | succ n ih => rw [hostBytes, length_cons, ih]

@[simp]
theorem room_word (v : UInt32) : (word v).room = 4 := length_hostBytes 4 v.toNat

@[simp]
theorem length_values_word (v : UInt32) : (word v).values.length = 4 := length_hostBytes 4 v.toNat

/-- Up to the next word. -/
def alignNat (n : ℕ) : ℕ := (n + 3) / 4 * 4

/-- Rounding up does not make smaller. -/
theorem le_alignNat (n : ℕ) : n ≤ alignNat n := by
  unfold alignNat
  omega

variable {n fuel start : ℕ} {size maxSize : UInt32} {current : UInt16}

/-- A multiple of four is not rounded. -/
theorem alignNat_of_dvd (h : 4 ∣ n) : alignNat n = n := by
  unfold alignNat
  omega

/-- The mask of the code rounds down to a multiple of four. -/
theorem and_mask (h : n < 2 ^ 32) : n &&& 4294967292 = n / 4 * 4 := by
  have hdiv : (n &&& 4294967292) / 2 ^ 2 = n / 2 ^ 2 := by
    rw [Nat.and_div_two_pow]
    exact Nat.and_two_pow_sub_one_of_lt_two_pow (n := 30) (by omega)
  have hmod : (n &&& 4294967292) % 2 ^ 2 = 0 := by
    rw [Nat.and_mod_two_pow]
    exact Nat.and_zero _
  omega

/-- The code's rounding, without wrap-around. -/
theorem toNat_align {n : UInt32} (h : n.toNat + 3 < 2 ^ 32) :
    (align n).toNat = alignNat n.toNat := by
  unfold align alignNat
  rw [UInt32.toNat_and, Buffer.toNat_add h]
  exact and_mask h

/-- A length that fits its word is not changed by it. -/
theorem toNat_ofNat (h : n < 2 ^ 32) : (UInt32.ofNat n).toNat = n :=
  toNat_ofNat_of_lt' h

/-- The code's check of the space, without wrap-around. -/
theorem counts_iff {stop : ℕ} (h : stop - start < 2 ^ 32) :
    counts start maxSize stop = true ↔ stop - start ≤ maxSize.toNat := by
  unfold counts
  rw [decide_eq_true_eq, le_iff_toNat_le, toNat_ofNat h]

/-- **Enough is enough**: pieces that fill their room, written with the maximum that they need. -/
theorem writeAll_counts {pieces : List (Piece UInt8)} (hsize : width pieces ≤ maxSize.toNat) :
    writeAll (counts start maxSize) start pieces =
      (place start pieces, some (start + width pieces)) := by
  have hlt := maxSize.toNat_lt
  exact writeAll_eq fun stop hstop => (counts_iff (by omega)).mpr (by omega)

/-! ### The nix-vector -/

/-- The width of words. -/
theorem width_map_word (l : List UInt32) : width (l.map word) = 4 * l.length := by
  induction l with
  | nil => rfl
  | cons v l ih => rw [map_cons, width_cons, ih, room_word, length_cons]; omega

variable {nix : NixVector}

namespace NixVector

/-- How many bytes a nix-vector takes. -/
def length (nix : NixVector) : ℕ := 12 + 4 * nix.m_nixVector.length

/-- The size a nix-vector says of itself. -/
theorem toNat_getSerializedSize (h : nix.length < 2 ^ 32) :
    nix.GetSerializedSize.toNat = nix.length := by
  unfold length at h ⊢
  have hwords : (UInt32.ofNat (4 * nix.m_nixVector.length)).toNat = 4 * nix.m_nixVector.length :=
    toNat_ofNat (by omega)
  unfold GetSerializedSize
  rw [Buffer.toNat_add (by rw [hwords]; exact h), hwords]
  rfl

/-- A nix-vector given its own size writes within it. -/
theorem serialize_eq (h : nix.length < 2 ^ 32) (start : ℕ) :
    ∃ log, nix.Serialize start nix.GetSerializedSize = (log, 1) ∧
      ∀ limit, Within log limit ↔ start + nix.length ≤ limit := by
  have hwidth : width (word nix.m_used :: word nix.m_currentVectorBitSize ::
      word nix.m_totalBitSize :: nix.m_nixVector.map word) = nix.length := by
    simp only [width_cons, width_map_word, room_word, length]
    omega
  have hsize := Nat.le_of_eq (hwidth.trans (toNat_getSerializedSize h).symm)
  refine ⟨_, by unfold Serialize; rw [writeAll_counts hsize], fun limit => ?_⟩
  rw [← hwidth]
  apply within_place_iff
  · intro piece hpiece
    simp only [mem_cons, mem_map] at hpiece
    rcases hpiece with rfl | rfl | rfl | ⟨v, -, rfl⟩ <;> rfl
  · exact cons_ne_nil _ _

end NixVector

/-! ### The metadata -/

namespace PacketMetadata

variable {m_enable : Bool} {typeName : UInt16 → List UInt8} {m : PacketMetadata}
  {items : List (SmallItem × ExtraItem)}

/-- The items from an offset on: what both loops read. -/
def itemsFrom (m : PacketMetadata) : ℕ → UInt16 → Except Fault (List (SmallItem × ExtraItem))
  | 0, _ => .error .diverges
  | fuel + 1, current =>
    if current = 0xffff then .ok []
    else do
      let (item, extraItem, _) ← ReadItems m current
      if current = m.m_tail then return [(item, extraItem)]
      if current = item.next then throw .abort
      let rest ← itemsFrom m fuel item.next
      return (item, extraItem) :: rest

/-- The items of the packet: the list from the head on has an end, as `IsStateOk` has it. -/
def HasItems (m : PacketMetadata) (items : List (SmallItem × ExtraItem)) : Prop :=
  itemsFrom m 65536 m.m_head = .ok items

variable (typeName) in
/-- How many bytes an item takes. -/
def itemLength (item : SmallItem) : ℕ :=
  (if uidOf item = 0 then 4 else 4 + (nameOf typeName (uidOf item)).length) + 23

variable (typeName) in
def itemsLength : List (SmallItem × ExtraItem) → ℕ
  | [] => 0
  | (item, _) :: items => itemLength typeName item + itemsLength items

variable (typeName) in
/-- All pieces that `Serialize` has for the items. -/
def allPieces (items : List (SmallItem × ExtraItem)) : List (Piece UInt8) :=
  items.flatMap fun x => itemPieces typeName x.1 x.2

/-- What one round of a loop over the items does, where the items can be read. -/
theorem itemsFrom_cases (hok : itemsFrom m (fuel + 1) current = .ok items) :
    (current = 0xffff ∧ items = []) ∨
    current ≠ 0xffff ∧ ∃ item extraItem read, ReadItems m current = .ok (item, extraItem, read) ∧
      ((current = m.m_tail ∧ items = [(item, extraItem)]) ∨
      current ≠ m.m_tail ∧ current ≠ item.next ∧ ∃ rest,
        itemsFrom m fuel item.next = .ok rest ∧ items = (item, extraItem) :: rest) := by
  rw [itemsFrom] at hok
  by_cases hend : current = 0xffff
  · rw [if_pos hend] at hok
    cases hok
    exact .inl ⟨hend, rfl⟩
  · rw [if_neg hend] at hok
    obtain ⟨⟨item, extraItem, read⟩, hread, hok⟩ := bind_eq_ok_iff.mp hok
    refine .inr ⟨hend, item, extraItem, read, hread, ?_⟩
    by_cases htail : current = m.m_tail
    · replace hok := (if_pos htail).symm.trans hok
      cases hok
      exact .inl ⟨htail, rfl⟩
    · replace hok := (if_neg htail).symm.trans hok
      dsimp only at hok
      by_cases hnext : current = item.next
      · rw [if_pos hnext] at hok
        cases hok
      · rw [if_neg hnext] at hok
        obtain ⟨rest, hrest, hok⟩ := bind_eq_ok_iff.mp hok
        cases hok
        exact .inr ⟨htail, hnext, rest, hrest, rfl⟩

/-- The size the code computes of an item. -/
theorem itemSize_eq (item : SmallItem) :
    itemSize typeName item = UInt32.ofNat (itemLength typeName item) := by
  unfold itemSize itemLength
  split_ifs with huid
  · rfl
  · exact (ofNat_add _ 23).symm

/-- The loop of `GetSerializedSize` adds up what the items take. -/
theorem sizeFrom_eq {totalSize : UInt32} (hok : itemsFrom m fuel current = .ok items) :
    sizeFrom typeName m fuel current totalSize =
      .ok (totalSize + UInt32.ofNat (itemsLength typeName items)) := by
  induction fuel generalizing current totalSize items with
  | zero => cases hok
  | succ fuel ih =>
    rw [sizeFrom]
    rcases itemsFrom_cases hok with ⟨hend, rfl⟩ | ⟨hend, item, extraItem, read, hread, hcases⟩
    · rw [if_pos hend, itemsLength]
      exact congrArg Except.ok (add_zero totalSize).symm
    · rw [if_neg hend, hread, ok_bind]
      rcases hcases with ⟨htail, rfl⟩ | ⟨htail, hnext, rest, hrest, rfl⟩
      · refine (if_pos htail).trans ?_
        rw [itemSize_eq, itemsLength, itemsLength, Nat.add_zero]
        rfl
      · refine (if_neg htail).trans ?_
        dsimp only
        rw [if_neg hnext]
        refine (ih hrest).trans ?_
        rw [itemsLength, ofNat_add, itemSize_eq, add_assoc]

/-- The loop of `Serialize` writes the pieces of all items, as far as the memory goes. -/
theorem writeFrom_eq {buffer : ℕ} (hok : itemsFrom m fuel current = .ok items) :
    writeFrom typeName m start maxSize fuel current buffer =
      .ok (writeAll (counts start maxSize) buffer (allPieces typeName items)) := by
  induction fuel generalizing current buffer items with
  | zero => cases hok
  | succ fuel ih =>
    rw [writeFrom]
    rcases itemsFrom_cases hok with ⟨hend, rfl⟩ | ⟨hend, item, extraItem, read, hread, hcases⟩
    · rw [if_pos hend]
      rfl
    · rw [if_neg hend, hread, ok_bind]
      have hsplit : allPieces typeName items = itemPieces typeName item extraItem ++
          allPieces typeName items.tail := by
        rcases hcases with ⟨-, rfl⟩ | ⟨-, -, rest, -, rfl⟩
        · exact flatMap_cons
        · exact flatMap_cons
      rw [hsplit, writeAll_append]
      dsimp only
      -- the item may be the one that the memory is too small for
      rcases writeAll (counts start maxSize) buffer (itemPieces typeName item extraItem) with
        ⟨log, _ | stop⟩
      · rfl
      · rcases hcases with ⟨htail, rfl⟩ | ⟨htail, hnext, rest, hrest, rfl⟩
        · refine (if_pos htail).trans ?_
          rw [tail_cons]
          exact congrArg (fun log => Except.ok (log, some stop)) (append_nil log).symm
        · refine (if_neg htail).trans ?_
          dsimp only
          rw [if_neg hnext, ih hrest, ok_bind]
          rfl

/-! What `Serialize` writes if it is enough for all items. -/

variable (typeName) in
/-- The pieces of `Serialize`. -/
def pieces (m : PacketMetadata) (items : List (SmallItem × ExtraItem)) : List (Piece UInt8) :=
  .exact (hostBytes 8 m.m_packetUid.toNat) :: allPieces typeName items

/-- The metadata is written piece by piece, and refused where a piece does not fit. -/
theorem serialize_cases (hitems : m.HasItems items) (start : ℕ) (maxSize : UInt32) :
    m.Serialize typeName start maxSize =
      match writeAll (counts start maxSize) start (m.pieces typeName items) with
      | (log, none) => .ok (log, 0)
      | (log, some buffer) =>
        if UInt32.ofNat (buffer - start) ≠ maxSize then .error .abort else .ok (log, 1) := by
  have hsplit : m.pieces typeName items =
      [.exact (hostBytes 8 m.m_packetUid.toNat)] ++ allPieces typeName items := rfl
  unfold Serialize
  rw [hsplit, writeAll_append]
  rcases writeAll (counts start maxSize) start [.exact (hostBytes 8 m.m_packetUid.toNat)] with
    ⟨log, _ | buffer⟩
  · rfl
  · dsimp only
    rw [writeFrom_eq hitems, ok_bind]
    rcases writeAll (counts start maxSize) buffer (allPieces typeName items) with
      ⟨rest, _ | stop⟩
    · rfl
    · dsimp only
      split_ifs
      · rfl
      · rfl

/-- Every piece of the metadata fills its room. -/
theorem exact_of_mem_pieces {piece : Piece UInt8} (hmem : piece ∈ m.pieces typeName items) :
    piece.values.length = piece.room := by
  have hitem : ∀ x : SmallItem × ExtraItem, ∀ piece ∈ itemPieces typeName x.1 x.2,
      piece.values.length = piece.room := by
    intro x piece hpiece
    unfold itemPieces at hpiece
    rcases mem_append.mp hpiece with hpiece | hpiece
    · split_ifs at hpiece
      all_goals
        simp only [mem_cons, not_mem_nil, or_false] at hpiece
        rcases hpiece with rfl | rfl <;> rfl
    · simp only [mem_cons, not_mem_nil, or_false] at hpiece
      rcases hpiece with rfl | rfl | rfl | rfl | rfl | rfl <;> rfl
  rcases mem_cons.mp hmem with rfl | hmem
  · rfl
  · obtain ⟨x, -, hpiece⟩ := mem_flatMap.mp hmem
    exact hitem x piece hpiece

/-- The width of an item. -/
theorem width_itemPieces {item : SmallItem} (extraItem : ExtraItem)
    (h : itemLength typeName item < 2 ^ 32) :
    width (itemPieces typeName item extraItem) = itemLength typeName item := by
  unfold itemLength at h ⊢
  unfold itemPieces
  rw [width_append]
  by_cases huid : uidOf item = 0
  · simp only [huid, ne_eq, not_true_eq_false, if_false, if_true, width_cons, room_word,
      width_nil, Piece.exact, length_hostBytes]
  · rw [if_neg huid] at h
    have hname : (UInt32.ofNat (nameOf typeName (uidOf item)).length).toNat =
        (nameOf typeName (uidOf item)).length := toNat_ofNat (by omega)
    simp only [huid, ne_eq, not_false_eq_true, if_false, if_true, width_cons, room_word,
      width_nil, Piece.exact, length_hostBytes, hname, take_length]
    omega

/-- The width of the metadata. -/
theorem width_pieces (h : itemsLength typeName items < 2 ^ 32) :
    width (m.pieces typeName items) = 8 + itemsLength typeName items := by
  have hitems : width (allPieces typeName items) = itemsLength typeName items := by
    induction items with
    | nil => rfl
    | cons x items ih =>
      rw [itemsLength] at h
      have hsplit : allPieces typeName (x :: items) = itemPieces typeName x.1 x.2 ++
          allPieces typeName items := flatMap_cons
      rw [hsplit, width_append, width_itemPieces _ (by omega), ih (by omega), itemsLength]
  rw [pieces, width_cons, hitems, Piece.exact, length_hostBytes]

variable (typeName) in
/-- The pieces of metadata with an item start with a word. -/
theorem allPieces_cons (x : SmallItem × ExtraItem) (items : List (SmallItem × ExtraItem)) :
    ∃ v tail, allPieces typeName (x :: items) = word v :: tail := by
  unfold allPieces
  rw [flatMap_cons, itemPieces]
  split_ifs
  · exact ⟨_, _, rfl⟩
  · exact ⟨_, _, rfl⟩

variable (m_enable typeName) in
/-- How many bytes the metadata are said to take: no item is counted while there should be none. -/
def metaLength (items : List (SmallItem × ExtraItem)) : ℕ :=
  if m_enable then 8 + itemsLength typeName items else 8

/-- The size the metadata says of itself. -/
theorem getSerializedSize_eq (hitems : m.HasItems items)
    (h : metaLength m_enable typeName items < 2 ^ 32) :
    ∃ size, m.GetSerializedSize m_enable typeName = .ok size ∧
      size.toNat = metaLength m_enable typeName items := by
  unfold GetSerializedSize metaLength at *
  cases m_enable with
  | false => exact ⟨8, rfl, rfl⟩
  | true =>
    rw [if_pos rfl] at h
    rw [if_pos rfl, if_pos rfl]
    have hlen : (UInt32.ofNat (itemsLength typeName items)).toNat = itemsLength typeName items :=
      toNat_ofNat (by omega)
    refine ⟨_, sizeFrom_eq hitems, ?_⟩
    rw [Buffer.toNat_add (by rw [hlen]; exact h), hlen]
    rfl

/-- The metadata are written if all items are counted; otherwise the first item is refused. -/
theorem serialize_eq (hitems : m.HasItems items)
    (h : metaLength m_enable typeName items < 2 ^ 32) {size : UInt32}
    (hsize : size.toNat = metaLength m_enable typeName items) (start : ℕ) :
    ∃ log, m.Serialize typeName start size =
        .ok (log, if m_enable = true ∨ items = [] then 1 else 0) ∧
      ∀ limit, Within log limit ↔ start + metaLength m_enable typeName items ≤ limit := by
  rw [serialize_cases hitems]
  unfold metaLength at *
  by_cases hall : m_enable = true ∨ items = []
  · -- what is counted is what is written
    have hwidth : width (m.pieces typeName items) = size.toNat := by
      rcases hall with rfl | rfl
      · rw [if_pos rfl] at h hsize
        rw [width_pieces (by omega), hsize]
      · rw [width_pieces (by exact Nat.two_pow_pos 32), hsize, itemsLength, ite_self]
    rw [writeAll_counts (Nat.le_of_eq hwidth), if_pos hall, ← hsize, ← hwidth]
    refine ⟨_, if_neg (not_not_intro ?_), fun limit =>
      within_place_iff (fun piece hmem => exact_of_mem_pieces hmem) (cons_ne_nil _ _)⟩
    rw [Nat.add_sub_cancel_left, hwidth]
    exact UInt32.ofNat_toNat
  · -- the count ends behind the uid
    obtain ⟨henable, hne⟩ := not_or.mp hall
    obtain ⟨x, rest, rfl⟩ := exists_cons_of_ne_nil hne
    obtain ⟨v, tail, hword⟩ := allPieces_cons typeName x rest
    rw [if_neg henable] at hsize ⊢
    have hfirst : counts start size (start + 8) = true := (counts_iff (by omega)).mpr (by omega)
    have hsecond : counts start size (start + 8 + (word v).room) = false := by
      rw [room_word, Bool.eq_false_iff, ne_eq, counts_iff (by omega)]
      omega
    have hroom : (Piece.exact (hostBytes 8 m.m_packetUid.toNat)).room = 8 :=
      length_hostBytes 8 m.m_packetUid.toNat
    rw [pieces, hword, writeAll, hroom, if_pos hfirst, writeAll_of_not_fits hsecond,
      if_neg hall]
    refine ⟨_, rfl, fun limit => ?_⟩
    rw [within_cons]
    unfold WriteLog.Write.stop
    dsimp only [Piece.exact]
    rw [length_hostBytes]
    exact and_iff_left within_nil

end PacketMetadata

/-! ### The bytes -/

namespace Buffer

variable {m : Heap} {b : Handle} {d : Data}

/-- How many bytes a buffer takes: three words, and its two parts up to the next word. -/
def serializedLength (b : Handle) : ℕ :=
  12 + alignNat (b.m_zeroAreaStart.toNat - b.m_start.toNat) +
    alignNat (b.m_end.toNat - b.m_zeroAreaEnd.toNat)

/-- The serialized length of a buffer is a multiple of four. -/
theorem dvd_serializedLength (b : Handle) : 4 ∣ serializedLength b := by
  unfold serializedLength alignNat
  omega

/-- The lengths of a buffer's data, without wrap-around. -/
theorem toNat_dataLengths (hshape : Shape b) :
    (dataStartLength b).toNat = b.m_zeroAreaStart.toNat - b.m_start.toNat ∧
    (dataEndLength b).toNat = b.m_end.toNat - b.m_zeroAreaEnd.toNat :=
  ⟨toNat_sub hshape.start_le, toNat_sub hshape.le_end⟩

/-- The rounded lengths of a buffer's data, without wrap-around. -/
theorem toNat_align_dataLengths (hshape : Shape b) (h : serializedLength b < 2 ^ 32) :
    (align (dataStartLength b)).toNat =
      alignNat (b.m_zeroAreaStart.toNat - b.m_start.toNat) ∧
    (align (dataEndLength b)).toNat = alignNat (b.m_end.toNat - b.m_zeroAreaEnd.toNat) := by
  obtain ⟨hstart, hend⟩ := toNat_dataLengths hshape
  have hle₁ := le_alignNat (b.m_zeroAreaStart.toNat - b.m_start.toNat)
  have hle₂ := le_alignNat (b.m_end.toNat - b.m_zeroAreaEnd.toNat)
  unfold serializedLength at h
  rw [toNat_align (by omega), toNat_align (by omega), hstart, hend]
  exact ⟨rfl, rfl⟩

/-- The size a buffer says of itself. -/
theorem toNat_getSerializedSize (hshape : Shape b) (h : serializedLength b < 2 ^ 32) :
    (GetSerializedSize b).toNat = serializedLength b := by
  obtain ⟨hstart, hend⟩ := toNat_align_dataLengths hshape h
  unfold serializedLength at h ⊢
  unfold GetSerializedSize
  have h₁ : (4 + 4 + align (dataStartLength b)).toNat = 8 + (align (dataStartLength b)).toNat :=
    toNat_add (by rw [hstart]; change 8 + _ < _; omega)
  have h₂ : (4 + 4 + align (dataStartLength b) + 4).toNat =
      8 + (align (dataStartLength b)).toNat + 4 := by
    rw [toNat_add (by rw [h₁, hstart]; change _ + 4 < _; omega), h₁]
    rfl
  rw [toNat_add (by rw [h₂, hstart, hend]; omega), h₂, hstart, hend]
  omega

/-- A buffer given its own size writes within it. -/
theorem serialize_eq (hd : m.data b.m_data = some d) (hwithin : Within d b)
    (h : serializedLength b < 2 ^ 32) (start : ℕ) :
    ∃ log, Serialize m b start (GetSerializedSize b) = .ok (log, 1) ∧
      WriteLog.Within log (start + serializedLength b) := by
  obtain ⟨hstart, hend⟩ := toNat_align_dataLengths hwithin.toShape h
  have hfirst := readFirst hwithin
  have hlast := readLast hwithin
  unfold Serialize
  rw [deref_of_data hd, ok_bind]
  unfold dataStartLength dataEndLength at *
  rw [hfirst, ok_bind, hlast, ok_bind]
  generalize hpieces : [word (b.m_zeroAreaEnd - b.m_zeroAreaStart), _, _, _, _] = pieces
  have hwidth : width pieces = serializedLength b := by
    subst hpieces
    simp only [width_cons, width_nil, room_word, hstart, hend]
    unfold serializedLength
    omega
  rw [writeAll_counts (by rw [hwidth, toNat_getSerializedSize hwithin.toShape h]), ← hwidth]
  refine ⟨_, rfl, within_place ?_⟩
  intro piece hpiece
  subst hpieces
  simp only [mem_cons, not_mem_nil, or_false] at hpiece
  rcases hpiece with rfl | rfl | rfl | rfl | rfl
  · exact Nat.le_refl _
  · exact Nat.le_refl _
  · rw [Area.length_read, hstart]
    exact le_alignNat _
  · exact Nat.le_refl _
  · rw [Area.length_read, hend]
    exact le_alignNat _

end Buffer

/-! ### The packet -/

namespace Packet

variable {m_enable : Bool} {typeName : UInt16 → List UInt8} {m : Buffer.Heap}
  {l : List Buffer.Entry} {held : List ℕ} {bytes : List UInt8} {p : Packet}
  {items : List (SmallItem × ExtraItem)}

/-- What is counted for the nix-vector. -/
def nixLength (p : Packet) : ℕ :=
  match p.m_nixVector with
  | some nix => nix.length
  | none => 4

/-- What is written before the nix-vector and not counted. -/
def nixWord (p : Packet) : ℕ :=
  match p.m_nixVector with
  | some _ => 4
  | none => 0

variable (m_enable typeName) in
/-- How many bytes the packet takes. -/
def serializedLength (p : Packet) (items : List (SmallItem × ExtraItem)) : ℕ :=
  nixWord p + nixLength p + (4 + alignNat (PacketMetadata.metaLength m_enable typeName items)) +
    (4 + Buffer.serializedLength p.m_buffer)

/-- The nix-vector is refused, or written behind its length. -/
theorem serializeNixVector_eq (h : nixWord p + nixLength p < 2 ^ 32) :
    (maxSize.toNat < nixLength p ∧ p.serializeNixVector maxSize = ([], none)) ∨
    nixLength p ≤ maxSize.toNat ∧ ∃ log size,
      p.serializeNixVector maxSize = (log, some (nixWord p + nixLength p, size)) ∧
      size.toNat = nixLength p ∧ ∀ limit, Within log limit ↔ nixWord p + nixLength p ≤ limit := by
  unfold serializeNixVector nixWord nixLength at *
  cases hnix : p.m_nixVector with
  | none =>
    rw [hnix] at h
    dsimp only
    by_cases hle : (0 + 4 : UInt32) ≤ maxSize
    · refine .inr ⟨le_iff_toNat_le.mp hle, _, _, if_pos hle, rfl, fun limit => ?_⟩
      rw [within_cons, WriteLog.Write.stop, length_values_word]
      exact and_iff_left within_nil
    · exact .inl ⟨Nat.lt_of_not_le fun hlt => hle (le_iff_toNat_le.mpr hlt), if_neg hle⟩
  | some nix =>
    rw [hnix] at h
    dsimp only at h ⊢
    have hsize : nix.GetSerializedSize.toNat = nix.length :=
      NixVector.toNat_getSerializedSize (by omega)
    have hlength : nix.length < 2 ^ 32 := by omega
    obtain ⟨log, hok, hlog⟩ := NixVector.serialize_eq hlength 4
    have hzero : 0 + nix.GetSerializedSize = nix.GetSerializedSize := zero_add _
    have hdvd : 4 ∣ nix.length := by
      unfold NixVector.length
      omega
    have halign : (align nix.GetSerializedSize).toNat = nix.length := by
      unfold NixVector.length at *
      rw [toNat_align (by omega), hsize, alignNat_of_dvd hdvd]
    rw [hzero, hok, halign]
    by_cases hle : nix.GetSerializedSize ≤ maxSize
    · rw [if_pos hle, if_pos (show (1 : UInt32) ≠ 0 by decide)]
      refine .inr ⟨hsize ▸ le_iff_toNat_le.mp hle, _, _, rfl, hsize, fun limit => ?_⟩
      rw [within_cons, WriteLog.Write.stop, length_values_word, hlog]
      dsimp only
      omega
    · refine .inl ⟨Nat.lt_of_not_le fun hlt => hle (le_iff_toNat_le.mpr (hsize ▸ hlt)), ?_⟩
      rw [if_neg hle]

/-- The metadata are refused, or written behind their length. -/
theorem serializeMetadata_eq (hitems : p.m_metadata.HasItems items) {pos : ℕ}
    (h : size.toNat + alignNat (PacketMetadata.metaLength m_enable typeName items) + 3 < 2 ^ 32) :
    (maxSize.toNat < size.toNat + PacketMetadata.metaLength m_enable typeName items ∧
      p.serializeMetadata m_enable typeName maxSize pos size = .ok ([], none)) ∨
    size.toNat + PacketMetadata.metaLength m_enable typeName items ≤ maxSize.toNat ∧
      ∃ log size', p.serializeMetadata m_enable typeName maxSize pos size =
          .ok (log, if m_enable = true ∨ items = [] then
            some (pos + 4 + alignNat (PacketMetadata.metaLength m_enable typeName items), size')
            else none) ∧
        size'.toNat = size.toNat + PacketMetadata.metaLength m_enable typeName items ∧
        ∀ limit, Within log limit ↔
          pos + 4 + PacketMetadata.metaLength m_enable typeName items ≤ limit := by
  generalize hmeta : PacketMetadata.metaLength m_enable typeName items = metaLength at *
  have hle' := le_alignNat metaLength
  have hlt : PacketMetadata.metaLength m_enable typeName items < 2 ^ 32 := by omega
  obtain ⟨metaSize, hget, hsize⟩ := PacketMetadata.getSerializedSize_eq hitems hlt
  obtain ⟨log, hok, hlog⟩ := PacketMetadata.serialize_eq hitems hlt hsize (pos + 4)
  rw [hmeta] at hsize hlog
  have hadd : (size + metaSize).toNat = size.toNat + metaLength := by
    rw [Buffer.toNat_add (by omega), hsize]
  have halign : (align metaSize).toNat = alignNat metaLength := by
    rw [toNat_align (by omega), hsize]
  unfold serializeMetadata
  rw [hget, ok_bind]
  by_cases hle : size + metaSize ≤ maxSize
  · refine .inr ⟨hadd ▸ le_iff_toNat_le.mp hle,
      ⟨pos, (word (metaSize + 4)).values⟩ :: log, size + metaSize, (if_pos hle).trans ?_, hadd, ?_⟩
    · rw [hok, ok_bind, halign]
      dsimp only
      by_cases hall : m_enable = true ∨ items = []
      · rw [if_pos hall, if_pos hall]
        rfl
      · rw [if_neg hall, if_neg hall]
        rfl
    · intro limit
      rw [within_cons, WriteLog.Write.stop, length_values_word, hlog]
      dsimp only
      omega
  · exact .inl ⟨Nat.lt_of_not_le fun hlt => hle (le_iff_toNat_le.mpr (hadd ▸ hlt)),
      if_neg hle⟩

/-- The bytes are refused, or written behind their length. -/
theorem serializeBuffer_eq (h : Buffer.Holds m held l) (hb : (p.m_buffer, bytes) ∈ l) {pos : ℕ}
    (hlt : size.toNat + Buffer.serializedLength p.m_buffer < 2 ^ 32) :
    (maxSize.toNat < size.toNat + Buffer.serializedLength p.m_buffer ∧
      p.serializeBuffer m maxSize pos size = .ok ([], 0)) ∨
    size.toNat + Buffer.serializedLength p.m_buffer ≤ maxSize.toNat ∧
      ∃ log, p.serializeBuffer m maxSize pos size = .ok (log, 1) ∧
        Within log (pos + 4 + Buffer.serializedLength p.m_buffer) := by
  obtain ⟨d, hd, hwithin, -⟩ := h.entry _ hb
  have hlt' : Buffer.serializedLength p.m_buffer < 2 ^ 32 := by omega
  have hsize : (Buffer.GetSerializedSize p.m_buffer).toNat =
      Buffer.serializedLength p.m_buffer := Buffer.toNat_getSerializedSize hwithin.toShape hlt'
  obtain ⟨log, hok, hlog⟩ := Buffer.serialize_eq hd hwithin hlt' (pos + 4)
  have hadd : (size + Buffer.GetSerializedSize p.m_buffer).toNat =
      size.toNat + Buffer.serializedLength p.m_buffer := by
    rw [Buffer.toNat_add (by rw [hsize]; exact hlt), hsize]
  unfold serializeBuffer
  by_cases hle : size + Buffer.GetSerializedSize p.m_buffer ≤ maxSize
  · refine .inr ⟨hadd ▸ le_iff_toNat_le.mp hle,
      ⟨pos, (word (Buffer.GetSerializedSize p.m_buffer + 4)).values⟩ :: log,
      (if_pos hle).trans ?_, ?_⟩
    · rw [hok]
      rfl
    · rw [within_cons, WriteLog.Write.stop, length_values_word]
      exact ⟨by dsimp only; omega, hlog⟩
  · exact .inl ⟨Nat.lt_of_not_le fun hlt => hle (le_iff_toNat_le.mpr (hadd ▸ hlt)),
      if_neg hle⟩

/-- `GetSerializedSize` counts every byte. -/
theorem getSerializedSize_eq (h : Buffer.Holds m held l) (hb : (p.m_buffer, bytes) ∈ l)
    (hitems : p.m_metadata.HasItems items)
    (hfits : serializedLength m_enable typeName p items < 2 ^ 32) :
    ∃ size, p.GetSerializedSize m_enable typeName = .ok size ∧
      size.toNat = serializedLength m_enable typeName p items := by
  obtain ⟨d, hd, hwithin, -⟩ := h.entry _ hb
  unfold serializedLength at *
  generalize hmeta : PacketMetadata.metaLength m_enable typeName items = metaLength at *
  have hle := le_alignNat metaLength
  have hlt : PacketMetadata.metaLength m_enable typeName items < 2 ^ 32 := by omega
  obtain ⟨metaSize, hget, hsize⟩ := PacketMetadata.getSerializedSize_eq hitems hlt
  have hbuf : Buffer.serializedLength p.m_buffer < 2 ^ 32 := by omega
  have hbufSize : (Buffer.GetSerializedSize p.m_buffer).toNat =
      Buffer.serializedLength p.m_buffer := Buffer.toNat_getSerializedSize hwithin.toShape hbuf
  have halign : (align metaSize).toNat = alignNat metaLength := by
    rw [toNat_align (by omega), hsize, hmeta]
  have halign' : (align (Buffer.GetSerializedSize p.m_buffer)).toNat =
      Buffer.serializedLength p.m_buffer := by
    rw [toNat_align (by omega), hbufSize, alignNat_of_dvd (Buffer.dvd_serializedLength _)]
  have hnix : ∀ size : UInt32, size.toNat = nixWord p + nixLength p →
      (size + align metaSize + 4 + align (Buffer.GetSerializedSize p.m_buffer) + 4).toNat =
        nixWord p + nixLength p + (4 + alignNat metaLength) +
          (4 + Buffer.serializedLength p.m_buffer) := by
    intro size hnix
    have h₁ : (size + align metaSize).toNat = size.toNat + alignNat metaLength := by
      rw [Buffer.toNat_add (by omega), halign]
    have h₂ : (size + align metaSize + 4).toNat = size.toNat + alignNat metaLength + 4 := by
      rw [Buffer.toNat_add (by rw [h₁]; change _ + 4 < _; omega), h₁]
      rfl
    have h₃ : (size + align metaSize + 4 + align (Buffer.GetSerializedSize p.m_buffer)).toNat =
        size.toNat + alignNat metaLength + 4 + Buffer.serializedLength p.m_buffer := by
      rw [Buffer.toNat_add (by rw [h₂, halign']; omega), h₂, halign']
    rw [Buffer.toNat_add (by rw [h₃]; change _ + 4 < _; omega), h₃]
    change _ + 4 = _
    omega
  unfold GetSerializedSize
  rw [hget, ok_bind]
  refine ⟨_, rfl, hnix _ ?_⟩
  unfold nixWord nixLength at *
  cases hvector : p.m_nixVector with
  | none => rfl
  | some nix =>
    rw [hvector] at hfits
    dsimp only at hfits ⊢
    have hlength : nix.length < 2 ^ 32 := by omega
    have hdvd : 4 ∣ nix.length := by
      unfold NixVector.length
      omega
    have halign : (align nix.GetSerializedSize).toNat = nix.length := by
      rw [toNat_align (by rw [NixVector.toNat_getSerializedSize hlength]; omega),
        NixVector.toNat_getSerializedSize hlength, alignNat_of_dvd hdvd]
    rw [Buffer.toNat_add (by rw [halign]; change _ + 4 < _; omega), halign]
    exact Nat.add_comm _ _

variable (m_enable typeName) in
/-- **What `Serialize` is for**: it writes nothing at `maxSize` or behind it, and returns 0 exactly
if the memory is smaller than `GetSerializedSize` says. -/
def SerializesWithin (m : Buffer.Heap) (p : Packet) (maxSize : UInt32) : Prop :=
  ∃ size log serialized, p.GetSerializedSize m_enable typeName = .ok size ∧
    p.Serialize m_enable typeName m maxSize = .ok (log, serialized) ∧
    Within log maxSize.toNat ∧ (serialized = 0 ↔ maxSize < size)

variable (m_enable typeName) in
/-- The maximum is not in a gap between what is counted and what is written: it refuses the
nix-vector; or it is enough for the nix-vector with its length and refuses the metadata; or it is
enough for these and the metadata with their length and refuses the bytes; or it is enough for
all. While metadata are not enabled, an item of another process is refused, and the packet too. -/
def SerializeFits (p : Packet) (items : List (SmallItem × ExtraItem)) (maxSize : ℕ) : Prop :=
  maxSize < nixLength p ∨
  (nixWord p + nixLength p ≤ maxSize ∧
    maxSize < nixLength p + PacketMetadata.metaLength m_enable typeName items) ∨
  (nixWord p + nixLength p + 4 + PacketMetadata.metaLength m_enable typeName items ≤ maxSize ∧
    maxSize < if m_enable = true ∨ items = [] then
      nixLength p + PacketMetadata.metaLength m_enable typeName items +
        Buffer.serializedLength p.m_buffer
      else serializedLength m_enable typeName p items) ∨
  (m_enable = true ∨ items = []) ∧ serializedLength m_enable typeName p items ≤ maxSize

/-- The size is given, and what was written is known. -/
theorem serializesWithin_iff_of {serialized : UInt32} {log : List (Write UInt8)}
    (hsize : p.GetSerializedSize m_enable typeName = .ok size)
    (hok : p.Serialize m_enable typeName m maxSize = .ok (log, serialized)) :
    SerializesWithin m_enable typeName m p maxSize ↔
      Within log maxSize.toNat ∧ (serialized = 0 ↔ maxSize.toNat < size.toNat) := by
  constructor
  · rintro ⟨size', log', serialized', hsize', hok', hrest⟩
    obtain rfl := Except.ok.inj (hsize.symm.trans hsize')
    obtain ⟨rfl, rfl⟩ := Prod.mk.inj (Except.ok.inj (hok.symm.trans hok'))
    rwa [lt_iff_toNat_lt] at hrest
  · rintro ⟨hwithin, hzero⟩
    exact ⟨size, log, serialized, hsize, hok, hwithin, hzero⟩

/-- The nix-vector, the metadata or the bytes are refused, or all is written. -/
theorem serialize_cases (h : Buffer.Holds m held l) (hb : (p.m_buffer, bytes) ∈ l)
    (hitems : p.m_metadata.HasItems items)
    (hfits : serializedLength m_enable typeName p items < 2 ^ 32) :
    ∃ log serialized, p.Serialize m_enable typeName m maxSize = .ok (log, serialized) ∧
      ((maxSize.toNat < nixLength p ∧ (∀ limit, Within log limit) ∧ serialized = 0) ∨
      (nixLength p ≤ maxSize.toNat ∧
        maxSize.toNat < nixLength p + PacketMetadata.metaLength m_enable typeName items ∧
        (∀ limit, Within log limit ↔ nixWord p + nixLength p ≤ limit) ∧ serialized = 0) ∨
      (nixLength p + PacketMetadata.metaLength m_enable typeName items ≤ maxSize.toNat ∧
        ((m_enable = true ∨ items = []) → maxSize.toNat < nixLength p +
          PacketMetadata.metaLength m_enable typeName items +
          Buffer.serializedLength p.m_buffer) ∧
        (∀ limit, Within log limit ↔ nixWord p + nixLength p + 4 +
          PacketMetadata.metaLength m_enable typeName items ≤ limit) ∧ serialized = 0) ∨
      (m_enable = true ∨ items = []) ∧ nixLength p +
          PacketMetadata.metaLength m_enable typeName items +
          Buffer.serializedLength p.m_buffer ≤ maxSize.toNat ∧
        Within log (serializedLength m_enable typeName p items) ∧ serialized = 1) := by
  have hmeta := le_alignNat (PacketMetadata.metaLength m_enable typeName items)
  have hbuffer : 12 ≤ Buffer.serializedLength p.m_buffer := by
    unfold Buffer.serializedLength
    omega
  have hnixLength : nixWord p + nixLength p < 2 ^ 32 := by
    unfold serializedLength at hfits
    omega
  unfold Serialize
  rcases serializeNixVector_eq hnixLength with ⟨hlt, hnix⟩ | ⟨hge, log, size, hnix, hsize, hlog⟩
  · rw [hnix]
    exact ⟨_, _, rfl, .inl ⟨hlt, fun _ => within_nil, rfl⟩⟩
  rw [hnix]
  dsimp only
  have hsum : size.toNat + alignNat (PacketMetadata.metaLength m_enable typeName items) + 3 <
      2 ^ 32 := by
    unfold serializedLength at hfits
    omega
  rcases serializeMetadata_eq hitems hsum with
    ⟨hlt, hmetadata⟩ | ⟨hge', log', size', hmetadata, hsize', hlog'⟩
  · rw [hmetadata, ok_bind]
    refine ⟨_, _, rfl, .inr (.inl ⟨hge, by omega, fun limit => ?_, rfl⟩)⟩
    rw [append_nil]
    exact hlog limit
  rw [hmetadata, ok_bind]
  -- the metadata reach further than the nix-vector
  have hboth : ∀ limit, Within (log ++ log') limit ↔ nixWord p + nixLength p + 4 +
      PacketMetadata.metaLength m_enable typeName items ≤ limit := by
    intro limit
    rw [within_append, hlog, hlog']
    omega
  by_cases hall : m_enable = true ∨ items = []
  swap
  · rw [if_neg hall]
    exact ⟨_, _, rfl, .inr (.inr (.inl ⟨by omega, fun hall' => absurd hall' hall, hboth, rfl⟩))⟩
  rw [if_pos hall]
  dsimp only
  have hsum' : size'.toNat + Buffer.serializedLength p.m_buffer < 2 ^ 32 := by
    unfold serializedLength at hfits
    omega
  rcases serializeBuffer_eq h hb hsum' with ⟨hlt, hok⟩ | ⟨hge'', log'', hok, hlog''⟩
  · rw [hok, ok_bind]
    refine ⟨_, _, rfl, .inr (.inr (.inl ⟨by omega, fun _ => by omega, ?_, rfl⟩))⟩
    rw [append_nil]
    exact hboth
  · rw [hok, ok_bind]
    refine ⟨_, _, rfl, .inr (.inr (.inr ⟨hall, by omega, ?_, rfl⟩))⟩
    unfold serializedLength
    rw [within_append, hboth]
    exact ⟨by omega, hlog''.mono (by omega)⟩

/-- **The maxima for which `Serialize` does what it should.** -/
theorem serialize_iff (h : Buffer.Holds m held l) (hb : (p.m_buffer, bytes) ∈ l)
    (hitems : p.m_metadata.HasItems items)
    (hfits : serializedLength m_enable typeName p items < 2 ^ 32) (maxSize : UInt32) :
    SerializesWithin m_enable typeName m p maxSize ↔
      SerializeFits m_enable typeName p items maxSize.toNat := by
  obtain ⟨total, htotal, hlength⟩ := getSerializedSize_eq h hb hitems hfits
  obtain ⟨log, serialized, hok, hcases⟩ := serialize_cases h hb hitems hfits
  have hmeta := le_alignNat (PacketMetadata.metaLength m_enable typeName items)
  have hword : nixWord p ≤ 4 := by
    unfold nixWord
    split <;> omega
  have hbuffer : 12 ≤ Buffer.serializedLength p.m_buffer := by
    unfold Buffer.serializedLength
    omega
  have hone : (1 : UInt32) ≠ 0 := by decide
  rw [serializesWithin_iff_of htotal hok, hlength]
  unfold SerializeFits serializedLength at *
  rcases hcases with ⟨hlt, hlog, rfl⟩ | ⟨hge, hlt, hlog, rfl⟩ | ⟨hge, hlt, hlog, rfl⟩ |
    ⟨hall, hge, hlog, rfl⟩
  · simp only [hlog, true_and, true_iff]
    omega
  · simp only [hlog, true_iff]
    omega
  · simp only [hlog, true_iff]
    split_ifs with hall
    · have hlt' := hlt hall
      omega
    · simp only [hall, false_and, or_false]
      omega
  · rw [if_pos hall]
    simp only [hone, false_iff, hall, true_and]
    constructor
    · rintro ⟨-, hle⟩
      omega
    · intro hfit
      have hle : nixWord p + nixLength p +
          (4 + alignNat (PacketMetadata.metaLength m_enable typeName items)) +
          (4 + Buffer.serializedLength p.m_buffer) ≤ maxSize.toNat := by omega
      exact ⟨hlog.mono hle, by omega⟩

/-! ### Two packets -/

/-- A header, whose type has a name of two bytes, and a part of the payload. -/
def twoItems : PacketMetadata where
  m_data := fun i => [0x08, 0x00, 0xff, 0xff, 0x02, 0x08, 0x01, 0x00, 0xff, 0xff, 0x00, 0x00, 0x01,
    0x05, 0x02, 0x00, 0x01, 0x04, 0x07, 0x00, 0x00, 0x00].getD i 0
  m_size := 22
  m_head := 0
  m_tail := 8
  m_packetUid := 9

/-- Metadata with one small and one fragmented item. -/
theorem hasItems_twoItems : twoItems.HasItems
    [(⟨8, 0xffff, 2, 8, 1⟩, ⟨0, 8, 9⟩), (⟨0xffff, 0, 1, 5, 2⟩, ⟨1, 4, 7⟩)] := rfl

/-- A packet with a nix-vector of one word, two items of metadata and three zeros needs 104 bytes,
and 104 are enough. -/
theorem serialize_iff_nixVector : ∃ m b,
    Buffer.Initialize (Buffer.initial fun _ _ => 7).heap 3 = .ok (m, b) ∧
    SerializesWithin true (fun _ => [65, 66]) m ⟨some ⟨[5], 0, 3, 3⟩, twoItems, b⟩ 104 := by
  obtain ⟨l, hnil, -, h₀⟩ := Buffer.represents_initial fun _ _ => 7
  obtain rfl : l = [] := map_eq_nil_iff.mp hnil.symm
  have hfits : (min (Buffer.firstSize (Buffer.initial fun _ _ => 7).heap)
      (Buffer.initial fun _ _ => 7).heap.g_recommendedStart).toNat + (3 : UInt32).toNat <
        2 ^ 32 := by
    decide +kernel
  obtain ⟨m, b, hok, h⟩ := h₀.initialize hfits
  have hrun : (Buffer.Initialize (Buffer.initial fun _ _ => 7).heap 3).map Prod.snd =
      .ok (⟨0, 0, 0, 3, 0, 3⟩ : Buffer.Handle) := by decide +kernel
  rw [hok] at hrun
  obtain rfl : b = ⟨0, 0, 0, 3, 0, 3⟩ := Except.ok.inj hrun
  refine ⟨m, _, hok, (serialize_iff h mem_cons_self hasItems_twoItems ?_ 104).mpr ?_⟩
  · decide
  · exact .inr (.inr (.inr ⟨by decide, by decide⟩))

/-- No item, as in a packet that was just created while metadata are not enabled. -/
def noMetadata : PacketMetadata := ⟨fun _ => 0, 8, 0xffff, 0xffff, 0⟩

/-- **Eight bytes too few and nothing is noticed**: an empty packet needs 32 bytes, but the three
lengths before the parts are not counted. -/
theorem serialize_overruns : ∃ m b log,
    Buffer.Initialize (Buffer.initial fun _ _ => 7).heap 0 = .ok (m, b) ∧
    Serialize false (fun _ => []) m ⟨none, noMetadata, b⟩ 24 = .ok (log, 1) ∧
    (∃ w ∈ log, w.stop = 32) ∧
    ¬ SerializesWithin false (fun _ => []) m ⟨none, noMetadata, b⟩ 24 := by
  have hrun : (Buffer.Initialize (Buffer.initial fun _ _ => 7).heap 0 >>= fun r =>
      (Serialize false (fun _ => []) r.1 ⟨none, noMetadata, r.2⟩ 24).map fun r =>
        (r.1.map Write.stop, r.2)) =
      .ok (([4, 8, 16, 20, 24, 28, 28, 32, 32], 1) : List ℕ × UInt32) := by decide +kernel
  obtain ⟨⟨m, b⟩, hok, hrun⟩ := bind_eq_ok_iff.mp hrun
  cases hserialize : Serialize false (fun _ => []) m ⟨none, noMetadata, b⟩ 24 with
  | error e =>
    rw [hserialize] at hrun
    cases hrun
  | ok result =>
    obtain ⟨log, serialized⟩ := result
    rw [hserialize] at hrun
    obtain ⟨hstops, rfl⟩ := Prod.mk.inj (Except.ok.inj hrun)
    have hlast : 32 ∈ log.map Write.stop := by
      rw [hstops]
      decide
    obtain ⟨w, hw, hstop⟩ := mem_map.mp hlast
    refine ⟨m, b, log, hok, hserialize, ⟨w, hw, hstop⟩, ?_⟩
    rintro ⟨size, log', serialized', -, hok', hwithin, -⟩
    obtain ⟨rfl, -⟩ := Prod.mk.inj (Except.ok.inj (hserialize.symm.trans hok'))
    have hle := hwithin w hw
    rw [hstop] at hle
    exact absurd hle (by decide)

end Packet

end Ns3Joined.Network
