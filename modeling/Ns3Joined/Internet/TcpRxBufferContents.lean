import Ns3Joined.Internet.TcpRxBufferCorrect
import Ns3Joined.Library.ExceptFold

/-!
# What the receive buffer of TCP does whatever is in the packets

* `Add_map`, `Extract_map`: the calls, with other things known of the bytes of the packets. For
  `Extract` it matters how packets are put together.
* `Add_blank`, `Extract_blank`: the calls, without the contents of the packets.
-/

namespace Ns3Joined.Internet.TcpRxBuffer

open SequenceNumber List ExceptFold

variable {α β : Type} (f : α → β)

/-- An entry, with what `f` says of the bytes. -/
def mapEntry (i : Entry α) : Entry β := (i.1, i.2.map f)

/-- The buffer, with what `f` says of the bytes. -/
def mapBytes (b : TcpRxBuffer α) : TcpRxBuffer β := { b with m_data := b.m_data.map (mapEntry f) }

/-- Mapping the octets of a segment keeps its size. -/
theorem getSize_map (p : List α) : GetSize (p.map f) = GetSize p := by
  rw [GetSize, GetSize, length_map]

/-- Trimming looks at the positions only, never at the octets. -/
theorem trim_map_bytes (headSeq tailSeq : SequenceNumber32) (size : UInt32)
    (data : List (Entry α)) : trim headSeq tailSeq size (data.map (mapEntry f)) =
      ((trim headSeq tailSeq size data).1.map (mapEntry f),
        (trim headSeq tailSeq size data).2) := by
  induction data generalizing headSeq tailSeq size with
  | nil => rfl
  | cons i rest ih =>
    simp only [map_cons, trim, mapEntry, getSize_map, ih]
    split_ifs <;> rfl

/-- Whether a position is held does not depend on the octets. -/
theorem contains_map_bytes (s : SequenceNumber32) (data : List (Entry α)) :
    contains s (data.map (mapEntry f)) = contains s data := by
  rw [contains, any_map]
  rfl

/-- Storing a segment commutes with a map of the octets. -/
theorem assign_map_bytes (s : SequenceNumber32) (p : List α) (data : List (Entry α)) :
    assign s (p.map f) (data.map (mapEntry f)) = (assign s p data).map (mapEntry f) := by
  induction data with
  | nil => rfl
  | cons i rest ih =>
    simp only [map_cons, assign, mapEntry, ih]
    split_ifs <;> rfl

/-- Moving the expected number on does not depend on the octets. -/
theorem advance_map_bytes (next : SequenceNumber32) (avail : UInt32) (sackList : List SackBlock)
    (data : List (Entry α)) : advance next avail sackList (data.map (mapEntry f)) =
      advance next avail sackList data := by
  induction data generalizing next avail sackList with
  | nil => rfl
  | cons i rest ih =>
    simp only [map_cons, advance, mapEntry, getSize_map, ih]

/-- The part that fits the window does not depend on the octets. -/
theorem fitWindow_map_bytes (b : TcpRxBuffer α) (headSeq tailSeq : SequenceNumber32) :
    (b.mapBytes f).fitWindow headSeq tailSeq = b.fitWindow headSeq tailSeq := by
  unfold fitWindow mapBytes
  cases b.m_data <;> rfl

/-- `Add` commutes with a map of the octets. -/
theorem Add_map (b : TcpRxBuffer α) (p : List α) (s : SequenceNumber32) :
    (b.mapBytes f).Add (p.map f) s = (b.Add p s).map fun r => (r.1.mapBytes f, r.2) := by
  unfold Add
  dsimp only
  rw [fitWindow_map_bytes, getSize_map]
  have htrim := trim_map_bytes f (b.fitWindow s (s + GetSize p)).1
    (b.fitWindow s (s + GetSize p)).2 b.m_size b.m_data
  change trim _ _ (b.mapBytes f).m_size (b.mapBytes f).m_data = _ at htrim
  rw [htrim]
  generalize trim (b.fitWindow s (s + GetSize p)).1 (b.fitWindow s (s + GetSize p)).2 b.m_size
    b.m_data = r
  obtain ⟨data, headSeq, tailSeq, size⟩ := r
  dsimp only
  rw [← map_drop, ← map_take, getSize_map, contains_map_bytes, assign_map_bytes]
  simp only [advance_map_bytes, mapBytes]
  by_cases hge : ge headSeq tailSeq = true
  · rw [if_pos hge, if_pos hge]
    rfl
  rw [if_neg hge, if_neg hge]
  generalize (p.drop (headSeq - s).toNat).take (tailSeq - headSeq).toNat = piece
  by_cases hsize : GetSize piece ≠ tailSeq - headSeq
  · rw [if_pos hsize, if_pos hsize]
    rfl
  rw [if_neg hsize, if_neg hsize]
  by_cases hcontains : contains headSeq data = true
  · rw [if_pos hcontains, if_pos hcontains]
    rfl
  rw [if_neg hcontains, if_neg hcontains]
  by_cases hgt : gt headSeq b.m_nextRxSeq = true
  · rw [if_pos hgt, if_pos hgt]
    cases UpdateSackList b.m_nextRxSeq b.m_sackList headSeq tailSeq with
    | error e => rfl
    | ok sackList =>
      rw [ok_bind, ok_bind]
      cases advance b.m_nextRxSeq b.m_availBytes sackList (assign headSeq piece data) <;> rfl
  · rw [if_neg hgt, if_neg hgt, ok_bind, ok_bind]
    cases advance b.m_nextRxSeq b.m_availBytes b.m_sackList (assign headSeq piece data) <;> rfl

section Extract

variable [PacketBytes α] [PacketBytes β]

/-- Packets that start as one of the list can be put behind others before or after `f`. -/
def Commutes (data : List (Entry α)) : Prop :=
  ∀ i ∈ data, ∀ (n : ℕ) (out : List α), (PacketBytes.AddAtEnd out (i.2.take n)).map f =
    PacketBytes.AddAtEnd (out.map f) ((i.2.take n).map f)

variable {f}

/-- Where the segments commute with the map, appending a whole segment does. -/
theorem Commutes.whole {data : List (Entry α)} {i : Entry α} (h : Commutes f data) (hi : i ∈ data)
    (out : List α) : (PacketBytes.AddAtEnd out i.2).map f =
      PacketBytes.AddAtEnd (out.map f) (i.2.map f) := by
  have htake := h i hi i.2.length out
  rwa [take_length] at htake

/-- The loop of `Extract` commutes with the map where the segments do. -/
theorem extractLoop_map (next : SequenceNumber32) (out : List α) (extractSize size avail : UInt32)
    {data : List (Entry α)} (h : Commutes f data) :
    extractLoop next (out.map f) extractSize size avail (data.map (mapEntry f)) =
      (extractLoop next out extractSize size avail data).map fun r =>
        (r.1.map f, r.2.1, r.2.2.1, r.2.2.2.map (mapEntry f)) := by
  induction data generalizing out extractSize size avail with
  | nil =>
    rw [map_nil, extractLoop, extractLoop]
    split_ifs <;> rfl
  | cons i rest ih =>
    have hassign (s : SequenceNumber32) (p : List α) :
        (assign s (p.map f) ((i.1, i.2.map f) :: rest.map (mapEntry f))).eraseP
          (fun x => x.1 == i.1) =
        ((assign s p (i :: rest)).eraseP fun x => x.1 == i.1).map (mapEntry f) := by
      have hmap := assign_map_bytes f s p (i :: rest)
      rw [map_cons] at hmap
      rw [← mapEntry, hmap, eraseP_map]
      rfl
    have hwhole := h.whole mem_cons_self
    have hpart (n : ℕ) (out : List α) := h i mem_cons_self n out
    have hrest : Commutes f rest := fun x hx => h x (mem_cons_of_mem i hx)
    rw [map_cons, extractLoop, extractLoop]
    simp only [mapEntry, getSize_map, ← map_drop, ← map_take, ← hwhole, ← hpart, ih _ _ _ _ hrest]
    split_ifs
    · rfl
    · rfl
    · exact congrArg (fun d => Except.ok (_, _, _, d)) (hassign _ _)
    · rfl

/-- `Extract` commutes with a map of the octets where the segments do. -/
theorem Extract_map {b : TcpRxBuffer α} (maxSize : UInt32) (h : Commutes f b.m_data) :
    (b.mapBytes f).Extract maxSize =
      (b.Extract maxSize).map fun r => (r.1.mapBytes f, r.2.map (·.map f)) := by
  obtain ⟨next, finSeq, gotFin, size, maxBuffer, avail, data, sackList⟩ := b
  unfold Extract mapBytes
  dsimp only
  generalize (if avail < maxSize then avail else maxSize) = extractSize
  by_cases hzero : extractSize = 0
  · rw [if_pos hzero, if_pos hzero]
    rfl
  rw [if_neg hzero, if_neg hzero]
  by_cases hempty : data.length = 0
  · rw [if_pos hempty, if_pos (by rw [length_map]; exact hempty)]
    rfl
  rw [if_neg hempty, if_neg (by rw [length_map]; exact hempty)]
  have hloop := extractLoop_map next [] extractSize size avail h
  change extractLoop next [] _ _ _ _ = _ at hloop
  rw [hloop]
  cases extractLoop next [] extractSize size avail data with
  | error e => rfl
  | ok r =>
    obtain ⟨outPkt, size, avail, data⟩ := r
    rw [ok_bind]
    change Except.ok (_, if GetSize (outPkt.map f) = 0 then none else some _) =
      Except.ok (_, Option.map (·.map f) (if GetSize outPkt = 0 then none else some outPkt))
    rw [getSize_map]
    split <;> rfl

end Extract

/-! ### Without contents -/

/-- A packet of the same size with zeros. -/
def blankBytes (p : List UInt8) : List UInt8 := p.map fun _ => 0

def blankEntry (i : Entry) : Entry := mapEntry (fun _ => 0) i

/-- The buffer without the contents of its packets. -/
def blank (b : TcpRxBuffer) : TcpRxBuffer := b.mapBytes fun _ => 0

/-- `Add` does the same to a buffer whose octets are blanked. -/
theorem Add_blank (b : TcpRxBuffer) (p : List UInt8) (s : SequenceNumber32) :
    b.blank.Add (blankBytes p) s = (b.Add p s).map fun r => (r.1.blank, r.2) :=
  Add_map _ b p s

/-- `Extract` does the same to a buffer whose octets are blanked. -/
theorem Extract_blank (b : TcpRxBuffer) (maxSize : UInt32) :
    b.blank.Extract maxSize = (b.Extract maxSize).map fun r => (r.1.blank, r.2.map blankBytes) :=
  Extract_map maxSize fun _ _ _ _ => map_append

end Ns3Joined.Internet.TcpRxBuffer
