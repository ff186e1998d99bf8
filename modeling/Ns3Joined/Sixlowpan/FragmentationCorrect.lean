import Ns3Joined.Sixlowpan.Reassembly

/-!
# When fragmentation is correct

A compressed packet goes through (`Correct`) if it is cut into fragments that fit the MTU, and
these are put together again in whatever order they come. That is so just if

* the MTU has room for 8 bytes after the header of a fragment: otherwise the loop does not end;
* the headers, as they were before compression, are a multiple of 8 bytes: the offsets of the
  fragments are rounded down to such multiples;
* the last fragment is not empty: the loop sends one more fragment when the data come out even,
  and the datagram is complete before it, which is then kept as the start of another one.
-/

namespace Ns3Joined.Sixlowpan.Compressed

open ExceptFold Slices List

variable {d : SixLowPanNetDevice} {src dst : Address}

/-- The key of the fragments of a packet. -/
def key (c : Compressed d src dst) (tag : ℕ) : FragmentKey :=
  ⟨src, dst, c.origPacketSize, tag % 65536⟩

/-- The packet is cut into fragments that fit the MTU. In whatever order they come to the device,
and some of them more than once, none completes a packet until the last one that is missing comes;
this one completes the packet, and then nothing is kept for it. -/
def Correct (c : Compressed d src dst) (l2Mtu tag : ℕ) : Prop :=
  ∃ fragments, DoFragmentation c.packet c.origPacketSize c.origHdrSize l2Mtu tag = .ok fragments ∧
    (∀ p ∈ fragments, p.length ≤ l2Mtu) ∧
    ∀ (order : List (ℤ × Packet)) (now : ℤ) (last : Packet),
      (∀ q ∈ order, q.2 ∈ fragments) → last ∈ fragments → (∀ q ∈ order, q.2 ≠ last) →
      (∀ p ∈ fragments, p ≠ last → ∃ q ∈ order, q.2 = p) →
      ∃ d', d.receiveAll src dst order = .ok (d', order.map fun _ => none) ∧
        ∃ d'' dropped, d'.receive now last src dst = .ok (d'', dropped, some c.packet) ∧
          d''.Free (c.key tag)

variable {c : Compressed d src dst} {l2Mtu tag : ℕ}

/-- The packet as a datagram in these pieces. -/
def datagram (c : Compressed d src dst) (l2Mtu tag : ℕ) (first : Packet)
    (pieces : List (Packet × ℕ)) : Datagram :=
  ⟨src, dst, Frag1.new c.origPacketSize tag, c.header ++ c.firstData l2Mtu, first, pieces⟩

/-- The header of a sendable packet's first fragment. -/
theorem Sendable.frag1_new (h : c.Sendable l2Mtu) (tag : ℕ) :
    Frag1.new c.origPacketSize tag = ⟨c.origPacketSize, tag % 65536⟩ := by
  rw [Frag1.new, and_7ff, Nat.mod_eq_of_lt h.size_lt]

variable {x : Packet × ℕ} {pieces : List (Packet × ℕ)} {first : Packet} {order : List (ℤ × Packet)}
  {g : Datagram}

section

variable (h : c.Sendable l2Mtu)

include h

/-- A later fragment is its header and its data. -/
theorem Sendable.encode_eq (tag : ℕ) (hx : x.2 < 2048) :
    encode c.origPacketSize tag x =
      (FragN.mk c.origPacketSize (tag % 65536) (x.2 / 8)).Serialize ++ x.1 := by
  have hshift : x.2 >>> 3 % 256 = x.2 / 8 := by
    rw [Nat.shiftRight_eq_div_pow]
    omega
  rw [encode, FragN.new, and_7ff, Nat.mod_eq_of_lt h.size_lt, hshift]

/-- What the sender does with a packet that can be sent: the first fragment, what the receiver
reads of it, and how the rest is cut. -/
theorem Sendable.fragments (hMtu : 13 ≤ l2Mtu) (tag : ℕ) :
    ∃ first pieces,
      d.decompressFirst (c.header ++ c.firstData l2Mtu) src dst = .ok first ∧
      first.length = c.origHdrSize + firstSize l2Mtu c.header.length ∧
      Cut (fragmentSize l2Mtu) first.length (c.payload.drop (firstSize l2Mtu c.header.length))
        pieces ∧
      DoFragmentation c.packet c.origPacketSize c.origHdrSize l2Mtu tag =
        .ok (c.firstFragment l2Mtu tag :: pieces.map (encode c.origPacketSize tag)) := by
  obtain ⟨hlength, hlt⟩ := h.length_packet
  have hfirst := h.firstSize_lt
  have hsize := h.size_lt
  rw [origPacketSize] at hsize
  obtain ⟨first, hdecompress, hlengthFirst⟩ := c.restores (c.firstData l2Mtu)
  rw [h.length_firstData] at hlengthFirst
  have hpos : 0 < fragmentSize l2Mtu := by
    rw [fragmentSize]
    omega
  obtain ⟨pieces, hcut, hok⟩ := fragmentLoop_cut (p := c.packet) c.origPacketSize tag h.room'
    h.mtu_lt' hpos (by omega) (c.packet.length + 2)
    (c.origHdrSize + firstSize l2Mtu c.header.length)
    (c.header.length + firstSize l2Mtu c.header.length) (by omega) (by omega) (by omega)
  rw [packet, drop_length_add_append, ← hlengthFirst] at hcut
  refine ⟨first, pieces, hdecompress, hlengthFirst, hcut, ?_⟩
  rw [h.DoFragmentation_eq, hok, ok_bind]

/-- The pieces of the packet follow one another. -/
theorem Sendable.chain (hfirst : first.length = c.origHdrSize + firstSize l2Mtu c.header.length)
    (hcut : Cut (fragmentSize l2Mtu) first.length
      (c.payload.drop (firstSize l2Mtu c.header.length)) pieces) :
    Chain first.length pieces c.origPacketSize := by
  have hlt := h.firstSize_lt
  have hstop : first.length + (c.payload.drop (firstSize l2Mtu c.header.length)).length =
      c.origPacketSize := by
    rw [length_drop, hfirst, origPacketSize]
    omega
  exact hstop ▸ hcut.chain

/-- Of pieces that are not empty, and start where they can, the packet is a whole datagram. -/
theorem Sendable.whole (hfirst : first.length = c.origHdrSize + firstSize l2Mtu c.header.length)
    (hchain : Chain first.length pieces c.origPacketSize) (hpos : ∀ x ∈ pieces, 0 < x.1.length)
    (haligned : ∀ x ∈ pieces, x.2 % 8 = 0) :
    (c.datagram l2Mtu tag first pieces).Whole where
  chain := by
    show Chain 0 ((first, 0) :: pieces) (Frag1.new c.origPacketSize tag).m_datagramSize
    rw [h.frag1_new]
    refine ⟨rfl, ?_⟩
    rw [Nat.zero_add]
    exact hchain
  pos := by
    intro x hx
    obtain rfl | hx := mem_cons.mp hx
    · show 0 < first.length
      have := c.pos
      omega
    · exact hpos x hx
  aligned := by
    intro x hx
    obtain rfl | hx := mem_cons.mp hx
    · rfl
    · exact haligned x hx
  size_lt := by
    show (Frag1.new c.origPacketSize tag).m_datagramSize < 2048
    rw [h.frag1_new]
    exact h.size_lt
  tag_lt := Nat.mod_lt _ (by decide)

/-- The bytes of a later fragment. -/
theorem Sendable.bytes (hpos : 0 < x.2) (hx : x.2 < 2048) :
    (c.datagram l2Mtu tag first pieces).bytes x = encode c.origPacketSize tag x := by
  have hheader : (c.datagram l2Mtu tag first pieces).header =
      ⟨c.origPacketSize, tag % 65536⟩ := h.frag1_new tag
  rw [Datagram.bytes, if_neg (Nat.ne_of_gt hpos), hheader, h.encode_eq tag hx]

/-- The first fragment fits the link. -/
theorem Sendable.length_firstFragment (tag : ℕ) : (c.firstFragment l2Mtu tag).length ≤ l2Mtu := by
  have hlength : (c.firstFragment l2Mtu tag).length =
      4 + (c.header.length + firstSize l2Mtu c.header.length) := by
    rw [← h.length_firstData, ← length_append]
    exact length_append
  have hroom := h.room
  rw [hlength, firstSize]
  omega

end

theorem length_encode (origPacketSize tag : ℕ) (x : Packet × ℕ) :
    (encode origPacketSize tag x).length = 5 + x.1.length := length_append

/-- A later fragment fits the link. -/
theorem Sendable.length_encode_le (h : c.Sendable l2Mtu) (hx : x.1.length ≤ fragmentSize l2Mtu) :
    (encode c.origPacketSize tag x).length ≤ l2Mtu := by
  have hroom := h.room'
  rw [fragmentSize] at hx
  rw [length_encode]
  omega

/-- The first fragment is none of the later ones. -/
theorem Sendable.firstFragment_ne (h : c.Sendable l2Mtu) (x : Packet × ℕ) :
    c.firstFragment l2Mtu tag ≠ encode c.origPacketSize tag x := by
  refine frag1_ne_fragN ?_ ?_ _ _
  · rw [h.frag1_new]
    exact h.size_lt
  · show c.origPacketSize &&& 0x7ff < 2048
    rw [and_7ff]
    exact Nat.mod_lt _ (by decide)

/-- Packets that are all pieces as they are sent. -/
theorem exists_pieces (h : ∀ q ∈ order, q.2 ∈ g.pieces.map g.bytes) :
    ∃ order' : List (ℤ × (Packet × ℕ)), order = order'.map (fun y => (y.1, g.bytes y.2)) ∧
      ∀ y ∈ order', y.2 ∈ g.pieces := by
  induction order with
  | nil => exact ⟨[], rfl, nofun⟩
  | cons q order ih =>
    obtain ⟨x, hx, heq⟩ := mem_map.mp (h q mem_cons_self)
    obtain ⟨order', rfl, hpieces⟩ := ih fun q hq => h q (mem_cons_of_mem _ hq)
    refine ⟨(q.1, x) :: order', by rw [map_cons, heq], fun y hy => ?_⟩
    obtain rfl | hy := mem_cons.mp hy
    · exact hx
    · exact hpieces y hy

/-- **Reassembly** of the fragments of a whole datagram, whatever their order. -/
theorem reassembled (h : g.Whole) (hd : g.Holds d []) {last : Packet} (now : ℤ)
    (horder : ∀ q ∈ order, q.2 ∈ g.pieces.map g.bytes) (hlast : last ∈ g.pieces.map g.bytes)
    (hmissing : ∀ q ∈ order, q.2 ≠ last)
    (hall : ∀ p ∈ g.pieces.map g.bytes, p ≠ last → ∃ q ∈ order, q.2 = p) :
    ∃ d', d.receiveAll g.src g.dst order = .ok (d', order.map fun _ => none) ∧
      ∃ d'' dropped, d'.receive now last g.src g.dst = .ok (d'', dropped, some g.packet) ∧
        d''.Free g.key := by
  obtain ⟨order', rfl, hpieces⟩ := exists_pieces horder
  obtain ⟨x, hx, rfl⟩ := mem_map.mp hlast
  have hmissing' : ∀ y ∈ order', y.2 ≠ x := fun y hy heq =>
    hmissing _ (mem_map_of_mem hy) (congrArg g.bytes heq)
  have hall' : ∀ y ∈ g.pieces, y ≠ x → ∃ z ∈ order', z.2 = y := by
    intro y hy hne
    obtain ⟨q, hq, heq⟩ := hall (g.bytes y) (mem_map_of_mem hy)
      fun heq => hne (h.bytes_inj hy hx heq)
    obtain ⟨z, hz, rfl⟩ := mem_map.mp hq
    exact ⟨z, hz, h.bytes_inj (hpieces z hz) hy heq⟩
  obtain ⟨d', hok, hrest⟩ := h.receiveAll hd order' hpieces hx hmissing' hall' now
  refine ⟨d', hok.trans ?_, hrest⟩
  rw [map_map]
  rfl

/-- The datagram put together again is the packet. -/
theorem packet_datagram
    (h : (pieces.map Prod.fst).flatten = c.payload.drop (firstSize l2Mtu c.header.length)) :
    (c.datagram l2Mtu tag first pieces).packet = c.packet := by
  show c.header ++ c.firstData l2Mtu ++ (pieces.map Prod.fst).flatten = c.header ++ c.payload
  rw [h, append_assoc, firstData, take_append_drop]

/-- The fragments of a packet carry its key. -/
theorem Sendable.key_datagram (h : c.Sendable l2Mtu) (tag : ℕ) (first : Packet)
    (pieces : List (Packet × ℕ)) : (c.datagram l2Mtu tag first pieces).key = c.key tag := by
  show FragmentKey.mk src dst (Frag1.new c.origPacketSize tag).m_datagramSize
    (Frag1.new c.origPacketSize tag).m_datagramTag = _
  rw [h.frag1_new]
  rfl

/-- Before the first fragment a device with the key free holds nothing of the packet. -/
theorem Sendable.holds (h : c.Sendable l2Mtu) (hd : d.Consistent) (hfree : d.Free (c.key tag))
    (hfirst : d.decompressFirst (c.header ++ c.firstData l2Mtu) src dst = .ok first)
    (pieces : List (Packet × ℕ)) : (c.datagram l2Mtu tag first pieces).Holds d [] :=
  Datagram.holds_of_free hd ((h.key_datagram tag first pieces).symm ▸ hfree) hfirst

/-- **The sender and the receiver together**, where the pieces are as they should be. -/
theorem Sendable.correct (h : c.Sendable l2Mtu) (hd : d.Consistent) (hfree : d.Free (c.key tag))
    (hMtu : 13 ≤ l2Mtu) (hheader : c.origHdrSize % 8 = 0)
    (hrest : (c.payload.length - firstSize l2Mtu c.header.length) % fragmentSize l2Mtu ≠ 0) :
    c.Correct l2Mtu tag := by
  obtain ⟨first, pieces, hdecompress, hfirst, hcut, hok⟩ := h.fragments hMtu tag
  have hchain := h.chain hfirst hcut
  have hsize := h.size_lt
  have hposFirst : 0 < first.length := by
    have := c.pos
    omega
  have hmod : firstSize l2Mtu c.header.length % 8 = 0 := Nat.mul_mod_left ..
  have hpos : ∀ x ∈ pieces, 0 < x.1.length :=
    hcut.pos (by rw [fragmentSize]; omega) (by rw [length_drop]; exact hrest)
  have haligned : ∀ x ∈ pieces, x.2 % 8 = 0 := by
    intro x hx
    rw [hcut.offset_mod (Nat.mul_mod_left ..) x hx]
    omega
  have hwhole : (c.datagram l2Mtu tag first pieces).Whole := h.whole hfirst hchain hpos haligned
  have hholds := h.holds hd hfree hdecompress pieces
  have hbytes : (c.datagram l2Mtu tag first pieces).pieces.map
      (c.datagram l2Mtu tag first pieces).bytes =
        c.firstFragment l2Mtu tag :: pieces.map (encode c.origPacketSize tag) := by
    refine congrArg _ (map_congr_left fun x hx => ?_)
    have hle := hchain.le.2 x hx
    exact h.bytes (by omega) (by omega)
  refine ⟨_, hok, fun p hp => ?_, fun order now last horder hlast hmissing hall => ?_⟩
  · obtain rfl | hp := mem_cons.mp hp
    · exact h.length_firstFragment tag
    · obtain ⟨x, hx, rfl⟩ := mem_map.mp hp
      exact h.length_encode_le (hcut.length_le x hx)
  · rw [← hbytes] at horder hlast hall
    have hrun := reassembled hwhole hholds now horder hlast hmissing hall
    rw [packet_datagram hcut.flatten] at hrun
    obtain ⟨d', hrun, d'', dropped, hlast, hfree⟩ := hrun
    exact ⟨d', hrun, d'', dropped, hlast, h.key_datagram tag first pieces ▸ hfree⟩

/-! ### The other packets -/

/-- On a link of fewer than thirteen octets fragmentation is not correct. -/
theorem Sendable.not_correct_of_lt (h : c.Sendable l2Mtu) (hMtu : l2Mtu < 13) :
    ¬ c.Correct l2Mtu tag := by
  rintro ⟨fragments, hok, -⟩
  obtain ⟨hlength, hlt⟩ := h.length_packet
  have hfirst := h.firstSize_lt
  have hzero : fragmentSize l2Mtu = 0 := by
    rw [fragmentSize]
    omega
  rw [h.DoFragmentation_eq, fragmentLoop_diverges h.room' h.mtu_lt' hzero (by omega) (by omega)]
    at hok
  cases hok

/-- Data that come out even are complete before the last fragment, in which there is nothing. -/
theorem Sendable.not_correct_of_mod_eq (h : c.Sendable l2Mtu) (hd : d.Consistent)
    (hfree : d.Free (c.key tag)) (hMtu : 13 ≤ l2Mtu) (hheader : c.origHdrSize % 8 = 0)
    (hrest : (c.payload.length - firstSize l2Mtu c.header.length) % fragmentSize l2Mtu = 0) :
    ¬ c.Correct l2Mtu tag := by
  rintro ⟨fragments, hok', -, hall⟩
  obtain ⟨first, pieces, hdecompress, hfirst, hcut, hok⟩ := h.fragments hMtu tag
  cases hok.symm.trans hok'
  have hsize := h.size_lt
  have hposFirst : 0 < first.length := by
    have := c.pos
    omega
  -- the last piece is empty, and the others are the whole payload
  obtain ⟨pieces', rfl, hpos, hchain⟩ := hcut.exact_fit (by rw [fragmentSize]; omega)
    (by rw [length_drop]; exact hrest)
  have hmod : firstSize l2Mtu c.header.length % 8 = 0 := Nat.mul_mod_left ..
  have hstop : first.length + (c.payload.drop (firstSize l2Mtu c.header.length)).length =
      c.origPacketSize := by
    have := h.firstSize_lt
    rw [length_drop, hfirst, origPacketSize]
    omega
  rw [hstop] at hchain
  have haligned : ∀ x ∈ pieces', x.2 % 8 = 0 := by
    intro x hx
    rw [hcut.offset_mod (Nat.mul_mod_left ..) x (mem_append_left _ hx)]
    omega
  have hwhole : (c.datagram l2Mtu tag first pieces').Whole := h.whole hfirst hchain hpos haligned
  have hholds := h.holds hd hfree hdecompress pieces'
  -- the pieces come one after the other, the first one last
  obtain ⟨d₁, hrun, d₂, dropped, hstore, -⟩ := hwhole.receiveAll hholds
    (pieces'.map fun x => (0, x)) (x := (first, 0))
    (fun y hy => by
      obtain ⟨x, hx, rfl⟩ := mem_map.mp hy
      exact mem_cons_of_mem _ hx)
    mem_cons_self
    (fun y hy heq => by
      obtain ⟨x, hx, rfl⟩ := mem_map.mp hy
      have hle := (hchain.le.2 x hx).1
      have hzero : x.2 = 0 := congrArg Prod.snd heq
      omega)
    (fun y hy hne => by
      obtain rfl | hy := mem_cons.mp hy
      · exact absurd rfl hne
      · exact ⟨(0, y), mem_map_of_mem hy, rfl⟩) 0
  have hbytes : (pieces'.map fun x => ((0 : ℤ), x)).map
      (fun y => (y.1, (c.datagram l2Mtu tag first pieces').bytes y.2)) =
        pieces'.map fun x => ((0 : ℤ), encode c.origPacketSize tag x) := by
    rw [map_map]
    refine map_congr_left fun x hx => congrArg (Prod.mk (0 : ℤ)) ?_
    have hle := hchain.le.2 x hx
    have hlt : x.2 < 2048 := by omega
    exact h.bytes (show 0 < x.2 by omega) hlt
  rw [hbytes] at hrun
  -- the first fragment completes the datagram
  have hlastRun : d₁.receiveAll src dst [(0, c.firstFragment l2Mtu tag)] =
      .ok (d₂, [some (c.datagram l2Mtu tag first pieces').packet]) := by
    show (d₁.receive 0 _ src dst >>= _) = _
    rw [show d₁.receive 0 (c.firstFragment l2Mtu tag) src dst = _ from hstore, ok_bind]
    rfl
  have hrun' := SixLowPanNetDevice.receiveAll_append hrun hlastRun
  -- all have come but the empty one, so nothing should be complete yet
  suffices hnone : ∃ d', d.receiveAll src dst
      ((pieces'.map fun x => ((0 : ℤ), encode c.origPacketSize tag x)) ++
        [(0, c.firstFragment l2Mtu tag)]) = .ok (d', List.map (fun _ => none) _) by
    obtain ⟨d', hnone⟩ := hnone
    obtain ⟨-, hsame⟩ := Prod.mk.inj (Except.ok.inj (hnone.symm.trans hrun'))
    have hmem : some (c.datagram l2Mtu tag first pieces').packet ∈
        ((pieces'.map fun x => ((0 : ℤ), encode c.origPacketSize tag x)) ++
          [(0, c.firstFragment l2Mtu tag)]).map fun _ => (none : Option Packet) := by
      rw [hsame]
      exact mem_append_right _ (mem_singleton.mpr rfl)
    obtain ⟨q, -, hnone⟩ := mem_map.mp hmem
    cases hnone
  refine (hall _ 0 (encode c.origPacketSize tag ([], c.origPacketSize)) (fun q hq => ?_) ?_
    (fun q hq => ?_) (fun p hp hne => ?_)).imp fun d' h => h.1
  · obtain hq | hq := mem_append.mp hq
    · obtain ⟨x, hx, rfl⟩ := mem_map.mp hq
      exact mem_cons_of_mem _ (mem_map_of_mem (mem_append_left _ hx))
    · rw [mem_singleton.mp hq]
      exact mem_cons_self ..
  · refine mem_cons_of_mem _ (mem_map_of_mem (mem_append_right _ ?_))
    rw [hstop]
    exact mem_singleton.mpr rfl
  · obtain hq | hq := mem_append.mp hq
    · obtain ⟨x, hx, rfl⟩ := mem_map.mp hq
      intro heq
      have hlength := congrArg List.length heq
      rw [length_encode, length_encode] at hlength
      have hx' := hpos x hx
      have hzero : x.1.length = 0 := Nat.add_left_cancel hlength
      omega
    · rw [mem_singleton.mp hq]
      exact h.firstFragment_ne _
  · obtain rfl | hp := mem_cons.mp hp
    · exact ⟨_, mem_append_right _ (mem_singleton.mpr rfl), rfl⟩
    · obtain ⟨x, hx, rfl⟩ := mem_map.mp hp
      obtain hx | hx := mem_append.mp hx
      · exact ⟨_, mem_append_left _ (mem_map_of_mem hx), rfl⟩
      · rw [mem_singleton.mp hx, hstop] at hne
        exact absurd rfl hne

/-- With headers that are no multiple of 8 bytes no fragment reaches the end of the datagram. -/
theorem Sendable.not_correct_of_mod_ne (h : c.Sendable l2Mtu) (hd : d.Consistent)
    (hfree : d.Free (c.key tag)) (hMtu : 13 ≤ l2Mtu) (hheader : c.origHdrSize % 8 ≠ 0) :
    ¬ c.Correct l2Mtu tag := by
  rintro ⟨fragments, hok', -, hall⟩
  obtain ⟨first, pieces, hdecompress, hfirst, hcut, hok⟩ := h.fragments hMtu tag
  cases hok.symm.trans hok'
  have hsize := h.size_lt
  have hchain := h.chain hfirst hcut
  have hmod : firstSize l2Mtu c.header.length % 8 = 0 := Nat.mul_mod_left ..
  have hrounded : ∀ x ∈ pieces, 8 * (x.2 / 8) + x.1.length < c.origPacketSize := by
    intro x hx
    have hle := hchain.le.2 x hx
    have hoffset := hcut.offset_mod (Nat.mul_mod_left ..) x hx
    omega
  have hshort : d.Short (c.key tag) := hfree.short hd
  have hkey : (c.key tag).size < 65536 := Nat.lt_trans hsize (by decide)
  obtain ⟨d', hrun, d'', dropped, hlast, -⟩ :=
    hall (pieces.map fun x => (0, encode c.origPacketSize tag x)) 0 (c.firstFragment l2Mtu tag)
      (fun q hq => by
        obtain ⟨x, hx, rfl⟩ := mem_map.mp hq
        exact mem_cons_of_mem _ (mem_map_of_mem hx))
      mem_cons_self
      (fun q hq => by
        obtain ⟨x, hx, rfl⟩ := mem_map.mp hq
        exact (h.firstFragment_ne x).symm)
      (fun p hp hne => by
        obtain rfl | hp := mem_cons.mp hp
        · exact absurd rfl hne
        · obtain ⟨x, hx, rfl⟩ := mem_map.mp hp
          exact ⟨_, mem_map_of_mem hx, rfl⟩)
  obtain ⟨hshort', hsame⟩ := hshort.receiveAll hkey (fun q hq => by
    obtain ⟨x, hx, rfl⟩ := mem_map.mp hq
    refine ⟨x.1, 8 * (x.2 / 8), hrounded x hx, fun d now => ?_⟩
    have hle := hchain.le.2 x hx
    rw [h.encode_eq tag (by omega)]
    exact SixLowPanNetDevice.receive_fragN hsize (Nat.mod_lt _ (by decide))
      (by show x.2 / 8 < 256; omega) x.1) hrun
  have hreceive : d'.receive 0 (c.firstFragment l2Mtu tag) src dst =
      d'.storeFragment 0 (c.key tag) first 0 (some (c.firstFragment l2Mtu tag)) := by
    rw [firstFragment, h.frag1_new]
    exact SixLowPanNetDevice.receive_frag1 hsize (Nat.mod_lt _ (by decide)) (hsame ▸ hdecompress)
  rw [hreceive] at hlast
  have hfirst' : 0 + first.length < (c.key tag).size := by
    show _ < c.origPacketSize
    have := h.firstSize_lt
    rw [origPacketSize]
    omega
  obtain ⟨hnone, -⟩ := hshort'.storeFragment hkey hfirst' hlast
  cases hnone

/-- The link-local address of a device, for the last byte of its 48-bit MAC address. -/
def linkLocal (n : ℕ) : Packet :=
  [0xfe, 0x80, 0, 0, 0, 0, 0, 0, 0x02, 0, 0, 0xff, 0xfe, 0, 0, UInt8.ofNat n]

/-- A device that has nothing yet. It knows the HC1 headers in which all that can be is left out:
those of UDP datagrams between link-local addresses, without a traffic class or a flow label. -/
def hc1Device : SixLowPanNetDevice where
  m_fragments := []
  m_fragmentsTimers := []
  m_fragmentReassemblyListSize := 0
  m_fragmentExpirationTimeout := 60000000000
  DecompressLowPanHc1 := fun p src dst =>
    match p with
    | 0x42 :: 0xfa :: hopLimit :: data =>
      .ok ([0x60, 0, 0, 0] ++ writeU16 data.length ++ [17, hopLimit] ++ linkLocal src ++
        linkLocal dst ++ data)
    | _ => .error .abort
  DecompressLowPanIphc := fun _ _ _ => .error .abort

/-- A new device is consistent. -/
theorem hc1Device_consistent : hc1Device.Consistent :=
  ⟨List.Pairwise.nil, List.Pairwise.nil, fun _ => iff_of_false nofun nofun⟩

theorem hc1Device_free (key : FragmentKey) : hc1Device.Free key := ⟨nofun, nofun⟩

/-- A UDP datagram with so many bytes of data. -/
def hc1Packet (n : ℕ) : Compressed hc1Device 1 2 where
  header := [0x42, 0xfa, 64]
  payload := [4, 0, 4, 0] ++ writeU16 (8 + n) ++ [0, 0] ++ List.replicate n 0
  origHdrSize := 40
  pos := by decide
  length_header_le := by decide
  restores := fun data => by
    refine ⟨_, rfl, ?_⟩
    rw [length_append]
    rfl

/-- Two packets that can be sent, one octet apart. -/
theorem hc1Packet_sendable : (hc1Packet 32).Sendable 30 ∧ (hc1Packet 33).Sendable 30 :=
  ⟨⟨by decide, by decide, by decide, by decide, by decide⟩,
    ⟨by decide, by decide, by decide, by decide, by decide⟩⟩

end Ns3Joined.Sixlowpan.Compressed
