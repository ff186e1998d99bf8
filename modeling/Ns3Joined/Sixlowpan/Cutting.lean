import Mathlib.Data.Nat.Bitwise
import Mathlib.Data.UInt
import Ns3Joined.Library.ExceptFold
import Ns3Joined.Library.Slices
import Ns3Joined.Sixlowpan.Fragmentation

/-!
# The fragments of a packet

* `Cut`: how the data of a packet is cut; `fragmentLoop_cut`: the loop of the sender does it.
* `Compressed`: a compressed packet; `Sendable.DoFragmentation_eq`: what its first fragment has.
-/

namespace Ns3Joined.Sixlowpan

open ExceptFold Slices List
open UInt8 (le_iff_toNat_le ofNat toNat_ofNat')

/-! ### Headers -/

/-- A number of sixteen bits is read back. -/
theorem readU16_writeU16 {n : ℕ} (h : n < 65536) :
    readU16 (ofNat (n >>> 8)) (ofNat (n &&& 0xff)) = n := by
  have hlow : n &&& 0xff = n % 256 := Nat.and_two_pow_sub_one_eq_mod n 8
  have hhigh : (ofNat (n >>> 8)).toNat = n / 256 := by
    rw [toNat_ofNat', Nat.shiftRight_eq_div_pow]
    omega
  have hrest : (ofNat (n % 256)).toNat = n % 256 := by
    rw [toNat_ofNat']
    omega
  rw [readU16, hlow, hhigh, hrest,
    ← Nat.shiftLeft_add_eq_or_of_lt (i := 8) (Nat.mod_lt n (by decide)), Nat.shiftLeft_eq]
  omega

/-- The mask of eleven bits. -/
theorem and_7ff (n : ℕ) : n &&& 0x7ff = n % 2048 := Nat.and_two_pow_sub_one_eq_mod n 11

/-- The dispatch bits do not overlap the size. -/
theorem dispatch_or {size : ℕ} (h : size < 2048) :
    (0xc0 <<< 8 ||| size) = 49152 + size ∧ (0xe0 <<< 8 ||| size) = 57344 + size := by
  constructor
  · exact (Nat.shiftLeft_add_eq_or_of_lt (a := 24) (i := 11) h).symm
  · exact (Nat.shiftLeft_add_eq_or_of_lt (a := 28) (i := 11) h).symm

variable {h : Frag1} {p : Packet} {l2Mtu : ℕ}

/-- The header of a first fragment is read back. -/
theorem Frag1.removeHeader (hsize : h.m_datagramSize < 2048) (htag : h.m_datagramTag < 65536)
    (p : Packet) : RemoveHeader (h.Serialize ++ p) = .ok (h, p) := by
  have hsame : (0xc0 <<< 8 ||| h.m_datagramSize) &&& 0x7ff = h.m_datagramSize := by
    rw [(dispatch_or hsize).1, and_7ff]
    omega
  show Except.ok (Frag1.mk _ _, _) = _
  rw [readU16_writeU16 (by rw [(dispatch_or hsize).1]; omega), readU16_writeU16 htag, hsame]
  rfl

/-- The header of a later fragment is read back. -/
theorem FragN.removeHeader {h : FragN} (hsize : h.m_datagramSize < 2048)
    (htag : h.m_datagramTag < 65536) (hoffset : h.m_datagramOffset < 256) (p : Packet) :
    RemoveHeader (h.Serialize ++ p) = .ok (h, p) := by
  have hsame : (0xe0 <<< 8 ||| h.m_datagramSize) &&& 0x7ff = h.m_datagramSize := by
    rw [(dispatch_or hsize).2, and_7ff]
    omega
  have hbyte : (ofNat h.m_datagramOffset).toNat = h.m_datagramOffset := by
    rw [toNat_ofNat']
    omega
  show Except.ok (FragN.mk _ _ _, _) = _
  rw [readU16_writeU16 (by rw [(dispatch_or hsize).2]; omega), readU16_writeU16 htag, hsame, hbyte]
  rfl

/-- A number that fits its octet. -/
theorem toNat_ofNat_of_lt {n : ℕ} (h : n < 256) : (ofNat n).toNat = n := by
  rw [toNat_ofNat']
  omega

/-- The first octet of a first fragment. -/
theorem Frag1.toNat_dispatch (hsize : h.m_datagramSize < 2048) :
    (ofNat ((0xc0 <<< 8 ||| h.m_datagramSize) >>> 8)).toNat =
      0xc0 + h.m_datagramSize / 256 := by
  rw [(dispatch_or hsize).1, Nat.shiftRight_eq_div_pow, toNat_ofNat_of_lt (by omega)]
  omega

/-- The first octet of a later fragment. -/
theorem FragN.toNat_dispatch {h : FragN} (hsize : h.m_datagramSize < 2048) :
    (ofNat ((0xe0 <<< 8 ||| h.m_datagramSize) >>> 8)).toNat =
      0xe0 + h.m_datagramSize / 256 := by
  rw [(dispatch_or hsize).2, Nat.shiftRight_eq_div_pow, toNat_ofNat_of_lt (by omega)]
  omega

/-- First and later fragments have different bytes. -/
theorem frag1_ne_fragN {h' : FragN} (hsize : h.m_datagramSize < 2048)
    (hsize' : h'.m_datagramSize < 2048) (p p' : Packet) :
    h.Serialize ++ p ≠ h'.Serialize ++ p' := by
  intro heq
  have hhead : ofNat ((0xc0 <<< 8 ||| h.m_datagramSize) >>> 8) =
      ofNat ((0xe0 <<< 8 ||| h'.m_datagramSize) >>> 8) := (List.cons.inj heq).1
  have hnat := congrArg UInt8.toNat hhead
  rw [Frag1.toNat_dispatch hsize, FragN.toNat_dispatch hsize'] at hnat
  omega

namespace SixLowPanNetDevice

variable {d : SixLowPanNetDevice} {now : ℤ} {src dst : Address}

/-- Receiving a first fragment stores what it decompresses to. -/
theorem receive_frag1 (hsize : h.m_datagramSize < 2048) (htag : h.m_datagramTag < 65536)
    {p' : Packet} (hp : d.decompressFirst p src dst = .ok p') :
    d.receive now (h.Serialize ++ p) src dst =
      d.storeFragment now ⟨src, dst, h.m_datagramSize, h.m_datagramTag⟩ p' 0
        (some (h.Serialize ++ p)) := by
  have hdispatch := Frag1.toNat_dispatch hsize
  have hreceive : d.receive now (h.Serialize ++ p) src dst =
      d.ProcessFragment now (h.Serialize ++ p) src dst true := by
    refine if_pos ?_
    rw [Bool.and_eq_true, decide_eq_true_eq, decide_eq_true_eq, le_iff_toNat_le,
      le_iff_toNat_le, hdispatch]
    constructor
    · show 192 ≤ _
      omega
    · show _ ≤ 199
      omega
  rw [hreceive, ProcessFragment, if_pos rfl, Frag1.removeHeader hsize htag]
  simp only [bind, Except.bind, hp]

/-- Receiving a later fragment stores its data at its offset. -/
theorem receive_fragN {h : FragN} (hsize : h.m_datagramSize < 2048)
    (htag : h.m_datagramTag < 65536) (hoffset : h.m_datagramOffset < 256) (p : Packet) :
    d.receive now (h.Serialize ++ p) src dst =
      d.storeFragment now ⟨src, dst, h.m_datagramSize, h.m_datagramTag⟩ p
        (8 * h.m_datagramOffset) none := by
  have hdispatch := FragN.toNat_dispatch hsize
  have hreceive : d.receive now (h.Serialize ++ p) src dst =
      d.ProcessFragment now (h.Serialize ++ p) src dst false := by
    refine (if_neg ?_).trans (if_pos ?_)
    · rw [Bool.and_eq_true, decide_eq_true_eq, decide_eq_true_eq, le_iff_toNat_le,
        le_iff_toNat_le, hdispatch]
      rintro ⟨-, hle⟩
      have : 224 + h.m_datagramSize / 256 ≤ 199 := hle
      omega
    · rw [Bool.and_eq_true, decide_eq_true_eq, decide_eq_true_eq, le_iff_toNat_le,
        le_iff_toNat_le, hdispatch]
      constructor
      · show 224 ≤ _
        omega
      · show _ ≤ 231
        omega
  have hshift : h.m_datagramOffset <<< 3 = 8 * h.m_datagramOffset := by
    rw [Nat.shiftLeft_eq, Nat.mul_comm]
  rw [hreceive, ProcessFragment, if_neg Bool.false_ne_true,
    FragN.removeHeader hsize htag hoffset]
  simp only [bind, Except.bind, hshift]

end SixLowPanNetDevice

/-! ### Cutting -/

/-- How the data from an offset on is cut: pieces of `s` bytes as long as there are that many,
and then what is left, which may be nothing. -/
inductive Cut (s : ℕ) : ℕ → Packet → List (Packet × ℕ) → Prop
  | last {offset : ℕ} {data : Packet} (h : data.length < s) : Cut s offset data [(data, offset)]
  | more {offset : ℕ} {data : Packet} {pieces : List (Packet × ℕ)} (h : s ≤ data.length)
      (hrest : Cut s (offset + s) (data.drop s) pieces) :
      Cut s offset data ((data.take s, offset) :: pieces)

section Cutting

variable {s offset : ℕ} {data : Packet} {pieces : List (Packet × ℕ)}

/-- The pieces of a cut follow each other. -/
theorem Cut.chain (h : Cut s offset data pieces) : Chain offset pieces (offset + data.length) := by
  induction h with
  | last h => exact ⟨rfl, rfl⟩
  | @more offset data pieces h hrest ih =>
    have hlength : (data.take s).length = s := by rw [length_take]; omega
    refine ⟨rfl, ?_⟩
    rw [hlength]
    have hstop : offset + s + (data.drop s).length = offset + data.length := by
      rw [length_drop]
      omega
    exact hstop ▸ ih

/-- The pieces of a cut make up the data. -/
theorem Cut.flatten (h : Cut s offset data pieces) : (pieces.map Prod.fst).flatten = data := by
  induction h with
  | last h => simp
  | more h hrest ih => rw [map_cons, flatten_cons, ih, take_append_drop]

/-- The pieces of a cut are no longer than the cut allows. -/
theorem Cut.length_le (h : Cut s offset data pieces) : ∀ x ∈ pieces, x.1.length ≤ s := by
  induction h with
  | last h =>
    intro x hx
    rw [mem_singleton.mp hx]
    exact Nat.le_of_lt h
  | more h hrest ih =>
    intro x hx
    obtain rfl | hx := mem_cons.mp hx
    · exact length_take_le ..
    · exact ih x hx

/-- The pieces of a cut begin at multiples of eight. -/
theorem Cut.offset_mod (h : Cut s offset data pieces) (hs : s % 8 = 0) :
    ∀ x ∈ pieces, x.2 % 8 = offset % 8 := by
  induction h with
  | last h =>
    intro x hx
    rw [mem_singleton.mp hx]
  | more h hrest ih =>
    intro x hx
    obtain rfl | hx := mem_cons.mp hx
    · rfl
    · have := ih x hx
      omega

/-- Where the pieces do not come out even, none is empty. -/
theorem Cut.pos (h : Cut s offset data pieces) (hs : 0 < s) (hmod : data.length % s ≠ 0) :
    ∀ x ∈ pieces, 0 < x.1.length := by
  induction h with
  | last h =>
    intro x hx
    rw [mem_singleton.mp hx]
    exact Nat.pos_of_ne_zero fun hzero => hmod (by rw [hzero]; exact Nat.zero_mod s)
  | @more offset data pieces h hrest ih =>
    intro x hx
    obtain rfl | hx := mem_cons.mp hx
    · show 0 < (data.take s).length
      rw [length_take]
      omega
    · refine ih ?_ x hx
      rw [length_drop, ← Nat.mod_eq_sub_mod h]
      exact hmod

/-- Where they do, there is one more piece, in which there is nothing. -/
theorem Cut.exact_fit (h : Cut s offset data pieces) (hs : 0 < s) (hmod : data.length % s = 0) :
    ∃ pieces', pieces = pieces' ++ [([], offset + data.length)] ∧
      (∀ x ∈ pieces', 0 < x.1.length) ∧ Chain offset pieces' (offset + data.length) := by
  induction h with
  | @last offset data h =>
    have hempty : data = [] := by
      rw [Nat.mod_eq_of_lt h] at hmod
      exact length_eq_zero_iff.mp hmod
    subst hempty
    exact ⟨[], rfl, nofun, rfl⟩
  | @more offset data pieces h hrest ih =>
    obtain ⟨pieces', heq, hpos, hchain⟩ := ih (by
      rw [length_drop, ← Nat.mod_eq_sub_mod h]
      exact hmod)
    have hlength : (data.take s).length = s := by rw [length_take]; omega
    have hstop : offset + s + (data.drop s).length = offset + data.length := by
      rw [length_drop]
      omega
    refine ⟨(data.take s, offset) :: pieces', ?_, ?_, rfl, ?_⟩
    · rw [heq, hstop]
      rfl
    · intro x hx
      obtain rfl | hx := mem_cons.mp hx
      · rw [hlength]
        exact hs
      · exact hpos x hx
    · rw [hlength]
      exact hstop ▸ hchain

end Cutting

/-! ### The sender -/

/-- How many bytes of the datagram a fragment after the first one takes. -/
def fragmentSize (l2Mtu : ℕ) : ℕ := (l2Mtu - 5) / 8 * 8

/-- How many bytes the first one takes, of those that are not compressed headers. -/
def firstSize (l2Mtu headerSize : ℕ) : ℕ := (l2Mtu - 4 - headerSize) / 8 * 8

/-- A piece as it is sent. -/
def encode (origPacketSize tag : ℕ) (x : Packet × ℕ) : Packet :=
  (FragN.new origPacketSize tag (x.2 >>> 3)).Serialize ++ x.1

/-- A difference that is not negative is computed without wrap-around. -/
theorem sub32_eq {a b : ℕ} (h : b ≤ a) (ha : a < 4294967296) : sub32 a b = a - b := by
  unfold sub32
  omega

theorem createFragment_eq {start length : ℕ} (h : start + length ≤ p.length) :
    CreateFragment p start length = .ok ((p.drop start).take length) := if_pos h

/-- The size of later fragments, without wrap-around. -/
theorem fragmentLoop_size (h : 5 ≤ l2Mtu) (hMtu : l2Mtu < 65536) :
    sub32 l2Mtu FragN.serializedSize - sub32 l2Mtu FragN.serializedSize % 8 =
      fragmentSize l2Mtu := by
  have hsub : sub32 l2Mtu FragN.serializedSize = l2Mtu - 5 := sub32_eq h (by omega)
  rw [hsub, fragmentSize]
  omega

/-- **The loop of the sender** cuts what is left of the packet. -/
theorem fragmentLoop_cut (origPacketSize tag : ℕ) (h : 5 ≤ l2Mtu) (hMtu : l2Mtu < 65536)
    (hs : 0 < fragmentSize l2Mtu) (hp : p.length < 65536) (rounds offset offsetData : ℕ)
    (hle : offsetData ≤ p.length) (hoffset : offset + (p.length - offsetData) < 65536)
    (hrounds : p.length - offsetData < rounds) :
    ∃ pieces, Cut (fragmentSize l2Mtu) offset (p.drop offsetData) pieces ∧
      fragmentLoop p origPacketSize tag l2Mtu rounds offset offsetData =
        .ok (pieces.map (encode origPacketSize tag)) := by
  induction rounds generalizing offset offsetData with
  | zero => exact absurd hrounds (Nat.not_lt_zero _)
  | succ rounds ih =>
    rw [fragmentLoop, fragmentLoop_size h hMtu]
    by_cases hlast : offsetData + fragmentSize l2Mtu > p.length
    · refine ⟨[(p.drop offsetData, offset)], .last (by rw [length_drop]; omega), ?_⟩
      rw [if_pos hlast, createFragment_eq (by omega), take_of_length_le
        (by rw [length_drop])]
      rfl
    · have hfits : offsetData + fragmentSize l2Mtu ≤ p.length := Nat.le_of_not_lt hlast
      obtain ⟨pieces, hcut, hok⟩ := ih (offset + fragmentSize l2Mtu)
        (offsetData + fragmentSize l2Mtu) hfits (by omega) (by omega)
      rw [← drop_drop] at hcut
      refine ⟨_, .more (by rw [length_drop]; omega) hcut, ?_⟩
      rw [if_neg hlast, createFragment_eq hfits, Nat.mod_eq_of_lt (by omega),
        Nat.mod_eq_of_lt (by omega)]
      simp only [bind, Except.bind, hok]
      rfl

/-- With an MTU that has no room for 8 bytes after the header, the loop makes no progress. -/
theorem fragmentLoop_diverges {origPacketSize tag : ℕ} (h : 5 ≤ l2Mtu) (hMtu : l2Mtu < 65536)
    (hs : fragmentSize l2Mtu = 0) (hp : p.length < 65536) {rounds offset offsetData : ℕ}
    (hle : offsetData ≤ p.length) :
    fragmentLoop p origPacketSize tag l2Mtu rounds offset offsetData = .error .diverges := by
  induction rounds generalizing offset with
  | zero => rfl
  | succ rounds ih =>
    rw [fragmentLoop, fragmentLoop_size h hMtu, hs, if_neg (by omega), createFragment_eq (by omega),
      Nat.add_zero, Nat.add_zero, Nat.mod_eq_of_lt (by omega : offsetData < 65536)]
    simp only [bind, Except.bind, ih]

/-- A compressed packet: the compressed headers, which stand for `origHdrSize` bytes, and the
rest. Whatever comes after the compressed headers, the receiver can decompress them. -/
structure Compressed (d : SixLowPanNetDevice) (src dst : Address) where
  header : Packet
  payload : Packet
  origHdrSize : ℕ
  pos : 0 < origHdrSize
  length_header_le : header.length ≤ 2 * origHdrSize
  restores : ∀ data, ∃ p, d.decompressFirst (header ++ data) src dst = .ok p ∧
    p.length = origHdrSize + data.length

namespace Compressed

variable {d : SixLowPanNetDevice} {src dst : Address}

def packet (c : Compressed d src dst) : Packet := c.header ++ c.payload

def origPacketSize (c : Compressed d src dst) : ℕ := c.origHdrSize + c.payload.length

/-- What the claim asks of the packet and the MTU: the size of the datagram fits 11 bits, the
packet does not fit the MTU, and the MTU has room for the headers. -/
structure Sendable (c : Compressed d src dst) (l2Mtu : ℕ) : Prop where
  size_lt : c.origPacketSize < 2048
  mtu_lt : l2Mtu < c.packet.length
  room : c.header.length + 4 ≤ l2Mtu
  room' : 5 ≤ l2Mtu
  mtu_lt' : l2Mtu < 65536

/-- What the first fragment takes after the compressed headers. -/
def firstData (c : Compressed d src dst) (l2Mtu : ℕ) : Packet :=
  c.payload.take (firstSize l2Mtu c.header.length)

/-- The first fragment as it is sent. -/
def firstFragment (c : Compressed d src dst) (l2Mtu tag : ℕ) : Packet :=
  (Frag1.new c.origPacketSize tag).Serialize ++ (c.header ++ c.firstData l2Mtu)

variable {c : Compressed d src dst}

/-- A sendable packet needs more than its first fragment. -/
theorem Sendable.firstSize_lt (h : c.Sendable l2Mtu) :
    firstSize l2Mtu c.header.length < c.payload.length := by
  have hlt := h.mtu_lt
  have hroom := h.room
  rw [packet, length_append] at hlt
  unfold firstSize
  omega

/-- The data in the first fragment of a sendable packet. -/
theorem Sendable.length_firstData (h : c.Sendable l2Mtu) :
    (c.firstData l2Mtu).length = firstSize l2Mtu c.header.length := by
  have := h.firstSize_lt
  rw [firstData, length_take]
  omega

/-- A sendable packet is its header and its payload, and not too long. -/
theorem Sendable.length_packet (h : c.Sendable l2Mtu) :
    c.packet.length = c.header.length + c.payload.length ∧ c.packet.length < 8192 := by
  have := h.size_lt
  have := c.length_header_le
  rw [origPacketSize] at *
  rw [packet, length_append]
  omega

/-- The length of a sendable packet's compressed header, as the code computes it. -/
theorem Sendable.sub32_header (h : c.Sendable l2Mtu) :
    sub32 c.packet.length (sub32 c.origPacketSize c.origHdrSize) = c.header.length := by
  obtain ⟨hlength, hlt⟩ := h.length_packet
  have hsize := h.size_lt
  rw [origPacketSize] at *
  have hpayload : sub32 (c.origHdrSize + c.payload.length) c.origHdrSize = c.payload.length := by
    rw [sub32_eq (by omega) (by omega)]
    omega
  rw [hpayload, sub32_eq (by omega) (by omega)]
  omega

/-- The room in the first fragment, as the code computes it. -/
theorem Sendable.sub32_room (h : c.Sendable l2Mtu) :
    sub32 (sub32 l2Mtu Frag1.serializedSize) c.header.length -
        sub32 (sub32 l2Mtu Frag1.serializedSize) c.header.length % 8 =
      firstSize l2Mtu c.header.length := by
  have hroom := h.room
  have hMtu := h.mtu_lt'
  have hfour : sub32 l2Mtu Frag1.serializedSize = l2Mtu - 4 :=
    sub32_eq (show 4 ≤ l2Mtu by omega) (by omega)
  rw [hfour, sub32_eq (by omega) (by omega), firstSize]
  omega

/-- The offset of the second fragment, as the code computes it. -/
theorem Sendable.sub32_offset (h : c.Sendable l2Mtu) :
    sub32 ((firstSize l2Mtu c.header.length + c.header.length) % 4294967296 + c.origHdrSize)
      c.header.length % 65536 = c.origHdrSize + firstSize l2Mtu c.header.length := by
  obtain ⟨hlength, hlt⟩ := h.length_packet
  have hsize := h.size_lt
  have hfirst := h.firstSize_lt
  rw [origPacketSize] at hsize
  rw [Nat.mod_eq_of_lt (by omega : firstSize l2Mtu c.header.length + c.header.length < 4294967296),
    sub32_eq (by omega) (by omega)]
  omega

/-- **Fragmentation**: the first fragment has the compressed headers, and the others what is left
of the payload. -/
theorem Sendable.DoFragmentation_eq (h : c.Sendable l2Mtu) (tag : ℕ) :
    DoFragmentation c.packet c.origPacketSize c.origHdrSize l2Mtu tag = (do
      let rest ← fragmentLoop c.packet c.origPacketSize tag l2Mtu (c.packet.length + 2)
        (c.origHdrSize + firstSize l2Mtu c.header.length)
        (c.header.length + firstSize l2Mtu c.header.length)
      .ok (c.firstFragment l2Mtu tag :: rest)) := by
  obtain ⟨hlength, hlt⟩ := h.length_packet
  have hfirst := h.firstSize_lt
  have hroom : ¬ l2Mtu ≤ Frag1.serializedSize := Nat.not_le_of_lt h.room'
  have hcreate : CreateFragment c.packet 0
      ((firstSize l2Mtu c.header.length + c.header.length) % 4294967296) =
      .ok (c.header ++ c.firstData l2Mtu) := by
    rw [Nat.mod_eq_of_lt (by omega), createFragment_eq (by omega), drop_zero, packet,
      Nat.add_comm, take_length_add_append, firstData]
  have hdata : (firstSize l2Mtu c.header.length + c.header.length) % 4294967296 % 65536 =
      c.header.length + firstSize l2Mtu c.header.length := by omega
  rw [DoFragmentation, h.sub32_header, if_neg hroom]
  dsimp only
  rw [h.sub32_room, hcreate, ok_bind, h.sub32_offset, hdata, firstFragment]

end Compressed

end Ns3Joined.Sixlowpan
