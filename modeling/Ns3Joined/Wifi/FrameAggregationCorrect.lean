import Mathlib.Tactic.FinCases
import Ns3Joined.Library.ExceptFold
import Ns3Joined.Wifi.FrameAggregation

/-!
# Aggregation and deaggregation

The subframes of an A-MPDU or A-MSDU start at multiples of four, so that the padding that
`Aggregate` finds from the size so far is the padding that `Deaggregate` finds from the length of
the subframe (`PaddedFrames.foldl_append`). The length of an MPDU is read from 14 bits, and the
size of an A-MSDU is predicted in 16.

* `deaggregate_layout`, `length_of_deaggregate`: what `Deaggregate` gives, with any header.
* `MpduAggregator.right_iff`: both readers of A-MPDUs.
* `MsduAggregator.right_iff`: A-MSDUs and their size.
-/

namespace Ns3Joined.Wifi

open List

open PaddedFrames (layout padding)

/-! ### Subframe headers -/

section Headers

variable {x : UInt16} {rest : Octets}

/-- A word is recovered from its two octets. -/
theorem toNat_octets {low high : UInt8} :
    (low.toUInt16 ||| high.toUInt16 <<< 8).toNat = high.toNat * 256 + low.toNat := by
  have hlow := low.toNat_lt
  have hhigh := high.toNat_lt
  have hshift : (high.toUInt16 <<< 8).toNat = high.toNat <<< 8 := by
    rw [UInt16.toNat_shiftLeft, UInt8.toNat_toUInt16]
    show high.toNat <<< 8 % 2 ^ 16 = _
    rw [Nat.shiftLeft_eq]
    exact Nat.mod_eq_of_lt (by omega)
  rw [UInt16.toNat_or, hshift, UInt8.toNat_toUInt16, Nat.or_comm,
    ← Nat.shiftLeft_add_eq_or_of_lt hlow, Nat.shiftLeft_eq]

/-- The two octets of a word, put together. -/
theorem octets_eq : x.toUInt8.toUInt16 ||| (x >>> 8).toUInt8.toUInt16 <<< 8 = x := by
  have hlt := x.toNat_lt
  rw [← UInt16.toNat_inj, toNat_octets, UInt16.toNat_toUInt8, UInt16.toNat_toUInt8,
    UInt16.toNat_shiftRight, Nat.shiftRight_eq_div_pow]
  show x.toNat / 2 ^ 8 % 2 ^ 8 * 256 + x.toNat % 2 ^ 8 = x.toNat
  omega

/-- What is read of a header. -/
def AmpduSubframeHeader.received (hdr : AmpduSubframeHeader) : AmpduSubframeHeader :=
  ⟨hdr.field &&& 0x3fff, hdr.field &&& 0x8000 != 0, hdr.m_signature⟩

/-- The header of an A-MPDU subframe is read back as received. -/
theorem AmpduSubframeHeader.Deserialize_append (hdr : AmpduSubframeHeader) (rest : Octets) :
    SubframeHeader.Deserialize (SubframeHeader.Serialize hdr ++ rest) = some hdr.received := by
  show some (AmpduSubframeHeader.mk
    ((hdr.field.toUInt8.toUInt16 ||| (hdr.field >>> 8).toUInt8.toUInt16 <<< 8) &&& 0x3fff)
    ((hdr.field.toUInt8.toUInt16 ||| (hdr.field >>> 8).toUInt8.toUInt16 <<< 8) &&& 0x8000 != 0)
    hdr.m_signature) = _
  rw [octets_eq]
  rfl

/-- 14 bits of the length are read. -/
theorem AmpduSubframeHeader.received_length (hdr : AmpduSubframeHeader) :
    hdr.received.m_length.toNat = hdr.m_length.toNat % 16384 := by
  have hmask : ∀ field : UInt16, (field &&& 0x3fff).toNat = field.toNat % 2 ^ 14 := by
    intro field
    rw [UInt16.toNat_and]
    exact Nat.and_two_pow_sub_one_eq_mod field.toNat 14
  have hbit : (if hdr.m_eof = true then (0x8000 : UInt16) else 0).toNat % 2 ^ 14 = 0 := by
    split_ifs <;> rfl
  show (hdr.field &&& 0x3fff).toNat = _
  rw [hmask]
  show (_ ||| hdr.m_length).toNat % 2 ^ 14 = _
  rw [UInt16.toNat_or, Nat.or_mod_two_pow, hbit, Nat.zero_or]

/-- The header of an A-MSDU subframe is read back. -/
theorem AmsduSubframeHeader.Deserialize_append (hdr : AmsduSubframeHeader) (rest : Octets) :
    SubframeHeader.Deserialize (SubframeHeader.Serialize hdr ++ rest) = some hdr := by
  obtain ⟨⟨da⟩, ⟨sa⟩, length⟩ := hdr
  show some (AmsduSubframeHeader.mk ⟨_⟩ ⟨_⟩
    ((length >>> 8).toUInt8.toUInt16 <<< 8 ||| length.toUInt8.toUInt16)) = _
  rw [UInt16.or_comm, octets_eq]
  congr 3
  · funext i
    fin_cases i <;> rfl
  · funext i
    fin_cases i <;> rfl

end Headers

/-! ### Deaggregation -/

section Deaggregate

variable {H : Type} [SubframeHeader H] {received : H → H} {paddingOf : ℕ → ℕ}
  {maxSize deserialized : ℕ} {frame : H × Octets} {frames : List (H × Octets)}
  {set : List (Octets × H)}

/-- A subframe without its padding. -/
def subframe (frame : H × Octets) : Octets := SubframeHeader.Serialize frame.1 ++ frame.2

variable
  (hread : ∀ (hdr : H) (rest : Octets),
    SubframeHeader.Deserialize (SubframeHeader.Serialize hdr ++ rest) = some (received hdr))
  (hsize : ∀ hdr : H, (SubframeHeader.Serialize hdr).length = SubframeHeader.GetSerializedSize H)

include hread hsize

/-- Removing a header leaves what follows. -/
theorem RemoveHeader_append (hdr : H) (rest : Octets) :
    RemoveHeader H (SubframeHeader.Serialize hdr ++ rest) = .ok (received hdr, rest) := by
  unfold RemoveHeader
  rw [hread, drop_left' (hsize hdr)]

omit hread in
/-- A subframe has at least its header. -/
theorem subframe_length_pos : 0 < (subframe frame).length := by
  unfold subframe
  rw [length_append, hsize]
  exact Nat.add_pos_left SubframeHeader.size_pos _

variable (hpadding : ∀ length,
  paddingOf length = padding (SubframeHeader.GetSerializedSize H + length))

include hpadding

omit hread in
/-- The padding is there exactly if a loop skips it. -/
theorem exists_pad (frame : H × Octets) (frames : List (H × Octets))
    (hmax : deserialized + (layout 0 ((frame :: frames).map subframe)).length = maxSize) :
    ∃ pad : Octets, layout 0 ((frame :: frames).map subframe) =
      SubframeHeader.Serialize frame.1 ++ (frame.2 ++ (pad ++ layout 0 (frames.map subframe))) ∧
      pad.length = if deserialized + (SubframeHeader.GetSerializedSize H + frame.2.length) < maxSize
        then paddingOf frame.2.length else 0 := by
  have hsubframe : (subframe frame).length =
      SubframeHeader.GetSerializedSize H + frame.2.length := by
    unfold subframe
    rw [length_append, hsize]
  match frames with
  | [] =>
    refine ⟨[], ?_, ?_⟩
    · show subframe frame = _
      simp [subframe, layout]
    · rw [if_neg]
      · rfl
      · rw [← hmax, show layout 0 ([frame].map subframe) = subframe frame from rfl, hsubframe]
        omega
  | next :: frames =>
    have hne : (next :: frames).map subframe ≠ [] := cons_ne_nil _ _
    refine ⟨replicate (padding (subframe frame).length) 0, ?_, ?_⟩
    · rw [map_cons, PaddedFrames.layout_cons hne]
      simp only [subframe, append_assoc]
    · have hnext : 0 < (subframe next).length := subframe_length_pos hsize
      have hle : (subframe next).length + (layout 0 (frames.map subframe)).length ≤
          (layout 0 ((next :: frames).map subframe)).length :=
        PaddedFrames.length_layout_cons_le
      rw [map_cons, PaddedFrames.layout_cons hne, length_append, length_append] at hmax
      rw [if_pos (by omega), hpadding, ← hsubframe, length_replicate]

/-- **One round** takes a subframe whose length is read right, with its padding. -/
theorem deaggregate_step
    (hlength : (SubframeHeader.GetLength (received frame.1)).toNat = frame.2.length)
    (hmax : deserialized + (layout 0 ((frame :: frames).map subframe)).length = maxSize) :
    deaggregate H paddingOf maxSize deserialized (layout 0 ((frame :: frames).map subframe)) = do
      let set ← deaggregate H paddingOf maxSize
        (maxSize - (layout 0 (frames.map subframe)).length) (layout 0 (frames.map subframe))
      return (frame.2, received frame.1) :: set := by
  obtain ⟨pad, hlayout, hpad⟩ := exists_pad hsize hpadding frame frames hmax
  have hlen := congrArg length hlayout
  simp only [length_append, hsize] at hlen
  have hfragment : CreateFragment (frame.2 ++ (pad ++ layout 0 (frames.map subframe))) 0
      frame.2.length = .ok frame.2 := by
    unfold CreateFragment
    rw [if_neg (by simp), drop_zero, take_left' rfl]
  have hpos := SubframeHeader.size_pos (H := H)
  rw [deaggregate, if_pos (by omega), hlayout, RemoveHeader_append hread hsize, ExceptFold.ok_bind]
  dsimp only
  rw [hlength, hfragment, ExceptFold.ok_bind, Nat.add_assoc deserialized, ← hpad, ← drop_drop,
    drop_left' rfl, drop_left' rfl]
  congr 2
  omega

/-- **Deaggregation** gives the subframes if their lengths are read right. -/
theorem deaggregate_layout
    (hlength : ∀ frame ∈ frames,
      (SubframeHeader.GetLength (received frame.1)).toNat = frame.2.length)
    (hmax : deserialized + (layout 0 (frames.map subframe)).length = maxSize) :
    deaggregate H paddingOf maxSize deserialized (layout 0 (frames.map subframe)) =
      .ok (frames.map fun frame => (frame.2, received frame.1)) := by
  induction frames generalizing deserialized with
  | nil =>
    rw [deaggregate, if_neg]
    · rfl
    · rw [← hmax]
      exact Nat.lt_irrefl _
  | cons frame frames ih =>
    obtain ⟨hframe, hframes⟩ := forall_mem_cons.mp hlength
    have hle : (subframe frame).length + (layout 0 (frames.map subframe)).length ≤
        (layout 0 ((frame :: frames).map subframe)).length :=
      PaddedFrames.length_layout_cons_le
    rw [deaggregate_step hread hsize hpadding hframe hmax, ih hframes (by omega)]
    rfl

/-- It gives nothing else: the first subframe whose length is not read right comes out with
another one. -/
theorem length_of_deaggregate
    (h : deaggregate H paddingOf maxSize deserialized (layout 0 (frames.map subframe)) = .ok set)
    (hset : set.map Prod.fst = frames.map Prod.snd)
    (hmax : deserialized + (layout 0 (frames.map subframe)).length = maxSize) :
    ∀ frame ∈ frames, (SubframeHeader.GetLength (received frame.1)).toNat = frame.2.length := by
  induction frames generalizing deserialized set with
  | nil => exact nofun
  | cons frame frames ih =>
    have hle : (subframe frame).length + (layout 0 (frames.map subframe)).length ≤
        (layout 0 ((frame :: frames).map subframe)).length :=
      PaddedFrames.length_layout_cons_le
    have hframe : (SubframeHeader.GetLength (received frame.1)).toNat = frame.2.length := by
      obtain ⟨pad, hlayout, -⟩ := exists_pad hsize hpadding frame frames hmax
      have hpos : 0 < (subframe frame).length := subframe_length_pos hsize
      rw [deaggregate, if_pos (by omega), hlayout, RemoveHeader_append hread hsize,
        ExceptFold.ok_bind] at h
      obtain ⟨extracted, hextracted, h⟩ := ExceptFold.bind_eq_ok_iff.mp h
      obtain ⟨set', -, h⟩ := ExceptFold.bind_eq_ok_iff.mp h
      obtain rfl : (extracted, received frame.1) :: set' = set := Except.ok.inj h
      obtain rfl : extracted = frame.2 := (cons.inj hset).1
      unfold CreateFragment at hextracted
      split_ifs at hextracted with hshort
      have hlen := congrArg length (Except.ok.inj hextracted)
      rw [drop_zero, length_take] at hlen
      dsimp only at hlen hshort
      omega
    rw [deaggregate_step hread hsize hpadding hframe hmax] at h
    obtain ⟨set', h', h⟩ := ExceptFold.bind_eq_ok_iff.mp h
    obtain rfl : (frame.2, received frame.1) :: set' = set := Except.ok.inj h
    exact forall_mem_cons.mpr ⟨hframe, ih h' (cons.inj hset).2 (by omega)⟩

end Deaggregate

/-! ### A-MPDUs -/

namespace MpduAggregator

/-- `Aggregate` for one MPDU after the other. -/
def aggregateAll (isSingle : Bool) : List Mpdu → Except Fault Octets
  | [] => .ok []
  | mpdu :: mpdus => do
    let ampdu ← Aggregate mpdu [] isSingle
    mpdus.foldlM (fun ampdu mpdu => Aggregate mpdu ampdu false) ampdu

/-- The A-MPDU comes apart into the MPDUs, for both readers, and its size is predicted. -/
structure Right (mpdus : List Mpdu) (ampdu : Octets) : Prop where
  deaggregate : ∃ set, Deaggregate ampdu = .ok set ∧ set.map Prod.fst = mpdus.map Mpdu.octets
  peek : PeekMpdus ampdu = .ok (mpdus.map Mpdu.octets)
  size : ampdu.length = mpdus.foldl (fun size mpdu => GetSizeIfAggregated mpdu.GetSize size) 0

variable {mpdu : Mpdu} {mpdus : List Mpdu} {ampdu : Octets} {isSingle : Bool}

/-- The MPDUs with their subframe headers. -/
def frames (isSingle : Bool) : List Mpdu → List (AmpduSubframeHeader × Octets)
  | [] => []
  | mpdu :: mpdus => (subframeHeader mpdu isSingle, mpdu.octets) ::
    mpdus.map fun mpdu => (subframeHeader mpdu false, mpdu.octets)

/-- The octets of an MPDU are as many as its size. -/
theorem length_octets : mpdu.octets.length = mpdu.GetSize := by
  unfold Mpdu.octets Mpdu.GetSize
  rw [length_append, length_append, Nat.add_comm mpdu.m_header.length]

/-- Aggregating an MPDU appends its padded subframe. -/
theorem Aggregate_eq (h : isSingle = true → ampdu = []) :
    Aggregate mpdu ampdu isSingle =
      .ok (PaddedFrames.append 0 ampdu (subframe (subframeHeader mpdu isSingle, mpdu.octets))) := by
  unfold Aggregate
  rw [if_neg (by rintro ⟨hsingle, hne⟩; exact hne (by rw [h hsingle]; rfl))]
  dsimp only
  split_ifs with hpos
  · rfl
  · rw [eq_nil_of_length_eq_zero (Nat.eq_zero_of_not_pos hpos), PaddedFrames.append_nil_left]
    rfl

/-- The A-MPDU is the layout of its subframes. -/
theorem aggregateAll_eq :
    aggregateAll isSingle mpdus = .ok (layout 0 ((frames isSingle mpdus).map subframe)) := by
  have hfold : ∀ (mpdus : List Mpdu) (ampdu : Octets),
      mpdus.foldlM (fun ampdu mpdu => Aggregate mpdu ampdu false) ampdu =
        .ok ((mpdus.map fun mpdu => subframe (subframeHeader mpdu false, mpdu.octets)).foldl
          (PaddedFrames.append 0) ampdu) := by
    intro mpdus
    induction mpdus with
    | nil => exact fun _ => rfl
    | cons mpdu mpdus ih =>
      intro ampdu
      rw [foldlM_cons, Aggregate_eq fun hsingle => absurd hsingle Bool.false_ne_true,
        ExceptFold.ok_bind, ih]
      rfl
  match mpdus with
  | [] => rfl
  | mpdu :: mpdus =>
    show (Aggregate mpdu [] isSingle >>= fun ampdu =>
      mpdus.foldlM (fun ampdu mpdu => Aggregate mpdu ampdu false) ampdu) = _
    rw [Aggregate_eq fun _ => rfl, ExceptFold.ok_bind, hfold, ← PaddedFrames.foldl_append]
    unfold frames
    rw [map_cons, map_map, foldl_cons]
    rfl

/-- A frame of the aggregate is an MPDU with its length in the header. -/
theorem mem_frames {frame : AmpduSubframeHeader × Octets} (h : frame ∈ frames isSingle mpdus) :
    ∃ mpdu ∈ mpdus, frame.2 = mpdu.octets ∧ frame.1.m_length = mpdu.octets.length.toUInt16 := by
  match mpdus with
  | [] => cases h
  | mpdu :: mpdus =>
    rcases mem_cons.mp h with rfl | h
    · exact ⟨mpdu, mem_cons_self, rfl, rfl⟩
    · obtain ⟨mpdu', hmem, rfl⟩ := mem_map.mp h
      exact ⟨mpdu', mem_cons_of_mem _ hmem, rfl, rfl⟩

/-- The frames of the aggregate are the MPDUs. -/
theorem frames_snd : (frames isSingle mpdus).map Prod.snd = mpdus.map Mpdu.octets := by
  match mpdus with
  | [] => rfl
  | mpdu :: mpdus =>
    unfold frames
    rw [map_cons, map_map]
    rfl

/-- The length of an MPDU is read right from 14 bits if it has no more. -/
theorem length_received (hdr : AmpduSubframeHeader) (size : ℕ) (h : hdr.m_length = size.toUInt16) :
    (SubframeHeader.GetLength hdr.received).toNat = size ↔ size ≤ 16383 := by
  show hdr.received.m_length.toNat = size ↔ size ≤ 16383
  rw [AmpduSubframeHeader.received_length, h]
  show size % 2 ^ 16 % 16384 = size ↔ _
  omega

theorem Serialize_length (hdr : AmpduSubframeHeader) :
    (SubframeHeader.Serialize hdr).length =
      SubframeHeader.GetSerializedSize AmpduSubframeHeader := rfl

/-- The padding of the code is that of the layout. -/
theorem padding_eq (length : ℕ) : (4 - length % 4) % 4 =
    padding (SubframeHeader.GetSerializedSize AmpduSubframeHeader + length) := by
  show _ = padding (4 + length)
  rw [PaddedFrames.padding_add rfl]
  rfl

/-- A fragment in the middle of octets. -/
theorem CreateFragment_append (before fragment rest : Octets) :
    CreateFragment (before ++ (fragment ++ rest)) before.length fragment.length = .ok fragment := by
  unfold CreateFragment
  rw [if_neg (by simp only [length_append]; omega), drop_left' rfl, take_left' rfl]

/-- The MPDU of a subframe is read where its length fits the header. -/
theorem PeekMpduInAmpduSubframe_append {frame : AmpduSubframeHeader × Octets} (pad : Octets)
    (hlength : frame.1.received.m_length.toNat = frame.2.length) :
    PeekMpduInAmpduSubframe (SubframeHeader.Serialize frame.1 ++ (frame.2 ++ pad)) =
      .ok frame.2 := by
  unfold PeekMpduInAmpduSubframe
  rw [RemoveHeader_append AmpduSubframeHeader.Deserialize_append Serialize_length,
    ExceptFold.ok_bind, hlength]
  exact CreateFragment_append (SubframeHeader.Serialize frame.1) frame.2 pad

/-- **Peeking** finds the same subframes by their offsets. -/
theorem peek_layout {frames : List (AmpduSubframeHeader × Octets)} {before : Octets}
    (hlength : ∀ frame ∈ frames, frame.1.received.m_length.toNat = frame.2.length) :
    ∃ subframes, peekSubframes (before ++ layout 0 (frames.map subframe)) before.length =
      .ok subframes ∧ subframes.mapM PeekMpduInAmpduSubframe = .ok (frames.map Prod.snd) := by
  induction frames generalizing before with
  | nil =>
    refine ⟨[], ?_, rfl⟩
    rw [peekSubframes, if_neg (by simp [layout])]
  | cons frame frames ih =>
    obtain ⟨hframe, hframes⟩ := forall_mem_cons.mp hlength
    obtain ⟨pad, hlayout, hpad⟩ := exists_pad Serialize_length padding_eq frame frames
      (rfl : before.length + _ = _)
    let whole := SubframeHeader.Serialize frame.1 ++ (frame.2 ++ pad)
    have hwhole : whole.length = 4 + frame.2.length + pad.length := by
      simp only [whole, length_append]
      exact (Nat.add_assoc 4 _ _).symm
    have hpacket : before ++ layout 0 ((frame :: frames).map subframe) =
        before ++ (whole ++ layout 0 (frames.map subframe)) := by
      rw [hlayout]
      simp only [whole, append_assoc]
    obtain ⟨subframes, hsubframes, hmpdus⟩ := @ih (before ++ whole) hframes
    rw [append_assoc, ← hpacket, length_append] at hsubframes
    have hheader : CreateFragment (before ++ layout 0 ((frame :: frames).map subframe))
        before.length 4 = .ok (SubframeHeader.Serialize frame.1) := by
      rw [hlayout]
      exact CreateFragment_append before (SubframeHeader.Serialize frame.1) _
    have hread : RemoveHeader AmpduSubframeHeader (SubframeHeader.Serialize frame.1) =
        .ok (frame.1.received, []) := by
      have h := RemoveHeader_append AmpduSubframeHeader.Deserialize_append Serialize_length
        frame.1 []
      rwa [append_nil] at h
    have hfragment : CreateFragment (before ++ layout 0 ((frame :: frames).map subframe))
        before.length (4 + frame.2.length + pad.length) = .ok whole := by
      rw [hpacket, ← hwhole]
      exact CreateFragment_append before whole _
    refine ⟨whole :: subframes, ?_, ?_⟩
    · rw [peekSubframes, if_pos (by rw [hpacket, length_append, length_append, hwhole]; omega),
        hheader, ExceptFold.ok_bind, hread, ExceptFold.ok_bind]
      dsimp only
      rw [hframe, length_append]
      rw [show SubframeHeader.GetSerializedSize AmpduSubframeHeader = 4 from rfl] at hpad
      rw [← hpad, hfragment, ExceptFold.ok_bind, ← hwhole, hsubframes]
      rfl
    · rw [mapM_cons, PeekMpduInAmpduSubframe_append pad hframe, hmpdus]
      rfl

/-- The length of an A-MPDU is what the code counts. -/
theorem length_layout_frames : (layout 0 ((frames isSingle mpdus).map subframe)).length =
    mpdus.foldl (fun size mpdu => GetSizeIfAggregated mpdu.GetSize size) 0 := by
  have hlengths : ((frames isSingle mpdus).map subframe).map length =
      mpdus.map fun mpdu => 4 + mpdu.GetSize := by
    have hsubframe : ∀ isSingle mpdu,
        (subframe (subframeHeader mpdu isSingle, mpdu.octets)).length = 4 + mpdu.GetSize := by
      intro isSingle mpdu
      unfold subframe
      rw [length_append, length_octets]
      rfl
    match mpdus with
    | [] => rfl
    | mpdu :: mpdus =>
      unfold frames
      rw [map_map, map_cons, map_map, map_cons]
      exact congrArg₂ cons (hsubframe isSingle mpdu)
        (map_congr_left fun mpdu _ => hsubframe false mpdu)
  rw [← PaddedFrames.foldl_append, PaddedFrames.length_foldl_append, hlengths, foldl_map]
  congr 1
  funext size mpdu
  exact (Nat.add_assoc _ 4 mpdu.GetSize).symm

/-- Deaggregation gives the MPDUs back if and only if their lengths fit fourteen bits. -/
theorem right_iff :
    (∃ ampdu, aggregateAll isSingle mpdus = .ok ampdu ∧ Right mpdus ampdu) ↔
      ∀ mpdu ∈ mpdus, mpdu.GetSize ≤ 16383 := by
  rw [aggregateAll_eq]
  have hmax : 0 + (layout 0 ((frames isSingle mpdus).map subframe)).length = _ := Nat.zero_add _
  constructor
  · rintro ⟨_, hampdu, ⟨set, hset, hoctets⟩, -, -⟩
    obtain rfl := Except.ok.inj hampdu
    have hlength := length_of_deaggregate AmpduSubframeHeader.Deserialize_append Serialize_length
      padding_eq hset (hoctets.trans frames_snd.symm) hmax
    -- every MPDU is in a subframe
    intro mpdu hmpdu
    have hoctets : mpdu.octets ∈ (frames isSingle mpdus).map Prod.snd := by
      rw [frames_snd]
      exact mem_map_of_mem hmpdu
    obtain ⟨frame, hframe, heq⟩ := mem_map.mp hoctets
    obtain ⟨mpdu', -, heq', hheader⟩ := mem_frames hframe
    rw [← length_octets, ← heq]
    refine (length_received frame.1 _ ?_).mp (hlength frame hframe)
    rw [hheader, heq']
  · intro hsize
    have hlength : ∀ frame ∈ frames isSingle mpdus,
        (SubframeHeader.GetLength frame.1.received).toNat = frame.2.length := by
      intro frame hframe
      obtain ⟨mpdu, hmpdu, heq, hheader⟩ := mem_frames hframe
      rw [heq]
      exact (length_received frame.1 _ hheader).mpr (length_octets ▸ hsize mpdu hmpdu)
    refine ⟨_, rfl, ⟨_, deaggregate_layout AmpduSubframeHeader.Deserialize_append Serialize_length
      padding_eq hlength hmax, ?_⟩, ?_, length_layout_frames⟩
    · rw [map_map, ← frames_snd]
      rfl
    · obtain ⟨subframes, hsubframes, hmpdus⟩ := @peek_layout (frames isSingle mpdus) [] hlength
      rw [← frames_snd]
      exact ExceptFold.bind_eq_ok_iff.mpr ⟨subframes, hsubframes, hmpdus⟩

end MpduAggregator

/-! ### A-MSDUs -/

namespace MsduAggregator

structure Msdu where
  m_packet : Octets
  src : Mac48Address
  dest : Mac48Address

/-- `Aggregate` for one MSDU after the other. -/
def aggregateAll (msdus : List Msdu) : Octets :=
  msdus.foldl (fun amsdu msdu => Aggregate msdu.m_packet amsdu msdu.src msdu.dest) []

/-- The A-MSDU comes apart into the MSDUs with their addresses, and its size is predicted. -/
structure Right (msdus : List Msdu) : Prop where
  deaggregate : Deaggregate (aggregateAll msdus) = .ok (msdus.map fun msdu =>
    (msdu.m_packet, ⟨msdu.dest, msdu.src, msdu.m_packet.length.toUInt16⟩))
  size : (aggregateAll msdus).length = (msdus.foldl (fun size msdu =>
    GetSizeIfAggregated msdu.m_packet.length.toUInt16 size) 0).toNat

/-- The size of an A-MSDU of MSDUs of these sizes. -/
def amsduSize (sizes : List ℕ) : ℕ :=
  sizes.foldl (fun size next => size + (4 - size % 4) % 4 + 14 + next) 0

variable {msdus : List Msdu}

/-- An MSDU with its subframe header. -/
def msduFrame (msdu : Msdu) : AmsduSubframeHeader × Octets :=
  (⟨msdu.dest, msdu.src, msdu.m_packet.length.toUInt16⟩, msdu.m_packet)

/-- The padding as the code computes it. -/
theorem CalculatePadding_toNat (size : ℕ) :
    (CalculatePadding size.toUInt16).toNat = padding size := by
  unfold CalculatePadding padding
  have hmod : (size.toUInt16 % 4).toNat = size % 4 := by
    rw [UInt16.toNat_mod]
    show size % 2 ^ 16 % 4 = _
    omega
  have hle : size.toUInt16 % 4 ≤ 4 := by
    rw [UInt16.le_iff_toNat_le, hmod]
    exact Nat.le_of_lt (Nat.mod_lt _ (by decide))
  rw [UInt16.toNat_mod, UInt16.toNat_sub_of_le _ _ hle, hmod]
  rfl

/-- The size with one more subframe, as the code computes it. -/
theorem GetSizeIfAggregated_eq (msduSize size : ℕ) :
    GetSizeIfAggregated msduSize.toUInt16 size.toUInt16 =
      (size + padding size + 14 + msduSize).toUInt16 := by
  rw [← UInt16.toNat_inj]
  unfold GetSizeIfAggregated
  rw [UInt16.toNat_add, UInt16.toNat_add, UInt16.toNat_add, CalculatePadding_toNat]
  show (((size % 2 ^ 16 + padding size) % 2 ^ 16 + 14) % 2 ^ 16 + msduSize % 2 ^ 16) % 2 ^ 16 =
    (size + padding size + 14 + msduSize) % 2 ^ 16
  omega

theorem Serialize_length (hdr : AmsduSubframeHeader) :
    (SubframeHeader.Serialize hdr).length =
      SubframeHeader.GetSerializedSize AmsduSubframeHeader := rfl

/-- The padding of the code is that of the layout. -/
theorem padding_eq (length : ℕ) : (4 - (length + 14) % 4) % 4 =
    padding (SubframeHeader.GetSerializedSize AmsduSubframeHeader + length) := by
  rw [Nat.add_comm length]
  rfl

/-- Aggregating an MSDU appends its padded subframe. -/
theorem Aggregate_eq {msdu : Msdu} {amsdu : Octets} :
    Aggregate msdu.m_packet amsdu msdu.src msdu.dest =
      PaddedFrames.append 0 amsdu (subframe (msduFrame msdu)) := by
  unfold Aggregate
  rw [CalculatePadding_toNat]
  dsimp only
  split_ifs with hpos
  · rfl
  · rw [eq_nil_of_length_eq_zero (Nat.eq_zero_of_not_pos hpos), PaddedFrames.append_nil_left]
    rfl

/-- The A-MSDU is the layout of its subframes. -/
theorem aggregateAll_eq : aggregateAll msdus = layout 0 ((msdus.map msduFrame).map subframe) := by
  unfold aggregateAll
  rw [← PaddedFrames.foldl_append, map_map, foldl_map]
  congr 1
  funext amsdu msdu
  exact Aggregate_eq

/-- The length of an A-MSDU. -/
theorem length_aggregateAll :
    (aggregateAll msdus).length = amsduSize (msdus.map fun msdu => msdu.m_packet.length) := by
  have hlengths : ((msdus.map msduFrame).map subframe).map length =
      msdus.map fun msdu => 14 + msdu.m_packet.length := by
    rw [map_map, map_map]
    refine map_congr_left fun msdu _ => ?_
    show (subframe (msduFrame msdu)).length = _
    unfold subframe
    rw [length_append]
    rfl
  unfold amsduSize
  rw [aggregateAll_eq, ← PaddedFrames.foldl_append, PaddedFrames.length_foldl_append, hlengths,
    foldl_map, foldl_map]
  congr 1
  funext size msdu
  exact (Nat.add_assoc _ 14 msdu.m_packet.length).symm

/-- The prediction has the 16 bits of the size. -/
theorem predicted_eq : msdus.foldl (fun size msdu =>
    GetSizeIfAggregated msdu.m_packet.length.toUInt16 size) 0 =
    (aggregateAll msdus).length.toUInt16 := by
  have hfold : ∀ (msdus : List Msdu) (size : ℕ), msdus.foldl (fun size msdu =>
      GetSizeIfAggregated msdu.m_packet.length.toUInt16 size) size.toUInt16 =
      (msdus.foldl (fun size msdu => size + padding size + 14 + msdu.m_packet.length)
        size).toUInt16 := by
    intro msdus
    induction msdus with
    | nil => exact fun _ => rfl
    | cons msdu msdus ih =>
      intro size
      rw [foldl_cons, GetSizeIfAggregated_eq, ih]
      rfl
  rw [length_aggregateAll]
  unfold amsduSize
  rw [foldl_map]
  exact hfold msdus 0

/-- The sizes are right if and only if the A-MSDU fits sixteen bits. -/
theorem right_iff :
    Right msdus ↔ amsduSize (msdus.map fun msdu => msdu.m_packet.length) ≤ 65535 := by
  rw [← length_aggregateAll]
  constructor
  · rintro ⟨-, hsize⟩
    rw [hsize]
    exact Nat.le_of_lt_succ (UInt16.toNat_lt _)
  · intro hle
    have hlength : ∀ frame ∈ msdus.map msduFrame,
        (SubframeHeader.GetLength frame.1).toNat = frame.2.length := by
      intro frame' hframe
      obtain ⟨msdu, hmsdu, rfl⟩ := mem_map.mp hframe
      have hsub : [subframe (msduFrame msdu)] <+ (msdus.map msduFrame).map subframe :=
        singleton_sublist.mpr (mem_map_of_mem hframe)
      have hlayout := PaddedFrames.length_layout_le (z := (0 : UInt8)) hsub
      rw [← aggregateAll_eq] at hlayout
      have hsubframe : (subframe (msduFrame msdu)).length ≤ (aggregateAll msdus).length := hlayout
      unfold subframe at hsubframe
      rw [length_append] at hsubframe
      show msdu.m_packet.length % 2 ^ 16 = msdu.m_packet.length
      exact Nat.mod_eq_of_lt (Nat.lt_succ_of_le
        (Nat.le_trans (Nat.le_trans (Nat.le_add_left _ _) hsubframe) hle))
    refine ⟨?_, ?_⟩
    · unfold Deaggregate
      rw [aggregateAll_eq, deaggregate_layout AmsduSubframeHeader.Deserialize_append
        Serialize_length padding_eq hlength (Nat.zero_add _), map_map]
      rfl
    · rw [predicted_eq]
      exact (Nat.mod_eq_of_lt (Nat.lt_succ_of_le hle)).symm

end MsduAggregator

end Ns3Joined.Wifi
