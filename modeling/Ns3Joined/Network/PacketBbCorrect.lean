import Ns3Joined.Network.PbbHeadTail

/-!
# What a generalized packet is read back as

Every part of a packet is read just as it was written if it is `Kept`, and never if it is not.
-/

namespace Ns3Joined.Network.PacketBb

open PrefixCode Tiles List UInt32
open UInt32 (add_assoc ofNat ofNat_add sub_self toNat_ofNat' toNat_sub toNat_zero)

theorem reads_ReadU8 (octet : UInt8) : Reads ReadU8 [octet] octet := fun _ => rfl

/-- A block of octets reads back. -/
theorem reads_Read {octets : List UInt8} {size : ℕ} (h : octets.length = size) :
    Reads (Read size) octets octets := by
  intro rest
  have hlen : ¬ (octets ++ rest).length < size := by
    rw [length_append]
    omega
  unfold Read
  rw [if_neg hlen, take_left' h, drop_left' h]

/-- A number reads back in two octets. -/
theorem reads_ReadNtohU16 (n : ℕ) : Reads ReadNtohU16 (WriteHtonU16 n) (n % 65536) := by
  have h := (reads_Read (length_toBigEndian 2 n)).map ofBigEndian
  rwa [ofBigEndian_toBigEndian_mod] at h

/-! ### TLVs -/

namespace PbbTlv

variable {t : PbbTlv} {flags : UInt8}

/-- What is read for a TLV. -/
def kept (t : PbbTlv) : PbbTlv :=
  { t with
    m_isMultivalue := false
    m_indexStop := if t.m_indexStart.isSome then t.m_indexStop else none }

/-- A block is kept if and only if reading it back gives it. -/
theorem kept_eq_iff : t.kept = t ↔ t.Kept := by
  obtain ⟨type, typeExt, indexStart, indexStop, isMultivalue, value⟩ := t
  unfold kept Kept
  simp only [PbbTlv.mk.injEq, true_and, and_true]
  cases indexStart <;> cases indexStop <;> simp [eq_comm]

/-- The flags of a TLV, tested as the reader does. -/
theorem flags_tests (typeExt start stop value long multivalue : Bool) :
    let flags := (if typeExt then THAS_TYPE_EXT else 0) |||
      (if start then if stop then THAS_MULTI_INDEX else THAS_SINGLE_INDEX else 0) |||
      (if value then (if long then THAS_VALUE ||| THAS_EXT_LEN else THAS_VALUE) |||
        (if multivalue then TIS_MULTIVALUE else 0) else 0)
    (flags &&& THAS_TYPE_EXT != 0) = typeExt ∧
    (flags &&& THAS_MULTI_INDEX != 0) = (start && stop) ∧
    (flags &&& THAS_SINGLE_INDEX != 0) = (start && !stop) ∧
    (flags &&& THAS_VALUE != 0) = value ∧
    (flags &&& THAS_EXT_LEN != 0) = (value && long) := by
  revert typeExt start stop value long multivalue
  decide

/-- The value has a length of two octets. -/
def long (value : Option (List UInt8)) : Bool := value.any fun value => value.length > 255

/-- The flags that say which indices follow. -/
theorem indexCode_flag (start stop : Option UInt8) :
    (indexCode start stop).1 =
      if start.isSome then if stop.isSome then THAS_MULTI_INDEX else THAS_SINGLE_INDEX else 0 := by
  cases start <;> cases stop <;> rfl

/-- The flags that say how the value follows. -/
theorem valueCode_flag (multivalue : Bool) (value : Option (List UInt8)) :
    (valueCode multivalue value).1 =
      if value.isSome then (if long value then THAS_VALUE ||| THAS_EXT_LEN else THAS_VALUE) |||
        (if multivalue then TIS_MULTIVALUE else 0) else 0 := by
  cases value with
  | none => rfl
  | some value =>
    by_cases hlong : value.length > 255
    · rw [valueCode, if_pos hlong, long, Option.any_some, decide_eq_true hlong]
      rfl
    · rw [valueCode, if_neg hlong, long, Option.any_some, decide_eq_false hlong]
      rfl

/-- The indices read back under their flags. -/
theorem reads_readIndex {start stop : Option UInt8}
    (hmulti : (flags &&& THAS_MULTI_INDEX != 0) = (start.isSome && stop.isSome))
    (hsingle : (flags &&& THAS_SINGLE_INDEX != 0) = (start.isSome && !stop.isSome)) :
    Reads (readIndex flags) (indexCode start stop).2
      (start, if start.isSome then stop else none) := by
  unfold readIndex
  simp only [← bne_iff_ne, hmulti, hsingle]
  match start, stop with
  | some start, some stop =>
    exact (reads_ReadU8 start).bind ((reads_ReadU8 stop).bind (reads_done _))
  | some start, none => exact (reads_ReadU8 start).bind (reads_done _)
  | none, some _ => exact reads_done _
  | none, none => exact reads_done _

/-- The value reads back under its flags. -/
theorem reads_readValue {multivalue : Bool} {value : List UInt8} (hle : value.length ≤ 65535)
    (hlong : (flags &&& THAS_EXT_LEN != 0) = long (some value)) :
    Reads (readValue flags) (valueCode multivalue (some value)).2 value := by
  unfold readValue valueCode
  simp only [← bne_iff_ne, hlong, long, Option.any_some, decide_eq_true_eq]
  by_cases h : value.length > 255
  · rw [if_pos h, if_pos h]
    exact (reads_ReadNtohU16 _).bind (reads_Read (Nat.mod_eq_of_lt (by omega)).symm)
  · rw [if_neg h, if_neg h]
    change Reads _ ([UInt8.ofNat value.length] ++ value) value
    refine (reads_ReadU8 _).bind (reads_Read ?_)
    rw [UInt8.toNat_ofNat', Nat.mod_eq_of_lt (by omega)]

/-- Whatever the TLV, it is read without those fields that are not written. -/
theorem reads_Deserialize (h : t.WellFormed) : Reads Deserialize t.Serialize t.kept := by
  obtain ⟨htypeExt, hmulti, hsingle, hvalue, hlong⟩ := flags_tests t.m_typeExt.isSome
    t.m_indexStart.isSome t.m_indexStop.isSome t.m_value.isSome (long t.m_value) t.m_isMultivalue
  rw [← indexCode_flag, ← valueCode_flag] at htypeExt hmulti hsingle hvalue hlong
  set flags := (if t.m_typeExt.isSome then THAS_TYPE_EXT else 0) |||
    (indexCode t.m_indexStart t.m_indexStop).1 ||| (valueCode t.m_isMultivalue t.m_value).1
  have hcode : t.Serialize = [t.m_type] ++ ([flags] ++ (t.m_typeExt.toList ++
      ((indexCode t.m_indexStart t.m_indexStop).2 ++
        ((valueCode t.m_isMultivalue t.m_value).2 ++ [])))) := by
    rw [append_nil, ← append_assoc t.m_typeExt.toList]
    rfl
  rw [hcode]
  refine (reads_ReadU8 _).bind ((reads_ReadU8 _).bind (Reads.bind (a := t.m_typeExt) ?_
    ((reads_readIndex hmulti hsingle).bind (Reads.bind (a := t.m_value) ?_ (reads_done _)))))
  · rw [htypeExt]
    cases ht : t.m_typeExt with
    | none => exact reads_optional_none _
    | some typeExt => exact (reads_ReadU8 typeExt).optional_some
  · rw [hvalue]
    cases hv : t.m_value with
    | none => exact reads_optional_none _
    | some value =>
      rw [hv] at hlong
      exact (reads_readValue (h value hv) hlong).optional_some

/-- A TLV reads back as itself if and only if it is kept. -/
theorem readsJust_Deserialize (h : t.WellFormed) :
    ReadsJust Deserialize t.Serialize t t.Kept :=
  (reads_Deserialize h).readsJust_eq.congr kept_eq_iff

theorem length_WriteHtonU16 (n : ℕ) : (WriteHtonU16 n).length = 2 := length_toBigEndian 2 n

/-- An optional octet takes one or none. -/
theorem length_toList (o : Option UInt8) : o.toList.length = if o.isSome then 1 else 0 := by
  cases o <;> rfl

/-- The octets of a TLV. -/
theorem length_Serialize (t : PbbTlv) : t.Serialize.length = t.octets := by
  have hindex : (indexCode t.m_indexStart t.m_indexStop).2.length =
      if t.m_indexStart.isSome then if t.m_indexStop.isSome then 2 else 1 else 0 := by
    cases t.m_indexStart <;> cases t.m_indexStop <;> rfl
  have hvalue : (valueCode t.m_isMultivalue t.m_value).2.length = valueOctets t.m_value := by
    cases t.m_value with
    | none => rfl
    | some value =>
      unfold valueCode valueOctets
      dsimp only
      by_cases hlong : value.length > 255
      · rw [if_pos hlong, if_pos hlong, length_append, length_WriteHtonU16]
      · rw [if_neg hlong, if_neg hlong, length_cons, Nat.add_comm]
  unfold Serialize octets
  dsimp only
  rw [length_cons, length_cons, length_append, length_append, length_toList,
    hindex, hvalue]
  omega

/-- The size a TLV says of itself. -/
theorem GetSerializedSize_eq (h : t.Kept) : t.GetSerializedSize = ofNat t.octets := by
  have hindex : ofNat
      (if t.m_indexStart.isSome then if t.m_indexStop.isSome then 2 else 1 else 0) =
      (if t.m_indexStart.isSome then 1 else 0) + (if t.m_indexStop.isSome then 1 else 0) := by
    have hstop := h.2
    match hstart : t.m_indexStart, hend : t.m_indexStop with
    | some _, some _ => rfl
    | some _, none => rfl
    | none, some _ =>
      rw [hstart, hend] at hstop
      exact absurd (hstop rfl) Bool.false_ne_true
    | none, none => rfl
  have htypeExt : ofNat (if t.m_typeExt.isSome then 1 else 0) =
      if t.m_typeExt.isSome then 1 else 0 := by
    cases t.m_typeExt <;> rfl
  unfold octets GetSerializedSize
  rw [ofNat_add, ofNat_add, ofNat_add, hindex, htypeExt, ← add_assoc]
  congr 1
  cases t.m_value with
  | none => rfl
  | some value =>
    unfold valueOctets
    dsimp only
    rw [ofNat_add]
    split_ifs <;> rfl

theorem Serialize_ne_nil (t : PbbTlv) : t.Serialize ≠ [] := cons_ne_nil _ _

end PbbTlv

/-! ### Blocks of TLVs -/

namespace PbbTlvBlock

/-- A TLV block is its size and its TLVs. -/
theorem Serialize_eq (tlvs : List PbbTlv) :
    Serialize tlvs = WriteHtonU16 (octets tlvs) ++ tlvs.flatMap PbbTlv.Serialize := by
  have hbody : (tlvs.flatMap PbbTlv.Serialize).length = octets tlvs :=
    Tiles.length_flatMap fun t _ => t.length_Serialize
  unfold Serialize
  rw [← hbody]
  split_ifs with hnil
  · rw [hnil]
    rfl
  · rfl

/-- A TLV block reads back as itself if and only if its TLVs are kept. -/
theorem readsJust_Deserialize {tlvs : List PbbTlv} (h : ∀ t ∈ tlvs, t.WellFormed) :
    ReadsJust Deserialize (Serialize tlvs) tlvs (Kept tlvs) := by
  rw [Serialize_eq]
  refine ReadsJust.congr ((reads_ReadNtohU16 _).bind_readsJust (readsJust_readWhile _
    (fun t ht => PbbTlv.readsJust_Deserialize (h t ht)) PbbTlv.Serialize_ne_nil _ _
      (Nat.le_refl _))) (and_congr_right fun _ => ?_)
  exact reaches_congr (fun t _ => t.length_Serialize) _

/-- The octets of a TLV block. -/
theorem length_Serialize (tlvs : List PbbTlv) : (Serialize tlvs).length = 2 + octets tlvs := by
  rw [Serialize_eq, length_append, PbbTlv.length_WriteHtonU16,
    Tiles.length_flatMap fun t _ => t.length_Serialize]
  rfl

end PbbTlvBlock

/-- Sizes are added up as lengths are. -/
theorem foldl_size {α : Type*} {size : α → UInt32} {octets : α → ℕ} {as : List α}
    (h : ∀ a ∈ as, size a = ofNat (octets a)) (n : ℕ) :
    as.foldl (fun total a => total + size a) (ofNat n) =
      ofNat (n + total octets as) := by
  induction as generalizing n with
  | nil => rfl
  | cons a as ih =>
    obtain ⟨ha, has⟩ := forall_mem_cons.mp h
    rw [foldl_cons, ha, ← ofNat_add, ih has, total_cons, Nat.add_assoc]

/-- The size a TLV block says of itself. -/
theorem PbbTlvBlock.GetSerializedSize_eq {tlvs : List PbbTlv} (h : PbbTlvBlock.Kept tlvs) :
    PbbTlvBlock.GetSerializedSize tlvs = ofNat (2 + PbbTlvBlock.octets tlvs) :=
  foldl_size (fun t ht => PbbTlv.GetSerializedSize_eq (h.1 t ht)) 2

/-! ### Address blocks -/

namespace PbbAddressBlock

variable {length headlen taillen size n : ℕ} {flags : UInt8} {addresses : List Address}
  {addrtmp y : Address} {b : PbbAddressBlock}

/-- The flags of an address block, tested as the reader does. -/
theorem flags_tests (head tail zero pfx multi : Bool) :
    let flags := (if head then AHAS_HEAD else 0) |||
      (if tail then if zero then AHAS_ZERO_TAIL else AHAS_FULL_TAIL else 0) |||
      (if pfx then if multi then AHAS_MULTI_PRE_LEN else AHAS_SINGLE_PRE_LEN else 0)
    (flags &&& AHAS_HEAD != 0) = head ∧
    ((flags &&& AHAS_FULL_TAIL) ^^^ (flags &&& AHAS_ZERO_TAIL) != 0) = tail ∧
    (flags &&& AHAS_FULL_TAIL != 0) = (tail && !zero) ∧
    (flags &&& AHAS_SINGLE_PRE_LEN != 0) = (pfx && !multi) ∧
    (flags &&& AHAS_MULTI_PRE_LEN != 0) = (pfx && multi) := by
  revert head tail zero pfx multi
  decide

/-- The flags that say how the tail follows. -/
theorem tailCode_flag (tail : List UInt8) : (tailCode tail).1 =
    if tail.length > 0 then if HasZeroTail tail then AHAS_ZERO_TAIL else AHAS_FULL_TAIL else 0 := by
  unfold tailCode
  split_ifs <;> rfl

/-- The flags that say how many prefix lengths follow. -/
theorem GetPrefixFlags_eq (prefixes : List UInt8) : GetPrefixFlags prefixes =
    if prefixes.length > 0 then
      if prefixes.length > 1 then AHAS_MULTI_PRE_LEN else AHAS_SINGLE_PRE_LEN
    else 0 := by
  match prefixes with
  | [] => rfl
  | [_] => rfl
  | _ :: _ :: _ => rfl

/-- Octets are read into their place. -/
theorem reads_readInto {octets : List UInt8} (hlen : octets.length = size)
    (hle : n + size ≤ addrtmp.length) :
    Reads (readInto addrtmp n size) octets
      (addrtmp.take n ++ octets ++ addrtmp.drop (n + size)) := by
  unfold readInto
  rw [if_neg (by omega)]
  exact (reads_Read hlen).map fun octets =>
    addrtmp.take n ++ octets ++ addrtmp.drop (n + size)

/-- The prefix lengths read back under their flags. -/
theorem reads_readPrefixes {prefixes : List UInt8}
    (hsize : prefixes.length = 0 ∨ prefixes.length = 1 ∨ prefixes.length = n)
    (hsingle : (flags &&& AHAS_SINGLE_PRE_LEN != 0) =
      (decide (prefixes.length > 0) && !decide (prefixes.length > 1)))
    (hmulti : (flags &&& AHAS_MULTI_PRE_LEN != 0) =
      (decide (prefixes.length > 0) && decide (prefixes.length > 1))) :
    Reads (readPrefixes flags n) prefixes prefixes := by
  unfold readPrefixes
  simp only [← bne_iff_ne, hsingle, hmulti, Bool.and_eq_true, Bool.not_eq_true',
    decide_eq_true_eq, decide_eq_false_iff_not]
  by_cases hzero : prefixes.length = 0
  · rw [if_neg (by omega), if_neg (by omega), eq_nil_of_length_eq_zero hzero]
    exact reads_done []
  · by_cases hone : prefixes.length = 1
    · rw [if_pos (by omega)]
      exact reads_Read hone
    · rw [if_neg (by omega), if_pos (by omega)]
      exact reads_Read (by omega)

/-- The addresses are read with the head and the tail that were read before. -/
theorem reads_readAddresses {mids : List (List UInt8)} (hlen : ∀ mid ∈ mids, mid.length = size)
    (hle : headlen + size ≤ addrtmp.length) :
    Reads (readAddresses headlen size mids.length addrtmp) mids.flatten
      (mids.map fun mid => addrtmp.take headlen ++ mid ++ addrtmp.drop (headlen + size)) := by
  induction mids generalizing addrtmp with
  | nil => exact reads_done []
  | cons mid mids ih =>
    obtain ⟨hmid, hmids⟩ := forall_mem_cons.mp hlen
    have hhead : (addrtmp.take headlen).length = headlen := length_take_of_le (by omega)
    have hfront : (addrtmp.take headlen ++ mid).length = headlen + size := by
      rw [length_append, hhead, hmid]
    have hlength : (addrtmp.take headlen ++ mid ++ addrtmp.drop (headlen + size)).length =
        addrtmp.length := by
      rw [length_append, hfront, length_drop]
      omega
    have h := ih hmids (Nat.le_trans hle (Nat.le_of_eq hlength.symm))
    rw [drop_left' hfront, append_assoc, take_left' hhead] at h
    rw [flatten_cons, map_cons, append_assoc]
    have hfirst := reads_readInto hmid hle
    rw [append_assoc] at hfirst
    exact hfirst.bind (h.map _)

/-- A length of one octet reads back. -/
theorem reads_lengthOctet {octets : List UInt8} (hlt : octets.length < 256) :
    Reads ReadU8 [UInt8.ofNat octets.length] (UInt8.ofNat octets.length) ∧
      (UInt8.ofNat octets.length).toNat = octets.length := by
  refine ⟨reads_ReadU8 _, ?_⟩
  rw [UInt8.toNat_ofNat', Nat.mod_eq_of_lt hlt]

/-- The head reads back under its flag. -/
theorem reads_readHead (addrtmp : Address) {head : List UInt8} (hlt : head.length < 256)
    (hle : head.length ≤ addrtmp.length)
    (hflag : (flags &&& AHAS_HEAD != 0) = decide (head.length > 0)) :
    Reads (readHead flags addrtmp)
      (if head.length > 0 then UInt8.ofNat head.length :: head else [])
      (head.length, head ++ addrtmp.drop head.length) := by
  obtain ⟨hread, htoNat⟩ := reads_lengthOctet hlt
  unfold readHead
  simp only [← bne_iff_ne, hflag, decide_eq_true_eq]
  by_cases hpos : head.length > 0
  · rw [if_pos hpos, if_pos hpos]
    have hinto := reads_readInto (rfl : head.length = head.length)
      (by omega : 0 + head.length ≤ addrtmp.length)
    rw [take_zero, nil_append, Nat.zero_add] at hinto
    change Reads _ ([UInt8.ofNat head.length] ++ head) _
    refine hread.bind ?_
    rw [htoNat]
    exact hinto.map fun addrtmp => (head.length, addrtmp)
  · have hnil : head = [] := eq_nil_of_length_eq_zero (by omega)
    rw [if_neg hpos, if_neg hpos, hnil]
    exact reads_done _

/-- The tail reads back under its flags. -/
theorem reads_readTail (addrtmp : Address) {tail : List UInt8} (hlt : tail.length < 256)
    (hle : tail.length ≤ addrtmp.length)
    (hzero : HasZeroTail tail = true → addrtmp.drop (addrtmp.length - tail.length) = tail)
    (hxor : ((flags &&& AHAS_FULL_TAIL) ^^^ (flags &&& AHAS_ZERO_TAIL) != 0) =
      decide (tail.length > 0))
    (hfull : (flags &&& AHAS_FULL_TAIL != 0) =
      (decide (tail.length > 0) && !HasZeroTail tail)) :
    Reads (readTail flags addrtmp) (tailCode tail).2
      (tail.length, addrtmp.take (addrtmp.length - tail.length) ++ tail) := by
  obtain ⟨hread, htoNat⟩ := reads_lengthOctet hlt
  unfold readTail tailCode
  simp only [← bne_iff_ne, hxor, hfull, decide_eq_true_eq, Bool.and_eq_true, Bool.not_eq_true']
  by_cases hpos : tail.length > 0
  · rw [if_pos hpos, if_pos hpos]
    cases hzero' : HasZeroTail tail with
    | true =>
      have hsame : addrtmp.take (addrtmp.length - tail.length) ++ tail = addrtmp :=
        (congrArg (addrtmp.take (addrtmp.length - tail.length) ++ ·) (hzero hzero').symm).trans
          (take_append_drop ..)
      rw [if_pos rfl, hsame]
      change Reads _ ([UInt8.ofNat tail.length] ++ []) _
      refine hread.bind ?_
      rw [if_neg (by simp), htoNat]
      exact reads_done _
    | false =>
      rw [if_neg Bool.false_ne_true]
      change Reads _ ([UInt8.ofNat tail.length] ++ tail) _
      refine hread.bind ?_
      rw [if_pos ⟨hpos, rfl⟩, htoNat, if_neg (by omega)]
      have hinto := reads_readInto (rfl : tail.length = tail.length)
        (by omega : addrtmp.length - tail.length + tail.length ≤ addrtmp.length)
      rw [Nat.sub_add_cancel hle, drop_length, append_nil] at hinto
      exact hinto.map fun addrtmp => (tail.length, addrtmp)
  · have hnil : tail = [] := eq_nil_of_length_eq_zero (by omega)
    rw [if_neg hpos, if_neg hpos, hnil, length_nil, Nat.sub_zero, take_length,
      append_nil]
    exact reads_done _

/-- The flags for a head, a tail and prefixes. -/
def bodyFlags (head tail prefixes : List UInt8) : UInt8 :=
  (if head.length > 0 then AHAS_HEAD else 0) ||| (tailCode tail).1 ||| GetPrefixFlags prefixes

/-- The flags of a body, tested as the reader does. -/
theorem bodyFlags_tests (head tail prefixes : List UInt8) :
    (bodyFlags head tail prefixes &&& AHAS_HEAD != 0) = decide (head.length > 0) ∧
    ((bodyFlags head tail prefixes &&& AHAS_FULL_TAIL) ^^^
      (bodyFlags head tail prefixes &&& AHAS_ZERO_TAIL) != 0) = decide (tail.length > 0) ∧
    (bodyFlags head tail prefixes &&& AHAS_FULL_TAIL != 0) =
      (decide (tail.length > 0) && !HasZeroTail tail) ∧
    (bodyFlags head tail prefixes &&& AHAS_SINGLE_PRE_LEN != 0) =
      (decide (prefixes.length > 0) && !decide (prefixes.length > 1)) ∧
    (bodyFlags head tail prefixes &&& AHAS_MULTI_PRE_LEN != 0) =
      (decide (prefixes.length > 0) && decide (prefixes.length > 1)) := by
  have h := flags_tests (decide (head.length > 0)) (decide (tail.length > 0)) (HasZeroTail tail)
    (decide (prefixes.length > 0)) (decide (prefixes.length > 1))
  simp only [decide_eq_true_eq] at h
  rw [← tailCode_flag, ← GetPrefixFlags_eq] at h
  exact h

/-- A count that fits its octet is positive if it is. -/
theorem numaddr_pos (hn : n < 256) : UInt8.ofNat n > 0 ↔ 0 < n := by
  rw [gt_iff_lt, UInt8.lt_iff_toNat_lt, UInt8.toNat_ofNat', Nat.mod_eq_of_lt hn]
  rfl

/-- The head and the tail are read, whatever follows. -/
theorem reads_ends {head tail : List UInt8} (hsum : head.length + tail.length ≤ length)
    (hlt : length < 256) (prefixes : List UInt8) :
    Reads (readHead (bodyFlags head tail prefixes) (List.replicate length 0))
      (if head.length > 0 then UInt8.ofNat head.length :: head else [])
      (head.length, head ++ List.replicate (length - head.length) 0) ∧
    Reads (readTail (bodyFlags head tail prefixes)
        (head ++ List.replicate (length - head.length) 0))
      (tailCode tail).2
      (tail.length, head ++ List.replicate (length - head.length - tail.length) 0 ++ tail) := by
  obtain ⟨hhead, hxor, hfull, -⟩ := bodyFlags_tests head tail prefixes
  have hlength : (head ++ List.replicate (length - head.length) (0 : UInt8)).length = length := by
    rw [length_append, length_replicate]
    omega
  constructor
  · have h := reads_readHead (List.replicate length 0) (by omega)
      (by rw [length_replicate]; omega) hhead
    rwa [drop_replicate] at h
  · have h := reads_readTail (head ++ List.replicate (length - head.length) 0)
      (by omega) (by omega) (fun hzero => ?_) hxor hfull
    · rw [hlength, take_append, take_of_length_le (by omega), take_replicate,
        min_eq_left (by omega)] at h
      rwa [Nat.sub_right_comm]
    · rw [hlength, drop_append, drop_eq_nil_of_le (by omega), nil_append,
        drop_replicate]
      refine (eq_replicate_iff.mpr ⟨by omega, fun octet hmem => ?_⟩).symm
      exact eq_of_beq (all_eq_true.mp hzero octet hmem)

/-- Addresses with a common head and a common tail, that are not all there is of them. -/
theorem reads_readBody (head tail prefixes : List UInt8) (mids : List (List UInt8))
    (hlt : length < 256) (hsum : head.length + tail.length ≤ length)
    (hmids : ∀ mid ∈ mids, mid.length = length - head.length - tail.length)
    (hpos : 0 < mids.length) (hle : mids.length ≤ 255)
    (hprefixes : prefixes.length = 0 ∨ prefixes.length = 1 ∨ prefixes.length = mids.length) :
    Reads (readBody length (UInt8.ofNat mids.length) (bodyFlags head tail prefixes))
      ((if head.length > 0 then UInt8.ofNat head.length :: head else []) ++ (tailCode tail).2 ++
        mids.flatten ++ prefixes)
      (mids.map fun mid => head ++ mid ++ tail, prefixes) := by
  obtain ⟨-, -, -, hsingle, hmulti⟩ := bodyFlags_tests head tail prefixes
  obtain ⟨hhead, htail⟩ := reads_ends hsum hlt prefixes
  have hnum : (UInt8.ofNat mids.length).toNat = mids.length := by
    rw [UInt8.toNat_ofNat', Nat.mod_eq_of_lt (by omega)]
  have hsize : (ofNat length - ofNat head.length - ofNat tail.length).toNat =
      length - head.length - tail.length := by
    rw [← ofNat_sub (by omega), ← ofNat_sub (by omega), toNat_ofNat',
      Nat.mod_eq_of_lt (by omega)]
  have hlength : (head ++ List.replicate (length - head.length - tail.length) (0 : UInt8) ++
      tail).length = length := by
    rw [length_append, length_append, length_replicate]
    omega
  have haddresses := reads_readAddresses hmids
    (by omega : head.length + (length - head.length - tail.length) ≤
      (head ++ List.replicate (length - head.length - tail.length) (0 : UInt8) ++ tail).length)
  rw [append_assoc, take_left, ← append_assoc, drop_left'
    (by rw [length_append, length_replicate])] at haddresses
  unfold readBody
  rw [if_pos ((numaddr_pos (by omega)).mpr hpos), append_assoc, append_assoc]
  refine hhead.bind (htail.bind ?_)
  dsimp only
  rw [hsize, hnum]
  exact haddresses.bind ((reads_readPrefixes hprefixes hsingle hmulti).map
    fun prefixes => (mids.map fun mid => head ++ mid ++ tail, prefixes))

/-- Addresses that are all the same have a head and a tail that are too long together. -/
theorem readBody_same (hpos : 0 < length) (hlt : length < 256) (hy : y.length = length)
    {n : ℕ} (hn : 0 < n) (hle : n ≤ 255) (prefixes more : List UInt8) :
    readBody length (UInt8.ofNat n) (bodyFlags y y prefixes)
      ((if y.length > 0 then UInt8.ofNat y.length :: y else []) ++ (tailCode y).2 ++ more) =
        .error .undefined := by
  obtain ⟨hflag, hxor, hfull, -⟩ := bodyFlags_tests y y prefixes
  have hhead := reads_readHead (List.replicate length 0) (by omega)
    (by rw [length_replicate]; omega) hflag
  rw [drop_replicate, hy, Nat.sub_self, replicate_zero, append_nil] at hhead
  have htail := reads_readTail y (by omega) (Nat.le_refl _)
    (fun _ => by rw [Nat.sub_self, drop_zero]) hxor hfull
  rw [Nat.sub_self, take_zero, nil_append] at htail
  have hnum : (UInt8.ofNat n).toNat = n := by
    rw [UInt8.toNat_ofNat', Nat.mod_eq_of_lt (by omega)]
  obtain ⟨n, rfl⟩ := Nat.exists_eq_succ_of_ne_zero (Nat.ne_of_gt hn)
  -- The size of the middle part is below zero, and a large number as it is read.
  have hsize : y.length < length +
      (ofNat length - ofNat length - ofNat y.length).toNat := by
    rw [sub_self, toNat_sub, toNat_ofNat', toNat_zero]
    omega
  unfold readBody PrefixCode.bind
  rw [if_pos ((numaddr_pos (by omega)).mpr hn), append_assoc, hy, hhead]
  dsimp only
  rw [htail]
  dsimp only
  rw [hnum, readAddresses]
  unfold PrefixCode.bind readInto
  rw [if_pos hsize]

section

variable {address : Address} (hle : headlen + taillen ≤ length) (hy : y.length = length)
  (ha : address.length = length)

include hle hy ha

/-- An address with the head and the tail of another one. -/
theorem getElem?_merged (i : ℕ) :
    (y.take headlen ++ (address.drop headlen).take (length - headlen - taillen) ++
        y.drop (length - taillen))[i]? =
      if i < headlen then y[i]? else if i < length - taillen then address[i]? else y[i]? := by
  have hhead : (y.take headlen).length = headlen := length_take_of_le (by omega)
  have hmid : ((address.drop headlen).take (length - headlen - taillen)).length =
      length - headlen - taillen := length_take_of_le (by rw [length_drop]; omega)
  rw [List.getElem?_append, List.getElem?_append, length_append, hhead, hmid]
  by_cases hi : i < headlen
  · rw [if_pos (by omega), if_pos hi, if_pos hi, List.getElem?_take, if_pos hi]
  · rw [if_neg hi]
    by_cases hi' : i < length - taillen
    · rw [if_pos (by omega), if_neg hi, if_pos hi', List.getElem?_take, if_pos (by omega),
        List.getElem?_drop, Nat.add_sub_cancel' (Nat.le_of_not_lt hi)]
    · have hmiddle : headlen + (length - headlen - taillen) = length - taillen := by omega
      rw [hmiddle, if_neg hi', if_neg hi', if_neg hi, List.getElem?_drop,
        Nat.add_sub_cancel' (Nat.le_of_not_lt hi')]

/-- An address is put together right if and only if the tails agree. -/
theorem merged_eq_iff (hhead : ∀ i < headlen, y[i]? = address[i]?) :
    y.take headlen ++ (address.drop headlen).take (length - headlen - taillen) ++
        y.drop (length - taillen) = address ↔
      ∀ i < length, length - taillen ≤ i → y[i]? = address[i]? := by
  refine ⟨fun heq i hi htail => ?_, fun htail => ext_getElem? fun i => ?_⟩
  · rw [← heq, getElem?_merged hle hy ha, if_neg (by omega), if_neg (by omega)]
  · rw [getElem?_merged hle hy ha]
    split_ifs with hi hi'
    · exact hhead i hi
    · rfl
    · by_cases hlt : i < length
      · exact htail i hlt (Nat.le_of_not_lt hi')
      · rw [List.getElem?_eq_none (by omega), List.getElem?_eq_none (by omega)]

end

/-- The addresses and prefixes are read back just if the head and the tail are right. -/
theorem readsJust_readBody (h : b.WellFormed length) (hpos : 0 < length) (hlt : length < 256) :
    ReadsJust (readBody length (UInt8.ofNat b.m_addressList.length) (addressCode length b).1)
      (addressCode length b).2 (b.m_addressList, b.m_prefixList)
      ((b.m_addressList = [] → b.m_prefixList = []) ∧
        (2 ≤ b.m_addressList.length → TailShared length b.m_addressList)) := by
  obtain ⟨addresses, prefixes, tlvs⟩ := b
  obtain ⟨hle, hlen, hprefixes, -⟩ := h
  dsimp only at hle hlen hprefixes ⊢
  match addresses with
  | [] =>
    refine (reads_done (([] : List Address), ([] : List UInt8))).readsJust_eq.congr ?_
    simp [eq_comm]
  | [address] =>
    -- one address has neither a head nor a tail
    have hone : prefixes.length = 0 ∨ prefixes.length = 1 := by
      simp only [length_singleton] at hprefixes
      omega
    have hcode : addressCode length ⟨[address], prefixes, tlvs⟩ =
        (bodyFlags [] [] prefixes, [address].flatten ++ prefixes) := by
      unfold addressCode bodyFlags tailCode
      match prefixes, hone with
      | [], _ => simp [GetPrefixFlags]
      | [pfx], _ => simp [GetPrefixFlags]
    have hread := reads_readBody [] [] prefixes [address] hlt (Nat.zero_le _)
      (by simpa using hlen) (by simp) (by simp) (by simpa using hprefixes)
    rw [map_singleton, nil_append, append_nil] at hread
    rw [hcode]
    exact hread.readsJust.congr ⟨fun _ => ⟨nofun, fun htwo => by simp at htwo⟩, fun _ => trivial⟩
  | first :: second :: rest =>
    obtain ⟨headlen, taillen, y, hy, hfound, hlehead, hletail, hhead, hsame, hapart, -, -,
      hshared⟩ := getHeadTail_spec hpos hlen (Nat.le_add_left 2 rest.length)
    have hcode : addressCode length ⟨first :: second :: rest, prefixes, tlvs⟩ =
        (bodyFlags (y.take headlen) (y.drop (length - taillen)) prefixes,
          (if (y.take headlen).length > 0 then
            UInt8.ofNat (y.take headlen).length :: y.take headlen else []) ++
          (tailCode (y.drop (length - taillen))).2 ++
          (if (y.take headlen).length + (y.drop (length - taillen)).length < length then
            (first :: second :: rest).flatMap fun address =>
              (address.drop (y.take headlen).length).take
                (length - (y.take headlen).length - (y.drop (length - taillen)).length)
            else []) ++ prefixes) := by
      unfold addressCode
      dsimp only
      rw [hfound]
      rfl
    have hheadlen : (y.take headlen).length = headlen :=
      length_take_of_le (by rw [hlen y hy]; exact hlehead)
    have htaillen : (y.drop (length - taillen)).length = taillen := by
      rw [length_drop, hlen y hy]
      omega
    by_cases hlt' : headlen < length
    · have hsum := hapart hlt'
      have hmid : ∀ mid ∈ (first :: second :: rest).map fun address =>
          (address.drop headlen).take (length - headlen - taillen),
          mid.length = length - (y.take headlen).length -
            (y.drop (length - taillen)).length := by
        intro mid hmid
        obtain ⟨address, haddress, rfl⟩ := mem_map.mp hmid
        rw [hheadlen, htaillen, length_take, length_drop, hlen address haddress]
        omega
      -- what is read has the tail of one address everywhere
      have hread := reads_readBody (y.take headlen) (y.drop (length - taillen)) prefixes
        ((first :: second :: rest).map fun address =>
          (address.drop headlen).take (length - headlen - taillen))
        hlt (by omega) hmid (by simp) (by simpa using hle) (by simpa using hprefixes)
      rw [length_map, map_map, ← flatMap_def] at hread
      rw [hcode, hheadlen, htaillen, if_pos hsum]
      rw [hheadlen] at hread
      refine hread.readsJust_eq.congr ?_
      rw [Prod.mk.injEq, and_iff_left rfl]
      have hmerged : ∀ address ∈ first :: second :: rest,
          (y.take headlen ++ (address.drop headlen).take (length - headlen - taillen) ++
            y.drop (length - taillen) = address ↔
          ∀ i < length, length - taillen ≤ i → y[i]? = address[i]?) := fun address haddress =>
        merged_eq_iff (Nat.le_of_lt hsum) (hlen y hy) (hlen address haddress)
          fun i hi => hhead i hi y hy address haddress
      have hmap : (first :: second :: rest).map
          ((fun mid => y.take headlen ++ mid ++ y.drop (length - taillen)) ∘ fun address =>
            (address.drop headlen).take (length - headlen - taillen)) = first :: second :: rest ↔
          ∀ address ∈ first :: second :: rest,
            y.take headlen ++ (address.drop headlen).take (length - headlen - taillen) ++
              y.drop (length - taillen) = address :=
        (iff_of_eq (congrArg (List.map _ _ = ·) (map_id _).symm)).trans map_inj_left
      have hagree : (∀ address ∈ first :: second :: rest,
            y.take headlen ++ (address.drop headlen).take (length - headlen - taillen) ++
              y.drop (length - taillen) = address) ↔
          ∀ i < length, length - taillen ≤ i → AgreeAt (first :: second :: rest) i :=
        ⟨fun h i hi htail x hx z hz => ((hmerged x hx).mp (h x hx) i hi htail).symm.trans
          ((hmerged z hz).mp (h z hz) i hi htail), fun h address haddress =>
          (hmerged address haddress).mpr fun i hi htail => h i hi htail y hy address haddress⟩
      rw [hmap, hagree, ← and_iff_right hlt' (b := ∀ i < length, _), hshared]
      simp
    · -- the addresses are all the same: the head is all of them, and a tail follows
      have hfull : headlen = length := Nat.le_antisymm hlehead (Nat.le_of_not_lt hlt')
      have htail := hsame hfull
      have hy' : y.take headlen = y := take_of_length_le (by rw [hlen y hy, hfull])
      have hy'' : y.drop (length - taillen) = y := by rw [htail, Nat.sub_self, drop_zero]
      have hfalse : ¬ TailShared length (first :: second :: rest) :=
        fun h => hlt' (hshared.mpr h).1
      refine ⟨fun h => absurd (h.2 (by simp)) hfalse, fun rest' rest'' hread => ?_⟩
      rw [hcode, hy', hy''] at hread
      dsimp only at hread
      rw [append_assoc, append_assoc,
        readBody_same hpos hlt (hlen y hy) (by simp) hle] at hread
      cases hread

/-- An address block reads back as itself if and only if it is kept. -/
theorem readsJust_Deserialize (h : b.WellFormed length) (hpos : 0 < length)
    (hlt : length < 256) :
    ReadsJust (Deserialize length) (Serialize length b) b (b.Kept length) := by
  have htlvs := (PbbTlvBlock.readsJust_Deserialize h.tlvs).map
    (f := fun tlvs => PbbAddressBlock.mk b.m_addressList b.m_prefixList tlvs)
    fun tlvs heq => congrArg PbbAddressBlock.m_addressTlvList heq
  have hcode : Serialize length b = [UInt8.ofNat b.m_addressList.length] ++
      ([(addressCode length b).1] ++ ((addressCode length b).2 ++
        PbbTlvBlock.Serialize b.m_addressTlvList)) := rfl
  rw [hcode]
  unfold Deserialize
  refine ReadsJust.congr ((reads_ReadU8 _).bind_readsJust ((reads_ReadU8 _).bind_readsJust
    ((readsJust_readBody h hpos hlt).bind htlvs fun a' input rest hread => ?_)))
    ⟨fun ⟨⟨hprefixes, haddresses⟩, htlvs⟩ => ⟨hprefixes, haddresses, htlvs⟩,
      fun h => ⟨⟨h.prefixes, h.addresses⟩, h.tlvs⟩⟩
  obtain ⟨tlvs, input', -, hdone⟩ := bind_eq_ok.mp hread
  simp only [done, Except.ok.injEq, Prod.mk.injEq] at hdone
  exact Prod.ext (congrArg PbbAddressBlock.m_addressList hdone.1)
    (congrArg PbbAddressBlock.m_prefixList hdone.1)

/-- An address block is written as at least one octet. -/
theorem Serialize_ne_nil (length : ℕ) (b : PbbAddressBlock) : Serialize length b ≠ [] :=
  cons_ne_nil _ _

/-- The octets of a tail. -/
theorem length_tailCode (tail : List UInt8) : (tailCode tail).2.length =
    if tail.length > 0 then 1 + (if !HasZeroTail tail then tail.length else 0) else 0 := by
  unfold tailCode
  by_cases hpos : tail.length > 0
  · rw [if_pos hpos, if_pos hpos]
    cases HasZeroTail tail with
    | true => rfl
    | false => exact Nat.add_comm ..
  · rw [if_neg hpos, if_neg hpos]
    rfl

/-- The octets of addresses of one length. -/
theorem length_flatMap_of_forall {f : Address → List UInt8}
    (h : ∀ address ∈ addresses, (f address).length = size) :
    (addresses.flatMap f).length = size * addresses.length := by
  induction addresses with
  | nil => rfl
  | cons address addresses ih =>
    obtain ⟨ha, has⟩ := forall_mem_cons.mp h
    rw [flatMap_cons, length_append, ha, ih has, length_cons, Nat.mul_succ,
      Nat.add_comm]

/-- The octets of several addresses with a head and a tail that are found rightly. -/
theorem length_addressCode {prefixes : List UInt8} {tlvs : List PbbTlv} {first second : Address}
    {rest : List Address} (hpos : 0 < length)
    (hlen : ∀ address ∈ first :: second :: rest, address.length = length)
    (hshared : TailShared length (first :: second :: rest)) :
    2 + (addressCode length ⟨first :: second :: rest, prefixes, tlvs⟩).2.length +
        (PbbTlvBlock.Serialize tlvs).length =
      octets length ⟨first :: second :: rest, prefixes, tlvs⟩ := by
  obtain ⟨hfound, hsum⟩ := hshared.getHeadTail_eq hpos hlen (Nat.le_add_left 2 rest.length)
    mem_cons_self
  have hfirst := hlen first mem_cons_self
  unfold octets addressCode
  rw [PbbTlvBlock.length_Serialize]
  dsimp only
  rw [hfound]
  dsimp only
  generalize headOctets length (first :: second :: rest) = headlen at *
  generalize tailOctets length (first :: second :: rest) = taillen at *
  have hheadlen : (first.take headlen).length = headlen := length_take_of_le (by omega)
  have htaillen : (first.drop (length - taillen)).length = taillen := by
    rw [length_drop]
    omega
  have hmid : ((first :: second :: rest).flatMap fun address =>
      (address.drop headlen).take (length - headlen - taillen)).length =
      (length - headlen - taillen) * (first :: second :: rest).length :=
    length_flatMap_of_forall fun address haddress => by
      rw [length_take, length_drop, hlen address haddress]
      omega
  have hhead : (if headlen > 0 then UInt8.ofNat headlen :: first.take headlen else []).length =
      if headlen > 0 then 1 + headlen else 0 := by
    split_ifs
    · rw [length_cons, hheadlen, Nat.add_comm]
    · rfl
  rw [hheadlen, htaillen, if_pos hsum, length_append, length_append, length_append,
    hmid, length_tailCode, htaillen, hhead]

/-- The octets of an address block. -/
theorem length_Serialize (h : b.WellFormed length) (hkept : b.Kept length) (hpos : 0 < length) :
    (Serialize length b).length = octets length b := by
  have hcode : (Serialize length b).length = 2 + (addressCode length b).2.length +
      (PbbTlvBlock.Serialize b.m_addressTlvList).length := by
    unfold Serialize
    dsimp only
    rw [length_append, length_cons, length_cons]
    omega
  rw [hcode]
  obtain ⟨addresses, prefixes, tlvs⟩ := b
  obtain ⟨hle, hlen, hprefixes, -⟩ := h
  have hshared := hkept.addresses
  have hnone := hkept.prefixes
  clear hkept hcode
  dsimp only at hle hlen hprefixes hshared hnone ⊢
  match addresses with
  | [] =>
    rw [hnone rfl, PbbTlvBlock.length_Serialize]
    rfl
  | [address] =>
    have ha := hlen address (mem_singleton_self address)
    have hone : prefixes.length = 0 ∨ prefixes.length = 1 := by
      simp only [length_singleton] at hprefixes
      omega
    have hfields : (addressCode length ⟨[address], prefixes, tlvs⟩).2.length =
        length + prefixes.length := by
      unfold addressCode
      match prefixes, hone with
      | [], _ => exact ha
      | [pfx], _ => rw [length_append, ha]
    rw [hfields, PbbTlvBlock.length_Serialize]
    rfl
  | first :: second :: rest =>
    exact length_addressCode hpos hlen (hshared (Nat.le_add_left 2 rest.length))

/-- The size an address block says of itself. -/
theorem GetSerializedSize_eq (h : b.WellFormed length) (hkept : b.Kept length)
    (hpos : 0 < length) :
    b.GetSerializedSize length = ofNat (octets length b) := by
  have hparts (n n' n'' : ℕ) : ofNat (2 + (n + n') + n'') =
      2 + (ofNat n + ofNat n') + ofNat n'' := by
    rw [ofNat_add, ofNat_add, ofNat_add]
    rfl
  unfold GetSerializedSize octets
  rw [PbbTlvBlock.GetSerializedSize_eq hkept.tlvs, hparts]
  refine congrArg (2 + · + ofNat (2 + PbbTlvBlock.octets b.m_addressTlvList)) ?_
  obtain ⟨addresses, prefixes, tlvs⟩ := b
  have hlen := h.address
  have hshared := hkept.addresses
  have hnone := hkept.prefixes
  clear h hkept
  dsimp only at hlen hshared hnone ⊢
  match addresses with
  | [] =>
    rw [hnone rfl]
    rfl
  | [address] => rfl
  | first :: second :: rest =>
    obtain ⟨hfound, hsum⟩ := (hshared (Nat.le_add_left 2 rest.length)).getHeadTail_eq hpos hlen
      (Nat.le_add_left 2 rest.length) mem_cons_self
    have hfirst := hlen first mem_cons_self
    rw [hfound, if_neg (by simp), if_pos (by simp)]
    dsimp only
    generalize headOctets length (first :: second :: rest) = headlen at *
    generalize tailOctets length (first :: second :: rest) = taillen at *
    have hheadlen : (first.take headlen).length = headlen := length_take_of_le (by omega)
    have htaillen : (first.drop (length - taillen)).length = taillen := by
      rw [length_drop]
      omega
    rw [hheadlen, htaillen, ofNat_add, ofNat_add, ofNat_mul,
      ofNat_sub (by omega), ofNat_sub (by omega)]
    congr 3
    · split_ifs
      · rw [ofNat_add]
        rfl
      · rfl
    · split_ifs
      · rw [ofNat_add]
        rfl
      · rfl
      · rfl

end PbbAddressBlock

/-! ### Messages -/

namespace PbbMessage

variable {m : PbbMessage}

/-- The flags of a message, tested as the reader does. -/
theorem flags_tests (addrSize : PbbAddressLength) (originator hopLimit hopCount number : Bool) :
    let flags := UInt8.ofNat addrSize.value ||| (if originator then MHAS_ORIG else 0) |||
      (if hopLimit then MHAS_HOP_LIMIT else 0) ||| (if hopCount then MHAS_HOP_COUNT else 0) |||
      (if number then MHAS_SEQ_NUM else 0)
    (flags &&& MHAS_ORIG != 0) = originator ∧ (flags &&& MHAS_HOP_LIMIT != 0) = hopLimit ∧
    (flags &&& MHAS_HOP_COUNT != 0) = hopCount ∧ (flags &&& MHAS_SEQ_NUM != 0) = number ∧
    flags &&& 0xf = UInt8.ofNat addrSize.value := by
  cases addrSize <;> revert originator hopLimit hopCount number <;> decide

/-- An optional octet reads back. -/
theorem reads_optionalOctet (octet : Option UInt8) :
    Reads (optional octet.isSome ReadU8) octet.toList octet := by
  cases octet with
  | none => exact reads_optional_none _
  | some octet => exact (reads_ReadU8 octet).optional_some

/-- An optional number reads back. -/
theorem reads_optionalNumber (number : Option UInt16) :
    Reads (optional number.isSome ReadNtohU16) (numberCode number)
      (number.map UInt16.toNat) := by
  cases number with
  | none => exact reads_optional_none _
  | some number =>
    have h := reads_ReadNtohU16 number.toNat
    rw [Nat.mod_eq_of_lt number.toNat_lt] at h
    exact h.optional_some

/-- The conversion of an optional number and back. -/
theorem map_ofNat_toNat (number : Option UInt16) :
    (number.map UInt16.toNat).map UInt16.ofNat = number := by
  cases number with
  | none => rfl
  | some number => exact congrArg some UInt16.ofNat_toNat

/-- What is written before the TLVs. -/
def headerCode (m : PbbMessage) : List UInt8 :=
  [m.m_type] ++ [m.flags] ++ WriteHtonU16 (4 + m.fieldCode.length + m.blockCode.length) ++
    m.m_originatorAddress.getD [] ++ m.m_hopLimit.toList ++ m.m_hopCount.toList ++
    numberCode m.m_sequenceNumber

/-- Reading the fields of a message goes on with its blocks. -/
theorem readFields_eq (h : m.WellFormed) (input : List UInt8) :
    readFields m.m_addrSize (m.headerCode ++ input) =
      bind PbbTlvBlock.Deserialize (fun tlvs => done
        ((4 + m.fieldCode.length + m.blockCode.length) % 65536,
          { m with m_tlvList := tlvs, m_addressBlockList := [] })) input := by
  obtain ⟨horiginator, hhopLimit, hhopCount, hnumber, -⟩ := flags_tests m.m_addrSize
    m.m_originatorAddress.isSome m.m_hopLimit.isSome m.m_hopCount.isSome
    m.m_sequenceNumber.isSome
  have haddress : Reads (optional m.m_originatorAddress.isSome (Read (m.m_addrSize.value + 1)))
      (m.m_originatorAddress.getD []) m.m_originatorAddress := by
    cases hsome : m.m_originatorAddress with
    | none => exact reads_optional_none _
    | some address => exact (reads_Read (h.originator address hsome)).optional_some
  unfold readFields headerCode
  simp only [append_assoc]
  rw [(reads_ReadU8 _).bind_eq, (reads_ReadU8 _).bind_eq, (reads_ReadNtohU16 _).bind_eq]
  unfold flags
  rw [horiginator, haddress.bind_eq, hhopLimit, (reads_optionalOctet _).bind_eq, hhopCount,
    (reads_optionalOctet _).bind_eq, hnumber, (reads_optionalNumber _).bind_eq, map_ofNat_toNat]

/-- A message is its header, its TLVs and its address blocks. -/
theorem Serialize_eq (m : PbbMessage) :
    m.Serialize = (m.headerCode ++ PbbTlvBlock.Serialize m.m_tlvList) ++ m.blockCode := by
  have hfields : [m.m_type] ++ [m.flags] ++
      WriteHtonU16 (4 + m.fieldCode.length + m.blockCode.length) ++ m.fieldCode =
      m.headerCode ++ PbbTlvBlock.Serialize m.m_tlvList := by
    unfold headerCode
    simp only [fieldCode, append_assoc]
  rw [← hfields]
  rfl

/-- The octets of a message's header with its TLVs. -/
theorem length_headerCode (m : PbbMessage) :
    (m.headerCode ++ PbbTlvBlock.Serialize m.m_tlvList).length = 4 + m.fieldCode.length := by
  have h := congrArg List.length m.Serialize_eq
  have hserialize : m.Serialize.length = 4 + m.fieldCode.length + m.blockCode.length := by
    unfold Serialize
    rw [length_cons, length_cons, length_append, length_append,
      PbbTlv.length_WriteHtonU16]
    omega
  rw [hserialize, length_append] at h
  omega

/-- The length of an address is positive and fits an octet. -/
theorem addressLength_lt (m : PbbMessage) : 0 < m.addressLength ∧ m.addressLength < 256 := by
  unfold addressLength
  cases m.m_addrSize <;> exact ⟨by decide, by decide⟩

/-- The octets of an optional number. -/
theorem length_numberCode (number : Option UInt16) :
    (numberCode number).length = if number.isSome then 2 else 0 := by
  cases number with
  | none => rfl
  | some number => exact PbbTlv.length_WriteHtonU16 _

/-- The octets of a message's fields. -/
theorem length_fieldCode (h : m.WellFormed) : 4 + m.fieldCode.length = m.fieldOctets := by
  have horiginator : (m.m_originatorAddress.getD []).length =
      if m.m_originatorAddress.isSome then m.addressLength else 0 := by
    cases hsome : m.m_originatorAddress with
    | none => rfl
    | some address => exact h.originator address hsome
  unfold fieldCode fieldOctets
  rw [length_append, length_append, length_append, length_append, horiginator,
    length_numberCode, PbbTlv.length_toList, PbbTlv.length_toList, PbbTlvBlock.length_Serialize]
  omega

/-- The octets of a message's address blocks. -/
theorem length_blockCode (h : m.WellFormed)
    (hkept : ∀ b ∈ m.m_addressBlockList, b.Kept m.addressLength) :
    m.blockCode.length = m.blockOctets :=
  Tiles.length_flatMap fun b hb =>
    PbbAddressBlock.length_Serialize (h.blocks b hb) (hkept b hb) m.addressLength_lt.1

/-- The loop for the address blocks. -/
def readBlocks (m : PbbMessage) (size : ℕ) : Reading PbbMessage :=
  bind (readWhile (PbbAddressBlock.Deserialize m.addressLength) .diverges size size)
    fun blocks => done { m with m_addressBlockList := blocks }

/-- The address blocks of a message read back to the end of the message. -/
theorem readsJust_readBlocks (h : m.WellFormed) (size : ℕ) :
    ReadsJust (readBlocks { m with m_addressBlockList := [] } size) m.blockCode m
      ((∀ b ∈ m.m_addressBlockList, b.Kept m.addressLength) ∧
        Reaches (PbbAddressBlock.octets m.addressLength) size m.m_addressBlockList) := by
  obtain ⟨hpos, hlt⟩ := m.addressLength_lt
  have hblocks := (readsJust_readWhile Fault.diverges
    (fun b hb => PbbAddressBlock.readsJust_Deserialize (h.blocks b hb) hpos hlt)
    (PbbAddressBlock.Serialize_ne_nil m.addressLength) size size (Nat.le_refl _)).map
    (f := fun blocks => { m with m_addressBlockList := blocks })
    fun blocks heq => congrArg m_addressBlockList heq
  exact hblocks.congr (and_congr_right fun hkept => reaches_congr (fun b hb =>
    PbbAddressBlock.length_Serialize (h.blocks b hb) (hkept b hb) hpos) size)

/-- A message reads back as itself if and only if it is kept. -/
theorem readsJust_Deserialize (h : m.WellFormed) :
    ReadsJust (Deserialize m.m_addrSize) m.Serialize m m.Kept := by
  have htlvs := PbbTlvBlock.readsJust_Deserialize h.tlvs
  set size := (4 + m.fieldCode.length + m.blockCode.length) % 65536 with hsize
  set x : (ℕ × PbbMessage) × ℕ :=
    ((size, { m with m_addressBlockList := [] }), 4 + m.fieldCode.length) with hx
  have hblocks : ReadsJust (readBlocks x.1.2 (x.1.1 - x.2)) m.blockCode m _ :=
    readsJust_readBlocks h (size - (4 + m.fieldCode.length))
  rw [Serialize_eq]
  refine ReadsJust.congr (ReadsJust.bind_of (a := x) (P := PbbTlvBlock.Kept m.m_tlvList)
    (T := fun x => x.1.2.m_tlvList = m.m_tlvList)
    (fun hkept => ?_) (fun rest x' input hread hsame => ?_) hblocks fun x' input rest hread => ?_)
    ⟨fun ⟨htlvs, hblocks, hsize'⟩ => ⟨htlvs, hblocks, ?_⟩,
      fun hkept => ⟨hkept.tlvs, hkept.blocks, ?_⟩⟩
  · rw [hx, ← length_headerCode]
    refine Reads.measured fun rest => ?_
    rw [append_assoc, readFields_eq h, (htlvs.reads hkept).bind_eq]
    rfl
  · have hfields := of_measured hread
    rw [append_assoc, readFields_eq h] at hfields
    obtain ⟨tlvs, input', hread', hdone⟩ := bind_eq_ok.mp hfields
    simp only [done, Except.ok.injEq, Prod.mk.injEq] at hdone
    rw [← hdone.1] at hsame
    obtain rfl : tlvs = m.m_tlvList := hsame
    exact htlvs.of_read rest input' hread'
  · obtain ⟨blocks, input', -, hdone⟩ := bind_eq_ok.mp hread
    simp only [done, Except.ok.injEq, Prod.mk.injEq] at hdone
    have htlvs' := congrArg m_tlvList hdone.1
    exact htlvs'
  · rwa [hsize, length_fieldCode h, length_blockCode h hblocks] at hsize'
  · rw [hsize, length_fieldCode h, length_blockCode h hkept.blocks]
    exact hkept.size

/-- The low bits of the flags are the length of the addresses. -/
theorem flags_addressLength (m : PbbMessage) :
    m.flags &&& 0xf = UInt8.ofNat m.m_addrSize.value :=
  (flags_tests m.m_addrSize m.m_originatorAddress.isSome m.m_hopLimit.isSome m.m_hopCount.isSome
    m.m_sequenceNumber.isSome).2.2.2.2

/-- A message reads back through the reader that skips unknown versions. -/
theorem readsJust_DeserializeMessage (h : m.WellFormed) :
    ReadsJust DeserializeMessage m.Serialize (some m) m.Kept := by
  have hread := (readsJust_Deserialize h).map (f := some) fun m' heq => Option.some.inj heq
  have hkind (rest : List UInt8) : DeserializeMessage (m.Serialize ++ rest) =
      bind (Deserialize m.m_addrSize) (fun m => done (some m)) (m.Serialize ++ rest) := by
    have hflags := m.flags_addressLength
    unfold DeserializeMessage Serialize
    dsimp only [cons_append]
    rw [hflags]
    cases m.m_addrSize <;> rfl
  exact ⟨fun hkept rest => (hkind rest).trans (hread.reads hkept rest),
    fun rest rest' hok => hread.of_read rest rest' ((hkind rest).symm.trans hok)⟩

theorem Serialize_ne_nil (m : PbbMessage) : m.Serialize ≠ [] := cons_ne_nil _ _

/-- The octets of a message. -/
theorem length_Serialize (h : m.WellFormed) (hkept : m.Kept) : m.Serialize.length = m.octets := by
  rw [Serialize_eq, length_append, length_headerCode, length_fieldCode h,
    length_blockCode h hkept.blocks]
  rfl

/-- The size a message says of itself. -/
theorem GetSerializedSize_eq (h : m.WellFormed) (hkept : m.Kept) :
    m.GetSerializedSize = ofNat m.octets := by
  have hfields : ofNat m.fieldOctets = 4 +
      (if m.m_originatorAddress.isSome then ofNat (m.m_addrSize.value + 1) else 0) +
      (if m.m_hopLimit.isSome then 1 else 0) + (if m.m_hopCount.isSome then 1 else 0) +
      (if m.m_sequenceNumber.isSome then 2 else 0) +
      ofNat (2 + PbbTlvBlock.octets m.m_tlvList) := by
    have hparts (a b d e n : ℕ) : ofNat (4 + a + b + d + e + n) = 4 + ofNat a +
        ofNat b + ofNat d + ofNat e + ofNat n := by
      simp only [ofNat_add]
      rfl
    unfold fieldOctets
    rw [hparts]
    simp only [apply_ite ofNat]
    rfl
  unfold GetSerializedSize
  rw [PbbTlvBlock.GetSerializedSize_eq hkept.tlvs, ← hfields]
  exact foldl_size (fun b hb => PbbAddressBlock.GetSerializedSize_eq (h.blocks b hb)
    (hkept.blocks b hb) m.addressLength_lt.1) m.fieldOctets

end PbbMessage

namespace PbbPacket

variable {p : PbbPacket}

/-- The flags of a packet, tested as the reader does. -/
theorem flags_tests (seqnum tlvs : Bool) :
    let flags := (VERSION <<< 4) ||| (if seqnum then PHAS_SEQ_NUM else 0) |||
      (if tlvs then PHAS_TLV else 0)
    (flags &&& PHAS_SEQ_NUM != 0) = seqnum ∧ (flags &&& PHAS_TLV != 0) = tlvs ∧
      flags >>> 4 = VERSION := by
  revert seqnum tlvs
  decide

/-- One round of the loop for the messages. -/
theorem readMessages_eq_cons {input rest : List UInt8} {rounds : ℕ} {m : PbbMessage}
    {messages : List PbbMessage} (hne : input ≠ []) :
    readMessages (rounds + 1) input = .ok (m :: messages, rest) ↔
      ∃ start, PbbMessage.DeserializeMessage input = .ok (some m, start) ∧
        readMessages rounds start = .ok (messages, rest) := by
  obtain ⟨octet, octets, rfl⟩ := exists_cons_of_ne_nil hne
  rw [readMessages]
  refine ⟨fun hok => ?_, fun ⟨start, hfirst, hloop⟩ => ?_⟩
  · split at hok
    · cases hok
    · cases hok
    · next newmsg start hfirst =>
      split at hok
      · cases hok
      · next messages' rest' hloop =>
        cases hok
        exact ⟨start, hfirst, hloop⟩
  · rw [hfirst]
    dsimp only
    rw [hloop]

/-- The messages are read back just if each of them is. -/
theorem readMessages_eq_iff {messages : List PbbMessage} (h : ∀ m ∈ messages, m.WellFormed)
    {rounds : ℕ} (hrounds : (messages.flatMap PbbMessage.Serialize).length ≤ rounds)
    (rest : List UInt8) :
    readMessages rounds (messages.flatMap PbbMessage.Serialize) = .ok (messages, rest) ↔
      rest = [] ∧ ∀ m ∈ messages, m.Kept := by
  induction messages generalizing rounds with
  | nil =>
    have hnil : readMessages rounds (([] : List PbbMessage).flatMap PbbMessage.Serialize) =
        .ok ([], []) := by
      unfold readMessages
      rfl
    rw [hnil]
    simp [eq_comm]
  | cons m messages ih =>
    obtain ⟨hm, hmessages⟩ := forall_mem_cons.mp h
    have hread := PbbMessage.readsJust_DeserializeMessage hm
    have hpos := length_pos_iff.mpr m.Serialize_ne_nil
    rw [flatMap_cons, length_append] at hrounds
    obtain ⟨rounds, rfl⟩ := Nat.exists_eq_succ_of_ne_zero (by omega : rounds ≠ 0)
    have ih' := ih hmessages (by omega : (messages.flatMap PbbMessage.Serialize).length ≤ rounds)
    rw [flatMap_cons, forall_mem_cons, readMessages_eq_cons
      (append_ne_nil_of_left_ne_nil m.Serialize_ne_nil _)]
    refine ⟨fun ⟨start, hfirst, hloop⟩ => ?_, fun ⟨hrest, hkept, hothers⟩ =>
      ⟨_, hread.reads hkept _, ih'.mpr ⟨hrest, hothers⟩⟩⟩
    -- what was read is the message, so that the loop goes on after it
    have hkept := hread.of_read _ _ hfirst
    rw [hread.reads hkept] at hfirst
    cases hfirst
    obtain ⟨hrest, hothers⟩ := ih'.mp hloop
    exact ⟨hrest, hkept, hothers⟩

/-- The flags that are written. -/
def flags (p : PbbPacket) : UInt8 :=
  (VERSION <<< 4) ||| (if p.m_seqnum.isSome then PHAS_SEQ_NUM else 0) |||
    (if p.m_tlvList ≠ [] then PHAS_TLV else 0)

/-- What is written for the TLVs. -/
def tlvCode (p : PbbPacket) : List UInt8 :=
  if p.m_tlvList ≠ [] then PbbTlvBlock.Serialize p.m_tlvList else []

/-- What is written before the messages. -/
def fieldCode (p : PbbPacket) : List UInt8 :=
  [p.flags] ++ (PbbMessage.numberCode p.m_seqnum ++ p.tlvCode)

theorem Serialize_eq (p : PbbPacket) :
    p.Serialize = p.fieldCode ++ p.m_messageList.flatMap PbbMessage.Serialize := rfl

/-- The TLVs of a packet read back under their flag. -/
theorem readsJust_tlvs (h : p.WellFormed) :
    ReadsJust (bind (optional (decide (p.m_tlvList ≠ [])) PbbTlvBlock.Deserialize) fun tlvs =>
      done (p.flags, p.m_seqnum, tlvs.getD [])) p.tlvCode (p.flags, p.m_seqnum, p.m_tlvList)
      (PbbTlvBlock.Kept p.m_tlvList) := by
  unfold tlvCode
  by_cases hnil : p.m_tlvList = []
  · rw [if_neg (not_not.mpr hnil), decide_eq_false (not_not.mpr hnil), hnil]
    refine ((reads_optional_none PbbTlvBlock.Deserialize).map fun tlvs =>
      (p.flags, p.m_seqnum, tlvs.getD [])).readsJust.congr ?_
    exact ⟨fun _ => ⟨nofun, rfl⟩, fun _ => trivial⟩
  · rw [if_pos hnil, decide_eq_true hnil]
    have hsome := (PbbTlvBlock.readsJust_Deserialize h.tlvs).map (f := some)
      fun tlvs heq => Option.some.inj heq
    refine hsome.map (f := fun tlvs => (p.flags, p.m_seqnum, tlvs.getD [])) fun tlvs heq => ?_
    have htlvs : tlvs.getD [] = p.m_tlvList := congrArg (·.2.2) heq
    cases tlvs with
    | none => exact absurd htlvs.symm hnil
    | some tlvs => exact congrArg some htlvs

/-- The fields of a packet read back. -/
theorem readsJust_readFields (h : p.WellFormed) :
    ReadsJust readFields p.fieldCode (p.flags, p.m_seqnum, p.m_tlvList)
      (PbbTlvBlock.Kept p.m_tlvList) := by
  obtain ⟨hseqnum, htlvs, -⟩ := flags_tests p.m_seqnum.isSome (decide (p.m_tlvList ≠ []))
  simp only [decide_eq_true_eq] at hseqnum htlvs
  refine (reads_ReadU8 p.flags).bind_readsJust ?_
  unfold flags
  rw [hseqnum, htlvs]
  refine (PbbMessage.reads_optionalNumber p.m_seqnum).bind_readsJust ?_
  rw [PbbMessage.map_ofNat_toNat]
  exact readsJust_tlvs h

/-- The flags are the first octet. -/
theorem flags_of_readFields {octet : UInt8} {octets rest : List UInt8}
    {x : UInt8 × Option UInt16 × List PbbTlv}
    (hread : readFields (octet :: octets) = .ok (x, rest)) : x.1 = octet := by
  obtain ⟨flags, input, hflags, hread⟩ := bind_eq_ok.mp hread
  obtain ⟨_, _, _, hread⟩ := bind_eq_ok.mp hread
  obtain ⟨_, _, _, hdone⟩ := bind_eq_ok.mp hread
  cases hflags
  cases hdone
  rfl

/-- A packet reads back as itself if and only if its TLVs and messages are kept. -/
theorem Deserialize_eq_iff (h : p.WellFormed) :
    Deserialize p.Serialize = .ok (p, p.Serialize.length) ↔
      PbbTlvBlock.Kept p.m_tlvList ∧ ∀ m ∈ p.m_messageList, m.Kept := by
  have hfields := readsJust_readFields h
  have hmessages := readMessages_eq_iff h.messages (Nat.le_refl _)
  unfold Deserialize
  rw [Serialize_eq]
  refine ⟨fun hok => ?_, fun ⟨htlvs, hkept⟩ => ?_⟩
  · match hread : readFields (p.fieldCode ++ p.m_messageList.flatMap PbbMessage.Serialize) with
    | .error e =>
      rw [hread] at hok
      cases hok
    | .ok ((flags, seqnum, tlvs), rest) =>
      have hflags := flags_of_readFields hread
      rw [hread] at hok
      simp only [Bind.bind, Except.bind] at hok
      match hloop : readMessages rest.length rest with
      | .error e =>
        rw [hloop] at hok
        cases hok
      | .ok (messages, rest') =>
        rw [hloop] at hok
        simp only [Except.ok.injEq, Prod.mk.injEq] at hok
        have hseqnum' := congrArg m_seqnum hok.1
        have htlvs' := congrArg m_tlvList hok.1
        have hmessages' := congrArg m_messageList hok.1
        dsimp only at hflags hseqnum' htlvs' hmessages'
        rw [hflags, hseqnum', htlvs'] at hread
        have htlvs := hfields.of_read _ _ hread
        rw [hfields.reads htlvs] at hread
        cases hread
        rw [hmessages'] at hloop
        exact ⟨htlvs, ((hmessages rest').mp hloop).2⟩
  · obtain ⟨-, -, hversion⟩ := flags_tests p.m_seqnum.isSome (decide (p.m_tlvList ≠ []))
    simp only [decide_eq_true_eq] at hversion
    have hread := hfields.reads htlvs (p.m_messageList.flatMap PbbMessage.Serialize)
    have hloop := (hmessages []).mpr ⟨rfl, hkept⟩
    simp only [Bind.bind, Except.bind, hread, hloop]
    rw [if_pos trivial, length_nil, Nat.sub_zero]
    have hflags : p.flags >>> 4 = p.m_version := hversion.trans h.version.symm
    rw [hflags]

/-- The octets of a packet. -/
theorem length_Serialize (h : p.WellFormed) (hkept : ∀ m ∈ p.m_messageList, m.Kept) :
    p.Serialize.length = p.octets := by
  have hmessages : (p.m_messageList.flatMap PbbMessage.Serialize).length =
      total PbbMessage.octets p.m_messageList :=
    Tiles.length_flatMap fun m hm => PbbMessage.length_Serialize (h.messages m hm) (hkept m hm)
  have htlvs : p.tlvCode.length =
      if p.m_tlvList ≠ [] then 2 + PbbTlvBlock.octets p.m_tlvList else 0 := by
    unfold tlvCode
    split_ifs
    · exact PbbTlvBlock.length_Serialize p.m_tlvList
    · rfl
  rw [Serialize_eq, length_append, hmessages]
  unfold fieldCode octets
  rw [length_append, length_append, length_singleton, htlvs,
    PbbMessage.length_numberCode]
  omega

/-- The size a packet says of itself. -/
theorem GetSerializedSize_eq (h : p.WellFormed) (htlvs : PbbTlvBlock.Kept p.m_tlvList)
    (hkept : ∀ m ∈ p.m_messageList, m.Kept) : p.GetSerializedSize = ofNat p.octets := by
  have hfields : ofNat (1 + (if p.m_seqnum.isSome then 2 else 0) +
      (if p.m_tlvList ≠ [] then 2 + PbbTlvBlock.octets p.m_tlvList else 0)) =
      1 + (if p.m_seqnum.isSome then 2 else 0) +
        (if p.m_tlvList ≠ [] then PbbTlvBlock.GetSerializedSize p.m_tlvList else 0) := by
    rw [PbbTlvBlock.GetSerializedSize_eq htlvs, ofNat_add, ofNat_add]
    simp only [apply_ite ofNat]
    rfl
  unfold GetSerializedSize
  rw [← hfields]
  exact foldl_size (fun m hm => PbbMessage.GetSerializedSize_eq (h.messages m hm) (hkept m hm)) _

/-- A packet is written in the size that is told, and read back as it was, just if it is
`Kept`. -/
theorem serialized_iff (p : PbbPacket) (h : p.WellFormed) :
    (p.Serialize.length = p.GetSerializedSize.toNat ∧
      Deserialize p.Serialize = .ok (p, p.Serialize.length)) ↔ p.Kept := by
  rw [Deserialize_eq_iff h]
  refine ⟨fun ⟨hsize, htlvs, hkept⟩ => ⟨htlvs, hkept, ?_⟩, fun hkept => ?_⟩
  · rw [← length_Serialize h hkept, hsize]
    exact toNat_lt _
  · refine ⟨?_, hkept.tlvs, hkept.messages⟩
    rw [length_Serialize h hkept.messages, GetSerializedSize_eq h hkept.tlvs hkept.messages,
      toNat_ofNat', Nat.mod_eq_of_lt hkept.size]

/-- A packet with a sequence number and a message, of two addresses with an octet in common in front
and one at the end, with a prefix each, and of a TLV for the second of them. -/
def twoAddresses : PbbPacket where
  m_version := VERSION
  m_seqnum := some 7
  m_tlvList := []
  m_messageList := [{
    m_addrSize := .IPV4
    m_type := 1
    m_originatorAddress := some [10, 0, 0, 1]
    m_hopLimit := some 255
    m_hopCount := none
    m_sequenceNumber := some 18
    m_tlvList := []
    m_addressBlockList := [{
      m_addressList := [[10, 1, 2, 9], [10, 3, 4, 9]]
      m_prefixList := [24, 16]
      m_addressTlvList := [{
        m_type := 2
        m_typeExt := none
        m_indexStart := some 1
        m_indexStop := some 1
        m_isMultivalue := false
        m_value := some [5, 6] }] }] }]

/-- A packet with two addresses that share head and tail. -/
theorem serialized_twoAddresses :
    twoAddresses.Serialize.length = twoAddresses.GetSerializedSize.toNat ∧
      Deserialize twoAddresses.Serialize = .ok (twoAddresses, twoAddresses.Serialize.length) :=
  (serialized_iff twoAddresses (by decide)).mpr (by decide)

/-- A packet with a message, of one address, with a TLV that has two values. -/
def twoValues : PbbPacket where
  m_version := VERSION
  m_seqnum := none
  m_tlvList := []
  m_messageList := [{
    m_addrSize := .IPV4
    m_type := 1
    m_originatorAddress := none
    m_hopLimit := none
    m_hopCount := none
    m_sequenceNumber := none
    m_tlvList := []
    m_addressBlockList := [{
      m_addressList := [[10, 0, 0, 1]]
      m_prefixList := []
      m_addressTlvList := [{
        m_type := 2
        m_typeExt := none
        m_indexStart := none
        m_indexStop := none
        m_isMultivalue := true
        m_value := some [5, 6] }] }] }]

/-- The flag for several values is written, and not read. -/
theorem not_serialized_twoValues :
    twoValues.WellFormed ∧ ¬ (twoValues.Serialize.length = twoValues.GetSerializedSize.toNat ∧
      Deserialize twoValues.Serialize = .ok (twoValues, twoValues.Serialize.length)) := by
  decide

end PbbPacket
end Ns3Joined.Network.PacketBb
