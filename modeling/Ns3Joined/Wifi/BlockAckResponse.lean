import Mathlib.Data.List.GetD
import Ns3Joined.Wifi.BlockAckHeader

/-!
# The block ack response over the wire

`CtrlBAckResponseHeader` (`ctrl-headers.cc`) with the fields of its control word: what
`Serialize` writes and `Deserialize` reads back. The words go least significant octet first.

* `CtrlBAckResponse.Serialize`, `CtrlBAckResponse.Deserialize`.
* `CtrlBAckResponseHeader.shifts`: by how much a word of the bitmap is shifted.
* `ResponseRight`: a number is told to be received when it was set, before and after the wire,
  and no shift is by the whole word or more.
* `responseRight_iff`: so it is unless a number beyond the first word of an extended bitmap is
  set or asked for.
-/

namespace Ns3Joined.Wifi

open CircularRange (distance)

/-! ### Words on the wire -/

/-- `Buffer::Iterator::WriteHtolsbU16` and `WriteHtolsbU64`: the octets of a number, least
significant first. -/
def WriteHtolsb : ℕ → ℕ → List UInt8
  | 0, _ => []
  | size + 1, data => UInt8.ofNat data :: WriteHtolsb size (data / 256)

/-- `Buffer::Iterator::ReadLsbtohU16` and `ReadLsbtohU64`, and what comes behind. -/
def ReadLsbtoh : ℕ → List UInt8 → Except Fault (ℕ × List UInt8)
  | 0, i => .ok (0, i)
  | _ + 1, [] => .error .abort
  | size + 1, byte :: i => (ReadLsbtoh size i).map fun r => (byte.toNat + 256 * r.1, r.2)

/-- As many words one after the other. -/
def readWords (size : ℕ) : ℕ → List UInt8 → Except Fault (List ℕ × List UInt8)
  | 0, i => .ok ([], i)
  | n + 1, i => do
    let word ← ReadLsbtoh size i
    let words ← readWords size n word.2
    return (word.1 :: words.1, words.2)

/-! ### The header -/

/-- A `CtrlBAckResponseHeader` with its control fields. -/
structure CtrlBAckResponse extends CtrlBAckResponseHeader where
  m_baAckPolicy : Bool
  m_tidInfo : UInt16

namespace CtrlBAckResponse

def GetBaControl (h : CtrlBAckResponse) : UInt16 :=
  let policy : UInt16 := if h.m_baAckPolicy then 0x1 else 0
  let type : UInt16 :=
    match h.m_baType with
    | .BASIC_BLOCK_ACK => 0
    | .COMPRESSED_BLOCK_ACK => (0x02 : UInt16) <<< 1
    | .EXTENDED_COMPRESSED_BLOCK_ACK => (0x01 : UInt16) <<< 1
    | .MULTI_TID_BLOCK_ACK => (0x03 : UInt16) <<< 1
  policy ||| type ||| (h.m_tidInfo <<< 12 &&& (0xf : UInt16) <<< 12)

def SetBaControl (h : CtrlBAckResponse) (ba : UInt16) : CtrlBAckResponse :=
  { h with
    m_baAckPolicy := ba &&& 0x01 == 1
    m_baType :=
      if ba >>> 1 &&& 0x0f = 0x03 then .MULTI_TID_BLOCK_ACK
      else if ba >>> 1 &&& 0x0f = 0x01 then .EXTENDED_COMPRESSED_BLOCK_ACK
      else if ba >>> 1 &&& 0x0f = 0x02 then .COMPRESSED_BLOCK_ACK
      else .BASIC_BLOCK_ACK
    m_tidInfo := ba >>> 12 &&& 0x0f }

def GetStartingSequenceControl (h : CtrlBAckResponse) : UInt16 :=
  UInt16.ofNat h.m_startingSeq <<< 4 &&& 0xfff0

def SetStartingSequenceControl (h : CtrlBAckResponse) (seqControl : UInt16) : CtrlBAckResponse :=
  { h with m_startingSeq := (seqControl >>> 4 &&& 0x0fff).toNat }

def SerializeBitmap (h : CtrlBAckResponse) : Except Fault (List UInt8) :=
  match h.m_baType with
  | .BASIC_BLOCK_ACK =>
    .ok ((List.range 64).flatMap fun j => WriteHtolsb 2 (h.m_bitmap j).toNat)
  | .COMPRESSED_BLOCK_ACK => .ok (WriteHtolsb 8 h.m_compressedBitmap.toNat)
  | .EXTENDED_COMPRESSED_BLOCK_ACK =>
    .ok ((List.range 4).flatMap fun j => WriteHtolsb 8 (h.m_extendedCompressedBitmap j).toNat)
  | .MULTI_TID_BLOCK_ACK => .error .abort

def DeserializeBitmap (h : CtrlBAckResponse) (i : List UInt8) :
    Except Fault (CtrlBAckResponse × List UInt8) :=
  match h.m_baType with
  | .BASIC_BLOCK_ACK => do
    let words ← readWords 2 64 i
    return ({ h with m_bitmap := fun j => UInt16.ofNat (words.1.getD j 0) }, words.2)
  | .COMPRESSED_BLOCK_ACK => do
    let word ← ReadLsbtoh 8 i
    return ({ h with m_compressedBitmap := UInt64.ofNat word.1 }, word.2)
  | .EXTENDED_COMPRESSED_BLOCK_ACK => do
    let words ← readWords 8 4 i
    return ({ h with m_extendedCompressedBitmap := fun j => UInt64.ofNat (words.1.getD j 0) },
      words.2)
  | .MULTI_TID_BLOCK_ACK => .error .abort

/-- `Serialize`; the bitmap of a multi-TID response is a fatal error. -/
def Serialize (h : CtrlBAckResponse) : Except Fault (List UInt8) := do
  let octets ← h.SerializeBitmap
  return WriteHtolsb 2 h.GetBaControl.toNat ++
    (WriteHtolsb 2 h.GetStartingSequenceControl.toNat ++ octets)

/-- `Deserialize` into a header, and what comes behind. -/
def Deserialize (h : CtrlBAckResponse) (start : List UInt8) :
    Except Fault (CtrlBAckResponse × List UInt8) := do
  let ba ← ReadLsbtoh 2 start
  let h := h.SetBaControl (UInt16.ofNat ba.1)
  if h.m_baType = .MULTI_TID_BLOCK_ACK then
    .error .abort
  else do
    let seqControl ← ReadLsbtoh 2 ba.2
    (h.SetStartingSequenceControl (UInt16.ofNat seqControl.1)).DeserializeBitmap seqControl.2

end CtrlBAckResponse

/-- By how much `SetReceivedPacket` and `IsPacketReceived` shift a word: by the index, and not at
all where they return before. -/
def CtrlBAckResponseHeader.shifts (h : CtrlBAckResponseHeader) (seq : ℕ) : List ℕ :=
  if !h.IsInBitmap seq then
    []
  else
    match h.m_baType, h.IndexInBitmap seq with
    | .COMPRESSED_BLOCK_ACK, .ok index => [index]
    | .EXTENDED_COMPRESSED_BLOCK_ACK, .ok index => [index]
    | _, _ => []

/-! ### What is read back -/

/-- A number written out is read back, with what follows. -/
theorem ReadLsbtoh_append (size data : ℕ) (rest : List UInt8) :
    ReadLsbtoh size (WriteHtolsb size data ++ rest) = .ok (data % 256 ^ size, rest) := by
  induction size generalizing data with
  | zero =>
    rw [pow_zero, Nat.mod_one]
    rfl
  | succ size ih =>
    have hbyte : (UInt8.ofNat data).toNat = data % 256 := UInt8.toNat_ofNat'
    rw [WriteHtolsb, List.cons_append, ReadLsbtoh, ih, pow_succ', Nat.mod_mul, ← hbyte]
    rfl

/-- Words written out are read back, with what follows. -/
theorem readWords_append (size : ℕ) (words : List ℕ) (rest : List UInt8) :
    readWords size words.length (words.flatMap (WriteHtolsb size) ++ rest) =
      .ok (words.map (· % 256 ^ size), rest) := by
  induction words with
  | nil => rfl
  | cons word words ih =>
    rw [List.length_cons, readWords, List.flatMap_cons, List.append_assoc, ReadLsbtoh_append]
    show (readWords size words.length (words.flatMap (WriteHtolsb size) ++ rest) >>= _) = _
    rw [ih]
    rfl

/-- A word survives its octets. -/
theorem ofNat_word (word : UInt64) : UInt64.ofNat (word.toNat % 256 ^ 8) = word := by
  rw [Nat.mod_eq_of_lt (word.toNat_lt.trans_le (by decide)), UInt64.ofNat_toNat]

/-- A control field survives its octets. -/
theorem ofNat_control (control : UInt16) : UInt16.ofNat (control.toNat % 256 ^ 2) = control := by
  rw [Nat.mod_eq_of_lt (control.toNat_lt.trans_le (by decide)), UInt16.ofNat_toNat]

namespace CtrlBAckResponse

open CtrlBAckResponseHeader

variable {h old : CtrlBAckResponse}

/-- The bits of the type: the policy and the TID lie in others. -/
theorem type_bits {policy : UInt16} (hpolicy : policy >>> 1 &&& 0x0f = 0) (type tid : UInt16) :
    (policy ||| type ||| (tid <<< 12 &&& (0xf : UInt16) <<< 12)) >>> 1 &&& (0x0f : UInt16) =
      type >>> 1 &&& 0x0f := by
  -- the TID is in the last four bits
  have htid : (tid <<< 12 &&& (0xf : UInt16) <<< 12) >>> 1 &&& (0x0f : UInt16) = 0 := by
    rw [UInt16.shiftRight_and, UInt16.and_assoc]
    exact UInt16.and_zero
  have hdistrib : ∀ x y z : UInt16, (x ||| y) &&& z = (x &&& z) ||| (y &&& z) := by
    intro x y z
    exact UInt16.toBitVec_inj.mp BitVec.and_or_distrib_right
  rw [UInt16.shiftRight_or, UInt16.shiftRight_or, hdistrib, hdistrib, hpolicy, htid,
    UInt16.zero_or, UInt16.or_zero]

/-- The type survives the control field. -/
theorem type_SetBaControl (old h : CtrlBAckResponse) :
    (old.SetBaControl h.GetBaControl).m_baType = h.m_baType := by
  obtain ⟨⟨start, type, bitmap, compressed, extended⟩, policy, tid⟩ := h
  have hpolicy : (if policy then (0x1 : UInt16) else 0) >>> 1 &&& 0x0f = 0 := by
    split_ifs <;> rfl
  cases type <;>
    simp only [SetBaControl, GetBaControl, type_bits hpolicy] <;>
    rfl

/-- The starting number survives its control field. -/
theorem start_SetStartingSequenceControl (hstart : h.m_startingSeq < 4096) :
    (old.SetStartingSequenceControl h.GetStartingSequenceControl).m_startingSeq =
      h.m_startingSeq := by
  -- twelve bits, behind the four of the fragment number
  have hshift : (UInt16.ofNat h.m_startingSeq <<< 4).toNat / 2 ^ 4 = h.m_startingSeq := by
    rw [UInt16.toNat_shiftLeft, UInt16.toNat_ofNat']
    show (h.m_startingSeq % 2 ^ 16) <<< 4 % 2 ^ 16 / 2 ^ 4 = _
    rw [Nat.shiftLeft_eq]
    omega
  show ((UInt16.ofNat h.m_startingSeq <<< 4 &&& 0xfff0) >>> 4 &&& 0x0fff).toNat = _
  rw [UInt16.shiftRight_and, UInt16.and_assoc, UInt16.toNat_and, UInt16.toNat_shiftRight,
    Nat.shiftRight_eq_div_pow]
  show (UInt16.ofNat h.m_startingSeq <<< 4).toNat / 2 ^ 4 &&& (2 ^ 12 - 1) = _
  rw [hshift, Nat.and_two_pow_sub_one_eq_mod]
  exact Nat.mod_eq_of_lt hstart

/-- A bitmap that is written is read back into a header of its type. -/
theorem exists_deserializeBitmap {h₁ : CtrlBAckResponse}
    (hstart : h₁.m_startingSeq = h.m_startingSeq) (htype₁ : h₁.m_baType = h.m_baType)
    (htype : Compressed h.m_baType) :
    ∃ octets h', h.SerializeBitmap = .ok octets ∧ h₁.DeserializeBitmap octets = .ok (h', []) ∧
      Marks h.toCtrlBAckResponseHeader h'.toCtrlBAckResponseHeader fun _ => False := by
  rcases htype with htype | htype
  · -- one word
    refine ⟨WriteHtolsb 8 h.m_compressedBitmap.toNat,
      { h₁ with m_compressedBitmap := h.m_compressedBitmap }, ?_, ?_, hstart, htype₁, ?_⟩
    · rw [SerializeBitmap, htype]
    · rw [DeserializeBitmap, htype₁, htype]
      dsimp only
      rw [← List.append_nil (WriteHtolsb _ _), ReadLsbtoh_append]
      dsimp only [bind, Except.bind]
      rw [ofNat_word]
      rfl
    · intro k _
      simp only [mark, htype₁, htype, or_false]
  · -- four of them
    let words := (List.range 4).map fun j => (h.m_extendedCompressedBitmap j).toNat
    have hread := readWords_append 8 words []
    rw [List.append_nil] at hread
    refine ⟨words.flatMap (WriteHtolsb 8), { h₁ with
      m_extendedCompressedBitmap := fun j => UInt64.ofNat ((words.map (· % 256 ^ 8)).getD j 0) },
      ?_, ?_, hstart, htype₁, ?_⟩
    · rw [SerializeBitmap, htype, List.flatMap_map]
    · rw [DeserializeBitmap, htype₁, htype]
      dsimp only
      rw [show readWords 8 4 = readWords 8 words.length from rfl, hread]
      rfl
    · intro k hk
      have hword : k / 64 < 4 := by
        simp only [bits, htype, if_true] at hk
        omega
      simp only [mark, htype₁, htype, or_false]
      rw [List.map_map, List.getD_eq_getElem _ _ (by simpa using hword), List.getElem_map,
        List.getElem_range, Function.comp_apply, ofNat_word]

/-- What is written is read back: the type, the start and the marks. -/
theorem exists_deserialize (old : CtrlBAckResponse) (hstart : h.m_startingSeq < 4096)
    (htype : Compressed h.m_baType) :
    ∃ octets h', h.Serialize = .ok octets ∧ old.Deserialize octets = .ok (h', []) ∧
      Marks h.toCtrlBAckResponseHeader h'.toCtrlBAckResponseHeader fun _ => False := by
  have hstart₁ : ((old.SetBaControl h.GetBaControl).SetStartingSequenceControl
      h.GetStartingSequenceControl).m_startingSeq = h.m_startingSeq :=
    start_SetStartingSequenceControl hstart
  have htype₁ : ((old.SetBaControl h.GetBaControl).SetStartingSequenceControl
      h.GetStartingSequenceControl).m_baType = h.m_baType := type_SetBaControl old h
  obtain ⟨bitmap, h', hbitmap, hread, hmarks⟩ := exists_deserializeBitmap hstart₁ htype₁ htype
  refine ⟨WriteHtolsb 2 h.GetBaControl.toNat ++
    (WriteHtolsb 2 h.GetStartingSequenceControl.toNat ++ bitmap), h', ?_, ?_, hmarks⟩
  · rw [Serialize, hbitmap]
    rfl
  · have hmulti : (old.SetBaControl h.GetBaControl).m_baType ≠ .MULTI_TID_BLOCK_ACK := by
      rw [type_SetBaControl]
      rcases htype with htype | htype <;> rw [htype] <;> decide
    rw [Deserialize, ReadLsbtoh_append]
    dsimp only [bind, Except.bind]
    rw [ofNat_control, if_neg hmulti, ReadLsbtoh_append]
    dsimp only
    rw [ofNat_control]
    exact hread

end CtrlBAckResponse

/-! ### What a response tells -/

open CtrlBAckResponseHeader

/-- The number is one of those that a bitmap has room for, from its start on. -/
def InWindow (type : BlockAckType) (start seq : ℕ) : Prop := distance 4096 start seq < bits type

instance (type : BlockAckType) (start seq : ℕ) : Decidable (InWindow type start seq) :=
  inferInstanceAs (Decidable (_ < _))

/-- The response to which some numbers were added: it tells of each number whether it was added and
lies in the window, it does so after it went over the wire, and no word of 64 bits was shifted by
64 or more. The type and the start, on which the shifts depend, stay. -/
structure ResponseRight (type : BlockAckType) (start : ℕ) (seqs : List ℕ) (seq : ℕ) : Prop where
  received : ∃ h, seqs.foldlM SetReceivedPacket (empty type start) = .ok h ∧
    h.IsPacketReceived seq = .ok (decide (InWindow type start seq ∧ seq ∈ seqs)) ∧
    ∀ m_baAckPolicy m_tidInfo (old : CtrlBAckResponse), ∃ octets h',
      CtrlBAckResponse.Serialize ⟨h, m_baAckPolicy, m_tidInfo⟩ = .ok octets ∧
      old.Deserialize octets = .ok (h', []) ∧
      h'.IsPacketReceived seq = .ok (decide (InWindow type start seq ∧ seq ∈ seqs))
  shifts_lt : ∀ q ∈ seq :: seqs, ∀ shift ∈ (empty type start).shifts q, shift < 64

variable {type : BlockAckType} {start seq : ℕ} {seqs : List ℕ} {h h' : CtrlBAckResponseHeader}

/-- Each call adds its number. -/
theorem foldlM_setReceivedPacket (hstart : h.m_startingSeq < 4096) (htype : Compressed h.m_baType)
    (hseqs : ∀ q ∈ seqs, q < 4096) :
    ∃ h', seqs.foldlM SetReceivedPacket h = .ok h' ∧
      Marks h h' fun k => ∃ q ∈ seqs, k = distance 4096 h.m_startingSeq q := by
  induction seqs generalizing h with
  | nil => exact ⟨h, rfl, rfl, rfl, fun k _ => by simp⟩
  | cons seq seqs ih =>
    -- the first number sets its mark, and keeps the type and the start
    obtain ⟨h₁, hok, hmarks⟩ := setReceivedPacket_spec hstart (hseqs seq List.mem_cons_self) htype
    obtain ⟨h₂, hok', hmarks'⟩ := ih (h := h₁) (by rw [hmarks.m_startingSeq]; exact hstart)
      (by rw [hmarks.m_baType]; exact htype) fun q hq => hseqs q (List.mem_cons_of_mem seq hq)
    refine ⟨h₂, ?_, hmarks'.m_startingSeq.trans hmarks.m_startingSeq,
      hmarks'.m_baType.trans hmarks.m_baType, fun k hk => ?_⟩
    · rw [List.foldlM_cons, hok]
      exact hok'
    · rw [hmarks'.mark k (hmarks.m_baType ▸ hk), hmarks.mark k hk, hmarks.m_startingSeq,
        List.exists_mem_cons_iff, or_assoc]

/-- A header with the marks of the numbers that were added tells of them. -/
theorem isPacketReceived_of_marks (hstart : start < 4096) (hseq : seq < 4096)
    (hseqs : ∀ q ∈ seqs, q < 4096) (htype : Compressed type)
    (hmarks : Marks (empty type start) h fun k => ∃ q ∈ seqs, k = distance 4096 start q) :
    h.IsPacketReceived seq = .ok (decide (InWindow type start seq ∧ seq ∈ seqs)) := by
  have hstart' : h.m_startingSeq = start := hmarks.m_startingSeq
  have htype' : h.m_baType = type := hmarks.m_baType
  rw [isPacketReceived_eq (hstart' ▸ hstart) hseq (htype' ▸ htype), hstart', htype']
  refine congrArg Except.ok ?_
  rw [Bool.eq_iff_iff, Bool.and_eq_true, decide_eq_true_iff, decide_eq_true_iff]
  refine and_congr_right fun hlt => ?_
  -- at first no mark is set
  have hnone : (empty type start).mark (distance 4096 start seq) = false := by
    rcases htype with rfl | rfl <;> exact bit_zero _
  rw [hmarks.mark _ hlt, hnone]
  simp only [Bool.false_eq_true, false_or]
  constructor
  · rintro ⟨q, hq, hdistance⟩
    -- two numbers as far from the start are one
    have heq : seq = q := by
      rw [← CircularRange.after_distance hstart hseq, hdistance,
        CircularRange.after_distance hstart (hseqs q hq)]
    rw [heq]
    exact hq
  · intro hmem
    exact ⟨seq, hmem, rfl⟩

/-- The shifts used for a number of the window. -/
theorem mem_shifts_iff (hstart : start < 4096) (hseq : seq < 4096) (htype : Compressed type)
    {shift : ℕ} : shift ∈ (empty type start).shifts seq ↔
      InWindow type start seq ∧ shift = distance 4096 start seq := by
  have hin : (empty type start).IsInBitmap seq = true ↔ InWindow type start seq := isInBitmap_iff
  -- outside of the window nothing is shifted
  unfold shifts
  by_cases hwindow : (empty type start).IsInBitmap seq = true
  · rw [if_neg (by simp [hwindow]), indexInBitmap_eq hstart hseq hwindow]
    have hlt : InWindow type start seq := hin.mp hwindow
    rcases htype with rfl | rfl <;> simp [empty, hlt]
  · rw [if_pos (by simp [hwindow])]
    have hlt : ¬ InWindow type start seq := mt hin.mpr hwindow
    simp [hlt]

/-- A response is right unless its bitmap has more than one word and a number beyond the first is
set or asked for. -/
theorem responseRight_iff (htype : Compressed type) (hstart : start < 4096)
    (hseqs : ∀ q ∈ seqs, q < 4096) (hseq : seq < 4096) :
    ResponseRight type start seqs seq ↔ type = .COMPRESSED_BLOCK_ACK ∨
      ∀ q ∈ seq :: seqs, InWindow type start q → distance 4096 start q < 64 := by
  have hall : ∀ q ∈ seq :: seqs, q < 4096 := List.forall_mem_cons.mpr ⟨hseq, hseqs⟩
  have hshifts : (∀ q ∈ seq :: seqs, ∀ shift ∈ (empty type start).shifts q, shift < 64) ↔
      ∀ q ∈ seq :: seqs, InWindow type start q → distance 4096 start q < 64 := by
    refine forall₂_congr fun q hq => ?_
    simp only [mem_shifts_iff hstart (hall q hq) htype, and_imp, forall_eq_apply_imp_iff]
  constructor
  · intro hright
    exact .inr (hshifts.mp hright.shifts_lt)
  · intro hfirst
    obtain ⟨h, hok, hmarks⟩ := foldlM_setReceivedPacket (h := empty type start) hstart htype hseqs
    -- the marks are right in either case: only the shifts are not
    refine ⟨⟨h, hok, isPacketReceived_of_marks hstart hseq hseqs htype hmarks, ?_⟩,
      hshifts.mpr ?_⟩
    · intro m_baAckPolicy m_tidInfo old
      obtain ⟨octets, h', hwrite, hread, hsame⟩ :=
        CtrlBAckResponse.exists_deserialize (h := ⟨h, m_baAckPolicy, m_tidInfo⟩) old
          (hmarks.m_startingSeq ▸ hstart) (hmarks.m_baType ▸ htype)
      refine ⟨octets, h', hwrite, hread, isPacketReceived_of_marks hstart hseq hseqs htype
        ⟨hsame.m_startingSeq.trans hmarks.m_startingSeq,
          hsame.m_baType.trans hmarks.m_baType, fun k hk => ?_⟩⟩
      rw [hsame.mark k (hmarks.m_baType ▸ hk), or_false]
      exact hmarks.mark k hk
    · rcases hfirst with rfl | hfirst
      · -- a bitmap of one word has no other index
        intro q _ hin
        exact hin
      · exact hfirst

/-- Across the end of the numbers: an extended response from 4090 on. -/
theorem responseRight_wrapped :
    ResponseRight .EXTENDED_COMPRESSED_BLOCK_ACK 4090 [4091, 3, 1000] 3 :=
  (responseRight_iff (by decide) (by decide) (by decide) (by decide)).mpr (by decide)

/-- The 65th number of an extended response: a word is shifted by 64. -/
theorem not_responseRight_second_word :
    ¬ ResponseRight .EXTENDED_COMPRESSED_BLOCK_ACK 0 [64] 64 := by
  intro hright
  exact absurd (hright.shifts_lt 64 List.mem_cons_self 64 (by decide)) (by decide)

end Ns3Joined.Wifi
