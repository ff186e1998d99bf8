import Mathlib.Algebra.BigOperators.Group.List.Basic
import Mathlib.Data.List.Basic
import Mathlib.Tactic.IntervalCases
import Mathlib.Tactic.Ring
import Ns3Joined.Fault

/-!
# TLVs of WiMAX service flows

`Tlv` (`wimax-tlv.cc`): a type, a length and a value, which may be a vector of TLVs again. The
service flow has CS parameters, which have a classification rule; the vectors have a decoder each.

* `Tlv.Serialize`, `Deserialize`: the bytes of a TLV, and back.
* `Supported`: the TLVs of the types that are decoded, their lengths those of their values.
* `vectorLoop_spec`: one loop for the three vectors, by what a decoder does with one element.
* `serviceFlow_deserialize_serialize`: what was written is read where no value has a length of 127.
-/

namespace Ns3Joined.Wimax

structure Tlv (V : Type) where
  m_type : UInt8
  m_length : ℕ
  m_value : V
deriving DecidableEq

/-- The values that are not vectors of TLVs. -/
inductive TlvValue
  | u8 (value : UInt8)
  | u16 (value : UInt16)
  | u32 (value : UInt32)
  | tos (low high mask : UInt8)
  | protocol (protocols : List UInt8)
  | ipv4Address (addresses : List (UInt32 × UInt32))
  | portRange (ranges : List (UInt16 × UInt16))
deriving DecidableEq

/-- `CsParamVectorTlvValue` has rules among its values. -/
inductive CsValue
  | value (value : TlvValue)
  | rule (tlvs : List (Tlv TlvValue))
deriving DecidableEq

/-- `SfVectorTlvValue` has CS parameters among its values. -/
inductive SfValue
  | value (value : TlvValue)
  | cs (tlvs : List (Tlv CsValue))
deriving DecidableEq

/-! ### Writing -/

/-- The loop of `GetSizeOfLen`. -/
def sizeOfLenLoop (m_length : ℕ) : ℕ → ℕ → ℕ → ℕ
  | 0, sizeOfLen, _ => sizeOfLen
  | rounds + 1, sizeOfLen, testValue =>
    if m_length > testValue then
      -- `testValue *= 0xFF`, and not a shift
      sizeOfLenLoop m_length rounds (sizeOfLen + 1) (testValue * 0xFF % 2 ^ 64)
    else sizeOfLen

def GetSizeOfLen (m_length : ℕ) : ℕ :=
  if m_length > 127 then sizeOfLenLoop m_length 8 2 0xFF else 1

/-- The last bytes of the number, the first of them first. -/
def bigEndian : ℕ → ℕ → List UInt8
  | 0, _ => []
  | size + 1, number => UInt8.ofNat (number >>> (8 * size)) :: bigEndian size number

def lengthBytes (m_length : ℕ) : List UInt8 :=
  let lenSize := GetSizeOfLen m_length
  if lenSize = 1 then [UInt8.ofNat m_length]
  else UInt8.ofNat ((lenSize - 1) ||| 0x80) :: bigEndian (lenSize - 1) m_length

def TlvValue.GetSerializedSize : TlvValue → ℕ
  | u8 _ => 1
  | u16 _ => 2
  | u32 _ => 4
  | tos _ _ _ => 3
  | protocol protocols => protocols.length
  | ipv4Address addresses => addresses.length * 8
  | portRange ranges => ranges.length * 4

def writeHtonU16 (value : UInt16) : List UInt8 := bigEndian 2 value.toNat

def writeHtonU32 (value : UInt32) : List UInt8 := bigEndian 4 value.toNat

def TlvValue.Serialize : TlvValue → List UInt8
  | u8 value => [value]
  | u16 value => writeHtonU16 value
  | u32 value => writeHtonU32 value
  | tos low high mask => [low, high, mask]
  | protocol protocols => protocols
  | ipv4Address addresses => addresses.flatMap fun a => writeHtonU32 a.1 ++ writeHtonU32 a.2
  | portRange ranges => ranges.flatMap fun r => writeHtonU16 r.1 ++ writeHtonU16 r.2

variable {V : Type}

def Tlv.GetSerializedSize (size : V → ℕ) (tlv : Tlv V) : ℕ :=
  1 + GetSizeOfLen tlv.m_length + size tlv.m_value

def Tlv.Serialize (serialize : V → List UInt8) (tlv : Tlv V) : List UInt8 :=
  tlv.m_type :: (lengthBytes tlv.m_length ++ serialize tlv.m_value)

/-- `VectorTlvValue::GetSerializedSize`. -/
def vectorSize (size : V → ℕ) (tlvs : List (Tlv V)) : ℕ :=
  (tlvs.map (Tlv.GetSerializedSize size)).sum

/-- `VectorTlvValue::Serialize`. -/
def vectorBytes (serialize : V → List UInt8) (tlvs : List (Tlv V)) : List UInt8 :=
  tlvs.flatMap (Tlv.Serialize serialize)

def CsValue.GetSerializedSize : CsValue → ℕ
  | value v => v.GetSerializedSize
  | rule tlvs => vectorSize TlvValue.GetSerializedSize tlvs

def CsValue.Serialize : CsValue → List UInt8
  | value v => v.Serialize
  | rule tlvs => vectorBytes TlvValue.Serialize tlvs

def SfValue.GetSerializedSize : SfValue → ℕ
  | value v => v.GetSerializedSize
  | cs tlvs => vectorSize CsValue.GetSerializedSize tlvs

def SfValue.Serialize : SfValue → List UInt8
  | value v => v.Serialize
  | cs tlvs => vectorBytes CsValue.Serialize tlvs

/-! ### Reading -/

def readU8 : List UInt8 → Except Fault (UInt8 × List UInt8)
  | [] => .error .outOfRange
  | byte :: i => .ok (byte, i)

/-- So many bytes, as a number behind another. -/
def readBytes : ℕ → ℕ → List UInt8 → Except Fault (ℕ × List UInt8)
  | 0, number, i => .ok (number, i)
  | _ + 1, _, [] => .error .outOfRange
  | size + 1, number, byte :: i => readBytes size ((number * 256 + byte.toNat) % 2 ^ 64) i

/-- A length, and how many bytes it took. -/
def readLength (i : List UInt8) : Except Fault (ℕ × ℕ × List UInt8) := do
  let (lenSize, i) ← readU8 i
  -- the writer has the short form for 127, too
  if lenSize < 127 then return (lenSize.toNat, 1, i)
  else
    let size := (lenSize &&& 0x7f).toNat
    let (length, i) ← readBytes size 0 i
    return (length, 1 + size, i)

def readNtohU16 (i : List UInt8) : Except Fault (UInt16 × List UInt8) :=
  (readBytes 2 0 i).map fun r => (UInt16.ofNat r.1, r.2)

def readNtohU32 (i : List UInt8) : Except Fault (UInt32 × List UInt8) :=
  (readBytes 4 0 i).map fun r => (UInt32.ofNat r.1, r.2)

/-- `Next`. -/
def next (delta : ℕ) (i : List UInt8) : Except Fault (List UInt8) :=
  if delta ≤ i.length then .ok (i.drop delta) else .error .outOfRange

section

variable {α β : Type} (read : List UInt8 → Except Fault (α × List UInt8))
  (read' : List UInt8 → Except Fault (β × List UInt8))

def readPair (i : List UInt8) : Except Fault ((α × β) × List UInt8) := do
  let (first, i) ← read i
  let (second, i) ← read' i
  return ((first, second), i)

def readMany : ℕ → List UInt8 → Except Fault (List α × List UInt8)
  | 0, i => .ok ([], i)
  | count + 1, i => do
    let (first, i) ← read i
    let (rest, i) ← readMany count i
    return (first :: rest, i)

end

/-- The classes of the values. -/
inductive Kind
  | u8
  | u16
  | u32
  | tos
  | protocol
  | ipv4Address
  | portRange
deriving DecidableEq

/-- `Deserialize` of a value; a list is read until it has no fewer bytes than the length. -/
def Kind.Deserialize (valueLength : ℕ) (i : List UInt8) : Kind → Except Fault TlvValue
  | u8 => (readU8 i).map fun r => .u8 r.1
  | u16 => (readNtohU16 i).map fun r => .u16 r.1
  | u32 => (readNtohU32 i).map fun r => .u32 r.1
  | tos => (readPair readU8 (readPair readU8 readU8) i).map fun r => .tos r.1.1 r.1.2.1 r.1.2.2
  | protocol => (readMany readU8 valueLength i).map fun r => .protocol r.1
  | ipv4Address =>
    (readMany (readPair readNtohU32 readNtohU32) ((valueLength + 7) / 8) i).map fun r =>
      .ipv4Address r.1
  | portRange =>
    (readMany (readPair readNtohU16 readNtohU16) ((valueLength + 3) / 4) i).map fun r =>
      .portRange r.1

/-- The value of an element, with the length that its TLV is given and what was read of it. -/
abbrev ReadValue (V : Type) :=
  UInt8 → ℕ → List UInt8 → Except Fault (Option (V × ℕ × ℕ))

/-- The loop of a vector decoder. An element of a type without a value is left out. -/
def vectorLoop (readValue : ReadValue V) (valueLength : ℕ) :
    ℕ → ℕ → List UInt8 → Except Fault (List (Tlv V) × ℕ)
  | rounds, serializedSize, i =>
    if serializedSize < valueLength then
      match rounds with
      | 0 => .error .diverges
      | rounds + 1 => do
        let (type, i) ← readU8 i
        let (length, lenBytes, i) ← readLength i
        let val ← readValue type length i
        -- the iterator goes on by the length, whatever the value took
        let i ← next length i
        let serializedSize := serializedSize + (1 + lenBytes)
        match val with
        | none => vectorLoop readValue valueLength rounds serializedSize i
        | some (value, tlvLength, size) => do
          let rest ← vectorLoop readValue valueLength rounds (serializedSize + size) i
          return (⟨type, tlvLength, value⟩ :: rest.1, rest.2)
    else .ok ([], serializedSize)

/-- Each round reads two bytes at least. -/
def vectorDeserialize (readValue : ReadValue V) (valueLength : ℕ) (i : List UInt8) :
    Except Fault (List (Tlv V) × ℕ) :=
  vectorLoop readValue valueLength valueLength 0 i

/-- A value that is not a vector: its TLV has its size as the length. -/
def readKind (kind : Kind) (length : ℕ) (i : List UInt8) :
    Except Fault (TlvValue × ℕ × ℕ) :=
  (kind.Deserialize length i).map fun val => (val, val.GetSerializedSize, val.GetSerializedSize)

def ruleKind (type : UInt8) : Option Kind :=
  match type with
  | 1 => some .u8
  | 2 => some .tos
  | 3 => some .protocol
  | 4 | 5 => some .ipv4Address
  | 6 | 7 => some .portRange
  | 14 => some .u16
  | _ => none

/-- A turn of `ClassificationRuleVectorTlvValue::Deserialize`. -/
def readRuleValue : ReadValue TlvValue := fun type length i =>
  match ruleKind type with
  | none => .ok none
  | some kind => (readKind kind length i).map some

/-- A turn of `CsParamVectorTlvValue::Deserialize`. -/
def readCsValue : ReadValue CsValue := fun type length i =>
  match type with
  | 1 => (readKind .u8 length i).map fun r => some (.value r.1, r.2)
  | 3 => do
    let (tlvs, size) ← vectorDeserialize readRuleValue length i
    return some (.rule tlvs, vectorSize TlvValue.GetSerializedSize tlvs, size)
  | _ => .ok none

/-- The types of `SfVectorTlvValue`; 100 are the CS parameters. -/
def sfKind (type : UInt8) : Option Kind :=
  if type ∈ [5, 6, 11, 15, 16, 18, 28] then some .u8
  else if type ∈ [2, 17, 19] then some .u16
  else if type ∈ [1, 7, 8, 9, 10, 12, 13, 14] then some .u32
  else none

/-- A turn of `SfVectorTlvValue::Deserialize`: 3 is a fatal error, and so is an unknown type; the
reserved types and those of ARQ timers have no value. -/
def readSfValue : ReadValue SfValue := fun type length i =>
  match sfKind type with
  | some kind => (readKind kind length i).map fun r => some (.value r.1, r.2)
  | none =>
    if type = 100 then do
      let (tlvs, size) ← vectorDeserialize readCsValue length i
      return some (.cs tlvs, size, size)
    else if type = 4 ∨ 20 ≤ type ∧ type ≤ 27 then .ok none
    else .error .abort

/-- `Tlv::Deserialize`: types other than those of a service flow are fatal errors. -/
def Tlv.Deserialize (i : List UInt8) : Except Fault (Tlv (List (Tlv SfValue)) × ℕ) := do
  let (type, i) ← readU8 i
  let (length, lenBytes, i) ← readLength i
  if type = 146 ∨ type = 145 then
    let (val, size) ← vectorDeserialize readSfValue length i
    return (⟨type, length, val⟩, 1 + lenBytes + size)
  else .error .abort

/-! ### What is supported -/

def TlvValue.kind : TlvValue → Kind
  | u8 _ => .u8
  | u16 _ => .u16
  | u32 _ => .u32
  | tos _ _ _ => .tos
  | protocol _ => .protocol
  | ipv4Address _ => .ipv4Address
  | portRange _ => .portRange

/-- The length is the size of the value, a number of 32 bits. -/
def Tlv.Sized (size : V → ℕ) (tlv : Tlv V) : Prop :=
  tlv.m_length = size tlv.m_value ∧ tlv.m_length < 2 ^ 32

def RuleSupported (tlv : Tlv TlvValue) : Prop :=
  tlv.Sized TlvValue.GetSerializedSize ∧ ruleKind tlv.m_type = some tlv.m_value.kind

def CsSupported (tlv : Tlv CsValue) : Prop :=
  tlv.Sized CsValue.GetSerializedSize ∧
    match tlv.m_value with
    | .value v => tlv.m_type = 1 ∧ v.kind = .u8
    | .rule tlvs => tlv.m_type = 3 ∧ ∀ t ∈ tlvs, RuleSupported t

def SfSupported (tlv : Tlv SfValue) : Prop :=
  tlv.Sized SfValue.GetSerializedSize ∧
    match tlv.m_value with
    | .value v => sfKind tlv.m_type = some v.kind
    | .cs tlvs => tlv.m_type = 100 ∧ ∀ t ∈ tlvs, CsSupported t

/-- A service flow. -/
def Supported (tlv : Tlv (List (Tlv SfValue))) : Prop :=
  tlv.Sized (vectorSize SfValue.GetSerializedSize) ∧ (tlv.m_type = 146 ∨ tlv.m_type = 145) ∧
    ∀ t ∈ tlv.m_value, SfSupported t

def CsValue.lengths : CsValue → List ℕ
  | value _ => []
  | rule tlvs => tlvs.map Tlv.m_length

def SfValue.lengths : SfValue → List ℕ
  | value _ => []
  | cs tlvs => tlvs.flatMap fun t => t.m_length :: t.m_value.lengths

/-- The lengths of a service flow and of all TLVs in it. -/
def lengths (tlv : Tlv (List (Tlv SfValue))) : List ℕ :=
  tlv.m_length :: tlv.m_value.flatMap fun t => t.m_length :: t.m_value.lengths

instance (tlv : Tlv TlvValue) : Decidable (RuleSupported tlv) :=
  inferInstanceAs (Decidable ((_ ∧ _) ∧ _))

instance (tlv : Tlv CsValue) : Decidable (CsSupported tlv) :=
  match tlv with
  | ⟨_, _, .value _⟩ => inferInstanceAs (Decidable ((_ ∧ _) ∧ _ ∧ _))
  | ⟨_, _, .rule _⟩ => inferInstanceAs (Decidable ((_ ∧ _) ∧ _ ∧ ∀ _ ∈ _, _))

instance (tlv : Tlv SfValue) : Decidable (SfSupported tlv) :=
  match tlv with
  | ⟨_, _, .value _⟩ => inferInstanceAs (Decidable ((_ ∧ _) ∧ _))
  | ⟨_, _, .cs _⟩ => inferInstanceAs (Decidable ((_ ∧ _) ∧ _ ∧ ∀ _ ∈ _, _))

instance (tlv : Tlv (List (Tlv SfValue))) : Decidable (Supported tlv) :=
  inferInstanceAs (Decidable ((_ ∧ _) ∧ _ ∧ ∀ _ ∈ _, _))

/-! ### Numbers -/

variable {L : ℕ} {rest : List UInt8}

/-- A big-endian number takes its octets. -/
theorem length_bigEndian (n number : ℕ) : (bigEndian n number).length = n := by
  induction n with
  | zero => rfl
  | succ n ih => rw [bigEndian, List.length_cons, ih]

/-- The octets of a number are read back behind others. -/
theorem readBytes_bigEndian {n a : ℕ} (h : a * 256 ^ n + L % 256 ^ n < 2 ^ 64) :
    readBytes n a (bigEndian n L ++ rest) = .ok (a * 256 ^ n + L % 256 ^ n, rest) := by
  induction n generalizing a with
  | zero => simp [readBytes, bigEndian, Nat.mod_one]
  | succ n ih =>
    -- the first byte of the rest is the next digit
    have hbyte : (UInt8.ofNat (L >>> (8 * n))).toNat = L / 256 ^ n % 256 := by
      rw [UInt8.toNat_ofNat', Nat.shiftRight_eq_div_pow, pow_mul]
      rfl
    have hsplit : a * 256 ^ (n + 1) + L % 256 ^ (n + 1) =
        (a * 256 + L / 256 ^ n % 256) * 256 ^ n + L % 256 ^ n := by
      rw [Nat.mod_pow_succ, pow_succ]
      ring
    rw [hsplit] at h ⊢
    have hsmall : a * 256 + L / 256 ^ n % 256 < 2 ^ 64 :=
      (Nat.le_mul_of_pos_right _ (Nat.pow_pos (by decide))).trans_lt
        ((Nat.le_add_right _ _).trans_lt h)
    rw [bigEndian, List.cons_append, readBytes, hbyte, Nat.mod_eq_of_lt hsmall]
    exact ih h

theorem GetSizeOfLen_of_le (h : L ≤ 127) : GetSizeOfLen L = 1 := if_neg (by omega)

/-- A long length takes up to five octets after its count. -/
theorem GetSizeOfLen_of_gt (h : 127 < L) (hlt : L < 2 ^ 32) :
    ∃ n, GetSizeOfLen L = n + 1 ∧ 1 ≤ n ∧ n ≤ 5 ∧ L < 256 ^ n := by
  unfold GetSizeOfLen
  rw [if_pos h, sizeOfLenLoop]
  -- a test value of 0xFF to a power is less than that of 256
  split_ifs with h₁
  · rw [sizeOfLenLoop]
    split_ifs with h₂
    · rw [sizeOfLenLoop]
      split_ifs with h₃
      · rw [sizeOfLenLoop]
        split_ifs with h₄
        · rw [sizeOfLenLoop, if_neg (by omega)]
          exact ⟨5, rfl, by decide, by decide, by omega⟩
        · exact ⟨4, rfl, by decide, by decide, by omega⟩
      · exact ⟨3, rfl, by decide, by decide, by omega⟩
    · exact ⟨2, rfl, by decide, by decide, by omega⟩
  · exact ⟨1, rfl, by decide, by decide, by omega⟩

/-- The octets of a length. -/
theorem length_lengthBytes (hlt : L < 2 ^ 32) : (lengthBytes L).length = GetSizeOfLen L := by
  unfold lengthBytes
  rcases Nat.lt_or_ge 127 L with h | h
  · obtain ⟨n, hn, hpos, -⟩ := GetSizeOfLen_of_gt h hlt
    rw [hn]
    dsimp only
    rw [if_neg (by omega), List.length_cons, length_bigEndian]
    rfl
  · rw [GetSizeOfLen_of_le h]
    rfl

/-- A length is read as it was written, but for 127: that has the short form for the writer and
the long one for the reader. -/
theorem readLength_lengthBytes (hne : L ≠ 127) (hlt : L < 2 ^ 32) :
    readLength (lengthBytes L ++ rest) = .ok (L, GetSizeOfLen L, rest) := by
  unfold lengthBytes
  rcases Nat.lt_or_ge 127 L with h | h
  · obtain ⟨n, hn, hpos, hle, hfits⟩ := GetSizeOfLen_of_gt h hlt
    rw [hn]
    dsimp only
    rw [if_neg (by omega), Nat.add_sub_cancel]
    -- the byte of a long form has its first bit set
    have hbyte : ¬ UInt8.ofNat (n ||| 0x80) < 127 ∧
        (UInt8.ofNat (n ||| 0x80) &&& 0x7f).toNat = n := by
      interval_cases n <;> decide
    have hread : readBytes n 0 (bigEndian n L ++ rest) = .ok (L, rest) := by
      rw [readBytes_bigEndian, Nat.zero_mul, Nat.zero_add, Nat.mod_eq_of_lt hfits]
      rw [Nat.zero_mul, Nat.zero_add, Nat.mod_eq_of_lt hfits]
      omega
    generalize UInt8.ofNat (n ||| 0x80) = lenSize at hbyte ⊢
    simp [readLength, readU8, bind, Except.bind, pure, Except.pure, hbyte.1, hbyte.2, hread,
      Nat.add_comm]
  · have hbyte : (UInt8.ofNat L).toNat = L := by
      rw [UInt8.toNat_ofNat']
      omega
    have hshort : UInt8.ofNat L < 127 := by
      rw [UInt8.lt_iff_toNat_lt, hbyte]
      show L < 127
      omega
    rw [GetSizeOfLen_of_le h]
    simp [readLength, readU8, bind, Except.bind, pure, Except.pure, hshort, hbyte]

/-! ### Values -/

/-- What was written is read, whatever comes behind. -/
def Reads {α : Type} (read : List UInt8 → Except Fault (α × List UInt8))
    (write : α → List UInt8) : Prop :=
  ∀ x rest, read (write x ++ rest) = .ok (x, rest)

/-- An octet reads back. -/
theorem reads_readU8 : Reads readU8 fun x => [x] := fun _ _ => rfl

/-- A number of two octets reads back. -/
theorem reads_readNtohU16 : Reads readNtohU16 writeHtonU16 := by
  intro x rest
  have hx := x.toNat_lt
  have hmod : x.toNat % 256 ^ 2 = x.toNat := Nat.mod_eq_of_lt hx
  unfold readNtohU16 writeHtonU16
  rw [readBytes_bigEndian (by omega), Nat.zero_mul, Nat.zero_add, hmod]
  simp [Except.map]

/-- A number of four octets reads back. -/
theorem reads_readNtohU32 : Reads readNtohU32 writeHtonU32 := by
  intro x rest
  have hx := x.toNat_lt
  have hmod : x.toNat % 256 ^ 4 = x.toNat := Nat.mod_eq_of_lt hx
  unfold readNtohU32 writeHtonU32
  rw [readBytes_bigEndian (by omega), Nat.zero_mul, Nat.zero_add, hmod]
  simp [Except.map]

section

variable {α β : Type} {read : List UInt8 → Except Fault (α × List UInt8)}
  {read' : List UInt8 → Except Fault (β × List UInt8)} {write : α → List UInt8}
  {write' : β → List UInt8}

/-- A pair reads back. -/
theorem Reads.pair (h : Reads read write) (h' : Reads read' write') :
    Reads (readPair read read') fun x => write x.1 ++ write' x.2 := by
  intro x rest
  unfold readPair
  rw [List.append_assoc, h x.1]
  show (read' (write' x.2 ++ rest)).bind _ = _
  rw [h' x.2]
  rfl

/-- Several values read back. -/
theorem Reads.many (h : Reads read write) (xs : List α) (rest : List UInt8) :
    readMany read xs.length (xs.flatMap write ++ rest) = .ok (xs, rest) := by
  induction xs with
  | nil => rfl
  | cons x xs ih =>
    rw [List.flatMap_cons, List.append_assoc, List.length_cons, readMany, h x]
    show (readMany read xs.length (xs.flatMap write ++ rest)).bind _ = _
    rw [ih]
    rfl

end

/-- A value reads back. -/
theorem Deserialize_Serialize (v : TlvValue) (rest : List UInt8) :
    v.kind.Deserialize v.GetSerializedSize (v.Serialize ++ rest) = .ok v := by
  cases v with
  | u8 value => rfl
  | u16 value =>
    rw [TlvValue.kind, Kind.Deserialize, TlvValue.Serialize, reads_readNtohU16 value]
    rfl
  | u32 value =>
    rw [TlvValue.kind, Kind.Deserialize, TlvValue.Serialize, reads_readNtohU32 value]
    rfl
  | tos low high mask => rfl
  | protocol protocols =>
    have hmany := reads_readU8.many protocols rest
    rw [List.flatMap_singleton'] at hmany
    show (readMany readU8 protocols.length (protocols ++ rest)).map _ = _
    rw [hmany]
    rfl
  | ipv4Address addresses =>
    have hmany := (reads_readNtohU32.pair reads_readNtohU32).many addresses rest
    -- a list is read in pieces of its own size
    have hcount : (addresses.length * 8 + 7) / 8 = addresses.length := by omega
    show (readMany (readPair readNtohU32 readNtohU32) ((addresses.length * 8 + 7) / 8) _).map _ = _
    rw [hcount, TlvValue.Serialize, hmany]
    rfl
  | portRange ranges =>
    have hmany := (reads_readNtohU16.pair reads_readNtohU16).many ranges rest
    have hcount : (ranges.length * 4 + 3) / 4 = ranges.length := by omega
    show (readMany (readPair readNtohU16 readNtohU16) ((ranges.length * 4 + 3) / 4) _).map _ = _
    rw [hcount, TlvValue.Serialize, hmany]
    rfl

/-- The octets of a value. -/
theorem length_Serialize (v : TlvValue) : v.Serialize.length = v.GetSerializedSize := by
  cases v with
  | u8 | u16 | u32 | tos | protocol => rfl
  | ipv4Address addresses =>
    simp [TlvValue.Serialize, TlvValue.GetSerializedSize, List.length_flatMap, writeHtonU32,
      length_bigEndian]
  | portRange ranges =>
    simp [TlvValue.Serialize, TlvValue.GetSerializedSize, List.length_flatMap, writeHtonU16,
      length_bigEndian]

/-! ### Vectors -/

variable {readValue : ReadValue V} {size : V → ℕ} {serialize : V → List UInt8}

/-- The decoder of a vector reads the TLV as it was written. -/
structure ReadsBack (readValue : ReadValue V) (size : V → ℕ) (serialize : V → List UInt8)
    (tlv : Tlv V) : Prop where
  length_ne : tlv.m_length ≠ 127
  sized : tlv.Sized size
  bytes : (serialize tlv.m_value).length = size tlv.m_value
  read : ∀ rest, readValue tlv.m_type tlv.m_length (serialize tlv.m_value ++ rest) =
    .ok (some (tlv.m_value, tlv.m_length, size tlv.m_value))

/-- The loop over a vector reads its elements back. -/
theorem vectorLoop_spec {tlvs : List (Tlv V)} (h : ∀ t ∈ tlvs, ReadsBack readValue size serialize t)
    {rounds s valueLength : ℕ} (hrounds : tlvs.length ≤ rounds)
    (hlength : s + vectorSize size tlvs = valueLength) (rest : List UInt8) :
    vectorLoop readValue valueLength rounds s (vectorBytes serialize tlvs ++ rest) =
      .ok (tlvs, valueLength) := by
  induction tlvs generalizing s rounds with
  | nil =>
    have hs : s = valueLength := hlength
    -- all bytes are read
    rw [vectorLoop.eq_def]
    dsimp only
    rw [if_neg (by omega), hs]
  | cons t tlvs ih =>
    obtain ⟨ht, htlvs⟩ := List.forall_mem_cons.mp h
    obtain ⟨rounds, rfl⟩ : ∃ n, rounds = n + 1 :=
      Nat.exists_eq_succ_of_ne_zero (Nat.ne_of_gt ((Nat.succ_pos _).trans_le hrounds))
    have hcons : vectorSize size (t :: tlvs) =
        1 + GetSizeOfLen t.m_length + size t.m_value + vectorSize size tlvs := rfl
    rw [hcons] at hlength
    have hbytes : vectorBytes serialize (t :: tlvs) ++ rest =
        t.m_type :: (lengthBytes t.m_length ++
          (serialize t.m_value ++ (vectorBytes serialize tlvs ++ rest))) := by
      simp [vectorBytes, Tlv.Serialize]
    have hnext : next t.m_length (serialize t.m_value ++ (vectorBytes serialize tlvs ++ rest)) =
        .ok (vectorBytes serialize tlvs ++ rest) := by
      rw [next, ht.sized.1, ← ht.bytes, if_pos (by simp), List.drop_left]
    -- the size that was read goes up by that of the TLV
    have hrest := ih htlvs (Nat.le_of_succ_le_succ hrounds)
      (s := s + (1 + GetSizeOfLen t.m_length) + size t.m_value) (by omega)
    rw [vectorLoop.eq_def]
    dsimp only
    rw [if_pos (by omega), hbytes]
    simp [readU8, bind, Except.bind, pure, Except.pure,
      readLength_lengthBytes ht.length_ne ht.sized.2, ht.read, hnext, hrest]

/-- Every element takes at least an octet. -/
theorem length_le_vectorSize (tlvs : List (Tlv V)) : tlvs.length ≤ vectorSize size tlvs := by
  rw [vectorSize, ← List.length_map (Tlv.GetSerializedSize size)]
  refine List.length_le_sum_of_one_le _ fun n hn => ?_
  obtain ⟨t, -, rfl⟩ := List.mem_map.mp hn
  rw [Tlv.GetSerializedSize]
  omega

/-- A vector reads back. -/
theorem vectorDeserialize_spec {tlvs : List (Tlv V)}
    (h : ∀ t ∈ tlvs, ReadsBack readValue size serialize t) (rest : List UInt8) :
    vectorDeserialize readValue (vectorSize size tlvs) (vectorBytes serialize tlvs ++ rest) =
      .ok (tlvs, vectorSize size tlvs) :=
  vectorLoop_spec h (length_le_vectorSize tlvs) (Nat.zero_add _) rest

/-- The octets of a vector. -/
theorem length_vectorBytes {tlvs : List (Tlv V)}
    (h : ∀ t ∈ tlvs, ReadsBack readValue size serialize t) :
    (vectorBytes serialize tlvs).length = vectorSize size tlvs := by
  induction tlvs with
  | nil => rfl
  | cons t tlvs ih =>
    obtain ⟨ht, htlvs⟩ := List.forall_mem_cons.mp h
    have hcons : vectorSize size (t :: tlvs) =
        1 + GetSizeOfLen t.m_length + size t.m_value + vectorSize size tlvs := rfl
    have hbytes : vectorBytes serialize (t :: tlvs) =
        Tlv.Serialize serialize t ++ vectorBytes serialize tlvs := rfl
    rw [hcons, hbytes, List.length_append, ih htlvs, Tlv.Serialize, List.length_cons,
      List.length_append, length_lengthBytes ht.sized.2, ht.bytes]
    omega

/-! ### Service flows -/

/-- A value reads back through its kind. -/
theorem readKind_Serialize (v : TlvValue) (rest : List UInt8) :
    readKind v.kind v.GetSerializedSize (v.Serialize ++ rest) =
      .ok (v, v.GetSerializedSize, v.GetSerializedSize) := by
  rw [readKind, Deserialize_Serialize]
  rfl

/-- A classifier rule reads back. -/
theorem RuleSupported.readsBack {t : Tlv TlvValue} (h : RuleSupported t) (hne : t.m_length ≠ 127) :
    ReadsBack readRuleValue TlvValue.GetSerializedSize TlvValue.Serialize t where
  length_ne := hne
  sized := h.1
  bytes := length_Serialize t.m_value
  read := by
    intro rest
    rw [readRuleValue, h.2, h.1.1]
    dsimp only
    rw [readKind_Serialize]
    rfl

/-- A convergence sublayer parameter reads back where no length is 127. -/
theorem CsSupported.readsBack {t : Tlv CsValue} (h : CsSupported t)
    (hlengths : 127 ∉ t.m_length :: t.m_value.lengths) :
    ReadsBack readCsValue CsValue.GetSerializedSize CsValue.Serialize t := by
  obtain ⟨type, length, value⟩ := t
  obtain ⟨hsized, hvalue⟩ := h
  obtain ⟨hne, hrest⟩ := List.ne_and_not_mem_of_not_mem_cons hlengths
  have hlength := hsized.1
  dsimp only at hvalue hlength hne hrest
  cases value with
  | value v =>
    obtain ⟨rfl, hkind⟩ := hvalue
    refine ⟨hne.symm, hsized, length_Serialize v, fun rest => ?_⟩
    have hread := readKind_Serialize v rest
    rw [hkind] at hread
    dsimp only
    rw [hlength]
    show (readKind .u8 v.GetSerializedSize (v.Serialize ++ rest)).map _ = _
    rw [hread]
    rfl
  | rule tlvs =>
    obtain ⟨rfl, htlvs⟩ := hvalue
    -- the rules are read by the decoder of their vector
    have hback (t) (ht : t ∈ tlvs) := (htlvs t ht).readsBack
      fun h127 => hrest (List.mem_map.mpr ⟨t, ht, h127⟩)
    refine ⟨hne.symm, hsized, length_vectorBytes hback, fun rest => ?_⟩
    dsimp only
    rw [hlength]
    show (vectorDeserialize readRuleValue (vectorSize TlvValue.GetSerializedSize tlvs)
      (vectorBytes TlvValue.Serialize tlvs ++ rest)).bind _ = _
    rw [vectorDeserialize_spec hback]
    rfl

/-- A service flow parameter reads back where no length is 127. -/
theorem SfSupported.readsBack {t : Tlv SfValue} (h : SfSupported t)
    (hlengths : 127 ∉ t.m_length :: t.m_value.lengths) :
    ReadsBack readSfValue SfValue.GetSerializedSize SfValue.Serialize t := by
  obtain ⟨type, length, value⟩ := t
  obtain ⟨hsized, hvalue⟩ := h
  obtain ⟨hne, hrest⟩ := List.ne_and_not_mem_of_not_mem_cons hlengths
  have hlength := hsized.1
  dsimp only at hvalue hlength hne hrest
  cases value with
  | value v =>
    refine ⟨hne.symm, hsized, length_Serialize v, fun rest => ?_⟩
    dsimp only at hvalue ⊢
    rw [readSfValue, hvalue, hlength]
    show (readKind v.kind v.GetSerializedSize (v.Serialize ++ rest)).map _ = _
    rw [readKind_Serialize]
    rfl
  | cs tlvs =>
    obtain ⟨rfl, htlvs⟩ := hvalue
    -- and so are the CS parameters
    have hback (t) (ht : t ∈ tlvs) := (htlvs t ht).readsBack
      fun h127 => hrest (List.mem_flatMap.mpr ⟨t, ht, h127⟩)
    refine ⟨hne.symm, hsized, length_vectorBytes hback, fun rest => ?_⟩
    dsimp only
    rw [hlength]
    show (vectorDeserialize readCsValue (vectorSize CsValue.GetSerializedSize tlvs)
      (vectorBytes CsValue.Serialize tlvs ++ rest)).bind _ = _
    rw [vectorDeserialize_spec hback]
    rfl

/-- A service flow without a length of 127 is read as it was written, whatever comes behind. -/
theorem serviceFlow_deserialize_serialize (tlv : Tlv (List (Tlv SfValue)))
    (hsupported : Supported tlv) (hlengths : 127 ∉ lengths tlv) (rest : List UInt8) :
    Tlv.Deserialize (tlv.Serialize (vectorBytes SfValue.Serialize) ++ rest) =
      .ok (tlv, tlv.GetSerializedSize (vectorSize SfValue.GetSerializedSize)) := by
  obtain ⟨type, length, tlvs⟩ := tlv
  obtain ⟨⟨hlength, hlt⟩, htype, htlvs⟩ := hsupported
  obtain ⟨hne, hrest⟩ := List.ne_and_not_mem_of_not_mem_cons hlengths
  have hback (t) (ht : t ∈ tlvs) := (htlvs t ht).readsBack
    fun h127 => hrest (List.mem_flatMap.mpr ⟨t, ht, h127⟩)
  dsimp only at hlength hlt hne htype
  have hread : readLength (lengthBytes length ++ (vectorBytes SfValue.Serialize tlvs ++ rest)) =
      .ok (length, GetSizeOfLen length, _) := readLength_lengthBytes hne.symm hlt
  have hval := vectorDeserialize_spec hback rest
  rw [← hlength] at hval
  simp only [Tlv.Serialize, Tlv.GetSerializedSize, List.cons_append, List.append_assoc,
    Tlv.Deserialize, readU8, bind, Except.bind, pure, Except.pure, hread, if_pos htype, hval]
  rw [← hlength]

/-- A service flow with CS parameters: a rule with two protocols, an address and 40 ports. -/
def ruledFlow : Tlv (List (Tlv SfValue)) :=
  ⟨146, 199, [⟨1, 4, .value (.u32 7)⟩, ⟨28, 1, .value (.u8 3)⟩, ⟨100, 187,
    .cs [⟨1, 1, .value (.u8 0)⟩, ⟨3, 181, .rule [⟨3, 2, .protocol [6, 17]⟩,
      ⟨5, 8, .ipv4Address [(0x0a000001, 0xffffffff)]⟩,
      ⟨6, 160, .portRange (List.replicate 40 (80, 443))⟩, ⟨14, 2, .u16 1⟩]⟩]⟩]⟩

/-- A service flow with a classifier rule. -/
theorem serviceFlow_deserialize_serialize_ruledFlow :
    Tlv.Deserialize (ruledFlow.Serialize (vectorBytes SfValue.Serialize) ++ []) =
      .ok (ruledFlow, ruledFlow.GetSerializedSize (vectorSize SfValue.GetSerializedSize)) :=
  serviceFlow_deserialize_serialize ruledFlow (by decide +kernel) (by decide +kernel) []

/-- A service flow of 127 bytes is written with a short length, and read as one with a long length
that takes all of them. -/
theorem not_serviceFlow_deserialize_serialize :
    ¬ ∀ tlv : Tlv (List (Tlv SfValue)), Supported tlv →
      Tlv.Deserialize (tlv.Serialize (vectorBytes SfValue.Serialize)) =
        .ok (tlv, tlv.GetSerializedSize (vectorSize SfValue.GetSerializedSize)) := by
  intro h
  have hflow := h ⟨146, 127, ⟨28, 1, .value (.u8 3)⟩ :: ⟨2, 2, .value (.u16 5)⟩ ::
    List.replicate 20 ⟨1, 4, .value (.u32 7)⟩⟩ (by decide +kernel)
  -- the bytes of the length are taken from the values
  revert hflow
  decide +kernel

end Ns3Joined.Wimax
