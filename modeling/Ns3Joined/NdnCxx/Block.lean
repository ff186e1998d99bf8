import Ns3Joined.Library.PrefixCode
import Ns3Joined.NdnCxx.Name

/-!
# TLV blocks

The part of `encoding/tlv.hpp`, `encoder.cpp`, `block-helpers.cpp` and `block.cpp` that
packets are written and read with. A `Block` is a block that has a wire: its header, as it
stands in the buffer, and its value. The header need not be the shortest one for its type
and length, but it is one: that is the field `reads`, so that `Block.read` gives back every
block from its wire (`Block.reads_wire`).

`Block.parse` splits a value into sub-elements. It accepts exactly the values that are wires
of blocks, one after the other (`Block.parse_eq_ok_iff`).
-/

namespace Ns3Joined.Ndn

open PrefixCode List

/-- A call that may throw, with the text of what it throws. -/
abbrev Result := Except String

variable {n type length : ℕ} {rest input : Bytes}

namespace tlv

def Invalid : ℕ := 0

/-! ### Numbers -/

/-- `detail::ReadNumber`, with the error of the callers that throw. -/
def readNumber (size : ℕ) : Reader String ℕ := fun input =>
  if input.length < size then .error "Insufficient data during TLV parsing"
  else .ok (ofBigEndian (input.take size), input.drop size)

def readVarNumber : Reader String ℕ
  | [] => .error "Empty buffer during TLV parsing"
  | firstOctet :: rest =>
    if firstOctet < 253 then .ok (firstOctet.toNat, rest)
    else readNumber (if firstOctet = 253 then 2 else if firstOctet = 254 then 4 else 8) rest

def readType : Reader String ℕ :=
  bind readVarNumber fun type rest =>
    if type = Invalid ∨ 2 ^ 32 - 1 < type then .error ("Illegal TLV-TYPE " ++ toString type)
    else .ok (type, rest)

/-- The octets that `Encoder::prependVarNumber` writes. -/
def prependVarNumber (number : ℕ) : Bytes :=
  if number < 253 then [UInt8.ofNat number]
  else if number ≤ 2 ^ 16 - 1 then 253 :: toBigEndian 2 number
  else if number ≤ 2 ^ 32 - 1 then 254 :: toBigEndian 4 number
  else 255 :: toBigEndian 8 number

/-- A number that fits its octets reads back. -/
theorem reads_readNumber (size : ℕ) (h : n < 256 ^ size) :
    Reads (readNumber size) (toBigEndian size n) n := by
  intro rest
  have hlen : ¬ (toBigEndian size n ++ rest).length < size := by
    rw [length_append, length_toBigEndian]
    omega
  unfold readNumber
  rw [if_neg hlen, take_left' (length_toBigEndian size n),
    drop_left' (length_toBigEndian size n), ofBigEndian_toBigEndian h]

/-- A variable-length number reads back. -/
theorem reads_readVarNumber (h : n < 2 ^ 64) : Reads readVarNumber (prependVarNumber n) n := by
  intro rest
  unfold prependVarNumber
  by_cases h8 : n < 253
  · have hoctet : (UInt8.ofNat n).toNat = n := by
      rw [UInt8.toNat_ofNat']
      omega
    have hlt : UInt8.ofNat n < 253 := by
      rw [UInt8.lt_iff_toNat_lt, hoctet]
      exact h8
    rw [if_pos h8]
    show readVarNumber (UInt8.ofNat n :: rest) = _
    unfold readVarNumber
    dsimp only
    rw [if_pos hlt, hoctet]
  · rw [if_neg h8]
    by_cases h16 : n ≤ 2 ^ 16 - 1
    · rw [if_pos h16]
      exact reads_readNumber 2 (by omega) rest
    · rw [if_neg h16]
      by_cases h32 : n ≤ 2 ^ 32 - 1
      · rw [if_pos h32]
        exact reads_readNumber 4 (by omega) rest
      · rw [if_neg h32]
        exact reads_readNumber 8 (by omega) rest

/-- What `readNumber` takes is as long as it was told. -/
theorem readNumber_eq_ok {size : ℕ} (h : readNumber size input = .ok (n, rest)) :
    input = input.take size ++ rest ∧ Reads (readNumber size) (input.take size) n := by
  unfold readNumber at h
  by_cases hlen : input.length < size
  · rw [if_pos hlen] at h
    cases h
  · rw [if_neg hlen] at h
    cases h
    refine ⟨(take_append_drop size input).symm, fun rest' => ?_⟩
    have htake : (input.take size).length = size := length_take_of_le (by omega)
    unfold readNumber
    rw [if_neg (by rw [length_append]; omega), take_left' htake,
      drop_left' htake]

/-- A variable-length number is read from the front. -/
theorem splits_readVarNumber : Splits readVarNumber := by
  intro input n rest h
  match input with
  | [] => cases h
  | firstOctet :: input =>
    unfold readVarNumber at h
    dsimp only at h
    by_cases h8 : firstOctet < 253
    · rw [if_pos h8] at h
      cases h
      refine ⟨[firstOctet], rfl, by simp, fun rest' => ?_⟩
      exact if_pos h8
    · rw [if_neg h8] at h
      obtain ⟨hinput, hreads⟩ := readNumber_eq_ok h
      refine ⟨firstOctet :: input.take _, congrArg (firstOctet :: ·) hinput, by simp, ?_⟩
      intro rest'
      exact (if_neg h8).trans (hreads rest')

/-- A type that the packet format allows. -/
def IsType (type : ℕ) : Prop := 0 < type ∧ type < 2 ^ 32

instance (type : ℕ) : Decidable (IsType type) := inferInstanceAs (Decidable (_ ∧ _))

/-- A type reads back. -/
theorem reads_readType (h : IsType type) : Reads readType (prependVarNumber type) type := by
  have hread : Reads readVarNumber (prependVarNumber type) type :=
    reads_readVarNumber (by unfold IsType at h; omega)
  intro rest
  unfold readType PrefixCode.bind
  rw [hread rest]
  exact if_neg (by unfold IsType at h; unfold Invalid; omega)

/-- A type is read from the front. -/
theorem splits_readType : Splits readType := by
  intro input type rest h
  unfold readType PrefixCode.bind at h
  match hread : readVarNumber input with
  | .error e => rw [hread] at h; cases h
  | .ok (n, rest') =>
    rw [hread] at h
    dsimp only at h
    by_cases hn : n = Invalid ∨ 2 ^ 32 - 1 < n
    · rw [if_pos hn] at h
      cases h
    · rw [if_neg hn] at h
      cases h
      obtain ⟨code, hinput, hne, hcode⟩ := splits_readVarNumber _ _ _ hread
      refine ⟨code, hinput, hne, fun rest' => ?_⟩
      unfold readType PrefixCode.bind
      rw [hcode rest']
      exact if_neg hn

/-- The octets that `Encoder::prependNonNegativeInteger` writes. -/
def prependNonNegativeInteger (number : ℕ) : Bytes :=
  if number ≤ 2 ^ 8 - 1 then [UInt8.ofNat number]
  else if number ≤ 2 ^ 16 - 1 then toBigEndian 2 number
  else if number ≤ 2 ^ 32 - 1 then toBigEndian 4 number
  else toBigEndian 8 number

/-- `readNonNegativeInteger`, on the value of a block. -/
def readNonNegativeInteger (value : Bytes) : Result ℕ :=
  if value.length ≠ 1 ∧ value.length ≠ 2 ∧ value.length ≠ 4 ∧ value.length ≠ 8 then
    .error ("Invalid length " ++ toString value.length ++ " for nonNegativeInteger")
  else .ok (ofBigEndian value)

/-- A non-negative integer reads back in the fewest octets. -/
theorem readNonNegativeInteger_prepend (h : n < 2 ^ 64) :
    readNonNegativeInteger (prependNonNegativeInteger n) = .ok n := by
  -- every branch writes one of the four lengths
  have hread : ∀ size, (size = 1 ∨ size = 2 ∨ size = 4 ∨ size = 8) → n < 256 ^ size →
      readNonNegativeInteger (toBigEndian size n) = .ok n := by
    intro size hsize hn
    unfold readNonNegativeInteger
    rw [length_toBigEndian, if_neg (by omega), ofBigEndian_toBigEndian hn]
  unfold prependNonNegativeInteger
  by_cases h8 : n ≤ 2 ^ 8 - 1
  · rw [if_pos h8]
    exact hread 1 (by simp) (by omega)
  · rw [if_neg h8]
    by_cases h16 : n ≤ 2 ^ 16 - 1
    · rw [if_pos h16]
      exact hread 2 (by simp) (by omega)
    · rw [if_neg h16]
      by_cases h32 : n ≤ 2 ^ 32 - 1
      · rw [if_pos h32]
        exact hread 4 (by simp) (by omega)
      · rw [if_neg h32]
        exact hread 8 (by simp) (by omega)

/-! ### Elements -/

/-- Type and length, where a block begins. -/
def readHeader : Reader String (ℕ × ℕ) :=
  bind readType fun type => bind readVarNumber fun length rest => .ok ((type, length), rest)

/-- The octets of an element, as `prependByteArrayBlock` writes them. -/
def prependByteArrayBlock (type : ℕ) (value : Bytes) : Bytes :=
  prependVarNumber type ++ prependVarNumber value.length ++ value

/-- A header reads back. -/
theorem reads_readHeader (ht : IsType type) (hl : length < 2 ^ 64) :
    Reads readHeader (prependVarNumber type ++ prependVarNumber length) (type, length) := by
  refine (reads_readType ht).bind fun rest => ?_
  unfold PrefixCode.bind
  rw [reads_readVarNumber hl rest]

/-- A header is read from the front. -/
theorem splits_readHeader : Splits readHeader := by
  refine splits_readType.bind fun type input header rest h => ?_
  unfold PrefixCode.bind at h
  match hread : readVarNumber input with
  | .error e => rw [hread] at h; cases h
  | .ok (length, rest') =>
    rw [hread] at h
    cases h
    obtain ⟨code, hinput, hne, hcode⟩ := splits_readVarNumber input length rest hread
    refine ⟨code, hinput, hne, fun rest' => ?_⟩
    unfold PrefixCode.bind
    rw [hcode rest']

end tlv

/-! ### Blocks -/

/-- A block with a wire. -/
structure Block where
  type : ℕ
  header : Bytes
  value : Bytes
  reads : Reads tlv.readHeader header (type, value.length)
deriving DecidableEq

variable {block : Block}

namespace Block

/-- The octets of the block, from `begin()` to `end()`. -/
def wire (block : Block) : Bytes := block.header ++ block.value

/-- Every header has an octet. -/
theorem header_ne_nil (block : Block) : block.header ≠ [] := by
  intro h
  have hread := block.reads []
  rw [h] at hread
  cases hread

/-- Every wire has an octet. -/
theorem wire_ne_nil (block : Block) : block.wire ≠ [] :=
  append_ne_nil_of_left_ne_nil block.header_ne_nil _

/-- The header that was read, as it stands in the input. -/
theorem reads_of_readHeader (h : tlv.readHeader input = .ok ((type, length), rest))
    (hlen : ¬ rest.length < length) :
    Reads tlv.readHeader (input.take (input.length - rest.length))
      (type, (rest.take length).length) := by
  obtain ⟨code, rfl, -, hcode⟩ := tlv.splits_readHeader _ _ _ h
  have hsub : (code ++ rest).length - rest.length = code.length := by
    rw [length_append, Nat.add_sub_cancel]
  rw [hsub, take_left' rfl, length_take_of_le (by omega)]
  exact hcode

/-- One round of the loop of `Block::parse`: the sub-element at the front. -/
def read : Reader String Block := fun input =>
  match h : tlv.readHeader input with
  | .error e => .error e
  | .ok ((type, length), rest) =>
    if hlen : rest.length < length then
      .error ("TLV-LENGTH of sub-element of type " ++ toString type ++
        " exceeds TLV-VALUE boundary of parent block")
    else
      .ok (⟨type, input.take (input.length - rest.length), rest.take length,
        reads_of_readHeader h hlen⟩, rest.drop length)

/-- `Block::parse`. -/
def parse (block : Block) : Result (List Block) :=
  readAll read block.value.length block.value

/-- What `read` does with an input whose header is known. -/
theorem read_eq (h : tlv.readHeader input = .ok ((type, length), rest))
    (hlen : ¬ rest.length < length) :
    read input = .ok (⟨type, input.take (input.length - rest.length), rest.take length,
      reads_of_readHeader h hlen⟩, rest.drop length) := by
  unfold read
  split
  next e he =>
    rw [h] at he
    cases he
  next type' length' rest' h' =>
    have heq := h.symm.trans h'
    cases heq
    rw [dif_neg hlen]

/-- A block reads back from its wire. -/
theorem reads_wire (block : Block) : Reads read block.wire block := by
  intro rest
  obtain ⟨type, header, value, hreads⟩ := block
  unfold wire
  dsimp only
  rw [append_assoc]
  have hlen : ¬ (value ++ rest).length < value.length := by
    rw [length_append]
    omega
  have hsub : (header ++ (value ++ rest)).length - (value ++ rest).length = header.length := by
    rw [length_append, Nat.add_sub_cancel]
  rw [read_eq (hreads (value ++ rest)) hlen]
  congr 2
  · congr 1
    · rw [hsub, take_left' rfl]
    · exact take_left' rfl
  · exact drop_left' rfl

/-- What is read from a wire is the block with what follows. -/
theorem wire_append_of_read {input rest : Bytes} (h : read input = .ok (block, rest)) :
    input = block.wire ++ rest := by
  match hheader : tlv.readHeader input with
  | .error e =>
    unfold read at h
    split at h
    · cases h
    next h' => rw [hheader] at h'; cases h'
  | .ok ((type, length), rest') =>
    by_cases hlen : rest'.length < length
    · unfold read at h
      split at h
      · cases h
      next h' =>
        have heq := hheader.symm.trans h'
        cases heq
        rw [dif_pos hlen] at h
        cases h
    · rw [read_eq hheader hlen] at h
      cases h
      obtain ⟨code, rfl, -, -⟩ := tlv.splits_readHeader _ _ _ hheader
      have hsub : (code ++ rest').length - rest'.length = code.length := by
        rw [length_append, Nat.add_sub_cancel]
      unfold wire
      dsimp only
      rw [hsub, take_left' rfl, append_assoc, take_append_drop]

/-- The elements parsed are those whose wires make up the value. -/
theorem parse_eq_ok_iff {elements : List Block} :
    block.parse = .ok elements ↔ elements.flatMap wire = block.value :=
  readAll_eq_ok_iff reads_wire (fun _ _ _ h => wire_append_of_read h) wire_ne_nil

end Block

/-- `makeBinaryBlock`: the block of a type and a value, with the shortest header. -/
def makeBinaryBlock (type : ℕ) (value : Bytes) (ht : tlv.IsType type)
    (hv : value.length < 2 ^ 64) : Block :=
  ⟨type, tlv.prependVarNumber type ++ tlv.prependVarNumber value.length, value,
    tlv.reads_readHeader ht hv⟩

@[simp] theorem wire_makeBinaryBlock (type : ℕ) (value : Bytes) (ht : tlv.IsType type)
    (hv : value.length < 2 ^ 64) :
    (makeBinaryBlock type value ht hv).wire = tlv.prependByteArrayBlock type value := rfl

/-! ### Names on the wire -/

namespace tlv

def Name : ℕ := 7

end tlv

/-- The octets that `Component::wireEncode` writes. -/
def Component.wireEncode (comp : Component) : Bytes :=
  tlv.prependByteArrayBlock comp.type comp.value

variable {name : Name} {wire : Block}

namespace Name

/-- The octets that `Name::wireEncode` writes. -/
def wireEncode (name : Name) : Bytes :=
  tlv.prependByteArrayBlock tlv.Name (name.flatMap Component.wireEncode)

/-- The sub-elements of a block as name components. -/
def ofElements (elements : List Block) : Name :=
  elements.map fun element => ⟨element.type, element.value⟩

/-- `Name(const Block&)`. -/
def ofBlock (wire : Block) : Result Name :=
  match wire.parse with
  | .error e => .error e
  | .ok elements => .ok (ofElements elements)

/-- The types of the components are types of the packet format: true of a component that a
constructor checked and of one that was decoded. -/
def Valid (name : Name) : Prop := ∀ comp ∈ name, tlv.IsType comp.type

/-- The blocks of the components of a name. -/
theorem exists_elements {name : Name} (hname : name.Valid)
    (hsize : (name.flatMap Component.wireEncode).length < 2 ^ 64) :
    ∃ elements : List Block, elements.flatMap Block.wire = name.flatMap Component.wireEncode ∧
      ofElements elements = name := by
  induction name with
  | nil => exact ⟨[], rfl, rfl⟩
  | cons comp name ih =>
    rw [flatMap_cons, length_append] at hsize
    have hvalue : comp.value.length < 2 ^ 64 := by
      unfold Component.wireEncode tlv.prependByteArrayBlock at hsize
      simp only [length_append] at hsize
      omega
    obtain ⟨elements, hwire, hofElements⟩ :=
      ih (fun c hc => hname c (mem_cons_of_mem _ hc)) (by omega)
    refine ⟨makeBinaryBlock comp.type comp.value (hname comp mem_cons_self) hvalue ::
      elements, ?_, ?_⟩
    · rw [flatMap_cons, flatMap_cons, hwire, wire_makeBinaryBlock]
      rfl
    · exact congrArg (comp :: ·) hofElements

/-- A wire with the components of a valid name is decoded as the name. -/
theorem ofBlock_eq_ok (hname : name.Valid) (hwire : wire.value = name.flatMap Component.wireEncode)
    (hsize : wire.value.length < 2 ^ 64) : ofBlock wire = .ok name := by
  rw [hwire] at hsize
  obtain ⟨elements, hflat, hofElements⟩ := exists_elements hname hsize
  have hparse : wire.parse = .ok elements :=
    Block.parse_eq_ok_iff.mpr (hflat.trans hwire.symm)
  unfold ofBlock
  rw [hparse]
  exact congrArg _ hofElements

end Name

end Ns3Joined.Ndn
