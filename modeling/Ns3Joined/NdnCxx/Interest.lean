import Ns3Joined.Fault
import Ns3Joined.NdnCxx.DelegationList

/-!
# Interests

`Interest` (`interest.hpp`, `interest.cpp`) with the four names of this tree: HashedName,
Protocol, AgentNodeID and DestinationNodeID. They have no TLV-TYPE of their own on the wire:
`wireEncode` writes each one that is not empty as a Name element, and `wireDecode` tells them by
their order alone. Since `wireEncode()` decodes what it wrote into the object itself, it may move
them (`wireEncode_eq_ok`).

A word `random` stands for the next `random::generateWord32`, and `sha256` for the digest of the
parameters. The octets of the wire are left out: `wireEncode` writes elements, which are read back
as they are, but for a forwarding hint, which comes back in order. Nobody catches what the two
throw. Left out as well is `m_isCanBePrefixSet`, which only decides whether a warning is printed.
-/

namespace Ns3Joined.Ndn

open ExceptFold

namespace tlv

def ApplicationParameters : ℕ := 36

/-- `isCriticalType`. -/
def isCriticalType (type : ℕ) : Bool := type ≤ 31 || type % 2 == 1

end tlv

/-- `DEFAULT_INTEREST_LIFETIME`, in milliseconds. -/
def DEFAULT_INTEREST_LIFETIME : UInt64 := 4000

structure Interest where
  name : Name := []
  canBePrefix : Bool := true
  mustBeFresh : Bool := false
  forwardingHint : List Delegation := []
  nonce : Option UInt32 := none
  interestLifetime : UInt64 := DEFAULT_INTEREST_LIFETIME
  hopLimit : Option UInt8 := none
  parameters : List Block := []
  hashedName : Name := []
  protocol : Name := []
  agentNodeID : Name := []
  destinationNodeID : Name := []
  /-- `m_wire.hasWire()`. -/
  hasWire : Bool := false
deriving DecidableEq

def Component.isParametersSha256Digest (comp : Component) : Bool :=
  comp.type == tlv.ParametersSha256DigestComponent && comp.value.length == DIGEST_SIZE

namespace Interest

/-- `getNonce`: an unset nonce is drawn. -/
def getNonce (random : UInt32) (interest : Interest) : UInt32 × Interest :=
  match interest.nonce with
  | some nonce => (nonce, interest)
  | none => (random, { interest with nonce := some random, hasWire := false })

/-- The octets of `kademlia`. -/
def kademlia : Bytes := [107, 97, 100, 101, 109, 108, 105, 97]

/-! ### The digest of the parameters -/

/-- `findParametersDigestComponent`: the index of the digest, `-1` when there is none and `-2` when
there are several. -/
def findParametersDigestComponent (name : Name) : ℤ :=
  match name.findIdxs Component.isParametersSha256Digest with
  | [] => -1
  | [i] => i
  | _ => -2

def hasApplicationParameters (interest : Interest) : Bool := !interest.parameters.isEmpty

section Digest

variable (sha256 : Bytes → Vector UInt8 DIGEST_SIZE) (interest : Interest)

def computeParametersDigest : Bytes := (sha256 (interest.parameters.flatMap Block.wire)).toList

def isParametersDigestValid : Bool :=
  let digestIndex := findParametersDigestComponent interest.name
  if digestIndex = -1 then !interest.hasApplicationParameters
  else if !interest.hasApplicationParameters then false
  else interest.name[digestIndex.toNat]?.any fun digestComponent =>
    digestComponent.value == interest.computeParametersDigest sha256

end Digest

/-! ### Elements -/

/-- An element that `wireEncode` writes. -/
inductive Element
  | name (name : Name)
  | canBePrefix
  | mustBeFresh
  | forwardingHint (forwardingHint : List Delegation)
  | nonce (nonce : UInt32)
  | interestLifetime (interestLifetime : UInt64)
  | hopLimit (hopLimit : UInt8)
  | parameter (element : Block)

/-- The four names, in the order in which they stand on the wire. -/
def names (interest : Interest) : List Name :=
  [interest.hashedName, interest.protocol, interest.agentNodeID, interest.destinationNodeID]

/-- What stands before the four names. -/
def elementsBefore (interest : Interest) (nonce : UInt32) : List Element :=
  (if interest.canBePrefix then [.canBePrefix] else []) ++
  (if interest.mustBeFresh then [.mustBeFresh] else []) ++
  (if interest.forwardingHint = [] then [] else [.forwardingHint interest.forwardingHint]) ++
  [.nonce nonce] ++
  (if interest.interestLifetime = DEFAULT_INTEREST_LIFETIME then []
    else [.interestLifetime interest.interestLifetime]) ++
  interest.hopLimit.toList.map .hopLimit

/-- What `wireEncode` writes behind the name, front to back. -/
def elements (interest : Interest) (nonce : UInt32) : List Element :=
  interest.elementsBefore nonce ++
  (interest.names.filter (· ≠ [])).map .name ++
  interest.parameters.map .parameter

/-- What the decoder holds between two elements: the object, and the place of the last recognized
element in the order of the specification. -/
structure Decoding where
  interest : Interest
  lastElement : ℕ

/-- The Name case: the names behind HopLimit, told apart by their order. -/
def decodeName (s : Decoding) (newName : Name) : Decoding :=
  let lastElement := if s.lastElement ≤ 8 then 8 else s.lastElement
  match lastElement with
  | 8 => ⟨{ s.interest with hashedName := newName }, 9⟩
  | 9 => ⟨{ s.interest with protocol := newName }, 10⟩
  | 10 => ⟨{ s.interest with agentNodeID := newName }, 11⟩
  | 11 => ⟨{ s.interest with destinationNodeID := newName }, 12⟩
  | _ => ⟨s.interest, lastElement⟩

/-- ApplicationParameters, of which those that are out of order are passed over, and the elements
that are not recognized. -/
def decodeParameter (s : Decoding) (element : Block) : Except Fault Decoding :=
  let pushed := { s.interest with parameters := s.interest.parameters ++ [element] }
  if element.type = tlv.ApplicationParameters then
    if 8 ≤ s.lastElement then .ok s else .ok ⟨pushed, 8⟩
  else if tlv.isCriticalType element.type then .error .abort
  else if s.interest.hasApplicationParameters then .ok ⟨pushed, s.lastElement⟩
  else .ok s

/-- One round of the loop of `wireDecode`. -/
def decodeElement (s : Decoding) : Element → Except Fault Decoding
  | .canBePrefix =>
    if 2 ≤ s.lastElement then .error .abort
    else .ok ⟨{ s.interest with canBePrefix := true }, 2⟩
  | .mustBeFresh =>
    if 3 ≤ s.lastElement then .error .abort
    else .ok ⟨{ s.interest with mustBeFresh := true }, 3⟩
  | .forwardingHint forwardingHint =>
    if 4 ≤ s.lastElement then .error .abort
    else .ok ⟨{ s.interest with forwardingHint := DelegationList.insertAll forwardingHint }, 4⟩
  | .nonce nonce =>
    if 5 ≤ s.lastElement then .error .abort
    else .ok ⟨{ s.interest with nonce := some nonce }, 5⟩
  | .interestLifetime interestLifetime =>
    if 6 ≤ s.lastElement then .error .abort
    else .ok ⟨{ s.interest with interestLifetime := interestLifetime }, 6⟩
  | .hopLimit hopLimit =>
    -- HopLimit is non-critical: out of order, it is ignored
    if 7 ≤ s.lastElement then .ok s
    else .ok ⟨{ s.interest with hopLimit := some hopLimit }, 7⟩
  | .parameter element => decodeParameter s element
  | .name newName => .ok (decodeName s newName)

/-- The object when the loop of `wireDecode` begins: the fields are reset, all but the four
names. -/
def reset (interest : Interest) (name : Name) : Interest :=
  { interest with
    hasWire := true
    name := name
    canBePrefix := false
    mustBeFresh := false
    forwardingHint := []
    nonce := none
    interestLifetime := DEFAULT_INTEREST_LIFETIME
    hopLimit := none
    parameters := [] }

section Wire

variable (sha256 : Bytes → Vector UInt8 DIGEST_SIZE) (autoCheck : Bool) (interest : Interest)

/-- `wireDecode`, of a name and the elements behind it. `autoCheck` is
`s_autoCheckParametersDigest`. -/
def wireDecode (name : Name) (elements : List Element) : Except Fault Interest := do
  if name = [] ∨ findParametersDigestComponent name = -2 then throw .abort
  let s ← elements.foldlM decodeElement ⟨interest.reset name, 1⟩
  if autoCheck ∧ ¬ s.interest.isParametersDigestValid sha256 then throw .abort
  return s.interest

/-- `wireEncode()`: without a wire, one is written, which the object decodes into itself. -/
def wireEncode (random : UInt32) : Except Fault Interest :=
  if interest.hasWire then .ok interest
  else
    let digestIndex := findParametersDigestComponent interest.name
    if digestIndex = -2 then .error .abort
    else if digestIndex = -1 ∧ interest.hasApplicationParameters then .error .abort
    else if digestIndex ≠ -1 ∧ ¬ interest.hasApplicationParameters then .error .abort
    else
      let drawn := interest.getNonce random
      drawn.2.wireDecode sha256 autoCheck interest.name (drawn.2.elements drawn.1)

end Wire

/-! ### What encoding changes -/

/-- The Protocol after the names were written and read back: the second one that is not empty. -/
def protocolOnWire (interest : Interest) : Name :=
  (interest.names.filter (· ≠ []))[1]?.getD interest.protocol

/-- Another object, whose names may differ but for the first. -/
structure Alike (interest' interest : Interest) : Prop where
  name : interest'.name = interest.name
  canBePrefix : interest'.canBePrefix = interest.canBePrefix
  mustBeFresh : interest'.mustBeFresh = interest.mustBeFresh
  nonce : interest'.nonce = interest.nonce
  hasWire : interest'.hasWire = interest.hasWire

variable {s s' : Decoding} {interest interest' other : Interest} {newName name : Name}

theorem Alike.refl (interest : Interest) : Alike interest interest := ⟨rfl, rfl, rfl, rfl, rfl⟩

theorem Alike.trans (h : Alike interest' interest) (h' : Alike interest other) :
    Alike interest' other :=
  ⟨h.name.trans h'.name, h.canBePrefix.trans h'.canBePrefix, h.mustBeFresh.trans h'.mustBeFresh,
    h.nonce.trans h'.nonce, h.hasWire.trans h'.hasWire⟩

/-- Decoding a name changes names only. -/
theorem decodeName_alike (s : Decoding) (newName : Name) :
    Alike (decodeName s newName).interest s.interest := by
  unfold decodeName
  dsimp only
  split <;> exact ⟨rfl, rfl, rfl, rfl, rfl⟩

/-- Behind the Protocol, names are something else. -/
theorem decodeName_of_ge (h : 10 ≤ s.lastElement) (newName : Name) :
    (decodeName s newName).interest.protocol = s.interest.protocol ∧
      10 ≤ (decodeName s newName).lastElement := by
  unfold decodeName
  dsimp only
  rw [if_neg (by omega : ¬ s.lastElement ≤ 8)]
  split
  · omega
  · omega
  · exact ⟨rfl, Nat.le_of_ble_eq_true rfl⟩
  · exact ⟨rfl, Nat.le_of_ble_eq_true rfl⟩
  · exact ⟨rfl, h⟩

/-- Names that come after the other elements change neither the rest nor the protocol. -/
theorem decode_names_of_ge {names : List Name} (h : 10 ≤ s.lastElement)
    (hok : (names.map Element.name).foldlM decodeElement s = .ok s') :
    Alike s'.interest s.interest ∧ s'.interest.protocol = s.interest.protocol := by
  induction names generalizing s with
  | nil =>
    cases hok
    exact ⟨.refl _, rfl⟩
  | cons newName names ih =>
    obtain ⟨t, ht, hok⟩ := foldlM_cons_eq_ok_iff.mp hok
    cases ht
    obtain ⟨hprotocol, hge⟩ := decodeName_of_ge h newName
    obtain ⟨halike, hsame⟩ := ih hge hok
    exact ⟨halike.trans (decodeName_alike s newName), hsame.trans hprotocol⟩

/-- The second of the names is taken for the Protocol. -/
theorem decode_names {names : List Name} (h : s.lastElement ≤ 8)
    (hok : (names.map Element.name).foldlM decodeElement s = .ok s') :
    Alike s'.interest s.interest ∧
      s'.interest.protocol = names[1]?.getD s.interest.protocol := by
  have hfirst : ∀ newName,
      decodeName s newName = ⟨{ s.interest with hashedName := newName }, 9⟩ := by
    intro newName
    unfold decodeName
    rw [if_pos h]
    rfl
  match names with
  | [] =>
    cases hok
    exact ⟨.refl _, rfl⟩
  | [newName] =>
    obtain ⟨t, ht, hok⟩ := foldlM_cons_eq_ok_iff.mp hok
    cases ht
    cases hok
    rw [hfirst]
    exact ⟨⟨rfl, rfl, rfl, rfl, rfl⟩, rfl⟩
  | newName :: newName' :: names =>
    obtain ⟨t, ht, hok⟩ := foldlM_cons_eq_ok_iff.mp hok
    cases ht
    obtain ⟨t, ht, hok⟩ := foldlM_cons_eq_ok_iff.mp hok
    cases ht
    rw [hfirst] at hok
    obtain ⟨halike, hprotocol⟩ := decode_names_of_ge (by show 10 ≤ 10; decide) hok
    exact ⟨halike.trans ⟨rfl, rfl, rfl, rfl, rfl⟩, hprotocol⟩

/-- Parameters change neither the rest nor the protocol. -/
theorem decode_parameters {blocks : List Block}
    (hok : (blocks.map Element.parameter).foldlM decodeElement s = .ok s') :
    Alike s'.interest s.interest ∧ s'.interest.protocol = s.interest.protocol := by
  induction blocks generalizing s with
  | nil =>
    cases hok
    exact ⟨.refl _, rfl⟩
  | cons element blocks ih =>
    obtain ⟨t, ht, hok⟩ := foldlM_cons_eq_ok_iff.mp hok
    have hstep : Alike t.interest s.interest ∧ t.interest.protocol = s.interest.protocol := by
      change decodeParameter s element = .ok t at ht
      unfold decodeParameter at ht
      dsimp only at ht
      split_ifs at ht <;> cases ht <;> exact ⟨⟨rfl, rfl, rfl, rfl, rfl⟩, rfl⟩
    obtain ⟨halike, hprotocol⟩ := ih hok
    exact ⟨halike.trans hstep.1, hprotocol.trans hstep.2⟩

/-- What stands before the four names is in order. -/
theorem decode_before (interest : Interest) (nonce : UInt32) :
    ∃ s, (interest.elementsBefore nonce).foldlM decodeElement
        ⟨interest.reset interest.name, 1⟩ = .ok s ∧ s.lastElement ≤ 8 ∧
      Alike s.interest { interest with nonce := some nonce, hasWire := true } ∧
      s.interest.protocol = interest.protocol := by
  obtain ⟨name, canBePrefix, mustBeFresh, forwardingHint, _, interestLifetime, hopLimit, _, _, _, _,
    _, _⟩ := interest
  unfold elementsBefore
  dsimp only
  cases canBePrefix <;> cases mustBeFresh <;> cases hopLimit <;>
    by_cases hhint : forwardingHint = [] <;>
    by_cases hlifetime : interestLifetime = DEFAULT_INTEREST_LIFETIME <;>
    simp only [hhint, hlifetime, if_true, if_false] <;>
    exact ⟨_, rfl, Nat.le_of_ble_eq_true rfl, ⟨rfl, rfl, rfl, rfl, rfl⟩, rfl⟩

variable {sha256 : Bytes → Vector UInt8 DIGEST_SIZE} {autoCheck : Bool} {random : UInt32}

/-- **What `wireEncode()` does to its object.** An object without a wire gets the second of its
names that are not empty as its Protocol; what else entries are found by stays. -/
theorem wireEncode_eq_ok (hok : interest.wireEncode sha256 autoCheck random = .ok interest') :
    interest.hasWire = true ∧ interest' = interest ∨
      interest.hasWire = false ∧
        Alike interest' { (interest.getNonce random).2 with hasWire := true } ∧
        interest'.protocol = interest.protocolOnWire := by
  unfold wireEncode at hok
  by_cases hwire : interest.hasWire = true
  · rw [if_pos hwire] at hok
    cases hok
    exact .inl ⟨hwire, rfl⟩
  refine .inr ⟨Bool.eq_false_iff.mpr hwire, ?_⟩
  rw [if_neg hwire] at hok
  dsimp only at hok
  split_ifs at hok
  -- drawing a nonce leaves the names as they are
  have hdrawn : (interest.getNonce random).2.name = interest.name ∧
      (interest.getNonce random).2.names = interest.names ∧
      (interest.getNonce random).2.protocol = interest.protocol ∧
      (interest.getNonce random).2.nonce = some (interest.getNonce random).1 := by
    unfold getNonce
    cases hnonce : interest.nonce with
    | some nonce => exact ⟨rfl, rfl, rfl, hnonce⟩
    | none => exact ⟨rfl, rfl, rfl, rfl⟩
  obtain ⟨hname, hnames, hprotocol, hnonce⟩ := hdrawn
  generalize interest.getNonce random = drawn at *
  unfold wireDecode at hok
  rw [← hname] at hok
  split_ifs at hok
  · cases hok
  obtain ⟨s, hs, hok⟩ := bind_eq_ok_iff.mp hok
  split_ifs at hok
  · cases hok
  cases hok
  unfold elements at hs
  rw [List.foldlM_append, List.foldlM_append] at hs
  obtain ⟨t, ht, hs⟩ := bind_eq_ok_iff.mp hs
  obtain ⟨u, hu, ht⟩ := bind_eq_ok_iff.mp ht
  obtain ⟨v, hv, hlast, halike, hsame⟩ := decode_before drawn.2 drawn.1
  cases hu.symm.trans hv
  obtain ⟨halike', hsecond⟩ := decode_names hlast ht
  obtain ⟨halike'', hsame'⟩ := decode_parameters hs
  rw [← hnonce] at halike
  refine ⟨halike''.trans (halike'.trans halike), hsame'.trans (hsecond.trans ?_)⟩
  unfold protocolOnWire
  rw [hnames, hsame, hprotocol]

end Interest
end Ns3Joined.Ndn
