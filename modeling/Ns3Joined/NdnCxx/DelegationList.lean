import Ns3Joined.Library.ExceptFold
import Ns3Joined.NdnCxx.Block

/-!
# Delegation lists

`DelegationList` (`delegation-list.cpp`) as the forwarding hint of an Interest: encoded as
it stands, decoded with `wantSort`, so that every delegation is inserted at its upper bound.
A list therefore comes back from the wire as it was exactly if it is sorted
(`wireDecode_wireEncode`).

The components of the names are taken to have shortest headers, as the ones that are encoded here
have. Of a list that was encoded by others, `Component::compare` reads the headers that came.
-/

namespace Ns3Joined.Ndn

open PrefixCode ExceptFold List

namespace tlv

def Content : ℕ := 21

def ForwardingHint : ℕ := 30

def LinkDelegation : ℕ := 31

def LinkPreference : ℕ := 30

end tlv

structure Delegation where
  preference : UInt64
  name : Name
deriving DecidableEq, Repr

namespace Delegation

/-- `operator<` compares the preference, then the name. -/
instance : Ord Delegation := ⟨compareLex (compareOn preference) (compareOn name)⟩

instance : Std.TransOrd Delegation :=
  inferInstanceAs (Std.TransCmp (compareLex (compareOn preference) (compareOn name)))

/-- The octets of one delegation, as `DelegationList::wireEncode` writes them. -/
def prepend (del : Delegation) : Bytes :=
  tlv.prependByteArrayBlock tlv.LinkDelegation
    (tlv.prependByteArrayBlock tlv.LinkPreference
      (tlv.prependNonNegativeInteger del.preference.toNat) ++ del.name.wireEncode)

end Delegation

variable {acc dels : List Delegation} {del : Delegation} {block : Block}

namespace DelegationList

/-- `insertImpl` on a sorted list: in front of the first delegation that is greater. -/
def insertImpl : List Delegation → Delegation → List Delegation
  | [], del => [del]
  | d :: dels, del =>
    if compare del d = .lt then del :: d :: dels else d :: insertImpl dels del

/-- `wireEncode`, for a list that is not empty. -/
def wireEncode (dels : List Delegation) : Bytes :=
  tlv.prependByteArrayBlock tlv.ForwardingHint (dels.flatMap Delegation.prepend)

/-- One round of the loop of `wireDecode`. -/
def decodeDelegation (dels : List Delegation) (del : Block) : Result (List Delegation) :=
  if del.type ≠ tlv.LinkDelegation then
    .error ("Unexpected TLV-TYPE " ++ toString del.type ++ " while decoding Delegation")
  else
    match del.parse with
    | .error e => .error e
    | .ok [] => .error "Missing Preference field in Delegation"
    | .ok (val :: rest) =>
      if val.type ≠ tlv.LinkPreference then .error "Missing Preference field in Delegation"
      else
        match tlv.readNonNegativeInteger val.value with
        | .error _ => .error "Invalid Preference field in Delegation"
        | .ok preference =>
          match rest with
          | [] => .error "Missing Name field in Delegation"
          | val :: _ =>
            if val.type ≠ tlv.Name then .error "Missing Name field in Delegation"
            else
              match Name.ofBlock val with
              | .error _ => .error "Invalid Name field in Delegation"
              | .ok name => .ok (insertImpl dels ⟨UInt64.ofNat preference, name⟩)

def wireDecode (block : Block) : Result (List Delegation) := do
  if block.type ≠ tlv.Content ∧ block.type ≠ tlv.ForwardingHint then
    throw ("Unexpected TLV-TYPE " ++ toString block.type ++ " while decoding DelegationList")
  let elements ← block.parse
  let dels ← elements.foldlM decodeDelegation []
  if dels = [] then throw "Empty DelegationList"
  return dels

/-! ### Sorted lists -/

/-- What `insertImpl` keeps. -/
def Sorted (dels : List Delegation) : Prop := dels.Pairwise fun d d' => compare d' d ≠ .lt

/-- Insertion adds the delegation and keeps the others. -/
theorem mem_insertImpl {d : Delegation} : d ∈ insertImpl dels del ↔ d = del ∨ d ∈ dels := by
  induction dels with
  | nil => exact mem_cons
  | cons x dels ih =>
    unfold insertImpl
    split_ifs
    · exact mem_cons
    · rw [mem_cons, ih, mem_cons]
      exact or_left_comm

/-- Insertion keeps the list sorted. -/
theorem insertImpl_sorted (h : Sorted dels) (del : Delegation) : Sorted (insertImpl dels del) := by
  induction dels with
  | nil => exact pairwise_singleton _ _
  | cons d dels ih =>
    obtain ⟨hd, hdels⟩ := pairwise_cons.mp h
    unfold insertImpl
    by_cases hlt : compare del d = .lt
    · rw [if_pos hlt]
      refine pairwise_cons.mpr ⟨fun d' hd' hlt' => ?_, h⟩
      -- `d'` is not before `d`, and `d` is after `del`
      rcases mem_cons.mp hd' with rfl | hd'
      · exact absurd (Std.TransCmp.lt_trans hlt hlt') (by simp)
      · exact hd d' hd' (Std.TransCmp.lt_trans hlt' hlt)
    · rw [if_neg hlt]
      refine pairwise_cons.mpr ⟨fun d' hd' => ?_, ih hdels⟩
      rcases mem_insertImpl.mp hd' with rfl | hd'
      · exact hlt
      · exact hd d' hd'

/-- A delegation no less than the others goes to the end. -/
theorem insertImpl_eq_concat (h : ∀ d ∈ dels, compare del d ≠ .lt) :
    insertImpl dels del = dels ++ [del] := by
  induction dels with
  | nil => rfl
  | cons d dels ih =>
    rw [insertImpl, if_neg (h d mem_cons_self),
      ih fun d' hd' => h d' (mem_cons_of_mem _ hd')]
    rfl

/-- Inserting one delegation after another. -/
def insertAll (dels : List Delegation) : List Delegation := dels.foldl insertImpl []

/-- Inserting one after the other keeps the list sorted. -/
theorem foldl_insertImpl_sorted (dels : List Delegation) (h : Sorted acc) :
    Sorted (dels.foldl insertImpl acc) := by
  induction dels generalizing acc with
  | nil => exact h
  | cons d dels ih => exact ih (insertImpl_sorted h d)

/-- Inserting delegations that are in order already appends them. -/
theorem foldl_insertImpl_eq_append (dels : List Delegation) (h : Sorted (acc ++ dels)) :
    dels.foldl insertImpl acc = acc ++ dels := by
  induction dels generalizing acc with
  | nil => exact (append_nil acc).symm
  | cons d dels ih =>
    have hlast : insertImpl acc d = acc ++ [d] := by
      refine insertImpl_eq_concat fun d' hd' => ?_
      exact (pairwise_append.mp h).2.2 d' hd' d mem_cons_self
    rw [foldl_cons, hlast, ih (by rw [append_assoc]; exact h), append_assoc]
    rfl

/-- Inserting all changes nothing if and only if they are in order. -/
theorem insertAll_eq_self_iff : insertAll dels = dels ↔ Sorted dels := by
  constructor
  · intro h
    rw [← h]
    exact foldl_insertImpl_sorted dels List.Pairwise.nil
  · intro h
    exact foldl_insertImpl_eq_append dels h

/-- There is a delegation after an insertion. -/
theorem insertImpl_ne_nil (dels : List Delegation) (del : Delegation) :
    insertImpl dels del ≠ [] := by
  cases dels with
  | nil => exact cons_ne_nil _ _
  | cons d dels =>
    unfold insertImpl
    split_ifs <;> exact cons_ne_nil _ _

/-- There is a delegation after inserting any. -/
theorem insertAll_ne_nil (h : dels ≠ []) : insertAll dels ≠ [] := by
  obtain ⟨init, last, rfl⟩ := (eq_nil_or_concat dels).resolve_left h
  unfold insertAll
  rw [concat_eq_append, foldl_append]
  exact insertImpl_ne_nil _ _

/-! ### The way through the wire -/

/-- A delegation is read back from its block. -/
theorem decodeDelegation_of_value (hname : del.name.Valid) (htype : block.type = tlv.LinkDelegation)
    (hvalue : block.value = tlv.prependByteArrayBlock tlv.LinkPreference
      (tlv.prependNonNegativeInteger del.preference.toNat) ++ del.name.wireEncode)
    (hsize : block.value.length < 2 ^ 64) (dels : List Delegation) :
    decodeDelegation dels block = .ok (insertImpl dels del) := by
  have hlen := congrArg List.length hvalue
  unfold Name.wireEncode tlv.prependByteArrayBlock at hlen
  simp only [length_append] at hlen
  -- the two sub-elements: the preference and the name
  let first := makeBinaryBlock tlv.LinkPreference
    (tlv.prependNonNegativeInteger del.preference.toNat) (by decide) (by omega)
  let second := makeBinaryBlock tlv.Name (del.name.flatMap Component.wireEncode) (by decide)
    (by omega)
  have hparse : block.parse = .ok [first, second] := by
    refine Block.parse_eq_ok_iff.mpr ?_
    rw [hvalue, flatMap_cons, flatMap_cons, flatMap_nil, append_nil]
    rfl
  have hfirst : tlv.readNonNegativeInteger first.value = .ok del.preference.toNat :=
    tlv.readNonNegativeInteger_prepend del.preference.toNat_lt
  have hsecond : Name.ofBlock second = .ok del.name :=
    Name.ofBlock_eq_ok hname rfl (by show (del.name.flatMap _).length < _; omega)
  have hpreference : UInt64.ofNat del.preference.toNat = del.preference := UInt64.ofNat_toNat
  unfold decodeDelegation
  rw [if_neg (not_not_intro htype), hparse]
  have htypes : first.type = tlv.LinkPreference ∧ second.type = tlv.Name := ⟨rfl, rfl⟩
  dsimp only
  rw [if_neg (not_not_intro htypes.1), hfirst]
  dsimp only
  rw [if_neg (not_not_intro htypes.2), hsecond]
  show Except.ok (insertImpl dels ⟨UInt64.ofNat del.preference.toNat, del.name⟩) = _
  rw [hpreference]

/-- The blocks of a list of delegations, and what decoding them one by one gives. -/
theorem exists_elements (hdels : ∀ del ∈ dels, del.name.Valid)
    (hsize : (dels.flatMap Delegation.prepend).length < 2 ^ 64) :
    ∃ elements : List Block, elements.flatMap Block.wire = dels.flatMap Delegation.prepend ∧
      ∀ acc, elements.foldlM decodeDelegation acc = .ok (dels.foldl insertImpl acc) := by
  induction dels with
  | nil => exact ⟨[], rfl, fun _ => rfl⟩
  | cons del dels ih =>
    rw [flatMap_cons, length_append] at hsize
    obtain ⟨elements, hflat, hfold⟩ :=
      ih (fun d hd => hdels d (mem_cons_of_mem _ hd)) (by omega)
    have hvalue : (tlv.prependByteArrayBlock tlv.LinkPreference
        (tlv.prependNonNegativeInteger del.preference.toNat) ++
          del.name.wireEncode).length < 2 ^ 64 := by
      unfold Delegation.prepend at hsize
      rw [tlv.prependByteArrayBlock, length_append] at hsize
      omega
    let block := makeBinaryBlock tlv.LinkDelegation _ (by decide) hvalue
    refine ⟨block :: elements, ?_, fun acc => ?_⟩
    · rw [flatMap_cons, flatMap_cons, hflat]
      rfl
    · have hblock : decodeDelegation acc block = .ok (insertImpl acc del) :=
        decodeDelegation_of_value (hdels del mem_cons_self) rfl rfl hvalue acc
      exact foldlM_cons_eq_ok_iff.mpr ⟨_, hblock, hfold (insertImpl acc del)⟩

/-- The forwarding hint that is decoded from the block of an encoded one. -/
theorem wireDecode_of_value (hne : dels ≠ []) (hdels : ∀ del ∈ dels, del.name.Valid)
    (htype : block.type = tlv.ForwardingHint)
    (hvalue : block.value = dels.flatMap Delegation.prepend) (hsize : block.value.length < 2 ^ 64) :
    wireDecode block = .ok (insertAll dels) := by
  rw [hvalue] at hsize
  obtain ⟨elements, hflat, hfold⟩ := exists_elements hdels hsize
  have hparse : block.parse = .ok elements :=
    Block.parse_eq_ok_iff.mpr (hflat.trans hvalue.symm)
  unfold wireDecode
  rw [if_neg (fun h => h.2 htype), hparse]
  show (elements.foldlM decodeDelegation [] >>= fun dels => _) = _
  rw [hfold]
  show (if insertAll dels = [] then _ else _) = _
  rw [if_neg (insertAll_ne_nil hne)]
  rfl

/-- The block that the octets of a list are read back as, whatever stands behind them. -/
theorem exists_block (hne : dels ≠ []) (hdels : ∀ del ∈ dels, del.name.Valid)
    (hsize : (dels.flatMap Delegation.prepend).length < 2 ^ 64) :
    ∃ block, Reads Block.read (wireEncode dels) block ∧ wireDecode block =
        .ok (insertAll dels) := by
  let block := makeBinaryBlock tlv.ForwardingHint _ (by decide) hsize
  exact ⟨block, block.reads_wire, wireDecode_of_value hne hdels rfl rfl hsize⟩

/-- **A forwarding hint comes back from the wire** in order: as it was exactly if it was in
order before. -/
theorem wireDecode_wireEncode (hne : dels ≠ []) (hdels : ∀ del ∈ dels, del.name.Valid)
    (hsize : (dels.flatMap Delegation.prepend).length < 2 ^ 64) :
    ∃ block, (∀ rest, Block.read (wireEncode dels ++ rest) = .ok (block, rest)) ∧
      wireDecode block = .ok (insertAll dels) ∧ (insertAll dels = dels ↔ Sorted dels) := by
  obtain ⟨block, hreads, hdecode⟩ := exists_block hne hdels hsize
  exact ⟨block, hreads, hdecode, insertAll_eq_self_iff⟩

/-- `/a` with preference 2, then `/` with preference 1: they come back the other way round. -/
theorem wireDecode_wireEncode_two :
    ∃ block, wireDecode block = .ok [⟨1, []⟩, ⟨2, [⟨8, [97]⟩]⟩] := by
  obtain ⟨block, -, hdecode, -⟩ := @wireDecode_wireEncode [⟨2, [⟨8, [97]⟩]⟩, ⟨1, []⟩]
    (by decide) (by unfold Name.Valid; decide) (by decide)
  exact ⟨block, hdecode⟩

end DelegationList
end Ns3Joined.Ndn
