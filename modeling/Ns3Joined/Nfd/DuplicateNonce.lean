import Ns3Joined.Nfd.PitEntry

/-!
# Duplicate nonces

`findDuplicateNonceWithProtocol` of `fw/algorithm.cpp`, by which the forwarder tells that an
Interest went round in a loop. The Interests are objects in memory, and an in-record holds a pointer
to one.

* `flagRecords_eq`: what a loop over records adds to the flags.
* `findDuplicateNonceWithProtocol_eq_byValue_iff`: the function compares where the protocols
  are, and not what they are. The theorem says when this makes no difference.
-/

namespace Ns3Joined.Nfd.fw

open Bool

open Ndn (Name Interest)

/-! ### Flags -/

def DUPLICATE_NONCE_NONE : ℕ := 0

def DUPLICATE_NONCE_IN_SAME : ℕ := 1 <<< 0

def DUPLICATE_NONCE_IN_OTHER : ℕ := 1 <<< 1

def DUPLICATE_NONCE_OUT_SAME : ℕ := 1 <<< 2

def DUPLICATE_NONCE_OUT_OTHER : ℕ := 1 <<< 3

section FlagRecords

variable {ρ : Type} (toFaceRecord : ρ → pit.FaceRecord) (isDuplicate : ρ → Bool) (face : Face)
  (same other : ℕ)

/-- A turn of a loop over records. -/
def flagRecord (dnw : ℕ) (record : ρ) : ℕ :=
  if isDuplicate record then
    if (toFaceRecord record).face = face then dnw ||| same else dnw ||| other
  else dnw

/-- Some record that counts is of the face, or of another one. -/
def hasDuplicate (isSame : Bool) (records : List ρ) : Bool :=
  records.any fun record =>
    isDuplicate record && (decide ((toFaceRecord record).face = face) == isSame)

/-- What the search for a duplicate among records answers. -/
theorem hasDuplicate_eq_true_iff (isSame : Bool) (records : List ρ) :
    hasDuplicate toFaceRecord isDuplicate face isSame records = true ↔
      ∃ record ∈ records, isDuplicate record = true ∧
        decide ((toFaceRecord record).face = face) = isSame := by
  unfold hasDuplicate
  simp only [List.any_eq_true, and_eq_true, beq_iff_eq]

/-- Two ways to count, the first of which counts less. -/
theorem hasDuplicate_eq_iff (isDuplicate' : ρ → Bool) (records : List ρ)
    (himp : ∀ record, isDuplicate record = true → isDuplicate' record = true) (isSame : Bool) :
    hasDuplicate toFaceRecord isDuplicate face isSame records =
        hasDuplicate toFaceRecord isDuplicate' face isSame records ↔
      ∀ record ∈ records, isDuplicate' record = true →
        decide ((toFaceRecord record).face = face) = isSame →
        ∃ record' ∈ records, isDuplicate record' = true ∧
          decide ((toFaceRecord record').face = face) = isSame := by
  rw [Bool.eq_iff_iff, hasDuplicate_eq_true_iff, hasDuplicate_eq_true_iff]
  constructor
  · exact fun h record hmem hduplicate hsame => h.mpr ⟨record, hmem, hduplicate, hsame⟩
  · rintro h
    constructor
    · rintro ⟨record, hmem, hduplicate, hsame⟩
      exact ⟨record, hmem, himp record hduplicate, hsame⟩
    · rintro ⟨record, hmem, hduplicate, hsame⟩
      exact h record hmem hduplicate hsame

/-- A flag, if it is set. -/
def flag (isSet : Bool) (value : ℕ) : ℕ := if isSet then value else 0

/-- The flag of one of two tests. -/
theorem flag_or (a b : Bool) (value : ℕ) : flag (a || b) value = flag a value ||| flag b value := by
  cases a <;> cases b <;> simp [flag]

/-- The flags one record sets. -/
theorem flagRecord_eq (dnw : ℕ) (record : ρ) :
    flagRecord toFaceRecord isDuplicate face same other dnw record =
      dnw ||| (flag (hasDuplicate toFaceRecord isDuplicate face true [record]) same |||
        flag (hasDuplicate toFaceRecord isDuplicate face false [record]) other) := by
  unfold flagRecord hasDuplicate
  cases hduplicate : isDuplicate record with
  | false => simp [flag, hduplicate]
  | true => by_cases hface : (toFaceRecord record).face = face <;> simp [flag, hduplicate, hface]

/-- The flags the records set. -/
theorem flagRecords_eq (dnw : ℕ) (records : List ρ) :
    records.foldl (flagRecord toFaceRecord isDuplicate face same other) dnw =
      dnw ||| (flag (hasDuplicate toFaceRecord isDuplicate face true records) same |||
        flag (hasDuplicate toFaceRecord isDuplicate face false records) other) := by
  induction records generalizing dnw with
  | nil => simp [hasDuplicate, flag]
  | cons record records ih =>
    -- the flags of the first and those of the rest
    have hsplit (isSame : Bool) : hasDuplicate toFaceRecord isDuplicate face isSame
        (record :: records) = (hasDuplicate toFaceRecord isDuplicate face isSame [record] ||
          hasDuplicate toFaceRecord isDuplicate face isSame records) := by
      simp [hasDuplicate]
    rw [List.foldl_cons, ih, flagRecord_eq, hsplit, hsplit, flag_or, flag_or]
    ac_rfl

end FlagRecords

/-! ### The functions -/

/-- An Interest object, by its address. -/
abbrev InterestPointer := ℕ

/-- Where a protocol is: in an Interest, or in the out-record of a face. -/
inductive NamePointer
  | ofInterest (interest : InterestPointer)
  | ofOutRecord (face : Face)
deriving DecidableEq

/-- The two loops of the functions, which differ in what counts as a duplicate. -/
def findDuplicate (pitEntry : pit.Entry InterestPointer) (face : Face)
    (isInDuplicate : pit.InRecord InterestPointer → Bool)
    (isOutDuplicate : pit.OutRecord → Bool) : ℕ :=
  let dnw := pitEntry.inRecords.foldl
    (flagRecord pit.InRecord.toFaceRecord isInDuplicate face DUPLICATE_NONCE_IN_SAME
      DUPLICATE_NONCE_IN_OTHER) DUPLICATE_NONCE_NONE
  pitEntry.outRecords.foldl
    (flagRecord pit.OutRecord.toFaceRecord isOutDuplicate face DUPLICATE_NONCE_OUT_SAME
      DUPLICATE_NONCE_OUT_OTHER) dnw

def findDuplicateNonceWithProtocol (pitEntry : pit.Entry InterestPointer) (nonce : UInt32)
    (face : Face) (protocol : NamePointer) : ℕ :=
  findDuplicate pitEntry face
    (fun inRecord => inRecord.lastNonce = nonce ∧ .ofInterest inRecord.interest = protocol)
    fun outRecord => outRecord.lastNonce = nonce ∧ .ofOutRecord outRecord.face = protocol

/-- What the function is for: the protocols are compared as names. -/
def findDuplicateNonceByValue (interests : InterestPointer → Interest)
    (pitEntry : pit.Entry InterestPointer) (nonce : UInt32) (face : Face) (protocol : Name) : ℕ :=
  findDuplicate pitEntry face
    (fun inRecord => inRecord.lastNonce = nonce ∧
      (interests inRecord.interest).protocol = protocol)
    fun outRecord => outRecord.lastNonce = nonce ∧ outRecord.protocol = protocol

/-! ### What they find -/

section Find

variable (pitEntry : pit.Entry InterestPointer) (nonce : UInt32) (face : Face)
  (isInDuplicate isInDuplicate' : pit.InRecord InterestPointer → Bool)
  (isOutDuplicate isOutDuplicate' : pit.OutRecord → Bool)

def hasInDuplicate (isSame : Bool) : Bool :=
  hasDuplicate pit.InRecord.toFaceRecord isInDuplicate face isSame pitEntry.inRecords

def hasOutDuplicate (isSame : Bool) : Bool :=
  hasDuplicate pit.OutRecord.toFaceRecord isOutDuplicate face isSame pitEntry.outRecords

/-- The flags found, in terms of the four searches. -/
theorem findDuplicate_eq : findDuplicate pitEntry face isInDuplicate isOutDuplicate =
    (flag (hasInDuplicate pitEntry face isInDuplicate true) DUPLICATE_NONCE_IN_SAME |||
      flag (hasInDuplicate pitEntry face isInDuplicate false) DUPLICATE_NONCE_IN_OTHER) |||
    (flag (hasOutDuplicate pitEntry face isOutDuplicate true) DUPLICATE_NONCE_OUT_SAME |||
      flag (hasOutDuplicate pitEntry face isOutDuplicate false) DUPLICATE_NONCE_OUT_OTHER) := by
  unfold findDuplicate
  rw [flagRecords_eq, flagRecords_eq, DUPLICATE_NONCE_NONE, Nat.zero_or]
  rfl

/-- The four flags are independent. -/
theorem flags_inj : ∀ a b c d a' b' c' d' : Bool,
    (flag a DUPLICATE_NONCE_IN_SAME ||| flag b DUPLICATE_NONCE_IN_OTHER) |||
        (flag c DUPLICATE_NONCE_OUT_SAME ||| flag d DUPLICATE_NONCE_OUT_OTHER) =
      (flag a' DUPLICATE_NONCE_IN_SAME ||| flag b' DUPLICATE_NONCE_IN_OTHER) |||
        (flag c' DUPLICATE_NONCE_OUT_SAME ||| flag d' DUPLICATE_NONCE_OUT_OTHER) ↔
    (a = a' ∧ b = b') ∧ c = c' ∧ d = d' := by
  decide

/-- Two searches find the same flags if and only if their four tests agree. -/
theorem findDuplicate_inj :
    findDuplicate pitEntry face isInDuplicate isOutDuplicate =
        findDuplicate pitEntry face isInDuplicate' isOutDuplicate' ↔
      (∀ isSame, hasInDuplicate pitEntry face isInDuplicate isSame =
        hasInDuplicate pitEntry face isInDuplicate' isSame) ∧
      ∀ isSame, hasOutDuplicate pitEntry face isOutDuplicate isSame =
        hasOutDuplicate pitEntry face isOutDuplicate' isSame := by
  rw [findDuplicate_eq, findDuplicate_eq, flags_inj, forall_bool' true,
    forall_bool' true]
  rfl

end Find

/-- When it makes no difference where the protocols are: no out-record is a duplicate, and where
an in-record is one, the object itself is in one of the same side. -/
structure IsSameObject (interests : InterestPointer → Interest)
    (pitEntry : pit.Entry InterestPointer) (nonce : UInt32) (face : Face)
    (interest : InterestPointer) : Prop where
  inRecords : ∀ inRecord ∈ pitEntry.inRecords, inRecord.lastNonce = nonce →
    (interests inRecord.interest).protocol = (interests interest).protocol →
    ∃ inRecord' ∈ pitEntry.inRecords, inRecord'.lastNonce = nonce ∧
      inRecord'.interest = interest ∧ (inRecord'.face = face ↔ inRecord.face = face)
  outRecords : ∀ outRecord ∈ pitEntry.outRecords, outRecord.lastNonce = nonce →
    outRecord.protocol ≠ (interests interest).protocol

/-- **The flags are those of a comparison by value if and only if** there is no duplicate out-record
and the in-records hold the very object. -/
theorem findDuplicateNonceWithProtocol_eq_byValue_iff (interests : InterestPointer → Interest)
    (pitEntry : pit.Entry InterestPointer) (nonce : UInt32) (face : Face)
    (interest : InterestPointer) :
    findDuplicateNonceWithProtocol pitEntry nonce face (.ofInterest interest) =
        findDuplicateNonceByValue interests pitEntry nonce face (interests interest).protocol ↔
      IsSameObject interests pitEntry nonce face interest := by
  unfold findDuplicateNonceWithProtocol findDuplicateNonceByValue
  rw [findDuplicate_inj]
  -- the pointers are equal only if the names are
  have hin (isSame : Bool) := hasDuplicate_eq_iff pit.InRecord.toFaceRecord
    (fun inRecord => inRecord.lastNonce = nonce ∧
      NamePointer.ofInterest inRecord.interest = .ofInterest interest) face
    (fun inRecord => inRecord.lastNonce = nonce ∧
      (interests inRecord.interest).protocol = (interests interest).protocol) pitEntry.inRecords
    (fun inRecord h => by
      obtain ⟨hnonce, hpointer⟩ := of_decide_eq_true h
      exact decide_eq_true ⟨hnonce, by rw [NamePointer.ofInterest.inj hpointer]⟩) isSame
  have hout (isSame : Bool) := hasDuplicate_eq_iff pit.OutRecord.toFaceRecord
    (fun outRecord => outRecord.lastNonce = nonce ∧
      NamePointer.ofOutRecord outRecord.face = .ofInterest interest) face
    (fun outRecord => outRecord.lastNonce = nonce ∧
      outRecord.protocol = (interests interest).protocol) pitEntry.outRecords
    (fun outRecord h => nomatch (of_decide_eq_true h).2) isSame
  constructor
  · rintro ⟨hins, houts⟩
    refine ⟨fun inRecord hmem hnonce hname => ?_, fun outRecord hmem hnonce hname => ?_⟩
    · obtain ⟨inRecord', hmem', hduplicate, hside⟩ :=
        (hin _).mp (hins _) inRecord hmem (decide_eq_true ⟨hnonce, hname⟩) rfl
      obtain ⟨hnonce', hpointer⟩ := of_decide_eq_true hduplicate
      exact ⟨inRecord', hmem', hnonce', NamePointer.ofInterest.inj hpointer,
        decide_eq_decide.mp hside⟩
    · obtain ⟨outRecord', -, hduplicate, -⟩ :=
        (hout _).mp (houts _) outRecord hmem (decide_eq_true ⟨hnonce, hname⟩) rfl
      cases (of_decide_eq_true hduplicate).2
  · rintro ⟨hins, houts⟩
    refine ⟨fun isSame => (hin isSame).mpr fun inRecord hmem hduplicate hside => ?_,
      fun isSame => (hout isSame).mpr fun outRecord hmem hduplicate _ => ?_⟩
    · obtain ⟨hnonce, hname⟩ := of_decide_eq_true hduplicate
      obtain ⟨inRecord', hmem', hnonce', rfl, hiff⟩ := hins inRecord hmem hnonce hname
      exact ⟨inRecord', hmem', decide_eq_true ⟨hnonce', rfl⟩,
        (decide_eq_decide.mpr hiff).trans hside⟩
    · obtain ⟨hnonce, hname⟩ := of_decide_eq_true hduplicate
      exact absurd hname (houts outRecord hmem hnonce)

/-- An Interest comes back on another face, as another object. -/
theorem findDuplicateNonceWithProtocol_ne_byValue :
    findDuplicateNonceWithProtocol
        ⟨0, [⟨⟨⟨1, .FACE_SCOPE_NON_LOCAL, .LINK_TYPE_AD_HOC⟩, 5, 0, 4, [⟨8, [110, 100, 110]⟩]⟩, 0⟩],
          [⟨⟨⟨2, .FACE_SCOPE_NON_LOCAL, .LINK_TYPE_AD_HOC⟩, 5, 0, 4, [⟨8, [110, 100, 110]⟩]⟩,
            none⟩],
          false, 0⟩
        5 ⟨3, .FACE_SCOPE_NON_LOCAL, .LINK_TYPE_AD_HOC⟩ (.ofInterest 1) = DUPLICATE_NONCE_NONE ∧
      findDuplicateNonceByValue
        (fun _ => { name := [⟨8, [97]⟩], nonce := some 5, protocol := [⟨8, [110, 100, 110]⟩] })
        ⟨0, [⟨⟨⟨1, .FACE_SCOPE_NON_LOCAL, .LINK_TYPE_AD_HOC⟩, 5, 0, 4, [⟨8, [110, 100, 110]⟩]⟩, 0⟩],
          [⟨⟨⟨2, .FACE_SCOPE_NON_LOCAL, .LINK_TYPE_AD_HOC⟩, 5, 0, 4, [⟨8, [110, 100, 110]⟩]⟩,
            none⟩],
          false, 0⟩
        5 ⟨3, .FACE_SCOPE_NON_LOCAL, .LINK_TYPE_AD_HOC⟩ [⟨8, [110, 100, 110]⟩] =
        DUPLICATE_NONCE_IN_OTHER ||| DUPLICATE_NONCE_OUT_OTHER := by
  decide

end Ns3Joined.Nfd.fw
