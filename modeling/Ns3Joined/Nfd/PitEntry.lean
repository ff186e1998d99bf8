import Ns3Joined.NdnCxx.Interest

/-!
# PIT entries

A PIT entry with its in- and out-records (`table/pit-entry.hpp`, `pit-face-record.hpp`), and
the faces they are for. How an entry holds its Interests is a parameter `ι`: the Interest
itself where only its fields matter, a reference where it matters that the forwarder and the
strategy share the object.
-/

namespace Ns3Joined.Nfd

open Ndn (Name Component Interest Bytes)

/-! ### Faces -/

inductive FaceScope
  | FACE_SCOPE_NON_LOCAL
  | FACE_SCOPE_LOCAL
deriving DecidableEq, Repr

inductive LinkType
  | LINK_TYPE_POINT_TO_POINT
  | LINK_TYPE_MULTI_ACCESS
  | LINK_TYPE_AD_HOC
deriving DecidableEq, Repr

structure Face where
  id : ℕ
  scope : FaceScope
  linkType : LinkType
deriving DecidableEq, Repr

namespace scope_prefix

/-- `/localhost`. -/
def LOCALHOST : Name :=
  [⟨Ndn.tlv.GenericNameComponent, [108, 111, 99, 97, 108, 104, 111, 115, 116]⟩]

end scope_prefix

/-! ### Records -/

namespace pit

/-- `FaceRecord`, for times in nanoseconds. -/
structure FaceRecord where
  face : Face
  lastNonce : UInt32
  lastRenewed : ℕ
  expiry : ℕ
  protocol : Name
deriving DecidableEq

structure InRecord (ι : Type) extends FaceRecord where
  interest : ι

/-- An out-record. Of the Nack it may hold, only the reason. -/
structure OutRecord extends FaceRecord where
  incomingNack : Option ℕ
deriving DecidableEq

structure Entry (ι : Type) where
  interest : ι
  inRecords : List (InRecord ι)
  outRecords : List OutRecord
  isSatisfied : Bool
  /-- In milliseconds. -/
  dataFreshnessPeriod : ℕ

variable {ι : Type}

/-- `getOutRecord`: a list has one record for a face at most, and the first one is taken. -/
def Entry.getOutRecord (pitEntry : Entry ι) (face : Face) : Option OutRecord :=
  pitEntry.outRecords.find? fun outRecord => outRecord.face = face

end pit
end Ns3Joined.Nfd
