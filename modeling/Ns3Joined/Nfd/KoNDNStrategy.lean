import Ns3Joined.Nfd.LookupFib

/-!
# The strategy for identifiers

`KoNDNStrategy::afterReceiveInterest` (`fw/kondn-strategy.cpp`), with what it calls of
`fw/algorithm.cpp` and of the PIT entry (`table/pit-entry.cpp`, `pit-face-record.cpp`). What the
retransmission suppression says is an argument, and so are the time and the nonce that is drawn for
an Interest without one. Times are numbers of nanoseconds, and `TimePoint::max()` is later than all
of them.

The strategy writes into the Interest that came in, and so does the face that it is sent through:
`Face::sendInterest` encodes it (`face/generic-link-service.cpp`). Whether that is also the Interest
of the PIT entry makes no difference here: of the latter, the lookups read the name, the forwarding
hint and, before anything is written, the protocol.
-/

namespace Ns3Joined.Nfd

open Ndn (Name Component Interest Text)

namespace scope_prefix

/-- `/localhop`. -/
def LOCALHOP : Name :=
  [⟨Ndn.tlv.GenericNameComponent, [108, 111, 99, 97, 108, 104, 111, 112]⟩]

end scope_prefix

namespace pit

/-! ### Out-records -/

/-- `canMatch`, for whole names. -/
def canMatch (entry other : Interest) (ignoreProtocol : Bool) : Bool :=
  entry.name = other.name ∧ entry.canBePrefix = other.canBePrefix ∧
    entry.mustBeFresh = other.mustBeFresh ∧ (ignoreProtocol ∨ entry.protocol = other.protocol)

/-- The lifetime in nanoseconds. -/
def lifetimeOf (interest : Interest) : ℕ :=
  (if interest.interestLifetime.toNat < 2 ^ 63 then interest.interestLifetime
    else Ndn.DEFAULT_INTEREST_LIFETIME).toNat * 1000000

/-- `FaceRecord::update`, of the record for a face. -/
def updated (face : Face) (interest : Interest) (now : ℕ) (random : UInt32) : FaceRecord where
  face := face
  lastNonce := (interest.getNonce random).1
  lastRenewed := now
  expiry := now + lifetimeOf interest
  protocol := interest.protocol

/-- `insertOrUpdateOutRecord`: the record of a face is updated, or a new one put in front. -/
def insertOrUpdateOutRecord (outRecords : List OutRecord) (face : Face) (interest : Interest)
    (now : ℕ) (random : UInt32) : List OutRecord :=
  match outRecords.find? fun outRecord => outRecord.face = face with
  | none => ⟨updated face interest now random, none⟩ :: outRecords
  | some _ =>
    let it := outRecords.findIdx fun outRecord => outRecord.face = face
    outRecords.modify it fun outRecord =>
      { outRecord with toFaceRecord := updated face interest now random }

end pit

namespace fw

open name_tree (HashValue NextHopSort)
open fib (EntryRef NextHop)

/-! ### Next hops -/

inductive RetxSuppressionResult
  | NEW
  | FORWARD
  | SUPPRESS
deriving DecidableEq

def wouldViolateScope (inFace : Face) (interest : Interest) (outFace : Face) : Bool :=
  if outFace.scope = .FACE_SCOPE_LOCAL then false
  else if scope_prefix.LOCALHOST.isPrefixOf interest.name then true
  else if scope_prefix.LOCALHOP.isPrefixOf interest.name then
    inFace.scope ≠ .FACE_SCOPE_LOCAL
  else false

/-- A face has an out-record that is not expired. -/
def hasUnexpiredOutRecord (pitEntry : pit.AttachedEntry) (outFace : Face) (now : ℕ) : Bool :=
  (pitEntry.getOutRecord outFace).any fun outRecord => now < outRecord.expiry

section Eligible

variable (inFace : Face) (interest : Interest) (nexthop : NextHop) (pitEntry : pit.AttachedEntry)

/-- `isNextHopEligible`, with the time if `wantUnused`. -/
def isNextHopEligible (wantUnused : Option ℕ) : Bool :=
  if (nexthop.face.id = inFace.id ∧ nexthop.face.linkType ≠ .LINK_TYPE_AD_HOC) ∨
      wouldViolateScope inFace interest nexthop.face then false
  else !wantUnused.any (hasUnexpiredOutRecord pitEntry nexthop.face)

/-- `isNextHopEligible` with a `nodeId`: the face the Interest came from is eligible for the agent
itself. -/
def isNextHopEligibleAt (nodeId : Name) (wantUnused : Option ℕ) : Bool :=
  if (nexthop.face.id = inFace.id ∧ nexthop.face.linkType ≠ .LINK_TYPE_AD_HOC ∧
        interest.agentNodeID ≠ nodeId) ∨
      wouldViolateScope inFace interest nexthop.face then false
  else !wantUnused.any (hasUnexpiredOutRecord pitEntry nexthop.face)

end Eligible

/-- A turn of the loop of `findEligibleNextHopWithEarliestOutRecord`: `found`, with
`earliestRenewed`. -/
def earliestTurn (inFace : Face) (interest : Interest) (pitEntry : pit.AttachedEntry)
    (found : Option (NextHop × ℕ)) (it : NextHop) : Except Fault (Option (NextHop × ℕ)) :=
  if !isNextHopEligible inFace interest it pitEntry none then .ok found
  else
    match pitEntry.getOutRecord it.face with
    | none => .error .abort
    | some outRecord =>
      if found.all fun earliest => outRecord.lastRenewed < earliest.2 then
        .ok (some (it, outRecord.lastRenewed))
      else .ok found

def findEligibleNextHopWithEarliestOutRecord (inFace : Face) (interest : Interest)
    (nexthops : List NextHop) (pitEntry : pit.AttachedEntry) : Except Fault (Option NextHop) := do
  let found ← nexthops.foldlM (earliestTurn inFace interest pitEntry) none
  .ok (found.map Prod.fst)

/-! ### The strategy -/

namespace NackReason

def NO_ROUTE : ℕ := 150

end NackReason

/-- What the strategy does. -/
inductive Action
  | sendInterest (egress : Face) (interest : Interest)
  | sendNack (egress : Face) (reason : ℕ)
  | rejectPendingInterest

/-- The Interest and the PIT entry, and what was done so far. -/
structure Handling where
  interest : Interest
  pitEntry : pit.AttachedEntry
  actions : List Action

/-- What an Interest is sent with. -/
structure Sender where
  sha256 : Ndn.Bytes → Vector UInt8 Ndn.DIGEST_SIZE
  /-- `Interest::s_autoCheckParametersDigest`. -/
  autoCheck : Bool
  /-- The link service of a face encodes what it sends. That of an application's face hands it on as
  it is. -/
  encodes : Face → Bool
  random : UInt32

/-- `onOutgoingInterest`: the out-record draws a nonce, and the face sends the Interest. -/
def Sender.onOutgoingInterest (sender : Sender) (egress : Face) (interest : Interest) :
    Except Fault Interest :=
  let interest := (interest.getNonce sender.random).2
  if sender.encodes egress then
    interest.wireEncode sender.sha256 sender.autoCheck sender.random
  else .ok interest

/-- The strategy and what it looks at. -/
structure KoNDNStrategy extends Sender where
  forwarder : Tables
  /-- `getForwarder().getNodeId()`. -/
  forwarderNodeId : Name
  m_nodeId : Name
  sort : NextHopSort
  now : ℕ
  /-- The Interest has a `PitToken`: then a copy of it is sent. -/
  pitToken : Bool

namespace KoNDNStrategy

variable (hash : Component → HashValue) (strategy : KoNDNStrategy) (ingress : Face)

/-- `sendInterest`, with the out-record that the forwarder makes. -/
def sendInterest (st : Handling) (egress : Face) (isFirstNdn : Bool) : Except Fault Handling :=
  if pit.canMatch st.pitEntry.interest st.interest isFirstNdn then
    (strategy.onOutgoingInterest egress st.interest).map fun interest =>
      { interest := if strategy.pitToken then st.interest else interest
        pitEntry :=
          { st.pitEntry with
            outRecords := pit.insertOrUpdateOutRecord st.pitEntry.outRecords egress st.interest
              strategy.now strategy.random }
        actions := st.actions ++ [.sendInterest egress st.interest] }
  else .error .abort

/-- An unused next hop, or else the eligible one that was used earliest; and whether it is an unused
one. -/
def retransmit (st : Handling) (nexthops : List NextHop) (isUnused : NextHop → Bool)
    (isFirstNdn : Bool) : Except Fault (Handling × Bool) :=
  match nexthops.find? isUnused with
  | some it => (strategy.sendInterest st it.face isFirstNdn).map fun st => (st, true)
  | none => do
    let found ←
      findEligibleNextHopWithEarliestOutRecord ingress st.interest nexthops st.pitEntry
    match found with
    | none => .ok (st, false)
    | some it => (strategy.sendInterest st it.face isFirstNdn).map fun st => (st, false)

/-- `Name("ndn")`. -/
def ndn : Name := [⟨8, [110, 100, 110]⟩]

/-- This node becomes the agent, and the Interest is forwarded by its name. -/
def switchToNdn (st : Handling) (destinationNodeID : Name) : Except Fault Handling := do
  let interest := { st.interest with
    protocol := ndn
    destinationNodeID := destinationNodeID
    agentNodeID := strategy.m_nodeId
    hasWire := false }
  let st := { st with interest := interest }
  let fibEntry2 ← strategy.forwarder.lookupFib hash st.pitEntry
  let sent ← strategy.retransmit ingress st (strategy.forwarder.m_fib.deref fibEntry2).m_nextHops
    (fun nexthop => isNextHopEligibleAt ingress interest nexthop st.pitEntry strategy.m_nodeId
      (some strategy.now)) true
  .ok sent.1

/-- A retransmission. -/
def forwardAgain (st : Handling) (nexthops : List NextHop) : Except Fault (Handling × Bool) :=
  strategy.retransmit ingress st nexthops
    (fun nexthop => isNextHopEligible ingress st.interest nexthop st.pitEntry (some strategy.now))
    false

/-- The loop over the first two FIB entries of the list. -/
def listLoop (suppression : RetxSuppressionResult) :
    List (Option EntryRef) → Handling → Except Fault Handling
  | [], st => .ok st
  | none :: _, _ => .error .undefined
  | some ref :: rest, st =>
    let fibEntry := strategy.forwarder.m_fib.deref ref
    if suppression = .NEW then
      match fibEntry.m_nextHops.find? fun nexthop =>
          isNextHopEligible ingress st.interest nexthop st.pitEntry none with
      | none => strategy.switchToNdn hash ingress st []
      | some it => strategy.sendInterest
        { st with interest :=
            { st.interest with
              destinationNodeID := fibEntry.getPrefix
              hasWire := false } } it.face false
    else do
      let sent ← strategy.forwardAgain ingress st fibEntry.m_nextHops
      if sent.2 then .ok sent.1 else listLoop suppression rest sent.1

/-- An Interest that another node is to answer. -/
def afterReceiveForOther (suppression : RetxSuppressionResult) (st : Handling) :
    Except Fault Handling := do
  let fibEntry ← strategy.forwarder.lookupFib hash st.pitEntry
  let nexthops := (strategy.forwarder.m_fib.deref fibEntry).m_nextHops
  if suppression = .NEW then
    match nexthops.find? fun nexthop =>
        isNextHopEligible ingress st.interest nexthop st.pitEntry none with
    | none => strategy.switchToNdn hash ingress st st.interest.destinationNodeID
    | some it => strategy.sendInterest st it.face false
  else do
    let sent ← strategy.forwardAgain ingress st nexthops
    .ok sent.1

/-- An Interest of another protocol. -/
def afterReceiveNdn (suppression : RetxSuppressionResult) (st : Handling) :
    Except Fault Handling := do
  let fibEntry ← strategy.forwarder.lookupFib hash st.pitEntry
  let nexthops := (strategy.forwarder.m_fib.deref fibEntry).m_nextHops
  if suppression = .NEW then
    match nexthops.find? fun nexthop =>
        isNextHopEligible ingress st.interest nexthop st.pitEntry none with
    | none => .ok { st with
        actions := st.actions ++
          [.sendNack ingress NackReason.NO_ROUTE, .rejectPendingInterest] }
    | some it => strategy.sendInterest st it.face false
  else do
    let sent ← strategy.forwardAgain ingress st nexthops
    .ok sent.1

def afterReceiveInterest (suppression : RetxSuppressionResult) (interest : Interest)
    (pitEntry : pit.AttachedEntry) : Except Fault Handling :=
  let st : Handling := ⟨interest, pitEntry, []⟩
  if suppression = .SUPPRESS then .ok st
  else if interest.protocol = kademlia then
    if interest.destinationNodeID = [] ∨
        interest.destinationNodeID = strategy.forwarderNodeId then do
      let fibEntries ← strategy.forwarder.lookupFibList hash strategy.sort pitEntry
        (name_tree.uriOf strategy.m_nodeId)
      strategy.listLoop hash ingress suppression (fibEntries.take 2) st
    else strategy.afterReceiveForOther hash ingress suppression st
  else strategy.afterReceiveNdn hash ingress suppression st

end KoNDNStrategy
end fw
end Ns3Joined.Nfd
