import Ns3Joined.NdnCxx.NameUri
import Ns3Joined.Nfd.CityHash
import Ns3Joined.Nfd.PitEntry

/-!
# The Dead Nonce List

`DeadNonceList` (`table/dead-nonce-list.cpp`) and the place of the forwarder that asks it
(`fw/forwarder.cpp`): `onIncomingInterest`, whether an Interest that arrives was recorded.

The list is a queue of hashes, with marks at regular times between them that tell how long
an entry stays, and its capacity follows the number of marks. `CAPACITY_UP` and
`CAPACITY_DOWN` are fractions: up to `MAX_CAPACITY` the product with the `double` has the
same integral part.
-/

namespace Ns3Joined.Nfd

open Ndn (Name Component Interest Bytes Result)

/-- A `Name` object with the octets that it was decoded from, if it was. -/
structure WireName where
  name : Name
  m_wire : Option Bytes
deriving DecidableEq

/-- `Name::wireEncode`: a wire that is there is kept, and a new one has shortest headers. -/
def WireName.wireEncode (name : WireName) : Bytes := name.m_wire.getD name.name.wireEncode

structure DeadNonceList where
  /-- In nanoseconds. -/
  lifetime : ℕ
  queue : List UInt64
  capacity : ℕ
  actualMarkCounts : List ℕ

namespace DeadNonceList

def MIN_LIFETIME : ℕ := 1000000

def INITIAL_CAPACITY : ℕ := 2 ^ 7

def MIN_CAPACITY : ℕ := 2 ^ 3

def MAX_CAPACITY : ℕ := 2 ^ 24

def MARK : UInt64 := 0

def EXPECTED_MARK_COUNT : ℕ := 5

def EVICT_LIMIT : ℕ := 2 ^ 6

/-- `DeadNonceList(lifetime)`. -/
def ofLifetime (lifetime : ℕ) : Result DeadNonceList :=
  if lifetime < MIN_LIFETIME then .error "lifetime is less than MIN_LIFETIME"
  else
    .ok { lifetime := lifetime
          queue := List.replicate EXPECTED_MARK_COUNT MARK
          capacity := INITIAL_CAPACITY
          actualMarkCounts := [] }

def makeEntry (name : WireName) (nonce : UInt32) : UInt64 :=
  CityHash.CityHash64WithSeed name.wireEncode nonce.toUInt64

def has (dnl : DeadNonceList) (name : WireName) (nonce : UInt32) : Bool :=
  dnl.queue.contains (makeEntry name nonce)

/-- The oldest go first, `EVICT_LIMIT` of them at a time. -/
def evictEntries (dnl : DeadNonceList) : DeadNonceList :=
  { dnl with queue := dnl.queue.drop (min (dnl.queue.length - dnl.capacity) EVICT_LIMIT) }

def add (dnl : DeadNonceList) (name : WireName) (nonce : UInt32) : DeadNonceList :=
  evictEntries { dnl with queue := dnl.queue ++ [makeEntry name nonce] }

def countMarks (dnl : DeadNonceList) : ℕ := dnl.queue.count MARK

/-- `mark`, when the timer fires. A mark evicts nothing. -/
def mark (dnl : DeadNonceList) : DeadNonceList :=
  let dnl := { dnl with queue := dnl.queue ++ [MARK] }
  { dnl with actualMarkCounts := dnl.countMarks :: dnl.actualMarkCounts }

/-- `adjustCapacity`, when its timer fires. -/
def adjustCapacity (dnl : DeadNonceList) : DeadNonceList :=
  let capacity :=
    if dnl.actualMarkCounts.all (EXPECTED_MARK_COUNT < ·) then
      max MIN_CAPACITY (dnl.capacity * 9 / 10)
    else if dnl.actualMarkCounts.all (· < EXPECTED_MARK_COUNT) then
      min MAX_CAPACITY (dnl.capacity * 6 / 5)
    else dnl.capacity
  evictEntries { dnl with capacity := capacity, actualMarkCounts := [] }

end DeadNonceList

/-! ### An Interest that arrives -/

/-- `Interest::getProtocolString`. -/
def getProtocolString (interest : Interest) : Ndn.Text := (Name.toUri interest.protocol).drop 1

/-- How far an Interest comes in `onIncomingInterest`. -/
inductive IncomingInterest
  /-- dropped by the control of the `/localhost` scope -/
  | violatesLocalhost
  /-- sent to the Interest loop pipeline -/
  | loop
  /-- on its way to the PIT -/
  | passed
deriving DecidableEq, Repr

/-- `Forwarder::onIncomingInterest`, up to the answer of the Dead Nonce List. The name that is
looked up is a new one, without a wire. -/
def onIncomingInterest (dnl : DeadNonceList) (ingress : Face) (interest : Interest)
    (random : UInt32) : Result IncomingInterest := do
  if ingress.scope = .FACE_SCOPE_NON_LOCAL ∧ scope_prefix.LOCALHOST <+: interest.name then
    return .violatesLocalhost
  let name ← Name.ofUri (getProtocolString interest ++ Name.toUri interest.name)
  if dnl.has ⟨name, none⟩ (interest.getNonce random).1 then return .loop
  return .passed

end Ns3Joined.Nfd
