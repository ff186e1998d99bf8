import Ns3Joined.Nfd.DuplicateNonce
import Ns3Joined.Nfd.KoNDNStrategy

/-!
# The PIT and its Interests

`Pit::findOrInsert` and `Pit::erase` (`table/pit.cpp`), and what the pipelines of the forwarder
(`fw/forwarder.cpp`) do to the entries and their Interests. An entry shares the Interest object it
was inserted for, and the strategy and the face it is sent through write into the object that came
in, so the Interests are in memory. The entries are kept by the names of the name tree entries they
are attached at, of which there is one for each name.

Records, timers and the other tables are no part of the state: what the rest of a pipeline comes to
is in the call. Data and Nacks change nothing here, and an entry goes when it is finalized.
-/

namespace Ns3Joined.Nfd

open Function

open Ndn (Name Component Interest)
open name_tree (HashValue NameTree.nteDepth)
open fw (InterestPointer KoNDNStrategy RetxSuppressionResult Sender)

namespace pit

/-- `canMatch`, for names whose first components are known to be equal. -/
def canMatchFrom (nEqualNameComps : ℕ) (entry other : Interest) : Bool :=
  entry.name.drop nEqualNameComps = other.name.drop nEqualNameComps ∧
    entry.canBePrefix = other.canBePrefix ∧ entry.mustBeFresh = other.mustBeFresh ∧
    entry.protocol = other.protocol

/-- An entry, by its pointer, and its `m_interest`. -/
structure Pending where
  pointer : ℕ
  interest : InterestPointer
deriving DecidableEq

end pit

open pit (Pending)

structure Pit where
  interests : InterestPointer → Interest
  nextInterest : InterestPointer
  /-- The entries that are attached at the name tree entry of a name. -/
  pitEntries : Name → List Pending
  nextEntry : ℕ

namespace Pit

/-- The name of the name tree entry for a name. -/
def nteOf (name : Name) : Name := name.take (NameTree.nteDepth name)

/-- The first entry that matches. -/
def find (s : Pit) (interest : Interest) : Option Pending :=
  (s.pitEntries (nteOf interest.name)).find? fun entry =>
    pit.canMatchFrom (NameTree.nteDepth interest.name) (s.interests entry.interest) interest

/-- `findOrInsert` with `allowInsert = true`. -/
def findOrInsert (s : Pit) (interest : InterestPointer) : Pit × Pending :=
  let name := (s.interests interest).name
  match s.find (s.interests interest) with
  | some entry => (s, entry)
  | none =>
    let entry : Pending := ⟨s.nextEntry, interest⟩
    ({ s with
      pitEntries := update s.pitEntries (nteOf name)
        (s.pitEntries (nteOf name) ++ [entry])
      nextEntry := s.nextEntry + 1 }, entry)

/-- `erase`: the last entry takes the place of the one that goes. -/
def erase (s : Pit) (nte : Name) (entry : ℕ) : Except Fault Pit :=
  let entries := s.pitEntries nte
  let it := entries.findIdx fun pitEntry => pitEntry.pointer == entry
  match entries.getLast? with
  | none => .error .abort
  | some last =>
    if it < entries.length then
      .ok { s with pitEntries := update s.pitEntries nte (entries.set it last).dropLast }
    else .error .abort

/-- An Interest that came in, as an object. -/
def receive (s : Pit) (interest : Interest) : Pit :=
  { s with
    interests := update s.interests s.nextInterest interest
    nextInterest := s.nextInterest + 1 }

/-- An object is written into. -/
def write (s : Pit) (interest : InterestPointer) (value : Interest) : Pit :=
  { s with interests := update s.interests interest value }

/-! ### Pipelines -/

/-- What the pipeline of an Interest comes to: it is dropped before the PIT, it ends there (a loop,
a hit in the Content Store, a chosen next hop that does not exist), it is sent to the next hop that
a tag of it chooses, or the strategy gets it. Then `pitEntry` is what else is in the entry. -/
inductive Pipeline
  | dropped
  | ended
  | chosen (sender : Sender) (nextHopFace : Face)
  | dispatched (strategy : KoNDNStrategy) (ingress : Face) (suppression : RetxSuppressionResult)
    (pitEntry : pit.AttachedEntry)

inductive Call
  | onIncomingInterest (interest : Interest) (pipeline : Pipeline)
  | onIncomingData
  | onIncomingNack
  | onInterestFinalize (nte : Name) (entry : ℕ)

variable (hash : Component → HashValue)

/-- The end of the pipeline, for the Interest object and the entry that was found or inserted. -/
def dispatch (s : Pit) (interest : InterestPointer) (entry : Pending) :
    Pipeline → Except Fault Pit
  | .dropped | .ended => .ok s
  | .chosen sender nextHopFace =>
    (sender.onOutgoingInterest nextHopFace (s.interests interest)).map (s.write interest)
  | .dispatched strategy ingress suppression pitEntry =>
    (strategy.afterReceiveInterest hash ingress suppression (s.interests interest)
      { pitEntry with interest := s.interests entry.interest }).map
        fun handling => s.write interest handling.interest

def onIncomingInterest (s : Pit) (interest : Interest) : Pipeline → Except Fault Pit
  | .dropped => .ok (s.receive interest)
  | pipeline =>
    let inserted := (s.receive interest).findOrInsert s.nextInterest
    inserted.1.dispatch hash s.nextInterest inserted.2 pipeline

def step (s : Pit) : Call → Except Fault (Pit × List Pending)
  | .onIncomingInterest interest pipeline =>
    (s.onIncomingInterest hash interest pipeline).map fun s => (s, [])
  | .onIncomingData => .ok (s, [])
  | .onIncomingNack => .ok (s, [])
  | .onInterestFinalize nte entry => (s.erase nte entry).map fun s => (s, [])

/-- No entries, and whatever there is in memory. -/
def empty (interests : InterestPointer → Interest) (nextInterest : InterestPointer) : Pit :=
  ⟨interests, nextInterest, fun _ => [], 0⟩

end Pit
end Ns3Joined.Nfd
