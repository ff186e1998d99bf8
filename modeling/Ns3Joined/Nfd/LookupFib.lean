import Ns3Joined.Nfd.IdLookup
import Ns3Joined.Nfd.PitEntry

/-!
# The FIB entries for an Interest

The three lookups of `Strategy` (`fw/strategy.cpp`), with those of `Fib` for a longest prefix
(`table/fib.cpp`), and `NetworkRegionTable::isInProducerRegion`.
-/

namespace Ns3Joined.Nfd

open Ndn (Name Component Interest Delegation Text)
open name_tree (HashValue Hashtable NextHopSort)

/-! ### The FIB -/

namespace fib

structure NextHop where
  face : Face
  cost : UInt64
deriving DecidableEq

structure Entry where
  m_prefix : Name
  m_nextHops : List NextHop

def Entry.getPrefix (entry : Entry) : Name := entry.m_prefix

/-- The FIB: its entries are at pointers, which the entries of the name tree hold. -/
structure Fib where
  m_nameTree : Hashtable
  entries : ℕ → Entry

namespace Fib

/-- The entry that an `Entry&` is for. -/
def deref (fib : Fib) : EntryRef → Entry
  | .s_emptyEntry => ⟨[], []⟩
  | .entry pointer => fib.entries pointer

def hasNextHops (fib : Fib) (fibEntry : EntryRef) : Bool :=
  !(fib.deref fibEntry).m_nextHops.isEmpty

variable (hash : Component → HashValue)

def findLongestPrefixMatch (fib : Fib) (name : Name) : Except Fault EntryRef := do
  let nte ← name_tree.NameTree.findLongestPrefixMatch hash fib.m_nameTree name nteHasFibEntry
  entryOrEmpty fib.m_nameTree nte

/-- `findLongestPrefixMatch` for the name of an entry of the PIT that is attached at `nte`. -/
def findLongestOfPitEntry (fib : Fib) (nte : ℕ) (name : Name) : Except Fault EntryRef := do
  let nte ← name_tree.NameTree.findLongestOfPitEntry hash fib.m_nameTree nte name nteHasFibEntry
  entryOrEmpty fib.m_nameTree nte

end Fib
end fib

/-! ### The lookups -/

namespace pit

/-- An entry of the PIT, and the entry of the name tree that it is attached at. -/
structure AttachedEntry extends Entry Interest where
  nameTreeEntry : ℕ

end pit

namespace fw

open fib (Fib EntryRef)

/-- The name of the protocol by which identifiers are looked up. -/
def kademlia : Name := [⟨8, [107, 97, 100, 101, 109, 108, 105, 97]⟩]

/-- The tables of the forwarder that the lookups look at. -/
structure Tables where
  m_fib : Fib
  m_networkRegionTable : List Name

namespace Tables

variable (hash : Component → HashValue) (forwarder : Tables)

/-- `NetworkRegionTable::isInProducerRegion`. -/
def isInProducerRegion (forwardingHint : List Delegation) : Bool :=
  forwarder.m_networkRegionTable.any fun regionName =>
    forwardingHint.any fun delegation => delegation.name.isPrefixOf regionName

/-- The loop over the delegations: the entry at the end, and whether it has next hops. -/
def delegated : List Delegation → Option EntryRef → Except Fault (EntryRef × Bool)
  | [], none => .error .abort
  | [], some fibEntry =>
    if (forwarder.m_fib.deref fibEntry).getPrefix.length = 0 then .ok (fibEntry, false)
    else .error .abort
  | del :: rest, _ => do
    let fibEntry ← forwarder.m_fib.findLongestPrefixMatch hash del.name
    if forwarder.m_fib.hasNextHops fibEntry then .ok (fibEntry, true)
    else if (forwarder.m_fib.deref fibEntry).getPrefix.length = 0 then
      delegated rest (some fibEntry)
    else .error .abort

/-- What follows where there is a forwarding hint. -/
def lookupDelegated (fh : List Delegation) : Except Fault (EntryRef × Bool) :=
  if forwarder.isInProducerRegion fh then .error .abort else forwarder.delegated hash fh none

/-- The longest prefix match of a PIT entry. -/
def lookupPitEntry (pitEntry : pit.AttachedEntry) : Except Fault EntryRef :=
  forwarder.m_fib.findLongestOfPitEntry hash pitEntry.nameTreeEntry pitEntry.interest.name

def lookupFib (pitEntry : pit.AttachedEntry) : Except Fault EntryRef :=
  if pitEntry.interest.forwardingHint = [] then forwarder.lookupPitEntry hash pitEntry
  else (forwarder.lookupDelegated hash pitEntry.interest.forwardingHint).map Prod.fst

/-- The URI of that name. -/
def kademliaUri : Text := ['/', 'k', 'a', 'd', 'e', 'm', 'l', 'i', 'a']

/-- `lookupFib(pitEntry, currentId)`. -/
def lookupFibByID (sort : NextHopSort) (pitEntry : pit.AttachedEntry) (currentId : Text) :
    Except Fault EntryRef :=
  if pitEntry.interest.forwardingHint = [] then
    if pitEntry.interest.protocol.toUri = kademliaUri then
      Fib.findLongestIDMatch forwarder.m_fib.m_nameTree sort pitEntry.interest.hashedName currentId
    else forwarder.lookupPitEntry hash pitEntry
  else (forwarder.lookupDelegated hash pitEntry.interest.forwardingHint).map Prod.fst

/-- `lookupFibList`, whose list has a null pointer when no delegation has next hops. -/
def lookupFibList (sort : NextHopSort) (pitEntry : pit.AttachedEntry) (currentId : Text) :
    Except Fault (List (Option EntryRef)) :=
  if pitEntry.interest.forwardingHint = [] then
    if pitEntry.interest.protocol.toUri = kademliaUri then
      Fib.findLongestIDMatchList forwarder.m_fib.m_nameTree sort pitEntry.interest.hashedName
        currentId
    else (forwarder.lookupPitEntry hash pitEntry).map fun fibEntry => [some fibEntry]
  else
    (forwarder.lookupDelegated hash pitEntry.interest.forwardingHint).map fun found =>
      if found.2 then [some found.1] else [none]

end Tables
end fw
end Ns3Joined.Nfd
