import Ns3Joined.Library.CutSort
import Ns3Joined.NdnCxx.NameUri
import Ns3Joined.Nfd.NameTree

/-!
# Lookups by identifier

`Hashtable::findOrInsertByID` and `findOrInsertByIDList`, their callers in `NameTree` and those in
`Fib` (`table/name-tree-hashtable.cpp`, `name-tree.cpp`, `fib.cpp`). The nodes at the front of the
buckets whose URI has 40 characters are sorted by the distance of that number to the hash of the
content, together with the node where the lookup is made, which is the null pointer in the list.

`findByID` and `findByIDList` pass on what these functions return, whose arguments `h` and
`allowInsert` are not read. `std::sort` is a parameter, since it may order what compares equal in
any way. `std::stoi` throws on a character that is no hexadecimal digit, and nobody catches that:
it is an `abort`. To read or write behind the end of a vector is `undefined`.
-/

namespace Ns3Joined.Nfd

open Ndn (Name Component Text)
open PercentCode (hexValue)

namespace name_tree

/-- The `std::sort` of pairs of a distance and a `Node*`. -/
abbrev NextHopSort := CutSort.SortFunction (List ℕ) (Option ℕ)

/-- `toUri().substr(1)`. -/
def uriOf (name : Name) : Text := name.toUri.drop 1

def decode (hash : Text) : Except Fault (List ℕ) :=
  match hash.mapM hexValue with
  | none => .error .abort
  | some decoded => .ok decoded

/-- `std::transform` with `std::bit_xor`, into 40 numbers that are zero. -/
def transformXor (first second : List ℕ) : Except Fault (List ℕ) :=
  if second.length < first.length ∨ 40 < first.length then .error .undefined
  else .ok (List.zipWith (· ^^^ ·) first second ++ List.replicate (40 - first.length) 0)

namespace Hashtable

/-- A turn of the loop over the buckets. -/
def distanceTurn (s : Hashtable) (contentHash : List ℕ)
    (nextHopList : List (List ℕ × Option ℕ)) : Option ℕ →
    Except Fault (List (List ℕ × Option ℕ))
  | none => .ok nextHopList
  | some p => do
    let node ← s.deref p
    let nodeIdString := uriOf node.entry.m_name
    if nodeIdString.length ≠ 40 then .ok nextHopList
    else do
      let nextNodeId ← decode nodeIdString
      let nextNodeDistance ← transformXor nextNodeId contentHash
      .ok (nextHopList ++ [(nextNodeDistance, some p)])

/-- The sorted `nextHopList`. -/
def nextHopList (s : Hashtable) (sort : NextHopSort) (contentName : Name) (currentId : Text) :
    Except Fault (List (List ℕ × Option ℕ)) := do
  let contentHash ← decode (uriOf contentName)
  let currentHash ← decode currentId
  let tmp ← transformXor currentHash contentHash
  let list ← s.m_buckets.foldlM (s.distanceTurn contentHash) [(tmp, none)]
  .ok (sort.sort list)

def findOrInsertByID (s : Hashtable) (sort : NextHopSort) (contentName : Name)
    (currentId : Text) : Except Fault (Option ℕ) := do
  let list ← s.nextHopList sort contentName currentId
  match list with
  | [] => .error .undefined
  | (_, returnNode) :: _ => .ok returnNode

def findOrInsertByIDList (s : Hashtable) (sort : NextHopSort) (contentName : Name)
    (currentId : Text) : Except Fault (List (Option ℕ)) := do
  let list ← s.nextHopList sort contentName currentId
  match list with
  | [] => .error .undefined
  | (_, none) :: _ => .ok [none]
  | (_, some p) :: rest => .ok (some p :: rest.map Prod.snd)

end Hashtable

namespace NameTree

def findLongestIDMatch (m_ht : Hashtable) (sort : NextHopSort) (name : Name) (currentNode : Text)
    (entrySelector : Entry → Bool) : Except Fault (Option ℕ) := do
  let node ← m_ht.findOrInsertByID sort name currentNode
  select m_ht entrySelector node

/-- The entries up to the first that is null, if the first one passes the selector. -/
def findLongestIDMatchList (m_ht : Hashtable) (sort : NextHopSort) (name : Name)
    (currentNode : Text) (entrySelector : Entry → Bool) : Except Fault (List (Option ℕ)) := do
  let nodes ← m_ht.findOrInsertByIDList sort name currentNode
  match nodes with
  | [] => .error .undefined
  | front :: _ => do
    let selected ← select m_ht entrySelector front
    match selected with
    | some _ => .ok (nodes.takeWhile Option.isSome)
    | none => .ok [none]

end NameTree
end name_tree

namespace fib

open name_tree (Hashtable NextHopSort)

/-- An `Entry&`: of an entry that is attached to the name tree, or `Fib::s_emptyEntry`. -/
inductive EntryRef
  | s_emptyEntry
  | entry (pointer : ℕ)
deriving DecidableEq

def nteHasFibEntry (nte : name_tree.Entry) : Bool := nte.m_fibEntry.isSome

/-- `getFibEntry` of a name tree entry. -/
def getFibEntry (m_nameTree : Hashtable) (nte : ℕ) : Except Fault (Option EntryRef) := do
  let node ← m_nameTree.deref nte
  .ok (node.entry.m_fibEntry.map .entry)

/-- The FIB entry of what a lookup in the name tree found. -/
def entryOrEmpty (m_nameTree : Hashtable) : Option ℕ → Except Fault EntryRef
  | none => .ok .s_emptyEntry
  | some nte => do
    let fibEntry ← getFibEntry m_nameTree nte
    match fibEntry with
    | none => .error .undefined
    | some fibEntry => .ok fibEntry

namespace Fib

def findLongestIDMatch (m_nameTree : Hashtable) (sort : NextHopSort) (id : Name)
    (currentNode : Text) : Except Fault EntryRef := do
  let nte ← name_tree.NameTree.findLongestIDMatch m_nameTree sort id currentNode nteHasFibEntry
  entryOrEmpty m_nameTree nte

/-- `e->getFibEntry()`. -/
def pushFibEntry (m_nameTree : Hashtable) : Option ℕ → Except Fault (Option EntryRef)
  | none => .error .undefined
  | some e => getFibEntry m_nameTree e

def findLongestIDMatchList (m_nameTree : Hashtable) (sort : NextHopSort) (id : Name)
    (currentNode : Text) : Except Fault (List (Option EntryRef)) := do
  let nteList ←
    name_tree.NameTree.findLongestIDMatchList m_nameTree sort id currentNode nteHasFibEntry
  match nteList with
  | [] => .error .undefined
  | none :: _ => .ok []
  | some e :: rest => (some e :: rest).mapM (pushFibEntry m_nameTree)

end Fib
end fib
end Ns3Joined.Nfd
