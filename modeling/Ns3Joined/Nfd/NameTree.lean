import Ns3Joined.Fault
import Ns3Joined.Library.LinkedChains
import Ns3Joined.NdnCxx.Name

/-!
# The name tree

`NameTree` and the `Hashtable` below it (`table/name-tree.cpp`, `name-tree-hashtable.cpp`,
`name-tree-entry.cpp`). A `Node*` is a number, and so is the `Entry*` of the entry that the node
holds; what is not there is freed, or was never allocated. A table entry is its pointer, and of one
of the PIT also the name is kept. The hash function of components is a parameter, and so are the
products with the load factors, which are computed in `float`.

An assertion that fails is `abort`, and a loop over pointers that takes more turns than there are
nodes `diverges`.
-/

namespace Ns3Joined.Nfd

open Function

open Ndn (Name Component)

namespace name_tree

abbrev HashValue := UInt64

/-- `NameTree::getMaxDepth`. -/
def getMaxDepth : ℕ := 32

/-! ### Hashes -/

def computeHash (hash : Component → HashValue) (name : Name) (prefixLen : ℕ) : HashValue :=
  (name.take prefixLen).foldl (fun h comp => h ^^^ hash comp) 0

/-- The loop of `computeHashes`. -/
def hashesFrom (hash : Component → HashValue) (h : HashValue) : Name → List HashValue
  | [] => [h]
  | comp :: rest => h :: hashesFrom hash (h ^^^ hash comp) rest

def computeHashes (hash : Component → HashValue) (name : Name) (prefixLen : ℕ) :
    List HashValue := hashesFrom hash 0 (name.take prefixLen)

/-! ### Entries and nodes -/

/-- An entry of the PIT that is attached. -/
structure PitEntry where
  pointer : ℕ
  name : Name
deriving DecidableEq

structure Entry where
  m_name : Name
  m_parent : Option ℕ
  m_children : List ℕ
  m_fibEntry : Option ℕ
  m_pitEntries : List PitEntry
  m_measurementsEntry : Option ℕ
  m_strategyChoiceEntry : Option ℕ
deriving DecidableEq

namespace Entry

def ofName (name : Name) : Entry := ⟨name, none, [], none, [], none, none⟩

def hasChildren (entry : Entry) : Bool := !entry.m_children.isEmpty

def hasTableEntries (entry : Entry) : Bool :=
  entry.m_fibEntry.isSome || !entry.m_pitEntries.isEmpty || entry.m_measurementsEntry.isSome ||
    entry.m_strategyChoiceEntry.isSome

def isEmpty (entry : Entry) : Bool := !entry.hasChildren && !entry.hasTableEntries

end Entry

structure Node extends LinkedChains.Links where
  hash : HashValue
  entry : Entry

/-- The sizes, and the products with the load factors as a number of buckets gives them. -/
structure HashtableOptions where
  initialSize : ℕ
  minSize : ℕ
  expandLoad : ℕ → ℕ
  expand : ℕ → ℕ
  shrinkLoad : ℕ → ℕ
  shrink : ℕ → ℕ
  minSize_pos : 0 < minSize
  minSize_le : minSize ≤ initialSize
  /-- The factor is above 1. -/
  expand_pos : ∀ n, 0 < n → 0 < expand n

/-- The options for a number of buckets. -/
def HashtableOptions.ofSize (size : ℕ) (hsize : 0 < size) : HashtableOptions where
  initialSize := size
  minSize := size
  expandLoad := fun n => n / 2
  expand := fun n => 2 * n
  shrinkLoad := fun n => n / 10
  shrink := fun n => n / 2
  minSize_pos := hsize
  minSize_le := Nat.le_refl size
  expand_pos := fun _ hn => Nat.mul_pos Nat.two_pos hn

structure Hashtable where
  nodes : ℕ → Option Node
  nextPointer : ℕ
  m_buckets : List (Option ℕ)
  m_options : HashtableOptions
  m_size : ℕ
  m_expandThreshold : ℕ
  m_shrinkThreshold : ℕ

namespace Hashtable

/-! ### Memory -/

def deref (s : Hashtable) (p : ℕ) : Except Fault Node :=
  match s.nodes p with
  | none => .error .undefined
  | some node => .ok node

/-- Something is written into a node. -/
def modify (s : Hashtable) (p : ℕ) (f : Node → Node) : Except Fault Hashtable :=
  (s.deref p).map fun node => { s with nodes := update s.nodes p (some (f node)) }

def modifyEntry (s : Hashtable) (p : ℕ) (f : Entry → Entry) : Except Fault Hashtable :=
  s.modify p fun node => { node with entry := f node.entry }

/-- `m_buckets[bucket]`. -/
def bucketAt (s : Hashtable) (bucket : ℕ) : Except Fault (Option ℕ) :=
  match s.m_buckets[bucket]? with
  | none => .error .undefined
  | some head => .ok head

def setBucket (s : Hashtable) (bucket : ℕ) (head : Option ℕ) : Hashtable :=
  { s with m_buckets := s.m_buckets.set bucket head }

def getNBuckets (s : Hashtable) : ℕ := s.m_buckets.length

def computeBucketIndex (s : Hashtable) (h : HashValue) : ℕ := h.toNat % s.getNBuckets

/-! ### Chains -/

/-- The first node of a bucket gets one before it. -/
def setHeadPrev (s : Hashtable) (p : ℕ) : Option ℕ → Except Fault Hashtable
  | none => .ok s
  | some head => do
    let node ← s.deref head
    if node.prev ≠ none then .error .abort
    else s.modify head fun node => { node with prev := some p }

def attach (s : Hashtable) (bucket p : ℕ) : Except Fault Hashtable := do
  let head ← s.bucketAt bucket
  let s ← s.modify p fun node => { node with prev := none, next := head }
  let s ← s.setHeadPrev p head
  .ok (s.setBucket bucket (some p))

/-- What comes before a node that is detached. -/
def detachPrev (s : Hashtable) (bucket p : ℕ) (node : Node) : Except Fault Hashtable :=
  match node.prev with
  | some prev => do
    let before ← s.deref prev
    if before.next ≠ some p then .error .abort
    else s.modify prev fun before => { before with next := node.next }
  | none => do
    let head ← s.bucketAt bucket
    if head ≠ some p then .error .abort else .ok (s.setBucket bucket node.next)

/-- What comes after a node that is detached. -/
def detachNext (s : Hashtable) (p : ℕ) (node : Node) : Except Fault Hashtable :=
  match node.next with
  | some next => do
    let after ← s.deref next
    if after.prev ≠ some p then .error .abort
    else s.modify next fun after => { after with prev := node.prev }
  | none => .ok s

def detach (s : Hashtable) (bucket p : ℕ) : Except Fault Hashtable := do
  let node ← s.deref p
  let s ← s.detachPrev bucket p node
  let node ← s.deref p
  let s ← s.detachNext p node
  s.modify p fun node => { node with prev := none, next := none }

/-- `foreachNode`, from a node on. -/
def foreachNode (func : Hashtable → ℕ → Except Fault Hashtable) :
    ℕ → Hashtable → Option ℕ → Except Fault Hashtable
  | _, s, none => .ok s
  | 0, _, some _ => .error .diverges
  | fuel + 1, s, some p => do
    let node ← s.deref p
    let s ← func s p
    foreachNode func fuel s node.next

/-! ### Sizes -/

def computeThresholds (s : Hashtable) : Hashtable :=
  { s with
    m_expandThreshold := s.m_options.expandLoad s.getNBuckets
    m_shrinkThreshold := s.m_options.shrinkLoad s.getNBuckets }

/-- A node goes to the bucket of its hash. -/
def reattach (s : Hashtable) (p : ℕ) : Except Fault Hashtable := do
  let node ← s.deref p
  s.attach (s.computeBucketIndex node.hash) p

def resize (s : Hashtable) (newNBuckets : ℕ) : Except Fault Hashtable :=
  if s.getNBuckets = newNBuckets then .ok s
  else do
    let s ← s.m_buckets.foldlM (foreachNode reattach s.nextPointer)
      { s with m_buckets := List.replicate newNBuckets none }
    .ok s.computeThresholds

/-! ### Finding and inserting -/

/-- The loop of `findOrInsert`. -/
def searchFrom (s : Hashtable) (name : Name) (prefixLen : ℕ) (h : HashValue) :
    ℕ → Option ℕ → Except Fault (Option ℕ)
  | _, none => .ok none
  | 0, some _ => .error .diverges
  | fuel + 1, some p => do
    let node ← s.deref p
    if node.hash = h ∧ compare (name.take prefixLen) node.entry.m_name = .eq then .ok (some p)
    else s.searchFrom name prefixLen h fuel node.next

/-- `new Node`, whose name may not be too long. -/
def newNode (s : Hashtable) (h : HashValue) (name : Name) : Except Fault (Hashtable × ℕ) :=
  if getMaxDepth < name.length then .error .abort
  else .ok
    ({ s with
      nodes := update s.nodes s.nextPointer (some ⟨⟨none, none⟩, h, .ofName name⟩)
      nextPointer := s.nextPointer + 1 },
    s.nextPointer)

/-- The table grows when there are too many nodes. -/
def expandIfNeeded (s : Hashtable) : Except Fault Hashtable :=
  if s.m_expandThreshold < s.m_size then s.resize (s.m_options.expand s.getNBuckets) else .ok s

/-- The end of `findOrInsert`. -/
def insertNode (s : Hashtable) (name : Name) (prefixLen : ℕ) (h : HashValue) :
    Except Fault (Hashtable × ℕ) := do
  let bucket := s.computeBucketIndex h
  let (s, p) ← s.newNode h (name.take prefixLen)
  let s ← s.attach bucket p
  let s ← { s with m_size := s.m_size + 1 }.expandIfNeeded
  .ok (s, p)

/-- `findOrInsert` with `allowInsert = false`. -/
def findNode (s : Hashtable) (name : Name) (prefixLen : ℕ) (h : HashValue) :
    Except Fault (Option ℕ) := do
  let head ← s.bucketAt (s.computeBucketIndex h)
  s.searchFrom name prefixLen h s.nextPointer head

/-- `findOrInsert` with `allowInsert = true`, and whether the node is new. -/
def findOrInsert (s : Hashtable) (name : Name) (prefixLen : ℕ) (h : HashValue) :
    Except Fault (Hashtable × ℕ × Bool) := do
  let found ← s.findNode name prefixLen h
  match found with
  | some p => .ok (s, p, false)
  | none => do
    let (s, p) ← s.insertNode name prefixLen h
    .ok (s, p, true)

/-- `hashes.at(prefixLen)`, which is asserted to be the hash. -/
def hashAt (hash : Component → HashValue) (name : Name) (prefixLen : ℕ)
    (hashes : List HashValue) : Except Fault HashValue :=
  match hashes[prefixLen]? with
  | none => .error .outOfRange
  | some h => if h ≠ computeHash hash name prefixLen then .error .abort else .ok h

def insert (s : Hashtable) (hash : Component → HashValue) (name : Name) (prefixLen : ℕ)
    (hashes : List HashValue) : Except Fault (Hashtable × ℕ × Bool) := do
  let h ← hashAt hash name prefixLen hashes
  s.findOrInsert name prefixLen h

/-- `find`, when the hash is still to be computed. -/
def find (s : Hashtable) (hash : Component → HashValue) (name : Name) (prefixLen : ℕ) :
    Except Fault (Option ℕ) := s.findNode name prefixLen (computeHash hash name prefixLen)

/-- `find`, when the hashes are there. -/
def findHashed (s : Hashtable) (hash : Component → HashValue) (name : Name) (prefixLen : ℕ)
    (hashes : List HashValue) : Except Fault (Option ℕ) := do
  let h ← hashAt hash name prefixLen hashes
  s.findNode name prefixLen h

/-! ### Erasing -/

/-- `delete node`, whose links must be gone. -/
def deleteNode (s : Hashtable) (p : ℕ) : Except Fault Hashtable := do
  let node ← s.deref p
  if node.prev ≠ none ∨ node.next ≠ none then .error .abort
  else .ok { s with nodes := update s.nodes p none }

/-- The table shrinks when there are too few nodes. -/
def shrinkIfNeeded (s : Hashtable) : Except Fault Hashtable :=
  if s.m_size < s.m_shrinkThreshold then
    s.resize (max s.m_options.minSize (s.m_options.shrink s.getNBuckets))
  else .ok s

def erase (s : Hashtable) (p : ℕ) : Except Fault Hashtable := do
  let node ← s.deref p
  if node.entry.m_parent ≠ none then .error .abort
  else do
    let s ← s.detach (s.computeBucketIndex node.hash) p
    let s ← s.deleteNode p
    { s with m_size := s.m_size - 1 }.shrinkIfNeeded

/-! ### Parents and children -/

def setParent (s : Hashtable) (p parent : ℕ) : Except Fault Hashtable := do
  let node ← s.deref p
  let above ← s.deref parent
  if node.entry.m_parent ≠ none ∨ node.entry.m_name = [] ∨
      above.entry.m_name ≠ node.entry.m_name.dropLast then .error .abort
  else do
    let s ← s.modifyEntry p fun entry => { entry with m_parent := some parent }
    s.modifyEntry parent fun entry => { entry with m_children := entry.m_children ++ [p] }

/-- `unsetParent`, when the parent is `parent`. -/
def unsetParent (s : Hashtable) (p parent : ℕ) : Except Fault Hashtable := do
  let above ← s.deref parent
  if p ∉ above.entry.m_children then .error .abort
  else do
    let s ← s.modifyEntry parent fun entry =>
      { entry with m_children := entry.m_children.erase p }
    s.modifyEntry p fun entry => { entry with m_parent := none }

end Hashtable

/-! ### The name tree -/

namespace NameTree

variable (hash : Component → HashValue)

/-- A turn of the loop of `lookup`. -/
def lookupTurn (name : Name) (hashes : List HashValue) (turn : Hashtable × Option ℕ) (i : ℕ) :
    Except Fault (Hashtable × Option ℕ) := do
  let (s, p, isNew) ← turn.1.insert hash name i hashes
  match isNew, turn.2 with
  | true, some parent => do
    let s ← s.setParent p parent
    .ok (s, some p)
  | _, _ => .ok (s, some p)

/-- `lookup`, and the entry that it returns. -/
def lookup (m_ht : Hashtable) (name : Name) (prefixLen : ℕ) : Except Fault (Hashtable × ℕ) :=
  if name.length < prefixLen ∨ getMaxDepth < prefixLen then .error .abort
  else do
    let (s, node) ← (List.range (prefixLen + 1)).foldlM
      (lookupTurn hash name (computeHashes hash name prefixLen)) (m_ht, none)
    match node with
    | none => .error .undefined
    | some p => .ok (s, p)

/-- `lookup` for an entry of the FIB that is attached at `nte`, or is the empty one. -/
def lookupFibEntry (m_ht : Hashtable) (nte : Option ℕ) (fibPrefix : Name) :
    Except Fault (Hashtable × ℕ) :=
  match nte with
  | none => if fibPrefix ≠ [] then .error .abort else lookup hash m_ht fibPrefix fibPrefix.length
  | some p => .ok (m_ht, p)

/-- `lookup` for an entry of the PIT that is attached at `nte`. -/
def lookupPitEntry (m_ht : Hashtable) (nte : ℕ) (name : Name) : Except Fault (Hashtable × ℕ) :=
  if name.endsInDigest ∧ name.length ≤ getMaxDepth then lookup hash m_ht name name.length
  else .ok (m_ht, nte)

/-- The loop of `eraseIfEmpty`, which goes on with the parents if it may. -/
def eraseLoop (canEraseAncestors : Bool) : ℕ → Hashtable → Option ℕ → Except Fault Hashtable
  | _, s, none => .ok s
  | 0, _, some _ => .error .diverges
  | fuel + 1, s, some p => do
    let node ← s.deref p
    if !node.entry.isEmpty then .ok s
    else
      match node.entry.m_parent with
      | none => s.erase p
      | some parent => do
        let s ← s.unsetParent p parent
        let s ← s.erase p
        if canEraseAncestors then eraseLoop canEraseAncestors fuel s (some parent) else .ok s

def eraseIfEmpty (m_ht : Hashtable) (entry : ℕ) (canEraseAncestors : Bool) :
    Except Fault Hashtable := eraseLoop canEraseAncestors m_ht.nextPointer m_ht (some entry)

/-! ### Matching -/

def findExactMatch (m_ht : Hashtable) (name : Name) (prefixLen : ℕ) :
    Except Fault (Option ℕ) :=
  if getMaxDepth < min name.length prefixLen then .ok none
  else m_ht.find hash name (min name.length prefixLen)

/-- The entry if it passes the selector. -/
def select (m_ht : Hashtable) (entrySelector : Entry → Bool) : Option ℕ →
    Except Fault (Option ℕ)
  | none => .ok none
  | some p => do
    let node ← m_ht.deref p
    .ok (if entrySelector node.entry then some p else none)

/-- The loop of `findLongestPrefixMatch`, from a length down to 0. -/
def longestFrom (m_ht : Hashtable) (name : Name) (hashes : List HashValue)
    (entrySelector : Entry → Bool) : ℕ → Except Fault (Option ℕ)
  | 0 => do
    let node ← m_ht.findHashed hash name 0 hashes
    select m_ht entrySelector node
  | i + 1 => do
    let node ← m_ht.findHashed hash name (i + 1) hashes
    let selected ← select m_ht entrySelector node
    match selected with
    | some p => .ok (some p)
    | none => longestFrom m_ht name hashes entrySelector i

def findLongestPrefixMatch (m_ht : Hashtable) (name : Name) (entrySelector : Entry → Bool) :
    Except Fault (Option ℕ) :=
  let depth := min name.length getMaxDepth
  longestFrom hash m_ht name (computeHashes hash name depth) entrySelector depth

/-- The loop over the parents. -/
def ancestorFrom (m_ht : Hashtable) (entrySelector : Entry → Bool) :
    ℕ → Option ℕ → Except Fault (Option ℕ)
  | _, none => .ok none
  | 0, some _ => .error .diverges
  | fuel + 1, some p => do
    let node ← m_ht.deref p
    if entrySelector node.entry then .ok (some p)
    else ancestorFrom m_ht entrySelector fuel node.entry.m_parent

/-- `findLongestPrefixMatch`, for an entry. -/
def findLongestOfEntry (m_ht : Hashtable) (entry1 : ℕ) (entrySelector : Entry → Bool) :
    Except Fault (Option ℕ) := ancestorFrom m_ht entrySelector m_ht.nextPointer (some entry1)

/-- The loop that goes deeper, as long as there are entries. -/
def deeper (m_ht : Hashtable) (name : Name) : List ℕ → ℕ → Except Fault ℕ
  | [], nte => .ok nte
  | i :: rest, nte => do
    let exact ← findExactMatch hash m_ht name i
    match exact with
    | none => .ok nte
    | some p => deeper m_ht name rest p

/-- `findLongestPrefixMatch`, for an entry of the PIT that is attached at `nte`. -/
def findLongestOfPitEntry (m_ht : Hashtable) (nte : ℕ) (name : Name)
    (entrySelector : Entry → Bool) : Except Fault (Option ℕ) := do
  let node ← m_ht.deref nte
  let depth := min name.length getMaxDepth
  if node.entry.m_name.length < name.length then do
    let nte ← deeper hash m_ht name
      (List.range' (node.entry.m_name.length + 1) (depth - node.entry.m_name.length)) nte
    findLongestOfEntry m_ht nte entrySelector
  else findLongestOfEntry m_ht nte entrySelector

/-! ### Calls -/

/-- The number of components of a PIT entry's name that its name tree entry has
(`Pit::findOrInsert`). -/
def nteDepth (name : Name) : ℕ :=
  min (if name.endsInDigest then name.length - 1 else name.length) getMaxDepth

/-- The last one takes the place of what is erased. -/
def withoutPitEntry (pitEntry : ℕ) (entry : Entry) : Entry :=
  let it := entry.m_pitEntries.findIdx fun pitEntry2 => pitEntry2.pointer == pitEntry
  { entry with m_pitEntries :=
      (entry.m_pitEntries.set it
        (entry.m_pitEntries.getLastD ⟨pitEntry, []⟩)).dropLast }

def erasePitEntry (m_ht : Hashtable) (entry pitEntry : ℕ) : Except Fault Hashtable := do
  let node ← m_ht.deref entry
  if node.entry.m_pitEntries.any fun pitEntry2 => pitEntry2.pointer == pitEntry then
    m_ht.modifyEntry entry (withoutPitEntry pitEntry)
  else .error .abort

inductive Call
  | lookup (name : Name) (prefixLen : ℕ)
  | lookupFibEntry (nte : Option ℕ) (fibPrefix : Name)
  | lookupPitEntry (nte : ℕ) (name : Name)
  | eraseIfEmpty (entry : ℕ) (canEraseAncestors : Bool)
  | setFibEntry (entry : ℕ) (fibEntry : Option ℕ)
  | insertPitEntry (entry : ℕ) (pitEntry : PitEntry)
  | erasePitEntry (entry : ℕ) (pitEntry : ℕ)
  | setMeasurementsEntry (entry : ℕ) (measurementsEntry : Option ℕ)
  | setStrategyChoiceEntry (entry : ℕ) (strategyChoiceEntry : Option ℕ)

/-- A call, and the entry that a lookup returns. -/
def step (m_ht : Hashtable) : Call → Except Fault (Hashtable × List ℕ)
  | .lookup name prefixLen => (lookup hash m_ht name prefixLen).map fun r => (r.1, [r.2])
  | .lookupFibEntry nte fibPrefix =>
    (lookupFibEntry hash m_ht nte fibPrefix).map fun r => (r.1, [r.2])
  | .lookupPitEntry nte name => (lookupPitEntry hash m_ht nte name).map fun r => (r.1, [r.2])
  | .eraseIfEmpty entry canEraseAncestors =>
    (eraseIfEmpty m_ht entry canEraseAncestors).map fun s => (s, [])
  | .setFibEntry entry fibEntry =>
    (m_ht.modifyEntry entry fun e => { e with m_fibEntry := fibEntry }).map fun s => (s, [])
  | .insertPitEntry entry pitEntry =>
    (m_ht.modifyEntry entry fun e => { e with m_pitEntries := e.m_pitEntries ++ [pitEntry] }).map
      fun s => (s, [])
  | .erasePitEntry entry pitEntry => (erasePitEntry m_ht entry pitEntry).map fun s => (s, [])
  | .setMeasurementsEntry entry measurementsEntry =>
    (m_ht.modifyEntry entry fun e => { e with m_measurementsEntry := measurementsEntry }).map
      fun s => (s, [])
  | .setStrategyChoiceEntry entry strategyChoiceEntry =>
    (m_ht.modifyEntry entry fun e => { e with m_strategyChoiceEntry := strategyChoiceEntry }).map
      fun s => (s, [])

/-- The constructor. -/
def ofOptions (options : HashtableOptions) : Hashtable :=
  Hashtable.computeThresholds
    ⟨fun _ => none, 0, List.replicate options.initialSize none, options, 0, 0, 0⟩

end NameTree
end name_tree
end Ns3Joined.Nfd
