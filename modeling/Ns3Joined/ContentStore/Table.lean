import Ns3Joined.Library.SortedList
import Ns3Joined.NdnCxx.Name

/-!
# The entries of the content store

`Data` as the content store reads it, `cs::Entry` (`cs-entry.cpp`) and the table of
entries, a `std::set<Entry>`.

The set is ordered by full name: data name first, then implicit digest. A
`Table::const_iterator` stays valid until its element is erased and `operator<` on
iterators compares the elements, so an iterator is known by the full name of its element
(`EntryRef`). The table is the sorted list of its entries, the order being a field, and
the only changes it offers to an entry leave the data alone.

Time is in nanoseconds. What a clock reading yields is an argument of the operation that
makes it.
-/

namespace Ns3Joined.ContentStore

open Ndn
open List hiding beq_eq_decide

/-- The parts of a `Data` packet the content store reads. -/
structure Data where
  name : Name
  implicitDigest : Bytes
  freshnessPeriod : ℕ
  /-- The packet carries a `CachePolicyTag` of type `NO_CACHE`. -/
  noCache : Bool
deriving DecidableEq, Repr

/-- What an iterator of the table points at, by its full name. -/
structure EntryRef where
  name : Name
  implicitDigest : Bytes
deriving DecidableEq, Repr

namespace EntryRef

def digestComponent (i : EntryRef) : Component :=
  ⟨tlv.ImplicitSha256DigestComponent, i.implicitDigest⟩

/-- `compareDataWithData`. -/
def compare : EntryRef → EntryRef → Ordering :=
  compareLex (compareOn EntryRef.name) (compareOn digestComponent)

instance : Ord EntryRef := ⟨compare⟩

instance : Std.TransOrd EntryRef :=
  inferInstanceAs (Std.TransCmp (compareLex (compareOn EntryRef.name) (compareOn digestComponent)))

instance : Std.LawfulEqOrd EntryRef where
  eq_of_compare := by
    rintro ⟨n, d⟩ ⟨n', d'⟩ h
    change compareLex _ _ _ _ = _ at h
    simp only [compareLex, compareOn, Ordering.then_eq_eq, Std.LawfulEqCmp.compare_eq_iff_eq] at h
    have hd := (Component.mk.inj h.2).2
    dsimp only at hd
    rw [h.1, hd]

end EntryRef

def Data.ref (data : Data) : EntryRef := ⟨data.name, data.implicitDigest⟩

/-- `getFullName`. -/
def Data.fullName (data : Data) : Name := data.name ++ [data.ref.digestComponent]

/-! ### Entries -/

structure Entry where
  data : Data
  isUnsolicited : Bool
  freshUntil : ℕ
deriving DecidableEq, Repr

namespace Entry

/-- `updateFreshUntil` at the clock reading `now`. -/
def updateFreshUntil (now : ℕ) (entry : Entry) : Entry :=
  { entry with freshUntil := now + entry.data.freshnessPeriod }

def clearUnsolicited (entry : Entry) : Entry := { entry with isUnsolicited := false }

/-- The constructor. -/
def create (data : Data) (isUnsolicited : Bool) (now : ℕ) : Entry :=
  updateFreshUntil now ⟨data, isUnsolicited, 0⟩

def isFresh (now : ℕ) (entry : Entry) : Bool := decide (now ≤ entry.freshUntil)

def ref (entry : Entry) : EntryRef := entry.data.ref

theorem updateFreshUntil_ref (now : ℕ) (entry : Entry) :
    (entry.updateFreshUntil now).ref = entry.ref := rfl

end Entry

/-- The parts of an `Interest` a lookup reads. -/
structure Query where
  name : Name
  canBePrefix : Bool
  mustBeFresh : Bool
deriving DecidableEq, Repr

/-- `Interest::matchesData`. -/
def Query.matchesData (interest : Query) (data : Data) : Bool :=
  (if interest.name.length = data.name.length + 1 then
    Name.endsInDigest interest.name && interest.name == data.fullName
  else if interest.canBePrefix then interest.name.isPrefixOf data.name
  else interest.name == data.name) &&
  !(interest.mustBeFresh && data.freshnessPeriod == 0)

def Entry.canSatisfy (entry : Entry) (interest : Query) (now : ℕ) : Bool :=
  interest.matchesData entry.data && !(interest.mustBeFresh && !entry.isFresh now)

/-- `compareQueryWithData`: a name with a digest is compared as a full name, a name
without one comes before the data it equals. -/
def compareQueryWithData (queryName : Name) (data : Data) : Ordering :=
  if Name.endsInDigest queryName then
    (compare queryName.dropLast data.name).then
      (compare queryName.getLast? (some data.ref.digestComponent))
  else (compare queryName data.name).then .lt

/-! ### The table -/

structure Table where
  entries : List Entry
  sorted : SortedList.Sorted Entry.ref entries

variable {table : Table} {entry : Entry} {i : EntryRef}

namespace Table

def empty : Table := ⟨[], List.Pairwise.nil⟩

def size (table : Table) : ℕ := table.entries.length

def refs (table : Table) : List EntryRef := table.entries.map Entry.ref

/-- The element of an iterator. -/
def get? (table : Table) (i : EntryRef) : Option Entry :=
  table.entries.find? fun entry => entry.ref == i

/-- `emplace`, and whether the entry is new. -/
def emplace (table : Table) (entry : Entry) : Table × Bool :=
  (⟨(SortedList.emplace Entry.ref entry table.entries).1,
    SortedList.emplace_sorted table.sorted⟩,
   (SortedList.emplace Entry.ref entry table.entries).2)

/-- Write through an iterator, which the data of the element must survive. -/
def modify (table : Table) (i : EntryRef) (f : Entry → Entry)
    (hf : ∀ entry, (f entry).ref = entry.ref) : Table :=
  ⟨table.entries.map fun entry => if entry.ref = i then f entry else entry,
   table.sorted.map fun entry => by split <;> simp [hf]⟩

/-- `erase` of the element of an iterator. -/
def erase (table : Table) (i : EntryRef) : Table :=
  ⟨table.entries.filter fun entry => decide (entry.ref ≠ i), table.sorted.filter _⟩

/-- `lower_bound`: where the first entry stands that does not come before the name. -/
def lowerBound (table : Table) (queryName : Name) : ℕ :=
  table.entries.findIdx fun entry => compareQueryWithData queryName entry.data ≠ .gt

/-- `Cs::findPrefixRange`, or `none` when the prefix has no successor. -/
def findPrefixRange (table : Table) (pre : Name) : Option (List Entry) :=
  let first := table.lowerBound pre
  if pre.isEmpty then some (table.entries.drop first)
  else pre.getSuccessor.map fun successor =>
    (table.entries.take (table.lowerBound successor)).drop first

/-! ### Which entries the table holds -/

theorem refs_nodup (table : Table) : table.refs.Nodup := table.sorted.nodup_keys

@[simp] theorem length_refs (table : Table) : table.refs.length = table.size := length_map _

/-- A new entry is added to the others. -/
theorem refs_emplace_new (h : (table.emplace entry).2 = true) :
    (table.emplace entry).1.refs.Perm (entry.ref :: table.refs) :=
  (SortedList.emplace_perm h).map Entry.ref

/-- An entry that is there already stays as it is. -/
theorem emplace_old (h : (table.emplace entry).2 = false) : (table.emplace entry).1 = table := by
  have hl := SortedList.emplace_eq_self h
  cases table
  simp only [emplace, Table.mk.injEq]
  exact hl

theorem emplace_old_iff : (table.emplace entry).2 = false ↔ entry.ref ∈ table.refs :=
  SortedList.emplace_snd_eq_false_iff table.sorted

@[simp] theorem refs_modify (table : Table) (i : EntryRef) (f : Entry → Entry) (hf) :
    (table.modify i f hf).refs = table.refs := by
  rw [refs, refs, modify, map_map]
  refine map_congr_left fun entry _ => ?_
  simp only [Function.comp_apply]
  split
  · exact hf entry
  · rfl

theorem refs_erase (table : Table) (i : EntryRef) :
    (table.erase i).refs = table.refs.erase i := by
  rw [table.refs_nodup.erase_eq_filter, refs, refs, erase, filter_map]
  refine congrArg (List.map Entry.ref) (filter_congr fun entry _ => ?_)
  simp [bne, beq_eq_decide]

theorem mem_refs_erase {j : EntryRef} : j ∈ (table.erase i).refs ↔ j ≠ i ∧ j ∈ table.refs := by
  rw [refs_erase, table.refs_nodup.mem_erase_iff]

theorem size_erase (hi : i ∈ table.refs) : (table.erase i).size + 1 = table.size := by
  rw [← length_refs, ← length_refs, refs_erase, length_erase_of_mem hi]
  have := length_pos_of_mem hi
  omega

theorem get?_isSome_iff : (table.get? i).isSome ↔ i ∈ table.refs := by
  rw [get?, List.find?_isSome, refs, mem_map]
  simp

end Table
end Ns3Joined.ContentStore
