import Ns3Joined.Nfd.CityHash
import Ns3Joined.Nfd.IdLookupScan

/-!
# When the lookups by identifier find what they are to find

* `lookups_safe_iff`: when both lookups return, and the strategy may dereference what is listed.
* `closer_listed_iff`: when the list has the FIB entries of exactly the nodes that are closer to
  the content than the node where the lookup is made.

Only the first node of a bucket is compared, whatever table it was made for, and FIB entries are
looked for only after the cut. So another table's node, or one that is as far away as the node where
the lookup is made, may take the place of a FIB entry or bring a null pointer into the list.
-/

namespace Ns3Joined.Nfd.name_tree

open List NameTree
open TracedRun (run)

open Ndn (Name Component Text)
open fib (EntryRef)
open CutSort (Split insertionSort)

variable {hash : Component → HashValue} {s : Hashtable} {l : List (List ℕ)} {p q : ℕ} {e : Entry}
  {contentName : Name} {currentId : Text}

/-! ### Nodes that are close -/

def HasFibEntry (s : Hashtable) (p : ℕ) : Prop := (fibAt s p).isSome = true

/-- A node that may come before the node where the lookup is made. -/
def Near (s : Hashtable) (contentName : Name) (currentId : Text) (p : ℕ) : Prop :=
  AtFront s p ∧ distanceAt s contentName p ≤ currentDistance contentName currentId

/-- A node that may come first of all. -/
def Foremost (s : Hashtable) (contentName : Name) (currentId : Text) (p : ℕ) : Prop :=
  Near s contentName currentId p ∧
    ∀ q, AtFront s q → distanceAt s contentName p ≤ distanceAt s contentName q

variable {a b : List (List ℕ × ℕ)}

section

variable (hs : Keeps hash s l)
  (hsplit : Split (currentDistance contentName currentId) (distances s contentName) a b)

include hs hsplit

/-- What the split takes is nearer than the current identifier. -/
theorem Keeps.near_of_split (hp : p ∈ a.map Prod.snd) : Near s contentName currentId p := by
  obtain ⟨x, hx, rfl⟩ := mem_map.mp hp
  obtain ⟨hfront, hdistance⟩ := hs.mem_distances.mp (hsplit.subset hx)
  exact ⟨hfront, hdistance ▸ hsplit.before x hx⟩

/-- A node in front of its bucket that is closer is taken by the split. -/
theorem Keeps.mem_of_closer (hfront : AtFront s p)
    (hcloser : distanceAt s contentName p < currentDistance contentName currentId) :
    p ∈ a.map Prod.snd := by
  have hmem := hsplit.mem_of_lt (hs.withDistance_mem hfront contentName) hcloser
  exact mem_map.mpr ⟨_, hmem, rfl⟩

end

/-- A foremost node may come first, with all near ones behind it. -/
theorem Keeps.exists_split_foremost (hs : Keeps hash s l)
    (hp : Foremost s contentName currentId p) :
    ∃ a b nodes, Split (currentDistance contentName currentId) (distances s contentName) a b ∧
      a.map Prod.snd = p :: nodes ∧ ∀ q, Near s contentName currentId q → q ∈ p :: nodes := by
  have hfirst : ∀ y ∈ distances s contentName, distanceAt s contentName p ≤ y.1 := by
    intro y hy
    obtain ⟨hfront, hdistance⟩ := hs.mem_distances.mp hy
    rw [hdistance]
    exact hp.2 y.2 hfront
  obtain ⟨a, b, hsplit, hall⟩ :=
    CutSort.exists_split_first (hs.withDistance_mem hp.1.1 contentName) hp.1.2 hfirst
  refine ⟨_, b, a.map Prod.snd, hsplit, rfl, fun q hq => ?_⟩
  have hmem := hall _ (hs.withDistance_mem hq.1 contentName) hq.2
  exact mem_map_of_mem (f := Prod.snd) hmem

/-- The first that comes before is a foremost one. -/
theorem Keeps.foremost_of_split (hs : Keeps hash s l) {x : List ℕ × ℕ}
    (hsplit : Split (currentDistance contentName currentId) (distances s contentName)
      (x :: a) b) : Foremost s contentName currentId x.2 := by
  have hx := (hs.mem_distances.mp (hsplit.subset mem_cons_self)).2
  refine ⟨hs.near_of_split hsplit mem_cons_self, fun q hq => ?_⟩
  rw [← hx]
  exact hsplit.first_le _ (hs.withDistance_mem hq contentName)

/-- Selection goes on behind a node with a FIB entry. -/
theorem selected_of_fib (hp : HasFibEntry s p) (nodes : List ℕ) :
    selected s (p :: nodes) = (p :: nodes).map (fibAt s) := if_pos hp

/-- Selection stops at a node without a FIB entry. -/
theorem selected_of_not_fib (hp : ¬ HasFibEntry s p) (nodes : List ℕ) :
    selected s (p :: nodes) = [] := if_neg hp

/-! ### Nothing null is listed -/

/-- Both lookups return, and nothing that the list has is null. -/
structure LookupsSafe (s : Hashtable) (sort : NextHopSort) (contentName : Name)
    (currentId : Text) : Prop where
  list : ∃ r, fib.Fib.findLongestIDMatchList s sort contentName currentId = .ok r ∧
    ∀ entry ∈ r, entry ≠ none
  single : ∃ entry, fib.Fib.findLongestIDMatch s sort contentName currentId = .ok entry

/-- When one that may come first has a FIB entry, all have that may come before. -/
def NoneNull (s : Hashtable) (contentName : Name) (currentId : Text) : Prop :=
  ∀ p q, Foremost s contentName currentId p → HasFibEntry s p →
    Near s contentName currentId q → HasFibEntry s q

/-- No split selects a null entry if and only if none is null. -/
theorem Keeps.forall_split_ne_none_iff (hs : Keeps hash s l) :
    (∀ a b, Split (currentDistance contentName currentId) (distances s contentName) a b →
      ∀ entry ∈ selected s (a.map Prod.snd), entry ≠ none) ↔
    NoneNull s contentName currentId := by
  constructor
  · intro h p q hp hfib hq
    obtain ⟨a, b, nodes, hsplit, hnodes, hall⟩ := hs.exists_split_foremost hp
    have hentries := h a b hsplit
    rw [hnodes, selected_of_fib hfib] at hentries
    exact Option.isSome_iff_ne_none.mpr (hentries _ (mem_map_of_mem (hall q hq)))
  · intro h a b hsplit entry hentry
    cases a with
    | nil => exact absurd hentry not_mem_nil
    | cons x a =>
      by_cases hfib : HasFibEntry s x.2
      · rw [map_cons, selected_of_fib hfib] at hentry
        obtain ⟨q, hq, rfl⟩ := mem_map.mp hentry
        have hnear := hs.near_of_split hsplit hq
        exact Option.isSome_iff_ne_none.mp (h x.2 q (hs.foremost_of_split hsplit) hfib hnear)
      · rw [map_cons, selected_of_not_fib hfib] at hentry
        exact absurd hentry not_mem_nil

/-- The lookups are safe if and only if everything they read is readable and not null. -/
theorem Keeps.lookupsSafe_iff (hs : Keeps hash s l) :
    (∀ sort, LookupsSafe s sort contentName currentId) ↔
      Readable s contentName currentId ∧ NoneNull s contentName currentId := by
  rw [← hs.forall_split_ne_none_iff]
  refine Iff.trans ?_ (hs.forall_sort_iff (P := fun r => ∀ entry ∈ r, entry ≠ none))
  constructor
  · exact fun h sort => (h sort).list
  · intro h sort
    obtain ⟨r, hok, -⟩ := h sort
    obtain ⟨a, b, -, -, hsingle⟩ := hs.lookups_eq (hs.readable_of_list hok) sort
    exact ⟨h sort, _, hsingle⟩

/-- **When lookups are safe**, after any run of calls of the name tree. -/
theorem lookups_safe_iff (hash : Component → HashValue) (options : HashtableOptions)
    (calls : List NameTree.Call)
    (hvalid : TracedRun.Meets (step hash) (fun s _ call => Valid s call)
      (ofOptions options) [] calls) :
    ∃ s returned, run (step hash) (ofOptions options) calls =
      .ok (s, returned) ∧ ∀ contentName currentId,
        (∀ sort, LookupsSafe s sort contentName currentId) ↔
          Readable s contentName currentId ∧ NoneNull s contentName currentId := by
  obtain ⟨s, returned, hok, l, hs⟩ := run_keeps hash options calls hvalid
  exact ⟨s, returned, hok, fun _ _ => hs.lookupsSafe_iff⟩

/-! ### Tables with the hash function of the code -/

/-- `Hash64::compute` of the wire of a component. -/
def hashOfWire (comp : Component) : HashValue := CityHash.CityHash64 comp.wireEncode

/-- The options of a `NameTree` that is constructed without an argument. -/
def defaultOptions : HashtableOptions := .ofSize 1024 (Nat.succ_pos 1023)

/-- A name of one component. -/
def nameOf (value : Ndn.Bytes) : Name := [⟨8, value⟩]

/-- The content of the examples, to which a number is closer if it is smaller. -/
def zeros : Name := nameOf (List.replicate 40 48)

/-- The identifier of the node where the lookup is made. -/
def farthest : Text := List.replicate 40 'f'

/-- An Interest has come whose name is not a number, but has 40 characters. -/
def notANumber : List NameTree.Call := [.lookup (nameOf (List.replicate 40 122)) 1]

/-- Two names in one bucket, with a FIB entry each. -/
def oneBucket : List NameTree.Call :=
  [.lookup (nameOf (List.replicate 39 48 ++ [53])) 1, .setFibEntry 1 (some 7),
    .lookup (nameOf (List.replicate 38 48 ++ [52, 51])) 1, .setFibEntry 2 (some 8)]

/-- A table of one bucket, by a run from the empty one. -/
theorem lookups_safe_iff_oneBucket : ∃ s returned,
    run (step hashOfWire) (ofOptions defaultOptions)
      oneBucket = .ok (s, returned) ∧ ∀ contentName currentId,
        (∀ sort, LookupsSafe s sort contentName currentId) ↔
          Readable s contentName currentId ∧ NoneNull s contentName currentId :=
  lookups_safe_iff _ _ _ (by decide +kernel)

/-- `std::stoi` throws. -/
theorem lookups_throw : ∃ s returned,
    run (step hashOfWire) (ofOptions defaultOptions)
      notANumber = .ok (s, returned) ∧
      ¬ ∀ sort, LookupsSafe s sort zeros farthest := by
  obtain ⟨s, returned, hok, -⟩ := run_keeps hashOfWire defaultOptions notANumber
    (by decide +kernel)
  refine ⟨s, returned, hok, fun h => ?_⟩
  have hthrows : (run (step hashOfWire)
      (ofOptions defaultOptions) notANumber).map (fun r =>
        fib.Fib.findLongestIDMatchList r.1 (insertionSort _ _) zeros farthest) =
      .ok (.error .abort) := by decide +kernel
  rw [hok] at hthrows
  obtain ⟨r, hr, -⟩ := (h (insertionSort _ _)).list
  cases hr.symm.trans (Except.ok.inj hthrows)

/-! ### The closer ones are listed -/

/-- A name of one component, which is a number of 40 hexadecimal digits. -/
def IsIdName (name : Name) : Prop :=
  ∃ comp, name = [comp] ∧ comp.toUri.length = 40 ∧ IsHex comp.toUri

/-- The names that are identifiers. -/
theorem isIdName_iff {name : Name} :
    IsIdName name ↔ (uriOf name).length = 40 ∧ IsHex (uriOf name) := by
  have hone : ∀ comp : Component, uriOf [comp] = comp.toUri := fun comp => append_nil _
  constructor
  · rintro ⟨comp, rfl, hlength, hhex⟩
    rw [hone]
    exact ⟨hlength, hhex⟩
  · rintro ⟨hlength, hhex⟩
    match name with
    | [] => exact absurd hlength (by decide)
    | [comp] =>
      rw [hone] at hlength hhex
      exact ⟨comp, rfl, hlength, hhex⟩
    | comp :: comp' :: rest =>
      -- the slash between the components is no digit
      have hslash : '/' ∈ uriOf (comp :: comp' :: rest) :=
        mem_append_right comp.toUri mem_cons_self
      exact absurd (hhex '/' hslash) (by decide)

/-- A node with a FIB entry that is closer to the content than the node where the lookup is
made. -/
structure Closer (s : Hashtable) (contentName : Name) (currentId : Text) (p : ℕ) : Prop where
  fib : HasFibEntry s p
  isIdName : IsIdName (nameAt s p)
  closer : distanceAt s contentName p < currentDistance contentName currentId

/-- The list has the FIB entries of exactly the closer nodes, by their distances. -/
def ListsCloser (s : Hashtable) (contentName : Name) (currentId : Text)
    (r : List (Option EntryRef)) : Prop :=
  ∃ nodes : List ℕ, r = nodes.map (fibAt s) ∧ nodes.Nodup ∧
    (∀ p, p ∈ nodes ↔ Closer s contentName currentId p) ∧
    nodes.Pairwise fun p q => distanceAt s contentName p ≤ distanceAt s contentName q

/-- A node with a FIB entry is in the tree. -/
theorem exists_of_hasFibEntry (hp : HasFibEntry s p) : ∃ e, s.tree p = some e := by
  unfold HasFibEntry fibAt at hp
  cases he : s.tree p with
  | none =>
    rw [he] at hp
    cases hp
  | some e => exact ⟨e, rfl⟩

/-- A closer node in its bucket's first place is in front. -/
theorem Closer.atFront (hp : Closer s contentName currentId p) (hmem : some p ∈ s.m_buckets) :
    AtFront s p := by
  obtain ⟨e, he⟩ := exists_of_hasFibEntry hp.fib
  have hlength := (isIdName_iff.mp hp.isIdName).1
  rw [nameAt_eq he] at hlength
  exact ⟨hmem, e, he, hlength⟩

/-- A readable node in front that is nearer is closer. -/
theorem Readable.closer (hread : Readable s contentName currentId) (hfront : AtFront s p)
    (hfib : HasFibEntry s p)
    (hcloser : distanceAt s contentName p < currentDistance contentName currentId) :
    Closer s contentName currentId p := by
  refine ⟨hfib, isIdName_iff.mpr ⟨?_, (hread.front p hfront).hex⟩, hcloser⟩
  obtain ⟨-, e, he, hlength⟩ := hfront
  rw [nameAt_eq he]
  exact hlength

section

variable (hs : Keeps hash s l)
  (hsplit : Split (currentDistance contentName currentId) (distances s contentName) a b)

include hs hsplit

/-- The nodes split off are different. -/
theorem Keeps.nodup_of_split : (a.map Prod.snd).Nodup := by
  have hnodes : (distances s contentName).map Prod.snd = compared s s.m_buckets := by
    rw [distances, map_map]
    exact map_id _
  have hperm := hsplit.perm.map Prod.snd
  rw [hnodes, map_append] at hperm
  exact (nodup_append.mp (hperm.nodup_iff.mpr hs.nodup_compared)).1

/-- The nodes split off come in order of distance. -/
theorem Keeps.pairwise_of_split :
    (a.map Prod.snd).Pairwise
      fun p q => distanceAt s contentName p ≤ distanceAt s contentName q := by
  have hdistance : ∀ x ∈ a, x.1 = distanceAt s contentName x.2 := fun x hx =>
    (hs.mem_distances.mp (hsplit.subset hx)).2
  refine pairwise_map.mpr (hsplit.sorted.imp_of_mem fun {x y} hx hy hle => ?_)
  rwa [hdistance x hx, hdistance y hy] at hle

end

variable {nodes : List ℕ}

/-- Where every node has a FIB entry all are selected. -/
theorem selected_of_forall (hfib : ∀ p ∈ nodes, HasFibEntry s p) :
    selected s nodes = nodes.map (fibAt s) := by
  cases nodes with
  | nil => rfl
  | cons p nodes => exact selected_of_fib (hfib p mem_cons_self) nodes

/-- Where anything is selected everything is. -/
theorem selected_of_ne_nil (hne : selected s nodes ≠ []) :
    selected s nodes = nodes.map (fibAt s) := by
  cases nodes with
  | nil => rfl
  | cons p nodes =>
    by_cases hfib : HasFibEntry s p
    · exact selected_of_fib hfib nodes
    · exact absurd (selected_of_not_fib hfib nodes) hne

/-- When only closer nodes with FIB entries are near, all closer ones are found that are at the
front. -/
theorem Keeps.listsCloser_of_near (hs : Keeps hash s l)
    (hread : Readable s contentName currentId)
    (hfront : ∀ p, Closer s contentName currentId p → some p ∈ s.m_buckets)
    (hnear : ∀ p, Near s contentName currentId p → HasFibEntry s p ∧
      distanceAt s contentName p < currentDistance contentName currentId)
    (hsplit : Split (currentDistance contentName currentId) (distances s contentName) a b) :
    ListsCloser s contentName currentId (selected s (a.map Prod.snd)) := by
  have hall := fun p hp => hs.near_of_split hsplit (p := p) hp
  refine ⟨a.map Prod.snd, selected_of_forall fun p hp => (hnear p (hall p hp)).1,
    hs.nodup_of_split hsplit, fun p => ⟨fun hp => ?_, fun hp => ?_⟩, hs.pairwise_of_split hsplit⟩
  · obtain ⟨hfib, hcloser⟩ := hnear p (hall p hp)
    exact hread.closer (hall p hp).1 hfib hcloser
  · exact hs.mem_of_closer hsplit (hp.atFront (hfront p hp)) hp.closer

/-- The empty list is right where nothing is closer. -/
theorem listsCloser_nil (hnone : ∀ p, ¬ Closer s contentName currentId p) :
    ListsCloser s contentName currentId [] :=
  ⟨[], rfl, nodup_nil, fun p => iff_of_false not_mem_nil (hnone p), List.Pairwise.nil⟩

/-- When nothing is closer, nothing is listed: the first one has no FIB entry. -/
theorem Keeps.selected_eq_nil (hs : Keeps hash s l) (hread : Readable s contentName currentId)
    (hnone : ∀ p, ¬ Closer s contentName currentId p)
    (hnear : (∃ p, AtFront s p ∧
        distanceAt s contentName p < currentDistance contentName currentId) ∨
      ∀ p, Near s contentName currentId p → ¬ HasFibEntry s p)
    (hsplit : Split (currentDistance contentName currentId) (distances s contentName) a b) :
    selected s (a.map Prod.snd) = [] := by
  cases a with
  | nil => rfl
  | cons x a =>
    have hfirst := hs.foremost_of_split hsplit
    refine selected_of_not_fib (fun hfib => ?_) _
    rcases hnear with ⟨p, hp, hcloser⟩ | hnear
    · have hlt := (hfirst.2 p hp).trans_lt hcloser
      exact hnone x.2 (hread.closer hfirst.1.1 hfib hlt)
    · exact hnear x.2 hfirst.1 hfib

/-- The nodes at the front are those that the list is to be made of, with the closest ones among
them. -/
structure AllFound (s : Hashtable) (contentName : Name) (currentId : Text) : Prop where
  front : ∀ p, Closer s contentName currentId p → some p ∈ s.m_buckets
  near : (∀ p, Near s contentName currentId p → HasFibEntry s p ∧
      distanceAt s contentName p < currentDistance contentName currentId) ∨
    (∀ p, ¬ Closer s contentName currentId p) ∧
      ((∃ p, AtFront s p ∧ distanceAt s contentName p < currentDistance contentName currentId) ∨
        ∀ p, Near s contentName currentId p → ¬ HasFibEntry s p)

/-- A list of as many nodes as the closer ones, which are all closer, has all of them. -/
theorem mem_of_listsCloser (hnodup : nodes.Nodup)
    (hcloser : ∀ p ∈ nodes, Closer s contentName currentId p)
    (hlists : ListsCloser s contentName currentId (nodes.map (fibAt s)))
    (hp : Closer s contentName currentId p) : p ∈ nodes := by
  obtain ⟨closers, heq, -, hmem, -⟩ := hlists
  have hlength := congrArg List.length heq
  rw [length_map, length_map] at hlength
  have hsubperm : nodes.Subperm closers :=
    hnodup.subperm fun q hq => (hmem q).mpr (hcloser q hq)
  have hperm := hsubperm.perm_of_length_le hlength.ge
  exact hperm.mem_iff.mpr ((hmem p).mpr hp)

/-- When something is closer, what is near is closer and at the front. -/
theorem Keeps.allFound_of_closer (hs : Keeps hash s l) (hread : Readable s contentName currentId)
    (hq : Closer s contentName currentId q)
    (h : ∀ a b, Split (currentDistance contentName currentId) (distances s contentName) a b →
      ListsCloser s contentName currentId (selected s (a.map Prod.snd))) :
    AllFound s contentName currentId := by
  -- the list is not empty, so it has all that come before
  have hlists : ∀ a b,
      Split (currentDistance contentName currentId) (distances s contentName) a b →
      ListsCloser s contentName currentId ((a.map Prod.snd).map (fibAt s)) := by
    intro a b hsplit
    have hsel := h a b hsplit
    have hne : selected s (a.map Prod.snd) ≠ [] := by
      intro hnil
      obtain ⟨closers, heq, -, hmem, -⟩ := hsel
      rw [hnil] at heq
      have hempty := map_eq_nil_iff.mp heq.symm
      exact absurd ((hmem q).mpr hq) (hempty ▸ not_mem_nil)
    rwa [selected_of_ne_nil hne] at hsel
  obtain ⟨a, b, hsplit, ha⟩ :=
    CutSort.exists_split_le (currentDistance contentName currentId) (distances s contentName)
  obtain ⟨a', b', hsplit', ha'⟩ :=
    CutSort.exists_split_lt (currentDistance contentName currentId) (distances s contentName)
  have hmem : ∀ p, Near s contentName currentId p → p ∈ a.map Prod.snd := fun p hp =>
    mem_map.mpr
      ⟨_, (ha _).mpr ⟨hs.withDistance_mem hp.1 contentName, hp.2⟩, rfl⟩
  have hfib : ∀ p, Near s contentName currentId p → HasFibEntry s p := by
    intro p hp
    obtain ⟨closers, heq, -, hclosers, -⟩ := hlists a b hsplit
    have hentry : fibAt s p ∈ closers.map (fibAt s) := heq ▸ mem_map_of_mem (hmem p hp)
    obtain ⟨r, hr, heq⟩ := mem_map.mp hentry
    unfold HasFibEntry
    rw [← heq]
    exact ((hclosers r).mp hr).fib
  have hcloser' : ∀ p ∈ a'.map Prod.snd, Closer s contentName currentId p := by
    intro p hp
    have hnear := hs.near_of_split hsplit' hp
    obtain ⟨x, hx, rfl⟩ := mem_map.mp hp
    obtain ⟨hx, hlt⟩ := (ha' x).mp hx
    rw [(hs.mem_distances.mp hx).2] at hlt
    exact hread.closer hnear.1 (hfib x.2 hnear) hlt
  have hall' : ∀ p, Closer s contentName currentId p → p ∈ a'.map Prod.snd := fun p hp =>
    mem_of_listsCloser (hs.nodup_of_split hsplit') hcloser' (hlists a' b' hsplit') hp
  refine ⟨fun p hp => (hs.near_of_split hsplit' (hall' p hp)).1.1, .inl fun p hp => ?_⟩
  -- as many come before as closer ones are there, so none of them is as far as the mark
  have hsub : a'.map Prod.snd ⊆ a.map Prod.snd := fun r hr =>
    hmem r (hs.near_of_split hsplit' hr)
  have hlength : (a.map Prod.snd).length = (a'.map Prod.snd).length := by
    obtain ⟨closers, heq, hnodup, hclosers, -⟩ := hlists a b hsplit
    have hperm : closers.Perm (a'.map Prod.snd) :=
      (perm_ext_iff_of_nodup hnodup (hs.nodup_of_split hsplit')).mpr fun r =>
        ⟨fun hr => hall' r ((hclosers r).mp hr), fun hr => (hclosers r).mpr (hcloser' r hr)⟩
    rw [← hperm.length_eq, ← length_map (fibAt s), heq, length_map]
  have hperm := ((hs.nodup_of_split hsplit').subperm hsub).perm_of_length_le hlength.le
  exact ⟨hfib p hp, (hcloser' p (hperm.mem_iff.mpr (hmem p hp))).closer⟩

/-- Every split lists the closer nodes if and only if all are found. -/
theorem Keeps.forall_split_listsCloser_iff (hs : Keeps hash s l)
    (hread : Readable s contentName currentId) :
    (∀ a b, Split (currentDistance contentName currentId) (distances s contentName) a b →
      ListsCloser s contentName currentId (selected s (a.map Prod.snd))) ↔
    AllFound s contentName currentId := by
  constructor
  · intro h
    by_cases hany : ∃ q, Closer s contentName currentId q
    · obtain ⟨q, hq⟩ := hany
      exact hs.allFound_of_closer hread hq h
    · have hnone : ∀ p, ¬ Closer s contentName currentId p := fun p hp => hany ⟨p, hp⟩
      refine ⟨fun p hp => absurd hp (hnone p), .inr ⟨hnone, ?_⟩⟩
      by_contra hnot
      obtain ⟨hfar, hnot⟩ := not_or.mp hnot
      push Not at hnot hfar
      obtain ⟨p, hp, hfib⟩ := hnot
      -- one that is as far away as the mark comes first
      have hfirst : Foremost s contentName currentId p := ⟨hp, fun q hq => hp.2.trans (hfar q hq)⟩
      obtain ⟨a, b, nodes, hsplit, hnodes, -⟩ := hs.exists_split_foremost hfirst
      obtain ⟨closers, heq, -, hclosers, -⟩ := h a b hsplit
      rw [hnodes, selected_of_fib hfib] at heq
      cases closers with
      | nil => cases heq
      | cons q closers => exact hnone q ((hclosers q).mp mem_cons_self)
  · intro hfound a b hsplit
    rcases hfound.near with hnear | ⟨hnone, hnear⟩
    · exact hs.listsCloser_of_near hread hfound.front hnear hsplit
    · rw [hs.selected_eq_nil hread hnone hnear hsplit]
      exact listsCloser_nil hnone

/-- The list is right for every sort if and only if the table is readable and all are found. -/
theorem Keeps.listsCloser_iff (hs : Keeps hash s l) :
    (∀ sort, ∃ r, fib.Fib.findLongestIDMatchList s sort contentName currentId = .ok r ∧
        ListsCloser s contentName currentId r) ↔
      Readable s contentName currentId ∧ AllFound s contentName currentId := by
  rw [hs.forall_sort_iff]
  exact and_congr_right fun hread => hs.forall_split_listsCloser_iff hread

/-- **When the list has exactly the closer ones**, after any run of calls of the name tree. -/
theorem closer_listed_iff (hash : Component → HashValue) (options : HashtableOptions)
    (calls : List NameTree.Call)
    (hvalid : TracedRun.Meets (step hash) (fun s _ call => Valid s call)
      (ofOptions options) [] calls) :
    ∃ s returned, run (step hash) (ofOptions options) calls =
      .ok (s, returned) ∧ ∀ contentName currentId,
        (∀ sort, ∃ r, fib.Fib.findLongestIDMatchList s sort contentName currentId = .ok r ∧
            ListsCloser s contentName currentId r) ↔
          Readable s contentName currentId ∧ AllFound s contentName currentId := by
  obtain ⟨s, returned, hok, l, hs⟩ := run_keeps hash options calls hvalid
  exact ⟨s, returned, hok, fun _ _ => hs.listsCloser_iff⟩

/-- A table of one bucket, where the list is right for some identifiers only. -/
theorem closer_listed_iff_oneBucket : ∃ s returned,
    run (step hashOfWire) (ofOptions defaultOptions)
      oneBucket = .ok (s, returned) ∧ ∀ contentName currentId,
        (∀ sort, ∃ r, fib.Fib.findLongestIDMatchList s sort contentName currentId = .ok r ∧
            ListsCloser s contentName currentId r) ↔
          Readable s contentName currentId ∧ AllFound s contentName currentId :=
  closer_listed_iff _ _ _ (by decide +kernel)

/-- Only the second of the two is at the front of the bucket. -/
theorem closer_missed : ∃ s returned,
    run (step hashOfWire) (ofOptions defaultOptions)
      oneBucket = .ok (s, returned) ∧
      ¬ ∀ sort, ∃ r, fib.Fib.findLongestIDMatchList s sort zeros farthest = .ok r ∧
        ListsCloser s zeros farthest r := by
  obtain ⟨s, returned, hok, -⟩ := run_keeps hashOfWire defaultOptions oneBucket
    (by decide +kernel)
  refine ⟨s, returned, hok, fun h => ?_⟩
  have hlist : (run (step hashOfWire)
      (ofOptions defaultOptions) oneBucket).map (fun r =>
        fib.Fib.findLongestIDMatchList r.1 (insertionSort _ _) zeros farthest) =
      .ok (.ok [some (.entry 8)]) := by decide +kernel
  have hmissed : (run (step hashOfWire)
      (ofOptions defaultOptions) oneBucket).map (fun r =>
        (fibAt r.1 1, nameAt r.1 1)) =
      .ok (some (.entry 7), nameOf (List.replicate 39 48 ++ [53])) := by decide +kernel
  rw [hok] at hlist hmissed
  obtain ⟨hfib, hname⟩ := Prod.ext_iff.mp (Except.ok.inj hmissed)
  obtain ⟨r, hr, closers, rfl, -, hclosers, -⟩ := h (insertionSort _ _)
  have hcloser : Closer s zeros farthest 1 := by
    refine ⟨congrArg Option.isSome hfib, isIdName_iff.mpr ?_, ?_⟩
    · rw [show nameAt s 1 = _ from hname]
      decide +kernel
    · rw [distanceAt, show nameAt s 1 = _ from hname]
      decide +kernel
  have hmem : fibAt s 1 ∈ closers.map (fibAt s) :=
    mem_map_of_mem ((hclosers 1).mpr hcloser)
  rw [Except.ok.inj (hr.symm.trans (Except.ok.inj hlist)), show fibAt s 1 = _ from hfib] at hmem
  revert hmem
  decide

end Ns3Joined.Nfd.name_tree
