import Ns3Joined.Nfd.IdLookup
import Ns3Joined.Nfd.NameTreeCorrect

/-!
# What the lookups by identifier find

* `AtFront`: the nodes that are compared, at the front of their buckets.
* `Readable`: all numbers that are read are numbers, and as long as they have to be.
* `nextHopList_eq_ok_iff`: a list is made exactly then, and it is sorted around the node where the
  lookup is made.
* `selected`: what `Fib` makes of the nodes that come before that one.
* `forall_sort_iff`: what holds of this however nodes that are equally far away are sorted.
-/

namespace Ns3Joined.Nfd.name_tree

open List

open Ndn (Name Component Text)
open PercentCode (hexValue)
open CutSort (Split marked element insertionSort)
open ExceptFold (bind_eq_ok_iff ok_bind foldlM_cons_eq_ok_iff)

/-! ### Numbers -/

/-- A text of hexadecimal digits. -/
def IsHex (text : Text) : Prop := ∀ c ∈ text, (hexValue c).isSome = true

instance : DecidablePred IsHex := fun text =>
  List.decidableBAll (fun c => (hexValue c).isSome = true) text

/-- The values of the digits. -/
def digits (text : Text) : List ℕ := text.map fun c => (hexValue c).getD 0

@[simp] theorem length_digits (text : Text) : (digits text).length = text.length :=
  length_map _

variable {text : Text} {d : List ℕ} {r list : List (List ℕ × Option ℕ)}

/-- A hexadecimal text is decoded digit by digit. -/
theorem mapM_hexValue (hhex : IsHex text) : text.mapM hexValue = some (digits text) := by
  induction text with
  | nil => rfl
  | cons c text ih =>
    obtain ⟨hc, hrest⟩ := forall_mem_cons.mp hhex
    obtain ⟨n, hn⟩ := Option.isSome_iff_exists.mp hc
    rw [mapM_cons, ih hrest, hn]
    show some (n :: digits text) = some ((hexValue c).getD 0 :: digits text)
    rw [hn]
    rfl

/-- Another text is not decoded. -/
theorem mapM_hexValue_eq_none (hhex : ¬ IsHex text) : text.mapM hexValue = none := by
  induction text with
  | nil => exact absurd (fun _ hc => absurd hc not_mem_nil) hhex
  | cons c text ih =>
    rw [mapM_cons]
    cases hc : hexValue c with
    | none => rfl
    | some n =>
      have hrest : ¬ IsHex text := fun hrest =>
        hhex (forall_mem_cons.mpr ⟨Option.isSome_iff_exists.mpr ⟨n, hc⟩, hrest⟩)
      rw [ih hrest]
      rfl

/-- Decoding succeeds on hexadecimal texts only. -/
theorem decode_eq_ok_iff : decode text = .ok d ↔ IsHex text ∧ d = digits text := by
  unfold decode
  by_cases hhex : IsHex text
  · rw [mapM_hexValue hhex]
    exact ⟨fun h => ⟨hhex, (Except.ok.inj h).symm⟩, fun h => congrArg Except.ok h.2.symm⟩
  · rw [mapM_hexValue_eq_none hhex]
    exact iff_of_false (fun h => by cases h) fun h => hhex h.1

/-- The distance of an identifier to a content, in 40 digits. -/
def xorDistance (id content : Text) : List ℕ :=
  List.zipWith (· ^^^ ·) (digits id) (digits content) ++ List.replicate (40 - id.length) 0

/-- The distance is computed where the lengths fit. -/
theorem transformXor_eq_ok_iff {id content : Text} :
    transformXor (digits id) (digits content) = .ok d ↔
      id.length ≤ content.length ∧ id.length ≤ 40 ∧ d = xorDistance id content := by
  unfold transformXor
  rw [length_digits, length_digits]
  by_cases hlong : content.length < id.length ∨ 40 < id.length
  · rw [if_pos hlong]
    refine iff_of_false (fun h => by cases h) fun h => ?_
    omega
  · rw [if_neg hlong]
    refine ⟨fun h => ⟨by omega, by omega, (Except.ok.inj h).symm⟩, fun h => ?_⟩
    exact congrArg Except.ok h.2.2.symm

/-! ### The nodes at the front -/

/-- A node is compared if it is the first one of its bucket, and its URI has 40 characters. -/
def AtFront (s : Hashtable) (p : ℕ) : Prop :=
  some p ∈ s.m_buckets ∧ ∃ e, s.tree p = some e ∧ (uriOf e.m_name).length = 40

/-- The name of a node. -/
def nameAt (s : Hashtable) (p : ℕ) : Name := ((s.tree p).map Entry.m_name).getD []

/-- The name at a node of the tree. -/
theorem nameAt_eq {s : Hashtable} {p : ℕ} {e : Entry} (hp : s.tree p = some e) :
    nameAt s p = e.m_name := by
  unfold nameAt
  rw [hp]
  rfl

/-- The distance of a node to a content. -/
def distanceAt (s : Hashtable) (contentName : Name) (p : ℕ) : List ℕ :=
  xorDistance (uriOf (nameAt s p)) (uriOf contentName)

/-- Whether the first node of a bucket is compared. -/
def isCompared (s : Hashtable) (p : ℕ) : Bool :=
  (uriOf (nameAt s p)).length = 40

/-- The nodes that are compared, in the order of their buckets. -/
def compared (s : Hashtable) (buckets : List (Option ℕ)) : List ℕ :=
  (buckets.filterMap id).filter (isCompared s)

theorem compared_none (s : Hashtable) (buckets : List (Option ℕ)) :
    compared s (none :: buckets) = compared s buckets := rfl

/-- A bucket's first node is compared if its name is an identifier. -/
theorem compared_some (s : Hashtable) (p : ℕ) (buckets : List (Option ℕ)) :
    compared s (some p :: buckets) =
      if isCompared s p then p :: compared s buckets else compared s buckets :=
  filter_cons

/-- A node with its distance. -/
def withDistance (s : Hashtable) (contentName : Name) (p : ℕ) : List ℕ × ℕ :=
  (distanceAt s contentName p, p)

/-- The number at a node can be read. -/
structure IsRead (s : Hashtable) (contentName : Name) (p : ℕ) : Prop where
  hex : IsHex (uriOf (nameAt s p))
  length_le : 40 ≤ (uriOf contentName).length

variable {hash : Component → HashValue} {s : Hashtable} {l : List (List ℕ)} {p q : ℕ} {e : Entry}
  {contentName : Name} {currentId : Text}

/-- A turn of the loop. -/
theorem distanceTurn_eq_ok_iff (hp : s.tree p = some e) :
    s.distanceTurn (digits (uriOf contentName)) list (some p) = .ok r ↔
      if isCompared s p then IsRead s contentName p ∧
        r = list ++ [element (withDistance s contentName p)]
      else r = list := by
  obtain ⟨node, hnode, rfl⟩ := deref_of_tree hp
  rw [Hashtable.distanceTurn, hnode, ok_bind]
  dsimp only
  have hname : uriOf node.entry.m_name = uriOf (nameAt s p) := by rw [nameAt_eq hp]
  rw [hname]
  by_cases hlength : (uriOf (nameAt s p)).length = 40
  · have hcompared : isCompared s p = true := decide_eq_true hlength
    rw [if_neg (not_not_intro hlength), if_pos hcompared]
    constructor
    · intro hok
      obtain ⟨d, hd, hok⟩ := bind_eq_ok_iff.mp hok
      obtain ⟨hhex, rfl⟩ := decode_eq_ok_iff.mp hd
      obtain ⟨distance, hdistance, hok⟩ := bind_eq_ok_iff.mp hok
      obtain ⟨hle, -, rfl⟩ := transformXor_eq_ok_iff.mp hdistance
      cases hok
      exact ⟨⟨hhex, hlength ▸ hle⟩, rfl⟩
    · rintro ⟨hread, rfl⟩
      rw [decode_eq_ok_iff.mpr ⟨hread.hex, rfl⟩, ok_bind,
        transformXor_eq_ok_iff.mpr ⟨hlength ▸ hread.length_le, hlength.le, rfl⟩, ok_bind]
      rfl
  · have hcompared : ¬ isCompared s p = true := fun h => hlength (of_decide_eq_true h)
    rw [if_pos hlength, if_neg hcompared]
    exact ⟨fun h => (Except.ok.inj h).symm, fun h => congrArg Except.ok h.symm⟩

/-- The loop over the buckets. -/
theorem distanceLoop_eq_ok_iff {buckets : List (Option ℕ)}
    (hbuckets : ∀ p, some p ∈ buckets → ∃ e, s.tree p = some e) :
    buckets.foldlM (s.distanceTurn (digits (uriOf contentName))) list = .ok r ↔
      (∀ p ∈ compared s buckets, IsRead s contentName p) ∧
        r = list ++ ((compared s buckets).map (withDistance s contentName)).map element := by
  induction buckets generalizing list with
  | nil =>
    refine ⟨fun h => ⟨fun _ hp => absurd hp not_mem_nil, ?_⟩, fun h => ?_⟩
    · cases h
      exact (append_nil _).symm
    · rw [h.2]
      exact congrArg Except.ok (append_nil _).symm
  | cons bucket buckets ih =>
    have hrest : ∀ p, some p ∈ buckets → ∃ e, s.tree p = some e := fun p hp =>
      hbuckets p (mem_cons_of_mem bucket hp)
    rw [foldlM_cons_eq_ok_iff]
    cases bucket with
    | none =>
      rw [compared_none]
      constructor
      · rintro ⟨t, ht, hok⟩
        cases ht
        exact (ih hrest).mp hok
      · exact fun h => ⟨list, rfl, (ih hrest).mpr h⟩
    | some p =>
      obtain ⟨e, he⟩ := hbuckets p mem_cons_self
      rw [compared_some]
      by_cases hcompared : isCompared s p = true
      · rw [if_pos hcompared, forall_mem_cons, map_cons, map_cons]
        constructor
        · rintro ⟨t, ht, hok⟩
          rw [distanceTurn_eq_ok_iff he, if_pos hcompared] at ht
          obtain ⟨hread, rfl⟩ := ht
          obtain ⟨hreads, rfl⟩ := (ih hrest).mp hok
          exact ⟨⟨hread, hreads⟩, append_assoc _ _ _⟩
        · rintro ⟨⟨hread, hreads⟩, rfl⟩
          refine ⟨list ++ [element (withDistance s contentName p)], ?_, (ih hrest).mpr ⟨hreads, ?_⟩⟩
          swap
          · exact (append_assoc list [_] _).symm
          rw [distanceTurn_eq_ok_iff he, if_pos hcompared]
          exact ⟨hread, rfl⟩
      · rw [if_neg hcompared]
        constructor
        · rintro ⟨t, ht, hok⟩
          rw [distanceTurn_eq_ok_iff he, if_neg hcompared] at ht
          exact (ih hrest).mp (ht ▸ hok)
        · intro h
          refine ⟨list, ?_, (ih hrest).mpr h⟩
          rw [distanceTurn_eq_ok_iff he, if_neg hcompared]

/-! ### The list -/

/-- A bucket's first node is in the tree. -/
theorem Keeps.exists_of_bucket (hs : Keeps hash s l) (hp : some p ∈ s.m_buckets) :
    ∃ e, s.tree p = some e := by
  rw [hs.table.chained.chains.heads] at hp
  obtain ⟨b, hb, hhead⟩ := mem_map.mp hp
  obtain ⟨h, e, he⟩ := Hashtable.exists_of_mem_flatten hs.table.chained
    (mem_flatten.mpr ⟨b, hb, mem_of_head? hhead⟩)
  exact ⟨e, Hashtable.tree_eq he⟩

/-- The first nodes of disjoint chains are different. -/
theorem nodup_heads {l : List (List ℕ)} (hnodup : l.flatten.Nodup) :
    ((l.map List.head?).filterMap id).Nodup := by
  refine List.Nodup.sublist ?_ hnodup
  induction l with
  | nil => exact List.Sublist.refl _
  | cons b l ih =>
    have ih := ih (nodup_append.mp (flatten_cons ▸ hnodup)).2.1
    cases b with
    | nil => exact ih
    | cons p b => exact (ih.trans (sublist_append_right b l.flatten)).cons_cons p

/-- No node is compared twice. -/
theorem Keeps.nodup_compared (hs : Keeps hash s l) : (compared s s.m_buckets).Nodup := by
  rw [hs.table.chained.chains.heads]
  exact (nodup_heads hs.table.chained.chains.nodup).filter _

/-- The nodes compared are those in front of their buckets. -/
theorem Keeps.mem_compared (hs : Keeps hash s l) : p ∈ compared s s.m_buckets ↔ AtFront s p := by
  unfold compared
  rw [mem_filter, mem_filterMap]
  constructor
  · rintro ⟨⟨_, hmem, rfl⟩, hlength⟩
    obtain ⟨e, he⟩ := hs.exists_of_bucket hmem
    refine ⟨hmem, e, he, ?_⟩
    rw [← nameAt_eq he]
    exact of_decide_eq_true hlength
  · rintro ⟨hmem, e, he, hlength⟩
    refine ⟨⟨some p, hmem, rfl⟩, decide_eq_true ?_⟩
    rw [nameAt_eq he]
    exact hlength

/-- What is compared can be read, and the content has as many digits as what is compared. -/
structure Readable (s : Hashtable) (contentName : Name) (currentId : Text) : Prop where
  content : IsHex (uriOf contentName)
  current : IsHex currentId
  length_le : currentId.length ≤ 40
  length_le_content : currentId.length ≤ (uriOf contentName).length
  front : ∀ p, AtFront s p → IsRead s contentName p

/-- The nodes that are compared, with their distances. -/
def distances (s : Hashtable) (contentName : Name) : List (List ℕ × ℕ) :=
  (compared s s.m_buckets).map (withDistance s contentName)

/-- The distances are those of the nodes in front. -/
theorem Keeps.mem_distances (hs : Keeps hash s l) {x : List ℕ × ℕ} :
    x ∈ distances s contentName ↔ AtFront s x.2 ∧ x.1 = distanceAt s contentName x.2 := by
  constructor
  · intro hx
    obtain ⟨p, hp, rfl⟩ := mem_map.mp hx
    exact ⟨hs.mem_compared.mp hp, rfl⟩
  · rintro ⟨hfront, hdistance⟩
    exact mem_map.mpr ⟨x.2, hs.mem_compared.mpr hfront, Prod.ext hdistance.symm rfl⟩

/-- A node in front has its distance in the list. -/
theorem Keeps.withDistance_mem (hs : Keeps hash s l) (hfront : AtFront s p)
    (contentName : Name) : withDistance s contentName p ∈ distances s contentName :=
  mem_map_of_mem (hs.mem_compared.mpr hfront)

/-- The distance of the node where the lookup is made. -/
def currentDistance (contentName : Name) (currentId : Text) : List ℕ :=
  xorDistance currentId (uriOf contentName)

/-- **The list is made when everything can be read.** -/
theorem Keeps.nextHopList_eq_ok_iff (hs : Keeps hash s l) (sort : NextHopSort) :
    s.nextHopList sort contentName currentId = .ok r ↔ Readable s contentName currentId ∧
      r = sort.sort (marked (currentDistance contentName currentId)
        (distances s contentName)) := by
  have hloop : ∀ list r,
      s.m_buckets.foldlM (s.distanceTurn (digits (uriOf contentName))) list = .ok r ↔
        (∀ p ∈ compared s s.m_buckets, IsRead s contentName p) ∧
          r = list ++ (distances s contentName).map element :=
    fun list r => distanceLoop_eq_ok_iff fun p hp => hs.exists_of_bucket hp
  unfold Hashtable.nextHopList
  constructor
  · intro hok
    obtain ⟨contentHash, hcontent, hok⟩ := bind_eq_ok_iff.mp hok
    obtain ⟨hhex, rfl⟩ := decode_eq_ok_iff.mp hcontent
    obtain ⟨currentHash, hcurrent, hok⟩ := bind_eq_ok_iff.mp hok
    obtain ⟨hhex', rfl⟩ := decode_eq_ok_iff.mp hcurrent
    obtain ⟨tmp, htmp, hok⟩ := bind_eq_ok_iff.mp hok
    obtain ⟨hle, hle', rfl⟩ := transformXor_eq_ok_iff.mp htmp
    obtain ⟨list, hlist, hok⟩ := bind_eq_ok_iff.mp hok
    obtain ⟨hread, rfl⟩ := (hloop _ _).mp hlist
    cases hok
    exact ⟨⟨hhex, hhex', hle', hle, fun p hp => hread p (hs.mem_compared.mpr hp)⟩, rfl⟩
  · rintro ⟨hread, rfl⟩
    rw [decode_eq_ok_iff.mpr ⟨hread.content, rfl⟩, ok_bind,
      decode_eq_ok_iff.mpr ⟨hread.current, rfl⟩, ok_bind,
      transformXor_eq_ok_iff.mpr ⟨hread.length_le_content, hread.length_le, rfl⟩, ok_bind,
      (hloop _ _).mpr ⟨fun p hp => hread.front p (hs.mem_compared.mp hp), rfl⟩, ok_bind]
    rfl

/-! ### What is selected -/

open fib (EntryRef nteHasFibEntry getFibEntry entryOrEmpty)

/-- The FIB entry at a node. -/
def fibAt (s : Hashtable) (p : ℕ) : Option EntryRef :=
  ((s.tree p).bind Entry.m_fibEntry).map .entry

/-- The FIB entry at a node of the tree. -/
theorem fibAt_eq (hp : s.tree p = some e) : fibAt s p = e.m_fibEntry.map .entry := by
  unfold fibAt
  rw [hp]
  rfl

/-- A node has a FIB entry if and only if its entry in the tree has one. -/
theorem isSome_fibAt (hp : s.tree p = some e) :
    (fibAt s p).isSome = e.m_fibEntry.isSome := by
  rw [fibAt_eq hp, Option.isSome_map]

/-- The FIB entries of nodes, if the first one has an entry. -/
def selected (s : Hashtable) : List ℕ → List (Option EntryRef)
  | [] => []
  | p :: nodes => if (fibAt s p).isSome then (p :: nodes).map (fibAt s) else []

/-- The first FIB entry, or the empty one. -/
def firstOrEmpty : List (Option EntryRef) → EntryRef
  | some entry :: _ => entry
  | _ => .s_emptyEntry

/-- Reading the FIB entry of a node in the tree. -/
theorem getFibEntry_eq (hp : s.tree p = some e) : getFibEntry s p = .ok (fibAt s p) := by
  obtain ⟨node, hnode, rfl⟩ := deref_of_tree hp
  rw [getFibEntry, hnode, ok_bind, fibAt_eq hp]

/-- Selecting a node of the tree keeps it if it has a FIB entry. -/
theorem select_eq (hp : s.tree p = some e) :
    NameTree.select s nteHasFibEntry (some p) =
      .ok (if (fibAt s p).isSome then some p else none) := by
  obtain ⟨node, hnode, rfl⟩ := deref_of_tree hp
  rw [NameTree.select, hnode, ok_bind, isSome_fibAt hp]
  rfl

/-- The FIB entries of nodes in the tree. -/
theorem mapM_pushFibEntry {nodes : List ℕ} (hnodes : ∀ p ∈ nodes, ∃ e, s.tree p = some e) :
    (nodes.map some).mapM (fib.Fib.pushFibEntry s) = .ok (nodes.map (fibAt s)) := by
  induction nodes with
  | nil => rfl
  | cons p nodes ih =>
    obtain ⟨⟨e, he⟩, hrest⟩ := forall_mem_cons.mp hnodes
    rw [map_cons, mapM_cons, fib.Fib.pushFibEntry, getFibEntry_eq he, ok_bind, ih hrest]
    rfl

/-- Cutting at the first missing node. -/
theorem takeWhile_isSome (nodes : List ℕ) (rest : List (Option ℕ)) :
    (nodes.map some ++ none :: rest).takeWhile Option.isSome = nodes.map some := by
  induction nodes with
  | nil => rfl
  | cons p nodes ih => exact congrArg (some p :: ·) ih

variable {sort : NextHopSort} {mark : List ℕ} {a b : List (List ℕ × ℕ)}

/-- The nodes of a list with distances. -/
theorem map_snd_element (x : List (List ℕ × ℕ)) :
    (x.map element).map Prod.snd = (x.map Prod.snd).map some := by
  rw [map_map, map_map]
  rfl

section

variable
    (hlist : s.nextHopList sort contentName currentId =
      .ok (a.map element ++ (mark, none) :: b.map element))

include hlist

/-- The nodes the list lookup returns, from a split. -/
theorem findOrInsertByIDList_of_list :
    s.findOrInsertByIDList sort contentName currentId =
      .ok (if a = [] then [none]
        else (a.map Prod.snd).map some ++ none :: (b.map Prod.snd).map some) := by
  rw [Hashtable.findOrInsertByIDList, hlist, ok_bind]
  cases a with
  | nil => rfl
  | cons x a =>
    have htail : (a.map element ++ (mark, none) :: b.map element).map Prod.snd =
        (a.map Prod.snd).map some ++ none :: (b.map Prod.snd).map some := by
      rw [map_append, map_cons, map_snd_element, map_snd_element]
    show Except.ok (some x.2 :: (a.map element ++ (mark, none) :: b.map element).map Prod.snd) = _
    rw [htail, if_neg (cons_ne_nil x a)]
    rfl

/-- The node the lookup returns, from a split. -/
theorem findOrInsertByID_of_list :
    s.findOrInsertByID sort contentName currentId = .ok (a.map Prod.snd).head? := by
  rw [Hashtable.findOrInsertByID, hlist, ok_bind]
  cases a with
  | nil => rfl
  | cons x a => rfl

/-- What the list lookup makes of the sorted list. -/
theorem findLongestIDMatchList_of_list (ha : ∀ p ∈ a.map Prod.snd, ∃ e, s.tree p = some e) :
    fib.Fib.findLongestIDMatchList s sort contentName currentId =
      .ok (selected s (a.map Prod.snd)) := by
  rw [fib.Fib.findLongestIDMatchList, NameTree.findLongestIDMatchList,
    findOrInsertByIDList_of_list hlist, ok_bind]
  cases a with
  | nil => rfl
  | cons x a =>
    obtain ⟨e, he⟩ := ha x.2 mem_cons_self
    have hpush := mapM_pushFibEntry ha
    rw [if_neg (cons_ne_nil x a), takeWhile_isSome]
    rw [map_cons, map_cons] at hpush ⊢
    dsimp only [cons_append]
    rw [select_eq he, ok_bind, selected]
    by_cases hfib : (fibAt s x.2).isSome = true
    · rw [if_pos hfib, if_pos hfib]
      exact hpush
    · rw [if_neg hfib, if_neg hfib]
      rfl

/-- What the single lookup makes of it. -/
theorem findLongestIDMatch_of_list (ha : ∀ p ∈ a.map Prod.snd, ∃ e, s.tree p = some e) :
    fib.Fib.findLongestIDMatch s sort contentName currentId =
      .ok (firstOrEmpty (selected s (a.map Prod.snd))) := by
  rw [fib.Fib.findLongestIDMatch, NameTree.findLongestIDMatch,
    findOrInsertByID_of_list hlist, ok_bind]
  cases a with
  | nil => rfl
  | cons x a =>
    obtain ⟨e, he⟩ := ha x.2 mem_cons_self
    rw [map_cons, List.head?_cons, select_eq he, ok_bind, selected]
    by_cases hfib : (fibAt s x.2).isSome = true
    · obtain ⟨entry, hentry⟩ := Option.isSome_iff_exists.mp hfib
      rw [if_pos hfib, if_pos hfib, entryOrEmpty, getFibEntry_eq he, ok_bind, map_cons,
        hentry]
      rfl
    · rw [if_neg hfib, if_neg hfib]
      rfl

end

/-! ### However the nodes are sorted -/

/-- The nodes split off are in the tree. -/
theorem Keeps.exists_of_split (hs : Keeps hash s l)
    (hsplit : Split (currentDistance contentName currentId) (distances s contentName) a b) :
    ∀ p ∈ a.map Prod.snd, ∃ e, s.tree p = some e := by
  intro p hp
  obtain ⟨x, hx, rfl⟩ := mem_map.mp hp
  obtain ⟨⟨-, e, he, -⟩, -⟩ := hs.mem_distances.mp (hsplit.subset hx)
  exact ⟨e, he⟩

/-- **What the lookups return, for each way to sort.** -/
theorem Keeps.lookups_eq (hs : Keeps hash s l) (hread : Readable s contentName currentId)
    (sort : NextHopSort) :
    ∃ a b, Split (currentDistance contentName currentId) (distances s contentName) a b ∧
      fib.Fib.findLongestIDMatchList s sort contentName currentId =
        .ok (selected s (a.map Prod.snd)) ∧
      fib.Fib.findLongestIDMatch s sort contentName currentId =
        .ok (firstOrEmpty (selected s (a.map Prod.snd))) := by
  obtain ⟨a, b, hsort, hsplit⟩ :=
    sort.exists_split (currentDistance contentName currentId) (distances s contentName)
  have hlist := (hs.nextHopList_eq_ok_iff sort).mpr ⟨hread, rfl⟩
  rw [hsort] at hlist
  exact ⟨a, b, hsplit, findLongestIDMatchList_of_list hlist (hs.exists_of_split hsplit),
    findLongestIDMatch_of_list hlist (hs.exists_of_split hsplit)⟩

/-- Both lookups look at the same list. -/
theorem Keeps.readable_of_list (hs : Keeps hash s l) {r : List (Option EntryRef)}
    (hok : fib.Fib.findLongestIDMatchList s sort contentName currentId = .ok r) :
    Readable s contentName currentId := by
  obtain ⟨_, hnte, -⟩ := bind_eq_ok_iff.mp hok
  obtain ⟨_, hnodes, -⟩ := bind_eq_ok_iff.mp hnte
  obtain ⟨_, hlist, -⟩ := bind_eq_ok_iff.mp hnodes
  exact ((hs.nextHopList_eq_ok_iff sort).mp hlist).1

/-- **A property of all that the list lookup may return.** -/
theorem Keeps.forall_sort_iff (hs : Keeps hash s l) {P : List (Option EntryRef) → Prop} :
    (∀ sort, ∃ r, fib.Fib.findLongestIDMatchList s sort contentName currentId = .ok r ∧ P r) ↔
      Readable s contentName currentId ∧ ∀ a b,
        Split (currentDistance contentName currentId) (distances s contentName) a b →
        P (selected s (a.map Prod.snd)) := by
  constructor
  · intro h
    obtain ⟨r, hok, -⟩ := h (insertionSort _ _)
    have hread := hs.readable_of_list hok
    refine ⟨hread, fun a b hsplit => ?_⟩
    obtain ⟨sort, hsort⟩ := hsplit.exists_sort
    have hlist := (hs.nextHopList_eq_ok_iff sort).mpr ⟨hread, rfl⟩
    rw [hsort] at hlist
    obtain ⟨r, hok, hP⟩ := h sort
    rw [findLongestIDMatchList_of_list hlist (hs.exists_of_split hsplit)] at hok
    cases hok
    exact hP
  · rintro ⟨hread, hP⟩ sort
    obtain ⟨a, b, hsplit, hok, -⟩ := hs.lookups_eq hread sort
    exact ⟨_, hok, hP a b hsplit⟩

end Ns3Joined.Nfd.name_tree
