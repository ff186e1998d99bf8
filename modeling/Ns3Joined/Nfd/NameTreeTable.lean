import Mathlib.Data.List.Perm.Subperm
import Ns3Joined.Library.ExceptFold
import Ns3Joined.Nfd.NameTree

/-!
# The buckets of the name tree

The nodes are looked at in two ways: their links (`Hashtable.links`), and their hashes and entries
(`Hashtable.entries`). What moves nodes between buckets changes only the links, and what is done to
entries leaves the links.

* `Chained`: the buckets are chains of nodes with their hashes, which share none.
* `Chained.attach`, `Chained.detach`, `Chained.resize`: this is kept, and only the one node comes or
  goes.
* `Table`: the chains are those of all nodes, and the size is their number.
* `Table.findNode`, `Table.insertNode`, `Table.erase`: what the table does for a name.
-/

namespace Ns3Joined.Nfd.name_tree

open List Function ExceptFold Option

open Ndn (Name Component)
open LinkedChains

variable {o prev : Option ℕ} {fuel : ℕ}

namespace Hashtable

def links (s : Hashtable) (p : ℕ) : Option Links := (s.nodes p).map Node.toLinks

def entries (s : Hashtable) (p : ℕ) : Option (HashValue × Entry) :=
  (s.nodes p).map fun node => (node.hash, node.entry)

/-- The bucket of a node, when there are so many. -/
def number (s : Hashtable) (nBuckets p : ℕ) : Option ℕ :=
  (s.entries p).map fun d => d.1.toNat % nBuckets

variable {s s' : Hashtable} {p q bucket : ℕ} {node : Node} {h : HashValue} {e : Entry}

/-- An entry is that of a node. -/
theorem exists_node (hp : s.entries p = some (h, e)) :
    ∃ node, s.nodes p = some node ∧ node.hash = h ∧ node.entry = e := by
  obtain ⟨node, hnode, heq⟩ := map_eq_some_iff.mp hp
  exact ⟨node, hnode, congrArg Prod.fst heq, congrArg Prod.snd heq⟩

/-- The links are those of a node. -/
theorem exists_node_of_links {c : Links} (hp : s.links p = some c) :
    ∃ node, s.nodes p = some node ∧ node.prev = c.prev ∧ node.next = c.next := by
  obtain ⟨node, hnode, rfl⟩ := map_eq_some_iff.mp hp
  exact ⟨node, hnode, rfl, rfl⟩

theorem entries_eq (hnode : s.nodes p = some node) :
    s.entries p = some (node.hash, node.entry) := congrArg (Option.map _) hnode

/-- The links of a node. -/
theorem links_eq (hnode : s.nodes p = some node) : s.links p = some node.toLinks :=
  congrArg (Option.map _) hnode

/-- A node can be read. -/
theorem deref_eq (hnode : s.nodes p = some node) : s.deref p = .ok node := by
  unfold deref
  rw [hnode]

/-- A bucket can be read. -/
theorem bucketAt_eq {head : Option ℕ} (hhead : s.m_buckets[bucket]? = some head) :
    s.bucketAt bucket = .ok head := by
  unfold bucketAt
  rw [hhead]

/-- What is the same in all views when a node is written. -/
theorem map_update {α : Type*} (f : Node → α) {nodes : ℕ → Option Node} (node : Option Node) :
    (fun q => (Function.update nodes p node q).map f) =
      Function.update (fun q => (nodes q).map f) p (node.map f) := by
  funext q
  by_cases hq : q = p
  · rw [hq, update_self, update_self]
  · rw [update_of_ne hq, update_of_ne hq]

/-! ### What stays -/

/-- The nodes have other links, but nothing else of them changes. -/
structure Alike (s s' : Hashtable) : Prop where
  entries : s'.entries = s.entries
  nextPointer : s'.nextPointer = s.nextPointer
  m_size : s'.m_size = s.m_size

theorem Alike.rfl : Alike s s := ⟨Eq.refl _, Eq.refl _, Eq.refl _⟩

theorem Alike.trans {s'' : Hashtable} (h : Alike s s') (h' : Alike s' s'') : Alike s s'' :=
  ⟨h'.entries.trans h.entries, h'.nextPointer.trans h.nextPointer, h'.m_size.trans h.m_size⟩

/-- Tables that are alike number their nodes alike. -/
theorem Alike.number (h : Alike s s') (nBuckets : ℕ) : s'.number nBuckets = s.number nBuckets := by
  unfold Hashtable.number
  rw [h.entries]

/-- The links of a node are written. -/
theorem modify_links (hnode : s.nodes p = some node) {f : Node → Node}
    (hhash : (f node).hash = node.hash) (hentry : (f node).entry = node.entry) :
    ∃ s', s.modify p f = .ok s' ∧ s'.links = Function.update s.links p (some (f node).toLinks) ∧
      s'.m_buckets = s.m_buckets ∧ Alike s s' := by
  refine ⟨{ s with nodes := Function.update s.nodes p (some (f node)) }, ?_, map_update _ _,
    Eq.refl _, ?_, Eq.refl _, Eq.refl _⟩
  · unfold modify
    rw [deref_eq hnode]
    rfl
  · refine (map_update _ _).trans ?_
    have hsame : (some (f node)).map (fun node => (node.hash, node.entry)) = s.entries p := by
      rw [entries_eq hnode, map_some, hhash, hentry]
    rw [hsame]
    exact update_eq_self p s.entries

/-- The entry of a node is written. -/
theorem modifyEntry_spec (hp : s.entries p = some (h, e)) (f : Entry → Entry) :
    ∃ s', s.modifyEntry p f = .ok s' ∧ s'.links = s.links ∧ s'.m_buckets = s.m_buckets ∧
      s'.nextPointer = s.nextPointer ∧ s'.m_size = s.m_size ∧
      s'.entries = Function.update s.entries p (some (h, f e)) := by
  obtain ⟨node, hnode, rfl, rfl⟩ := exists_node hp
  refine ⟨{ s with nodes :=
    Function.update s.nodes p (some { node with entry := f node.entry }) }, ?_, ?_, rfl, rfl, rfl,
    map_update _ _⟩
  · unfold modifyEntry modify
    rw [deref_eq hnode]
    rfl
  · refine (map_update _ _).trans ?_
    have hsame : (some { node with entry := f node.entry }).map Node.toLinks = s.links p :=
      (links_eq hnode).symm
    rw [hsame]
    exact update_eq_self p s.links

/-! ### Chains -/

/-- The buckets are the chains of `l`. -/
structure Chained (s : Hashtable) (l : List (List ℕ)) : Prop where
  chains : Chains s.links s.m_buckets l
  pos : 0 < l.length
  numbered : Numbered (s.number l.length) 0 l
  lt : ∀ p ∈ l.flatten, p < s.nextPointer

variable {l l₁ l₂ : List (List ℕ)} {a b : List ℕ}

/-- The number of buckets is that of the chains. -/
theorem Chained.getNBuckets (hs : Chained s l) : s.getNBuckets = l.length := by
  unfold Hashtable.getNBuckets
  rw [hs.chains.heads, length_map]

/-- The index of a bucket is in range. -/
theorem Chained.computeBucketIndex_lt (hs : Chained s l) (h : HashValue) :
    s.computeBucketIndex h < l.length := by
  unfold Hashtable.computeBucketIndex
  rw [hs.getNBuckets]
  exact Nat.mod_lt _ hs.pos

/-- Every hash has its bucket among the chains. -/
theorem Chained.exists_bucket (hs : Chained s l) (h : HashValue) :
    ∃ l₁ b l₂, l = l₁ ++ b :: l₂ ∧ l₁.length = s.computeBucketIndex h := by
  have hlt := hs.computeBucketIndex_lt h
  exact ⟨l.take _, l[s.computeBucketIndex h], l.drop (s.computeBucketIndex h + 1),
    by rw [getElem_cons_drop, take_append_drop],
    length_take_of_le (Nat.le_of_lt hlt)⟩

/-- Replacing a chain keeps their number. -/
theorem length_replaced (l₁ l₂ : List (List ℕ)) (b b' : List ℕ) :
    (l₁ ++ b' :: l₂).length = (l₁ ++ b :: l₂).length := by
  rw [length_append, length_append, length_cons, length_cons]

/-- A node of a chain has an entry. -/
theorem exists_of_mem_flatten (hs : Chained s l) (hp : p ∈ l.flatten) :
    ∃ h e, s.entries p = some (h, e) := by
  obtain ⟨_, _, _, _, _, hnumber⟩ := hs.numbered.split hp
  obtain ⟨⟨h, e⟩, heq, -⟩ := map_eq_some_iff.mp hnumber
  exact ⟨h, e, heq⟩

/-- The chain of a bucket becomes another one. -/
theorem Chained.replace {b' : List ℕ} (hs : Chained s (l₁ ++ b :: l₂)) (halike : Alike s s')
    (hchains : Chains s'.links s'.m_buckets (l₁ ++ b' :: l₂))
    (hnew : ∀ p ∈ b', p ∈ b ∨
      p < s.nextPointer ∧ s.number (l₁ ++ b :: l₂).length p = some l₁.length) :
    Chained s' (l₁ ++ b' :: l₂) where
  chains := hchains
  pos := by
    rw [length_replaced l₁ l₂ b b']
    exact hs.pos
  numbered := by
    rw [length_replaced l₁ l₂ b b', halike.number]
    obtain ⟨h₁, hb, h₂⟩ := numbered_append.mp hs.numbered
    refine numbered_append.mpr ⟨h₁, fun p hp => ?_, h₂⟩
    obtain hp | ⟨-, hnumber⟩ := hnew p hp
    · exact hb p hp
    · rw [Nat.zero_add]
      exact hnumber
  lt := fun p hp => by
    rw [halike.nextPointer]
    obtain hp | hp := mem_append.mp ((flatten_perm l₁ b' l₂).mem_iff.mp hp)
    · obtain hp | ⟨hlt, -⟩ := hnew p hp
      · exact hs.lt p ((flatten_perm l₁ b l₂).mem_iff.mpr (mem_append_left _ hp))
      · exact hlt
    · exact hs.lt p ((flatten_perm l₁ b l₂).mem_iff.mpr (mem_append_right _ hp))

/-! ### Attaching -/

/-- The head of a bucket is the first of its chain. -/
theorem Chained.head_eq (hs : Chained s (l₁ ++ b :: l₂)) :
    s.bucketAt l₁.length = .ok b.head? := bucketAt_eq hs.chains.head_eq

/-- The links after a node is put in front. -/
theorem setHeadPrev_spec (ho : ∀ q, o = some q → ∃ next, s.links q = some ⟨none, next⟩) :
    ∃ s', s.setHeadPrev p o = .ok s' ∧ s'.links = setPrev s.links o (some p) ∧
      s'.m_buckets = s.m_buckets ∧ Alike s s' := by
  cases o with
  | none => exact ⟨s, rfl, rfl, rfl, .rfl⟩
  | some q =>
    obtain ⟨next, hq⟩ := ho q rfl
    obtain ⟨node, hnode, hprev, -⟩ := exists_node_of_links hq
    obtain ⟨s', hok, hlinks, hbuckets, halike⟩ :=
      modify_links (f := fun node => { node with prev := some p }) hnode rfl rfl
    refine ⟨s', ?_, ?_, hbuckets, halike⟩
    · rw [Hashtable.setHeadPrev, deref_eq hnode, ok_bind, if_neg (not_not.mpr hprev),
      hok]
    · rw [hlinks, LinkedChains.setPrev, links_eq hnode]
      rfl

/-- Attaching a fresh node puts it in front of its bucket's chain. -/
theorem Chained.attach (hs : Chained s (l₁ ++ b :: l₂)) (hp : p ∉ (l₁ ++ b :: l₂).flatten)
    (hlt : p < s.nextPointer) (hnumber : s.number (l₁ ++ b :: l₂).length p = some l₁.length) :
    ∃ s', s.attach l₁.length p = .ok s' ∧ Chained s' (l₁ ++ (p :: b) :: l₂) ∧ Alike s s' ∧
      s'.links = pushFront s.links b.head? p := by
  obtain ⟨⟨h, e⟩, hentry, -⟩ := map_eq_some_iff.mp hnumber
  obtain ⟨node, hnode, -, -⟩ := exists_node hentry
  obtain ⟨s₁, hok₁, hlinks₁, hbuckets₁, halike₁⟩ :=
    modify_links (f := fun node => { node with prev := none, next := b.head? }) hnode rfl rfl
  have hhead : ∀ q, b.head? = some q → ∃ next, s₁.links q = some ⟨none, next⟩ := fun q hq => by
    have hqb : q ∈ b := mem_of_head? hq
    have hne : q ≠ p := fun heq => hp (heq ▸
      (flatten_perm l₁ b l₂).mem_iff.mpr (mem_append_left _ hqb))
    obtain ⟨b, rfl⟩ : ∃ b', b = q :: b' := List.head?_eq_some_iff.mp hq
    have hchain := hs.chains.chain _ (mem_append_right l₁ mem_cons_self)
    rw [hlinks₁, update_of_ne hne]
    exact ⟨_, hchain.1⟩
  obtain ⟨s₂, hok₂, hlinks₂, hbuckets₂, halike₂⟩ := setHeadPrev_spec (p := p) hhead
  have halike : Alike s (s₂.setBucket l₁.length (some p)) :=
    halike₁.trans ⟨halike₂.entries, halike₂.nextPointer, halike₂.m_size⟩
  have hlinks : (s₂.setBucket l₁.length (some p)).links = pushFront s.links b.head? p := by
    show s₂.links = _
    rw [hlinks₂, hlinks₁]
    rfl
  refine ⟨s₂.setBucket l₁.length (some p), ?_, ?_, halike, hlinks⟩
  · unfold Hashtable.attach
    rw [hs.head_eq, ok_bind, hok₁, ok_bind, hok₂, ok_bind]
  · refine hs.replace halike ?_ (forall_mem_cons.mpr ⟨.inr ⟨hlt, hnumber⟩, fun _ => .inl⟩)
    rw [hlinks]
    show Chains _ (s₂.m_buckets.set l₁.length (some p)) _
    rw [hbuckets₂, hbuckets₁]
    exact hs.chains.pushFront hp

/-! ### Detaching -/

/-- The links of a node are its neighbours in the chain. -/
theorem Chained.links_eq (hs : Chained s (l₁ ++ (a ++ p :: b) :: l₂)) :
    s.links p = some ⟨a.getLast?, b.head?⟩ := by
  have hchain := hs.chains.chain _ (mem_append_right l₁ mem_cons_self)
  have hlinks := Segment.links_eq hchain
  rw [or_none, or_none] at hlinks
  exact hlinks

/-- The node before it is followed by the one after it. -/
theorem Chained.detachPrev (hs : Chained s (l₁ ++ (a ++ p :: b) :: l₂))
    (hprev : node.prev = a.getLast?) (hnext : node.next = b.head?) :
    ∃ s', s.detachPrev l₁.length p node = .ok s' ∧
      s'.links = setNext s.links a.getLast? b.head? ∧
      s'.m_buckets = s.m_buckets.set l₁.length (a ++ b).head? ∧ Alike s s' := by
  unfold Hashtable.detachPrev
  rw [hprev, hnext]
  obtain rfl | ⟨a, o, rfl⟩ := eq_nil_or_concat a
  · refine ⟨s.setBucket l₁.length b.head?, ?_, rfl, rfl, rfl, rfl, rfl⟩
    show (s.bucketAt l₁.length >>= _ : Except Fault Hashtable) = _
    rw [hs.head_eq, ok_bind]
    exact if_neg (not_not.mpr rfl)
  · rw [concat_eq_append] at hs ⊢
    rw [List.getLast?_concat]
    rw [append_assoc] at hs
    have ho : s.links o = some ⟨a.getLast?, some p⟩ := hs.links_eq
    obtain ⟨before, hbefore, -, hbeforeNext⟩ := exists_node_of_links ho
    obtain ⟨s', hok, hlinks, hbuckets, halike⟩ :=
      modify_links (f := fun before => { before with next := b.head? }) hbefore rfl rfl
    refine ⟨s', ?_, ?_, ?_, halike⟩
    · show (s.deref o >>= _ : Except Fault Hashtable) = _
      rw [deref_eq hbefore, ok_bind, if_neg (not_not.mpr hbeforeNext), hok]
    · rw [hlinks, LinkedChains.setNext, Hashtable.links_eq hbefore]
      rfl
    · -- the head stays the same
      have hhead : (a ++ [o] ++ b).head? = (a ++ ([o] ++ p :: b)).head? := by
        cases a <;> rfl
      obtain ⟨hlt, heq⟩ := List.getElem?_eq_some_iff.mp hs.chains.head_eq
      rw [hbuckets, hhead, ← heq, set_getElem_self hlt]

/-- The node after it is preceded by the one before it. -/
theorem detachNext_spec (hnext : node.next = o)
    (ho : ∀ q, o = some q → ∃ next, s.links q = some ⟨some p, next⟩) :
    ∃ s', s.detachNext p node = .ok s' ∧ s'.links = setPrev s.links o node.prev ∧
      s'.m_buckets = s.m_buckets ∧ Alike s s' := by
  unfold Hashtable.detachNext
  rw [hnext]
  cases o with
  | none => exact ⟨s, rfl, rfl, rfl, .rfl⟩
  | some q =>
    obtain ⟨next, hq⟩ := ho q rfl
    obtain ⟨after, hafter, hafterPrev, -⟩ := exists_node_of_links hq
    obtain ⟨s', hok, hlinks, hbuckets, halike⟩ :=
      modify_links (f := fun after => { after with prev := node.prev }) hafter rfl rfl
    refine ⟨s', ?_, ?_, hbuckets, halike⟩
    · show (s.deref q >>= _ : Except Fault Hashtable) = _
      rw [deref_eq hafter, ok_bind, if_neg (not_not.mpr hafterPrev), hok]
    · rw [hlinks, LinkedChains.setPrev, Hashtable.links_eq hafter]
      rfl

/-- Detaching a node takes it from its chain. -/
theorem Chained.detach (hs : Chained s (l₁ ++ (a ++ p :: b) :: l₂)) :
    ∃ s', s.detach l₁.length p = .ok s' ∧ Chained s' (l₁ ++ (a ++ b) :: l₂) ∧ Alike s s' ∧
      s'.links = unlink s.links p ⟨a.getLast?, b.head?⟩ := by
  obtain ⟨node, hnode, hprev, hnext⟩ := exists_node_of_links hs.links_eq
  have hnodup := hs.chains.nodup_chain
  have hnot : p ∉ a ++ b := (nodup_cons.mp (perm_middle.nodup_iff.mp hnodup)).1
  have hnota : a.getLast? ≠ some p :=
    ne_of_notMem (fun _ => mem_of_getLast?) fun hmem => hnot (mem_append_left b hmem)
  have hnotb : b.head? ≠ some p :=
    ne_of_notMem (fun _ => mem_of_head?) fun hmem => hnot (mem_append_right a hmem)
  obtain ⟨s₁, hok₁, hlinks₁, hbuckets₁, halike₁⟩ := hs.detachPrev hprev hnext
  -- the node itself is as it was
  have hp₁ : s₁.links p = some ⟨a.getLast?, b.head?⟩ := by
    rw [hlinks₁, setNext_of_ne hnota]
    exact hs.links_eq
  obtain ⟨node₁, hnode₁, hprev₁, hnext₁⟩ := exists_node_of_links hp₁
  have hafter : ∀ q, b.head? = some q → ∃ next, s₁.links q = some ⟨some p, next⟩ := by
    intro q hq
    obtain ⟨b, rfl⟩ := List.head?_eq_some_iff.mp hq
    have hqa : a.getLast? ≠ some q := ne_of_notMem (fun _ => mem_of_getLast?) fun hmem =>
      disjoint_of_nodup_append hnodup hmem (mem_cons_of_mem p mem_cons_self)
    rw [hlinks₁, setNext_of_ne hqa]
    have hnext : Chained s (l₁ ++ (a ++ [p] ++ q :: b) :: l₂) := by
      rw [append_assoc]
      exact hs
    have hlinks := hnext.links_eq
    rw [List.getLast?_concat] at hlinks
    exact ⟨_, hlinks⟩
  obtain ⟨s₂, hok₂, hlinks₂, hbuckets₂, halike₂⟩ := detachNext_spec hnext₁ hafter
  have hp₂ : s₂.links p = some ⟨a.getLast?, b.head?⟩ := by
    rw [hlinks₂, setPrev_of_ne hnotb]
    exact hp₁
  obtain ⟨node₂, hnode₂, -, -⟩ := exists_node_of_links hp₂
  obtain ⟨s₃, hok₃, hlinks₃, hbuckets₃, halike₃⟩ :=
    modify_links (f := fun node => { node with prev := none, next := none }) hnode₂ rfl rfl
  have halike : Alike s s₃ := (halike₁.trans halike₂).trans halike₃
  have hlinks : s₃.links = unlink s.links p ⟨a.getLast?, b.head?⟩ := by
    rw [hlinks₃, hlinks₂, hlinks₁, hprev₁]
    rfl
  refine ⟨s₃, ?_, ?_, halike, hlinks⟩
  · unfold Hashtable.detach
    rw [deref_eq hnode, ok_bind, hok₁, ok_bind, deref_eq hnode₁,
      ok_bind, hok₂, ok_bind, hok₃]
  · refine hs.replace halike ?_ fun q hq => .inl
      (perm_middle.mem_iff.mpr (mem_cons_of_mem p hq))
    rw [hlinks, hbuckets₃, hbuckets₂, hbuckets₁]
    exact hs.chains.unlink

/-! ### Resizing -/

/-- Different pointers below a bound are at most so many. -/
theorem length_le_of_lt {n : ℕ} (hnodup : a.Nodup) (hlt : ∀ p ∈ a, p < n) : a.length ≤ n := by
  have hsub : a.Subperm (List.range n) :=
    hnodup.subperm fun p hp => mem_range.mpr (hlt p hp)
  exact Nat.le_trans hsub.length_le (Nat.le_of_eq length_range)

/-- The node goes to the chain of its bucket. -/
theorem Chained.reattach (hs : Chained s l) (hp : p ∉ l.flatten) (hlt : p < s.nextPointer)
    (hentry : s.entries p = some (h, e)) :
    ∃ s' l', s.reattach p = .ok s' ∧ Chained s' l' ∧ l'.length = l.length ∧
      l'.flatten.Perm (p :: l.flatten) ∧ Alike s s' ∧
      ∀ q, q ≠ p → q ∉ l.flatten → s'.links q = s.links q := by
  obtain ⟨node, hnode, rfl, rfl⟩ := exists_node hentry
  obtain ⟨l₁, b, l₂, rfl, hlength⟩ := hs.exists_bucket node.hash
  have hnumber : s.number (l₁ ++ b :: l₂).length p = some l₁.length := by
    unfold Hashtable.number
    rw [hentry, hlength, Hashtable.computeBucketIndex, hs.getNBuckets]
    rfl
  obtain ⟨s', hok, hs', halike, hlinks⟩ := hs.attach hp hlt hnumber
  refine ⟨s', _, ?_, hs', length_replaced _ _ _ _, ?_, halike, fun q hq hmem => ?_⟩
  · unfold Hashtable.reattach
    rw [deref_eq hnode, ok_bind, ← hlength, hok]
  · exact (flatten_perm l₁ (p :: b) l₂).trans ((flatten_perm l₁ b l₂).symm.cons p)
  · rw [hlinks]
    exact pushFront_of_ne hq fun hqb =>
      hmem ((flatten_perm l₁ b l₂).mem_iff.mpr (mem_append_left _ hqb))

/-- The loop over an old chain, whose nodes go to the new ones. -/
theorem Chained.foreachNode (hs : Chained s l) (hold : Segment s.links prev a none)
    (hnodup : a.Nodup) (hapart : ∀ p ∈ a, p ∉ l.flatten) (hlt : ∀ p ∈ a, p < s.nextPointer)
    (hentries : ∀ p ∈ a, ∃ h e, s.entries p = some (h, e)) (hfuel : a.length ≤ fuel) :
    ∃ s' l', foreachNode Hashtable.reattach fuel s a.head? = .ok s' ∧ Chained s' l' ∧
      l'.length = l.length ∧ l'.flatten.Perm (a ++ l.flatten) ∧ Alike s s' ∧
      ∀ q, q ∉ a → q ∉ l.flatten → s'.links q = s.links q := by
  induction a generalizing s l fuel prev with
  | nil =>
    refine ⟨s, l, ?_, hs, rfl, .refl _, .rfl, fun _ _ _ => rfl⟩
    cases fuel <;> rfl
  | cons p a ih =>
    obtain ⟨fuel, rfl⟩ : ∃ n, fuel = n + 1 :=
      Nat.exists_eq_succ_of_ne_zero (Nat.ne_zero_of_lt hfuel)
    obtain ⟨hpa, hnodup⟩ := nodup_cons.mp hnodup
    obtain ⟨hp, hapart⟩ := forall_mem_cons.mp hapart
    obtain ⟨hplt, hlt⟩ := forall_mem_cons.mp hlt
    obtain ⟨⟨h, e, hentry⟩, hentries⟩ := forall_mem_cons.mp hentries
    obtain ⟨node, hnode, -, hnext⟩ := exists_node_of_links hold.1
    obtain ⟨s₁, l₁, hok₁, hs₁, hlength₁, hperm₁, halike₁, hframe₁⟩ := hs.reattach hp hplt hentry
    have hne : ∀ q ∈ a, q ≠ p := fun q hq heq => hpa (heq ▸ hq)
    have hold₁ : Segment s₁.links (some p) a none :=
      hold.2.congr fun q hq => hframe₁ q (hne q hq) (hapart q hq)
    have hapart₁ : ∀ q ∈ a, q ∉ l₁.flatten := fun q hq hmem => by
      obtain heq | hmem := mem_cons.mp (hperm₁.mem_iff.mp hmem)
      · exact hne q hq heq
      · exact hapart q hq hmem
    obtain ⟨s₂, l₂, hok₂, hs₂, hlength₂, hperm₂, halike₂, hframe₂⟩ := ih hs₁ hold₁ hnodup hapart₁
      (halike₁.nextPointer ▸ hlt) (halike₁.entries ▸ hentries) (Nat.le_of_succ_le_succ hfuel)
    refine ⟨s₂, l₂, ?_, hs₂, hlength₂.trans hlength₁, ?_, halike₁.trans halike₂,
      fun q hq hmem => ?_⟩
    · rw [List.head?_cons, Hashtable.foreachNode, deref_eq hnode, ok_bind, hok₁,
        ok_bind, hnext]
      dsimp only
      rw [or_none, hok₂]
    · exact hperm₂.trans ((hperm₁.append_left a).trans perm_middle)
    · rw [mem_cons, not_or] at hq
      rw [hframe₂ q hq.2 fun hmem₁ => ?_, hframe₁ q hq.1 hmem]
      obtain heq | hmem₁ := mem_cons.mp (hperm₁.mem_iff.mp hmem₁)
      · exact hq.1 heq
      · exact hmem hmem₁

/-- The loop over the old buckets. -/
theorem Chained.foreachBucket {c : List (List ℕ)} (hs : Chained s l)
    (hold : ∀ b ∈ c, Chain s.links b) (hnodup : c.flatten.Nodup)
    (hapart : ∀ p ∈ c.flatten, p ∉ l.flatten) (hlt : ∀ p ∈ c.flatten, p < s.nextPointer)
    (hentries : ∀ p ∈ c.flatten, ∃ h e, s.entries p = some (h, e)) (hfuel : s.nextPointer ≤ fuel) :
    ∃ s' l', (c.map List.head?).foldlM (Hashtable.foreachNode Hashtable.reattach fuel) s = .ok s' ∧
      Chained s' l' ∧ l'.length = l.length ∧ l'.flatten.Perm (c.flatten ++ l.flatten) ∧
      Alike s s' := by
  induction c generalizing s l with
  | nil => exact ⟨s, l, rfl, hs, rfl, .refl _, .rfl⟩
  | cons b c ih =>
    rw [flatten_cons] at hnodup hapart hlt hentries
    obtain ⟨hb, hc⟩ := forall_mem_cons.mp hold
    obtain ⟨hnodupb, hnodupc, -⟩ := nodup_append.mp hnodup
    have hltb : ∀ p ∈ b, p < s.nextPointer := fun p hp => hlt p (mem_append_left _ hp)
    obtain ⟨s₁, l₁, hok₁, hs₁, hlength₁, hperm₁, halike₁, hframe₁⟩ :=
      hs.foreachNode hb hnodupb (fun p hp => hapart p (mem_append_left _ hp)) hltb
        (fun p hp => hentries p (mem_append_left _ hp))
        (Nat.le_trans (length_le_of_lt hnodupb hltb) hfuel)
    have hnotb : ∀ p ∈ c.flatten, p ∉ b := fun p hp hpb =>
      disjoint_of_nodup_append hnodup hpb hp
    have hnotl : ∀ p ∈ c.flatten, p ∉ l.flatten := fun p hp =>
      hapart p (mem_append_right _ hp)
    obtain ⟨s₂, l₂, hok₂, hs₂, hlength₂, hperm₂, halike₂⟩ := ih hs₁
      (fun d hd => (hc d hd).congr fun q hq =>
        have hmem : q ∈ c.flatten := mem_flatten.mpr ⟨d, hd, hq⟩
        hframe₁ q (hnotb q hmem) (hnotl q hmem))
      hnodupc (fun p hp hmem => (mem_append.mp (hperm₁.mem_iff.mp hmem)).elim
        (hnotb p hp) (hnotl p hp))
      (fun p hp => halike₁.nextPointer ▸ hlt p (mem_append_right _ hp))
      (fun p hp => halike₁.entries ▸ hentries p (mem_append_right _ hp))
      (halike₁.nextPointer ▸ hfuel)
    refine ⟨s₂, l₂, ?_, hs₂, hlength₂.trans hlength₁, ?_, halike₁.trans halike₂⟩
    · rw [map_cons, foldlM_cons, hok₁, ok_bind, hok₂]
    · rw [flatten_cons]
      refine hperm₂.trans ((hperm₁.append_left _).trans ?_)
      rw [← append_assoc]
      exact perm_append_comm.append_right _

/-- The thresholds do not concern the chains. -/
theorem Chained.computeThresholds (hs : Chained s l) : Chained s.computeThresholds l :=
  ⟨hs.chains, hs.pos, hs.numbered, hs.lt⟩

/-- Empty buckets have empty chains. -/
theorem chained_replicate {n : ℕ} (hbuckets : s.m_buckets = List.replicate n none) (hpos : 0 < n) :
    Chained s (List.replicate n []) := by
  refine ⟨⟨?_, fun b hb => ?_, ?_⟩, ?_, numbered_replicate, ?_⟩
  · rw [hbuckets, map_replicate]
    rfl
  · rw [(mem_replicate.mp hb).2]
    trivial
  · rw [flatten_replicate_nil]
    exact nodup_nil
  · rw [length_replicate]
    exact hpos
  · rw [flatten_replicate_nil]
    nofun

/-- **A resize keeps all nodes**, in the buckets of their hashes. -/
theorem Chained.resize (hs : Chained s l) {newNBuckets : ℕ} (hpos : 0 < newNBuckets) :
    ∃ s' l', s.resize newNBuckets = .ok s' ∧ Chained s' l' ∧ l'.flatten.Perm l.flatten ∧
      Alike s s' := by
  unfold Hashtable.resize
  split_ifs with hsame
  · exact ⟨s, l, rfl, hs, .refl _, .rfl⟩
  -- all buckets are empty first
  have hempty : Chained { s with m_buckets := List.replicate newNBuckets none }
      (List.replicate newNBuckets []) := chained_replicate rfl hpos
  have hnone : ∀ p, p ∉ (List.replicate newNBuckets ([] : List ℕ)).flatten := by
    rw [flatten_replicate_nil]
    exact fun _ => not_mem_nil
  have hentries : ∀ p ∈ l.flatten, ∃ h e, s.entries p = some (h, e) :=
    fun p hp => exists_of_mem_flatten hs hp
  obtain ⟨s', l', hok, hs', -, hperm, halike⟩ := hempty.foreachBucket hs.chains.chain
    hs.chains.nodup (fun p _ => hnone p) hs.lt hentries (Nat.le_refl s.nextPointer)
  rw [flatten_replicate_nil, append_nil] at hperm
  refine ⟨s'.computeThresholds, l', ?_, hs'.computeThresholds, hperm,
    halike.entries, halike.nextPointer, halike.m_size⟩
  rw [hs.chains.heads, hok, ok_bind]

/-! ### Nodes that come and go -/

/-- Only the nodes in the buckets matter. -/
theorem Chained.congr (hs : Chained s l) (hlinks : ∀ p ∈ l.flatten, s'.links p = s.links p)
    (hnumber : ∀ p ∈ l.flatten, s'.number l.length p = s.number l.length p)
    (hbuckets : s'.m_buckets = s.m_buckets) (hle : s.nextPointer ≤ s'.nextPointer) :
    Chained s' l :=
  ⟨hbuckets ▸ hs.chains.congr hlinks, hs.pos, hs.numbered.congr hnumber,
    fun p hp => Nat.lt_of_lt_of_le (hs.lt p hp) hle⟩

/-- The chains are those of all nodes, which have the hashes of their names, and the size is their
number. -/
structure Table (hash : Component → HashValue) (s : Hashtable) (l : List (List ℕ)) : Prop where
  chained : Chained s l
  mem : ∀ p d, s.entries p = some d → p ∈ l.flatten
  size : s.m_size = l.flatten.length
  hashes : ∀ p h e, s.entries p = some (h, e) → h = computeHash hash e.m_name e.m_name.length

/-- The entries without their hashes. -/
def tree (s : Hashtable) (p : ℕ) : Option Entry := (s.entries p).map Prod.snd

variable {hash : Component → HashValue} {name : Name} {prefixLen : ℕ}

/-- The entry of a node in the tree. -/
theorem tree_eq (hp : s.entries p = some (h, e)) : s.tree p = some e :=
  congrArg (Option.map Prod.snd) hp

/-- The tree after an update of one node. -/
theorem tree_update {d : Option (HashValue × Entry)}
    (hentries : s'.entries = Function.update s.entries p d) :
    s'.tree = Function.update s.tree p (d.map Prod.snd) := by
  funext q
  unfold tree
  rw [hentries]
  by_cases hq : q = p
  · rw [hq, update_self, update_self]
  · rw [update_of_ne hq, update_of_ne hq]

/-- Tables that are alike have the same tree. -/
theorem Alike.tree (halike : Alike s s') : s'.tree = s.tree := by
  unfold Hashtable.tree
  rw [halike.entries]

/-- An entry of the tree has its hash. -/
theorem exists_entry (hp : s.tree p = some e) : ∃ h, s.entries p = some (h, e) := by
  obtain ⟨⟨h, e'⟩, heq, rfl⟩ := map_eq_some_iff.mp hp
  exact ⟨h, heq⟩

/-- The hash of a prefix does not look behind it. -/
theorem computeHash_take (hash : Component → HashValue) (name : Name) (prefixLen : ℕ) :
    computeHash hash (name.take prefixLen) (name.take prefixLen).length =
      computeHash hash name prefixLen := by
  unfold computeHash
  rw [take_length]

/-- Moving nodes between chains keeps the table. -/
theorem Table.moved {l' : List (List ℕ)} (ht : Table hash s l) (halike : Alike s s')
    (hs : Chained s' l') (hperm : l'.flatten.Perm l.flatten) : Table hash s' l' where
  chained := hs
  mem := fun p d hp => hperm.mem_iff.mpr (ht.mem p d (halike.entries ▸ hp))
  size := by rw [halike.m_size, ht.size, hperm.length_eq]
  hashes := fun p h e hp => ht.hashes p h e (halike.entries ▸ hp)

/-- Expanding when needed succeeds and keeps the table. -/
theorem Table.expandIfNeeded (ht : Table hash s l) :
    ∃ s' l', s.expandIfNeeded = .ok s' ∧ Table hash s' l' ∧ Alike s s' := by
  unfold Hashtable.expandIfNeeded
  split_ifs
  · have hpos : 0 < s.getNBuckets := ht.chained.getNBuckets.symm ▸ ht.chained.pos
    obtain ⟨s', l', hok, hs', hperm, halike⟩ :=
      ht.chained.resize (s.m_options.expand_pos _ hpos)
    exact ⟨s', l', hok, ht.moved halike hs' hperm, halike⟩
  · exact ⟨s, l, rfl, ht, .rfl⟩

/-- Shrinking when needed succeeds and keeps the table. -/
theorem Table.shrinkIfNeeded (ht : Table hash s l) :
    ∃ s' l', s.shrinkIfNeeded = .ok s' ∧ Table hash s' l' ∧ Alike s s' := by
  unfold Hashtable.shrinkIfNeeded
  split_ifs
  · obtain ⟨s', l', hok, hs', hperm, halike⟩ := ht.chained.resize
      (Nat.lt_of_lt_of_le s.m_options.minSize_pos (Nat.le_max_left _ (s.m_options.shrink _)))
    exact ⟨s', l', hok, ht.moved halike hs' hperm, halike⟩
  · exact ⟨s, l, rfl, ht, .rfl⟩

/-! ### Finding -/

/-- The search along a chain finds the node of the hash and the name, if there is one. -/
theorem searchFrom_spec (name : Name) (prefixLen : ℕ) (h : HashValue)
    (hchain : Segment s.links prev a none) (hfuel : a.length ≤ fuel) :
    ∃ r, s.searchFrom name prefixLen h fuel a.head? = .ok r ∧
      (∀ p, r = some p → ∃ e, s.entries p = some (h, e) ∧ e.m_name = name.take prefixLen) ∧
      (r = none → ∀ p ∈ a, ∀ e, s.entries p = some (h, e) → e.m_name ≠ name.take prefixLen) := by
  induction a generalizing fuel prev with
  | nil =>
    refine ⟨none, ?_, nofun, nofun⟩
    cases fuel <;> rfl
  | cons p a ih =>
    obtain ⟨fuel, rfl⟩ : ∃ n, fuel = n + 1 :=
      Nat.exists_eq_succ_of_ne_zero (Nat.ne_zero_of_lt hfuel)
    obtain ⟨node, hnode, -, hnext⟩ := exists_node_of_links hchain.1
    have hentry := entries_eq hnode
    rw [List.head?_cons, Hashtable.searchFrom, deref_eq hnode, ok_bind]
    split_ifs with hfound
    · refine ⟨some p, rfl, fun q hq => ?_, nofun⟩
      obtain rfl := Option.some.inj hq
      exact ⟨node.entry, hfound.1 ▸ hentry,
        (Std.LawfulEqCmp.compare_eq_iff_eq.mp hfound.2).symm⟩
    · obtain ⟨r, hok, hsome, hnone⟩ := ih hchain.2 (Nat.le_of_succ_le_succ hfuel)
      rw [hnext]
      dsimp only
      rw [or_none]
      refine ⟨r, hok, hsome, fun hr => forall_mem_cons.mpr ⟨fun e he heq => ?_, hnone hr⟩⟩
      rw [hentry, some_inj, Prod.mk.injEq] at he
      exact hfound ⟨he.1, Std.LawfulEqCmp.compare_eq_iff_eq.mpr (he.2 ▸ heq.symm)⟩

/-- **A name is found if there is an entry for it.** -/
theorem Table.findNode (ht : Table hash s l) (name : Name) (prefixLen : ℕ) :
    ∃ r, s.findNode name prefixLen (computeHash hash name prefixLen) = .ok r ∧
      (∀ p, r = some p → ∃ e, s.tree p = some e ∧ e.m_name = name.take prefixLen) ∧
      (r = none → ∀ p e, s.tree p = some e → e.m_name ≠ name.take prefixLen) := by
  obtain ⟨l₁, b, l₂, rfl, hlength⟩ := ht.chained.exists_bucket (computeHash hash name prefixLen)
  have hchain := ht.chained.chains.chain b (mem_append_right l₁ mem_cons_self)
  have hfuel : b.length ≤ s.nextPointer := length_le_of_lt ht.chained.chains.nodup_chain
    fun p hp => ht.chained.lt p ((flatten_perm l₁ b l₂).mem_iff.mpr (mem_append_left _ hp))
  obtain ⟨r, hok, hsome, hnone⟩ :=
    searchFrom_spec name prefixLen (computeHash hash name prefixLen) hchain hfuel
  refine ⟨r, ?_, fun p hp => ?_, fun hr p e hp heq => ?_⟩
  · unfold Hashtable.findNode
    rw [← hlength, ht.chained.head_eq, ok_bind, hok]
  · obtain ⟨e, hentry, hname⟩ := hsome p hp
    exact ⟨e, tree_eq hentry, hname⟩
  · -- an entry of that name is in the bucket
    obtain ⟨h, hentry⟩ := exists_entry hp
    obtain rfl := ht.hashes p h e hentry
    have hmem := ht.mem p _ hentry
    rw [heq, computeHash_take] at hentry
    refine hnone hr p (ht.chained.numbered.mem hmem ?_) e hentry heq
    unfold Hashtable.number
    rw [hentry, hlength, Hashtable.computeBucketIndex, ht.chained.getNBuckets]
    rfl

/-! ### Inserting -/

/-- A node for a name that has no entry yet. -/
theorem Table.insertNode (ht : Table hash s l) (name : Name) (prefixLen : ℕ)
    (hdepth : (name.take prefixLen).length ≤ getMaxDepth) :
    ∃ s' l' p, s.insertNode name prefixLen (computeHash hash name prefixLen) = .ok (s', p) ∧
      Table hash s' l' ∧ s.tree p = none ∧
      s'.tree = Function.update s.tree p (some (.ofName (name.take prefixLen))) := by
  obtain ⟨l₁, b, l₂, rfl, hlength⟩ := ht.chained.exists_bucket (computeHash hash name prefixLen)
  set p := s.nextPointer with hp
  set d : HashValue × Entry := (computeHash hash name prefixLen, .ofName (name.take prefixLen))
    with hd
  -- the node is there, but in no bucket
  set s₁ : Hashtable := { s with
    nodes := Function.update s.nodes s.nextPointer
      (some ⟨⟨none, none⟩, computeHash hash name prefixLen, .ofName (name.take prefixLen)⟩)
    nextPointer := s.nextPointer + 1 } with hs₁
  have hnew : s.newNode (computeHash hash name prefixLen) (name.take prefixLen) = .ok (s₁, p) :=
    if_neg (Nat.not_lt_of_le hdepth)
  have hentries₁ : s₁.entries = Function.update s.entries p (some d) := map_update _ _
  have hlinks₁ : s₁.links = Function.update s.links p (some ⟨none, none⟩) := map_update _ _
  have hnotp : p ∉ (l₁ ++ b :: l₂).flatten := fun hmem =>
    Nat.lt_irrefl _ (ht.chained.lt p hmem)
  have hne : ∀ q ∈ (l₁ ++ b :: l₂).flatten, q ≠ p := fun q hq heq => hnotp (heq ▸ hq)
  have hchained₁ : Chained s₁ (l₁ ++ b :: l₂) := by
    refine ht.chained.congr (fun q hq => ?_) (fun q hq => ?_) rfl (Nat.le_succ _)
    · rw [hlinks₁, update_of_ne (hne q hq)]
    · unfold Hashtable.number
      rw [hentries₁, update_of_ne (hne q hq)]
  have hnumber : s₁.number (l₁ ++ b :: l₂).length p = some l₁.length := by
    unfold Hashtable.number
    rw [hentries₁, update_self, hlength, Hashtable.computeBucketIndex,
      ht.chained.getNBuckets]
    rfl
  obtain ⟨s₂, hok₂, hs₂, halike₂, -⟩ := hchained₁.attach hnotp (Nat.lt_succ_self _) hnumber
  have hperm : (l₁ ++ (p :: b) :: l₂).flatten.Perm (p :: (l₁ ++ b :: l₂).flatten) :=
    (flatten_perm l₁ (p :: b) l₂).trans ((flatten_perm l₁ b l₂).symm.cons p)
  -- now it is counted
  have ht₂ : Table hash { s₂ with m_size := s₂.m_size + 1 } (l₁ ++ (p :: b) :: l₂) := {
    chained := ⟨hs₂.chains, hs₂.pos, hs₂.numbered, hs₂.lt⟩
    mem := fun q d' hq => by
      have hq : s₂.entries q = some d' := hq
      rw [halike₂.entries, hentries₁] at hq
      by_cases heq : q = p
      · exact hperm.mem_iff.mpr (heq ▸ mem_cons_self)
      · rw [update_of_ne heq] at hq
        exact hperm.mem_iff.mpr (mem_cons_of_mem p (ht.mem q d' hq))
    size := by
      show s₂.m_size + 1 = _
      rw [halike₂.m_size, hperm.length_eq, length_cons, ← ht.size]
    hashes := fun q h e hq => by
      have hq : s₂.entries q = some (h, e) := hq
      rw [halike₂.entries, hentries₁] at hq
      by_cases heq : q = p
      · rw [heq, update_self, hd, some_inj, Prod.mk.injEq] at hq
        obtain ⟨rfl, rfl⟩ := hq
        exact (computeHash_take hash name prefixLen).symm
      · rw [update_of_ne heq] at hq
        exact ht.hashes q h e hq }
  obtain ⟨s₃, l₃, hok₃, ht₃, halike₃⟩ := ht₂.expandIfNeeded
  refine ⟨s₃, l₃, p, ?_, ht₃, ?_, ?_⟩
  · unfold Hashtable.insertNode
    dsimp only
    rw [hnew, ok_bind]
    dsimp only
    rw [← hlength, hok₂, ok_bind, hok₃, ok_bind]
  · cases htree : s.tree p with
    | none => rfl
    | some e =>
      obtain ⟨h, hentry⟩ := exists_entry htree
      exact absurd (ht.mem p _ hentry) hnotp
  · have htree₂ : ({ s₂ with m_size := s₂.m_size + 1 } : Hashtable).tree = s₁.tree :=
      halike₂.tree
    rw [halike₃.tree, htree₂, tree_update hentries₁]
    rfl

/-! ### Erasing -/

/-- A node without a parent is erased. -/
theorem Table.erase (ht : Table hash s l) (hp : s.tree p = some e) (hparent : e.m_parent = none) :
    ∃ s' l', s.erase p = .ok s' ∧ Table hash s' l' ∧ s'.tree = Function.update s.tree p none ∧
      s'.nextPointer = s.nextPointer := by
  obtain ⟨h, hentry⟩ := exists_entry hp
  obtain ⟨node, hnode, rfl, rfl⟩ := exists_node hentry
  obtain ⟨l₁, c, l₂, rfl, hpc, hnumber⟩ := ht.chained.numbered.split (ht.mem p _ hentry)
  obtain ⟨a, b, rfl⟩ := append_of_mem hpc
  have hbucket : s.computeBucketIndex node.hash = l₁.length := by
    unfold Hashtable.number at hnumber
    rw [hentry, Nat.zero_add] at hnumber
    unfold Hashtable.computeBucketIndex
    rw [ht.chained.getNBuckets]
    exact Option.some.inj hnumber
  obtain ⟨s₁, hok₁, hs₁, halike₁, hlinks₁⟩ := ht.chained.detach
  -- the node has no links any more, and is freed
  have hp₁ : s₁.links p = some ⟨none, none⟩ := by
    rw [hlinks₁]
    exact update_self _ _ _
  obtain ⟨node₁, hnode₁, hprev₁, hnext₁⟩ := exists_node_of_links hp₁
  set s₂ : Hashtable := { s₁ with nodes := Function.update s₁.nodes p none } with hs₂
  have hok₂ : s₁.deleteNode p = .ok s₂ := by
    unfold Hashtable.deleteNode
    rw [deref_eq hnode₁, ok_bind, if_neg]
    exact not_or.mpr ⟨not_not.mpr hprev₁, not_not.mpr hnext₁⟩
  have hentries₂ : s₂.entries = Function.update s.entries p none := by
    rw [← halike₁.entries]
    exact map_update _ _
  have hlinks₂ : s₂.links = Function.update s₁.links p none := map_update _ _
  have hperm : (l₁ ++ (a ++ p :: b) :: l₂).flatten.Perm (p :: (l₁ ++ (a ++ b) :: l₂).flatten) :=
    (flatten_perm _ _ _).trans ((perm_middle.append_right _).trans
      ((flatten_perm l₁ (a ++ b) l₂).symm.cons p))
  have hnotp : p ∉ (l₁ ++ (a ++ b) :: l₂).flatten :=
    (nodup_cons.mp (hperm.nodup_iff.mp ht.chained.chains.nodup)).1
  have hne : ∀ q ∈ (l₁ ++ (a ++ b) :: l₂).flatten, q ≠ p := fun q hq heq => hnotp (heq ▸ hq)
  have hchained₂ : Chained s₂ (l₁ ++ (a ++ b) :: l₂) := by
    refine hs₁.congr (fun q hq => ?_) (fun q hq => ?_) rfl (Nat.le_refl _)
    · rw [hlinks₂, update_of_ne (hne q hq)]
    · unfold Hashtable.number
      rw [hentries₂, update_of_ne (hne q hq), halike₁.entries]
  have ht₂ : Table hash { s₂ with m_size := s₂.m_size - 1 } (l₁ ++ (a ++ b) :: l₂) := {
    chained := ⟨hchained₂.chains, hchained₂.pos, hchained₂.numbered, hchained₂.lt⟩
    mem := fun q d hq => by
      have hq : s₂.entries q = some d := hq
      rw [hentries₂] at hq
      by_cases heq : q = p
      · rw [heq, update_self] at hq
        cases hq
      · rw [update_of_ne heq] at hq
        exact (mem_cons.mp (hperm.mem_iff.mp (ht.mem q d hq))).resolve_left heq
    size := by
      show s₁.m_size - 1 = _
      rw [halike₁.m_size, ht.size, hperm.length_eq, length_cons, Nat.add_sub_cancel]
    hashes := fun q h e hq => by
      have hq : s₂.entries q = some (h, e) := hq
      rw [hentries₂] at hq
      by_cases heq : q = p
      · rw [heq, update_self] at hq
        cases hq
      · rw [update_of_ne heq] at hq
        exact ht.hashes q h e hq }
  obtain ⟨s₃, l₃, hok₃, ht₃, halike₃⟩ := ht₂.shrinkIfNeeded
  refine ⟨s₃, l₃, ?_, ht₃, ?_, halike₃.nextPointer.trans halike₁.nextPointer⟩
  · unfold Hashtable.erase
    rw [deref_eq hnode, ok_bind, if_neg (not_not.mpr hparent), hbucket, hok₁,
      ok_bind, hok₂, ok_bind, hok₃]
  · have htree₂ : ({ s₂ with m_size := s₂.m_size - 1 } : Hashtable).tree = s₂.tree := rfl
    rw [halike₃.tree, htree₂, tree_update hentries₂]
    rfl

end Hashtable
end Ns3Joined.Nfd.name_tree
