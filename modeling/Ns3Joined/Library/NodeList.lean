import Mathlib.Data.List.Nodup
import Mathlib.Data.List.TakeWhile

/-!
# Linked lists whose positions last

The nodes of a linked list have an identity: a position, which is a node or the end, keeps its
meaning when other nodes are inserted or erased, and loses it when its own node is erased. A list
is therefore kept with the name of each node, and a position is the name of a node or `none` for
the end.

* `before_append_after`, `split_eq`: a position splits the list, in one way.
* `isPosition_erase_iff`, `before_erase`, `after_erase`: another position outlasts an erasure.
* `split_succ`: the position after a node is where that node was, once it is erased.
* `insertBefore_nodes`: what an insertion does to the list.
-/

/-- A linked list: its nodes in order, each with its name, and the name of the next node. -/
structure NodeList (α : Type*) where
  nodes : List (ℕ × α)
  next : ℕ
  nodup : (nodes.map Prod.fst).Nodup
  lt_next : ∀ node ∈ nodes, node.1 < next

namespace NodeList

open List Option

variable {α : Type*} {l : NodeList α} {pos : Option ℕ} {i : ℕ} {xs ys : List (ℕ × α)}

/-- The position of the first node. -/
def first (l : NodeList α) : Option ℕ := l.nodes.head?.map Prod.fst

/-- A node of the list, or its end. -/
def IsPosition (l : NodeList α) (pos : Option ℕ) : Prop := ∀ i ∈ pos, i ∈ l.nodes.map Prod.fst

instance (l : NodeList α) (pos : Option ℕ) : Decidable (l.IsPosition pos) :=
  match pos with
  | none => .isTrue fun _ h => absurd h (not_mem_none _)
  | some i => decidable_of_iff (i ∈ l.nodes.map Prod.fst)
      ⟨fun h _ hj => mem_some_iff.mp hj ▸ h, fun h => h i rfl⟩

/-- The nodes before a position. -/
def before (l : NodeList α) (pos : Option ℕ) : List (ℕ × α) :=
  l.nodes.takeWhile fun node => some node.1 != pos

/-- The node at a position and those after it. -/
def after (l : NodeList α) (pos : Option ℕ) : List (ℕ × α) :=
  l.nodes.dropWhile fun node => some node.1 != pos

/-- What is at a position. -/
def get? (l : NodeList α) (pos : Option ℕ) : Option α := (l.after pos).head?.map Prod.snd

/-- The position after a node. -/
def succ (l : NodeList α) (i : ℕ) : Option ℕ := (l.after (some i)).tail.head?.map Prod.fst

/-- Without a node. -/
def erase (l : NodeList α) (i : ℕ) : NodeList α where
  nodes := l.nodes.filter fun node => node.1 != i
  next := l.next
  nodup := l.nodup.sublist (filter_sublist.map _)
  lt_next := fun node hnode => l.lt_next node (mem_of_mem_filter hnode)

/-! ### Splitting the list -/

/-- The nodes before a position and those from it on make up the list. -/
theorem before_append_after (l : NodeList α) (pos : Option ℕ) :
    l.before pos ++ l.after pos = l.nodes := takeWhile_append_dropWhile

/-- The nodes before a position are not at it. -/
theorem ne_of_split (hsplit : l.nodes = xs ++ ys) (hys : ys.head?.map Prod.fst = pos)
    {node : ℕ × α} (hnode : node ∈ xs) : some node.1 ≠ pos := by
  rintro rfl
  cases ys with
  | nil => cases hys
  | cons y ys =>
    have hnodup := l.nodup
    rw [hsplit, map_append] at hnodup
    refine (nodup_append.mp hnodup).2.2 node.1 (mem_map_of_mem hnode) y.1
      mem_cons_self ?_
    exact (Option.some.inj hys).symm

/-- A list splits at a position in one way. -/
theorem split_eq (hsplit : l.nodes = xs ++ ys) (hys : ys.head?.map Prod.fst = pos) :
    l.before pos = xs ∧ l.after pos = ys := by
  have hxs : ∀ node ∈ xs, (some node.1 != pos) = true := fun node hnode =>
    bne_iff_ne.mpr (ne_of_split hsplit hys hnode)
  unfold before after
  rw [hsplit, takeWhile_append_of_pos hxs, dropWhile_append_of_pos hxs]
  cases ys with
  | nil => exact ⟨append_nil xs, rfl⟩
  | cons y ys =>
    have hy : ¬ (some y.1 != pos) = true := by
      rw [bne_iff_ne, not_not]
      exact hys
    exact ⟨by rw [takeWhile_cons, if_neg hy, append_nil],
      by rw [dropWhile_cons, if_neg hy]⟩

/-- The position behind the last node. -/
theorem split_none (l : NodeList α) : l.before none = l.nodes ∧ l.after none = [] :=
  split_eq (append_nil l.nodes).symm rfl

/-- From a position on, the first node is the one at it. -/
theorem after_head (h : l.IsPosition pos) : (l.after pos).head?.map Prod.fst = pos := by
  cases pos with
  | none => rw [l.split_none.2]; rfl
  | some i =>
    obtain ⟨node, hnode, rfl⟩ := mem_map.mp (h i rfl)
    obtain ⟨xs, ys, hsplit⟩ := append_of_mem hnode
    rw [(split_eq hsplit (show (node :: ys).head?.map Prod.fst = some node.1 from rfl)).2]
    rfl

/-- The list splits at a node it has. -/
theorem exists_split (h : i ∈ l.nodes.map Prod.fst) :
    ∃ a ys, l.nodes = l.before (some i) ++ (i, a) :: ys ∧ l.after (some i) = (i, a) :: ys := by
  obtain ⟨⟨j, a⟩, hnode, hj⟩ := mem_map.mp h
  obtain rfl : j = i := hj
  obtain ⟨xs, ys, hsplit⟩ := append_of_mem hnode
  obtain ⟨hbefore, hafter⟩ :=
    split_eq hsplit (show ((j, a) :: ys).head?.map Prod.fst = some j from rfl)
  exact ⟨a, ys, hbefore ▸ hsplit, hafter⟩

/-- The value at a node of the list. -/
theorem get?_of_mem {a : α} (h : (i, a) ∈ l.nodes) : l.get? (some i) = some a := by
  obtain ⟨xs, ys, hsplit⟩ := append_of_mem h
  unfold get?
  rw [(split_eq hsplit (show ((i, a) :: ys).head?.map Prod.fst = some i from rfl)).2]
  rfl

/-- The first position is one of the list. -/
theorem isPosition_first (l : NodeList α) : l.IsPosition l.first := by
  intro i hi
  obtain ⟨node, hnode, rfl⟩ := map_eq_some_iff.mp hi
  exact mem_map_of_mem (mem_of_mem_head? hnode)

/-! ### Erasing a node -/

/-- A position survives erasing unless it is the erased one. -/
theorem isPosition_erase_iff (h : l.IsPosition pos) :
    (l.erase i).IsPosition pos ↔ pos ≠ some i := by
  constructor
  · rintro herase rfl
    obtain ⟨node, hnode, hi⟩ := mem_map.mp (herase i rfl)
    exact bne_iff_ne.mp (mem_filter.mp hnode).2 hi
  · rintro hne j rfl
    obtain ⟨node, hnode, rfl⟩ := mem_map.mp (h j rfl)
    refine mem_map_of_mem (mem_filter.mpr ⟨hnode, bne_iff_ne.mpr ?_⟩)
    rintro rfl
    exact hne rfl

/-- The list on both sides of a position after erasing. -/
theorem split_erase (h : l.IsPosition pos) (hne : pos ≠ some i) :
    (l.erase i).before pos = (l.before pos).filter (fun node => node.1 != i) ∧
      (l.erase i).after pos = (l.after pos).filter fun node => node.1 != i := by
  refine split_eq ?_ ?_
  · rw [← filter_append, before_append_after]
    rfl
  · have hhead := after_head h
    cases hafter : l.after pos with
    | nil =>
      rw [hafter] at hhead
      exact hhead
    | cons node ys =>
      rw [hafter] at hhead
      obtain rfl : some node.1 = pos := hhead
      have hnode : (node.1 != i) = true := bne_iff_ne.mpr fun heq => hne (congrArg some heq)
      rw [filter_cons, if_pos hnode]
      rfl

/-- Erasing a node joins the nodes on both sides. -/
theorem erase_nodes_of_split {a : α} (hsplit : l.nodes = xs ++ (i, a) :: ys) :
    (l.erase i).nodes = xs ++ ys := by
  have hnodup := l.nodup
  rw [hsplit, map_append] at hnodup
  obtain ⟨-, hys, hxs⟩ := nodup_append.mp hnodup
  have hxs' : ∀ node ∈ xs, (node.1 != i) = true := fun node hnode => bne_iff_ne.mpr
    (hxs node.1 (mem_map_of_mem hnode) i mem_cons_self)
  have hys' : ∀ node ∈ ys, (node.1 != i) = true := by
    intro node hnode
    refine bne_iff_ne.mpr fun heq => (nodup_cons.mp hys).1 ?_
    exact mem_map.mpr ⟨node, hnode, heq⟩
  change l.nodes.filter (fun node => node.1 != i) = xs ++ ys
  rw [hsplit, filter_append, filter_cons_of_neg (by simp), filter_eq_self.mpr hxs',
    filter_eq_self.mpr hys']

/-- Once a node is erased, the position after it is where it was. -/
theorem split_succ (h : i ∈ l.nodes.map Prod.fst) :
    (l.erase i).IsPosition (l.succ i) ∧ (l.erase i).before (l.succ i) = l.before (some i) ∧
      (l.erase i).after (l.succ i) = (l.after (some i)).tail := by
  obtain ⟨a, ys, hsplit, hafter⟩ := exists_split h
  have hnodes := erase_nodes_of_split hsplit
  have hsucc : l.succ i = ys.head?.map Prod.fst := by
    unfold succ
    rw [hafter]
    rfl
  rw [hafter]
  refine ⟨?_, split_eq hnodes hsucc.symm⟩
  intro j hj
  rw [hsucc] at hj
  obtain ⟨node, hnode, rfl⟩ := map_eq_some_iff.mp hj
  rw [hnodes]
  exact mem_map_of_mem (mem_append_right _ (mem_of_mem_head? hnode))

/-- Erasing shortens the list by one. -/
theorem length_erase (h : i ∈ l.nodes.map Prod.fst) :
    (l.erase i).nodes.length + 1 = l.nodes.length := by
  obtain ⟨a, ys, hsplit, -⟩ := exists_split h
  rw [erase_nodes_of_split hsplit, hsplit, length_append, length_append,
    length_cons]
  rfl

/-! ### Inserting a node -/

/-- With a node for `a` before a position, which is to be one. -/
def insertBefore (l : NodeList α) (pos : Option ℕ) (a : α) : NodeList α where
  nodes := l.before pos ++ (l.next, a) :: l.after pos
  next := l.next + 1
  nodup := by
    have hnext : l.next ∉ l.nodes.map Prod.fst := by
      intro hmem
      obtain ⟨node, hnode, hnext⟩ := mem_map.mp hmem
      exact absurd (l.lt_next node hnode) (hnext ▸ Nat.lt_irrefl _)
    have hnodup := l.nodup
    rw [← l.before_append_after pos, map_append] at hnext hnodup
    rw [map_append, map_cons]
    exact nodup_middle.mpr (nodup_cons.mpr ⟨hnext, hnodup⟩)
  lt_next := by
    intro node hnode
    rw [mem_append, mem_cons, or_left_comm, ← mem_append,
      before_append_after] at hnode
    obtain rfl | hnode := hnode
    · exact Nat.lt_succ_self _
    · exact Nat.lt_succ_of_lt (l.lt_next node hnode)

/-- Inserting lengthens the list by one. -/
theorem length_insertBefore (l : NodeList α) (pos : Option ℕ) (a : α) :
    (l.insertBefore pos a).nodes.length = l.nodes.length + 1 := by
  rw [← l.before_append_after pos]
  change (_ ++ _ :: _).length = _
  rw [length_append, length_append, length_cons, Nat.add_assoc]

end NodeList
