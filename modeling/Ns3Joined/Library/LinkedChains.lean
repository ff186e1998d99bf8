import Mathlib.Data.List.Nodup

/-!
# Doubly linked chains

Cells that are found by an address and have the addresses of the cells before and after them. A
chain is the list of the addresses of its cells; `Segment` says that the links are those of the
list, between what comes before it and what comes after it.

* `segment_append`: a segment is made of two.
* `Segment.congr`: only the links of its own cells matter.
* `Chain.pushFront`, `Chain.unlink`: a cell is put in front of a chain, or is taken out of it.
* `Chains`: a table of chains that share no cell, with the lemmas for both operations.
* `Numbered`: each cell is in the chain at its number.
-/

namespace LinkedChains

open List Function Option

structure Links where
  prev : Option ℕ
  next : Option ℕ

variable {links links' : ℕ → Option Links} {prev next : Option ℕ} {p q : ℕ} {l a b : List ℕ}

/-- The cells of the list are linked, after `prev` and before `next`. -/
def Segment (links : ℕ → Option Links) : Option ℕ → List ℕ → Option ℕ → Prop
  | _, [], _ => True
  | prev, p :: l, next => links p = some ⟨prev, l.head?.or next⟩ ∧ Segment links (some p) l next

/-- A whole chain. -/
def Chain (links : ℕ → Option Links) (l : List ℕ) : Prop := Segment links none l none

/-- A segment reads the links of its own nodes only. -/
theorem Segment.congr (h : Segment links prev l next) (heq : ∀ p ∈ l, links' p = links p) :
    Segment links' prev l next := by
  induction l generalizing prev with
  | nil => trivial
  | cons p l ih =>
    obtain ⟨hp, hl⟩ := forall_mem_cons.mp heq
    exact ⟨hp.trans h.1, ih h.2 hl⟩

/-- A segment of two parts is two segments that meet. -/
theorem segment_append : Segment links prev (a ++ b) next ↔
    Segment links prev a (b.head?.or next) ∧ Segment links (a.getLast?.or prev) b next := by
  induction a generalizing prev with
  | nil => exact ⟨fun h => ⟨trivial, h⟩, And.right⟩
  | cons p a ih =>
    have hhead : (a ++ b).head?.or next = a.head?.or (b.head?.or next) := by
      rw [List.head?_append, Option.or_assoc]
    have hlast : ((p :: a).getLast?.or prev) = a.getLast?.or (some p) := by
      rw [List.getLast?_cons]
      cases a.getLast? <;> rfl
    rw [cons_append, Segment, Segment, ih, hhead, hlast, and_assoc]

/-- The links of a node in a segment point to its neighbours. -/
theorem Segment.links_eq (h : Segment links prev (a ++ p :: b) next) :
    links p = some ⟨a.getLast?.or prev, b.head?.or next⟩ := (segment_append.mp h).2.1

/-! ### Single links -/

/-- If there is a cell at the address, another one comes before it now. -/
def setPrev (links : ℕ → Option Links) (o prev : Option ℕ) : ℕ → Option Links :=
  match o with
  | none => links
  | some p => update links p ((links p).map fun c => { c with prev := prev })

/-- If there is a cell at the address, another one comes after it now. -/
def setNext (links : ℕ → Option Links) (o next : Option ℕ) : ℕ → Option Links :=
  match o with
  | none => links
  | some p => update links p ((links p).map fun c => { c with next := next })

variable {o : Option ℕ}

/-- Setting a backward link leaves the other nodes. -/
theorem setPrev_of_ne (hne : o ≠ some q) : setPrev links o prev q = links q := by
  cases o with
  | none => rfl
  | some p => exact update_of_ne (fun heq => hne (congrArg some heq.symm)) _ _

/-- Setting a forward link leaves the other nodes. -/
theorem setNext_of_ne (hne : o ≠ some q) : setNext links o next q = links q := by
  cases o with
  | none => rfl
  | some p => exact update_of_ne (fun heq => hne (congrArg some heq.symm)) _ _

/-- An end of a list is not a node outside it. -/
theorem ne_of_notMem (ho : ∀ p ∈ o, p ∈ l) (hq : q ∉ l) : o ≠ some q := by
  rintro rfl
  exact hq (ho q rfl)

/-- Setting the backward link of the first node moves the front of the segment. -/
theorem Segment.setPrev {prev' : Option ℕ} (h : Segment links prev b next) (hnodup : b.Nodup) :
    Segment (setPrev links b.head? prev') prev' b next := by
  cases b with
  | nil => trivial
  | cons q b =>
    have hnot : q ∉ b := (nodup_cons.mp hnodup).1
    refine ⟨?_, h.2.congr fun r hr => setPrev_of_ne fun heq => hnot (Option.some.inj heq ▸ hr)⟩
    exact (update_self q _ links).trans (by rw [h.1]; rfl)

/-- Setting the forward link of the last node moves the end of the segment. -/
theorem Segment.setNext {next' : Option ℕ} (h : Segment links prev a next) (hnodup : a.Nodup) :
    Segment (setNext links a.getLast? next') prev a next' := by
  obtain rfl | ⟨a, q, rfl⟩ := eq_nil_or_concat a
  · trivial
  · rw [concat_eq_append] at h hnodup ⊢
    obtain ⟨ha, hq, -⟩ := segment_append.mp h
    have hnot : q ∉ a := fun hmem =>
      disjoint_of_nodup_append hnodup hmem mem_cons_self
    rw [List.getLast?_concat]
    refine segment_append.mpr ⟨ha.congr fun r hr =>
      setNext_of_ne fun heq => hnot (Option.some.inj heq ▸ hr), ?_, trivial⟩
    exact (update_self q _ links).trans (by rw [hq]; rfl)

/-! ### In front of a chain -/

def pushFront (links : ℕ → Option Links) (head : Option ℕ) (p : ℕ) : ℕ → Option Links :=
  setPrev (update links p (some ⟨none, head⟩)) head (some p)

/-- Pushing in front changes the new node and the old first one only. -/
theorem pushFront_of_ne (hp : q ≠ p) (hl : q ∉ l) : pushFront links l.head? p q = links q :=
  (setPrev_of_ne (ne_of_notMem (fun _ => mem_of_head?) hl)).trans
    (update_of_ne hp _ _)

/-- Pushing a fresh node in front gives a chain. -/
theorem Chain.pushFront (h : Chain links l) (hp : p ∉ l) (hnodup : l.Nodup) :
    Chain (pushFront links l.head? p) (p :: l) := by
  have hafter : Segment (update links p (some ⟨none, l.head?⟩)) none l none :=
    h.congr fun q hq => update_of_ne (fun heq => hp (by rwa [← heq])) _ _
  refine ⟨?_, hafter.setPrev hnodup⟩
  rw [LinkedChains.pushFront, setPrev_of_ne (ne_of_notMem (fun _ => mem_of_head?) hp),
    update_self, or_none]

/-! ### Out of a chain -/

def unlink (links : ℕ → Option Links) (p : ℕ) (c : Links) : ℕ → Option Links :=
  update (setPrev (setNext links c.prev c.next) c.next c.prev) p (some ⟨none, none⟩)

/-- Unlinking a node changes its neighbours and itself only. -/
theorem unlink_of_ne {c : Links} (hp : q ≠ p) (hprev : c.prev ≠ some q) (hnext : c.next ≠ some q) :
    unlink links p c q = links q :=
  (update_of_ne hp _ _).trans ((setPrev_of_ne hnext).trans (setNext_of_ne hprev))

/-- Unlinking a node gives the chain without it. -/
theorem Chain.unlink (h : Chain links (a ++ p :: b)) (hnodup : (a ++ p :: b).Nodup) :
    Chain (unlink links p ⟨a.getLast?, b.head?⟩) (a ++ b) := by
  obtain ⟨ha, -, hb⟩ := segment_append.mp h
  obtain ⟨hnotp, hab⟩ := nodup_cons.mp (perm_middle.nodup_iff.mp hnodup)
  obtain ⟨hnoda, hnodb, -⟩ := nodup_append.mp hab
  have hdisjoint : ∀ q ∈ a, q ∉ b := fun q hq hq' => disjoint_of_nodup_append hab hq hq'
  have hbefore : Segment (LinkedChains.setNext links a.getLast? b.head?) none a b.head? :=
    ha.setNext hnoda
  have hafter : Segment (LinkedChains.setNext links a.getLast? b.head?) (some p) b none :=
    hb.congr fun q hq => setNext_of_ne (ne_of_notMem (fun _ => mem_of_getLast?)
      fun hmem => hdisjoint q hmem hq)
  have hframe : ∀ q ∈ a ++ b, LinkedChains.unlink links p ⟨a.getLast?, b.head?⟩ q =
      LinkedChains.setPrev (LinkedChains.setNext links a.getLast? b.head?) b.head? a.getLast? q :=
    fun q hq => update_of_ne (fun heq => hnotp (by rwa [← heq])) _ _
  refine Segment.congr (segment_append.mpr ⟨?_, ?_⟩) hframe
  swap
  · rw [or_none]
    exact hafter.setPrev hnodb
  rw [or_none]
  exact hbefore.congr fun q hq => setPrev_of_ne (ne_of_notMem (fun _ => mem_of_head?)
    fun hmem => hdisjoint q hq hmem)

/-! ### Tables of chains -/

/-- The chains begin at the heads, and no cell is in two of them. -/
structure Chains (links : ℕ → Option Links) (heads : List (Option ℕ)) (l : List (List ℕ)) :
    Prop where
  heads : heads = l.map List.head?
  chain : ∀ b ∈ l, Chain links b
  nodup : l.flatten.Nodup

variable {heads : List (Option ℕ)} {l₁ l₂ : List (List ℕ)} {b' : List ℕ}

/-- Chains read the links of their own nodes only. -/
theorem Chains.congr {l : List (List ℕ)} (h : Chains links heads l)
    (heq : ∀ p ∈ l.flatten, links' p = links p) : Chains links' heads l :=
  ⟨h.heads, fun b hb => (h.chain b hb).congr fun p hp => heq p (mem_flatten.mpr ⟨b, hb, hp⟩),
    h.nodup⟩

/-- The nodes of all chains, with those of one taken out. -/
theorem flatten_perm (l₁ : List (List ℕ)) (b : List ℕ) (l₂ : List (List ℕ)) :
    (l₁ ++ b :: l₂).flatten.Perm (b ++ (l₁ ++ l₂).flatten) := by
  rw [flatten_append, flatten_cons, flatten_append]
  exact perm_append_comm_assoc _ _ _

section

variable (h : Chains links heads (l₁ ++ b :: l₂))

include h

/-- The head of a chain is the one stored for its bucket. -/
theorem Chains.head_eq : heads[l₁.length]? = some b.head? := by
  rw [h.heads, List.getElem?_map, List.getElem?_append_right (Nat.le_refl _), Nat.sub_self]
  rfl

/-- One chain becomes another, and the others stay. -/
theorem Chains.replace (hchain : Chain links' b') (hnodup : b'.Nodup)
    (hnew : ∀ q ∈ b', q ∉ (l₁ ++ l₂).flatten)
    (hframe : ∀ q ∈ (l₁ ++ l₂).flatten, links' q = links q) :
    Chains links' (heads.set l₁.length b'.head?) (l₁ ++ b' :: l₂) where
  heads := by
    rw [h.heads, map_append, map_append, ← length_map List.head?,
      set_append_right _ _ (Nat.le_refl _), Nat.sub_self]
    rfl
  chain := fun c hc => by
    obtain rfl | hc := mem_cons.mp (perm_middle.mem_iff.mp hc)
    · exact hchain
    · exact (h.chain c (perm_middle.mem_iff.mpr (mem_cons_of_mem b hc))).congr
        fun q hq => hframe q (mem_flatten.mpr ⟨c, hc, hq⟩)
  nodup := by
    have hrest : (l₁ ++ l₂).flatten.Nodup :=
      ((flatten_perm l₁ b l₂).nodup_iff.mp h.nodup).of_append_right
    exact (flatten_perm l₁ b' l₂).nodup_iff.mpr
      (nodup_append.mpr ⟨hnodup, hrest, fun q hq r hr heq => hnew q hq (heq ▸ hr)⟩)

/-- A node of one chain is in no other. -/
theorem Chains.notMem_others (hp : p ∈ b) : p ∉ (l₁ ++ l₂).flatten := fun hmem =>
  disjoint_of_nodup_append ((flatten_perm l₁ b l₂).nodup_iff.mp h.nodup) hp hmem

/-- A chain has no node twice. -/
theorem Chains.nodup_chain : b.Nodup :=
  (nodup_append.mp ((flatten_perm l₁ b l₂).nodup_iff.mp h.nodup)).1

/-- Pushing a fresh node in front of one chain leaves the others. -/
theorem Chains.pushFront (hp : p ∉ (l₁ ++ b :: l₂).flatten) :
    Chains (pushFront links b.head? p) (heads.set l₁.length (some p)) (l₁ ++ (p :: b) :: l₂) := by
  rw [(flatten_perm l₁ b l₂).mem_iff, mem_append, not_or] at hp
  have hchain : Chain (LinkedChains.pushFront links b.head? p) (p :: b) :=
    Chain.pushFront (h.chain b (mem_append_right l₁ mem_cons_self)) hp.1 h.nodup_chain
  refine h.replace hchain (nodup_cons.mpr ⟨hp.1, h.nodup_chain⟩) ?_ ?_
  · exact forall_mem_cons.mpr ⟨hp.2, fun q hq => h.notMem_others hq⟩
  · exact fun q hq => pushFront_of_ne (fun heq => hp.2 (heq ▸ hq)) fun hmem =>
      h.notMem_others hmem hq

end

/-- Unlinking a node of one chain leaves the others. -/
theorem Chains.unlink (h : Chains links heads (l₁ ++ (a ++ p :: b) :: l₂)) :
    Chains (unlink links p ⟨a.getLast?, b.head?⟩) (heads.set l₁.length (a ++ b).head?)
      (l₁ ++ (a ++ b) :: l₂) := by
  have hmem {q : ℕ} (hq : q ∈ a ++ b) : q ∈ a ++ p :: b :=
    perm_middle.mem_iff.mpr (mem_cons_of_mem p hq)
  refine h.replace (Chain.unlink (h.chain _ (mem_append_right l₁ mem_cons_self))
    h.nodup_chain) ?_ (fun q hq => h.notMem_others (hmem hq)) fun q hq => ?_
  · exact (nodup_cons.mp (perm_middle.nodup_iff.mp h.nodup_chain)).2
  · refine unlink_of_ne (fun heq => ?_) (fun heq => ?_) (fun heq => ?_)
    · exact h.notMem_others (mem_append_right a mem_cons_self) (heq ▸ hq)
    · exact h.notMem_others (hmem (mem_append_left b (mem_of_getLast? heq))) hq
    · exact h.notMem_others (hmem (mem_append_right a (mem_of_head? heq))) hq

/-! ### Numbers of chains -/

/-- Each cell is in the chain that has its number. -/
def Numbered (number : ℕ → Option ℕ) : ℕ → List (List ℕ) → Prop
  | _, [] => True
  | k, b :: l => (∀ p ∈ b, number p = some k) ∧ Numbered number (k + 1) l

variable {number : ℕ → Option ℕ} {k m : ℕ} {c : List (List ℕ)}

/-- The numbers of the nodes decide only about their own buckets. -/
theorem Numbered.congr {number' : ℕ → Option ℕ} (h : Numbered number k c)
    (heq : ∀ p ∈ c.flatten, number' p = number p) : Numbered number' k c := by
  induction c generalizing k with
  | nil => trivial
  | cons b c ih =>
    refine ⟨fun p hp => ?_, ih h.2 fun p hp => heq p (mem_append_right b hp)⟩
    rw [heq p (mem_append_left c.flatten hp), h.1 p hp]

/-- Empty chains carry any numbers. -/
theorem numbered_replicate : Numbered number k (List.replicate m []) := by
  induction m generalizing k with
  | zero => trivial
  | succ m ih => exact ⟨nofun, ih⟩

/-- The numbers of a list of chains, with one taken out. -/
theorem numbered_append : Numbered number k (l₁ ++ b :: l₂) ↔ Numbered number k l₁ ∧
    (∀ p ∈ b, number p = some (k + l₁.length)) ∧ Numbered number (k + l₁.length + 1) l₂ := by
  induction l₁ generalizing k with
  | nil => exact ⟨fun h => ⟨trivial, h⟩, And.right⟩
  | cons a l₁ ih =>
    rw [cons_append, Numbered, Numbered, ih, and_assoc, length_cons, Nat.add_right_comm,
      ← Nat.add_assoc, Nat.add_right_comm k]

/-- Every node lies in the chain its number says. -/
theorem Numbered.split (h : Numbered number k c) (hp : p ∈ c.flatten) :
    ∃ l₁ b l₂, c = l₁ ++ b :: l₂ ∧ p ∈ b ∧ number p = some (k + l₁.length) := by
  obtain ⟨b, hb, hpb⟩ := mem_flatten.mp hp
  obtain ⟨l₁, l₂, rfl⟩ := append_of_mem hb
  exact ⟨l₁, b, l₂, rfl, hpb, (numbered_append.mp h).2.1 p hpb⟩

/-- A node whose number is that of a chain lies in it. -/
theorem Numbered.mem (h : Numbered number 0 (l₁ ++ b :: l₂)) (hp : p ∈ (l₁ ++ b :: l₂).flatten)
    (hnumber : number p = some l₁.length) : p ∈ b := by
  obtain ⟨l₁', b', l₂', heq, hpb, hnumber'⟩ := h.split hp
  rw [Nat.zero_add] at hnumber'
  have hlength : l₁.length = l₁'.length := Option.some.inj (hnumber.symm.trans hnumber')
  obtain ⟨-, htail⟩ := append_inj heq hlength
  exact (List.cons.inj htail).1 ▸ hpb

end LinkedChains
