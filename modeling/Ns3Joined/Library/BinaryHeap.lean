import Mathlib.Order.Lattice
import Mathlib.Tactic.Common

/-!
# Binary heaps in arrays

Heaps with the root at index 1, so that the parent of `i` is `i / 2` and its children are
`2 * i` and `2 * i + 1`. Elements are compared by a key. Index 0 is wasted, and nothing
touches it.

* `siftUp` and `siftDown` exchange an element with its parent, or with its smaller child,
  until it stands where it belongs. Both permute the array (`siftUp_perm`,
  `siftDown_perm`).
* From a heap that is in order but for the element at one index, `siftUp` gives a heap in
  order if that element is only too small (`siftUp_ordered`), and `siftDown` if it is only
  too large (`siftDown_ordered`).
* `siftDown` does nothing for an element that is too small: it stays smaller than its
  parent (`siftDown_not_ordered`).
* The root of a heap in order is a smallest element (`Ordered.root_le`).
* `takeOut` removes the element at an index and puts the last one in its place. Sifting that
  one down puts the heap in order exactly when it is not smaller than its new parent
  (`siftDown_takeOut_ordered_iff`).
* `content` has the elements without the wasted one.
-/

namespace BinaryHeap

open List

/-! ### Exchanges -/

section Exchange

variable {α : Type*} {heap : Array α} {a b i : ℕ}

def exch (heap : Array α) (a b : ℕ) : Array α := heap.swapIfInBounds a b

@[simp] theorem size_exch : (exch heap a b).size = heap.size := Array.size_swapIfInBounds

/-- An exchange permutes the array. -/
theorem exch_perm : (exch heap a b).Perm heap := by
  unfold exch
  rw [Array.swapIfInBounds_def]
  split_ifs
  · exact Array.swap_perm _ _
  · exact Array.Perm.refl _
  · exact Array.Perm.refl _

variable [Inhabited α]

/-- The first position after an exchange. -/
theorem getElem!_exch_left (ha : a < heap.size) (hb : b < heap.size) :
    (exch heap a b)[a]! = heap[b]! := by
  unfold exch
  rw [getElem!_pos (heap.swapIfInBounds a b) a (by rwa [Array.size_swapIfInBounds]),
    getElem!_pos heap b hb, Array.getElem_swapIfInBounds_left hb]

/-- The second position after an exchange. -/
theorem getElem!_exch_right (ha : a < heap.size) (hb : b < heap.size) :
    (exch heap a b)[b]! = heap[a]! := by
  unfold exch
  rw [getElem!_pos (heap.swapIfInBounds a b) b (by rwa [Array.size_swapIfInBounds]),
    getElem!_pos heap a ha, Array.getElem_swapIfInBounds_right ha]

/-- Other positions are not touched by an exchange. -/
theorem getElem!_exch_of_ne (ha : i ≠ a) (hb : i ≠ b) : (exch heap a b)[i]! = heap[i]! := by
  unfold exch
  by_cases hi : i < heap.size
  · rw [getElem!_pos (heap.swapIfInBounds a b) i (by rwa [Array.size_swapIfInBounds]),
      getElem!_pos heap i hi, Array.getElem_swapIfInBounds_of_ne_of_ne ha hb]
  · rw [getElem!_neg (heap.swapIfInBounds a b) i (by rwa [Array.size_swapIfInBounds]),
      getElem!_neg heap i hi]

/-- The key at an index. -/
def keyAt {κ : Type*} (key : α → κ) (heap : Array α) (i : ℕ) : κ := key heap[i]!

variable {κ : Type*} {key : α → κ}

theorem keyAt_exch_left (ha : a < heap.size) (hb : b < heap.size) :
    keyAt key (exch heap a b) a = keyAt key heap b := congrArg key (getElem!_exch_left ha hb)

theorem keyAt_exch_right (ha : a < heap.size) (hb : b < heap.size) :
    keyAt key (exch heap a b) b = keyAt key heap a := congrArg key (getElem!_exch_right ha hb)

theorem keyAt_exch_of_ne (ha : i ≠ a) (hb : i ≠ b) :
    keyAt key (exch heap a b) i = keyAt key heap i := congrArg key (getElem!_exch_of_ne ha hb)

end Exchange

/-! ### The two sifts -/

variable {α κ : Type*} [Inhabited α] [LinearOrder κ] (key : α → κ)

def less (heap : Array α) (a b : ℕ) : Bool := keyAt key heap a < keyAt key heap b

def smallest (heap : Array α) (a b : ℕ) : ℕ := if less key heap a b then a else b

/-- The first argument bounds the number of exchanges. -/
def siftUp : ℕ → Array α → ℕ → Array α
  | 0, heap, _ => heap
  | fuel + 1, heap, index =>
    if index ≠ 1 ∧ less key heap index (index / 2) then
      siftUp fuel (exch heap index (index / 2)) (index / 2)
    else heap

/-- The first argument bounds the number of exchanges. -/
def siftDown : ℕ → Array α → ℕ → Array α
  | 0, heap, _ => heap
  | fuel + 1, heap, index =>
    if 2 * index + 1 < heap.size then
      let child := smallest key heap (2 * index) (2 * index + 1)
      if less key heap index child then heap else siftDown fuel (exch heap index child) child
    else if 2 * index < heap.size then
      if less key heap index (2 * index) then heap else exch heap index (2 * index)
    else heap

variable {key} {heap : Array α} {a b i index hole fuel : ℕ}

/-- The comparison of two positions is that of their keys. -/
theorem less_iff : less key heap a b = true ↔ keyAt key heap a < keyAt key heap b :=
  decide_eq_true_iff

/-- Sifting up permutes the array. -/
theorem siftUp_perm : (siftUp key fuel heap index).Perm heap := by
  induction fuel generalizing heap index with
  | zero => exact Array.Perm.refl _
  | succ fuel ih =>
    rw [siftUp]
    split_ifs
    · exact ih.trans exch_perm
    · exact Array.Perm.refl _

/-- Sifting down permutes the array. -/
theorem siftDown_perm : (siftDown key fuel heap index).Perm heap := by
  induction fuel generalizing heap index with
  | zero => exact Array.Perm.refl _
  | succ fuel ih =>
    unfold siftDown
    dsimp only
    split_ifs
    · exact Array.Perm.refl _
    · exact ih.trans exch_perm
    · exact Array.Perm.refl _
    · exact exch_perm
    · exact Array.Perm.refl _

/-- Sifting up keeps the size. -/
theorem size_siftUp : (siftUp key fuel heap index).size = heap.size := siftUp_perm.size_eq

/-- Sifting down keeps the size. -/
theorem size_siftDown : (siftDown key fuel heap index).size = heap.size := siftDown_perm.size_eq

/-! ### Order -/

variable (key)

/-- No element is smaller than its parent. -/
def Ordered (heap : Array α) : Prop :=
  ∀ i, 2 ≤ i → i < heap.size → keyAt key heap (i / 2) ≤ keyAt key heap i

/-- In order but for the element at `hole`, which may be too small. -/
structure OrderedAbove (heap : Array α) (hole : ℕ) : Prop where
  off : ∀ i, 2 ≤ i → i < heap.size → i ≠ hole → keyAt key heap (i / 2) ≤ keyAt key heap i
  grand : 2 ≤ hole → ∀ i, i < heap.size → i / 2 = hole →
    keyAt key heap (hole / 2) ≤ keyAt key heap i

/-- In order but for the element at `hole`, which may be too large. -/
structure OrderedBelow (heap : Array α) (hole : ℕ) : Prop where
  off : ∀ i, 2 ≤ i → i < heap.size → i / 2 ≠ hole → keyAt key heap (i / 2) ≤ keyAt key heap i
  grand : 2 ≤ hole → ∀ i, i < heap.size → i / 2 = hole →
    keyAt key heap (hole / 2) ≤ keyAt key heap i

variable {key}

/-- In an ordered heap the root has a least key. -/
theorem Ordered.root_le (h : Ordered key heap) (hi : 1 ≤ i) (hlt : i < heap.size) :
    keyAt key heap 1 ≤ keyAt key heap i := by
  induction i using Nat.strongRecOn with
  | ind i ih =>
    by_cases hone : i = 1
    · rw [hone]
    · calc
        keyAt key heap 1 ≤ keyAt key heap (i / 2) := ih (i / 2) (by omega) (by omega) (by omega)
        _ ≤ keyAt key heap i := h i (by omega) hlt

/-! ### Sifting up -/

/-- One exchange moves the hole to the parent. -/
theorem OrderedAbove.exch (h : OrderedAbove key heap hole) (htwo : 2 ≤ hole)
    (hlt : hole < heap.size) (hless : keyAt key heap hole < keyAt key heap (hole / 2)) :
    OrderedAbove key (exch heap hole (hole / 2)) (hole / 2) := by
  have hparent : hole / 2 < heap.size := by omega
  have hhole : keyAt key (BinaryHeap.exch heap hole (hole / 2)) hole = keyAt key heap (hole / 2) :=
    keyAt_exch_left hlt hparent
  have hup : keyAt key (BinaryHeap.exch heap hole (hole / 2)) (hole / 2) = keyAt key heap hole :=
    keyAt_exch_right hlt hparent
  constructor
  · intro i hi hsize hne
    rw [size_exch] at hsize
    by_cases hih : i = hole
    · rw [hih, hhole, hup]
      exact le_of_lt hless
    · rw [keyAt_exch_of_ne hih hne]
      by_cases hpar : i / 2 = hole
      · rw [hpar, hhole]
        exact h.grand htwo i hsize hpar
      · by_cases hpar' : i / 2 = hole / 2
        · -- a sibling of the hole
          rw [hpar', hup]
          apply le_trans (le_of_lt hless)
          rw [← hpar']
          exact h.off i hi hsize hih
        · rw [keyAt_exch_of_ne hpar hpar']
          exact h.off i hi hsize hih
  · intro htwo' i hsize hpar
    rw [size_exch] at hsize
    have hgrand : keyAt key (BinaryHeap.exch heap hole (hole / 2)) (hole / 2 / 2) =
        keyAt key heap (hole / 2 / 2) := keyAt_exch_of_ne (by omega) (by omega)
    have hle : keyAt key heap (hole / 2 / 2) ≤ keyAt key heap (hole / 2) :=
      h.off (hole / 2) htwo' hparent (by omega)
    rw [hgrand]
    by_cases hih : i = hole
    · rw [hih, hhole]
      exact hle
    · rw [keyAt_exch_of_ne hih (by omega)]
      apply le_trans hle
      rw [← hpar]
      exact h.off i (by omega) hsize hih

/-- Sifting up restores the order where only the position and its parent may be wrong. -/
theorem siftUp_ordered (h : OrderedAbove key heap index) (hlt : index < heap.size)
    (hone : 1 ≤ index) (hfuel : index ≤ fuel) : Ordered key (siftUp key fuel heap index) := by
  induction fuel generalizing heap index with
  | zero => omega
  | succ fuel ih =>
    rw [siftUp]
    split_ifs with hstep
    · obtain ⟨hne, hless⟩ := hstep
      apply ih
      · exact h.exch (by omega) hlt (less_iff.mp hless)
      · rw [size_exch]
        omega
      · omega
      · omega
    · -- the element is at the root, or not smaller than its parent
      intro i hi hsize
      by_cases hih : i = index
      · rw [hih]
        apply le_of_not_gt
        intro hless
        exact hstep ⟨by omega, less_iff.mpr hless⟩
      · exact h.off i hi hsize hih

/-- A new last element may only be too small. -/
theorem orderedAbove_push (h : Ordered key heap) (hsize : heap.size ≠ 0) (x : α) :
    OrderedAbove key (heap.push x) heap.size := by
  have hkey : ∀ i, i < heap.size → keyAt key (heap.push x) i = keyAt key heap i := by
    intro i hi
    have hpush : (heap.push x)[i]! = heap[i]! := by
      rw [getElem!_pos (heap.push x) i (by rw [Array.size_push]; omega), getElem!_pos heap i hi,
        Array.getElem_push_lt hi]
    exact congrArg key hpush
  constructor
  · intro i hi hlt hne
    rw [Array.size_push] at hlt
    rw [hkey i (by omega), hkey (i / 2) (by omega)]
    exact h i hi (by omega)
  · intro _ i hlt hpar
    rw [Array.size_push] at hlt
    exact absurd hsize (by omega)

/-! ### Sifting down -/

/-- The smaller of two is at most the first. -/
theorem smallest_le_left : keyAt key heap (smallest key heap a b) ≤ keyAt key heap a := by
  unfold smallest
  split_ifs with hless
  · exact le_refl _
  · exact le_of_not_gt fun h => hless (less_iff.mpr h)

/-- The smaller of two is at most the second. -/
theorem smallest_le_right : keyAt key heap (smallest key heap a b) ≤ keyAt key heap b := by
  unfold smallest
  split_ifs with hless
  · exact le_of_lt (less_iff.mp hless)
  · exact le_refl _

/-- The smaller of two is one of them. -/
theorem smallest_eq (key : α → κ) (heap : Array α) (a b : ℕ) :
    smallest key heap a b = a ∨ smallest key heap a b = b := by
  unfold smallest
  split_ifs
  · exact .inl rfl
  · exact .inr rfl

/-- One exchange with a smallest child moves the hole to that child. -/
theorem OrderedBelow.exch {child : ℕ} (h : OrderedBelow key heap hole)
    (hchild : child / 2 = hole) (hlt : child < heap.size)
    (hmin : ∀ i, i < heap.size → i / 2 = hole → keyAt key heap child ≤ keyAt key heap i)
    (hle : keyAt key heap child ≤ keyAt key heap hole) :
    OrderedBelow key (exch heap hole child) child := by
  have hhole : hole < heap.size := by omega
  have hup : keyAt key (BinaryHeap.exch heap hole child) hole = keyAt key heap child :=
    keyAt_exch_left hhole hlt
  have hdown : keyAt key (BinaryHeap.exch heap hole child) child = keyAt key heap hole :=
    keyAt_exch_right hhole hlt
  constructor
  · intro i hi hsize hne
    rw [size_exch] at hsize
    by_cases hpar : i / 2 = hole
    · rw [hpar, hup]
      by_cases hic : i = child
      · rw [hic, hdown]
        exact hle
      · rw [keyAt_exch_of_ne (by omega) hic]
        exact hmin i hsize hpar
    · have hic : i ≠ child := fun hic => hpar (by rw [hic, hchild])
      rw [keyAt_exch_of_ne hpar hne]
      by_cases hih : i = hole
      · rw [hih, hup]
        exact h.grand (by omega) child hlt hchild
      · rw [keyAt_exch_of_ne hih hic]
        exact h.off i hi hsize hpar
  · intro htwo i hsize hpar
    rw [size_exch] at hsize
    rw [hchild, hup, keyAt_exch_of_ne (by omega) (by omega), ← hpar]
    exact h.off i (by omega) hsize (by omega)

/-- Without children in the heap, or with none smaller, nothing is too large. -/
theorem OrderedBelow.ordered (h : OrderedBelow key heap hole)
    (hchildren : ∀ i, 2 ≤ i → i < heap.size → i / 2 = hole →
      keyAt key heap hole ≤ keyAt key heap i) : Ordered key heap := by
  intro i hi hsize
  by_cases hpar : i / 2 = hole
  · rw [hpar]
    exact hchildren i hi hsize hpar
  · exact h.off i hi hsize hpar

/-- Sifting down restores the order where only the position and its children may be wrong. -/
theorem siftDown_ordered (h : OrderedBelow key heap index) (hone : 1 ≤ index)
    (hfuel : heap.size ≤ index + fuel) : Ordered key (siftDown key fuel heap index) := by
  induction fuel generalizing heap index with
  | zero =>
    apply h.ordered
    intro i hi hsize hpar
    omega
  | succ fuel ih =>
    unfold siftDown
    dsimp only
    by_cases hright : 2 * index + 1 < heap.size
    · rw [if_pos hright]
      have hmin : ∀ i, i < heap.size → i / 2 = index →
          keyAt key heap (smallest key heap (2 * index) (2 * index + 1)) ≤ keyAt key heap i := by
        intro i hsize hpar
        have hi : i = 2 * index ∨ i = 2 * index + 1 := by omega
        rcases hi with rfl | rfl
        · exact smallest_le_left
        · exact smallest_le_right
      have hchild : smallest key heap (2 * index) (2 * index + 1) / 2 = index ∧
          smallest key heap (2 * index) (2 * index + 1) < heap.size := by
        rcases smallest_eq key heap (2 * index) (2 * index + 1) with
          heq | heq <;> rw [heq] <;> omega
      by_cases hless : less key heap index (smallest key heap (2 * index) (2 * index + 1)) = true
      · rw [if_pos hless]
        apply h.ordered
        intro i hi hsize hpar
        exact le_trans (le_of_lt (less_iff.mp hless)) (hmin i hsize hpar)
      · rw [if_neg hless]
        have hle := le_of_not_gt fun hlt => hless (less_iff.mpr hlt)
        apply ih (h.exch hchild.1 hchild.2 hmin hle)
        · omega
        · rw [size_exch]
          omega
    · rw [if_neg hright]
      by_cases hleft : 2 * index < heap.size
      · -- the left child is the last element
        rw [if_pos hleft]
        have honly : ∀ i, 2 ≤ i → i < heap.size → i / 2 = index → i = 2 * index := by omega
        by_cases hless : less key heap index (2 * index) = true
        · rw [if_pos hless]
          apply h.ordered
          intro i hi hsize hpar
          rw [honly i hi hsize hpar]
          exact le_of_lt (less_iff.mp hless)
        · rw [if_neg hless]
          have hle := le_of_not_gt fun hlt => hless (less_iff.mpr hlt)
          have hbelow := h.exch (by omega) hleft
            (fun i hsize hpar => by rw [honly i (by omega) hsize hpar]) hle
          apply hbelow.ordered
          intro i hi hsize hpar
          rw [size_exch] at hsize
          omega
      · rw [if_neg hleft]
        apply h.ordered
        intro i hi hsize hpar
        omega

/-- Sifting down leaves the positions in front. -/
theorem getElem!_siftDown (hi : i < index) : (siftDown key fuel heap index)[i]! = heap[i]! := by
  induction fuel generalizing heap index with
  | zero => rfl
  | succ fuel ih =>
    have hchild : 2 * index ≤ smallest key heap (2 * index) (2 * index + 1) := by
      rcases smallest_eq key heap (2 * index) (2 * index + 1) with
        heq | heq <;> omega
    unfold siftDown
    dsimp only
    split_ifs
    · rfl
    · rw [ih (by omega), getElem!_exch_of_ne (by omega) (by omega)]
    · rfl
    · rw [getElem!_exch_of_ne (by omega) (by omega)]
    · rfl

/-- Sifting down does not raise the key at the position. -/
theorem keyAt_siftDown_le (hone : 1 ≤ index) :
    keyAt key (siftDown key fuel heap index) index ≤ keyAt key heap index := by
  cases fuel with
  | zero => exact le_refl _
  | succ fuel =>
    unfold siftDown
    dsimp only
    split_ifs with hright hless hleft hless
    · exact le_refl _
    · have hchild : index < smallest key heap (2 * index) (2 * index + 1) ∧
          smallest key heap (2 * index) (2 * index + 1) < heap.size := by
        rcases smallest_eq key heap (2 * index) (2 * index + 1) with
          heq | heq <;> omega
      rw [keyAt, getElem!_siftDown hchild.1]
      have hexch : keyAt key (exch heap index _) index = _ := keyAt_exch_left (by omega) hchild.2
      rw [keyAt] at hexch
      rw [hexch]
      exact le_of_not_gt fun hlt => hless (less_iff.mpr hlt)
    · exact le_refl _
    · rw [keyAt_exch_left (by omega) hleft]
      exact le_of_not_gt fun hlt => hless (less_iff.mpr hlt)
    · exact le_refl _

/-- An element smaller than its parent stays so, or something smaller takes its place. -/
theorem siftDown_not_ordered (htwo : 2 ≤ index) (hlt : index < heap.size)
    (hless : keyAt key heap index < keyAt key heap (index / 2)) :
    ¬ Ordered key (siftDown key fuel heap index) := by
  intro h
  have hparent : keyAt key (siftDown key fuel heap index) (index / 2) =
      keyAt key heap (index / 2) :=
    congrArg key (getElem!_siftDown (by omega))
  have horder := h index htwo (by rwa [size_siftDown])
  rw [hparent] at horder
  exact absurd (le_trans horder (keyAt_siftDown_le (by omega))) (not_le_of_gt hless)

/-! ### Content -/

/-- The elements, without the wasted one. -/
def content (heap : Array α) : List α := heap.toList.tail

/-- The array is its unused first cell and the content. -/
theorem toList_eq_cons (h : heap.size ≠ 0) : heap.toList = heap[0]! :: content heap := by
  have hlt : 0 < heap.toList.length := by
    rw [Array.length_toList]
    omega
  match hlist : heap.toList with
  | [] =>
    rw [hlist] at hlt
    cases hlt
  | x :: xs =>
    have hx : heap[0]! = x := by
      rw [getElem!_pos heap 0 (by omega), ← Array.getElem_toList]
      simp only [hlist, getElem_cons_zero]
    rw [hx, content, hlist, tail_cons]

/-- Arrays that are permutations with the same first cell have the same content. -/
theorem content_perm {heap' : Array α} (h : heap'.Perm heap) (hzero : heap'[0]! = heap[0]!) :
    (content heap').Perm (content heap) := by
  have hlist : heap'.toList.Perm heap.toList := Array.perm_iff_toList_perm.mp h
  by_cases hsize : heap.size = 0
  · have hnil : heap.toList = [] := eq_nil_of_length_eq_zero (by rwa [Array.length_toList])
    have hnil' : heap'.toList = [] := perm_nil.mp (hnil ▸ hlist)
    rw [content, content, hnil, hnil']
  · have hsize' : heap'.size ≠ 0 := by rwa [h.size_eq]
    rw [toList_eq_cons hsize, toList_eq_cons hsize', hzero] at hlist
    exact hlist.cons_inv

/-- Sifting up leaves the unused cell. -/
theorem getElem!_zero_siftUp (h : 1 ≤ index) : (siftUp key fuel heap index)[0]! = heap[0]! := by
  induction fuel generalizing heap index with
  | zero => rfl
  | succ fuel ih =>
    rw [siftUp]
    split_ifs with hstep
    · rw [ih (by omega), getElem!_exch_of_ne (by omega) (by omega)]
    · rfl

/-- Sifting up keeps the content. -/
theorem content_siftUp (h : 1 ≤ index) :
    (content (siftUp key fuel heap index)).Perm (content heap) :=
  content_perm siftUp_perm (getElem!_zero_siftUp h)

/-- Sifting down keeps the content. -/
theorem content_siftDown (h : 1 ≤ index) :
    (content (siftDown key fuel heap index)).Perm (content heap) :=
  content_perm siftDown_perm (getElem!_siftDown h)

omit [Inhabited α] in
/-- Pushing adds to the content. -/
theorem content_push (x : α) (h : heap.size ≠ 0) : content (heap.push x) = content heap ++ [x] := by
  unfold content
  rw [Array.toList_push, tail_append_of_ne_nil]
  intro hnil
  exact h (by rw [← Array.length_toList, hnil, length_nil])

/-- The content are the cells from the second on. -/
theorem mem_content_iff {x : α} :
    x ∈ content heap ↔ ∃ i, 1 ≤ i ∧ i < heap.size ∧ heap[i]! = x := by
  unfold content
  rw [mem_iff_getElem]
  constructor
  · rintro ⟨i, hi, rfl⟩
    rw [length_tail, Array.length_toList] at hi
    refine ⟨i + 1, by omega, by omega, ?_⟩
    rw [getElem!_pos heap (i + 1) (by omega), getElem_tail, Array.getElem_toList]
  · rintro ⟨i, hone, hi, rfl⟩
    refine ⟨i - 1, by rw [length_tail, Array.length_toList]; omega, ?_⟩
    rw [getElem!_pos heap i hi, getElem_tail, Array.getElem_toList]
    congr
    omega

/-! ### Taking an element out -/

/-- The heap without the element at an index, the last one in its place. -/
def takeOut (heap : Array α) (i : ℕ) : Array α := (exch heap i (heap.size - 1)).pop

omit [Inhabited α] in
/-- Taking out shortens the array by one. -/
theorem size_takeOut : (takeOut heap i).size = heap.size - 1 := by
  rw [takeOut, Array.size_pop, size_exch]

/-- Taking out is exchanging with the last cell and dropping it. -/
theorem getElem!_takeOut (hi : i < heap.size - 1) :
    (takeOut heap a)[i]! = (exch heap a (heap.size - 1))[i]! := by
  have hsize : i < (takeOut heap a).size := by rwa [size_takeOut]
  rw [getElem!_pos (takeOut heap a) i hsize,
    getElem!_pos (exch heap a (heap.size - 1)) i (by rw [size_exch]; omega)]
  exact Array.getElem_pop hsize

/-- The last cell moves to the place of the one taken out. -/
theorem getElem!_takeOut_self (hi : i < heap.size - 1) :
    (takeOut heap i)[i]! = heap[heap.size - 1]! := by
  rw [getElem!_takeOut hi, getElem!_exch_left (by omega) (by omega)]

/-- The other cells stay where they were. -/
theorem getElem!_takeOut_of_ne (hi : i < heap.size - 1) (hne : i ≠ a) :
    (takeOut heap a)[i]! = heap[i]! := by
  rw [getElem!_takeOut hi, getElem!_exch_of_ne hne (by omega)]

/-- What is taken out and what is left make up the content. -/
theorem content_takeOut (hone : 1 ≤ i) (hlt : i < heap.size) :
    (heap[i]! :: content (takeOut heap i)).Perm (content heap) := by
  have hlast : (exch heap i (heap.size - 1))[heap.size - 1]! = heap[i]! :=
    getElem!_exch_right hlt (by omega)
  have hzero : (exch heap i (heap.size - 1))[0]! = heap[0]! :=
    getElem!_exch_of_ne (by omega) (by omega)
  have hpush : exch heap i (heap.size - 1) = (takeOut heap i).push heap[i]! := by
    have hback : (exch heap i (heap.size - 1)).back! = heap[i]! := by
      rw [Array.back!, size_exch]
      exact hlast
    rw [takeOut, ← hback]
    exact Array.eq_push_pop_back!_of_size_ne_zero (by rw [size_exch]; omega)
  calc
    (heap[i]! :: content (takeOut heap i)).Perm (content (takeOut heap i) ++ [heap[i]!]) :=
      (perm_append_singleton _ _).symm
    _ = content (exch heap i (heap.size - 1)) := by
      rw [hpush, content_push _ (by rw [size_takeOut]; omega)]
    List.Perm _ (content heap) := content_perm exch_perm hzero

/-- The element at the index may have become too large, and if the last one was not smaller
than its new parent that is all. -/
theorem orderedBelow_takeOut (h : Ordered key heap) (hone : 1 ≤ i) (hlt : i < heap.size)
    (hparent : 2 ≤ i → i < heap.size - 1 →
      keyAt key heap (i / 2) ≤ keyAt key heap (heap.size - 1)) :
    OrderedBelow key (takeOut heap i) i := by
  have hkey : ∀ j, j < heap.size - 1 → j ≠ i → keyAt key (takeOut heap i) j = keyAt key heap j :=
    fun j hj hne => congrArg key (getElem!_takeOut_of_ne hj hne)
  constructor
  · intro j hj hsize hne
    rw [size_takeOut] at hsize
    rw [hkey (j / 2) (by omega) hne]
    by_cases hji : j = i
    · have hself : keyAt key (takeOut heap i) j = keyAt key heap (heap.size - 1) := by
        rw [hji]
        exact congrArg key (getElem!_takeOut_self (by omega))
      rw [hself, hji]
      exact hparent (by omega) (by omega)
    · rw [hkey j hsize hji]
      exact h j hj (by omega)
  · intro htwo j hsize hpar
    rw [size_takeOut] at hsize
    rw [hkey (i / 2) (by omega) (by omega), hkey j hsize (by omega)]
    calc
      keyAt key heap (i / 2) ≤ keyAt key heap i := h i htwo hlt
      _ = keyAt key heap (j / 2) := by rw [hpar]
      _ ≤ keyAt key heap j := h j (by omega) (by omega)

/-- **Sifting down after taking out** restores the order exactly when the element that took
the place was not smaller than its new parent. -/
theorem siftDown_takeOut_ordered_iff (h : Ordered key heap) (hone : 1 ≤ i) (hlt : i < heap.size)
    (hfuel : heap.size ≤ fuel) :
    Ordered key (siftDown key fuel (takeOut heap i) i) ↔
      (2 ≤ i → i < heap.size - 1 → keyAt key heap (i / 2) ≤ keyAt key heap (heap.size - 1)) := by
  constructor
  · intro hordered htwo hi
    apply le_of_not_gt
    intro hless
    have hself : keyAt key (takeOut heap i) i = keyAt key heap (heap.size - 1) :=
      congrArg key (getElem!_takeOut_self hi)
    have hup : keyAt key (takeOut heap i) (i / 2) = keyAt key heap (i / 2) :=
      congrArg key (getElem!_takeOut_of_ne (by omega) (by omega))
    refine siftDown_not_ordered htwo ?_ ?_ hordered
    · rwa [size_takeOut]
    · rwa [hself, hup]
  · intro hparent
    apply siftDown_ordered (orderedBelow_takeOut h hone hlt hparent) hone
    rw [size_takeOut]
    omega

end BinaryHeap
