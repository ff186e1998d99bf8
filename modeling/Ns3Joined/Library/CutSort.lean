import Mathlib.Data.List.Lex
import Mathlib.Data.List.Sort

/-!
# Sorting around a mark

Elements with keys are sorted together with a mark, which has a key but is no element. Then those
that are closer than the mark come before it and those that are farther away behind it, but one with
the key of the mark may end up on either side: a sorting function need not be stable.

* `SortFunction`: what is known of a sorting function.
* `Split`: the elements before the mark and those behind it, in their order.
* `SortFunction.exists_split`: a sorting function gives a split.
* `Split.exists_sort`: and each split is given by some sorting function.
* `exists_split_le`, `exists_split_lt`, `exists_split_first`: what may come before the mark.
-/

namespace CutSort

open List Function

variable {K A : Type*} [LinearOrder K]

/-- A sorting function for elements with keys. -/
structure SortFunction (K A : Type*) [LinearOrder K] where
  sort : List (K × A) → List (K × A)
  perm : ∀ l, (sort l).Perm l
  sorted : ∀ l, (sort l).Pairwise fun x y => x.1 ≤ y.1

/-- An element among others of which one may be the mark. -/
def element (x : K × A) : K × Option A := (x.1, some x.2)

/-- The mark and the elements. -/
def marked (mark : K) (l : List (K × A)) : List (K × Option A) := (mark, none) :: l.map element

/-- The elements before the mark and those behind it. -/
structure Split (mark : K) (l a b : List (K × A)) : Prop where
  perm : (a ++ b).Perm l
  before : ∀ x ∈ a, x.1 ≤ mark
  behind : ∀ x ∈ b, mark ≤ x.1
  sorted : a.Pairwise fun x y => x.1 ≤ y.1
  sorted_behind : b.Pairwise fun x y => x.1 ≤ y.1

variable {mark : K} {l a b : List (K × A)} {x : K × A}

/-- A key below the mark is on the left. -/
theorem Split.mem_of_lt (h : Split mark l a b) (hx : x ∈ l) (hlt : x.1 < mark) : x ∈ a := by
  rcases mem_append.mp (h.perm.mem_iff.mpr hx) with hx | hx
  · exact hx
  · exact absurd (h.behind x hx) (not_le_of_gt hlt)

/-- What is on the left is from the list. -/
theorem Split.subset (h : Split mark l a b) (hx : x ∈ a) : x ∈ l :=
  h.perm.mem_iff.mp (mem_append_left b hx)

/-- Without their wrapping, what is not the mark are elements. -/
def content (x : K × Option A) : Option (K × A) := x.2.map fun y => (x.1, y)

omit [LinearOrder K] in
theorem content_element (x : K × A) : content (element x) = some x := rfl

omit [LinearOrder K] in
/-- The contents of elements give the list back. -/
theorem filterMap_content (l : List (K × A)) : (l.map element).filterMap content = l := by
  rw [filterMap_map]
  exact filterMap_some

omit [LinearOrder K] in
/-- A list of elements is recovered from its contents. -/
theorem map_element_filterMap {r : List (K × Option A)} (h : ∀ y ∈ r, ∃ x, y = element x) :
    (r.filterMap content).map element = r := by
  induction r with
  | nil => rfl
  | cons y r ih =>
    obtain ⟨⟨x, rfl⟩, hr⟩ := forall_mem_cons.mp h
    rw [filterMap_cons_some (content_element x), map_cons, ih hr]

/-- Elements are ordered as what they contain. -/
theorem pairwise_map_element (l : List (K × A)) :
    (l.map element).Pairwise (fun x y => x.1 ≤ y.1) ↔ l.Pairwise fun x y => x.1 ≤ y.1 :=
  pairwise_map

/-- **A sorted list is split at the mark.** -/
theorem SortFunction.exists_split (f : SortFunction K (Option A)) (mark : K) (l : List (K × A)) :
    ∃ a b, f.sort (marked mark l) = a.map element ++ (mark, none) :: b.map element ∧
      Split mark l a b := by
  have hperm := f.perm (marked mark l)
  have hsorted := f.sorted (marked mark l)
  have hmark : (mark, none) ∈ f.sort (marked mark l) := hperm.mem_iff.mpr mem_cons_self
  obtain ⟨r, r', heq⟩ := append_of_mem hmark
  rw [heq] at hperm hsorted ⊢
  have hrest : (r ++ r').Perm (l.map element) := (perm_middle.symm.trans hperm).cons_inv
  have helement : ∀ y ∈ r ++ r', ∃ x, y = element x := by
    intro y hy
    obtain ⟨x, -, hx⟩ := mem_map.mp (hrest.mem_iff.mp hy)
    exact ⟨x, hx.symm⟩
  have hr := map_element_filterMap fun y hy => helement y (mem_append_left r' hy)
  have hr' := map_element_filterMap fun y hy => helement y (mem_append_right r hy)
  refine ⟨r.filterMap content, r'.filterMap content, by rw [hr, hr'], ?_⟩
  obtain ⟨hsortedr, hsortedr', hbetween⟩ := pairwise_append.mp hsorted
  obtain ⟨hmarkr', hsortedr'⟩ := pairwise_cons.mp hsortedr'
  constructor
  · rw [← filterMap_append, ← filterMap_content l]
    exact hrest.filterMap content
  · intro x hx
    have hmem : element x ∈ r := by
      rw [← hr]
      exact mem_map_of_mem hx
    exact hbetween _ hmem _ mem_cons_self
  · intro x hx
    have hmem : element x ∈ r' := by
      rw [← hr']
      exact mem_map_of_mem hx
    exact hmarkr' _ hmem
  · rw [← hr] at hsortedr
    exact (pairwise_map_element _).mp hsortedr
  · rw [← hr'] at hsortedr'
    exact (pairwise_map_element _).mp hsortedr'

/-! ### Choosing the order -/

/-- A sorting function that is stable. -/
def insertionSort (K A : Type*) [LinearOrder K] : SortFunction K A where
  sort := fun l => l.insertionSort fun x y => x.1 ≤ y.1
  perm := fun l => perm_insertionSort _ l
  sorted := fun l => by
    have htotal : Std.Total fun x y : K × A => x.1 ≤ y.1 := ⟨fun x y => le_total x.1 y.1⟩
    have htrans : IsTrans (K × A) fun x y => x.1 ≤ y.1 := ⟨fun _ _ _ => le_trans⟩
    exact pairwise_insertionSort _ l

open Classical in
/-- Any ordered permutation is what some sort returns. -/
theorem SortFunction.exists_of_perm {l r : List (K × A)} (hperm : r.Perm l)
    (hsorted : r.Pairwise fun x y => x.1 ≤ y.1) : ∃ f : SortFunction K A, f.sort l = r := by
  refine ⟨⟨update (insertionSort K A).sort l r, fun l' => ?_, fun l' => ?_⟩,
    update_self ..⟩
  · by_cases h : l' = l
    · rw [h, update_self]
      exact hperm
    · rw [update_of_ne h]
      exact (insertionSort K A).perm l'
  · by_cases h : l' = l
    · rw [h, update_self]
      exact hsorted
    · rw [update_of_ne h]
      exact (insertionSort K A).sorted l'

/-- **Each split is what some sorting function gives.** -/
theorem Split.exists_sort (h : Split mark l a b) : ∃ f : SortFunction K (Option A),
    f.sort (marked mark l) = a.map element ++ (mark, none) :: b.map element := by
  apply SortFunction.exists_of_perm
  · refine perm_middle.trans (List.Perm.cons _ ?_)
    rw [← map_append]
    exact h.perm.map element
  · refine pairwise_append.mpr ⟨(pairwise_map_element a).mpr h.sorted,
      pairwise_cons.mpr ⟨?_, (pairwise_map_element b).mpr h.sorted_behind⟩, ?_⟩
    · intro y hy
      obtain ⟨x, hx, rfl⟩ := mem_map.mp hy
      exact h.behind x hx
    · intro y hy z hz
      obtain ⟨x, hx, rfl⟩ := mem_map.mp hy
      rcases mem_cons.mp hz with rfl | hz
      · exact h.before x hx
      · obtain ⟨x', hx', rfl⟩ := mem_map.mp hz
        exact (h.before x hx).trans (h.behind x' hx')

/-- Those that have the key of the mark may be put on any side. -/
theorem exists_split_of (mark : K) (near : K × A → Bool)
    (hnear : ∀ y, near y = true → y.1 ≤ mark)
    (hfar : ∀ y, near y = false → mark ≤ y.1) (l : List (K × A)) :
    ∃ a b, Split mark l a b ∧ ∀ y, y ∈ a ↔ y ∈ l ∧ near y = true := by
  have hsorted := (insertionSort K A).sorted
  have hperm := (insertionSort K A).perm
  refine ⟨(insertionSort K A).sort (l.filter near), (insertionSort K A).sort (l.filter (!near ·)),
    ⟨?_, ?_, ?_, hsorted _, hsorted _⟩, fun y => ?_⟩
  · exact ((hperm _).append (hperm _)).trans (filter_append_perm near l)
  · intro y hy
    exact hnear y (mem_filter.mp ((hperm _).mem_iff.mp hy)).2
  · intro y hy
    have hnot := (mem_filter.mp ((hperm _).mem_iff.mp hy)).2
    rw [Bool.not_eq_true'] at hnot
    exact hfar y hnot
  · rw [(hperm _).mem_iff, mem_filter]

/-- A list can be split with the keys up to the mark on the left. -/
theorem exists_split_le (mark : K) (l : List (K × A)) :
    ∃ a b, Split mark l a b ∧ ∀ y, y ∈ a ↔ y ∈ l ∧ y.1 ≤ mark := by
  have h := exists_split_of mark (fun y => decide (y.1 ≤ mark))
    (fun y hy => of_decide_eq_true hy) (fun y hy => le_of_not_ge (of_decide_eq_false hy)) l
  simpa only [decide_eq_true_eq] using h

/-- Only those that must come before the mark do. -/
theorem exists_split_lt (mark : K) (l : List (K × A)) :
    ∃ a b, Split mark l a b ∧ ∀ y, y ∈ a ↔ y ∈ l ∧ y.1 < mark := by
  have h := exists_split_of mark (fun y => decide (y.1 < mark))
    (fun y hy => (of_decide_eq_true hy).le) (fun y hy => le_of_not_gt (of_decide_eq_false hy)) l
  simpa only [decide_eq_true_eq] using h

/-- A list can be split with a first element of least key in front. -/
theorem exists_split_first (hx : x ∈ l) (hle : x.1 ≤ mark) (hfirst : ∀ y ∈ l, x.1 ≤ y.1) :
    ∃ a b, Split mark l (x :: a) b ∧ ∀ y ∈ l, y.1 ≤ mark → y ∈ x :: a := by
  obtain ⟨l₁, l₂, rfl⟩ := append_of_mem hx
  have hrest : (x :: (l₁ ++ l₂)).Perm (l₁ ++ x :: l₂) := perm_middle.symm
  obtain ⟨a, b, hsplit, hmem⟩ := exists_split_le mark (l₁ ++ l₂)
  refine ⟨a, b, ⟨(hsplit.perm.cons x).trans hrest, ?_, hsplit.behind, ?_, hsplit.sorted_behind⟩, ?_⟩
  · exact forall_mem_cons.mpr ⟨hle, hsplit.before⟩
  · refine pairwise_cons.mpr ⟨fun y hy => hfirst y ?_, hsplit.sorted⟩
    exact hrest.mem_iff.mp (mem_cons_of_mem x (hsplit.subset hy))
  · intro y hy hnear
    rcases mem_cons.mp (hrest.mem_iff.mpr hy) with rfl | hy
    · exact mem_cons_self
    · exact mem_cons_of_mem x ((hmem y).mpr ⟨hy, hnear⟩)

/-- The first element on the left has a least key. -/
theorem Split.first_le (h : Split mark l (x :: a) b) : ∀ y ∈ l, x.1 ≤ y.1 := by
  intro y hy
  rcases mem_append.mp (h.perm.mem_iff.mpr hy) with hy | hy
  · rcases mem_cons.mp hy with rfl | hy
    · exact le_rfl
    · exact (pairwise_cons.mp h.sorted).1 y hy
  · exact (h.before x mem_cons_self).trans (h.behind y hy)

end CutSort
