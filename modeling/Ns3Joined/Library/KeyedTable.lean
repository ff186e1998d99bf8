import Mathlib.Tactic.Common

/-!
# Tables with a key

A list whose members have keys, no two the same (`Distinct`), and the four things that are done
to such a list: `find`, `insert`, which replaces the member with the key of the new one,
`modify` and `erase`. Each has one lemma that says what the members are.
-/

namespace KeyedTable

open List

variable {α κ : Type*} [DecidableEq κ] {key : α → κ} {k : κ} {l : List α}

def Distinct (key : α → κ) (l : List α) : Prop := l.Pairwise fun x y => key x ≠ key y

/-- The first member with the key. -/
def find (key : α → κ) (k : κ) (l : List α) : Option α := l.find? fun x => decide (key x = k)

/-- The member with the key of `x` becomes `x`; if there is none, `x` is put at the end. -/
def insert (key : α → κ) (x : α) : List α → List α
  | [] => [x]
  | y :: l => if key y = key x then x :: l else y :: insert key x l

/-- The first member with the key is changed. -/
def modify (key : α → κ) (k : κ) (f : α → α) : List α → List α
  | [] => []
  | y :: l => if key y = k then f y :: l else y :: modify key k f l

/-- The first member with the key is taken out. -/
def erase (key : α → κ) (k : κ) (l : List α) : List α := l.eraseP fun x => decide (key x = k)

variable {x : α} {p : α → Bool}

omit [DecidableEq κ] in
/-- In a table of distinct keys the key determines the entry. -/
theorem Distinct.eq_of_key (h : Distinct key l) {y : α} (hx : x ∈ l) (hy : y ∈ l)
    (hkey : key x = key y) : x = y := by
  induction l with
  | nil => cases hx
  | cons z l ih =>
    obtain ⟨hz, hl⟩ := pairwise_cons.mp h
    obtain rfl | hx' := mem_cons.mp hx
    · obtain rfl | hy' := mem_cons.mp hy
      · rfl
      · exact absurd hkey (hz y hy')
    · obtain rfl | hy' := mem_cons.mp hy
      · exact absurd hkey.symm (hz x hx')
      · exact ih hl hx' hy'

/-- What is found is in the table, under the key. -/
theorem mem_of_find {x : α} (h : find key k l = some x) : x ∈ l ∧ key x = k :=
  ⟨mem_of_find?_eq_some h, by simpa using List.find?_some h⟩

/-- Nothing is found if and only if the key is absent. -/
theorem find_eq_none : find key k l = none ↔ ∀ x ∈ l, key x ≠ k := by
  simp only [find, List.find?_eq_none, decide_eq_true_eq, ne_eq]

/-- In a table of distinct keys, what is found is the entry of the key. -/
theorem Distinct.find_eq_some (h : Distinct key l) : find key k l = some x ↔ x ∈ l ∧ key x = k := by
  refine ⟨mem_of_find, fun ⟨hx, hkey⟩ => ?_⟩
  cases hfind : find key k l with
  | none => exact absurd hkey (find_eq_none.mp hfind x hx)
  | some y =>
    obtain ⟨hy, hkey'⟩ := mem_of_find hfind
    rw [h.eq_of_key hy hx (hkey'.trans hkey.symm)]

/-- Inserting replaces the entry of the key. -/
theorem Distinct.insert_mem (h : Distinct key l) (x y : α) :
    y ∈ insert key x l ↔ y = x ∨ y ∈ l ∧ key y ≠ key x := by
  induction l with
  | nil => simp [insert]
  | cons z l ih =>
    obtain ⟨hz, hl⟩ := pairwise_cons.mp h
    by_cases hkey : key z = key x
    · rw [insert, if_pos hkey, mem_cons, mem_cons]
      refine or_congr_right ⟨fun hy => ⟨.inr hy, hkey ▸ (hz y hy).symm⟩, fun ⟨hy, hne⟩ => ?_⟩
      obtain rfl | hy := hy
      · exact absurd hkey hne
      · exact hy
    · rw [insert, if_neg hkey, mem_cons, mem_cons, ih hl]
      constructor
      · rintro (rfl | rfl | ⟨hy, hne⟩)
        · exact .inr ⟨.inl rfl, hkey⟩
        · exact .inl rfl
        · exact .inr ⟨.inr hy, hne⟩
      · rintro (rfl | ⟨rfl | hy, hne⟩)
        · exact .inr (.inl rfl)
        · exact .inl rfl
        · exact .inr (.inr ⟨hy, hne⟩)

/-- A lookup after an insertion. -/
theorem find_insert (x : α) (l : List α) :
    find key k (insert key x l) = if key x = k then some x else find key k l := by
  unfold find
  induction l with
  | nil =>
    by_cases hx : key x = k
    · simp [insert, hx]
    · simp [insert, hx]
  | cons y l ih =>
    by_cases hkey : key y = key x
    · rw [insert, if_pos hkey]
      by_cases hx : key x = k
      · simp [hx]
      · simp [hx, hkey]
    · rw [insert, if_neg hkey, List.find?_cons, List.find?_cons, ih]
      by_cases hy : key y = k
      · have hx : key x ≠ k := fun hx => hkey (hy.trans hx.symm)
        simp [hy, hx]
      · simp [hy]

/-- Inserting keeps the keys distinct. -/
theorem Distinct.insert (h : Distinct key l) (x : α) : Distinct key (insert key x l) := by
  induction l with
  | nil => exact pairwise_singleton ..
  | cons z l ih =>
    obtain ⟨hz, hl⟩ := pairwise_cons.mp h
    by_cases hkey : key z = key x
    · rw [KeyedTable.insert, if_pos hkey]
      exact pairwise_cons.mpr ⟨fun y hy => hkey ▸ hz y hy, hl⟩
    · rw [KeyedTable.insert, if_neg hkey]
      refine pairwise_cons.mpr ⟨fun y hy => ?_, ih hl⟩
      obtain rfl | ⟨hy, -⟩ := (Distinct.insert_mem hl x y).mp hy
      · exact hkey
      · exact hz y hy

/-- Inserting over a last entry of the same key. -/
theorem insert_append {z : α} (hnone : ∀ y ∈ l, key y ≠ key x) (hz : key z = key x) :
    KeyedTable.insert key x (l ++ [z]) = KeyedTable.insert key x l := by
  induction l with
  | nil => exact if_pos hz
  | cons y l ih =>
    have hy := hnone y mem_cons_self
    rw [cons_append, KeyedTable.insert, KeyedTable.insert, if_neg hy, if_neg hy,
      ih fun w hw => hnone w (mem_cons_of_mem _ hw)]

/-- Modifying changes the entries of the key only. -/
theorem Distinct.modify_mem (h : Distinct key l) (f : α → α) (y : α) :
    y ∈ modify key k f l ↔ (y ∈ l ∧ key y ≠ k) ∨ ∃ x ∈ l, key x = k ∧ y = f x := by
  induction l with
  | nil => simp [modify]
  | cons z l ih =>
    obtain ⟨hz, hl⟩ := pairwise_cons.mp h
    by_cases hkey : key z = k
    · rw [modify, if_pos hkey, mem_cons]
      constructor
      · rintro (rfl | hy)
        · exact .inr ⟨z, mem_cons_self .., hkey, rfl⟩
        · exact .inl ⟨mem_cons_of_mem _ hy, hkey ▸ (hz y hy).symm⟩
      · rintro (⟨hy, hne⟩ | ⟨x, hx, hxk, rfl⟩)
        · obtain rfl | hy := mem_cons.mp hy
          · exact absurd hkey hne
          · exact .inr hy
        · exact .inl (congrArg f (h.eq_of_key hx mem_cons_self (hxk.trans hkey.symm)))
    · rw [modify, if_neg hkey, mem_cons, ih hl]
      constructor
      · rintro (rfl | ⟨hy, hne⟩ | ⟨x, hx, hxk, rfl⟩)
        · exact .inl ⟨mem_cons_self .., hkey⟩
        · exact .inl ⟨mem_cons_of_mem _ hy, hne⟩
        · exact .inr ⟨x, mem_cons_of_mem _ hx, hxk, rfl⟩
      · rintro (⟨hy, hne⟩ | ⟨x, hx, hxk, rfl⟩)
        · obtain rfl | hy := mem_cons.mp hy
          · exact .inl rfl
          · exact .inr (.inl ⟨hy, hne⟩)
        · obtain rfl | hx := mem_cons.mp hx
          · exact absurd hxk hkey
          · exact .inr (.inr ⟨x, hx, hxk, rfl⟩)

/-- Modifying keeps the keys. -/
theorem map_key_modify {f : α → α} (hf : ∀ x, key (f x) = key x) :
    (modify key k f l).map key = l.map key := by
  induction l with
  | nil => rfl
  | cons z l ih =>
    rw [modify]
    split
    · rw [map_cons, map_cons, hf]
    · rw [map_cons, map_cons, ih]

omit [DecidableEq κ] in
/-- Distinct keys, as a list without duplicates. -/
theorem distinct_iff_map : Distinct key l ↔ (l.map key).Nodup := (pairwise_map ..).symm

/-- Modifying keeps the keys distinct. -/
theorem Distinct.modify (h : Distinct key l) {f : α → α} (hf : ∀ x, key (f x) = key x) :
    Distinct key (modify key k f l) := by
  rw [distinct_iff_map, map_key_modify hf]
  exact distinct_iff_map.mp h

/-- Erasing from a table that has a first entry. -/
theorem erase_cons (x : α) :
    erase key k (x :: l) = if key x = k then l else x :: erase key k l := by
  by_cases hkey : key x = k
  · simp [erase, hkey]
  · simp [erase, hkey]

/-- Erasing takes away the entries of the key. -/
theorem Distinct.erase_mem (h : Distinct key l) (y : α) :
    y ∈ erase key k l ↔ y ∈ l ∧ key y ≠ k := by
  induction l with
  | nil => simp [erase]
  | cons z l ih =>
    obtain ⟨hz, hl⟩ := pairwise_cons.mp h
    by_cases hkey : key z = k
    · rw [erase_cons, if_pos hkey]
      refine ⟨fun hy => ⟨mem_cons_of_mem _ hy, hkey ▸ (hz y hy).symm⟩, fun ⟨hy, hne⟩ => ?_⟩
      obtain rfl | hy := mem_cons.mp hy
      · exact absurd hkey hne
      · exact hy
    · rw [erase_cons, if_neg hkey, mem_cons, ih hl, mem_cons]
      constructor
      · rintro (rfl | ⟨hy, hne⟩)
        · exact ⟨.inl rfl, hkey⟩
        · exact ⟨.inr hy, hne⟩
      · rintro ⟨rfl | hy, hne⟩
        · exact .inl rfl
        · exact .inr ⟨hy, hne⟩

/-- A lookup after a map that keeps the keys. -/
theorem find_map {g : α → α} (hg : ∀ x, key (g x) = key x) :
    find key k (l.map g) = (find key k l).map g := by
  rw [find, List.find?_map]
  exact congrArg _ (congrArg (List.find? · l) (funext fun x => by simp [hg x]))

/-- A lookup in a table with one more entry. -/
theorem find_append (x : α) :
    find key k (l ++ [x]) = (find key k l).or (if key x = k then some x else none) := by
  rw [find, List.find?_append, ← find]
  refine congrArg _ ?_
  by_cases hx : key x = k
  · simp [hx]
  · simp [hx]

/-- Erasing something of another key leaves the lookup. -/
theorem find_eraseP (hp : ∀ x, p x = true → key x ≠ k) :
    find key k (l.eraseP p) = find key k l := by
  induction l with
  | nil => rfl
  | cons x l ih =>
    unfold find at ih ⊢
    by_cases hx : p x = true
    · rw [eraseP_cons_of_pos hx, List.find?_cons, decide_eq_false (hp x hx)]
    · rw [eraseP_cons_of_neg hx, List.find?_cons, List.find?_cons, ih]

/-- Erasing by a test is erasing by key where they agree. -/
theorem eraseP_eq_erase (hp : ∀ x ∈ l, p x = true ↔ key x = k) : l.eraseP p = erase key k l := by
  induction l with
  | nil => rfl
  | cons x l ih =>
    rw [erase_cons]
    by_cases hx : key x = k
    · rw [if_pos hx, eraseP_cons_of_pos ((hp x mem_cons_self).mpr hx)]
    · rw [if_neg hx, eraseP_cons_of_neg (fun h => hx ((hp x mem_cons_self).mp h)),
        ih fun y hy => hp y (mem_cons_of_mem _ hy)]

/-- Erasing keeps the keys distinct. -/
theorem Distinct.erase (h : Distinct key l) : Distinct key (erase key k l) :=
  h.sublist eraseP_sublist

/-! ### Changing a member of any list -/

/-- An entry of the modified table was there or is a modified one. -/
theorem mem_or_of_mem_modify {f : α → α} {y : α} (hy : y ∈ modify key k f l) :
    y ∈ l ∨ ∃ x ∈ l, key x = k ∧ y = f x := by
  induction l with
  | nil => cases hy
  | cons z l ih =>
    rw [modify] at hy
    split at hy
    · rename_i hkey
      obtain rfl | hy := mem_cons.mp hy
      · exact .inr ⟨z, mem_cons_self, hkey, rfl⟩
      · exact .inl (mem_cons_of_mem _ hy)
    · obtain rfl | hy := mem_cons.mp hy
      · exact .inl mem_cons_self
      · obtain hl | ⟨x, hx, hkey, hfx⟩ := ih hy
        · exact .inl (mem_cons_of_mem _ hl)
        · exact .inr ⟨x, mem_cons_of_mem _ hx, hkey, hfx⟩

/-- An entry of the table is there after modifying, as it is or modified. -/
theorem mem_modify_or_of_mem {f : α → α} (hx : x ∈ l) :
    x ∈ modify key k f l ∨ (key x = k ∧ f x ∈ modify key k f l) := by
  induction l with
  | nil => cases hx
  | cons z l ih =>
    rw [modify]
    split
    · rename_i hkey
      obtain rfl | hx := mem_cons.mp hx
      · exact .inr ⟨hkey, mem_cons_self⟩
      · exact .inl (mem_cons_of_mem _ hx)
    · obtain rfl | hx := mem_cons.mp hx
      · exact .inl mem_cons_self
      · exact (ih hx).imp (mem_cons_of_mem _) fun h => ⟨h.1, mem_cons_of_mem _ h.2⟩

/-- The member that is found is changed. -/
theorem mem_modify_of_find {f : α → α} (hfind : find key k l = some x) :
    f x ∈ modify key k f l := by
  induction l with
  | nil => cases hfind
  | cons z l ih =>
    unfold find at hfind
    rw [modify]
    split
    · rename_i hkey
      rw [List.find?_cons, decide_eq_true hkey] at hfind
      cases hfind
      exact mem_cons_self
    · rename_i hkey
      rw [List.find?_cons, decide_eq_false hkey] at hfind
      exact mem_cons_of_mem _ (ih hfind)

/-- A change does not show where neither the old nor the new member does. -/
theorem filter_modify {f : α → α} (hp : ∀ x, key x = k → p x = false ∧ p (f x) = false) :
    (modify key k f l).filter p = l.filter p := by
  induction l with
  | nil => rfl
  | cons z l ih =>
    rw [modify]
    split
    · rename_i hkey
      obtain ⟨hz, hfz⟩ := hp z hkey
      rw [filter_cons, filter_cons, hz, hfz]
      rfl
    · rw [filter_cons, filter_cons, ih]

/-! ### What the members hold -/

/-- The later of two insertions under one key counts. -/
theorem insert_insert {y : α} (hkey : key y = key x) :
    insert key y (insert key x l) = insert key y l := by
  induction l with
  | nil => exact if_pos hkey.symm
  | cons z l ih =>
    by_cases hz : key z = key x
    · rw [insert, if_pos hz, insert, if_pos hkey.symm, insert, if_pos (hz.trans hkey.symm)]
    · have hz' : key z ≠ key y := fun h => hz (h.trans hkey)
      rw [insert, if_neg hz, insert, if_neg hz', insert, if_neg hz', ih]

/-- A lookup after erasing. -/
theorem Distinct.find_erase (h : Distinct key l) (k' : κ) :
    find key k' (KeyedTable.erase key k l) = if k' = k then none else find key k' l := by
  split
  · rename_i hkey
    rw [find_eq_none]
    exact fun y hy => hkey ▸ ((h.erase_mem y).mp hy).2
  · rename_i hkey
    refine find_eraseP fun y hy => ?_
    rw [of_decide_eq_true hy]
    exact fun heq => hkey heq.symm

variable {β : Type*} [DecidableEq β] {g : α → List β} {b : β}

/-- What was held by the member that `x` takes the place of is no longer held. -/
theorem count_flatMap_insert (x : α) (b : β) :
    ((insert key x l).flatMap g).count b + (((find key (key x) l).map g).getD []).count b =
      (l.flatMap g).count b + (g x).count b := by
  induction l with
  | nil => simp [insert, find]
  | cons z l ih =>
    by_cases hz : key z = key x
    · rw [insert, if_pos hz, find, List.find?_cons, decide_eq_true hz]
      simp only [flatMap_cons, count_append, Option.map_some, Option.getD_some]
      omega
    · rw [insert, if_neg hz, find, List.find?_cons, decide_eq_false hz, ← find]
      simp only [flatMap_cons, count_append]
      omega

/-- Erasing takes away what the entry of the key contributes. -/
theorem count_flatMap_erase (k : κ) (b : β) :
    ((erase key k l).flatMap g).count b + (((find key k l).map g).getD []).count b =
      (l.flatMap g).count b := by
  induction l with
  | nil => rfl
  | cons z l ih =>
    by_cases hz : key z = k
    · rw [erase_cons, if_pos hz, find, List.find?_cons, decide_eq_true hz]
      simp only [flatMap_cons, count_append, Option.map_some, Option.getD_some]
      omega
    · rw [erase_cons, if_neg hz, find, List.find?_cons, decide_eq_false hz, ← find]
      simp only [flatMap_cons, count_append]
      omega

/-- What only the member with a key may hold is held by the one that is found. -/
theorem Distinct.count_flatMap (h : Distinct key l) (hg : ∀ x, key x ≠ k → b ∉ g x) :
    (l.flatMap g).count b = (((find key k l).map g).getD []).count b := by
  induction l with
  | nil => rfl
  | cons z l ih =>
    obtain ⟨hz, hl⟩ := pairwise_cons.mp h
    rw [flatMap_cons, count_append, ih hl]
    by_cases hkey : key z = k
    · have hnone : find key k l = none :=
        find_eq_none.mpr fun y hy heq => hz y hy (hkey.trans heq.symm)
      rw [hnone, find, List.find?_cons, decide_eq_true hkey]
      rfl
    · have hcons : find key k (z :: l) = find key k l := by
        rw [find, List.find?_cons, decide_eq_false hkey, ← find]
      rw [count_eq_zero.mpr (hg z hkey), hcons]
      exact Nat.zero_add _

end KeyedTable
