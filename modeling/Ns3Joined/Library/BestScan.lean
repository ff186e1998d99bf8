import Mathlib.Data.List.Induction

/-!
# Keeping the best in one pass

A pass over a list that keeps an element and puts the next one in its place if that is at least as
good, so that of equals the last one is kept. It may end early, at an element that it puts there.

* `scan_spec`: what is kept is one of the elements, and at least as good as each of them.
* `scanUntil_eq`: a pass that ends early sees the elements up to the one that it ends at.
-/

namespace BestScan

open List

variable {α : Type*} (le : α → α → Prop) [DecidableRel le] (stop : α → Bool)

/-- What is kept after one more element. -/
def keep (best : Option α) (a : α) : Option α :=
  match best with
  | none => some a
  | some b => if le a b then some a else some b

/-- The whole list. -/
def scan (best : Option α) (as : List α) : Option α := as.foldl (keep le) best

/-- Up to the first element at which the pass ends. -/
def scanUntil : Option α → List α → Option α
  | best, [] => best
  | best, a :: as => if stop a then keep le best a else scanUntil (keep le best a) as

/-- The elements that such a pass sees. -/
def seen : List α → List α
  | [] => []
  | a :: as => if stop a then [a] else a :: seen as

variable {le stop} {best : Option α} {as : List α} {a b : α}

/-- A scan that may stop is a scan of what it has seen. -/
theorem scanUntil_eq (best : Option α) (as : List α) :
    scanUntil le stop best as = scan le best (seen stop as) := by
  induction as generalizing best with
  | nil => rfl
  | cons a as ih =>
    rw [scanUntil, seen]
    split_ifs
    · rfl
    · exact ih (keep le best a)

/-- What is seen is from the list. -/
theorem mem_of_mem_seen (h : a ∈ seen stop as) : a ∈ as := by
  induction as with
  | nil => exact h
  | cons b as ih =>
    rw [seen] at h
    split_ifs at h
    · rw [mem_singleton.mp h]
      exact mem_cons_self
    · obtain rfl | h := mem_cons.mp h
      · exact mem_cons_self
      · exact mem_cons_of_mem _ (ih h)

/-- Where nothing stops the scan everything is seen. -/
theorem seen_eq_self (h : as.find? stop = none) : seen stop as = as := by
  induction as with
  | nil => rfl
  | cons a as ih =>
    rw [List.find?_cons] at h
    cases hstop : stop a with
    | true =>
      rw [hstop] at h
      cases h
    | false =>
      rw [hstop] at h
      rw [seen, hstop, if_neg Bool.false_ne_true, ih h]

/-- Up to the element that stops the scan everything is seen. -/
theorem seen_eq_append (h : as.find? stop = some a) :
    ∃ before, seen stop as = before ++ [a] ∧ ∀ x ∈ before, stop x = false := by
  induction as with
  | nil => cases h
  | cons b as ih =>
    rw [List.find?_cons] at h
    cases hstop : stop b with
    | true =>
      rw [hstop] at h
      cases h
      refine ⟨[], ?_, fun x hx => absurd hx not_mem_nil⟩
      rw [seen, hstop, if_pos rfl]
      rfl
    | false =>
      rw [hstop] at h
      obtain ⟨before, hseen, hbefore⟩ := ih h
      refine ⟨b :: before, ?_, forall_mem_cons.mpr ⟨hstop, hbefore⟩⟩
      rw [seen, hstop, if_neg Bool.false_ne_true, hseen]
      rfl

/-- A scan takes its last element last. -/
theorem scan_append (best : Option α) (as : List α) (a : α) :
    scan le best (as ++ [a]) = keep le (scan le best as) a := by
  rw [scan, foldl_append]
  rfl

/-- The result of a scan is from the list, or the one it started with. -/
theorem mem_of_scan (h : scan le best as = some b) : best = some b ∨ b ∈ as := by
  induction as generalizing best with
  | nil => exact .inl h
  | cons a as ih =>
    obtain hkeep | hmem := ih (show scan le (keep le best a) as = some b from h)
    · unfold keep at hkeep
      split at hkeep
      · exact .inr (mem_cons.mpr (.inl (Option.some.inj hkeep).symm))
      · split_ifs at hkeep
        · exact .inr (mem_cons.mpr (.inl (Option.some.inj hkeep).symm))
        · exact .inl hkeep
    · exact .inr (mem_cons_of_mem _ hmem)

/-- A scan finds nothing in the empty list only. -/
theorem scan_eq_none_iff : scan le none as = none ↔ as = [] := by
  obtain rfl | ⟨front, a, rfl⟩ := eq_nil_or_concat as
  · exact ⟨fun _ => rfl, fun _ => rfl⟩
  · rw [concat_eq_append, scan_append]
    refine ⟨fun hnone => ?_, fun hnil => absurd hnil (append_ne_nil_of_right_ne_nil _
      (cons_ne_nil _ _))⟩
    unfold keep at hnone
    split at hnone
    · cases hnone
    · split_ifs at hnone

/-- A scan under a total order finds a best element. -/
theorem scan_spec (htotal : ∀ a b, le a b ∨ le b a) (htrans : ∀ a b c, le a b → le b c → le a c)
    (h : scan le none as = some b) : b ∈ as ∧ ∀ a ∈ as, le b a := by
  induction as using List.reverseRecOn generalizing b with
  | nil => cases h
  | append_singleton as a ih =>
    have hrefl : le a a := (htotal a a).elim id id
    rw [scan_append] at h
    unfold keep at h
    cases hfront : scan le none as with
    | none =>
      rw [hfront] at h
      cases h
      rw [scan_eq_none_iff.mp hfront, nil_append]
      refine ⟨mem_singleton_self a, fun x hx => ?_⟩
      rw [mem_singleton.mp hx]
      exact hrefl
    | some c =>
      obtain ⟨hmem, hbest⟩ := ih hfront
      rw [hfront] at h
      dsimp only at h
      split_ifs at h with hle
      · cases h
        refine ⟨mem_append_right _ (mem_singleton_self a), fun x hx => ?_⟩
        obtain hx | hx := mem_append.mp hx
        · exact htrans a c x hle (hbest x hx)
        · rw [mem_singleton.mp hx]
          exact hrefl
      · cases h
        refine ⟨mem_append_left _ hmem, fun x hx => ?_⟩
        obtain hx | hx := mem_append.mp hx
        · exact hbest x hx
        · rw [mem_singleton.mp hx]
          exact (htotal a _).resolve_left hle

/-- A scan that stops at an element no worse than those before it finds this element. -/
theorem scanUntil_of_stop (h : as.find? stop = some a)
    (hbest : ∀ x ∈ as, stop x = false → le a x) : scanUntil le stop none as = some a := by
  obtain ⟨before, hseen, hbefore⟩ := seen_eq_append h
  rw [scanUntil_eq, hseen, scan_append]
  unfold keep
  cases hscan : scan le none before with
  | none => rfl
  | some b =>
    obtain hnone | hb := mem_of_scan hscan
    · cases hnone
    · have hin : b ∈ seen stop as := by
        rw [hseen]
        exact mem_append_left _ hb
      exact if_pos (hbest b (mem_of_mem_seen hin) (hbefore b hb))

end BestScan
