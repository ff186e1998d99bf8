import Ns3Joined.ContentStore.Table
import Ns3Joined.Fault

/-!
# The content store

`Cs` and the base class of its replacement policies (`cs.cpp`, `cs-policy.cpp`).

A policy is known to `Cs` by its virtual functions, the fields of `Policy`, and keeps
data of its own type `σ`. Its one way back into the store is the signal `beforeEvict`, to
which `Cs` has connected the erasure of the entry from the table; so the hooks take the
store and return it. `ω` is what a policy reports about its evictions, and `ε` the events
it has put into the scheduler.

`Op` collects the calls the store can receive and `step` makes one of them. `RunsWith`
says of a sequence of calls that all of them return with a property, `Before` that a
condition holds in front of each, and `runsWith_iff_before` takes an exact condition
from one call to every run. An exception of `findPrefixRange` leaves the store as it was: nothing
has been changed by then.
-/

namespace Ns3Joined.ContentStore

open Ndn List Option

/-- The store: `Cs` with the limit of its policy and the data of the policy's class. -/
structure Cs (σ : Type) where
  table : Table
  limit : ℕ
  policy : σ
  shouldAdmit : Bool
  shouldServe : Bool

/-- The virtual functions of a policy. -/
structure Policy (σ ε ω : Type) where
  evictEntries : Cs σ → Except Fault (Cs σ × List ω)
  doAfterInsert : EntryRef → Bool → ℕ → Cs σ → Except Fault (Cs σ × List ω)
  doAfterRefresh : EntryRef → Bool → ℕ → Cs σ → Except Fault (Cs σ)
  doBeforeErase : EntryRef → Cs σ → Except Fault (Cs σ)
  doBeforeUse : EntryRef → Cs σ → Except Fault (Cs σ)
  onEvent : ε → Cs σ → Except Fault (Cs σ)

namespace Cs

variable {σ ε ω : Type} (P : Policy σ ε ω)

/-- An empty store with the limit `nMaxPackets`. -/
def init (nMaxPackets : ℕ) (policy : σ) : Cs σ := ⟨Table.empty, nMaxPackets, policy, true, true⟩

/-- `Policy::setLimit`. -/
def setLimit (nMaxEntries : ℕ) (cs : Cs σ) : Except Fault (Cs σ × List ω) :=
  P.evictEntries { cs with limit := nMaxEntries }

/-- Whether `insert` goes beyond its two early returns. -/
def admits (cs : Cs σ) (data : Data) : Bool :=
  cs.shouldAdmit && cs.limit != 0 && !data.noCache

/-- What `insert` writes to an entry that was there: the new time, and no
`unsolicited` any more once solicited Data has come. -/
def refreshed (isUnsolicited : Bool) (now : ℕ) (entry : Entry) : Entry :=
  let entry := entry.updateFreshUntil now
  if entry.isUnsolicited && !isUnsolicited then entry.clearUnsolicited else entry

theorem refreshed_ref (isUnsolicited : Bool) (now : ℕ) (entry : Entry) :
    (refreshed isUnsolicited now entry).ref = entry.ref := by
  unfold refreshed
  dsimp only
  split <;> rfl

/-- `insert`. The clock is read twice: by `updateFreshUntil`, and by the policy. -/
def insert (data : Data) (isUnsolicited isAgent : Bool) (now now' : ℕ) (cs : Cs σ) :
    Except Fault (Cs σ × List ω) :=
  if cs.admits data then
    match cs.table.emplace (Entry.create data isUnsolicited now) with
    | (table, true) =>
      let table := table.modify data.ref (Entry.updateFreshUntil now)
          (Entry.updateFreshUntil_ref now)
      P.doAfterInsert data.ref isAgent now' { cs with table := table }
    | (table, false) =>
      let table := table.modify data.ref (refreshed isUnsolicited now) (refreshed_ref _ _)
      (P.doAfterRefresh data.ref isAgent now' { cs with table := table }).map (·, [])
  else .ok (cs, [])

/-- One round of `eraseImpl`. -/
def eraseOne (i : EntryRef) (cs : Cs σ) : Except Fault (Cs σ) := do
  let cs ← P.doBeforeErase i cs
  pure { cs with table := cs.table.erase i }

/-- `eraseImpl`: the first `limit` entries of the range go. -/
def eraseImpl (pre : Name) (limit : ℕ) (cs : Cs σ) : Except Fault (Cs σ) :=
  match cs.table.findPrefixRange pre with
  | none => .ok cs
  | some range => ((range.map Entry.ref).take limit).foldlM (fun cs i => eraseOne P i cs) cs

/-- The entry `findImpl` ends up with. -/
def findMatch (interest : Query) (now : ℕ) (cs : Cs σ) : Option EntryRef :=
  if cs.shouldServe && cs.limit != 0 then
    (cs.table.findPrefixRange interest.name).bind fun range =>
      (range.find? fun entry => entry.canSatisfy interest now).map Entry.ref
  else none

/-- `findImpl`, as far as it changes the store. -/
def findImpl (interest : Query) (now : ℕ) (cs : Cs σ) : Except Fault (Cs σ) :=
  match cs.findMatch interest now with
  | none => .ok cs
  | some i => P.doBeforeUse i cs

end Cs

/-! ### Runs -/

/-- A call the store can receive. -/
inductive Op (ε : Type)
  | insert (data : Data) (isUnsolicited isAgent : Bool) (now now' : ℕ)
  | erase (pre : Name) (limit : ℕ)
  | find (interest : Query) (now : ℕ)
  | event (e : ε)
  | setLimit (nMaxPackets : ℕ)
  | enableAdmit (shouldAdmit : Bool)
  | enableServe (shouldServe : Bool)

namespace Cs

variable {σ ε ω : Type} (P : Policy σ ε ω)

/-- One call, and the evictions it makes. -/
def step (cs : Cs σ) : Op ε → Except Fault (Cs σ × List ω)
  | .insert data isUnsolicited isAgent now now' => insert P data isUnsolicited isAgent now now' cs
  | .erase pre limit => (eraseImpl P pre limit cs).map (·, [])
  | .find interest now => (findImpl P interest now cs).map (·, [])
  | .event e => (P.onEvent e cs).map (·, [])
  | .setLimit nMaxPackets => setLimit P nMaxPackets cs
  | .enableAdmit shouldAdmit => .ok ({ cs with shouldAdmit := shouldAdmit }, [])
  | .enableServe shouldServe => .ok ({ cs with shouldServe := shouldServe }, [])

/-- The entry a call inserts, refreshes or uses. -/
def touched (cs : Cs σ) : Op ε → Option EntryRef
  | .insert data _ _ _ _ => if cs.admits data then some data.ref else none
  | .find interest now => cs.findMatch interest now
  | _ => none

/-- The notes of a bystander: the touched entries, the latest first. -/
def note (notes : List EntryRef) (cs : Cs σ) (op : Op ε) : List EntryRef :=
  match cs.touched op with
  | none => notes
  | some i => i :: notes

/-- Every call of the run returns, and `Q` holds of each: of the notes up to and with the
call, the store before, the call, the store after and the evictions. -/
def RunsWith (Q : List EntryRef → Cs σ → Op ε → Cs σ → List ω → Prop)
    (notes : List EntryRef) (cs : Cs σ) : List (Op ε) → Prop
  | [] => True
  | op :: ops => ∃ cs' evs, cs.step P op = .ok (cs', evs) ∧
      Q (note notes cs op) cs op cs' evs ∧ RunsWith Q (note notes cs op) cs' ops

/-- `C` holds before every call that the run comes to. -/
def Before (C : Cs σ → Op ε → Prop) (cs : Cs σ) : List (Op ε) → Prop
  | [] => True
  | op :: ops => C cs op ∧ ∀ cs' evs, cs.step P op = .ok (cs', evs) → Before C cs' ops

/-- From one call to a run: when the condition `C` is exact for one call out of a store
in the invariant, and such a call keeps the invariant, it is exact for runs. -/
theorem runsWith_iff_before (Inv : List EntryRef → Cs σ → Prop)
    {Q : List EntryRef → Cs σ → Op ε → Cs σ → List ω → Prop} {C : Cs σ → Op ε → Prop}
    (hstep : ∀ notes cs op, Inv notes cs →
      ((∃ cs' evs, cs.step P op = .ok (cs', evs) ∧ Q (note notes cs op) cs op cs' evs) ↔ C cs op))
    (hinv : ∀ notes cs op cs' evs, Inv notes cs → C cs op → cs.step P op = .ok (cs', evs) →
      Inv (note notes cs op) cs')
    {notes : List EntryRef} {cs : Cs σ} (hcs : Inv notes cs) (ops : List (Op ε)) :
    RunsWith P Q notes cs ops ↔ Before P C cs ops := by
  induction ops generalizing notes cs with
  | nil => exact Iff.rfl
  | cons op ops ih =>
    rw [RunsWith, Before]
    constructor
    · rintro ⟨cs', evs, hok, hq, hrest⟩
      have hc := (hstep notes cs op hcs).mp ⟨cs', evs, hok, hq⟩
      refine ⟨hc, fun cs'' evs' hok' => ?_⟩
      -- a call has one outcome
      obtain ⟨rfl, rfl⟩ := Prod.mk.inj (Except.ok.inj (hok.symm.trans hok'))
      exact (ih (hinv notes cs op cs' evs hcs hc hok)).mp hrest
    · rintro ⟨hc, hrest⟩
      obtain ⟨cs', evs, hok, hq⟩ := (hstep notes cs op hcs).mpr hc
      have hcs' := hinv notes cs op cs' evs hcs hc hok
      exact ⟨cs', evs, hok, hq, (ih hcs').mpr (hrest cs' evs hok)⟩

/-! ### What the calls ask of a policy -/

variable {P}

/-- `insert` is nothing, a refresh of an entry that is there, or the hook for a new
entry, which the table holds by then. -/
theorem insert_cases (data : Data) (isUnsolicited isAgent : Bool) (now now' : ℕ) (cs : Cs σ) :
    (cs.admits data = false ∧ insert P data isUnsolicited isAgent now now' cs = .ok (cs, [])) ∨
    (cs.admits data = true ∧ data.ref ∈ cs.table.refs ∧ ∃ table : Table,
      table.refs = cs.table.refs ∧ insert P data isUnsolicited isAgent now now' cs =
        (P.doAfterRefresh data.ref isAgent now' { cs with table := table }).map (·, [])) ∨
    (cs.admits data = true ∧ data.ref ∉ cs.table.refs ∧ ∃ table : Table,
      table.refs.Perm (data.ref :: cs.table.refs) ∧
        insert P data isUnsolicited isAgent now now' cs =
          P.doAfterInsert data.ref isAgent now' { cs with table := table }) := by
  cases hadm : cs.admits data with
  | false => exact Or.inl ⟨rfl, by rw [insert, hadm]; rfl⟩
  | true =>
    refine Or.inr ?_
    rw [insert, hadm, if_pos rfl]
    -- `emplace` decides between the two hooks
    cases he : cs.table.emplace (Entry.create data isUnsolicited now) with
    | mk table isNewEntry =>
      have hfst : table = (cs.table.emplace (Entry.create data isUnsolicited now)).1 := by rw [he]
      have hsnd : isNewEntry = (cs.table.emplace (Entry.create data isUnsolicited now)).2 := by
        rw [he]
      cases isNewEntry with
      | true =>
        have hnot : data.ref ∉ cs.table.refs := fun hmem => by
          rw [Table.emplace_old_iff.mpr hmem] at hsnd
          cases hsnd
        refine Or.inr ⟨rfl, hnot, _, ?_, rfl⟩
        rw [Table.refs_modify, hfst]
        exact Table.refs_emplace_new hsnd.symm
      | false =>
        refine Or.inl ⟨rfl, Table.emplace_old_iff.mp hsnd.symm, _, ?_, rfl⟩
        rw [Table.refs_modify, hfst, Table.emplace_old hsnd.symm]

/-- The range of a prefix is a part of the table, in its order. -/
theorem findPrefixRange_sublist {table : Table} {pre : Name} {range : List Entry}
    (h : table.findPrefixRange pre = some range) : range.Sublist table.entries := by
  unfold Table.findPrefixRange at h
  dsimp only at h
  split at h
  · rw [← Option.some.inj h]
    exact drop_sublist _ _
  · obtain ⟨successor, -, rfl⟩ := map_eq_some_iff.mp h
    exact (drop_sublist _ _).trans (take_sublist _ _)

/-- What is found is in the table. -/
theorem findMatch_mem {cs : Cs σ} {interest : Query} {now : ℕ} {i : EntryRef}
    (h : cs.findMatch interest now = some i) : i ∈ cs.table.refs := by
  unfold findMatch at h
  split at h
  · obtain ⟨range, hrange, h⟩ := bind_eq_some_iff.mp h
    obtain ⟨entry, hentry, rfl⟩ := map_eq_some_iff.mp h
    have hmem := (findPrefixRange_sublist hrange).subset (mem_of_find?_eq_some hentry)
    exact mem_map.mpr ⟨entry, hmem, rfl⟩
  · cases h

/-- An invariant that survives the erasure of one entry survives `eraseImpl`, which
does not fail. -/
theorem eraseImpl_ok (Inv : Cs σ → Prop)
    (hone : ∀ (cs : Cs σ) (i : EntryRef), Inv cs → i ∈ cs.table.refs →
      ∃ cs', eraseOne P i cs = .ok cs' ∧ Inv cs' ∧ cs'.table.refs = cs.table.refs.erase i)
    {cs : Cs σ} (hcs : Inv cs) (pre : Name) (limit : ℕ) :
    ∃ cs', eraseImpl P pre limit cs = .ok cs' ∧ Inv cs' := by
  unfold eraseImpl
  cases hrange : cs.table.findPrefixRange pre with
  | none => exact ⟨cs, rfl, hcs⟩
  | some range =>
    have hsub : ((range.map Entry.ref).take limit).Sublist cs.table.refs :=
      (take_sublist _ _).trans ((findPrefixRange_sublist hrange).map Entry.ref)
    dsimp only
    generalize (range.map Entry.ref).take limit = targets at hsub
    have hnodup := cs.table.refs_nodup.sublist hsub
    have hmem := hsub.subset
    clear hsub hrange range
    -- what is still to be erased is still there
    induction targets generalizing cs with
    | nil => exact ⟨cs, rfl, hcs⟩
    | cons i targets ih =>
      obtain ⟨hnot, hnodup⟩ := nodup_cons.mp hnodup
      obtain ⟨cs', hstep, hcs', hrefs⟩ := hone cs i hcs (hmem mem_cons_self)
      have hmem' : targets ⊆ cs'.table.refs := fun j hj => by
        rw [hrefs]
        refine (mem_erase_of_ne ?_).mpr (hmem (mem_cons_of_mem _ hj))
        rintro rfl
        exact hnot hj
      obtain ⟨cs'', hrest, hcs''⟩ := ih hcs' hnodup hmem'
      refine ⟨cs'', ?_, hcs''⟩
      rw [foldlM_cons, hstep]
      exact hrest

end Cs
end Ns3Joined.ContentStore
