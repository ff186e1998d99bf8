import Mathlib.Data.List.Perm.Basic
import Ns3Joined.ContentStore.Lru
import Ns3Joined.Library.Recency

/-!
# What the LRU policy guarantees

Queue, info map and table hold the same entries (`Tracks`), and the queue has them in the
order of their last use (`Recency.Ordered`), told from the notes of a bystander who writes
down what every call touches. A round of `evictEntries` then takes the least recently used
entry that is not an agent's, or, when there is none, the least recently used one
(`evictRound_normal`, `evictRound_agents`).

The first kind of round ends in a comparison with an iterator whose element has just been
erased. `lru_behavesWell_iff` says exactly which runs never get there: those that, whenever
they have to evict, find agents only. Whatever the comparison yields, the others use an
erased iterator.
-/

namespace Ns3Joined.ContentStore.Lru

open Recency List Function

/-! ### What is to be guaranteed -/

/-- The entry has the class `QUEUE_NORMAL`. -/
def IsNormal (cs : Cs Lru) (i : EntryRef) : Prop := cs.policy.entryInfoMap i = some .normal

/-- An eviction takes the least recently used entry that is not an agent's; when there is
none, the least recently used one. Nothing uses an erased iterator. -/
def Event.Proper (notes : List EntryRef) : Event → Prop
  | .evicted before victim =>
    LeastRecent notes (IsNormal before) victim ∨
      (∀ i ∈ before.table.refs, ¬ IsNormal before i) ∧
        LeastRecent notes (· ∈ before.table.refs) victim
  | .usedErased => False

/-- Queue, info map and table hold the same entries, no more than the limit. -/
structure Good (cs : Cs Lru) : Prop where
  queue_iff : ∀ i, i ∈ cs.policy.queue ↔ i ∈ cs.table.refs
  queue_nodup : cs.policy.queue.Nodup
  info_iff : ∀ i, (∃ c, cs.policy.entryInfoMap i = some c) ↔ i ∈ cs.table.refs
  size_le : cs.table.size ≤ cs.limit

section BehavesWell

variable (erasedIsEnd : Cs Lru → Option Bool)

/-- Every call of the run returns, to a store in which all is well, and evicts as it
should. -/
def BehavesWell (cs : Cs Lru) (ops : List (Op Empty)) : Prop :=
  cs.RunsWith (lru erasedIsEnd)
    (fun notes _ _ cs' evs => Good cs' ∧ ∀ ev ∈ evs, ev.Proper notes) [] ops

end BehavesWell

def OnlyAgents (cs : Cs Lru) : Prop :=
  ∀ i ∈ cs.table.refs, cs.policy.entryInfoMap i = some .agent

/-- The call has nothing to evict, or nothing but agents to evict from. -/
def EvictsAgentsOnly (cs : Cs Lru) : Op Empty → Prop
  | .insert data _ isAgent _ _ => cs.admits data = true → data.ref ∉ cs.table.refs →
    cs.table.size + 1 ≤ cs.limit ∨ isAgent = true ∧ OnlyAgents cs
  | .setLimit nMaxPackets => cs.table.size ≤ nMaxPackets ∨ OnlyAgents cs
  | _ => True

/-! ### The invariant -/

/-- The queue and the info map hold the entries in `S`. -/
structure Tracks (p : Lru) (S : EntryRef → Prop) : Prop where
  queue_iff : ∀ i, i ∈ p.queue ↔ S i
  info_iff : ∀ i, (∃ c, p.entryInfoMap i = some c) ↔ S i

/-- Only the entries that are tracked matter. -/
theorem Tracks.congr {p : Lru} {S S' : EntryRef → Prop} (h : Tracks p S)
    (hS : ∀ i, S i ↔ S' i) : Tracks p S' :=
  ⟨fun i => (h.queue_iff i).trans (hS i), fun i => (h.info_iff i).trans (hS i)⟩

/-- What the calls keep. -/
structure Inv (notes : List EntryRef) (cs : Cs Lru) : Prop where
  tracks : Tracks cs.policy (· ∈ cs.table.refs)
  ordered : Ordered notes cs.policy.queue
  size_le : cs.table.size ≤ cs.limit

theorem Inv.good {notes : List EntryRef} {cs : Cs Lru} (h : Inv notes cs) : Good cs :=
  ⟨h.tracks.queue_iff, h.ordered.nodup, h.tracks.info_iff, h.size_le⟩

theorem init_inv (nMaxPackets : ℕ) : Inv [] (Cs.init nMaxPackets init) where
  tracks := ⟨fun i => Iff.rfl, fun i => by simp [Cs.init, init, Table.empty, Table.refs]⟩
  ordered := List.Pairwise.nil
  size_le := Nat.zero_le _

/-! ### The queue -/

section Queue

variable {p : Lru} {S : EntryRef → Prop} {i : EntryRef} {notes : List EntryRef} {cs : Cs Lru}

/-- A new entry. -/
theorem insertToQueue_new (cs : Cs Lru) (isAgent : Bool) (h : Tracks cs.policy S)
    (hord : Ordered notes cs.policy.queue) (hi : ¬ S i) :
    ∃ p', insertToQueue i true isAgent cs = .ok { cs with policy := p' } ∧
      Tracks p' (fun j => j = i ∨ S j) ∧ Ordered (i :: notes) p'.queue ∧
      p'.entryInfoMap = update cs.policy.entryInfoMap i
        (some (if isAgent then .agent else .normal)) := by
  have hnot : i ∉ cs.policy.queue := fun hmem => hi ((h.queue_iff i).mp hmem)
  refine ⟨⟨cs.policy.queue ++ [i], update cs.policy.entryInfoMap i
    (some (if isAgent then .agent else .normal))⟩, ?_, ⟨fun j => ?_, fun j => ?_⟩, ?_, rfl⟩
  · unfold insertToQueue
    cases isAgent <;> simp [hnot]
  · rw [mem_append, mem_singleton, h.queue_iff, or_comm]
  · by_cases hj : j = i
    · subst hj
      simp
    · dsimp only
      rw [update_of_ne hj, h.info_iff j]
      simp [hj]
  · have htouch := hord.touch i
    rwa [erase_of_not_mem hnot] at htouch

/-- An entry that is there moves to the end of the queue. -/
theorem insertToQueue_old (cs : Cs Lru) (isAgent : Bool) (h : Tracks cs.policy S)
    (hord : Ordered notes cs.policy.queue) (hi : S i) :
    ∃ p', insertToQueue i false isAgent cs = .ok { cs with policy := p' } ∧
      Tracks p' S ∧ Ordered (i :: notes) p'.queue := by
  have hmem : i ∈ cs.policy.queue := (h.queue_iff i).mpr hi
  obtain ⟨c, hc⟩ := (h.info_iff i).mpr hi
  have hqueue : ∀ j, j ∈ cs.policy.queue.erase i ++ [i] ↔ S j := by
    intro j
    rw [mem_append, mem_singleton, hord.nodup.mem_erase_iff, h.queue_iff]
    by_cases hj : j = i
    · subst hj; simpa using hi
    · simp [hj]
  cases isAgent with
  | false =>
    refine ⟨⟨cs.policy.queue.erase i ++ [i], cs.policy.entryInfoMap⟩, ?_, ⟨hqueue, h.info_iff⟩,
      hord.touch i⟩
    simp [insertToQueue, hmem]
  | true =>
    refine ⟨⟨cs.policy.queue.erase i ++ [i], update cs.policy.entryInfoMap i
      (some .agent)⟩, ?_, ⟨hqueue, fun j => ?_⟩, hord.touch i⟩
    · simp [insertToQueue, hmem, hc]
    · by_cases hj : j = i
      · subst hj; simpa using hi
      · dsimp only
        rw [update_of_ne hj]
        exact h.info_iff j

/-- `erase` takes one entry out of the queue and the info map. -/
theorem Tracks.erase (h : Tracks p S) (hnodup : p.queue.Nodup) (i : EntryRef) :
    Tracks ⟨p.queue.erase i, update p.entryInfoMap i none⟩ fun j => j ≠ i ∧ S j where
  queue_iff j := by rw [hnodup.mem_erase_iff, h.queue_iff]
  info_iff j := by
    by_cases hj : j = i
    · subst hj
      simp
    · dsimp only
      rw [update_of_ne hj, h.info_iff j]
      simp [hj]

/-- `remove` takes it out of the table too. -/
theorem remove_tracks (h : Tracks cs.policy (· ∈ cs.table.refs))
    (hord : Ordered notes cs.policy.queue) (i : EntryRef) :
    Tracks (remove i cs).policy (· ∈ (remove i cs).table.refs) :=
  (h.erase hord.nodup i).congr fun _ => Table.mem_refs_erase.symm

theorem remove_ordered (hord : Ordered notes cs.policy.queue) (i : EntryRef) :
    Ordered notes (remove i cs).policy.queue := hord.sublist erase_sublist

/-- Where there are agents only, this stays so. -/
theorem OnlyAgents.remove (h : OnlyAgents cs) (i : EntryRef) : OnlyAgents (remove i cs) := by
  intro j hj
  obtain ⟨hne, hmem⟩ := Table.mem_refs_erase.mp hj
  exact (update_of_ne hne _ _).trans (h j hmem)

end Queue

/-! ### Evictions -/

section Evict

variable {erasedIsEnd : Cs Lru → Option Bool} {notes : List EntryRef} {cs : Cs Lru}

/-- The search comes to an entry with agents only in front of it, or sees nothing but
agents. -/
theorem findNonAgent_cases {entryInfoMap : EntryRef → Option EntryClass} {queue : List EntryRef}
    (h : ∀ i ∈ queue, ∃ c, entryInfoMap i = some c) :
    (∃ i before after, findNonAgent entryInfoMap queue = .ok (some i) ∧
      queue = before ++ i :: after ∧ entryInfoMap i = some .normal ∧
      ∀ j ∈ before, entryInfoMap j = some .agent) ∨
    (findNonAgent entryInfoMap queue = .ok none ∧ ∀ i ∈ queue, entryInfoMap i = some .agent) := by
  induction queue with
  | nil => exact Or.inr ⟨rfl, fun i hi => absurd hi not_mem_nil⟩
  | cons i queue ih =>
    obtain ⟨c, hc⟩ := h i mem_cons_self
    cases c with
    | normal =>
      refine Or.inl ⟨i, [], queue, ?_, rfl, hc, fun j hj => absurd hj not_mem_nil⟩
      rw [findNonAgent, hc]
    | agent =>
      have hskip : findNonAgent entryInfoMap (i :: queue) = findNonAgent entryInfoMap queue := by
        rw [findNonAgent, hc]
      rw [hskip]
      rcases ih fun j hj => h j (mem_cons_of_mem _ hj) with
        ⟨k, before, after, hfind, rfl, hk, hbefore⟩ | ⟨hfind, hall⟩
      · refine Or.inl ⟨k, i :: before, after, hfind, rfl, hk, fun j hj => ?_⟩
        rcases mem_cons.mp hj with rfl | hj
        · exact hc
        · exact hbefore j hj
      · refine Or.inr ⟨hfind, fun j hj => ?_⟩
        rcases mem_cons.mp hj with rfl | hj
        · exact hc
        · exact hall j hj

variable (erasedIsEnd) in
/-- A store of agents only gives up the least recently used one. -/
theorem evictRound_agents (h : Tracks cs.policy (· ∈ cs.table.refs))
    (hord : Ordered notes cs.policy.queue) (hpos : 0 < cs.table.size) (hagents : OnlyAgents cs) :
    ∃ i ∈ cs.table.refs, evictRound erasedIsEnd cs = .ok (remove i cs, [.evicted cs i]) ∧
      (Event.evicted cs i).Proper notes := by
  cases hqueue : cs.policy.queue with
  | nil =>
    -- the table is not empty, and the queue has its entries
    obtain ⟨i, hi⟩ := exists_mem_of_length_pos (by rw [Table.length_refs]; exact hpos)
    have hmem := (h.queue_iff i).mpr hi
    rw [hqueue] at hmem
    exact absurd hmem not_mem_nil
  | cons i queue =>
    have hi : i ∈ cs.table.refs := (h.queue_iff i).mp (by rw [hqueue]; exact mem_cons_self)
    refine ⟨i, hi, ?_, Or.inr ⟨fun j hj hnormal => ?_, ?_⟩⟩
    · have hfind : findNonAgent cs.policy.entryInfoMap cs.policy.queue = .ok none := by
        rcases findNonAgent_cases fun j hj => (h.info_iff j).mpr ((h.queue_iff j).mp hj) with
          ⟨k, before, after, -, hk, hnormal, -⟩ | ⟨hfind, -⟩
        · have hkmem : k ∈ cs.policy.queue := by rw [hk]; simp
          rw [hagents k ((h.queue_iff k).mp hkmem)] at hnormal
          cases hnormal
        · exact hfind
      rw [evictRound, hfind, hqueue, if_neg (by simp)]
      simp only [bind, Except.bind, evictFront, hqueue]
      rfl
    · rw [IsNormal, hagents j hj] at hnormal
      cases hnormal
    · rw [hqueue] at hord
      have hfront : Ordered notes ([] ++ i :: queue) := hord
      refine hfront.leastRecent hi (fun j hj => ?_) fun j hj => absurd hj not_mem_nil
      have hmem := (h.queue_iff j).mpr hj
      rwa [hqueue] at hmem

variable (erasedIsEnd) in
/-- Any other store gives up the least recently used entry that is not an agent's, and
compares the iterator to it afterwards. -/
theorem evictRound_normal (h : Tracks cs.policy (· ∈ cs.table.refs))
    (hord : Ordered notes cs.policy.queue) (hagents : ¬ OnlyAgents cs) :
    ∃ i ∈ cs.table.refs, (Event.evicted cs i).Proper notes ∧ evictRound erasedIsEnd cs =
      match erasedIsEnd (remove i cs) with
      | none => .error .undefined
      | some false => .ok (remove i cs, [.evicted cs i, .usedErased])
      | some true => (evictFront (remove i cs)).map fun r =>
          (r.1, [.evicted cs i, .usedErased] ++ [r.2]) := by
  have hinfo : ∀ j ∈ cs.policy.queue, ∃ c, cs.policy.entryInfoMap j = some c :=
    fun j hj => (h.info_iff j).mpr ((h.queue_iff j).mp hj)
  rcases findNonAgent_cases hinfo with ⟨i, before, after, hfind, hqueue, hi, hbefore⟩ | ⟨-, hall⟩
  · have hmem : i ∈ cs.policy.queue := by rw [hqueue]; simp
    have hnormal : ∀ j, IsNormal cs j → j ∈ before ++ i :: after := fun j hj => by
      rw [← hqueue]
      exact (h.queue_iff j).mpr ((h.info_iff j).mp ⟨_, hj⟩)
    refine ⟨i, (h.queue_iff i).mp hmem, Or.inl ?_, ?_⟩
    · rw [hqueue] at hord
      refine hord.leastRecent hi hnormal fun j hj hj' => ?_
      rw [IsNormal, hbefore j hj] at hj'
      cases hj'
    · have hne : ¬ cs.policy.queue.isEmpty = true := by rw [hqueue]; simp
      rw [evictRound, if_neg hne, hfind]
      simp only [bind, Except.bind]
      cases erasedIsEnd (remove i cs) with
      | none => rfl
      | some atEnd =>
        cases atEnd with
        | false => rfl
        | true =>
          dsimp only
          cases evictFront (remove i cs) <;> rfl
  · exact absurd (fun j hj => hall j ((h.queue_iff j).mpr hj)) hagents

theorem size_remove {i : EntryRef} (hi : i ∈ cs.table.refs) :
    (remove i cs).table.size + 1 = cs.table.size := Table.size_erase hi

/-- Within the limit, nothing is evicted. -/
theorem evictLoop_done (fuel : ℕ) (hle : cs.table.size ≤ cs.limit) :
    evictLoop erasedIsEnd fuel cs = .ok (cs, []) := by
  have hnot : ¬ cs.limit < cs.table.size := Nat.not_lt.mpr hle
  cases fuel with
  | zero => rw [evictLoop, if_neg hnot]
  | succ fuel => rw [evictLoop, if_neg hnot]

/-- The loop of `evictEntries`, when there are agents only or the comparison with the
erased iterator yields what a comparison of addresses would. -/
theorem evictLoop_ok (fuel : ℕ) (cs : Cs Lru) (h : Tracks cs.policy (· ∈ cs.table.refs))
    (hord : Ordered notes cs.policy.queue) (hfuel : cs.table.size - cs.limit ≤ fuel)
    (hsafe : cs.table.size ≤ cs.limit ∨ OnlyAgents cs ∨ ∀ s, erasedIsEnd s = some false) :
    ∃ cs' evs, evictLoop erasedIsEnd fuel cs = .ok (cs', evs) ∧ Inv notes cs' ∧
      (∀ ev ∈ evs, ev.Proper notes ∨ ev = .usedErased) ∧
      (cs.table.size ≤ cs.limit ∨ OnlyAgents cs → ∀ ev ∈ evs, ev.Proper notes) := by
  induction fuel generalizing cs with
  | zero =>
    have hle : cs.table.size ≤ cs.limit := by omega
    exact ⟨cs, [], evictLoop_done _ hle, ⟨h, hord, hle⟩,
      fun ev hev => absurd hev not_mem_nil, fun _ ev hev => absurd hev not_mem_nil⟩
  | succ fuel ih =>
    by_cases hlt : cs.limit < cs.table.size
    · -- the round takes one entry; the loop goes on from the store without it
      have hround : ∃ i ∈ cs.table.refs, ∃ evs,
          evictRound erasedIsEnd cs = .ok (remove i cs, evs) ∧
          (∀ ev ∈ evs, ev.Proper notes ∨ ev = .usedErased) ∧
          (OnlyAgents cs → ∀ ev ∈ evs, ev.Proper notes) := by
        by_cases hagents : OnlyAgents cs
        · obtain ⟨i, hi, hround, hproper⟩ := evictRound_agents erasedIsEnd
            h hord (by omega) hagents
          have hall : ∀ ev ∈ [Event.evicted cs i], ev.Proper notes := fun ev hev => by
            rw [mem_singleton.mp hev]
            exact hproper
          exact ⟨i, hi, _, hround, fun ev hev => Or.inl (hall ev hev), fun _ => hall⟩
        · obtain ⟨i, hi, hproper, hround⟩ := evictRound_normal erasedIsEnd
            h hord hagents
          have hfalse : erasedIsEnd (remove i cs) = some false := by
            rcases hsafe with hle | hagents' | hfalse
            · omega
            · exact absurd hagents' hagents
            · exact hfalse _
          rw [hfalse] at hround
          refine ⟨i, hi, _, hround, fun ev hev => ?_, fun hagents' => absurd hagents' hagents⟩
          rcases mem_cons.mp hev with rfl | hev
          · exact Or.inl hproper
          · exact Or.inr (mem_singleton.mp hev)
      obtain ⟨i, hi, evs, hround, hevs, hproper⟩ := hround
      have hsize := size_remove hi
      have hlimit : (remove i cs).limit = cs.limit := rfl
      have hsafe' : (remove i cs).table.size ≤ (remove i cs).limit ∨ OnlyAgents (remove i cs) ∨
          ∀ s, erasedIsEnd s = some false := by
        rcases hsafe with hle | hagents | hfalse
        · omega
        · exact Or.inr (Or.inl (hagents.remove i))
        · exact Or.inr (Or.inr hfalse)
      have h' := remove_tracks h hord i
      have hord' := remove_ordered hord i
      obtain ⟨cs', evs', hloop, hinv, hevs', hproper'⟩ :=
        ih (remove i cs) h' hord' (by omega) hsafe'
      refine ⟨cs', evs ++ evs', ?_, hinv, fun ev hev => ?_, fun hclean ev hev => ?_⟩
      · rw [evictLoop, if_pos hlt, hround]
        simp only [bind, Except.bind, hloop]
        rfl
      · rcases mem_append.mp hev with hev | hev
        · exact hevs ev hev
        · exact hevs' ev hev
      · have hagents : OnlyAgents cs := hclean.resolve_left (Nat.not_le.mpr hlt)
        rcases mem_append.mp hev with hev | hev
        · exact hproper hagents ev hev
        · exact hproper' (Or.inr (hagents.remove i)) ev hev
    · have hle := Nat.not_lt.mp hlt
      exact ⟨cs, [], evictLoop_done _ hle, ⟨h, hord, hle⟩,
        fun ev hev => absurd hev not_mem_nil, fun _ ev hev => absurd hev not_mem_nil⟩

/-- Any other loop fails or uses the erased iterator. -/
theorem evictLoop_not_ok (fuel : ℕ) (h : Tracks cs.policy (· ∈ cs.table.refs))
    (hord : Ordered notes cs.policy.queue) (hlt : cs.limit < cs.table.size)
    (hagents : ¬ OnlyAgents cs) :
    ¬ ∃ cs' evs, evictLoop erasedIsEnd fuel cs = .ok (cs', evs) ∧ ∀ ev ∈ evs, ev.Proper notes := by
  rintro ⟨cs', evs, hloop, hproper⟩
  obtain ⟨i, -, -, hround⟩ := evictRound_normal erasedIsEnd h hord hagents
  cases fuel with
  | zero =>
    rw [evictLoop, if_pos hlt] at hloop
    cases hloop
  | succ fuel =>
    -- whatever the comparison yields, the report of the first round has it
    have hused : ∀ cs₁ evs₁, evictRound erasedIsEnd cs = .ok (cs₁, evs₁) → .usedErased ∈ evs₁ := by
      intro cs₁ evs₁ hok
      rw [hround] at hok
      cases hcmp : erasedIsEnd (remove i cs) with
      | none => rw [hcmp] at hok; cases hok
      | some atEnd =>
        rw [hcmp] at hok
        cases atEnd with
        | false =>
          obtain ⟨-, rfl⟩ := Prod.mk.inj (Except.ok.inj hok)
          simp
        | true =>
          dsimp only at hok
          cases hfront : evictFront (remove i cs) with
          | error e => rw [hfront] at hok; cases hok
          | ok r =>
            rw [hfront] at hok
            obtain ⟨-, rfl⟩ := Prod.mk.inj (Except.ok.inj hok)
            simp
    rw [evictLoop, if_pos hlt] at hloop
    cases hr : evictRound erasedIsEnd cs with
    | error e => rw [hr] at hloop; cases hloop
    | ok r =>
      rw [hr] at hloop
      simp only [bind, Except.bind] at hloop
      cases hrest : evictLoop erasedIsEnd fuel r.1 with
      | error e => rw [hrest] at hloop; cases hloop
      | ok r' =>
        rw [hrest] at hloop
        obtain ⟨-, rfl⟩ := Prod.mk.inj (Except.ok.inj hloop)
        exact hproper _ (mem_append_left _ (hused r.1 r.2 hr))

end Evict

/-! ### One call -/

variable {op : Op Empty}

section Step

variable {erasedIsEnd : Cs Lru → Option Bool} {notes : List EntryRef} {cs : Cs Lru}

/-- What one call does. The first clause is about the calls that evict agents only and,
if the comparison with an erased iterator yields `false`, about all calls; the second is
about the other calls, whatever the comparison yields. -/
structure StepSpec (erasedIsEnd : Cs Lru → Option Bool) (notes : List EntryRef) (cs : Cs Lru)
    (op : Op Empty) : Prop where
  safe : EvictsAgentsOnly cs op ∨ (∀ s, erasedIsEnd s = some false) →
    ∃ cs' evs, cs.step (lru erasedIsEnd) op = .ok (cs', evs) ∧ Inv (Cs.note notes cs op) cs' ∧
      (∀ ev ∈ evs, ev.Proper (Cs.note notes cs op) ∨ ev = .usedErased) ∧
      (EvictsAgentsOnly cs op → ∀ ev ∈ evs, ev.Proper (Cs.note notes cs op))
  spoiled : ¬ EvictsAgentsOnly cs op →
    ¬ ∃ cs' evs, cs.step (lru erasedIsEnd) op = .ok (cs', evs) ∧
      ∀ ev ∈ evs, ev.Proper (Cs.note notes cs op)

/-- A call that evicts nothing. -/
theorem StepSpec.quiet {cs' : Cs Lru} (hagents : EvictsAgentsOnly cs op)
    (hstep : cs.step (lru erasedIsEnd) op = .ok (cs', [])) (hinv : Inv (Cs.note notes cs op) cs') :
    StepSpec erasedIsEnd notes cs op where
  safe _ := ⟨cs', [], hstep, hinv, fun _ hev => absurd hev not_mem_nil,
    fun _ _ hev => absurd hev not_mem_nil⟩
  spoiled hnot := absurd hagents hnot

/-- A call that ends in `evictEntries`. -/
theorem StepSpec.evicting (cs₁ : Cs Lru)
    (hstep : cs.step (lru erasedIsEnd) op = evictEntries erasedIsEnd cs₁)
    (h : Tracks cs₁.policy (· ∈ cs₁.table.refs))
    (hord : Ordered (Cs.note notes cs op) cs₁.policy.queue)
    (hiff : EvictsAgentsOnly cs op ↔ cs₁.table.size ≤ cs₁.limit ∨ OnlyAgents cs₁) :
    StepSpec erasedIsEnd notes cs op where
  safe hsafe := by
    rw [hiff, or_assoc] at hsafe
    rw [hstep, hiff]
    exact evictLoop_ok _ cs₁ h hord (Nat.le_refl _) hsafe
  spoiled hnot := by
    rw [hiff, not_or, Nat.not_le] at hnot
    rw [hstep]
    exact evictLoop_not_ok _ h hord hnot.1 hnot.2

/-- `insert` does what a step is to do. -/
theorem step_insert (h : Inv notes cs) (data : Data) (isUnsolicited isAgent : Bool)
    (now now' : ℕ) :
    StepSpec erasedIsEnd notes cs (.insert data isUnsolicited isAgent now now') := by
  have hnote : cs.admits data = true → Cs.note notes cs
      (.insert data isUnsolicited isAgent now now' : Op Empty) = data.ref :: notes := by
    intro hadm
    simp [Cs.note, Cs.touched, hadm]
  rcases Cs.insert_cases (P := lru erasedIsEnd) data isUnsolicited isAgent now now' cs with
    ⟨hadm, hstep⟩ | ⟨hadm, hmem, table, hrefs, hstep⟩ | ⟨hadm, hmem, table, hrefs, hstep⟩
  · -- `insert` returns early, and nothing is touched
    have hnote : Cs.note notes cs (.insert data isUnsolicited isAgent now now' : Op Empty) =
        notes := by simp [Cs.note, Cs.touched, hadm]
    refine StepSpec.quiet (fun hadm' => ?_) hstep (by rw [hnote]; exact h)
    rw [hadm] at hadm'
    cases hadm'
  · obtain ⟨p', hqueue, htracks, hord⟩ :=
      insertToQueue_old { cs with table := table } isAgent h.tracks h.ordered hmem
    have hsize : table.size = cs.table.size := by
      rw [← Table.length_refs, hrefs, Table.length_refs]
    have hok : cs.step (lru erasedIsEnd) (.insert data isUnsolicited isAgent now now') =
        .ok ({ cs with table := table, policy := p' }, []) :=
      hstep.trans (congrArg (Except.map (·, [])) hqueue)
    refine StepSpec.quiet (fun _ hnot => absurd hmem hnot) hok ?_
    rw [hnote hadm]
    exact ⟨htracks.congr fun j => by rw [hrefs], hord, hsize ▸ h.size_le⟩
  · obtain ⟨p', hqueue, htracks, hord, hmap⟩ :=
      insertToQueue_new { cs with table := table } isAgent h.tracks h.ordered hmem
    have hnew : ∀ j, (j = data.ref ∨ j ∈ cs.table.refs) ↔ j ∈ table.refs := fun j => by
      rw [hrefs.mem_iff, mem_cons]
    have hsize : table.size = cs.table.size + 1 := by
      rw [← Table.length_refs, hrefs.length_eq, length_cons, Table.length_refs]
    have hstep' : cs.step (lru erasedIsEnd) (.insert data isUnsolicited isAgent now now') =
        evictEntries erasedIsEnd { cs with table := table, policy := p' } := by
      refine hstep.trans ?_
      show doAfterInsert erasedIsEnd data.ref isAgent now' { cs with table := table } = _
      rw [doAfterInsert, hqueue]
      rfl
    refine StepSpec.evicting _ hstep' (htracks.congr hnew) (by rw [hnote hadm]; exact hord) ?_
    -- agents only afterwards: agents only before, and an agent now
    have hagents : OnlyAgents { cs with table := table, policy := p' } ↔
        isAgent = true ∧ OnlyAgents cs := by
      constructor
      · intro hall
        constructor
        · have hself : p'.entryInfoMap data.ref = some .agent :=
            hall data.ref ((hnew _).mp (Or.inl rfl))
          rw [hmap, update_self] at hself
          cases isAgent with
          | true => rfl
          | false => cases hself
        · intro j hj
          have hjne : j ≠ data.ref := fun heq => hmem (heq ▸ hj)
          have hold : p'.entryInfoMap j = some .agent := hall j ((hnew j).mp (Or.inr hj))
          rwa [hmap, update_of_ne hjne] at hold
      · rintro ⟨rfl, hall⟩ j hj
        show p'.entryInfoMap j = some .agent
        rw [hmap]
        by_cases hjne : j = data.ref
        · subst hjne
          exact update_self _ _ _
        · rw [update_of_ne hjne]
          exact hall j (((hnew j).mpr hj).resolve_left hjne)
    rw [hagents]
    show (cs.admits data = true → data.ref ∉ cs.table.refs → _) ↔ table.size ≤ cs.limit ∨ _
    rw [hsize]
    exact ⟨fun hc => hc hadm hmem, fun hc _ _ => hc⟩

/-- So does `find`. -/
theorem step_find (h : Inv notes cs) (interest : Query) (now : ℕ) :
    StepSpec erasedIsEnd notes cs (.find interest now) := by
  have hstep : cs.step (lru erasedIsEnd) (.find interest now) =
      (Cs.findImpl (lru erasedIsEnd) interest now cs).map (·, []) := rfl
  cases hmatch : cs.findMatch interest now with
  | none =>
    have hnote : Cs.note notes cs (.find interest now : Op Empty) = notes := by
      simp [Cs.note, Cs.touched, hmatch]
    refine StepSpec.quiet trivial (hstep.trans ?_) (by rw [hnote]; exact h)
    rw [Cs.findImpl, hmatch]
    rfl
  | some i =>
    have hnote : Cs.note notes cs (.find interest now : Op Empty) = i :: notes := by
      simp [Cs.note, Cs.touched, hmatch]
    obtain ⟨p', hqueue, htracks, hord⟩ :=
      insertToQueue_old cs false h.tracks h.ordered (Cs.findMatch_mem hmatch)
    have hok : cs.step (lru erasedIsEnd) (.find interest now) =
        .ok ({ cs with policy := p' }, []) := by
      rw [hstep, Cs.findImpl, hmatch]
      exact congrArg (Except.map (·, [])) hqueue
    refine StepSpec.quiet trivial hok ?_
    rw [hnote]
    exact ⟨htracks, hord, h.size_le⟩

/-- **One call.** -/
theorem step_spec (h : Inv notes cs) (op : Op Empty) : StepSpec erasedIsEnd notes cs op := by
  cases op with
  | insert data isUnsolicited isAgent now now' => exact step_insert h data _ _ _ _
  | find interest now => exact step_find h interest now
  | event e => exact nomatch e
  | erase pre limit =>
    obtain ⟨cs', hok, hinv⟩ := Cs.eraseImpl_ok (P := lru erasedIsEnd) (Inv notes)
      (fun cs i hcs hi => by
        refine ⟨remove i cs, rfl, ⟨remove_tracks hcs.tracks hcs.ordered i,
          remove_ordered hcs.ordered i, ?_⟩, cs.table.refs_erase i⟩
        have hsize := size_remove hi
        have hle := hcs.size_le
        show (remove i cs).table.size ≤ cs.limit
        omega) h pre limit
    exact StepSpec.quiet trivial (congrArg (Except.map (·, [])) hok) hinv
  | setLimit nMaxPackets =>
    exact StepSpec.evicting { cs with limit := nMaxPackets } rfl h.tracks h.ordered Iff.rfl
  | enableAdmit shouldAdmit =>
    exact StepSpec.quiet trivial rfl ⟨h.tracks, h.ordered, h.size_le⟩
  | enableServe shouldServe =>
    exact StepSpec.quiet trivial rfl ⟨h.tracks, h.ordered, h.size_le⟩

end Step

/-! ### Runs -/

/-- **The policy does its work exactly in the runs that evict from agents only**,
whatever a comparison with an erased iterator yields. -/
theorem lru_behavesWell_iff (erasedIsEnd : Cs Lru → Option Bool) (nMaxPackets : ℕ)
    (ops : List (Op Empty)) :
    BehavesWell erasedIsEnd (Cs.init nMaxPackets init) ops ↔
      (Cs.init nMaxPackets init).Before (lru erasedIsEnd) EvictsAgentsOnly ops := by
  refine Cs.runsWith_iff_before (lru erasedIsEnd) Inv (fun notes cs op hcs => ?_)
    (fun notes cs op cs' evs hcs hagents hok => ?_) (init_inv nMaxPackets) ops
  · constructor
    · rintro ⟨cs', evs, hok, -, hevs⟩
      by_contra hnot
      exact (step_spec hcs op).spoiled hnot ⟨cs', evs, hok, hevs⟩
    · intro hagents
      obtain ⟨cs', evs, hok, hinv, -, hevs⟩ := (step_spec hcs op).safe (Or.inl hagents)
      exact ⟨cs', evs, hok, hinv.good, hevs hagents⟩
  · obtain ⟨cs'', evs', hok', hinv, -⟩ := (step_spec hcs op).safe (Or.inl hagents)
    obtain ⟨rfl, -⟩ := Prod.mk.inj (Except.ok.inj (hok.symm.trans hok'))
    exact hinv

/-- Solicited Data with the one-octet name `octet`. -/
def solicitedData (octet : UInt8) : Op Empty :=
  .insert ⟨[⟨Ndn.tlv.GenericNameComponent, [octet]⟩], [octet], 0, false⟩ false false 0 0

def Event.isUse : Event → Bool
  | .evicted _ _ => false
  | .usedErased => true

/-- **Room for one and two packets**: the second insertion evicts the first packet and
uses its iterator afterwards. -/
theorem not_behavesWell_solicited :
    ¬ BehavesWell (fun _ => some false) (Cs.init 1 init) [solicitedData 0, solicitedData 1] := by
  rintro ⟨cs', evs, hfirst, -, cs'', evs', hsecond, ⟨-, hproper⟩, -⟩
  have hboth : ((Cs.init 1 init).step (lru fun _ => some false) (solicitedData 0) >>=
      fun r => (r.1.step (lru fun _ => some false) (solicitedData 1)).map fun r =>
        r.2.any Event.isUse) = .ok true := rfl
  rw [hfirst] at hboth
  have huse : (cs'.step (lru fun _ => some false) (solicitedData 1)).map (fun r =>
      r.2.any Event.isUse) = .ok true := hboth
  rw [hsecond] at huse
  obtain ⟨ev, hev, hisUse⟩ := any_eq_true.mp (Except.ok.inj huse)
  cases ev with
  | evicted before victim => cases hisUse
  | usedErased => exact hproper _ hev

end Ns3Joined.ContentStore.Lru
