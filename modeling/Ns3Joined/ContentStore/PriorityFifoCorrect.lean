import Mathlib.Data.List.Perm.Subperm
import Ns3Joined.ContentStore.PriorityFifo

/-!
# When the priority FIFO policy keeps the limit

`Tracks` ties the four parts of the policy together: the entries that have an
`EntryInfo`, the queue nodes, and the events of the scheduler are three views of one set
of entries. `attach`, `detach` and `toStale` keep it, with one entry more, one fewer, and
the same ones.

`evictOne` needs a queue other than that of the agents. A store that has to evict runs
out of those exactly when more than `limit` agent entries are left, so a call goes well
if and only if the agent entries fit the limit (`Fits`, `step_cases`).
`priorityFifo_behavesWell_iff` says so of every run.
-/

namespace Ns3Joined.ContentStore.PriorityFifo

open List Function
open Option (some)

/-! ### The invariant -/

/-- The policy keeps track of the entries in `S`, and of no others. -/
structure Tracks (p : PriorityFifo) (S : EntryRef → Prop) : Prop where
  info_iff : ∀ i, (∃ info, p.entryInfoMap i = some info) ↔ S i
  node_iff : ∀ q node, node ∈ p.queues q ↔ ∃ info, p.entryInfoMap node.entry = some info ∧
    info.queueType = q ∧ info.queueIt = node.id
  nodup : ∀ q, (p.queues q).Nodup
  queueIt_lt : ∀ i info, p.entryInfoMap i = some info → info.queueIt < p.nextNode
  queueIt_inj : ∀ i j info info', p.entryInfoMap i = some info → p.entryInfoMap j = some info' →
    info.queueIt = info'.queueIt → i = j
  scheduled_iff : ∀ ev i, (ev, i) ∈ p.scheduled ↔ ∃ info, p.entryInfoMap i = some info ∧
    info.queueType = .fifo ∧ info.moveStaleEventId = some ev
  event_lt : ∀ e ∈ p.scheduled, e.1 < p.nextEvent
  event_inj : ∀ e ∈ p.scheduled, ∀ e' ∈ p.scheduled, e.1 = e'.1 → e = e'

variable {node node' : QueueNode} {q : QueueType}

section Tracks

variable {p : PriorityFifo} {S : EntryRef → Prop} {i : EntryRef} {info : EntryInfo}

theorem Tracks.congr {S' : EntryRef → Prop} (h : Tracks p S) (hS : ∀ j, S j ↔ S' j) :
    Tracks p S' := { h with info_iff := fun j => (h.info_iff j).trans (hS j) }

theorem init_tracks : Tracks init fun _ => False where
  info_iff j := by simp [init]
  node_iff q node := by simp [init]
  nodup q := nodup_nil
  queueIt_lt j info hj := by cases hj
  queueIt_inj j k info info' hj := by cases hj
  scheduled_iff ev j := by simp [init]
  event_lt e he := absurd he not_mem_nil
  event_inj e he := absurd he not_mem_nil

/-- The iterator of an entry is at its node in its queue. -/
theorem Tracks.node_mem (h : Tracks p S) (hi : p.entryInfoMap i = some info) :
    ⟨info.queueIt, i⟩ ∈ p.queues info.queueType :=
  (h.node_iff _ _).mpr ⟨info, hi, rfl, rfl⟩

/-- A node is the one of an entry if it is where the info map says. -/
theorem Tracks.entry_eq_iff (h : Tracks p S) (hi : p.entryInfoMap i = some info)
    (hnode : node ∈ p.queues q) : node.entry = i ↔ q = info.queueType ∧ node.id = info.queueIt := by
  obtain ⟨info', hinfo', rfl, hit⟩ := (h.node_iff q node).mp hnode
  constructor
  · rintro rfl
    obtain rfl := some.inj (hi.symm.trans hinfo')
    exact ⟨rfl, hit.symm⟩
  · rintro ⟨-, hid⟩
    exact h.queueIt_inj _ _ _ _ hinfo' hi (hit.trans hid)

/-! ### One entry more -/

/-- `attach` puts a new node at the end of one queue. -/
theorem mem_queues_attach {qt : QueueType} :
    node ∈ (p.attach i qt).queues q ↔
      node ∈ p.queues q ∨ q = qt ∧ node = ⟨p.nextNode, i⟩ := by
  by_cases hq : q = qt
  · subst hq; simp [attach]
  · simp [attach, hq]

/-- It is then tracked, with the others. -/
theorem Tracks.attach (h : Tracks p S) (hi : ¬ S i) (qt : QueueType) :
    Tracks (p.attach i qt) fun j => j = i ∨ S j := by
  have hnone : p.entryInfoMap i = none := by
    cases hmap : p.entryInfoMap i with
    | none => rfl
    | some info => exact absurd ((h.info_iff i).mp ⟨info, hmap⟩) hi
  -- what the new map says of the new entry and of the others
  have hself : (p.attach i qt).entryInfoMap i =
      some ⟨qt, p.nextNode, if qt = .fifo then some p.nextEvent else none⟩ :=
    update_self i _ _
  have hother : ∀ j, j ≠ i → (p.attach i qt).entryInfoMap j = p.entryInfoMap j :=
    fun j hj => update_of_ne hj _ _
  have hold : ∀ q node, node ∈ p.queues q → node.entry ≠ i := by
    rintro q node hnode rfl
    obtain ⟨info, hinfo, -⟩ := (h.node_iff q node).mp hnode
    rw [hnone] at hinfo
    cases hinfo
  refine ⟨fun j => ?_, fun q node => ?_, fun q => ?_, fun j info hj => ?_,
    fun j k info info' hj hk heq => ?_, fun ev j => ?_, fun e he => ?_,
    fun e he e' he' heq => ?_⟩
  · -- the info map has the entries
    by_cases hj : j = i
    · subst hj
      exact iff_of_true ⟨_, hself⟩ (Or.inl rfl)
    · rw [hother j hj, h.info_iff j]
      simp [hj]
  · -- the queues have what the info map says
    rw [mem_queues_attach]
    by_cases hj : node.entry = i
    · rw [hj, hself]
      constructor
      · rintro (hnode | ⟨rfl, rfl⟩)
        · exact absurd hj (hold q node hnode)
        · exact ⟨_, rfl, rfl, rfl⟩
      · rintro ⟨info, hinfo, rfl, hid⟩
        obtain rfl := some.inj hinfo
        refine Or.inr ⟨rfl, ?_⟩
        cases node
        exact congrArg₂ QueueNode.mk hid.symm hj
    · rw [hother _ hj, h.node_iff q node]
      refine or_iff_left ?_
      rintro ⟨-, rfl⟩
      exact hj rfl
  · -- no node is twice in a queue
    by_cases hq : q = qt
    · subst hq
      show (update p.queues q _ q).Nodup
      rw [update_self, nodup_append]
      refine ⟨h.nodup q, nodup_singleton _, fun a ha b hb hab => ?_⟩
      rw [mem_singleton.mp hb] at hab
      exact hold q a ha (by rw [hab])
    · show (update p.queues qt _ q).Nodup
      rw [update_of_ne hq]
      exact h.nodup q
  · -- the node is the next one
    show info.queueIt < p.nextNode + 1
    by_cases hji : j = i
    · subst hji
      rw [hself] at hj
      rw [← some.inj hj]
      exact Nat.lt_succ_self _
    · rw [hother j hji] at hj
      exact Nat.lt_succ_of_lt (h.queueIt_lt j info hj)
  · -- the new node is newer than every other
    have hnew : ∀ j info, j ≠ i → (p.attach i qt).entryInfoMap j = some info →
        info.queueIt ≠ p.nextNode := fun j info hji hj => by
      rw [hother j hji] at hj
      exact Nat.ne_of_lt (h.queueIt_lt j info hj)
    by_cases hji : j = i
    · by_cases hki : k = i
      · rw [hji, hki]
      · subst hji
        rw [hself] at hj
        obtain rfl := some.inj hj
        exact absurd heq.symm (hnew k info' hki hk)
    · by_cases hki : k = i
      · subst hki
        rw [hself] at hk
        obtain rfl := some.inj hk
        exact absurd heq (hnew j info hji hj)
      · rw [hother j hji] at hj
        rw [hother k hki] at hk
        exact h.queueIt_inj j k info info' hj hk heq
  · -- just the entries of `QUEUE_FIFO` have an event
    have hmem : (ev, j) ∈ (p.attach i qt).scheduled ↔
        (ev, j) ∈ p.scheduled ∨ qt = .fifo ∧ ev = p.nextEvent ∧ j = i := by
      by_cases hq : qt = .fifo <;> simp [PriorityFifo.attach, hq]
    rw [hmem]
    by_cases hj : j = i
    · subst hj
      rw [hself]
      constructor
      · rintro (hev | ⟨rfl, rfl, -⟩)
        · obtain ⟨info, hinfo, -⟩ := (h.scheduled_iff ev j).mp hev
          rw [hnone] at hinfo
          cases hinfo
        · exact ⟨_, rfl, rfl, rfl⟩
      · rintro ⟨info, hinfo, hq, hev⟩
        obtain rfl := some.inj hinfo
        dsimp only at hq hev
        rw [if_pos hq] at hev
        exact Or.inr ⟨hq, (some.inj hev).symm, rfl⟩
    · rw [hother j hj, h.scheduled_iff ev j]
      exact or_iff_left fun hnew => hj hnew.2.2
  · -- the event is the next one
    show e.1 < p.nextEvent + 1
    by_cases hq : qt = .fifo
    · have he : e ∈ p.scheduled ++ [(p.nextEvent, i)] := by
        simpa [PriorityFifo.attach, hq] using he
      rcases mem_append.mp he with he | he
      · exact Nat.lt_succ_of_lt (h.event_lt e he)
      · rw [mem_singleton.mp he]
        exact Nat.lt_succ_self _
    · have he : e ∈ p.scheduled := by simpa [PriorityFifo.attach, hq] using he
      exact Nat.lt_succ_of_lt (h.event_lt e he)
  · by_cases hq : qt = .fifo
    · have he : e ∈ p.scheduled ++ [(p.nextEvent, i)] := by
        simpa [PriorityFifo.attach, hq] using he
      have he' : e' ∈ p.scheduled ++ [(p.nextEvent, i)] := by
        simpa [PriorityFifo.attach, hq] using he'
      -- the new event is newer than every other
      rcases mem_append.mp he with he | he <;> rcases mem_append.mp he' with he' | he'
      · exact h.event_inj e he e' he' heq
      · rw [mem_singleton.mp he'] at heq
        exact absurd heq (Nat.ne_of_lt (h.event_lt e he))
      · rw [mem_singleton.mp he] at heq
        exact absurd heq.symm (Nat.ne_of_lt (h.event_lt e' he'))
      · rw [mem_singleton.mp he, mem_singleton.mp he']
    · have he : e ∈ p.scheduled := by simpa [PriorityFifo.attach, hq] using he
      have he' : e' ∈ p.scheduled := by simpa [PriorityFifo.attach, hq] using he'
      exact h.event_inj e he e' he' heq

/-! ### One entry fewer -/

section

variable (h : Tracks p S) (hi : p.entryInfoMap i = some info)

include h hi

/-- `detach` takes the node of the entry out of its queue. -/
theorem Tracks.mem_queues_detach :
    node ∈ (p.detach i info).queues q ↔ node ∈ p.queues q ∧ node.entry ≠ i := by
  by_cases hq : q = info.queueType
  · subst hq
    show node ∈ update p.queues info.queueType _ info.queueType ↔ _
    rw [update_self, eraseNode, mem_filter, decide_eq_true_eq]
    refine and_congr_right fun hnode => ?_
    rw [Ne, Ne, h.entry_eq_iff hi hnode]
    simp
  · show node ∈ update p.queues info.queueType _ q ↔ _
    rw [update_of_ne hq]
    refine (and_iff_left_of_imp fun hnode => ?_).symm
    rw [Ne, h.entry_eq_iff hi hnode]
    exact fun hne => hq hne.1

/-- Its event is cancelled too. -/
theorem Tracks.mem_scheduled_detach {e : ℕ × EntryRef} :
    e ∈ (p.detach i info).scheduled ↔ e ∈ p.scheduled ∧ e.2 ≠ i := by
  by_cases hq : info.queueType = .fifo
  · have hmem : e ∈ (p.detach i info).scheduled ↔
        e ∈ p.scheduled ∧ some e.1 ≠ info.moveStaleEventId := by
      simp [detach, hq]
    rw [hmem]
    refine and_congr_right fun he => not_congr ?_
    obtain ⟨info', hinfo', -, hev⟩ := (h.scheduled_iff e.1 e.2).mp he
    constructor
    · -- the event of `i` is an event of no other entry
      intro heq
      have hmem : (e.1, i) ∈ p.scheduled := (h.scheduled_iff _ _).mpr ⟨info, hi, hq, heq.symm⟩
      exact congrArg Prod.snd (h.event_inj e he _ hmem rfl)
    · rintro rfl
      obtain rfl := some.inj (hi.symm.trans hinfo')
      exact hev.symm
  · have hmem : e ∈ (p.detach i info).scheduled ↔ e ∈ p.scheduled := by simp [detach, hq]
    rw [hmem]
    refine (and_iff_left_of_imp fun he => ?_).symm
    rintro rfl
    obtain ⟨info', hinfo', hfifo, -⟩ := (h.scheduled_iff e.1 e.2).mp he
    obtain rfl := some.inj (hi.symm.trans hinfo')
    exact hq hfifo

/-- It is then not tracked any more, and the others are. -/
theorem Tracks.detach : Tracks (p.detach i info) fun j => j ≠ i ∧ S j := by
  have hself : (p.detach i info).entryInfoMap i = none := update_self i _ _
  have hother : ∀ j, j ≠ i → (p.detach i info).entryInfoMap j = p.entryInfoMap j :=
    fun j hj => update_of_ne hj _ _
  -- an entry of the new map is an old one other than `i`
  have hmap : ∀ j info', (p.detach i info).entryInfoMap j = some info' ↔
      j ≠ i ∧ p.entryInfoMap j = some info' := by
    intro j info'
    by_cases hj : j = i
    · subst hj
      rw [hself]
      simp
    · rw [hother j hj]
      simp [hj]
  refine ⟨fun j => ?_, fun q node => ?_, fun q => ?_, fun j info' hj => ?_,
    fun j k info' info'' hj hk heq => ?_, fun ev j => ?_, fun e he => ?_,
    fun e he e' he' heq => ?_⟩
  · simp only [hmap, exists_and_left, h.info_iff]
  · simp only [h.mem_queues_detach hi, hmap, h.node_iff q node, and_assoc, exists_and_left]
    exact and_comm
  · show (update p.queues info.queueType _ q).Nodup
    by_cases hq : q = info.queueType
    · subst hq
      rw [update_self]
      exact (h.nodup _).filter _
    · rw [update_of_ne hq]
      exact h.nodup q
  · exact h.queueIt_lt j info' ((hmap j info').mp hj).2
  · exact h.queueIt_inj j k info' info'' ((hmap j info').mp hj).2 ((hmap k info'').mp hk).2 heq
  · simp only [h.mem_scheduled_detach hi, hmap, h.scheduled_iff ev j, and_assoc, exists_and_left]
    exact and_comm
  · exact h.event_lt e ((h.mem_scheduled_detach hi).mp he).1
  · exact h.event_inj e ((h.mem_scheduled_detach hi).mp he).1 e'
      ((h.mem_scheduled_detach hi).mp he').1 heq

end

/-! ### The same entries -/

/-- A stale event fires. Its entry is detached and attached to the stale queue, save that
the info keeps the id of the event that has fired. -/
theorem Tracks.fire (h : Tracks p S) {ev : ℕ} (hev : (ev, i) ∈ p.scheduled)
    (hi : p.entryInfoMap i = some info) (hq : info.queueType = .fifo)
    (hinfo : info.moveStaleEventId = some ev) :
    Tracks ({ p with scheduled := p.scheduled.filter fun e => decide (e.1 ≠ ev) }.toStale i info)
      S := by
  have hd := (h.detach hi).attach (i := i) (fun hS => hS.1 rfl) .stale
  have hS : ∀ j, (j = i ∨ j ≠ i ∧ S j) ↔ S j := by
    intro j
    by_cases hj : j = i
    · subst hj
      simpa using (h.info_iff j).mp ⟨info, hi⟩
    · simp [hj]
  have hd := hd.congr hS
  generalize hp' : { p with scheduled := p.scheduled.filter fun e => decide (e.1 ≠ ev) }.toStale i
    info = p'
  generalize hd' : (p.detach i info).attach i .stale = d at hd
  have hqueues : p'.queues = d.queues := by
    rw [← hp', ← hd']
    show update _ QueueType.stale _ = update _ QueueType.stale _
    dsimp only [PriorityFifo.detach]
    rw [hq, update_of_ne (by simp)]
  have hscheduled : p'.scheduled = d.scheduled := by
    rw [← hp', ← hd']
    simp [toStale, PriorityFifo.attach, PriorityFifo.detach, hq, hinfo]
  have hnext : p'.nextNode = d.nextNode := by rw [← hp', ← hd']; rfl
  -- the two maps agree but for the event of `i`, which is not in `QUEUE_FIFO` any more
  have hself : p'.entryInfoMap i = some ⟨.stale, p.nextNode, info.moveStaleEventId⟩ := by
    rw [← hp']
    exact update_self i _ _
  have hself' : d.entryInfoMap i = some ⟨.stale, p.nextNode, none⟩ := by
    rw [← hd']
    exact update_self i _ _
  have hother : ∀ j, j ≠ i → p'.entryInfoMap j = d.entryInfoMap j := by
    intro j hj
    rw [← hp', ← hd']
    show update _ i _ j = update _ i _ j
    rw [update_of_ne hj, update_of_ne hj]
    exact (update_of_ne hj _ _).symm
  have hmap : ∀ j info', p'.entryInfoMap j = some info' → ∃ info'', d.entryInfoMap j = some info'' ∧
      info''.queueType = info'.queueType ∧ info''.queueIt = info'.queueIt ∧
      (info'.queueType = .fifo → info'' = info') := by
    intro j info' hj
    by_cases hji : j = i
    · subst hji
      rw [hself] at hj
      obtain rfl := some.inj hj
      exact ⟨_, hself', rfl, rfl, fun hfifo => by cases hfifo⟩
    · rw [hother j hji] at hj
      exact ⟨info', hj, rfl, rfl, fun _ => rfl⟩
  have hmap' : ∀ j info'', d.entryInfoMap j = some info'' →
      ∃ info', p'.entryInfoMap j = some info' ∧
      info''.queueType = info'.queueType ∧ info''.queueIt = info'.queueIt ∧
      (info''.queueType = .fifo → info'' = info') := by
    intro j info'' hj
    by_cases hji : j = i
    · subst hji
      rw [hself'] at hj
      obtain rfl := some.inj hj
      exact ⟨_, hself, rfl, rfl, fun hfifo => by cases hfifo⟩
    · rw [← hother j hji] at hj
      exact ⟨info'', hj, rfl, rfl, fun _ => rfl⟩
  refine ⟨fun j => ?_, fun q node => ?_, fun q => ?_, fun j info' hj => ?_,
    fun j k info' info'' hj hk heq => ?_, fun ev' j => ?_, fun e he => ?_,
    fun e he e' he' heq => ?_⟩
  · -- the maps have the same entries
    rw [← hd.info_iff j]
    constructor
    · rintro ⟨info', hj⟩
      obtain ⟨info'', hj', -⟩ := hmap j info' hj
      exact ⟨info'', hj'⟩
    · rintro ⟨info'', hj⟩
      obtain ⟨info', hj', -⟩ := hmap' j info'' hj
      exact ⟨info', hj'⟩
  · -- in the same places
    rw [hqueues, hd.node_iff q node]
    constructor
    · rintro ⟨info'', hj, rfl, hid⟩
      obtain ⟨info', hj', hqt, hit, -⟩ := hmap' _ info'' hj
      exact ⟨info', hj', hqt.symm, hit.symm.trans hid⟩
    · rintro ⟨info', hj, rfl, hid⟩
      obtain ⟨info'', hj', hqt, hit, -⟩ := hmap _ info' hj
      exact ⟨info'', hj', hqt, hit.trans hid⟩
  · rw [hqueues]
    exact hd.nodup q
  · obtain ⟨info'', hj', -, hit, -⟩ := hmap j info' hj
    rw [hnext, ← hit]
    exact hd.queueIt_lt j info'' hj'
  · obtain ⟨infoj, hj', -, hitj, -⟩ := hmap j info' hj
    obtain ⟨infok, hk', -, hitk, -⟩ := hmap k info'' hk
    exact hd.queueIt_inj j k infoj infok hj' hk' (hitj.trans (heq.trans hitk.symm))
  · -- and the entries of `QUEUE_FIFO` have the same events
    rw [hscheduled, hd.scheduled_iff ev' j]
    constructor
    · rintro ⟨info'', hj, hfifo, hev'⟩
      obtain ⟨info', hj', -, -, heq⟩ := hmap' j info'' hj
      obtain rfl := heq hfifo
      exact ⟨info'', hj', hfifo, hev'⟩
    · rintro ⟨info', hj, hfifo, hev'⟩
      obtain ⟨info'', hj', -, -, heq⟩ := hmap j info' hj
      obtain rfl := heq hfifo
      exact ⟨info'', hj', hfifo, hev'⟩
  · rw [← hp'] at he
    show e.1 < p'.nextEvent
    rw [← hp']
    exact h.event_lt e (mem_of_mem_filter he)
  · rw [← hp'] at he he'
    exact h.event_inj e (mem_of_mem_filter he) e' (mem_of_mem_filter he') heq

/-! ### The nodes of all queues -/

/-- The nodes in the order in which evictions should take them. -/
def allNodes (queues : QueueType → List QueueNode) : List QueueNode :=
  queues .unsolicited ++ (queues .stale ++ (queues .fifo ++ queues .agent))

/-- An entry is in one queue only. -/
theorem Tracks.disjoint (h : Tracks p S) {q' : QueueType} (hne : q ≠ q') (hnode : node ∈ p.queues q)
    (hnode' : node' ∈ p.queues q') : node.entry ≠ node'.entry := by
  intro heq
  obtain ⟨info, hinfo, hq, -⟩ := (h.node_iff q node).mp hnode
  obtain ⟨info', hinfo', hq', -⟩ := (h.node_iff q' node').mp hnode'
  rw [heq] at hinfo
  obtain rfl := some.inj (hinfo.symm.trans hinfo')
  exact hne (hq.symm.trans hq')

/-- An entry has one node only. -/
theorem Tracks.entry_inj (h : Tracks p S) (hnode : node ∈ p.queues q) (hnode' : node' ∈ p.queues q)
    (heq : node.entry = node'.entry) : node = node' := by
  obtain ⟨info, hinfo, -, hid⟩ := (h.node_iff q node).mp hnode
  have hid' := ((h.entry_eq_iff hinfo hnode').mp heq.symm).2
  cases node
  cases node'
  exact congrArg₂ QueueNode.mk (hid.symm.trans hid'.symm) heq

/-- All nodes are of different entries. -/
theorem Tracks.nodup_entries (h : Tracks p S) :
    ((allNodes p.queues).map QueueNode.entry).Nodup := by
  have hone : ∀ q, ((p.queues q).map QueueNode.entry).Nodup := fun q =>
    List.Nodup.map_on (fun _ hx _ hy heq => h.entry_inj hx hy heq) (h.nodup q)
  have htwo : ∀ q q', q ≠ q' → List.Disjoint ((p.queues q).map QueueNode.entry)
      ((p.queues q').map QueueNode.entry) := by
    intro q q' hne i hi hi'
    obtain ⟨node, hnode, rfl⟩ := mem_map.mp hi
    obtain ⟨node', hnode', heq⟩ := mem_map.mp hi'
    exact h.disjoint hne hnode hnode' heq.symm
  simp only [allNodes, map_append, nodup_append', disjoint_append_right]
  exact ⟨hone _, ⟨hone _, ⟨hone _, hone _, htwo _ _ (by simp)⟩, htwo _ _ (by simp),
    htwo _ _ (by simp)⟩, htwo _ _ (by simp), htwo _ _ (by simp), htwo _ _ (by simp)⟩

theorem mem_allNodes {queues : QueueType → List QueueNode} :
    node ∈ allNodes queues ↔ ∃ q, node ∈ queues q := by
  simp only [allNodes, mem_append]
  constructor
  · rintro (h | h | h | h)
    · exact ⟨_, h⟩
    · exact ⟨_, h⟩
    · exact ⟨_, h⟩
    · exact ⟨_, h⟩
  · rintro ⟨q, h⟩
    cases q <;> simp [h]

/-- The queues have as many nodes as there are entries. -/
theorem Tracks.length_eq {refs : List EntryRef} (h : Tracks p (· ∈ refs)) (hrefs : refs.Nodup) :
    refs.length = (allNodes p.queues).length := by
  have hperm : refs.Perm ((allNodes p.queues).map QueueNode.entry) := by
    rw [perm_ext_iff_of_nodup hrefs h.nodup_entries]
    intro i
    rw [← h.info_iff i, mem_map]
    constructor
    · rintro ⟨info, hi⟩
      exact ⟨_, mem_allNodes.mpr ⟨_, h.node_mem hi⟩, rfl⟩
    · rintro ⟨node, hnode, rfl⟩
      obtain ⟨q, hnode⟩ := mem_allNodes.mp hnode
      obtain ⟨info, hinfo, -⟩ := (h.node_iff q node).mp hnode
      exact ⟨info, hinfo⟩
  rw [hperm.length_eq, length_map]

end Tracks

/-! ### What the policy is to guarantee -/

/-- The front of the first queue that is not empty. -/
def firstFront (queues : QueueType → List QueueNode) : Option EntryRef :=
  (allNodes queues).head?.map QueueNode.entry

/-- The eviction took the front of the first queue that was not empty. -/
def Eviction.FrontFirst (ev : Eviction) : Prop :=
  firstFront ev.before.policy.queues = some ev.victim

/-- One node in all the queues has the entry, in the place its `EntryInfo` records. -/
def InOneQueue (p : PriorityFifo) (i : EntryRef) : Prop :=
  ∃ info, p.entryInfoMap i = some info ∧ ∀ q,
    (p.queues q).filter (fun node => decide (node.entry = i)) =
      if q = info.queueType then [⟨info.queueIt, i⟩] else []

/-- What is to hold of the store between two calls. -/
structure Good (cs : Cs PriorityFifo) : Prop where
  inOneQueue : ∀ i ∈ cs.table.refs, InOneQueue cs.policy i
  onlyEntries : ∀ q, ∀ node ∈ cs.policy.queues q, node.entry ∈ cs.table.refs
  size_le : cs.table.size ≤ cs.limit

/-- Every call of the run returns, to a store in which all is well, and evicts in the
order of the queues. -/
def BehavesWell (cs : Cs PriorityFifo) (ops : List (Op ℕ)) : Prop :=
  cs.RunsWith priorityFifo (fun _ _ _ cs' evs => Good cs' ∧ ∀ ev ∈ evs, ev.FrontFirst) [] ops

/-- The number of agent entries. -/
def agents (cs : Cs PriorityFifo) : ℕ := (cs.policy.queues .agent).length

/-- The agent entries fit the limit: a new one has room beside the others, and a new
limit holds them all. -/
def Fits (cs : Cs PriorityFifo) : Op ℕ → Prop
  | .insert data _ isAgent _ _ =>
    cs.admits data = true → data.ref ∉ cs.table.refs → isAgent = true → agents cs + 1 ≤ cs.limit
  | .setLimit nMaxPackets => agents cs ≤ nMaxPackets
  | _ => True

/-- What the calls keep. -/
structure Inv (cs : Cs PriorityFifo) : Prop where
  tracks : Tracks cs.policy (· ∈ cs.table.refs)
  size_le : cs.table.size ≤ cs.limit

theorem Tracks.inOneQueue {p : PriorityFifo} {S : EntryRef → Prop} (h : Tracks p S) {i : EntryRef}
    (hi : S i) : InOneQueue p i := by
  obtain ⟨info, hinfo⟩ := (h.info_iff i).mpr hi
  refine ⟨info, hinfo, fun q => ?_⟩
  split
  · next hq =>
    subst hq
    rw [← perm_singleton, perm_ext_iff_of_nodup ((h.nodup _).filter _)
      (nodup_singleton _)]
    intro node
    rw [mem_filter, decide_eq_true_eq, mem_singleton]
    constructor
    · rintro ⟨hnode, heq⟩
      exact h.entry_inj hnode (h.node_mem hinfo) heq
    · rintro rfl
      exact ⟨h.node_mem hinfo, rfl⟩
  · next hq =>
    refine filter_eq_nil_iff.mpr fun node hnode => ?_
    rw [decide_eq_true_eq, h.entry_eq_iff hinfo hnode]
    exact fun heq => hq heq.1

theorem Inv.good {cs : Cs PriorityFifo} (h : Inv cs) : Good cs where
  inOneQueue _ hi := h.tracks.inOneQueue hi
  onlyEntries q node hnode := by
    obtain ⟨info, hinfo, -⟩ := (h.tracks.node_iff q node).mp hnode
    exact (h.tracks.info_iff _).mp ⟨info, hinfo⟩
  size_le := h.size_le

theorem init_inv (nMaxPackets : ℕ) : Inv (Cs.init nMaxPackets init) where
  tracks := init_tracks.congr fun j => by simp [Cs.init, Table.empty, Table.refs]
  size_le := Nat.zero_le _

/-! ### Evictions -/

section Evictions

variable {cs : Cs PriorityFifo} {i : EntryRef} {info : EntryInfo} {S : EntryRef → Prop}

/-- `detachQueue` succeeds for an entry that is tracked. -/
theorem detachQueue_ok (cs : Cs PriorityFifo) (h : Tracks cs.policy S)
    (hi : cs.policy.entryInfoMap i = some info) :
    detachQueue i cs = .ok { cs with policy := cs.policy.detach i info } := by
  rw [detachQueue, hi]
  exact if_pos ⟨_, h.node_mem hi, rfl⟩

/-- `attachQueue` succeeds for an entry that is not. -/
theorem attachQueue_ok (cs : Cs PriorityFifo) (isAgent : Bool) (now : ℕ)
    (h : Tracks cs.policy S) (hi : ¬ S i) (hmem : i ∈ cs.table.refs) :
    ∃ queueType, attachQueue i isAgent now cs =
        .ok { cs with policy := cs.policy.attach i queueType } ∧
      (queueType = .agent ↔ isAgent = true) := by
  have hnone : (cs.policy.entryInfoMap i).isSome = false := by
    cases hmap : cs.policy.entryInfoMap i with
    | none => rfl
    | some info => exact absurd ((h.info_iff i).mp ⟨info, hmap⟩) hi
  obtain ⟨entry, hentry⟩ := Option.isSome_iff_exists.mp (Table.get?_isSome_iff.mpr hmem)
  refine ⟨queueOf entry isAgent now, ?_, ?_⟩
  · rw [attachQueue, hnone, if_neg Bool.false_ne_true, hentry]
  · cases isAgent with
    | true => exact iff_of_true rfl rfl
    | false =>
      refine iff_of_false ?_ Bool.false_ne_true
      rw [queueOf, if_neg Bool.false_ne_true]
      split
      · simp
      · split <;> simp

/-- The agent queue after an entry has been attached. -/
theorem length_agent_attach (p : PriorityFifo) (i : EntryRef) (qt : QueueType) :
    ((p.attach i qt).queues .agent).length =
      (p.queues .agent).length + if qt = .agent then 1 else 0 := by
  by_cases hq : qt = .agent
  · subst hq; simp [attach]
  · show (update p.queues qt _ QueueType.agent).length = _
    rw [update_of_ne (fun h => hq h.symm), if_neg hq, Nat.add_zero]

/-- `evictOne` takes the front of a queue of non-agents, or there is no such queue. -/
theorem evictOne_cases (h : Tracks cs.policy (· ∈ cs.table.refs)) (hpos : 0 < cs.table.size) :
    (∃ i info, firstFront cs.policy.queues = some i ∧ cs.policy.entryInfoMap i = some info ∧
      info.queueType ≠ .agent ∧ evictOne cs =
        .ok ({ cs with table := cs.table.erase i, policy := cs.policy.detach i info }, ⟨cs, i⟩)) ∨
    (cs.table.size = agents cs ∧ evictOne cs = .error .undefined) := by
  -- the front of a queue, once the queues before it are known to be empty
  have hfront : ∀ q node rest, q ≠ QueueType.agent → cs.policy.queues q = node :: rest →
      chosen cs.policy.queues = some node.entry →
      (allNodes cs.policy.queues).head? = some node →
      ∃ i info, firstFront cs.policy.queues = some i ∧ cs.policy.entryInfoMap i = some info ∧
        info.queueType ≠ .agent ∧ evictOne cs =
          .ok ({ cs with table := cs.table.erase i, policy := cs.policy.detach i info },
            ⟨cs, i⟩) := by
    intro q node rest hq hqueue hchosen hhead
    have hnode : node ∈ cs.policy.queues q := by rw [hqueue]; exact mem_cons_self
    obtain ⟨info, hinfo, rfl, -⟩ := (h.node_iff q node).mp hnode
    refine ⟨node.entry, info, by rw [firstFront, hhead]; rfl, hinfo, hq, ?_⟩
    have hsome : ¬ ((cs.policy.queues .unsolicited).isEmpty ∧ (cs.policy.queues .stale).isEmpty ∧
        (cs.policy.queues .fifo).isEmpty ∧ (cs.policy.queues .agent).isEmpty) := by
      rintro ⟨hu, hs, hf, ha⟩
      have hnil : cs.policy.queues info.queueType = [] := by
        cases info.queueType
        · exact isEmpty_iff.mp hu
        · exact isEmpty_iff.mp hs
        · exact isEmpty_iff.mp hf
        · exact isEmpty_iff.mp ha
      rw [hnil] at hqueue
      cases hqueue
    rw [evictOne, if_neg hsome, hchosen]
    dsimp only
    rw [detachQueue_ok cs h hinfo]
    rfl
  cases hu : cs.policy.queues .unsolicited with
  | cons node rest =>
    exact Or.inl (hfront .unsolicited node rest (by simp) hu (by simp [chosen, hu])
      (by simp [allNodes, hu]))
  | nil =>
    cases hs : cs.policy.queues .stale with
    | cons node rest =>
      exact Or.inl (hfront .stale node rest (by simp) hs (by simp [chosen, hu, hs])
        (by simp [allNodes, hu, hs]))
    | nil =>
      cases hf : cs.policy.queues .fifo with
      | cons node rest =>
        exact Or.inl (hfront .fifo node rest (by simp) hf (by simp [chosen, hu, hs, hf])
          (by simp [allNodes, hu, hs, hf]))
      | nil =>
        -- only agents are left, and no branch of the source takes one
        have hlen : cs.table.size = agents cs := by
          rw [← Table.length_refs, h.length_eq cs.table.refs_nodup]
          simp [allNodes, hu, hs, hf, agents]
        have hagent : (cs.policy.queues .agent).isEmpty = false := by
          rw [hlen, agents] at hpos
          simpa using ne_nil_of_length_pos hpos
        refine Or.inr ⟨hlen, ?_⟩
        rw [evictOne, if_neg fun hall => by
          rw [hagent] at hall; exact Bool.false_ne_true hall.2.2.2]
        simp [chosen, hu, hs, hf]

/-- Agents are among the entries. -/
theorem agents_le (h : Tracks cs.policy (· ∈ cs.table.refs)) : agents cs ≤ cs.table.size := by
  rw [← Table.length_refs, h.length_eq cs.table.refs_nodup]
  simp only [allNodes, length_append, agents]
  omega

/-- The queue of agents stays when an entry of another queue leaves. -/
theorem agents_detach (hq : info.queueType ≠ .agent) :
    (cs.policy.detach i info).queues .agent = cs.policy.queues .agent :=
  update_of_ne (fun h => hq h.symm) _ _

/-- **The loop of `evictEntries`**: it brings the store down to the limit when the agents
fit, and otherwise comes to a store of agents only. -/
theorem evictLoop_cases (fuel : ℕ) (cs : Cs PriorityFifo)
    (h : Tracks cs.policy (· ∈ cs.table.refs)) (hfuel : cs.table.size - cs.limit ≤ fuel) :
    (agents cs ≤ cs.limit ∧ ∃ cs' evs, evictLoop fuel cs = .ok (cs', evs) ∧ Inv cs' ∧
      ∀ ev ∈ evs, ev.FrontFirst) ∨
    (cs.limit < agents cs ∧ evictLoop fuel cs = .error .undefined) := by
  induction fuel generalizing cs with
  | zero =>
    have hle : ¬ cs.limit < cs.table.size := by omega
    refine Or.inl ⟨Nat.le_trans (agents_le h) (by omega), cs, [], ?_, ⟨h, by omega⟩, ?_⟩
    · rw [evictLoop, if_neg hle]
    · exact fun ev hev => absurd hev not_mem_nil
  | succ fuel ih =>
    by_cases hlt : cs.limit < cs.table.size
    · rcases evictOne_cases h (by omega) with ⟨i, info, hfirst, hinfo, hq, hone⟩ | ⟨hlen, hone⟩
      · have hmem : i ∈ cs.table.refs := (h.info_iff i).mp ⟨info, hinfo⟩
        have hsize := Table.size_erase hmem
        have h' : Tracks (cs.policy.detach i info) (· ∈ (cs.table.erase i).refs) :=
          (h.detach hinfo).congr fun j => Table.mem_refs_erase.symm
        have hsame : agents { cs with
            table := cs.table.erase i, policy := cs.policy.detach i info } = agents cs :=
          congrArg List.length (agents_detach hq)
        -- the rest of the loop starts in a smaller store with the same agents
        have hrest := ih { cs with table := cs.table.erase i, policy := cs.policy.detach i info } h'
          (by show (cs.table.erase i).size - cs.limit ≤ fuel; omega)
        rcases hrest with ⟨hfit, cs', evs, hloop, hinv, hevs⟩ | ⟨hover, hloop⟩
        · refine Or.inl ⟨hsame ▸ hfit, cs', ⟨cs, i⟩ :: evs, ?_, hinv, ?_⟩
          · rw [evictLoop, if_pos hlt, hone]
            simp only [bind, Except.bind, hloop]
            rfl
          · intro ev hev
            rcases mem_cons.mp hev with rfl | hev
            · exact hfirst
            · exact hevs ev hev
        · refine Or.inr ⟨hsame ▸ hover, ?_⟩
          rw [evictLoop, if_pos hlt, hone]
          simp only [bind, Except.bind, hloop]
      · refine Or.inr ⟨hlen ▸ hlt, ?_⟩
        rw [evictLoop, if_pos hlt, hone]
        rfl
    · refine Or.inl ⟨Nat.le_trans (agents_le h) (by omega), cs, [], ?_, ⟨h, by omega⟩, ?_⟩
      · rw [evictLoop, if_neg hlt]
      · exact fun ev hev => absurd hev not_mem_nil

end Evictions

/-! ### One call -/

section Step

variable {cs : Cs PriorityFifo}

/-- A call goes well, or it does not fit and runs into the iterator that is not
assigned. -/
def StepCases (cs : Cs PriorityFifo) (op : Op ℕ) : Prop :=
  (Fits cs op ∧ ∃ cs' evs, cs.step priorityFifo op = .ok (cs', evs) ∧ Inv cs' ∧
    ∀ ev ∈ evs, ev.FrontFirst) ∨
  (¬ Fits cs op ∧ cs.step priorityFifo op = .error .undefined)

/-- A step that evicts nothing and ends in a good state. -/
theorem stepCases_of_quiet {op : Op ℕ} {cs' : Cs PriorityFifo} (hfits : Fits cs op)
    (hstep : cs.step priorityFifo op = .ok (cs', [])) (hinv : Inv cs') : StepCases cs op :=
  Or.inl ⟨hfits, cs', [], hstep, hinv, fun _ hev => absurd hev not_mem_nil⟩

/-- `insert` is a step that fits. -/
theorem step_insert (h : Inv cs) (data : Data) (isUnsolicited isAgent : Bool) (now now' : ℕ) :
    StepCases cs (.insert data isUnsolicited isAgent now now') := by
  rcases Cs.insert_cases (P := priorityFifo) data isUnsolicited isAgent now now' cs with
    ⟨hadm, hstep⟩ | ⟨-, hmem, table, hrefs, hstep⟩ | ⟨hadm, hmem, table, hrefs, hstep⟩
  · -- `insert` returns early
    refine stepCases_of_quiet (fun hadm' => ?_) hstep h
    rw [hadm] at hadm'
    cases hadm'
  · -- a refresh: the entry is detached and attached again
    obtain ⟨info, hinfo⟩ := (h.tracks.info_iff data.ref).mpr hmem
    have hdetach := detachQueue_ok { cs with table := table } h.tracks hinfo
    have htracks := h.tracks.detach hinfo
    obtain ⟨queueType, hattach, -⟩ :=
      attachQueue_ok { cs with table := table, policy := cs.policy.detach data.ref info }
        isAgent now' htracks (fun hS => hS.1 rfl) (hrefs ▸ hmem)
    have hsize : table.size = cs.table.size := by
      rw [← Table.length_refs, hrefs, Table.length_refs]
    have hok : cs.step priorityFifo (.insert data isUnsolicited isAgent now now') =
        .ok ({ cs with
          table := table
          policy := (cs.policy.detach data.ref info).attach data.ref queueType }, []) := by
      refine hstep.trans ?_
      show (doAfterRefresh data.ref isAgent now' { cs with table := table }).map (·, []) = _
      rw [doAfterRefresh, hdetach]
      exact congrArg (Except.map (·, [])) hattach
    have hsame : ∀ j, (j = data.ref ∨ j ≠ data.ref ∧ j ∈ cs.table.refs) ↔ j ∈ table.refs := by
      intro j
      rw [hrefs]
      by_cases hj : j = data.ref
      · subst hj; simpa using hmem
      · simp [hj]
    exact stepCases_of_quiet (fun _ hnot => absurd hmem hnot) hok
      ⟨(htracks.attach (fun hS => hS.1 rfl) queueType).congr hsame, hsize ▸ h.size_le⟩
  · -- a new entry: it is attached, and the store is brought down to the limit
    have hnew : ∀ j, (j = data.ref ∨ j ∈ cs.table.refs) ↔ j ∈ table.refs := fun j => by
      rw [hrefs.mem_iff, mem_cons]
    obtain ⟨queueType, hattach, hagent⟩ :=
      attachQueue_ok { cs with table := table } isAgent now' h.tracks hmem
        ((hnew _).mp (Or.inl rfl))
    have htracks := (h.tracks.attach hmem queueType).congr hnew
    have hfits : Fits cs (.insert data isUnsolicited isAgent now now') ↔
        ((cs.policy.attach data.ref queueType).queues .agent).length ≤ cs.limit := by
      rw [length_agent_attach]
      cases isAgent with
      | true => simp [Fits, hadm, hmem, hagent, agents]
      | false =>
        have hle := Nat.le_trans (agents_le h.tracks) h.size_le
        simpa [Fits, hagent, agents] using hle
    have hloop := evictLoop_cases _
      { cs with table := table, policy := cs.policy.attach data.ref queueType } htracks
        (Nat.le_refl _)
    have hrun : ∀ r, evictEntries { cs with
          table := table, policy := cs.policy.attach data.ref queueType } = r →
        cs.step priorityFifo (.insert data isUnsolicited isAgent now now') = r := by
      rintro r rfl
      refine hstep.trans ?_
      show doAfterInsert data.ref isAgent now' { cs with table := table } = _
      rw [doAfterInsert, hattach]
      rfl
    rcases hloop with ⟨hle, cs', evs, hev, hinv, hevs⟩ | ⟨hlt, hev⟩
    · exact Or.inl ⟨hfits.mpr hle, cs', evs, hrun _ hev, hinv, hevs⟩
    · exact Or.inr ⟨fun hf => Nat.not_lt.mpr (hfits.mp hf) hlt, hrun _ hev⟩

/-- So is the event that moves an entry to the stale queue. -/
theorem step_event (h : Inv cs) (ev : ℕ) : StepCases cs (.event ev) := by
  have hstep : cs.step priorityFifo (.event ev) = (fire ev cs).map (·, []) := rfl
  cases hfind : cs.policy.scheduled.find? fun e => e.1 == ev with
  | none =>
    refine stepCases_of_quiet trivial (hstep.trans ?_) h
    rw [fire, hfind]
    rfl
  | some e =>
    have hmem := mem_of_find?_eq_some hfind
    have hev : e.1 = ev := by simpa using List.find?_some hfind
    subst hev
    -- the event belongs to an entry of `QUEUE_FIFO`
    obtain ⟨info, hinfo, hq, hid⟩ := (h.tracks.scheduled_iff e.1 e.2).mp hmem
    have hnode := h.tracks.node_mem hinfo
    rw [hq] at hnode
    have hok : fire e.1 cs = .ok
        { cs with
          policy := { cs.policy with
            scheduled := cs.policy.scheduled.filter fun e' =>
              decide (e'.1 ≠ e.1) }.toStale e.2 info } := by
      rw [fire, hfind]
      dsimp only
      rw [moveToStaleQueue, hinfo]
      dsimp only
      rw [if_pos hq, if_pos ⟨_, hnode, rfl⟩]
    refine stepCases_of_quiet trivial (hstep.trans (congrArg (Except.map (·, [])) hok)) ?_
    exact ⟨h.tracks.fire (i := e.2) hmem hinfo hq hid, h.size_le⟩

/-- **One call**: it goes well exactly when the agents fit. -/
theorem step_cases (h : Inv cs) (op : Op ℕ) : StepCases cs op := by
  cases op with
  | insert data isUnsolicited isAgent now now' => exact step_insert h data _ _ _ _
  | event ev => exact step_event h ev
  | erase pre limit =>
    obtain ⟨cs', hok, hinv⟩ := Cs.eraseImpl_ok (P := priorityFifo) Inv
      (fun cs i hcs hi => by
        obtain ⟨info, hinfo⟩ := (hcs.tracks.info_iff i).mpr hi
        refine ⟨{ cs with table := cs.table.erase i, policy := cs.policy.detach i info }, ?_,
          ⟨(hcs.tracks.detach hinfo).congr fun j => Table.mem_refs_erase.symm, ?_⟩,
          cs.table.refs_erase i⟩
        · show (detachQueue i cs >>= fun cs' => pure { cs' with table := cs'.table.erase i }) = _
          rw [detachQueue_ok cs hcs.tracks hinfo]
          rfl
        · have hsize := Table.size_erase hi
          have hle := hcs.size_le
          show (cs.table.erase i).size ≤ cs.limit
          omega) h pre limit
    refine stepCases_of_quiet trivial ?_ hinv
    show (Cs.eraseImpl priorityFifo pre limit cs).map (·, []) = _
    rw [hok]
    rfl
  | find interest now =>
    refine stepCases_of_quiet trivial ?_ h
    show (Cs.findImpl priorityFifo interest now cs).map (·, []) = _
    unfold Cs.findImpl
    cases hmatch : cs.findMatch interest now with
    | none => rfl
    | some i =>
      obtain ⟨info, hinfo⟩ := (h.tracks.info_iff i).mpr (Cs.findMatch_mem hmatch)
      show (doBeforeUse i cs).map (·, []) = _
      rw [doBeforeUse, hinfo]
      rfl
  | setLimit nMaxPackets =>
    rcases evictLoop_cases _ { cs with limit := nMaxPackets } h.tracks (Nat.le_refl _) with
      ⟨hle, cs', evs, hev, hinv, hevs⟩ | ⟨hlt, hev⟩
    · exact Or.inl ⟨hle, cs', evs, hev, hinv, hevs⟩
    · exact Or.inr ⟨Nat.not_le.mpr hlt, hev⟩
  | enableAdmit shouldAdmit => exact stepCases_of_quiet trivial rfl ⟨h.tracks, h.size_le⟩
  | enableServe shouldServe => exact stepCases_of_quiet trivial rfl ⟨h.tracks, h.size_le⟩

end Step

/-! ### Runs -/

/-- **The policy does its work exactly when the agents fit** the limit at every call of
the run. -/
theorem priorityFifo_behavesWell_iff (nMaxPackets : ℕ) (ops : List (Op ℕ)) :
    BehavesWell (Cs.init nMaxPackets init) ops ↔
      (Cs.init nMaxPackets init).Before priorityFifo Fits ops := by
  refine Cs.runsWith_iff_before priorityFifo (fun _ => Inv) (fun _ cs op hcs => ?_)
    (fun _ cs op cs' evs hcs hfits hok => ?_) (init_inv nMaxPackets) ops
  · rcases step_cases hcs op with ⟨hfits, cs', evs, hok, hinv, hevs⟩ | ⟨hnot, herr⟩
    · exact iff_of_true ⟨cs', evs, hok, hinv.good, hevs⟩ hfits
    · refine iff_of_false ?_ hnot
      rintro ⟨cs', evs, hok, -⟩
      rw [herr] at hok
      cases hok
  · rcases step_cases hcs op with ⟨-, cs'', evs', hok', hinv, -⟩ | ⟨hnot, -⟩
    · obtain ⟨rfl, -⟩ := Prod.mk.inj (Except.ok.inj (hok.symm.trans hok'))
      exact hinv
    · exact absurd hfits hnot

/-- Agent Data with the one-octet name `octet`. -/
def agentData (octet : UInt8) : Op ℕ :=
  .insert ⟨[⟨Ndn.tlv.GenericNameComponent, [octet]⟩], [octet], 0, false⟩ false true 0 0

/-- **Two agent entries and room for one**: the second insertion takes its victim from an
iterator that was never assigned. -/
theorem not_behavesWell_agents :
    ¬ BehavesWell (Cs.init 1 init) [agentData 0, agentData 1] := by
  rintro ⟨cs', evs, hfirst, -, cs'', evs', hsecond, -⟩
  have hboth : ((Cs.init 1 init).step priorityFifo (agentData 0) >>=
      fun r => r.1.step priorityFifo (agentData 1)) = .error .undefined := rfl
  rw [hfirst] at hboth
  have herr : cs'.step priorityFifo (agentData 1) = .error .undefined := hboth
  rw [herr] at hsecond
  cases hsecond

end Ns3Joined.ContentStore.PriorityFifo
