import Mathlib
import Ns3Joined.Wifi.WifiMacQueue

/-!
# `Insert` puts a packet where it is told to

`Insert` removes at most one packet, the victim, and then enqueues at the position, or at the one
after it if the victim was there and had expired (`insertSized_eq`). So it goes wrong only where
the victim is at the position and has not expired, which is the oldest packet of a full queue.

* `scan_eq`: the loop removes the first packet that has expired.
* `insertSized_eq`: a victim is removed, and the packet is enqueued.
* `insert_right_iff`: exactly when `Insert` does what it is to do.
* `pushFront_loses_position`: it does not for the first packet of a full queue.
-/

namespace Ns3Joined.Wifi.WifiMacQueue

open Network List ExceptFold UInt32

variable {q q' : WifiMacQueue} {now : ℤ} {pos : Option ℕ} {item x : WifiMacQueueItem} {i : ℕ}

/-! ### What `Insert` is to do -/

/-- The packet stayed in the queue for too long. -/
def Expired (q : WifiMacQueue) (now : ℤ) (item : WifiMacQueueItem) : Prop :=
  now > item.m_tstamp + q.m_maxDelay

instance (q : WifiMacQueue) (now : ℤ) (item : WifiMacQueueItem) :
    Decidable (q.Expired now item) :=
  inferInstanceAs (Decidable (_ > _))

/-- The maximum size: a null size has no effect. -/
def maximum (q : WifiMacQueue) : QueueSize :=
  if q.m_maxSize.m_value = 0 then q.queue.m_maxSize else q.m_maxSize

/-- The queue is full, of packets that have not expired. -/
structure FullOfLive (q : WifiMacQueue) (now : ℤ) : Prop where
  full : ¬ q.queue.m_nPackets < q.maximum.m_value
  live : ∀ node ∈ q.nodes, ¬ q.Expired now node.2

/-- The item is where the position pointed, among what is left of the others, in their order. -/
structure Placed (q q' : WifiMacQueue) (pos : Option ℕ) (item : WifiMacQueueItem)
    (xs ys : List (ℕ × WifiMacQueueItem)) : Prop where
  before : xs.Sublist (q.queue.m_packets.before pos)
  after : ys.Sublist (q.queue.m_packets.after pos)
  nodes : ∃ i, q'.nodes = xs ++ (i, item) :: ys
  atMostOne : q.nodes.length ≤ xs.length + ys.length + 1

/-- At most the maximum number of packets. -/
structure Bounded (q : WifiMacQueue) : Prop where
  mode : q.queue.m_maxSize.m_unit = .PACKETS
  le : q.nodes.length ≤ q.queue.m_maxSize.m_value.toNat

/-- The counter of packets is right, and not above the maximum. -/
structure WellFormed (q : WifiMacQueue) : Prop where
  counted : q.queue.Counted
  le_max : q.queue.m_maxSize.m_unit = .PACKETS →
    q.queue.m_nPackets ≤ q.queue.m_maxSize.m_value

/-- What `Insert` is to do: it returns, so it uses no position whose element it removed; the item is
placed unless `Insert` says that there is no room for it, and then the packets are as they were. -/
def RightResult (q : WifiMacQueue) (now : ℤ) (pos : Option ℕ) (item : WifiMacQueueItem)
    (result : Except Fault (WifiMacQueue × Bool)) : Prop :=
  ∃ q' inserted, result = .ok (q', inserted) ∧ q'.WellFormed ∧ q'.Bounded ∧
    (inserted = true → ∃ xs ys, Placed q q' pos item xs ys) ∧
    (inserted = false → q'.nodes = q.nodes) ∧
    (inserted = false ↔ q.FullOfLive now ∧ (q.m_dropPolicy = .DROP_NEWEST ∨ q.nodes = []))

/-- The node that is removed to make room: the first that has expired, or the first of all. -/
def victim (q : WifiMacQueue) (now : ℤ) : Option (ℕ × WifiMacQueueItem) :=
  if q.queue.m_nPackets < q.maximum.m_value then none
  else
    match q.nodes.find? fun node => decide (q.Expired now node.2) with
    | some node => some node
    | none => if q.m_dropPolicy = .DROP_OLDEST then q.nodes.head? else none

/-- When `Insert` does what it is to do: none of its assertions fails, the oldest packet is not
removed from the position itself, and the counter of packets does not wrap around. -/
structure Applies (q : WifiMacQueue) (now : ℤ) (pos : Option ℕ) : Prop where
  mode : q.queue.m_maxSize.m_unit = .PACKETS
  size : q.m_maxSize.m_value = 0 ∨
    q.m_maxSize.m_unit = .PACKETS ∧ q.queue.m_nPackets ≤ q.m_maxSize.m_value
  bytes : ∀ node ∈ q.victim now, ¬ q.queue.m_nBytes < QueueItem.GetSize node.2
  notOldest : q.FullOfLive now → q.m_dropPolicy = .DROP_OLDEST → q.nodes ≠ [] →
    pos ≠ q.queue.m_packets.first
  notWrapping : q.FullOfLive now → q.m_dropPolicy = .DROP_NEWEST →
    q.queue.m_nPackets.toNat + 1 < 2 ^ 32

/-! ### The steps of `Insert` -/

/-- A live item stays. -/
theorem TtlExceeded_of_live (hnode : (i, x) ∈ q.nodes) (hlive : ¬ q.Expired now x) :
    q.TtlExceeded now (some i) = .ok (q, some i, false) := by
  unfold TtlExceeded
  rw [NodeList.get?_of_mem hnode]
  exact if_neg hlive

/-- An expired item is removed and the position moves on. -/
theorem TtlExceeded_of_expired (hnode : (i, x) ∈ q.nodes) (hexpired : q.Expired now x) :
    q.TtlExceeded now (some i) = q.queue.DoRemove (some i) >>= fun r =>
      .ok ({ q with queue := r.1 }, q.queue.m_packets.succ i, true) := by
  unfold TtlExceeded
  rw [NodeList.get?_of_mem hnode]
  exact if_pos hexpired

/-- The victim is removed, and the item is enqueued at a position. -/
def replace (q : WifiMacQueue) (i : ℕ) (pos : Option ℕ) (item : WifiMacQueueItem) :
    Except Fault (WifiMacQueue × Bool) := do
  let r ← q.queue.DoRemove (some i)
  { q with queue := r.1 }.DoEnqueue pos item

/-- Where the item goes: the position after an expired node that is removed from the position. -/
def place (q : WifiMacQueue) (now : ℤ) (pos : Option ℕ) (node : ℕ × WifiMacQueueItem) : Option ℕ :=
  if q.Expired now node.2 ∧ pos = some node.1 then q.queue.m_packets.succ node.1 else pos

variable {node : ℕ × WifiMacQueueItem} {rest : List (ℕ × WifiMacQueueItem)}
  {r : WifiMacQueue × Bool}

/-- The first expired item found. -/
theorem of_find?_eq_some
    (h : (q.nodes.find? fun node => decide (q.Expired now node.2)) = some node) :
    node ∈ q.nodes ∧ q.Expired now node.2 := by
  have hexpired := List.find?_some h
  exact ⟨mem_of_find?_eq_some h, of_decide_eq_true hexpired⟩

/-- Where no expired item is found all are live. -/
theorem live_of_find?_eq_none
    (h : (q.nodes.find? fun node => decide (q.Expired now node.2)) = none) :
    ∀ node ∈ q.nodes, ¬ q.Expired now node.2 := fun node hnode hexpired =>
  absurd (decide_eq_true hexpired) (List.find?_eq_none.mp h node hnode)

/-- The scan removes the first expired item, if there is one. -/
theorem scan_eq (hrest : ∀ node ∈ rest, node ∈ q.nodes) :
    q.scan now pos item rest =
      match rest.find? fun node => decide (q.Expired now node.2) with
      | none => .ok none
      | some node => (q.replace node.1 (q.place now pos node) item).map some := by
  induction rest with
  | nil => rfl
  | cons node rest ih =>
    obtain ⟨i, x⟩ := node
    have hnode : (i, x) ∈ q.nodes := hrest _ mem_cons_self
    rw [scan]
    by_cases hexpired : q.Expired now x
    · rw [List.find?_cons_of_pos (by exact decide_eq_true hexpired)]
      change _ = (q.replace i (q.place now pos (i, x)) item).map some
      unfold place replace
      by_cases hpos : some i = pos
      · rw [if_pos hpos, if_pos ⟨hexpired, hpos.symm⟩, TtlExceeded_of_expired hnode hexpired]
        cases q.queue.DoRemove (some i) with
        | error e => rfl
        | ok r => rfl
      · rw [if_neg hpos, if_neg fun h => hpos h.2.symm, ExceptFold.ok_bind]
        simp only [Bool.false_eq_true, if_false, TtlExceeded_of_expired hnode hexpired]
        cases q.queue.DoRemove (some i) with
        | error e => rfl
        | ok r => rfl
    · have hlive := TtlExceeded_of_live hnode hexpired
      rw [List.find?_cons_of_neg (by rwa [decide_eq_true_eq]), hlive, ite_self,
        ExceptFold.ok_bind]
      simp only [Bool.false_eq_true, if_false, hlive, ExceptFold.ok_bind]
      exact ih fun node hnode => hrest node (mem_cons_of_mem _ hnode)

/-- The packets are counted, in packet mode, and not more than the maximum. -/
structure Sized (q : WifiMacQueue) : Prop where
  counted : q.queue.Counted
  mode : q.queue.m_maxSize.m_unit = .PACKETS
  le_max : q.queue.m_nPackets ≤ q.queue.m_maxSize.m_value
  maximum : q.maximum = q.queue.m_maxSize

/-- A victim is removed, and the item is enqueued. -/
theorem insertSized_eq (h : q.Sized) :
    q.insertSized now pos item =
      match q.victim now with
      | none => q.DoEnqueue pos item
      | some node => q.replace node.1 (q.place now pos node) item := by
  unfold insertSized victim
  rw [h.maximum]
  by_cases hroom : q.queue.m_nPackets < q.queue.m_maxSize.m_value
  · rw [if_pos hroom, if_pos hroom]
  · rw [if_neg hroom, if_neg hroom, scan_eq fun node hnode => hnode]
    cases hfind : q.nodes.find? fun node => decide (q.Expired now node.2) with
    | some node =>
      -- the first packet that has expired
      change (Except.map some _ >>= _) = q.replace node.1 (q.place now pos node) item
      cases q.replace node.1 (q.place now pos node) item with
      | error e => rfl
      | ok r => rfl
    | none =>
      have hlive := live_of_find?_eq_none hfind
      rw [ExceptFold.ok_bind]
      by_cases hold : q.m_dropPolicy = .DROP_OLDEST
      · rw [if_pos hold, if_pos hold]
        cases hnodes : q.nodes with
        | nil =>
          -- there is nothing to remove from an empty queue of maximum size 0
          have hzero : q.queue.m_nPackets = 0 := by
            rw [← UInt32.toNat_inj, h.counted]
            exact congrArg List.length hnodes
          unfold Queue.DoRemove
          rw [if_pos hzero, ExceptFold.ok_bind]
          rfl
        | cons node rest =>
          -- the oldest packet, which has not expired
          have hfirst : q.queue.m_packets.first = some node.1 := congrArg _ (congrArg _ hnodes)
          have hnode : node ∈ q.nodes := hnodes ▸ mem_cons_self
          rw [hfirst]
          unfold place
          change _ = q.replace node.1 (if _ then _ else _) item
          rw [if_neg fun hexpired => hlive node hnode hexpired.1]
          rfl
      · rw [if_neg hold, if_neg hold]

/-! ### What is enqueued, and where -/

/-- The place for the new item stays a position unless it was that of a removed live item. -/
theorem place_isPosition_iff (hnode : (i, x) ∈ q.nodes) (hpos : q.queue.m_packets.IsPosition pos) :
    (q.queue.m_packets.erase i).IsPosition (q.place now pos (i, x)) ↔
      (pos = some i → q.Expired now x) := by
  have hmem : i ∈ q.queue.m_packets.nodes.map Prod.fst := mem_map_of_mem hnode
  unfold place
  split_ifs with h
  · exact iff_of_true (NodeList.split_succ hmem).1 fun _ => h.1
  · rw [NodeList.isPosition_erase_iff hpos]
    exact ⟨fun hne heq => absurd heq hne, fun himp heq => h ⟨himp heq, heq⟩⟩

/-- What is left on the two sides of the position. -/
theorem place_splits (hnode : (i, x) ∈ q.nodes) (hpos : q.queue.m_packets.IsPosition pos)
    (hplace : (q.queue.m_packets.erase i).IsPosition (q.place now pos (i, x))) :
    ((q.queue.m_packets.erase i).before (q.place now pos (i, x))).Sublist
        (q.queue.m_packets.before pos) ∧
      ((q.queue.m_packets.erase i).after (q.place now pos (i, x))).Sublist
        (q.queue.m_packets.after pos) := by
  have hmem : i ∈ q.queue.m_packets.nodes.map Prod.fst := mem_map_of_mem hnode
  rw [place_isPosition_iff hnode hpos] at hplace
  unfold place
  split_ifs with h
  · obtain ⟨-, hbefore, hafter⟩ := NodeList.split_succ hmem
    rw [hbefore, hafter, h.2]
    exact ⟨List.Sublist.refl _, tail_sublist _⟩
  · have hne : pos ≠ some i := fun heq => h ⟨hplace heq, heq⟩
    obtain ⟨hbefore, hafter⟩ := NodeList.split_erase hpos hne
    rw [hbefore, hafter]
    exact ⟨filter_sublist, filter_sublist⟩

/-- The queue when the item is enqueued. -/
def enqueued (q : WifiMacQueue) (pos : Option ℕ) (item : WifiMacQueueItem) : WifiMacQueue :=
  { q with queue := ⟨q.queue.received (QueueItem.GetSize item),
      q.queue.m_packets.insertBefore pos item⟩ }

/-- The queue when a node is removed. -/
def without (q : WifiMacQueue) (i : ℕ) (x : WifiMacQueueItem) : WifiMacQueue :=
  { q with queue := ⟨q.queue.removed (QueueItem.GetSize x), q.queue.m_packets.erase i⟩ }

/-- The queue when an item is refused. -/
def refused (q : WifiMacQueue) (item : WifiMacQueueItem) : WifiMacQueue :=
  { q with queue := ⟨q.queue.DropBeforeEnqueue (QueueItem.GetSize item), q.queue.m_packets⟩ }

/-- With room the item goes in before the position. -/
theorem DoEnqueue_of_room (hmode : q.queue.m_maxSize.m_unit = .PACKETS)
    (hroom : ¬ q.queue.m_maxSize.m_value < q.queue.m_nPackets + 1) :
    q.DoEnqueue pos item =
      if q.queue.m_packets.IsPosition pos then .ok (q.enqueued pos item, true)
      else .error .undefined := by
  unfold DoEnqueue
  rw [Queue.DoEnqueue_of_room hmode hroom]
  split_ifs <;> rfl

/-- Without room the item is dropped. -/
theorem DoEnqueue_of_full (hmode : q.queue.m_maxSize.m_unit = .PACKETS)
    (hfull : q.queue.m_maxSize.m_value < q.queue.m_nPackets + 1) :
    q.DoEnqueue pos item = .ok (q.refused item, false) := by
  unfold DoEnqueue
  rw [Queue.DoEnqueue_of_full hmode hfull]
  rfl

/-- Replacing an item removes it and inserts the new one. -/
theorem replace_eq (h : q.Sized) (hnode : (i, x) ∈ q.nodes) :
    q.replace i pos item =
      if q.queue.m_nBytes < QueueItem.GetSize x then .error .abort
      else if (q.queue.m_packets.erase i).IsPosition pos then
        .ok ((q.without i x).enqueued pos item, true)
      else .error .undefined := by
  -- one packet fewer makes room for one more
  have hroom : ¬ q.queue.m_maxSize.m_value < q.queue.m_nPackets - 1 + 1 := by
    rw [UInt32.sub_add_cancel, UInt32.not_lt]
    exact h.le_max
  unfold replace
  rw [Queue.DoRemove_eq h.counted hnode]
  split_ifs with hbytes hplace
  · rfl
  · exact (DoEnqueue_of_room (q := q.without i x) h.mode hroom).trans (if_pos hplace)
  · exact (DoEnqueue_of_room (q := q.without i x) h.mode hroom).trans (if_neg hplace)

/-! ### When `Insert` is right -/

/-- The queue is full of live items if and only if it has no room and none is expired. -/
theorem Sized.fullOfLive_iff (h : q.Sized) : q.FullOfLive now ↔
    ¬ q.queue.m_nPackets < q.queue.m_maxSize.m_value ∧
      ∀ node ∈ q.nodes, ¬ q.Expired now node.2 := by
  rw [← h.maximum]
  exact ⟨fun hfull => ⟨hfull.full, hfull.live⟩, fun hfull => ⟨hfull.1, hfull.2⟩⟩

/-- There is no victim if and only if there is room or the new item is refused. -/
theorem victim_eq_none_iff : q.victim now = none ↔
    q.queue.m_nPackets < q.maximum.m_value ∨
      q.FullOfLive now ∧ (q.m_dropPolicy = .DROP_NEWEST ∨ q.nodes = []) := by
  unfold victim
  by_cases hroom : q.queue.m_nPackets < q.maximum.m_value
  · exact iff_of_true (if_pos hroom) (Or.inl hroom)
  · rw [if_neg hroom, or_iff_right hroom]
    cases hfind : q.nodes.find? fun node => decide (q.Expired now node.2) with
    | some node =>
      obtain ⟨hnode, hexpired⟩ := of_find?_eq_some hfind
      exact iff_of_false (Option.some_ne_none node) fun h => h.1.live node hnode hexpired
    | none =>
      have hlive := live_of_find?_eq_none hfind
      rw [and_iff_right (FullOfLive.mk hroom hlive)]
      cases hpolicy : q.m_dropPolicy with
      | DROP_NEWEST => exact iff_of_true rfl (Or.inl rfl)
      | DROP_OLDEST =>
        rw [or_iff_right (by decide)]
        exact List.head?_eq_none_iff

/-- A victim has expired, or it is the oldest of a queue that is full of live packets. -/
theorem victim_eq_some (h : q.victim now = some node) :
    node ∈ q.nodes ∧ (q.Expired now node.2 ∧ ¬ q.FullOfLive now ∨
      q.FullOfLive now ∧ q.m_dropPolicy = .DROP_OLDEST ∧
        q.queue.m_packets.first = some node.1) := by
  unfold victim at h
  by_cases hroom : q.queue.m_nPackets < q.maximum.m_value
  · rw [if_pos hroom] at h
    cases h
  · rw [if_neg hroom] at h
    cases hfind : q.nodes.find? fun node => decide (q.Expired now node.2) with
    | some other =>
      rw [hfind] at h
      obtain rfl := Option.some.inj h
      obtain ⟨hnode, hexpired⟩ := of_find?_eq_some hfind
      exact ⟨hnode, Or.inl ⟨hexpired, fun hfull => hfull.live _ hnode hexpired⟩⟩
    | none =>
      rw [hfind] at h
      have hlive := live_of_find?_eq_none hfind
      by_cases hold : q.m_dropPolicy = .DROP_OLDEST
      · have hhead : q.nodes.head? = some node := (if_pos hold).symm.trans h
        exact ⟨mem_of_mem_head? hhead,
          Or.inr ⟨⟨hroom, hlive⟩, hold, congrArg (Option.map Prod.fst) hhead⟩⟩
      · cases (if_neg hold).symm.trans h

/-- A well-formed queue that counts packets is bounded. -/
theorem WellFormed.bounded (h : q.WellFormed) (hmode : q.queue.m_maxSize.m_unit = .PACKETS) :
    q.Bounded where
  mode := hmode
  le := h.counted ▸ h.le_max hmode

/-- With room the queue stays well formed. -/
theorem Sized.enqueued_wellFormed (h : q.Sized)
    (hroom : q.queue.m_nPackets < q.queue.m_maxSize.m_value) :
    (q.enqueued pos item).WellFormed := by
  have hlt := lt_iff_toNat_lt.mp hroom
  have hbound := q.queue.m_maxSize.m_value.toNat_lt
  refine ⟨h.counted.received (by omega) _, fun _ => ?_⟩
  change q.queue.m_nPackets + 1 ≤ q.queue.m_maxSize.m_value
  rw [le_iff_toNat_le, UInt32.toNat_add]
  change (_ + 1) % 2 ^ 32 ≤ _
  omega

/-- After a replacement the queue is well formed. -/
theorem Sized.replaced_wellFormed (h : q.Sized) (hnode : (i, x) ∈ q.nodes) :
    ((q.without i x).enqueued pos item).WellFormed := by
  have hcount : (q.without i x).queue.Counted := h.counted.removed hnode _
  have hlength : (q.without i x).nodes.length + 1 = q.nodes.length :=
    NodeList.length_erase (mem_map_of_mem hnode : i ∈ _)
  have hbefore : q.queue.m_nPackets.toNat = q.nodes.length := h.counted
  have hafter : (q.without i x).queue.m_nPackets.toNat = (q.without i x).nodes.length := hcount
  have hbound := q.queue.m_nPackets.toNat_lt
  refine ⟨hcount.received (by omega) _, fun _ => ?_⟩
  change q.queue.m_nPackets - 1 + 1 ≤ q.queue.m_maxSize.m_value
  rw [UInt32.sub_add_cancel]
  exact h.le_max

/-- With room, inserting is right. -/
theorem rightResult_enqueued (h : q.Sized)
    (hroom : q.queue.m_nPackets < q.queue.m_maxSize.m_value) :
    RightResult q now pos item (.ok (q.enqueued pos item, true)) := by
  have hkeeps : (q.enqueued pos item).WellFormed := h.enqueued_wellFormed hroom
  refine ⟨_, true, rfl, hkeeps, hkeeps.bounded h.mode, fun _ => ⟨q.queue.m_packets.before pos,
    q.queue.m_packets.after pos, .refl _, .refl _, ⟨_, rfl⟩, ?_⟩, fun hfalse => (by cases hfalse),
      ?_⟩
  · rw [← length_append, NodeList.before_append_after]
    exact Nat.le_succ _
  · refine iff_of_false (by decide) fun hfull => ?_
    exact (h.fullOfLive_iff.mp hfull.1).1 hroom

/-- The item is enqueued instead of a victim. -/
theorem rightResult_replaced (h : q.Sized) (hnode : (i, x) ∈ q.nodes)
    (hpos : q.queue.m_packets.IsPosition pos)
    (hplace : (q.queue.m_packets.erase i).IsPosition (q.place now pos (i, x)))
    (hvictim : q.victim now = some (i, x)) :
    RightResult q now pos item
      (.ok ((q.without i x).enqueued (q.place now pos (i, x)) item, true)) := by
  have hkeeps : ((q.without i x).enqueued (q.place now pos (i, x)) item).WellFormed :=
    h.replaced_wellFormed hnode
  have herase : (q.queue.m_packets.erase i).nodes.length + 1 = q.nodes.length :=
    NodeList.length_erase (mem_map_of_mem hnode : i ∈ _)
  obtain ⟨hbefore, hafter⟩ := place_splits hnode hpos hplace
  refine ⟨_, true, rfl, hkeeps, hkeeps.bounded h.mode, fun _ =>
    ⟨_, _, hbefore, hafter, ⟨_, rfl⟩, ?_⟩,
    fun hfalse => (by cases hfalse), iff_of_false (by decide) fun hfull => ?_⟩
  · rw [← length_append, NodeList.before_append_after, herase]
  · rw [victim_eq_none_iff.mpr (Or.inr hfull)] at hvictim
    cases hvictim

/-- In a queue full of live items, refusing is right. -/
theorem rightResult_refused (h : q.Sized)
    (hfull : q.FullOfLive now ∧ (q.m_dropPolicy = .DROP_NEWEST ∨ q.nodes = [])) :
    RightResult q now pos item (.ok (q.refused item, false)) := by
  have hkeeps : (q.refused item).WellFormed := ⟨h.counted, fun _ => h.le_max⟩
  exact ⟨_, false, rfl, hkeeps, hkeeps.bounded h.mode, fun htrue => (by cases htrue),
    fun _ => rfl, iff_of_true rfl hfull⟩

/-- When the rest of `Insert` is right. -/
theorem insertSized_right_iff (h : q.Sized) (hpos : q.queue.m_packets.IsPosition pos) :
    RightResult q now pos item (q.insertSized now pos item) ↔
      (∀ node ∈ q.victim now, ¬ q.queue.m_nBytes < QueueItem.GetSize node.2) ∧
      (q.FullOfLive now → q.m_dropPolicy = .DROP_OLDEST → q.nodes ≠ [] →
        pos ≠ q.queue.m_packets.first) ∧
      (q.FullOfLive now → q.m_dropPolicy = .DROP_NEWEST →
        q.queue.m_nPackets.toNat + 1 < 2 ^ 32) := by
  have hcount : q.queue.m_nPackets.toNat = q.nodes.length := h.counted
  rw [insertSized_eq h]
  cases hvictim : q.victim now with
  | none =>
    rw [eq_true (fun node hnode => absurd hnode (Option.not_mem_none node) :
      ∀ node ∈ (none : Option (ℕ × WifiMacQueueItem)), _), true_and]
    obtain hroom | ⟨hfull, hwhy⟩ := victim_eq_none_iff.mp hvictim
    · -- there is room
      rw [h.maximum] at hroom
      have hnotFull : ¬ q.FullOfLive now := fun hfull => (h.fullOfLive_iff.mp hfull).1 hroom
      refine iff_of_true ?_ ⟨fun hfull => absurd hfull hnotFull, fun hfull => absurd hfull hnotFull⟩
      change RightResult q now pos item (q.DoEnqueue pos item)
      rw [DoEnqueue_of_room h.mode, if_pos hpos]
      · exact rightResult_enqueued h hroom
      · have hlt := lt_iff_toNat_lt.mp hroom
        have hbound := q.queue.m_maxSize.m_value.toNat_lt
        rw [lt_iff_toNat_lt, UInt32.toNat_add]
        change ¬ _ < (_ + 1) % 2 ^ 32
        omega
    · -- no room can be made, and the counter is about to wrap around or not
      have hmax := UInt32.le_antisymm h.le_max (UInt32.not_lt.mp (h.fullOfLive_iff.mp hfull).1)
      change RightResult q now pos item (q.DoEnqueue pos item) ↔ _
      by_cases hwrap : q.queue.m_nPackets.toNat + 1 < 2 ^ 32
      · rw [DoEnqueue_of_full h.mode]
        · refine iff_of_true (rightResult_refused h ⟨hfull, hwhy⟩) ⟨fun _ hold hne => ?_,
            fun _ _ => hwrap⟩
          obtain hnew | hempty := hwhy
          · cases hold.symm.trans hnew
          · exact absurd hempty hne
        · rw [← hmax, lt_iff_toNat_lt, UInt32.toNat_add]
          change _ < (_ + 1) % 2 ^ 32
          omega
      · rw [DoEnqueue_of_room h.mode, if_pos hpos]
        · refine iff_of_false ?_ ?_
          · rintro ⟨q', inserted, hok, -, -, -, -, hiff⟩
            obtain rfl := (Prod.mk.inj (Except.ok.inj hok)).2
            cases hiff.mpr ⟨hfull, hwhy⟩
          · rintro ⟨-, hnew⟩
            obtain hpolicy | hempty := hwhy
            · exact hwrap (hnew hfull hpolicy)
            · rw [hcount, hempty] at hwrap
              exact hwrap (by decide)
        · rw [← hmax, lt_iff_toNat_lt, UInt32.toNat_add]
          change ¬ _ < (_ + 1) % 2 ^ 32
          have hbound := q.queue.m_nPackets.toNat_lt
          omega
  | some node =>
    obtain ⟨hnode, hwhy⟩ := victim_eq_some hvictim
    have hnotNewest : q.FullOfLive now → q.m_dropPolicy = .DROP_NEWEST →
        q.queue.m_nPackets.toNat + 1 < 2 ^ 32 := by
      intro hfull hnew
      rw [victim_eq_none_iff.mpr (Or.inr ⟨hfull, Or.inl hnew⟩)] at hvictim
      cases hvictim
    -- a packet is removed, so that the policy is not `DROP_NEWEST`
    rw [and_iff_left hnotNewest]
    change RightResult q now pos item (q.replace node.1 (q.place now pos node) item) ↔ _
    rw [replace_eq h hnode]
    by_cases hbytes : q.queue.m_nBytes < QueueItem.GetSize node.2
    · -- the bytes of the queue are fewer than those of the packet
      rw [if_pos hbytes]
      refine iff_of_false ?_ fun hright => hright.1 node rfl hbytes
      rintro ⟨q', inserted, hok, -⟩
      cases hok
    · rw [if_neg hbytes]
      have hall : ∀ other ∈ some node, ¬ q.queue.m_nBytes < QueueItem.GetSize other.2 := by
        rintro other ⟨⟩
        exact hbytes
      rw [and_iff_right hall]
      by_cases hplace : (q.queue.m_packets.erase node.1).IsPosition (q.place now pos node)
      · rw [if_pos hplace]
        refine iff_of_true (rightResult_replaced h hnode hpos hplace hvictim) ?_
        intro hfull hold hne heq
        rw [place_isPosition_iff hnode hpos] at hplace
        obtain hexpired | ⟨-, -, hfirst⟩ := hwhy
        · exact hexpired.2 hfull
        · exact hfull.live node hnode (hplace (heq.trans hfirst))
      · rw [if_neg hplace]
        refine iff_of_false ?_ ?_
        · rintro ⟨q', inserted, hok, -⟩
          cases hok
        · -- the oldest packet is removed from the position
          intro hright
          refine hplace ((place_isPosition_iff hnode hpos).mpr fun heq => ?_)
          obtain hexpired | ⟨hfull, hold, hfirst⟩ := hwhy
          · exact hexpired.1
          · exact absurd (heq.trans hfirst.symm) (hright hfull hold (ne_nil_of_mem hnode))

/-! ### The maximum size is set first -/

/-- The queue when `QueueBase` has the maximum size. -/
def sized (q : WifiMacQueue) : WifiMacQueue :=
  { q with queue := { q.queue with m_maxSize := q.maximum } }

/-- The maximum does not change by being set. -/
theorem sized_maximum (q : WifiMacQueue) : q.sized.maximum = q.maximum := by
  change (if q.m_maxSize.m_value = 0 then q.maximum else q.m_maxSize) = q.maximum
  unfold maximum
  split_ifs <;> rfl

/-- Being full does not change by the size being set. -/
theorem sized_fullOfLive_iff : q.sized.FullOfLive now ↔ q.FullOfLive now := by
  constructor
  · rintro ⟨hfull, hlive⟩
    rw [sized_maximum] at hfull
    exact ⟨hfull, hlive⟩
  · rintro ⟨hfull, hlive⟩
    refine ⟨?_, hlive⟩
    rw [sized_maximum]
    exact hfull

/-- The victim does not change by the size being set. -/
theorem sized_victim (q : WifiMacQueue) (now : ℤ) : q.sized.victim now = q.victim now := by
  unfold victim
  rw [sized_maximum]
  rfl

/-- What is right does not change by the size being set. -/
theorem sized_rightResult_iff {result : Except Fault (WifiMacQueue × Bool)} :
    RightResult q.sized now pos item result ↔ RightResult q now pos item result := by
  unfold RightResult
  rw [sized_fullOfLive_iff]
  constructor
  · rintro ⟨q', inserted, hok, hwell, hbounded, hplaced, hrest⟩
    refine ⟨q', inserted, hok, hwell, hbounded, fun hinserted => ?_, hrest⟩
    obtain ⟨xs, ys, hplaced⟩ := hplaced hinserted
    exact ⟨xs, ys, hplaced.before, hplaced.after, hplaced.nodes, hplaced.atMostOne⟩
  · rintro ⟨q', inserted, hok, hwell, hbounded, hplaced, hrest⟩
    refine ⟨q', inserted, hok, hwell, hbounded, fun hinserted => ?_, hrest⟩
    obtain ⟨xs, ys, hplaced⟩ := hplaced hinserted
    exact ⟨xs, ys, hplaced.before, hplaced.after, hplaced.nodes, hplaced.atMostOne⟩

/-- The new maximum is accepted. -/
def SizeAccepted (q : WifiMacQueue) : Prop :=
  q.m_maxSize.m_value = 0 ∨ q.m_maxSize.m_unit = .PACKETS ∧ q.queue.m_nPackets ≤ q.m_maxSize.m_value

/-- The size is set where it is accepted. -/
theorem SetMaxSize_eq (h : q.SizeAccepted) :
    q.queue.SetMaxSize q.m_maxSize = .ok { q.queue.toQueueBase with m_maxSize := q.maximum } := by
  unfold QueueBase.SetMaxSize maximum
  obtain hnull | ⟨hunit, hle⟩ := h
  · rw [if_pos hnull, if_pos hnull]
  · by_cases hnull : q.m_maxSize.m_value = 0
    · rw [if_pos hnull, if_pos hnull]
    · rw [if_neg hnull, if_neg hnull]
      simp [QueueSize.lt, QueueBase.GetCurrentSize, hunit, UInt32.not_lt.mpr hle,
        ExceptFold.ok_bind]

/-- `Insert` sets the size first. -/
theorem Insert_eq (hmode : q.queue.m_maxSize.m_unit = .PACKETS) (h : q.SizeAccepted) :
    q.Insert now pos item = q.sized.insertSized now pos item := by
  unfold Insert
  rw [if_neg (not_not.mpr hmode), SetMaxSize_eq h]
  rfl

/-- A well-formed queue is sized after its size was set. -/
theorem WellFormed.sized (hwell : q.WellFormed) (hmode : q.queue.m_maxSize.m_unit = .PACKETS)
    (h : q.SizeAccepted) : q.sized.Sized where
  counted := hwell.counted
  mode := by
    change q.maximum.m_unit = .PACKETS
    unfold maximum
    split_ifs with hnull
    · exact hmode
    · exact (h.resolve_left hnull).1
  le_max := by
    change q.queue.m_nPackets ≤ q.maximum.m_value
    unfold maximum
    split_ifs with hnull
    · exact hwell.le_max hmode
    · exact (h.resolve_left hnull).2
  maximum := q.sized_maximum

/-! ### Nothing else changes the maximum size -/

/-- Removing keeps the maximum. -/
theorem DoRemove_maxSize {queue : Queue WifiMacQueueItem}
    {r : Queue WifiMacQueueItem × Option WifiMacQueueItem} (h : queue.DoRemove pos = .ok r) :
    r.1.m_maxSize = queue.m_maxSize := by
  unfold Queue.DoRemove at h
  split_ifs at h
  · cases h
    rfl
  · split at h
    · split_ifs at h
      cases h
      rfl
    · cases h

/-- Enqueueing keeps the maximum. -/
theorem DoEnqueue_maxSize (h : q.DoEnqueue pos item = .ok r) :
    r.1.queue.m_maxSize = q.queue.m_maxSize := by
  obtain ⟨r', hr', h⟩ := bind_eq_ok_iff.mp h
  cases h
  obtain ⟨full, -, hr'⟩ := bind_eq_ok_iff.mp hr'
  split_ifs at hr' <;> cases hr' <;> rfl

/-- Dropping an expired item keeps the maximum. -/
theorem TtlExceeded_maxSize {it : Option ℕ} {r : WifiMacQueue × Option ℕ × Bool}
    (h : q.TtlExceeded now it = .ok r) : r.1.queue.m_maxSize = q.queue.m_maxSize := by
  unfold TtlExceeded at h
  split at h
  · split_ifs at h
    · obtain ⟨r', hr', h⟩ := bind_eq_ok_iff.mp h
      cases h
      exact DoRemove_maxSize hr'
    · cases h
      rfl
  · cases h

/-- The scan keeps the maximum. -/
theorem scan_maxSize (h : q.scan now pos item rest = .ok (some r)) :
    r.1.queue.m_maxSize = q.queue.m_maxSize := by
  induction rest with
  | nil => cases h
  | cons node rest ih =>
    rw [scan] at h
    obtain ⟨first, hfirst, h⟩ := bind_eq_ok_iff.mp h
    have hsame : first.1.queue.m_maxSize = q.queue.m_maxSize := by
      split_ifs at hfirst
      · exact TtlExceeded_maxSize hfirst
      · cases hfirst
        rfl
    split_ifs at h
    · obtain ⟨result, hresult, h⟩ := bind_eq_ok_iff.mp h
      cases h
      exact (DoEnqueue_maxSize hresult).trans hsame
    · obtain ⟨second, hsecond, h⟩ := bind_eq_ok_iff.mp h
      split_ifs at h
      · obtain ⟨result, hresult, h⟩ := bind_eq_ok_iff.mp h
        cases h
        exact ((DoEnqueue_maxSize hresult).trans (TtlExceeded_maxSize hsecond)).trans hsame
      · exact ih h

/-- Inserting keeps the maximum. -/
theorem insertSized_maxSize (h : q.insertSized now pos item = .ok r) :
    r.1.queue.m_maxSize = q.queue.m_maxSize := by
  unfold insertSized at h
  split_ifs at h
  · exact DoEnqueue_maxSize h
  all_goals
    obtain ⟨found, hfound, h⟩ := bind_eq_ok_iff.mp h
    cases found with
    | some result =>
      cases h
      exact scan_maxSize hfound
    | none => ?_
  · obtain ⟨r', hr', h⟩ := bind_eq_ok_iff.mp h
    exact (DoEnqueue_maxSize h).trans (DoRemove_maxSize hr')
  · exact DoEnqueue_maxSize h

/-- A maximum that is not accepted stops `Insert`, or takes the queue out of packet mode. -/
theorem not_right_of_not_sizeAccepted (h : ¬ q.SizeAccepted) :
    ¬ RightResult q now pos item (q.Insert now pos item) := by
  obtain ⟨hnull, hsize⟩ := not_or.mp h
  rintro ⟨q', inserted, hok, -, hbounded, -⟩
  unfold Insert at hok
  split_ifs at hok with hmode
  obtain ⟨base, hbase, hok⟩ := bind_eq_ok_iff.mp hok
  have hunit : base.m_maxSize.m_unit = .PACKETS :=
    (congrArg QueueSize.m_unit (insertSized_maxSize hok)).symm.trans hbounded.mode
  unfold QueueBase.SetMaxSize at hbase
  rw [if_neg hnull] at hbase
  obtain ⟨less, hless, hbase⟩ := bind_eq_ok_iff.mp hbase
  split_ifs at hbase with hlt
  cases hbase
  have hpackets : q.m_maxSize.m_unit = .PACKETS := hunit
  simp only [QueueSize.lt, QueueBase.GetCurrentSize, hpackets, ne_eq, not_true_eq_false,
    if_false] at hless
  cases hless
  rw [decide_eq_true_eq, UInt32.not_lt] at hlt
  exact hsize ⟨hpackets, hlt⟩

/-! ### The claim -/

/-- `Insert` uses no position whose element it removed, keeps the order of what is left, places the
item where the position pointed, and leaves at most the maximum number of packets, exactly when
`Applies` holds. -/
theorem insert_right_iff (h : q.WellFormed) (hpos : q.queue.m_packets.IsPosition pos) :
    RightResult q now pos item (q.Insert now pos item) ↔ q.Applies now pos := by
  by_cases hmode : q.queue.m_maxSize.m_unit = .PACKETS
  · by_cases hsize : q.SizeAccepted
    · rw [Insert_eq hmode hsize, ← sized_rightResult_iff,
        insertSized_right_iff (h.sized hmode hsize) hpos, sized_victim, sized_fullOfLive_iff]
      constructor
      · rintro ⟨hbytes, hold, hnew⟩
        exact ⟨hmode, hsize, hbytes, hold, hnew⟩
      · intro happlies
        exact ⟨happlies.bytes, happlies.notOldest, happlies.notWrapping⟩
    · exact iff_of_false (not_right_of_not_sizeAccepted hsize) fun happlies => hsize happlies.size
  · refine iff_of_false ?_ fun happlies => hmode happlies.mode
    rintro ⟨q', inserted, hok, -⟩
    unfold Insert at hok
    rw [if_pos hmode] at hok
    cases hok

/-- A queue for one packet, which holds a packet of ten bytes. -/
def fullOfOne : WifiMacQueue where
  queue :=
    { m_nBytes := 10, m_nTotalReceivedBytes := 10, m_nPackets := 1, m_nTotalReceivedPackets := 1
      m_nTotalDroppedBytes := 0, m_nTotalDroppedBytesBeforeEnqueue := 0
      m_nTotalDroppedBytesAfterDequeue := 0, m_nTotalDroppedPackets := 0
      m_nTotalDroppedPacketsBeforeEnqueue := 0, m_nTotalDroppedPacketsAfterDequeue := 0
      m_maxSize := ⟨.PACKETS, 1⟩
      m_packets := (⟨[], 0, nodup_nil, forall_mem_nil _⟩ : NodeList _).insertBefore none
        ⟨2, 4, 0⟩ }
  m_maxSize := ⟨.PACKETS, 1⟩
  m_maxDelay := 500
  m_dropPolicy := .DROP_OLDEST

/-- A queue of one item that has room for one. -/
theorem fullOfOne_wellFormed : fullOfOne.WellFormed := ⟨rfl, fun _ => UInt32.le_refl _⟩

/-- At the end of the queue, the item is placed. -/
theorem insert_right_iff_end :
    fullOfOne.queue.m_packets.IsPosition none ∧
      (RightResult fullOfOne 0 none ⟨2, 4, 0⟩ (fullOfOne.Insert 0 none ⟨2, 4, 0⟩) ↔
        fullOfOne.Applies 0 none) :=
  ⟨by decide, insert_right_iff fullOfOne_wellFormed (by decide)⟩

/-- `PushFront` on a full queue that drops the oldest packet inserts before the node it erased. -/
theorem pushFront_loses_position :
    ¬ ∀ (q : WifiMacQueue) (now : ℤ) (pos : Option ℕ) (item : WifiMacQueueItem), q.WellFormed →
      q.queue.m_packets.IsPosition pos →
      RightResult q now pos item (q.Insert now pos item) := by
  intro hall
  have hundefined : fullOfOne.Insert 0 fullOfOne.queue.m_packets.first ⟨2, 4, 0⟩ =
      .error .undefined := by rfl
  obtain ⟨q', inserted, hok, -⟩ := hall fullOfOne 0 fullOfOne.queue.m_packets.first ⟨2, 4, 0⟩
    fullOfOne_wellFormed (NodeList.isPosition_first _)
  cases hundefined.symm.trans hok

end Ns3Joined.Wifi.WifiMacQueue
