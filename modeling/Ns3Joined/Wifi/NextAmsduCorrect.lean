import Ns3Joined.Wifi.FrameAggregationCorrect

/-!
# The next A-MSDU

`GetNextAmsdu` takes MSDUs from the queue as long as they fit (`aggregateNext_run`) and counts them
in 8 bits: with 256 of them it takes itself to be at the first again, which it does not remove, and
may find that it has not taken two (`nextRight_iff`).
-/

namespace Ns3Joined.Wifi

open List MsduAggregator

open PaddedFrames (layout padding)

namespace MsduAggregator

/-! ### What should be left in the queue -/

/-- Each item meets the condition behind those taken before it. -/
def Successively {α : Type*} (P : List α → α → Prop) : List α → List α → Prop
  | _, [] => True
  | taken, item :: items => P taken item ∧ Successively P (taken ++ [item]) items

/-- The prediction for the MSDU behind others. -/
def newAmsduSize (taken : List QueuedMsdu) (item : QueuedMsdu) : UInt16 :=
  GetSizeIfAggregated item.m_packet.length.toUInt16
    (amsduSize (taken.map fun item => item.m_packet.length)).toUInt16

/-- The MSDU may be aggregated behind others. -/
def Fits (txop : QosTxop) (header : DataHeader) (taken : List QueuedMsdu) (item : QueuedMsdu) :
    Prop :=
  newAmsduSize taken item ≤ txop.maxAmsduSize ∧
    txop.IsWithinSizeAndTimeLimits
      (header.GetSize + (newAmsduSize taken item).toNat + WifiMacTrailer.length) = true

/-- The MSDUs for the recipient, in the order of the queue. -/
def wanted (txop : QosTxop) (now : ℤ) (recipient : Mac48Address) (tid : ℕ) : List QueuedMsdu :=
  (txop.m_queue.nodes.map Prod.snd).filter (txop.isPeeked now tid recipient)

/-- What is no longer in the queue. -/
def gone (queue queue' : NodeList QueuedMsdu) : List (ℕ × QueuedMsdu) :=
  queue.nodes.filter fun node => node ∉ queue'.nodes

/-- What `GetNextAmsdu` should do to the queue, with what it returns. It aborts for a broadcast. -/
def NextRight (txop : QosTxop) (now : ℤ) (recipient : Mac48Address) :
    Except Fault (Option QueuedMsdu × NodeList QueuedMsdu) → Prop
  | .error _ => recipient.IsBroadcast = true
  | .ok (none, queue) =>
    ∀ node ∈ txop.m_queue.nodes, txop.isLive now node.2 = true → node ∈ queue.nodes
  | .ok (some amsdu, queue) =>
    queue.nodes <+ txop.m_queue.nodes ∧
      (∃ src dest, amsdu.m_packet = aggregateAll ((gone txop.m_queue queue).map fun node =>
        ⟨node.2.m_packet, src, dest⟩)) ∧
      Successively (fun taken item => newAmsduSize taken item ≤ txop.maxAmsduSize) []
        ((gone txop.m_queue queue).map Prod.snd)

section Successively

variable {α : Type*} {P Q : List α → α → Prop} {taken items items' : List α} {item : α}

/-- A weaker condition holds successively as well. -/
theorem Successively.imp (h : Successively P taken items)
    (himp : ∀ taken item, P taken item → Q taken item) : Successively Q taken items := by
  induction items generalizing taken with
  | nil => exact trivial
  | cons item items ih => exact ⟨himp taken item h.1, ih h.2⟩

/-- What holds successively holds at a place in the middle. -/
theorem Successively.of_append (h : Successively P taken (items ++ item :: items')) :
    P (taken ++ items) item := by
  induction items generalizing taken with
  | nil =>
    rw [append_nil]
    exact h.1
  | cons first items ih =>
    have hrest := ih h.2
    rwa [append_assoc] at hrest

end Successively

/-- The nodes that the loop erases: not one at which it counts 0. -/
def erased (n : UInt8) : List (ℕ × QueuedMsdu) → List (ℕ × QueuedMsdu)
  | [] => []
  | node :: nodes => if n = 0 then erased (n + 1) nodes else node :: erased (n + 1) nodes

/-- What is erased of a first node and the others. -/
theorem erased_cons {n : UInt8} {node : ℕ × QueuedMsdu} {nodes : List (ℕ × QueuedMsdu)} :
    erased n (node :: nodes) =
      if n = 0 then erased (n + 1) nodes else node :: erased (n + 1) nodes :=
  rfl

section Next

variable {txop : QosTxop} {now : ℤ} {recipient : Mac48Address} {tid : ℕ} {header : DataHeader}
  {s s' : NextAmsdu} {taken rest nodes : List (ℕ × QueuedMsdu)} {before : List QueuedMsdu}

/-- An MSDU with the addresses for its subframe. -/
def addressed (txop : QosTxop) (header : DataHeader) (item : QueuedMsdu) : Msdu :=
  ⟨item.m_packet, txop.MapSrcAddressForAggregation header,
    txop.MapDestAddressForAggregation header⟩

/-- The length of the A-MSDU taken so far. -/
theorem length_addressed : (aggregateAll (before.map (addressed txop header))).length =
    amsduSize (before.map fun item => item.m_packet.length) := by
  rw [length_aggregateAll, map_map]
  rfl

/-- The A-MSDU with one more MSDU. -/
theorem aggregateAll_append (item : QueuedMsdu) :
    aggregateAll ((before ++ [item]).map (addressed txop header)) =
      Aggregate item.m_packet (aggregateAll (before.map (addressed txop header)))
        (txop.MapSrcAddressForAggregation header) (txop.MapDestAddressForAggregation header) := by
  unfold aggregateAll
  rw [map_append, foldl_append]
  rfl

/-- What the loop does that takes some MSDUs and stops at the others. -/
structure Run (txop : QosTxop) (header : DataHeader) (before : List QueuedMsdu)
    (taken rest : List (ℕ × QueuedMsdu)) (s s' : NextAmsdu) : Prop where
  fits : Successively (Fits txop header) before (taken.map Prod.snd)
  stops : ∀ node nodes, rest = node :: nodes →
    ¬ Fits txop header (before ++ taken.map Prod.snd) node.2
  amsdu : s'.amsdu = aggregateAll ((before ++ taken.map Prod.snd).map (addressed txop header))
  count : s'.nMsdu = s.nMsdu + taken.length.toUInt8
  queue : s'.queue.nodes =
    s.queue.nodes.filter fun node => node.1 ∉ (erased s.nMsdu taken).map Prod.fst

/-- A node that is not for the recipient is passed over. -/
theorem aggregateNext_pass {node : ℕ × QueuedMsdu}
    (h : ¬ txop.isPeeked now tid recipient node.2 = true) :
    aggregateNext txop now recipient tid header s (node :: nodes) =
      aggregateNext txop now recipient tid header s nodes := by
  rw [aggregateNext, if_pos (Bool.eq_false_of_not_eq_true h)]

/-- Only the nodes for the recipient matter. -/
theorem aggregateNext_filter : aggregateNext txop now recipient tid header s nodes =
    aggregateNext txop now recipient tid header s
      (nodes.filter fun node => txop.isPeeked now tid recipient node.2) := by
  induction nodes generalizing s with
  | nil => rfl
  | cons node nodes ih =>
    rw [filter_cons]
    split_ifs with hpeeked
    · rw [aggregateNext, aggregateNext]
      simp only [ih]
    · rw [aggregateNext_pass hpeeked, ih]

/-- The variables once an MSDU is taken. -/
def afterTaking (txop : QosTxop) (header : DataHeader) (s : NextAmsdu) (node : ℕ × QueuedMsdu) :
    NextAmsdu where
  queue := if s.nMsdu = 0 then s.queue else s.queue.erase node.1
  amsdu := Aggregate node.2.m_packet s.amsdu (txop.MapSrcAddressForAggregation header)
    (txop.MapDestAddressForAggregation header)
  nMsdu := s.nMsdu + 1
  tstamp := max s.tstamp node.2.m_tstamp

/-- A node for the recipient is taken if and only if it fits. -/
theorem aggregateNext_cons {node : ℕ × QueuedMsdu}
    (hpeeked : txop.isPeeked now tid recipient node.2 = true)
    (hamsdu : s.amsdu = aggregateAll (before.map (addressed txop header))) :
    (Fits txop header before node.2 →
      aggregateNext txop now recipient tid header s (node :: nodes) =
        aggregateNext txop now recipient tid header (afterTaking txop header s node) nodes) ∧
    (¬ Fits txop header before node.2 →
      aggregateNext txop now recipient tid header s (node :: nodes) = s) := by
  obtain ⟨i, item⟩ := node
  have hsize : GetSizeIfAggregated item.m_packet.length.toUInt16 s.amsdu.length.toUInt16 =
      newAmsduSize before item := by
    rw [hamsdu, length_addressed]
    rfl
  unfold Fits
  rw [aggregateNext, if_neg (by simpa using hpeeked), hsize]
  dsimp only
  constructor
  · rintro ⟨hle, hwithin⟩
    rw [if_neg (UInt16.not_lt.mpr hle), if_neg (by simpa using hwithin)]
    rfl
  · intro hnot
    by_cases hlarge : newAmsduSize before item > txop.maxAmsduSize
    · rw [if_pos hlarge]
    · rw [if_neg hlarge, if_pos]
      by_contra hlimit
      exact hnot ⟨UInt16.not_lt.mp hlarge, by simpa using hlimit⟩

/-- A run ends where nothing is left or the next does not fit. -/
theorem Run.nil (hamsdu : s.amsdu = aggregateAll (before.map (addressed txop header)))
    (hstops : ∀ node nodes, rest = node :: nodes → ¬ Fits txop header before node.2) :
    Run txop header before [] rest s s := by
  refine ⟨trivial, ?_, ?_, (UInt8.add_zero _).symm, (filter_eq_self.mpr fun _ _ => rfl).symm⟩
  · rw [map_nil, append_nil]
    exact hstops
  · rw [map_nil, append_nil]
    exact hamsdu

/-- A run goes on with a node that fits. -/
theorem Run.cons {node : ℕ × QueuedMsdu} (hfits : Fits txop header before node.2)
    (h : Run txop header (before ++ [node.2]) taken rest (afterTaking txop header s node) s') :
    Run txop header before (node :: taken) rest s s' := by
  have hbefore : before ++ (node :: taken).map Prod.snd =
      before ++ [node.2] ++ taken.map Prod.snd := by
    rw [map_cons, append_assoc]
    rfl
  refine ⟨⟨hfits, h.fits⟩, ?_, ?_, ?_, ?_⟩
  · rw [hbefore]
    exact h.stops
  · rw [hbefore]
    exact h.amsdu
  · calc s'.nMsdu = s.nMsdu + 1 + taken.length.toUInt8 := h.count
      _ = s.nMsdu + (1 + taken.length.toUInt8) := UInt8.add_assoc _ _ _
      _ = s.nMsdu + (node :: taken).length.toUInt8 := by
        rw [UInt8.add_comm 1, length_cons]
        congr 1
        exact (UInt8.ofNat_add taken.length 1).symm
  · rw [h.queue]
    show (if s.nMsdu = 0 then s.queue else s.queue.erase node.1).nodes.filter
      (fun node => node.1 ∉ (erased (s.nMsdu + 1) taken).map Prod.fst) = _
    rw [erased_cons]
    split_ifs
    · rfl
    · show ((s.queue.nodes.filter _).filter _) = _
      rw [filter_filter]
      congr 1
      funext node'
      rw [map_cons, Bool.eq_iff_iff]
      simp [and_comm]

/-- **The loop** takes MSDUs as long as they fit. -/
theorem aggregateNext_run (hpeeked : ∀ node ∈ nodes, txop.isPeeked now tid recipient node.2 = true)
    (hamsdu : s.amsdu = aggregateAll (before.map (addressed txop header))) :
    ∃ taken rest, nodes = taken ++ rest ∧ Run txop header before taken rest s
      (aggregateNext txop now recipient tid header s nodes) := by
  induction nodes generalizing s before with
  | nil => exact ⟨[], [], rfl, Run.nil hamsdu nofun⟩
  | cons node nodes ih =>
    obtain ⟨hnode, hnodes⟩ := forall_mem_cons.mp hpeeked
    obtain ⟨htake, hstop⟩ := @aggregateNext_cons txop now recipient tid header s nodes before node
      hnode hamsdu
    by_cases hfits : Fits txop header before node.2
    · have hamsdu' : (afterTaking txop header s node).amsdu =
          aggregateAll ((before ++ [node.2]).map (addressed txop header)) := by
        rw [aggregateAll_append, ← hamsdu]
        rfl
      obtain ⟨taken, rest, hsplit, hrun⟩ := ih hnodes hamsdu'
      rw [htake hfits]
      exact ⟨node :: taken, rest, congrArg _ hsplit, hrun.cons hfits⟩
    · rw [hstop hfits]
      refine ⟨[], node :: nodes, rfl, Run.nil hamsdu ?_⟩
      rintro _ _ heq
      rw [← (List.cons.inj heq).1]
      exact hfits

/-! ### Which nodes are erased -/

variable {n : UInt8}

/-- What is erased was taken. -/
theorem erased_sublist : erased n nodes <+ nodes := by
  induction nodes generalizing n with
  | nil => exact .slnil
  | cons node nodes ih =>
    rw [erased_cons]
    split_ifs
    · exact ih.cons node
    · exact ih.cons_cons node

/-- Counting one more without wrap-around. -/
theorem toNat_succ (h : n.toNat + 1 < 256) : (n + 1).toNat = n.toNat + 1 := by
  rw [UInt8.toNat_add]
  exact Nat.mod_eq_of_lt h

/-- Below 256 all that was taken is erased. -/
theorem erased_eq_self (hzero : n ≠ 0) (h : n.toNat + nodes.length ≤ 256) :
    erased n nodes = nodes := by
  induction nodes generalizing n with
  | nil => rfl
  | cons node nodes ih =>
    rw [erased_cons, if_neg hzero]
    rw [length_cons] at h
    match nodes with
    | [] => rfl
    | next :: nodes =>
      have hlength : (next :: nodes).length = nodes.length + 1 := rfl
      have hsucc := toNat_succ (n := n) (by omega)
      rw [ih _ (by omega)]
      rintro hwrap
      rw [hwrap] at hsucc
      exact absurd hsucc (Nat.succ_ne_zero _).symm

/-- Where the count wraps, a node is left. -/
theorem length_erased_lt (hzero : n ≠ 0) (h : 256 < n.toNat + nodes.length) :
    (erased n nodes).length < nodes.length := by
  induction nodes generalizing n with
  | nil =>
    have hlt := n.toNat_lt
    exact absurd h (Nat.not_lt.mpr (Nat.le_of_lt hlt))
  | cons node nodes ih =>
    rw [erased_cons, if_neg hzero, length_cons, length_cons]
    rw [length_cons] at h
    refine Nat.succ_lt_succ ?_
    by_cases hwrap : n + 1 = 0
    · match nodes, h with
      | [], h =>
        have hlt := n.toNat_lt
        exact absurd h (Nat.not_lt.mpr hlt)
      | next :: nodes, _ =>
        rw [hwrap, erased_cons, if_pos rfl]
        exact Nat.lt_succ_of_le erased_sublist.length_le
    · have hsucc : (n + 1).toNat = n.toNat + 1 := by
        refine toNat_succ (Nat.lt_of_le_of_ne n.toNat_lt ?_)
        intro hmax
        refine hwrap (UInt8.toNat_inj.mp ?_)
        rw [UInt8.toNat_add]
        show (n.toNat + 1) % 256 = 0
        rw [hmax]
      exact ih hwrap (by omega)

/-- A sublist is recovered by filtering. -/
theorem filter_mem_of_sublist {α : Type*} [DecidableEq α] {l l' : List α} (h : l' <+ l)
    (hnodup : l.Nodup) : l.filter (· ∈ l') = l' := by
  induction h with
  | slnil => rfl
  | @cons l' l a hsub ih =>
    obtain ⟨hnew, hnodup⟩ := nodup_cons.mp hnodup
    rw [filter_cons_of_neg (by simpa using fun hmem => hnew (hsub.subset hmem)), ih hnodup]
  | @cons_cons l' l a hsub ih =>
    obtain ⟨hnew, hnodup⟩ := nodup_cons.mp hnodup
    rw [filter_cons_of_pos (by simp)]
    congr 1
    rw [← ih hnodup]
    refine filter_congr fun b hb => ?_
    have hne : b ≠ a := fun heq => hnew (heq ▸ hb)
    rw [ih hnodup]
    simp [hne]

/-- What has gone from the queue are the nodes taken. -/
theorem gone_eq {queue queue' : NodeList QueuedMsdu} (hsub : taken <+ queue.nodes)
    (hqueue : queue'.nodes = queue.nodes.filter fun node => node.1 ∉ taken.map Prod.fst) :
    gone queue queue' = taken := by
  unfold gone
  rw [hqueue]
  conv_rhs => rw [← filter_mem_of_sublist hsub queue.nodup.of_map]
  refine filter_congr fun node hnode => ?_
  have hmem : node.1 ∈ taken.map Prod.fst ↔ node ∈ taken := by
    constructor
    · intro hname
      obtain ⟨node', hnode', heq⟩ := mem_map.mp hname
      rwa [← inj_on_of_nodup_map queue.nodup (hsub.subset hnode') hnode heq]
    · exact fun hmem => mem_map_of_mem hmem
  simp [hnode, hmem]

/-- The first element that passes a test, and the others that do. -/
theorem dropWhile_eq_cons {α : Type*} {p : α → Bool} {l l' : List α} {a : α}
    (h : l.dropWhile (fun a => !p a) = a :: l') :
    p a = true ∧ l.filter p = a :: l'.filter p := by
  induction l with
  | nil => cases h
  | cons b l ih =>
    rw [dropWhile_cons] at h
    split_ifs at h with hb
    · rw [filter_cons_of_neg (by simpa using hb)]
      exact ih h
    · obtain ⟨rfl, rfl⟩ := List.cons.inj h
      have hp : p b = true := by simpa using hb
      exact ⟨hp, filter_cons_of_pos hp⟩

/-! ### 256 MSDUs -/

/-- The MSDUs that are taken are the most that fit. -/
theorem Run.length_iff (h : Run txop header [] taken rest s s') :
    (∀ msdus, msdus <+: (taken ++ rest).map Prod.snd → Successively (Fits txop header) [] msdus →
      msdus.length < 256) ↔ taken.length < 256 := by
  rw [map_append]
  constructor
  · intro hall
    have htaken := hall (taken.map Prod.snd) (prefix_append _ _) h.fits
    rwa [length_map] at htaken
  · intro htaken msdus hpre hfits
    by_contra hlong
    -- the first of those that are not taken would fit
    obtain ⟨others, rfl⟩ : taken.map Prod.snd <+: msdus := by
      refine prefix_of_prefix_length_le (prefix_append _ _) hpre ?_
      rw [length_map]
      omega
    have hrest := (prefix_append_right_inj _).mp hpre
    rw [length_append, length_map] at hlong
    match others, rest, hrest with
    | [], _, _ => exact hlong (by rw [length_nil]; omega)
    | item :: others, node :: rest, hrest =>
      obtain ⟨rfl, -⟩ := cons_prefix_cons.mp hrest
      exact h.stops node rest rfl hfits.of_append

/-- What is returned, and the queue, once the loop has stopped. -/
def finish (first : ℕ) (header : DataHeader) (s : NextAmsdu) :
    Option QueuedMsdu × NodeList QueuedMsdu :=
  if s.nMsdu < 2 then (none, s.queue)
  else (some ⟨s.amsdu, header, s.tstamp⟩, s.queue.erase first)

/-- Fewer MSDUs make a shorter A-MSDU. -/
theorem length_aggregateAll_lt {msdus' : List Msdu} (hsub : msdus' <+ msdus)
    (hlt : msdus'.length < msdus.length) :
    (aggregateAll msdus').length < (aggregateAll msdus).length := by
  rw [aggregateAll_eq, aggregateAll_eq]
  refine PaddedFrames.length_layout_lt ((hsub.map _).map _) (by simpa using hlt) ?_
  intro octets hoctets
  obtain ⟨frame, -, rfl⟩ := mem_map.mp hoctets
  exact ne_nil_of_length_pos (subframe_length_pos Serialize_length)

section Finish

variable {first : ℕ × QueuedMsdu} {tstamp : ℤ} {last : DataHeader}
  (h : Run txop header [] (first :: taken) rest ⟨txop.m_queue, [], 0, tstamp⟩ s)

include h

/-- The counter of the code, with wrap-around. -/
theorem Run.toNat_count : s.nMsdu.toNat = (taken.length + 1) % 256 := by
  have hcount := h.count
  rw [hcount]
  show ((0 : UInt8) + _).toNat = _
  rw [UInt8.zero_add]
  rfl

/-- The queue after a run. -/
theorem Run.queue_eq : s.queue.nodes =
    txop.m_queue.nodes.filter fun node => node.1 ∉ (erased 1 taken).map Prod.fst := h.queue

/-- The queue after the first node was erased as well. -/
theorem Run.erase_eq : (s.queue.erase first.1).nodes = txop.m_queue.nodes.filter fun node =>
    node.1 ∉ (first :: erased 1 taken).map Prod.fst := by
  show s.queue.nodes.filter (fun node => node.1 != first.1) = _
  rw [h.queue_eq, filter_filter]
  congr 1
  funext node
  rw [Bool.eq_iff_iff]
  simp

variable (hsub : first :: taken <+ txop.m_queue.nodes)

include hsub

/-- With fewer than 256 MSDUs, the loop erases those behind the first. -/
theorem Run.right_of_lt (hlt : taken.length + 1 < 256) :
    NextRight txop now recipient (.ok (finish first.1 last s)) := by
  have hcount := h.toNat_count
  rw [Nat.mod_eq_of_lt hlt] at hcount
  have herased : erased 1 taken = taken :=
    erased_eq_self (by decide) (show 1 + taken.length ≤ 256 by omega)
  unfold finish
  split_ifs with hfew
  · have hnil : taken = [] := by
      rw [UInt8.lt_iff_toNat_lt, hcount] at hfew
      exact eq_nil_of_length_eq_zero (Nat.lt_one_iff.mp (Nat.lt_of_succ_lt_succ hfew))
    intro node hnode _
    rw [h.queue_eq, herased, hnil]
    exact mem_filter.mpr ⟨hnode, rfl⟩
  · have hgone : gone txop.m_queue (s.queue.erase first.1) = first :: taken :=
      gone_eq hsub (by rw [h.erase_eq, herased])
    refine ⟨?_, ⟨txop.MapSrcAddressForAggregation header,
      txop.MapDestAddressForAggregation header, ?_⟩, ?_⟩
    · rw [h.erase_eq]
      exact filter_sublist
    · rw [hgone]
      refine h.amsdu.trans ?_
      rw [nil_append, map_map]
      rfl
    · rw [hgone]
      exact h.fits.imp fun _ _ hfits => hfits.1

/-- With 256 or more, an MSDU of the A-MSDU is still in the queue, or there is no A-MSDU. -/
theorem Run.not_right_of_ge (hlive : ∀ node ∈ taken, txop.isLive now node.2 = true)
    (hge : 256 ≤ taken.length + 1) :
    ¬ NextRight txop now recipient (.ok (finish first.1 last s)) := by
  have hcount := h.toNat_count
  unfold finish
  split_ifs with hfew
  · intro hright
    match taken, hge, hlive with
    | next :: taken, _, hlive =>
      have hnode : next ∈ txop.m_queue.nodes :=
        hsub.subset (mem_cons_of_mem _ mem_cons_self)
      have hkept := hright next hnode (hlive next mem_cons_self)
      rw [h.queue_eq] at hkept
      have herased : next.1 ∈ (erased 1 (next :: taken)).map Prod.fst := mem_cons_self
      exact of_decide_eq_true (mem_filter.mp hkept).2 herased
  · rintro ⟨-, ⟨src, dest, hamsdu⟩, -⟩
    have hsub' : first :: erased 1 taken <+ first :: taken := erased_sublist.cons_cons first
    have hgone : gone txop.m_queue (s.queue.erase first.1) = first :: erased 1 taken :=
      gone_eq (hsub'.trans hsub) h.erase_eq
    have hlt : (erased 1 taken).length < taken.length := by
      refine length_erased_lt (by decide) (show 256 < 1 + taken.length from ?_)
      rw [UInt8.lt_iff_toNat_lt, hcount] at hfew
      have htwo : (2 : UInt8).toNat = 2 := rfl
      omega
    -- the A-MSDU is longer than what has left the queue makes it
    have hlength := congrArg length hamsdu
    rw [hgone] at hlength
    have hshort : ((aggregateAll ((first :: erased 1 taken).map fun node =>
        ⟨node.2.m_packet, src, dest⟩)).length) <
        (aggregateAll (((first :: taken).map Prod.snd).map (addressed txop header))).length := by
      have haddresses : (aggregateAll ((first :: erased 1 taken).map fun node =>
          ⟨node.2.m_packet, src, dest⟩)).length = (aggregateAll
          (((first :: erased 1 taken).map Prod.snd).map (addressed txop header))).length := by
        rw [length_aggregateAll, length_aggregateAll, map_map, map_map, map_map]
        rfl
      rw [haddresses]
      refine length_aggregateAll_lt ((hsub'.map _).map _) ?_
      simpa using hlt
    have htaken : (aggregateAll (((first :: taken).map Prod.snd).map (addressed txop header))) =
        s.amsdu := h.amsdu.symm
    rw [htaken] at hshort
    exact absurd hlength (Nat.ne_of_gt hshort)

end Finish

/-- Fewer than 256 MSDUs for the recipient fit, one behind the other. -/
def Few (txop : QosTxop) (now : ℤ) (recipient : Mac48Address) (tid : ℕ) : Prop :=
  ∀ first rest, wanted txop now recipient tid = first :: rest → ∀ msdus, msdus <+: first :: rest →
    Successively (Fits txop first.m_header) [] msdus → msdus.length < 256

/-- The MSDUs wanted, in the order of the queue. -/
theorem wanted_eq : wanted txop now recipient tid = (txop.m_queue.nodes.filter fun node =>
    txop.isPeeked now tid recipient node.2).map Prod.snd := by
  unfold wanted
  rw [filter_map]
  rfl

/-- There are few if and only if fewer than 256 ever fit. -/
theorem few_iff {items : List QueuedMsdu} {item : QueuedMsdu}
    (hwanted : wanted txop now recipient tid = item :: items) :
    Few txop now recipient tid ↔ ∀ msdus, msdus <+: item :: items →
      Successively (Fits txop item.m_header) [] msdus → msdus.length < 256 := by
  constructor
  · exact fun hfew => hfew item items hwanted
  · intro hall first rest hsame
    obtain ⟨rfl, rfl⟩ := List.cons.inj (hwanted.symm.trans hsame)
    exact hall

/-- The loop from the first MSDU for the recipient. -/
theorem finish_right_iff {first : ℕ × QueuedMsdu} {tstamp : ℤ} {last : DataHeader}
    (hfirst : txop.m_queue.nodes.filter (fun node => txop.isPeeked now tid recipient node.2) =
      first :: nodes)
    (hsplit : first :: nodes = taken ++ rest)
    (h : Run txop first.2.m_header [] taken rest ⟨txop.m_queue, [], 0, tstamp⟩ s) :
    NextRight txop now recipient (.ok (finish first.1 last s)) ↔ taken.length < 256 := by
  match taken, hsplit with
  | [], _ =>
    refine iff_of_true ?_ (by decide)
    have hzero : s.nMsdu < 2 := by
      rw [h.count]
      exact (by decide : (0 : UInt8) + (0 : ℕ).toUInt8 < 2)
    unfold finish
    rw [if_pos hzero]
    intro node hnode _
    rw [h.queue]
    exact mem_filter.mpr ⟨hnode, rfl⟩
  | node :: taken, hsplit =>
    obtain ⟨rfl, hnodes⟩ := List.cons.inj hsplit
    have hpre : first :: taken <+: first :: nodes := ⟨rest, hsplit.symm⟩
    rw [← hfirst] at hpre
    have hsub : first :: taken <+ txop.m_queue.nodes := hpre.sublist.trans filter_sublist
    have hlive : ∀ node ∈ taken, txop.isLive now node.2 = true := by
      intro node hnode
      have hpeeked := (mem_filter.mp (hpre.subset (mem_cons_of_mem first hnode))).2
      exact (Bool.and_eq_true_iff.mp hpeeked).1
    constructor
    · intro hright
      by_contra hge
      exact h.not_right_of_ge hsub hlive (Nat.not_lt.mp hge) hright
    · exact h.right_of_lt hsub

/-- **`GetNextAmsdu`** is right exactly if it does not take 256 MSDUs or more. -/
theorem nextRight_iff : NextRight txop now recipient (GetNextAmsdu txop now recipient tid) ↔
    recipient.IsBroadcast = true ∨ txop.maxAmsduSize = 0 ∨ Few txop now recipient tid := by
  have hkept : NextRight txop now recipient (.ok (none, txop.m_queue)) := fun _ hnode _ => hnode
  unfold GetNextAmsdu
  by_cases hbroadcast : recipient.IsBroadcast = true
  · rw [if_pos hbroadcast]
    exact iff_of_true hbroadcast (.inl hbroadcast)
  rw [if_neg hbroadcast]
  match hpeeked : txop.m_queue.nodes.dropWhile fun node =>
      !txop.isPeeked now tid recipient node.2 with
  | [] =>
    rw [hpeeked]
    refine iff_of_true hkept (.inr (.inr ?_))
    intro first rest hwanted
    have hnone : txop.m_queue.nodes.filter (fun node => txop.isPeeked now tid recipient node.2) =
        [] := by
      refine filter_eq_nil_iff.mpr fun node hnode => ?_
      simpa using dropWhile_eq_nil_iff.mp hpeeked node hnode
    rw [wanted_eq, hnone] at hwanted
    cases hwanted
  | (i, item) :: nodes =>
    rw [hpeeked]
    dsimp only
    by_cases hzero : txop.maxAmsduSize = 0
    · rw [if_pos hzero]
      exact iff_of_true hkept (.inr (.inl hzero))
    rw [if_neg hzero]
    obtain ⟨hitem, hfirst⟩ := dropWhile_eq_cons (p := fun node : ℕ × QueuedMsdu =>
      txop.isPeeked now tid recipient node.2) hpeeked
    have hwanted := congrArg (map Prod.snd) hfirst
    rw [← wanted_eq, map_cons] at hwanted
    have hall : ∀ node ∈ (i, item) :: nodes.filter fun node =>
        txop.isPeeked now tid recipient node.2, txop.isPeeked now tid recipient node.2 = true := by
      intro node hnode
      rw [← hfirst] at hnode
      have hnode' := (mem_filter.mp hnode).2
      exact hnode'
    -- the loop passes what is not for the recipient
    rw [aggregateNext_filter, filter_cons_of_pos (p := fun node : ℕ × QueuedMsdu =>
      txop.isPeeked now tid recipient node.2) hitem]
    obtain ⟨taken, rest, hsplit, hrun⟩ := @aggregateNext_run txop now recipient tid item.m_header
      ⟨txop.m_queue, [], 0, item.m_tstamp⟩ _ [] hall rfl
    have hfew := hrun.length_iff
    rw [← hsplit, map_cons] at hfew
    have hfinish := @finish_right_iff txop now recipient tid _ taken rest _ (i, item) item.m_tstamp
      { item.m_header with m_amsduPresent := true, m_addr3 := txop.m_bssid } hfirst hsplit hrun
    rw [few_iff hwanted, hfew, or_iff_right hbroadcast, or_iff_right hzero, ← hfinish]
    unfold finish
    split_ifs <;> rfl

end Next

end MsduAggregator

/-- **Aggregation.** MPDUs go through an A-MPDU exactly if none has more than 16383 octets, MSDUs
through an A-MSDU of the predicted size exactly if it has at most 65535, and `GetNextAmsdu` does
what it should to the queue exactly if it does not take 256 MSDUs or more. -/
theorem aggregation_right_iff (isSingle : Bool) (mpdus : List Mpdu)
    (msdus : List MsduAggregator.Msdu) (txop : QosTxop) (now : ℤ) (recipient : Mac48Address)
    (tid : ℕ) :
    ((∃ ampdu, MpduAggregator.aggregateAll isSingle mpdus = .ok ampdu ∧
      MpduAggregator.Right mpdus ampdu) ↔ ∀ mpdu ∈ mpdus, mpdu.GetSize ≤ 16383) ∧
    (MsduAggregator.Right msdus ↔
      amsduSize (msdus.map fun msdu => msdu.m_packet.length) ≤ 65535) ∧
    (MsduAggregator.NextRight txop now recipient
        (MsduAggregator.GetNextAmsdu txop now recipient tid) ↔
      recipient.IsBroadcast = true ∨ txop.maxAmsduSize = 0 ∨
        MsduAggregator.Few txop now recipient tid) :=
  ⟨MpduAggregator.right_iff, right_iff, nextRight_iff⟩

/-! ### 256 small MSDUs -/

def peer : Mac48Address := ⟨fun _ => 2⟩

/-- An MSDU with an LLC header and an IP header and nothing more. -/
def smallMsdu : QueuedMsdu where
  m_packet := replicate 28 0
  m_header :=
    { m_ctrlType := 2, m_ctrlSubtype := 8, m_ctrlMoreFrag := false, m_ctrlRetry := false,
      m_addr1 := peer, m_addr2 := ⟨fun _ => 4⟩, m_seqFrag := 0, m_seqSeq := 0, m_qosTid := 0,
      m_ctrlToDs := false, m_ctrlFromDs := true, m_addr3 := ⟨fun _ => 6⟩, m_amsduPresent := false }
  m_tstamp := 0

/-- A VHT station with 256 of them in its queue, and the largest A-MSDUs. -/
def fullTxop : QosTxop where
  m_queue :=
    { nodes := (range 256).map fun i => (i, smallMsdu)
      next := 256
      nodup := by
        rw [map_map]
        exact nodup_range.map fun _ _ h => h
      lt_next := by
        intro node hnode
        obtain ⟨i, hi, rfl⟩ := mem_map.mp hnode
        exact mem_range.mp hi }
  m_maxDelay := 500
  m_typeOfStation := .AP
  m_bssid := ⟨fun _ => 4⟩
  maxAmsduSize := 11398
  IsWithinSizeAndTimeLimits _ := true

/-- The size of an A-MSDU of small MSDUs. -/
theorem newAmsduSize_small (k : ℕ) :
    newAmsduSize (replicate k smallMsdu) smallMsdu = (44 * k + 42).toUInt16 := by
  have hsize : ∀ k, amsduSize
      ((replicate (k + 1) smallMsdu).map fun item => item.m_packet.length) = 44 * k + 42 := by
    intro k
    induction k with
    | zero => rfl
    | succ k ih =>
      rw [replicate_succ', map_append]
      unfold amsduSize at ih ⊢
      rw [foldl_append, ih]
      show 44 * k + 42 + (4 - (44 * k + 42) % 4) % 4 + 14 + 28 = _
      omega
  unfold newAmsduSize
  rw [MsduAggregator.GetSizeIfAggregated_eq]
  match k with
  | 0 => rfl
  | k + 1 =>
    rw [hsize]
    unfold padding
    congr 1
    show 44 * k + 42 + (4 - (44 * k + 42) % 4) % 4 + 14 + 28 = _
    omega

/-- All of them are taken, and counted as none: 255 of them are lost. -/
theorem not_right_fullTxop : ¬ MsduAggregator.NextRight fullTxop 0 peer
    (MsduAggregator.GetNextAmsdu fullTxop 0 peer 0) := by
  have hfits : ∀ n k, k + n ≤ 256 → MsduAggregator.Successively
      (MsduAggregator.Fits fullTxop smallMsdu.m_header) (replicate k smallMsdu)
      (replicate n smallMsdu) := by
    intro n
    induction n with
    | zero => exact fun _ _ => trivial
    | succ n ih =>
      intro k hk
      refine ⟨⟨?_, rfl⟩, ?_⟩
      · rw [newAmsduSize_small, UInt16.le_iff_toNat_le]
        have hlt : 44 * k + 42 < 2 ^ 16 := by omega
        show (44 * k + 42) % 2 ^ 16 ≤ 11398
        rw [Nat.mod_eq_of_lt hlt]
        omega
      · rw [← replicate_succ']
        exact ih (k + 1) (by omega)
  have hwanted : wanted fullTxop 0 peer 0 = replicate 256 smallMsdu := by
    have hnodes : fullTxop.m_queue.nodes.map Prod.snd = replicate 256 smallMsdu := by
      show ((range 256).map fun i => (i, smallMsdu)).map Prod.snd = _
      rw [map_map]
      show (range 256).map (fun _ => smallMsdu) = _
      rw [map_const', length_range]
    unfold wanted
    rw [hnodes, filter_replicate_of_pos (by decide)]
  rw [nextRight_iff]
  rintro (hbroadcast | hzero | hfew)
  · exact absurd hbroadcast (by decide)
  · exact absurd hzero (by decide)
  · have hlt := hfew smallMsdu (replicate 255 smallMsdu) hwanted (replicate 256 smallMsdu)
      (prefix_refl _) (hfits 256 0 (by decide))
    rw [length_replicate] at hlt
    exact absurd hlt (Nat.lt_irrefl _)

end Ns3Joined.Wifi
