import Mathlib.Data.Int.Notation
import Mathlib.Tactic.Common
import Ns3Joined.Fault
import Ns3Joined.Library.KeyedFifo
import Ns3Joined.Library.TracedRun

/-!
# The queue of packets that wait for a route

`src/aodv/model/aodv-rqueue.cc`, and what `aodv-routing-protocol.cc` does with the queue: a
packet without a route waits in it until a reply comes, the search for a route is given up, its
time is over, or it is the oldest of a full queue.

A packet ends with a call of one of its two callbacks. The calls are part of what a step
returns. What the routing table answers when it is asked is an argument of the steps that ask
it.
-/

namespace Ns3Joined.Aodv

abbrev Ipv4Address := UInt32

/-- A packet. `RouteInput` is given a copy of its own, so that the tag in it belongs to this
packet alone; `tag` is the interface in its `DeferredRouteOutputTag`. -/
structure Packet where
  uid : UInt64
  data : List UInt8
  tag : Option Int32
deriving DecidableEq, Repr

/-- `RemovePacketTag`, for a `DeferredRouteOutputTag`. -/
def Packet.RemovePacketTag (p : Packet) : Packet := { p with tag := none }

/-- The fields of an `Ipv4Header` that are read or written here. -/
structure Ipv4Header where
  m_source : Ipv4Address
  m_destination : Ipv4Address
  m_ttl : UInt8
  m_protocol : UInt8
deriving DecidableEq, Repr

/-- An `Ipv4Route`; the output device may be null. -/
structure Ipv4Route where
  m_dest : Ipv4Address
  m_source : Ipv4Address
  m_gateway : Ipv4Address
  m_outputDevice : Option ℕ
deriving DecidableEq, Repr

inductive SocketErrno
  | ERROR_NOTERROR
  | ERROR_NOROUTETOHOST
deriving DecidableEq, Repr

inductive RouteFlags
  | VALID
  | INVALID
  | IN_SEARCH
deriving DecidableEq, Repr

/-- What the queue's users read of a `RoutingTableEntry`. -/
structure RoutingTableEntry where
  m_ipv4Route : Ipv4Route
  m_flag : RouteFlags
  m_reqCount : UInt8
deriving DecidableEq, Repr

/-- A `QueueEntry`. The callbacks are the numbers of function objects; times are in nanoseconds. -/
structure QueueEntry where
  m_packet : Packet
  m_header : Ipv4Header
  m_ucb : ℕ
  m_ecb : ℕ
  m_expire : ℤ
deriving DecidableEq, Repr

namespace QueueEntry

/-- The destination in the header. -/
def destination (e : QueueEntry) : Ipv4Address := e.m_header.m_destination

def SetExpireTime (e : QueueEntry) (now exp : ℤ) : QueueEntry :=
  { e with m_expire := exp + now }

def GetExpireTime (e : QueueEntry) (now : ℤ) : ℤ := e.m_expire - now

def IsExpired (now : ℤ) (e : QueueEntry) : Bool := e.GetExpireTime now < 0

end QueueEntry

/-- What happens outside the queue: the two callbacks, and what is asked of the search for
routes. `accepted` is no call: it marks that `Enqueue` has returned true for the entry. -/
inductive Action
  | accepted (e : QueueEntry)
  | unicastForward (ucb : ℕ) (route : Ipv4Route) (p : Packet) (header : Ipv4Header)
  | error (ecb : ℕ) (p : Packet) (header : Ipv4Header) (errno : SocketErrno)
  | sendRequest (dst : Ipv4Address)
  | deleteRoute (dst : Ipv4Address)
deriving DecidableEq, Repr

/-! ### `RequestQueue` -/

structure RequestQueue where
  m_queue : List QueueEntry
  m_maxLen : UInt32
  m_queueTimeout : ℤ
deriving DecidableEq, Repr

namespace RequestQueue

def Drop (en : QueueEntry) : Action :=
  .error en.m_ecb en.m_packet en.m_header .ERROR_NOROUTETOHOST

def Purge (q : RequestQueue) (now : ℤ) : RequestQueue × List Action :=
  ({ q with m_queue := q.m_queue.filter fun e => !QueueEntry.IsExpired now e },
    (q.m_queue.filter (QueueEntry.IsExpired now)).map Drop)

def GetSize (q : RequestQueue) (now : ℤ) : RequestQueue × List Action × ℕ :=
  let (q, actions) := q.Purge now
  (q, actions, q.m_queue.length)

/-- The packet and the destination are those of an entry of the queue. -/
def contains (q : RequestQueue) (entry : QueueEntry) : Bool :=
  q.m_queue.any fun i =>
    i.m_packet.uid == entry.m_packet.uid && i.destination == entry.destination

/-- `Enqueue`. In a queue that holds nothing there is no `m_queue.front ()`. -/
def Enqueue (q : RequestQueue) (now : ℤ) (entry : QueueEntry) :
    Except Fault (RequestQueue × List Action × Bool) :=
  let (q, actions) := q.Purge now
  if q.contains entry then .ok (q, actions, false)
  else
    let entry := entry.SetExpireTime now q.m_queueTimeout
    if q.m_queue.length = q.m_maxLen.toNat then
      match q.m_queue with
      | [] => .error .undefined
      | front :: rest =>
        .ok ({ q with m_queue := rest ++ [entry] }, actions ++ [Drop front, .accepted entry], true)
    else
      .ok ({ q with m_queue := q.m_queue ++ [entry] }, actions ++ [.accepted entry], true)

def DropPacketWithDst (q : RequestQueue) (now : ℤ) (dst : Ipv4Address) :
    RequestQueue × List Action :=
  let (q, actions) := q.Purge now
  ({ q with m_queue := q.m_queue.filter fun en => !decide (en.destination = dst) },
    actions ++ (q.m_queue.filter fun en => decide (en.destination = dst)).map Drop)

/-- `Dequeue`, with the entry that it finds. -/
def Dequeue (q : RequestQueue) (now : ℤ) (dst : Ipv4Address) :
    RequestQueue × List Action × Option QueueEntry :=
  let (q, actions) := q.Purge now
  let i := q.m_queue.findIdx fun en => decide (en.destination = dst)
  ({ q with m_queue := q.m_queue.eraseIdx i }, actions, q.m_queue[i]?)

end RequestQueue

/-! ### `RoutingProtocol` -/

/-- What a `RoutingProtocol` has to do with its queue. `now` is the time of the simulator, and
`interfaceForDevice` is `GetInterfaceForDevice` of `m_ipv4`. -/
structure RoutingProtocol where
  m_queue : RequestQueue
  m_rreqRetries : UInt32
  now : ℤ
  interfaceForDevice : Option ℕ → Int32

namespace RoutingProtocol

/-- A `RoutingProtocol` that has queued nothing. -/
def new (maxLen rreqRetries : UInt32) (timeout : ℤ) (interfaceForDevice : Option ℕ → Int32) :
    RoutingProtocol :=
  ⟨⟨[], maxLen, timeout⟩, rreqRetries, 0, interfaceForDevice⟩

/-- `DeferredRouteOutput`, for a packet with a tag as `RouteInput` has it. The flag is that of
the entry which `LookupRoute` finds, if it finds one. -/
def DeferredRouteOutput (r : RoutingProtocol) (p : Packet) (header : Ipv4Header) (ucb ecb : ℕ)
    (flag : Option RouteFlags) : Except Fault (RoutingProtocol × List Action) := do
  let (q, actions, result) ← r.m_queue.Enqueue r.now ⟨p, header, ucb, ecb, r.now + r.now⟩
  let r := { r with m_queue := q }
  if result && (flag != some .IN_SEARCH) then
    .ok (r, actions ++ [.sendRequest header.m_destination])
  else .ok (r, actions)

/-- The tag says that the packet is to leave by another interface than the route does. -/
def wrongInterface (r : RoutingProtocol) (route : Ipv4Route) (p : Packet) : Bool :=
  match p.tag with
  | none => false
  | some oif => oif != -1 && oif != r.interfaceForDevice route.m_outputDevice

/-- The header that a packet of the queue is forwarded with. -/
def forwardedHeader (route : Ipv4Route) (header : Ipv4Header) : Ipv4Header :=
  { header with m_source := route.m_source, m_ttl := header.m_ttl + 1 }

/-- The loop of `SendPacketFromQueue`, at most so many rounds of it. -/
def sendFromQueue (r : RoutingProtocol) (dst : Ipv4Address) (route : Ipv4Route) :
    ℕ → RequestQueue → Except Fault (RequestQueue × List Action)
  | 0, _ => .error .diverges
  | rounds + 1, q =>
    match q.Dequeue r.now dst with
    | (q, actions, none) => .ok (q, actions)
    | (q, actions, some queueEntry) =>
      let p := queueEntry.m_packet.RemovePacketTag
      -- the entry is in the queue no more, and none of its callbacks has been called
      if r.wrongInterface route queueEntry.m_packet then .ok (q, actions)
      else do
        let (q, rest) ← sendFromQueue r dst route rounds q
        .ok (q, actions ++ .unicastForward queueEntry.m_ucb route p
          (forwardedHeader route queueEntry.m_header) :: rest)

/-- `SendPacketFromQueue`. Each round takes an entry out of the queue. -/
def SendPacketFromQueue (r : RoutingProtocol) (dst : Ipv4Address) (route : Ipv4Route) :
    Except Fault (RoutingProtocol × List Action) := do
  let (q, actions) ← sendFromQueue r dst route (r.m_queue.m_queue.length + 1) r.m_queue
  .ok ({ r with m_queue := q }, actions)

/-- `m_queue.DropPacketWithDst`, after the entry for the destination has been deleted. -/
def stopSearch (r : RoutingProtocol) (dst : Ipv4Address) : RoutingProtocol × List Action :=
  let (q, actions) := r.m_queue.DropPacketWithDst r.now dst
  ({ r with m_queue := q }, .deleteRoute dst :: actions)

/-- `RouteRequestTimerExpire`. `LookupValidRoute` has answered `valid` and `toDst`. -/
def RouteRequestTimerExpire (r : RoutingProtocol) (dst : Ipv4Address) (valid : Bool)
    (toDst : RoutingTableEntry) : Except Fault (RoutingProtocol × List Action) :=
  if valid then r.SendPacketFromQueue dst toDst.m_ipv4Route
  else if toDst.m_reqCount.toNat = r.m_rreqRetries.toNat then .ok (r.stopSearch dst)
  else if toDst.m_flag = .IN_SEARCH then .ok (r, [.sendRequest dst])
  else .ok (r.stopSearch dst)

/-- What happens to a node. A reply to a request of its own, in `RecvReply`, ends with sending
the packets for its destination on the route that is then in the table. -/
inductive Event
  | pass (duration : ℕ)
  | DeferredRouteOutput (p : Packet) (header : Ipv4Header) (ucb ecb : ℕ)
      (flag : Option RouteFlags)
  | RecvReply (dst : Ipv4Address) (toDst : RoutingTableEntry)
  | RouteRequestTimerExpire (dst : Ipv4Address) (valid : Bool) (toDst : RoutingTableEntry)
  | GetSize

def step (r : RoutingProtocol) : Event → Except Fault (RoutingProtocol × List Action)
  | .pass duration => .ok ({ r with now := r.now + duration }, [])
  | .DeferredRouteOutput p header ucb ecb flag => r.DeferredRouteOutput p header ucb ecb flag
  | .RecvReply dst toDst => r.SendPacketFromQueue dst toDst.m_ipv4Route
  | .RouteRequestTimerExpire dst valid toDst => r.RouteRequestTimerExpire dst valid toDst
  | .GetSize =>
    let (q, actions, _) := r.m_queue.GetSize r.now
    .ok ({ r with m_queue := q }, actions)

end RoutingProtocol
end Ns3Joined.Aodv

/-!
## Each packet of the queue ends with one callback

For each destination, the packets that were accepted are those whose callback has been called
followed by those in the queue (`Sound.ended`). The queue is in the order of the times its
entries expire, so that the ones that `Purge` drops are the oldest.

* `Keeps.leave`, `Keeps.come`: the two ways in which the queue changes.
* `sendFromQueue_spec`: what `SendPacketFromQueue` does if no packet is for another interface,
  and that it loses one if there is one.
* `sound_iff`: over runs.
-/

namespace Ns3Joined.Aodv

open KeyedFifo List Bool

/-! ### Histories -/

/-- The entries that `Enqueue` has accepted. -/
def accepted (h : List Action) : List QueueEntry :=
  h.filterMap fun
    | .accepted e => some e
    | _ => none

/-- The calls of callbacks. -/
def callbacks (h : List Action) : List Action :=
  h.filter fun
    | .unicastForward .. | .error .. => true
    | _ => false

/-- One of the two callbacks of the entry is called, with its packet. -/
def Ends (e : QueueEntry) (a : Action) : Prop :=
  a = RequestQueue.Drop e ∨
    ∃ route, a = .unicastForward e.m_ucb route e.m_packet.RemovePacketTag
      (RoutingProtocol.forwardedHeader route e.m_header)

@[simp] theorem accepted_append (h h' : List Action) :
    accepted (h ++ h') = accepted h ++ accepted h' := filterMap_append

@[simp] theorem callbacks_append (h h' : List Action) :
    callbacks (h ++ h') = callbacks h ++ callbacks h' := filter_append ..

variable {h actions : List Action} {q : RequestQueue} {r : RoutingProtocol} {event : Event}

/-- Entries that end have their callbacks called, and none is accepted. -/
theorem callbacks_of_ends {gone : List QueueEntry} (h : List.Forall₂ Ends gone actions) :
    accepted actions = [] ∧ callbacks actions = actions := by
  induction h with
  | nil => exact ⟨rfl, rfl⟩
  | cons hends _ ih =>
    obtain rfl | ⟨route, rfl⟩ := hends
    · exact ⟨ih.1, congrArg _ ih.2⟩
    · exact ⟨ih.1, congrArg _ ih.2⟩

/-- All entries that are dropped end. -/
theorem ends_drop (gone : List QueueEntry) :
    List.Forall₂ Ends gone (gone.map RequestQueue.Drop) := by
  induction gone with
  | nil => exact .nil
  | cons e gone ih => exact .cons (.inl rfl) ih

/-- What is to hold after each step: a callback of each entry that has left the queue has been
called, in each destination's order of being queued; the queue is not too long, and holds no
two entries with the same packet and destination. -/
structure Sound (q : RequestQueue) (h : List Action) : Prop where
  ended : ∃ left, List.Forall₂ Ends left (callbacks h) ∧
    Conserved QueueEntry.destination (accepted h) left q.m_queue
  length_le : q.m_queue.length ≤ q.m_maxLen.toNat
  distinct : q.m_queue.Pairwise fun e e' =>
    ¬ (e.m_packet.uid = e'.m_packet.uid ∧ e.destination = e'.destination)

/-- What was accepted has had its callback called or is still in the queue. -/
theorem Sound.length_accepted (hs : Sound q h) :
    (accepted h).length = (callbacks h).length + q.m_queue.length := by
  obtain ⟨left, hends, hconserved⟩ := hs.ended
  rw [hconserved.perm.length_eq, length_append, hends.length_eq]

/-- The entries of the queue expire one after the other. -/
structure Keeps (q : RequestQueue) (now : ℤ) (h : List Action) : Prop extends Sound q h where
  expire : q.m_queue.Pairwise fun e e' => e.m_expire ≤ e'.m_expire
  expire_le : ∀ e ∈ q.m_queue, e.m_expire ≤ q.m_queueTimeout + now

section Queue

variable {now : ℤ}

theorem keeps_new (maxLen : UInt32) (timeout : ℤ) : Keeps ⟨[], maxLen, timeout⟩ now [] where
  ended := ⟨[], .nil, .nil⟩
  length_le := Nat.zero_le _
  distinct := .nil
  expire := .nil
  expire_le := fun _ he => absurd he not_mem_nil

/-- Time passes, and nothing else changes. -/
theorem Keeps.pass (hq : Keeps q now h) (duration : ℕ) : Keeps q (now + duration) h :=
  { hq with expire_le := fun e he => by have := hq.expire_le e he; omega }

/-- Actions that neither accept a packet nor call a callback. -/
theorem Keeps.other (hq : Keeps q now h) (actions : List Action) (ha : accepted actions = [])
    (hc : callbacks actions = []) : Keeps q now (h ++ actions) :=
  { hq with
    ended := by
      rw [accepted_append, callbacks_append, ha, hc, append_nil, append_nil]
      exact hq.ended }

/-- Entries leave the queue and end. -/
theorem Keeps.leave (hq : Keeps q now h) (gone kept : List QueueEntry)
    (hsub : kept.Sublist q.m_queue) (hends : List.Forall₂ Ends gone actions)
    (hleave : ∀ {came left}, Conserved QueueEntry.destination came left q.m_queue →
      Conserved QueueEntry.destination came (left ++ gone) kept) :
    Keeps { q with m_queue := kept } now (h ++ actions) where
  ended := by
    obtain ⟨left, hleft, hconserved⟩ := hq.ended
    obtain ⟨haccepted, hcallbacks⟩ := callbacks_of_ends hends
    refine ⟨left ++ gone, ?_, ?_⟩
    · rw [callbacks_append, hcallbacks]
      exact rel_append hleft hends
    · rw [accepted_append, haccepted, append_nil]
      exact hleave hconserved
  length_le := Nat.le_trans hsub.length_le hq.length_le
  distinct := hq.distinct.sublist hsub
  expire := hq.expire.sublist hsub
  expire_le := fun e he => hq.expire_le e (hsub.subset he)

/-- A new entry comes to the end of the queue. -/
theorem Keeps.come (hq : Keeps q now h) (entry : QueueEntry)
    (hroom : q.m_queue.length < q.m_maxLen.toNat) (hnew : q.contains entry = false) :
    Keeps { q with m_queue := q.m_queue ++ [entry.SetExpireTime now q.m_queueTimeout] } now
      (h ++ [.accepted (entry.SetExpireTime now q.m_queueTimeout)]) where
  ended := by
    obtain ⟨left, hleft, hconserved⟩ := hq.ended
    refine ⟨left, ?_, ?_⟩
    · rw [callbacks_append]
      simpa [callbacks] using hleft
    · rw [accepted_append]
      exact hconserved.come _
  length_le := by rw [length_append]; exact hroom
  distinct := by
    refine pairwise_append.mpr ⟨hq.distinct, pairwise_singleton .., fun e he e' he' => ?_⟩
    rw [mem_singleton.mp he']
    rintro ⟨huid, hdestination⟩
    have hany : q.contains entry = true := any_eq_true.mpr ⟨e, he, by
      rw [and_eq_true, beq_iff_eq, beq_iff_eq]
      exact ⟨huid, hdestination⟩⟩
    exact false_ne_true (hnew.symm.trans hany)
  expire := by
    refine pairwise_append.mpr ⟨hq.expire, pairwise_singleton .., fun e he e' he' => ?_⟩
    rw [mem_singleton.mp he']
    exact hq.expire_le e he
  expire_le := by
    intro e he
    obtain he | he := mem_append.mp he
    · exact hq.expire_le e he
    · rw [mem_singleton.mp he]
      exact Int.le_refl _

/-! ### The operations of the queue -/

/-- The queue is in the order of expiration, so that the expired entries are the first ones. -/
theorem Keeps.expired_first (hq : Keeps q now h) : q.m_queue.Pairwise fun e e' =>
    QueueEntry.IsExpired now e' = true → QueueEntry.IsExpired now e = true := by
  refine hq.expire.imp fun hle hexpired => ?_
  unfold QueueEntry.IsExpired QueueEntry.GetExpireTime at hexpired ⊢
  rw [decide_eq_true_eq] at hexpired ⊢
  omega

/-- `Purge` ends the entries that have expired. -/
theorem Keeps.Purge (hq : Keeps q now h) :
    Keeps (q.Purge now).1 now (h ++ (q.Purge now).2) :=
  hq.leave _ _ filter_sublist (ends_drop _) fun hconserved =>
    hconserved.leave_older hq.expired_first

/-- With room for an entry, or with another that makes room. -/
theorem Keeps.Enqueue (hq : Keeps q now h) (hmax : q.m_maxLen ≠ 0) (entry : QueueEntry) :
    ∃ q' actions result, q.Enqueue now entry = .ok (q', actions, result) ∧
      Keeps q' now (h ++ actions) := by
  have hpurged := hq.Purge
  unfold RequestQueue.Enqueue
  have hsame : (q.Purge now).1.m_maxLen = q.m_maxLen := rfl
  generalize q.Purge now = purged at hpurged hsame
  obtain ⟨q₁, actions⟩ := purged
  dsimp only at hpurged hsame ⊢
  by_cases hcontains : q₁.contains entry = true
  · rw [if_pos hcontains]
    exact ⟨_, _, _, rfl, hpurged⟩
  rw [if_neg hcontains]
  rw [not_eq_true] at hcontains
  by_cases hfull : q₁.m_queue.length = q₁.m_maxLen.toNat
  · rw [if_pos hfull]
    have hlength := hpurged.length_le
    match hqueue : q₁.m_queue with
    | [] =>
      rw [hqueue, hsame] at hfull
      exact absurd (UInt32.toNat_inj.mp hfull.symm) hmax
    | front :: rest =>
      refine ⟨_, _, _, rfl, ?_⟩
      rw [hqueue] at hfull
      -- the front leaves, and then there is room
      have hleft : Keeps { q₁ with m_queue := rest } now
          (h ++ actions ++ [RequestQueue.Drop front]) := by
        refine hpurged.leave [front] rest ?_ (ends_drop _) fun hconserved => ?_
        · rw [hqueue]
          exact sublist_cons_self ..
        · rw [hqueue] at hconserved
          exact hconserved.leave_first (a := []) fun _ hy => absurd hy not_mem_nil
      have hnew : RequestQueue.contains { q₁ with m_queue := rest } entry = false := by
        unfold RequestQueue.contains at hcontains ⊢
        rw [hqueue, any_cons, or_eq_false_iff] at hcontains
        exact hcontains.2
      have hcome := hleft.come entry (Nat.lt_of_succ_le (Nat.le_of_eq hfull)) hnew
      rw [append_assoc, append_assoc, singleton_append] at hcome
      exact hcome
  · rw [if_neg hfull]
    refine ⟨_, _, _, rfl, ?_⟩
    rw [← append_assoc]
    exact hpurged.come entry (Nat.lt_of_le_of_ne hpurged.length_le hfull) hcontains

/-- `DropPacketWithDst` ends the entries for a destination. -/
theorem Keeps.DropPacketWithDst (hq : Keeps q now h) (dst : Ipv4Address) :
    Keeps (q.DropPacketWithDst now dst).1 now (h ++ (q.DropPacketWithDst now dst).2) := by
  have hdrop := hq.Purge.leave _ _ filter_sublist (ends_drop _)
    fun hconserved => hconserved.leave_key dst
  rw [append_assoc] at hdrop
  exact hdrop

end Queue

/-- What `Dequeue` does after `Purge`: the first entry for the destination is taken out. -/
inductive Dequeued (dst : Ipv4Address) (queue : List QueueEntry) :
    List QueueEntry → Option QueueEntry → Prop
  | nothing (hnone : ∀ e ∈ queue, e.destination ≠ dst) : Dequeued dst queue queue none
  | found (a : List QueueEntry) (e : QueueEntry) (b : List QueueEntry)
    (hqueue : queue = a ++ e :: b)
      (ha : ∀ y ∈ a, y.destination ≠ dst) (he : e.destination = dst) :
      Dequeued dst queue (a ++ b) (some e)

/-- The first entry for the destination is the one that is taken out. -/
theorem dequeued_first (dst : Ipv4Address) (queue : List QueueEntry) :
    Dequeued dst queue
      (queue.eraseIdx (queue.findIdx fun en => decide (en.destination = dst)))
      queue[queue.findIdx fun en => decide (en.destination = dst)]? := by
  induction queue with
  | nil => exact .nothing fun _ he => absurd he not_mem_nil
  | cons x queue ih =>
    rw [findIdx_cons]
    by_cases hx : x.destination = dst
    · rw [decide_eq_true hx]
      exact .found [] x queue rfl (fun _ hy => absurd hy not_mem_nil) hx
    · rw [decide_eq_false hx, cond_false, eraseIdx_cons_succ, List.getElem?_cons_succ]
      generalize queue.eraseIdx _ = queue' at ih ⊢
      generalize queue[queue.findIdx fun en => decide (en.destination = dst)]? = found at ih ⊢
      cases ih with
      | nothing hnone =>
        refine .nothing fun e he => ?_
        obtain rfl | he := mem_cons.mp he
        · exact hx
        · exact hnone e he
      | found a e b hqueue ha he =>
        refine .found (x :: a) e b (congrArg _ hqueue) (fun y hy => ?_) he
        obtain rfl | hy := mem_cons.mp hy
        · exact hx
        · exact ha y hy

/-- `Dequeue` takes out the first entry for the destination of those that have not expired. -/
theorem dequeued (q : RequestQueue) (now : ℤ) (dst : Ipv4Address) :
    ∃ queue' found, q.Dequeue now dst =
        ({ (q.Purge now).1 with m_queue := queue' }, (q.Purge now).2, found) ∧
      Dequeued dst (q.Purge now).1.m_queue queue' found :=
  ⟨_, _, rfl, dequeued_first dst _⟩

/-- What has not expired stays. -/
theorem RequestQueue.mem_Purge (q : RequestQueue) (now : ℤ) (e : QueueEntry) :
    e ∈ (q.Purge now).1.m_queue ↔ e ∈ q.m_queue ∧ QueueEntry.IsExpired now e = false := by
  show e ∈ q.m_queue.filter _ ↔ _
  rw [mem_filter, not_eq_true']

theorem RequestQueue.accepted_Purge (q : RequestQueue) (now : ℤ) :
    accepted (q.Purge now).2 = [] := (callbacks_of_ends (ends_drop _)).1

/-- Every entry that `Purge` takes out has its callback called. -/
theorem RequestQueue.length_Purge (q : RequestQueue) (now : ℤ) :
    (callbacks (q.Purge now).2).length + (q.Purge now).1.m_queue.length = q.m_queue.length := by
  have hcallbacks : callbacks (q.Purge now).2 = (q.Purge now).2 :=
    (callbacks_of_ends (ends_drop _)).2
  have hdropped : (q.Purge now).2.length =
      (q.m_queue.filter (QueueEntry.IsExpired now)).length := length_map _
  rw [hcallbacks, hdropped]
  exact (length_eq_length_filter_add _).symm

/-! ### `SendPacketFromQueue` -/

namespace RoutingProtocol

/-- None of the packets that are to be sent on the route is for another interface. -/
def Matching (r : RoutingProtocol) (dst : Ipv4Address) (route : Ipv4Route) (q : RequestQueue) :
    Prop :=
  ∀ e ∈ q.m_queue, e.destination = dst → QueueEntry.IsExpired r.now e = false →
    r.wrongInterface route e.m_packet = false

/-- Once a packet that is for the interface of the route has been taken out, it is the others
that matter. -/
theorem matching_iff (r : RoutingProtocol) (dst : Ipv4Address) {route : Ipv4Route}
    (q₁ : RequestQueue) {a b : List QueueEntry} {e : QueueEntry}
    (hin : ∀ x, x ∈ q.m_queue ∧ QueueEntry.IsExpired r.now x = false ↔ x ∈ a ++ e :: b)
    (he : r.wrongInterface route e.m_packet = false) :
    r.Matching dst route q ↔ r.Matching dst route { q₁ with m_queue := a ++ b } := by
  constructor
  · intro hmatching x hx hdst hfresh
    have hx : x ∈ a ++ e :: b := ((sublist_cons_self ..).append_left a).subset hx
    exact hmatching x ((hin x).mpr hx).1 hdst hfresh
  · intro hmatching x hx hdst hfresh
    obtain hx | hx := mem_append.mp ((hin x).mp ⟨hx, hfresh⟩)
    · exact hmatching x (mem_append_left _ hx) hdst hfresh
    · obtain rfl | hx := mem_cons.mp hx
      · exact he
      · exact hmatching x (mem_append_right _ hx) hdst hfresh

/-- **Sending from the queue** forwards the packets for the destination if all are for the
interface of the route. Else more entries leave than callbacks are called. -/
theorem sendFromQueue_spec (r : RoutingProtocol) (dst : Ipv4Address) (route : Ipv4Route)
    {rounds : ℕ} (hq : Keeps q r.now h) (hrounds : q.m_queue.length < rounds) :
    ∃ q' actions, r.sendFromQueue dst route rounds q = .ok (q', actions) ∧
      (r.Matching dst route q → Keeps q' r.now (h ++ actions)) ∧
      (¬ r.Matching dst route q → accepted actions = [] ∧
        (callbacks actions).length + q'.m_queue.length < q.m_queue.length) := by
  induction rounds generalizing q h with
  | zero => exact absurd hrounds (Nat.not_lt_zero _)
  | succ rounds ih =>
    obtain ⟨queue', found, hok, hdequeued⟩ := dequeued q r.now dst
    have hpurged := hq.Purge
    have hmem := q.mem_Purge r.now
    have hlength := q.length_Purge r.now
    have haccepted := q.accepted_Purge r.now
    rw [sendFromQueue, hok]
    generalize q.Purge r.now = purged at hpurged hmem hlength haccepted hdequeued
    obtain ⟨q₁, actions₁⟩ := purged
    dsimp only at hpurged hmem hlength haccepted hdequeued ⊢
    cases hdequeued with
    | nothing hnone =>
      refine ⟨_, _, rfl, fun _ => hpurged, fun hnot => absurd ?_ hnot⟩
      intro e he hdst hfresh
      exact absurd hdst (hnone e ((hmem e).mpr ⟨he, hfresh⟩))
    | found a e b hqueue ha he =>
      have hin : ∀ x, x ∈ q.m_queue ∧ QueueEntry.IsExpired r.now x = false ↔ x ∈ a ++ e :: b :=
        fun x => by rw [← hqueue, hmem]
      have hshorter : (callbacks actions₁).length + (a ++ b).length < q.m_queue.length := by
        rw [← hlength, hqueue]
        simp
      dsimp only
      by_cases hwrong : r.wrongInterface route e.m_packet = true
      · -- the loop ends with an entry that is neither forwarded nor in the queue
        rw [if_pos hwrong]
        refine ⟨_, _, rfl, fun hmatching => ?_, fun _ => ⟨haccepted, hshorter⟩⟩
        obtain ⟨hmem, hfresh⟩ := (hin e).mpr (mem_append_right _ mem_cons_self)
        exact absurd (hmatching e hmem he hfresh) (by simp [hwrong])
      · rw [if_neg hwrong]
        have hleft := hpurged.leave [e] (a ++ b)
          (by rw [hqueue]; exact (sublist_cons_self ..).append_left a)
          (.cons (.inr ⟨route, rfl⟩) .nil)
          (fun hconserved => by
            rw [hqueue] at hconserved
            exact hconserved.leave_first fun y hy => (ha y hy).trans_eq he.symm)
        obtain ⟨q', actions, hrest, hkeeps, hlost⟩ := ih hleft (by
          show (a ++ b).length < rounds
          omega)
        have hsame := r.matching_iff dst q₁ hin (not_eq_true _ ▸ hwrong)
        simp only [bind, Except.bind, hrest]
        refine ⟨_, _, rfl, fun hmatching => ?_, fun hnot => ?_⟩
        · have := hkeeps (hsame.mp hmatching)
          simp only [append_assoc, singleton_append] at this
          exact this
        · obtain ⟨hnone, hfewer⟩ := hlost (mt hsame.mpr hnot)
          refine ⟨?_, ?_⟩
          · rw [accepted_append, haccepted]
            exact hnone
          · have : (callbacks (actions₁ ++ .unicastForward e.m_ucb route
                e.m_packet.RemovePacketTag (forwardedHeader route e.m_header) :: actions)).length =
                (callbacks actions₁).length + ((callbacks actions).length + 1) := by
              rw [callbacks_append, length_append]
              rfl
            rw [this]
            have : (a ++ b).length + 1 = q₁.m_queue.length := by
              rw [hqueue, length_append, length_append, length_cons, Nat.add_assoc]
            dsimp only at hfewer
            omega

/-! ### Runs -/

/-- No packet in the queue is for another interface than that of the route on which the packets
for its destination are sent, and the queue can hold a packet when one comes. -/
def Fits (r : RoutingProtocol) (_ : List Action) : Event → Prop
  | .DeferredRouteOutput .. => r.m_queue.m_maxLen ≠ 0
  | .RecvReply dst toDst => r.Matching dst toDst.m_ipv4Route r.m_queue
  | .RouteRequestTimerExpire dst valid toDst =>
    valid = true → r.Matching dst toDst.m_ipv4Route r.m_queue
  | _ => True

section

variable (hr : Keeps r.m_queue r.now h)

include hr

/-- `SendPacketFromQueue` sends what is queued for the destination, and keeps the invariant. -/
theorem SendPacketFromQueue_spec (dst : Ipv4Address) (route : Ipv4Route) :
    ∃ q' actions, r.SendPacketFromQueue dst route = .ok ({ r with m_queue := q' }, actions) ∧
      (r.Matching dst route r.m_queue → Keeps q' r.now (h ++ actions)) ∧
      (¬ r.Matching dst route r.m_queue → ¬ Sound q' (h ++ actions)) := by
  obtain ⟨q', actions, hok, hkeeps, hlost⟩ :=
    r.sendFromQueue_spec dst route hr (Nat.lt_succ_self _)
  refine ⟨q', actions, ?_, hkeeps, fun hnot hs => ?_⟩
  · simp only [SendPacketFromQueue, bind, Except.bind, hok]
  · obtain ⟨hnone, hfewer⟩ := hlost hnot
    have hafter := hs.length_accepted
    rw [accepted_append, hnone, append_nil, callbacks_append, length_append,
      hr.length_accepted] at hafter
    omega

/-- `DeferredRouteOutput` queues the packet or refuses it, and keeps the invariant. -/
theorem DeferredRouteOutput_spec (hmax : r.m_queue.m_maxLen ≠ 0) (p : Packet) (header : Ipv4Header)
    (ucb ecb : ℕ) (flag : Option RouteFlags) :
    ∃ q' actions, r.DeferredRouteOutput p header ucb ecb flag =
        .ok ({ r with m_queue := q' }, actions) ∧ Keeps q' r.now (h ++ actions) := by
  obtain ⟨q', actions, result, hok, hkeeps⟩ :=
    hr.Enqueue hmax ⟨p, header, ucb, ecb, r.now + r.now⟩
  simp only [DeferredRouteOutput, bind, Except.bind, hok]
  by_cases hrequest : (result && (flag != some .IN_SEARCH)) = true
  · rw [if_pos hrequest]
    refine ⟨_, _, rfl, ?_⟩
    rw [← append_assoc]
    exact hkeeps.other _ rfl rfl
  · rw [if_neg hrequest]
    exact ⟨_, _, rfl, hkeeps⟩

/-- A queue that is to hold nothing has no front to drop. -/
theorem not_ok_of_maxLen (hmax : r.m_queue.m_maxLen = 0) (p : Packet) (header : Ipv4Header)
    (ucb ecb : ℕ) (flag : Option RouteFlags) :
    r.DeferredRouteOutput p header ucb ecb flag = .error .undefined := by
  have hempty : r.m_queue.m_queue = [] := by
    have := hr.length_le
    rw [hmax] at this
    exact length_eq_zero_iff.mp (Nat.le_zero.mp this)
  obtain ⟨⟨queue, maxLen, timeout⟩, retries, now, interface⟩ := r
  dsimp only at hempty hmax
  subst hempty hmax
  rfl

/-- When the search for a route ends, the packets for it are dropped. -/
theorem stopSearch_keeps (dst : Ipv4Address) :
    Keeps (r.stopSearch dst).1.m_queue (r.stopSearch dst).1.now (h ++ (r.stopSearch dst).2) := by
  have hdelete := hr.other [.deleteRoute dst] rfl rfl
  have hdrop := hdelete.DropPacketWithDst dst
  rw [append_assoc] at hdrop
  exact hdrop

/-- **One event** that fits keeps the invariant. -/
theorem step_keeps (hfits : Fits r h event) :
    ∃ r' actions, r.step event = .ok (r', actions) ∧ Keeps r'.m_queue r'.now (h ++ actions) := by
  cases event with
  | pass duration =>
    refine ⟨_, [], rfl, ?_⟩
    rw [append_nil]
    exact hr.pass duration
  | DeferredRouteOutput p header ucb ecb flag =>
    obtain ⟨q', actions, hok, hkeeps⟩ := DeferredRouteOutput_spec hr hfits p header ucb ecb flag
    exact ⟨_, actions, hok, hkeeps⟩
  | RecvReply dst toDst =>
    obtain ⟨q', actions, hok, hkeeps, -⟩ := SendPacketFromQueue_spec hr dst toDst.m_ipv4Route
    exact ⟨_, actions, hok, hkeeps hfits⟩
  | RouteRequestTimerExpire dst valid toDst =>
    rw [step, RouteRequestTimerExpire]
    by_cases hvalid : valid = true
    · rw [if_pos hvalid]
      obtain ⟨q', actions, hok, hkeeps, -⟩ := SendPacketFromQueue_spec hr dst toDst.m_ipv4Route
      exact ⟨_, actions, hok, hkeeps (hfits hvalid)⟩
    rw [if_neg hvalid]
    split
    · exact ⟨_, _, rfl, stopSearch_keeps hr dst⟩
    split
    · exact ⟨_, _, rfl, hr.other _ rfl rfl⟩
    · exact ⟨_, _, rfl, stopSearch_keeps hr dst⟩
  | GetSize => exact ⟨_, _, rfl, hr.Purge⟩

end

/-- An event after which the queue is sound did fit. -/
theorem fits_of_sound {r' : RoutingProtocol} (hr : Keeps r.m_queue r.now h)
    (hok : r.step event = .ok (r', actions)) (hs : Sound r'.m_queue (h ++ actions)) :
    Fits r h event := by
  have hsent : ∀ dst route, r.SendPacketFromQueue dst route = .ok (r', actions) →
      r.Matching dst route r.m_queue := by
    intro dst route hsend
    obtain ⟨q', actions', hok', -, hlost⟩ := SendPacketFromQueue_spec hr dst route
    rw [hsend] at hok'
    cases hok'
    by_contra hnot
    exact hlost hnot hs
  cases event with
  | pass duration => trivial
  | DeferredRouteOutput p header ucb ecb flag =>
    intro hmax
    rw [step, not_ok_of_maxLen hr hmax] at hok
    cases hok
  | RecvReply dst toDst => exact hsent dst _ hok
  | RouteRequestTimerExpire dst valid toDst =>
    intro hvalid
    rw [step, RouteRequestTimerExpire, if_pos hvalid] at hok
    exact hsent dst _ hok
  | GetSize => trivial

/-- **The queue of packets that wait for a route**: after each step of a run, a callback of each
packet that was queued and is in the queue no more has been called once, in the order in which
the packets for a destination were queued, and the queue is neither too long nor holds anything
twice. This is so exactly if packets are never sent on a route while one of them is for another
interface, and the queue has room for a packet at all. -/
theorem sound_iff (maxLen rreqRetries : UInt32) (timeout : ℤ)
    (interfaceForDevice : Option ℕ → Int32) (events : List Event) :
    TracedRun.Throughout step (fun r h => Sound r.m_queue h)
        (new maxLen rreqRetries timeout interfaceForDevice) [] events ↔
      TracedRun.Meets step Fits (new maxLen rreqRetries timeout interfaceForDevice) [] events := by
  refine TracedRun.throughout_iff_meets (J := fun r h => Keeps r.m_queue r.now h) ?_ ?_ ?_
    (keeps_new maxLen timeout) events
  · intro r h event hr hfits
    exact step_keeps hr hfits
  · intro r h event r' actions hr hok hs
    exact fits_of_sound hr hok hs
  · intro r h hr
    exact hr.toSound

/-- A packet that is to leave by interface 2 waits, and a reply comes by interface 1. -/
def otherInterface : List Event :=
  [.DeferredRouteOutput ⟨7, [], some 2⟩ ⟨0, 10, 64, 17⟩ 1 2 none,
    .RecvReply 10 ⟨⟨10, 1, 10, some 0⟩, .VALID, 0⟩]

/-- No callback of the packet is called, and it is not in the queue. -/
theorem not_sound_otherInterface :
    ¬ TracedRun.Throughout step (fun r h => Sound r.m_queue h)
      (new 64 2 30000000000 fun device => if device = some 0 then 1 else 2) []
      otherInterface := by
  rintro ⟨_, _, hfirst, -, _, _, hsecond, hs, -⟩
  cases hfirst
  cases hsecond
  exact absurd hs.length_accepted (by decide)

end RoutingProtocol
end Ns3Joined.Aodv
