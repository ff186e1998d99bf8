import Mathlib.Data.List.Perm.Basic
import Ns3Joined.Internet.Rip
import Ns3Joined.Library.ExceptFold

/-!
# Routes and their timers

What a router holds is a list of routes, each with the timer that is pending for it (`Holding`).
A state `Represents` such a list if `m_routes` is the list and the pending timers are those of its
members; then a timer always points to a route that is held, and no route has two. Everything that
the router does to a route is done to one member of the list:

* `Represents.renew`, `Represents.invalidateRoute`: the member becomes another, with a new timer.
* `Represents.addNetworkRouteTo`, `Represents.addResponse`: a member is added.
* `Represents.runTimer`: the route whose timer is due is invalidated or deleted.
* `Represents.visit`, `Represents.visitLoop`: what a response does to each member (`Handled`).
-/

namespace Ns3Joined.Internet.Rip

open List ExceptFold

/-- A route that is held, and its pending timer. -/
structure Holding where
  route : RipRoutingTableEntry
  timer : Option Timer

namespace Holding

def slot (x : Holding) : Slot := ⟨x.route, x.timer.map Timer.uid⟩

def pointer (x : Holding) : ℕ := x.route.pointer

/-- How long it takes until the timer is due. -/
def delayLeft (x : Holding) (now : ℕ) : ℕ := (x.timer.map fun timer => timer.ts - now).getD 0

end Holding

/-- The routes are those of `l`, and the pending timers are `timers`. -/
structure Holds (s : Rip) (l : List Holding) (timers : List Timer) : Prop where
  routes : s.m_routes = l.map Holding.slot
  timers : s.timers.Perm timers
  inOrder : Agenda.InOrder Timer.ts s.timers
  now_le : ∀ timer ∈ s.timers, s.now ≤ timer.ts
  uids : ((l.filterMap Holding.timer).map Timer.uid).Nodup
  uid_lt : ∀ timer ∈ l.filterMap Holding.timer, timer.uid < s.nextUid
  pointers : (l.map Holding.pointer).Nodup
  pointer_lt : ∀ x ∈ l, x.pointer < s.nextPointer
  own : ∀ x ∈ l, ∀ timer, x.timer = some timer → timer.route = x.pointer

/-- The pending timers are those of the routes. -/
def Represents (s : Rip) (l : List Holding) : Prop := Holds s l (l.filterMap Holding.timer)

/-- What stays when something is done to the routes. -/
structure Alike (s s' : Rip) : Prop where
  options : s'.options = s.options
  now : s'.now = s.now
  nextPointer_le : s.nextPointer ≤ s'.nextPointer

variable {s : Rip} {l a b : List Holding} {x : Holding} {timers : List Timer}

theorem Alike.rfl : Alike s s := ⟨Eq.refl _, Eq.refl _, Nat.le_refl _⟩

theorem Alike.trans {s' s'' : Rip} (h : Alike s s') (h' : Alike s' s'') : Alike s s'' :=
  ⟨h'.options.trans h.options, h'.now.trans h.now,
    Nat.le_trans h.nextPointer_le h'.nextPointer_le⟩

/-- Slots and the routes that represent them carry the same pointers. -/
theorem map_slot_pointer (l : List Holding) :
    (l.map Holding.slot).map Slot.pointer = l.map Holding.pointer := by
  rw [map_map]
  rfl

/-- No two slots carry the same pointer. -/
theorem Holds.distinct (h : Holds s l timers) :
    KeyedTable.Distinct Slot.pointer s.m_routes := by
  rw [KeyedTable.distinct_iff_map, h.routes, map_slot_pointer]
  exact h.pointers

/-- A pointer of a represented route finds its slot. -/
theorem Holds.find (h : Holds s l timers) (hx : x ∈ l) :
    KeyedTable.find Slot.pointer x.pointer s.m_routes = some x.slot := by
  refine h.distinct.find_eq_some.mpr ⟨?_, rfl⟩
  rw [h.routes]
  exact mem_map_of_mem hx

variable {y : Holding} {slot : Slot} {timer : Timer} {route : RipRoutingTableEntry}
  {rest : List Timer} {r : Response}

/-- The pointer identifies a represented route. -/
theorem Holds.pointer_inj (h : Holds s l timers) (hx : x ∈ l) (hy : y ∈ l)
    (heq : x.pointer = y.pointer) : x = y :=
  inj_on_of_nodup_map h.pointers hx hy heq

/-- Changing a slot by its pointer changes that one. -/
theorem modify_slots (hpointers : ((a ++ x :: b).map Holding.pointer).Nodup) :
    KeyedTable.modify Slot.pointer x.pointer (fun _ => slot) ((a ++ x :: b).map Holding.slot) =
      a.map Holding.slot ++ slot :: b.map Holding.slot := by
  induction a with
  | nil => exact if_pos rfl
  | cons y a ih =>
    rw [cons_append, map_cons, nodup_cons] at hpointers
    have hne : y.slot.pointer ≠ x.pointer := fun heq => hpointers.1 (mem_map.mpr
      ⟨x, mem_append_right a mem_cons_self, heq.symm⟩)
    rw [cons_append, map_cons, KeyedTable.modify, if_neg hne, ih hpointers.2]
    rfl

/-- Erasing a slot by its pointer erases that one. -/
theorem erase_slots (hpointers : ((a ++ x :: b).map Holding.pointer).Nodup) :
    KeyedTable.erase Slot.pointer x.pointer ((a ++ x :: b).map Holding.slot) =
      (a ++ b).map Holding.slot := by
  induction a with
  | nil => exact (KeyedTable.erase_cons _).trans (if_pos rfl)
  | cons y a ih =>
    rw [cons_append, map_cons, nodup_cons] at hpointers
    have hne : y.slot.pointer ≠ x.pointer := fun heq => hpointers.1 (mem_map.mpr
      ⟨x, mem_append_right a mem_cons_self, heq.symm⟩)
    rw [cons_append, map_cons, KeyedTable.erase_cons, if_neg hne, ih hpointers.2]
    rfl

/-! ### Cancelling -/

/-- The timers of a table, with those of one route taken out. -/
theorem filterMap_timer_perm (a b : List Holding) (x : Holding) :
    ((a ++ x :: b).filterMap Holding.timer).Perm
      (x.timer.toList ++ (a ++ b).filterMap Holding.timer) := by
  refine (perm_middle.filterMap _).trans ?_
  cases hx : x.timer with
  | none =>
    rw [filterMap_cons_none hx]
    exact .refl _
  | some timer =>
    rw [filterMap_cons_some hx]
    exact .refl _

/-- The timers of the other routes carry other identifiers. -/
theorem Holds.uid_ne (h : Holds s (a ++ x :: b) timers)
    (htimer : timer ∈ (a ++ b).filterMap Holding.timer) :
    some timer.uid ≠ x.slot.event := fun heq => by
  have huids := ((filterMap_timer_perm a b x).map Timer.uid).nodup_iff.mp h.uids
  obtain ⟨own, hown, huid⟩ := Option.map_eq_some_iff.mp heq.symm
  rw [hown, Option.toList_some, singleton_append, map_cons, nodup_cons] at huids
  exact huids.1 (huid ▸ mem_map_of_mem htimer)

/-- Filtering out one route's timer keeps those of the others. -/
theorem filter_others (h : Holds s (a ++ x :: b) timers) :
    ((a ++ b).filterMap Holding.timer).filter (fun timer => some timer.uid != x.slot.event) =
      (a ++ b).filterMap Holding.timer :=
  filter_eq_self.mpr fun _ htimer => bne_iff_ne.mpr (h.uid_ne htimer)

/-- Cancelling a route's event leaves the timers of the other routes. -/
theorem Holds.cancel (h : Holds s (a ++ x :: b) timers)
    (htimers : timers.filter (fun timer => some timer.uid != x.slot.event) =
      (a ++ b).filterMap Holding.timer) :
    Holds (s.Cancel x.slot.event) (a ++ x :: b) ((a ++ b).filterMap Holding.timer) where
  __ := h
  timers := by
    rw [← htimers]
    exact h.timers.filter _
  inOrder := h.inOrder.filter _
  now_le := fun timer htimer => h.now_le timer (mem_of_mem_filter htimer)

/-- Cancelling the event of a represented route takes its timer away. -/
theorem Represents.cancel (h : Represents s (a ++ x :: b)) :
    Holds (s.Cancel x.slot.event) (a ++ x :: b) ((a ++ b).filterMap Holding.timer) := by
  have hperm := filterMap_timer_perm a b x
  refine Holds.cancel { h with timers := h.timers.trans hperm } ?_
  rw [filter_append, filter_others h]
  refine (congrArg (· ++ _) (filter_eq_nil_iff.mpr fun timer htimer => ?_)).trans
    (nil_append _)
  rw [Option.mem_toList] at htimer
  have hevent : x.slot.event = some timer.uid := congrArg (Option.map Timer.uid) htimer
  rw [hevent, bne_self_eq_false]
  exact Bool.false_ne_true

/-- Cancelling an event that is not running changes nothing. -/
theorem cancel_of_not_isRunning {event : Option ℕ} (hrunning : ¬ s.IsRunning event = true) :
    s.Cancel event = s := by
  have hfilter : s.timers.filter (fun timer => some timer.uid != event) = s.timers := by
    refine filter_eq_self.mpr fun timer htimer => bne_iff_ne.mpr fun heq => hrunning ?_
    exact any_eq_true.mpr ⟨timer, htimer, beq_iff_eq.mpr heq⟩
  show { s with timers := s.timers.filter _ } = s
  rw [hfilter]

/-! ### Replacing a member -/

/-- What is done to a route after its timer is cancelled: a new one is set, and the entry
written. -/
def place (s : Rip) (it delay : ℕ) (call : TimerCall) (route : RipRoutingTableEntry) : Rip :=
  (s.Schedule delay call route.pointer).1.setSlot it
    ⟨route, some (s.Schedule delay call route.pointer).2⟩

/-- A new member with a new timer, when the timer of the old one is not pending. -/
theorem Holds.place (h : Holds s (a ++ x :: b) ((a ++ b).filterMap Holding.timer)) (delay : ℕ)
    (call : TimerCall) (hlt : route.pointer < s.nextPointer)
    (hfresh : ∀ y ∈ a ++ b, y.pointer ≠ route.pointer) :
    Represents (s.place x.pointer delay call route)
      (a ++ ⟨route, some ⟨s.nextUid, s.now + delay, call, route.pointer⟩⟩ :: b) := by
  set timer : Timer := ⟨s.nextUid, s.now + delay, call, route.pointer⟩ with htimer
  have hperm : ((a ++ ⟨route, some timer⟩ :: b).filterMap Holding.timer).Perm
      (timer :: (a ++ b).filterMap Holding.timer) := filterMap_timer_perm a b _
  -- The new timer is the only one with the next identifier.
  have hold : ∀ t ∈ (a ++ b).filterMap Holding.timer, t.uid < s.nextUid := fun t ht =>
    h.uid_lt t ((filterMap_timer_perm a b x).mem_iff.mpr (mem_append_right _ ht))
  have hmem {y : Holding} (hy : y ∈ a ++ b) : y ∈ a ++ x :: b :=
    perm_middle.mem_iff.mpr (mem_cons_of_mem _ hy)
  exact {
    routes := by
      show KeyedTable.modify _ _ _ s.m_routes = _
      rw [h.routes, modify_slots h.pointers, map_append, map_cons]
      rfl
    timers := ((Agenda.add_perm Timer.ts timer s.timers).trans (h.timers.cons timer)).trans
      hperm.symm
    inOrder := h.inOrder.add _
    now_le := fun t ht => by
      obtain rfl | ht := Agenda.mem_add.mp ht
      · exact Nat.le_add_right _ _
      · exact h.now_le t ht
    uids := by
      refine ((hperm.map Timer.uid).nodup_iff).mpr (nodup_cons.mpr ⟨fun hin => ?_, ?_⟩)
      · obtain ⟨t, ht, heq⟩ := mem_map.mp hin
        exact absurd heq (Nat.ne_of_lt (hold t ht))
      · have huids := ((filterMap_timer_perm a b x).map Timer.uid).nodup_iff.mp h.uids
        rw [map_append] at huids
        exact huids.of_append_right
    uid_lt := fun t ht => by
      obtain rfl | ht := mem_cons.mp (hperm.mem_iff.mp ht)
      · exact Nat.lt_succ_self _
      · exact Nat.lt_succ_of_lt (hold t ht)
    pointers := by
      refine ((perm_middle.map Holding.pointer).nodup_iff).mpr (nodup_cons.mpr ⟨?_, ?_⟩)
      · rintro hin
        obtain ⟨y, hy, heq⟩ := mem_map.mp hin
        exact hfresh y hy heq
      · exact (nodup_cons.mp ((perm_middle.map Holding.pointer).nodup_iff.mp
          h.pointers)).2
    pointer_lt := fun y hy => by
      obtain rfl | hy := mem_cons.mp (perm_middle.mem_iff.mp hy)
      · exact hlt
      · exact h.pointer_lt y (hmem hy)
    own := fun y hy t ht => by
      obtain rfl | hy := mem_cons.mp (perm_middle.mem_iff.mp hy)
      · cases ht
        rfl
      · exact h.own y (hmem hy) t ht }

/-- The other routes have other pointers. -/
theorem Holds.pointer_ne (h : Holds s (a ++ x :: b) timers) (hy : y ∈ a ++ b) :
    y.pointer ≠ x.pointer := fun heq =>
  (nodup_cons.mp ((perm_middle.map Holding.pointer).nodup_iff.mp h.pointers)).1
    (mem_map.mpr ⟨y, hy, heq⟩)

/-- The next pointer is not in use. -/
theorem Holds.pointer_lt_of_mem (h : Holds s l timers) (hy : y ∈ l) :
    y.pointer ≠ s.nextPointer := Nat.ne_of_lt (h.pointer_lt y hy)

/-- A response is believed: the entry stays the same object. -/
theorem Represents.renew (h : Represents s (a ++ x :: b)) (hpointer : route.pointer = x.pointer) :
    Represents (s.renew x.pointer x.slot.event route) (a ++ ⟨route, some ⟨s.nextUid,
      s.now + s.options.m_timeoutDelay, .InvalidateRoute, route.pointer⟩⟩ :: b) :=
  h.cancel.place _ _ (hpointer ▸ h.pointer_lt x (mem_append_right a mem_cons_self))
    fun _ hy => hpointer ▸ h.pointer_ne hy

/-- A response is believed: the entry is a new object. -/
theorem Represents.renew_new (h : Represents s (a ++ x :: b))
    (hpointer : route.pointer = s.nextPointer) :
    Represents ({ s with nextPointer := s.nextPointer + 1 }.renew x.pointer x.slot.event route)
      (a ++ ⟨route, some ⟨s.nextUid, s.now + s.options.m_timeoutDelay, .InvalidateRoute,
        route.pointer⟩⟩ :: b) := by
  have hgrown : Represents { s with nextPointer := s.nextPointer + 1 } (a ++ x :: b) :=
    { h with pointer_lt := fun y hy => Nat.lt_succ_of_lt (h.pointer_lt y hy) }
  refine hgrown.cancel.place _ _ (hpointer ▸ Nat.lt_succ_self _) fun y hy => ?_
  rw [hpointer]
  exact h.pointer_lt_of_mem (perm_middle.mem_iff.mpr (mem_cons_of_mem _ hy))

/-- The entry after `InvalidateRoute`. -/
def invalid (options : RipOptions) (route : RipRoutingTableEntry) : RipRoutingTableEntry :=
  ((route.SetRouteStatus .RIP_INVALID).SetRouteMetric options.m_linkDown).SetRouteChanged true

theorem invalid_eq (options : RipOptions) (route : RipRoutingTableEntry) :
    invalid options route = { route with
      m_metric := options.m_linkDown % 256, m_status := .RIP_INVALID, m_changed := true } := by
  simp only [invalid, RipRoutingTableEntry.SetRouteStatus, RipRoutingTableEntry.SetRouteMetric,
    RipRoutingTableEntry.SetRouteChanged]
  split_ifs <;> simp_all

theorem invalid_pointer (options : RipOptions) (route : RipRoutingTableEntry) :
    (invalid options route).pointer = route.pointer := by rw [invalid_eq]

/-- What `InvalidateRoute` says. -/
def told (route : RipRoutingTableEntry) (now : ℕ) : List RipAction :=
  if route.m_status = .RIP_VALID then [.unreachable route.network now] else []

theorem invalidateRoute_eq
    (hfind : KeyedTable.find Slot.pointer slot.pointer s.m_routes = some slot) :
    s.InvalidateRoute slot.pointer = .ok ((s.Cancel slot.event).place slot.pointer
      s.options.m_garbageCollectionDelay .DeleteRoute (invalid s.options slot.route),
      told slot.route s.now) := by
  unfold Rip.InvalidateRoute Rip.place
  rw [hfind, invalid_pointer]
  dsimp only
  by_cases hrunning : s.IsRunning slot.event = true
  · rw [if_pos hrunning]
    rfl
  · rw [if_neg hrunning, cancel_of_not_isRunning hrunning]
    rfl

/-- `InvalidateRoute`, whether the timer of the route is still pending or not. -/
theorem Holds.invalidateRoute (h : Holds s (a ++ x :: b) timers)
    (hcancel : Holds (s.Cancel x.slot.event) (a ++ x :: b) ((a ++ b).filterMap Holding.timer)) :
    ∃ s', s.InvalidateRoute x.pointer = .ok (s', told x.route s.now) ∧
      Represents s' (a ++ ⟨invalid s.options x.route, some ⟨s.nextUid,
        s.now + s.options.m_garbageCollectionDelay, .DeleteRoute, x.pointer⟩⟩ :: b) ∧
      Alike s s' := by
  have hpointer : (invalid s.options x.route).pointer = x.pointer := invalid_pointer _ _
  have hlt : (invalid s.options x.route).pointer < s.nextPointer := by
    rw [hpointer]
    exact h.pointer_lt x (mem_append_right a mem_cons_self)
  have hfresh : ∀ y ∈ a ++ b, y.pointer ≠ (invalid s.options x.route).pointer := fun y hy => by
    rw [hpointer]
    exact h.pointer_ne hy
  have hplace := hcancel.place s.options.m_garbageCollectionDelay .DeleteRoute hlt hfresh
  rw [hpointer] at hplace
  have hfind : KeyedTable.find Slot.pointer x.slot.pointer s.m_routes = some x.slot :=
    h.find (mem_append_right a mem_cons_self)
  exact ⟨_, invalidateRoute_eq hfind, hplace, rfl, rfl, Nat.le_refl _⟩

/-- Invalidating a route restarts its timer for the deletion and keeps the table represented. -/
theorem Represents.invalidateRoute (h : Represents s (a ++ x :: b)) :
    ∃ s', s.InvalidateRoute x.pointer = .ok (s', told x.route s.now) ∧
      Represents s' (a ++ ⟨invalid s.options x.route, some ⟨s.nextUid,
        s.now + s.options.m_garbageCollectionDelay, .DeleteRoute, x.pointer⟩⟩ :: b) ∧
      Alike s s' :=
  Holds.invalidateRoute h h.cancel

/-! ### Adding and deleting members -/

/-- A member with its own timer, or none, at any place. -/
theorem Represents.add (h : Represents s (a ++ b)) {s' : Rip} {x : Holding}
    (hroutes : s'.m_routes = (a ++ x :: b).map Holding.slot)
    (htimers : s'.timers.Perm (x.timer.toList ++ s.timers))
    (hinOrder : Agenda.InOrder Timer.ts s'.timers) (hnow : s'.now = s.now)
    (hpointer : x.pointer = s.nextPointer) (hnextPointer : s'.nextPointer = s.nextPointer + 1)
    (hnextUid : s.nextUid ≤ s'.nextUid)
    (htimer : ∀ timer, x.timer = some timer → timer.route = x.pointer ∧ s.now ≤ timer.ts ∧
      s.nextUid ≤ timer.uid ∧ timer.uid < s'.nextUid) : Represents s' (a ++ x :: b) where
  routes := hroutes
  timers := (htimers.trans (h.timers.append_left _)).trans (filterMap_timer_perm a b x).symm
  inOrder := hinOrder
  now_le := fun timer hmem => by
    rw [hnow]
    obtain hmem | hmem := mem_append.mp (htimers.mem_iff.mp hmem)
    · exact (htimer timer (Option.mem_toList.mp hmem)).2.1
    · exact h.now_le timer hmem
  uids := by
    refine (((filterMap_timer_perm a b x).map Timer.uid).nodup_iff).mpr ?_
    cases hx : x.timer with
    | none => exact h.uids
    | some timer =>
      refine nodup_cons.mpr ⟨fun hin => ?_, h.uids⟩
      obtain ⟨old, hold, heq⟩ := mem_map.mp hin
      exact Nat.not_lt_of_le (htimer timer hx).2.2.1 (heq ▸ h.uid_lt old hold)
  uid_lt := fun timer hmem => by
    obtain hmem | hmem := mem_append.mp ((filterMap_timer_perm a b x).mem_iff.mp hmem)
    · exact (htimer timer (Option.mem_toList.mp hmem)).2.2.2
    · exact Nat.lt_of_lt_of_le (h.uid_lt timer hmem) hnextUid
  pointers := by
    refine ((perm_middle.map Holding.pointer).nodup_iff).mpr (nodup_cons.mpr ⟨?_, ?_⟩)
    · intro hin
      obtain ⟨y, hy, heq⟩ := mem_map.mp hin
      exact h.pointer_lt_of_mem hy (heq.trans hpointer)
    · exact h.pointers
  pointer_lt := fun y hy => by
    rw [hnextPointer]
    obtain rfl | hy := mem_cons.mp (perm_middle.mem_iff.mp hy)
    · exact hpointer ▸ Nat.lt_succ_self _
    · exact Nat.lt_succ_of_lt (h.pointer_lt y hy)
  own := fun y hy timer hown => by
    obtain rfl | hy := mem_cons.mp (perm_middle.mem_iff.mp hy)
    · exact (htimer timer hown).1
    · exact h.own y hy timer hown

/-- The entry that `AddNetworkRouteTo` makes. -/
def localRoute (pointer : ℕ) (network : Ipv4Address) (networkPrefix : Ipv4Mask) (interface : ℕ) :
    RipRoutingTableEntry :=
  ⟨pointer, network, networkPrefix, 0, interface, 0, 1, .RIP_VALID, true⟩

/-- Adding a local route appends a route without a timer. -/
theorem Represents.addNetworkRouteTo (h : Represents s l) (network : Ipv4Address)
    (networkPrefix : Ipv4Mask) (interface : ℕ) :
    Represents (s.AddNetworkRouteTo network networkPrefix interface)
      (l ++ [⟨localRoute s.nextPointer network networkPrefix interface, none⟩]) := by
  rw [← append_nil l] at h
  refine h.add (x := ⟨localRoute s.nextPointer network networkPrefix interface, none⟩) ?_
    (.refl _) h.inOrder rfl rfl rfl (Nat.le_refl _) nofun
  rw [map_append, ← append_nil l, ← h.routes]
  rfl

/-- The entry for a network that no entry was found for. -/
def learnedRoute (r : Response) (pointer : ℕ) : RipRoutingTableEntry :=
  (((r.newRoute pointer).SetRouteMetric r.rteMetric).SetRouteStatus .RIP_VALID).SetRouteChanged
    true

/-- The fields of the route learned from a response. -/
theorem learnedRoute_eq (r : Response) (pointer : ℕ) :
    learnedRoute r pointer = ⟨pointer, r.rteAddr, r.rtePrefixMask, r.senderAddress,
      r.incomingInterface, 0, r.rteMetric % 256, .RIP_VALID, true⟩ := by
  simp only [learnedRoute, RipRoutingTableEntry.SetRouteStatus,
    RipRoutingTableEntry.SetRouteMetric, RipRoutingTableEntry.SetRouteChanged, Response.newRoute,
    RipRoutingTableEntry.ofNetwork]
  split_ifs <;> simp_all

theorem learnedRoute_pointer (r : Response) (pointer : ℕ) :
    (learnedRoute r pointer).pointer = pointer := by rw [learnedRoute_eq]

/-- A response for a new network adds a route with the timeout's timer. -/
theorem Represents.addResponse (h : Represents s l) (r : Response) :
    Represents (s.addResponse r) (⟨learnedRoute r s.nextPointer, some ⟨s.nextUid,
      s.now + s.options.m_timeoutDelay, .InvalidateRoute, s.nextPointer⟩⟩ :: l) := by
  refine Represents.add (a := []) h ?_ (Agenda.add_perm _ _ _) (h.inOrder.add _) rfl
    (learnedRoute_pointer _ _) rfl (Nat.le_succ _) fun timer htimer => ?_
  · rw [nil_append, map_cons, ← h.routes]
    rfl
  · cases htimer
    exact ⟨(learnedRoute_pointer _ _).symm, Nat.le_add_right _ _, Nat.le_refl _,
      Nat.lt_succ_self _⟩

/-- A member whose timer is not pending is deleted. -/
theorem Holds.deleteRoute (h : Holds s (a ++ x :: b) ((a ++ b).filterMap Holding.timer)) :
    ∃ s', s.DeleteRoute x.pointer = .ok (s', [.deleted x.route.network s.now]) ∧
      Represents s' (a ++ b) ∧ Alike s s' := by
  have hmem {y : Holding} (hy : y ∈ a ++ b) : y ∈ a ++ x :: b :=
    perm_middle.mem_iff.mpr (mem_cons_of_mem _ hy)
  refine ⟨{ s with m_routes := (a ++ b).map Holding.slot }, ?_, ?_, rfl, rfl, Nat.le_refl _⟩
  · unfold Rip.DeleteRoute
    rw [h.find (mem_append_right a mem_cons_self)]
    dsimp only
    rw [h.routes, erase_slots h.pointers]
    rfl
  · exact {
      routes := rfl
      __ := h
      uids := by
        have huids := ((filterMap_timer_perm a b x).map Timer.uid).nodup_iff.mp h.uids
        rw [map_append] at huids
        exact huids.of_append_right
      uid_lt := fun timer htimer => h.uid_lt timer
        ((filterMap_timer_perm a b x).mem_iff.mpr (mem_append_right _ htimer))
      pointers := (nodup_cons.mp
        ((perm_middle.map Holding.pointer).nodup_iff.mp h.pointers)).2
      pointer_lt := fun y hy => h.pointer_lt y (hmem hy)
      own := fun y hy => h.own y (hmem hy) }

/-! ### Time -/

/-- Time passing keeps the table represented. -/
theorem Represents.elapse (h : Represents s l) (delay : ℕ) : Represents (s.elapse delay) l where
  __ := h
  now_le := fun timer htimer => by
    have horder := h.inOrder
    have hmem : timer ∈ s.timers := htimer
    show (s.timers.head?.map _).getD _ ≤ timer.ts
    cases htimers : s.timers with
    | nil =>
      rw [htimers] at hmem
      cases hmem
    | cons first rest =>
      rw [htimers] at horder hmem
      exact Nat.le_trans (Nat.min_le_right _ _) (horder.head_le hmem)

/-- The first timer is that of a member, and is taken out to run. -/
theorem Represents.pop (h : Represents s l) (htimers : s.timers = timer :: rest) :
    ∃ a x b, l = a ++ x :: b ∧ x.timer = some timer ∧
      Holds { s with timers := rest, now := timer.ts } (a ++ x :: b)
        ((a ++ b).filterMap Holding.timer) := by
  have hmem : timer ∈ l.filterMap Holding.timer :=
    h.timers.mem_iff.mp (htimers ▸ mem_cons_self)
  obtain ⟨x, hx, hown⟩ := mem_filterMap.mp hmem
  obtain ⟨a, b, rfl⟩ := append_of_mem hx
  have horder := h.inOrder
  rw [htimers] at horder
  have hperm := h.timers.trans (filterMap_timer_perm a b x)
  rw [htimers, hown] at hperm
  exact ⟨a, x, b, rfl, hown, { h with
    timers := hperm.cons_inv
    inOrder := horder.tail
    now_le := fun later hlater => horder.head_le (mem_cons_of_mem _ hlater) }⟩

/-- The timer of a route's event. -/
theorem Represents.find_timer (h : Represents s l) (hx : x ∈ l) :
    (s.timers.find? fun timer => some timer.uid == x.slot.event) = x.timer := by
  cases htimer : x.timer with
  | none =>
    have hevent : x.slot.event = none := congrArg (Option.map Timer.uid) htimer
    rw [hevent]
    exact List.find?_eq_none.mpr fun _ _ => Bool.false_ne_true
  | some timer =>
    have hevent : x.slot.event = some timer.uid := congrArg (Option.map Timer.uid) htimer
    have hdistinct : KeyedTable.Distinct Timer.uid s.timers :=
      KeyedTable.distinct_iff_map.mpr ((h.timers.map Timer.uid).nodup_iff.mpr h.uids)
    have hmem : timer ∈ s.timers := h.timers.mem_iff.mpr (mem_filterMap.mpr ⟨x, hx, htimer⟩)
    rw [hevent, ← hdistinct.find_eq_some.mpr ⟨hmem, rfl⟩]
    refine congrArg (List.find? · s.timers) (funext fun other => ?_)
    exact Bool.eq_iff_iff.mpr (by rw [beq_iff_eq, Option.some_inj, decide_eq_true_eq])

/-- The delay left of a route's event is that of its timer. -/
theorem Represents.getDelayLeft (h : Represents s l) (hx : x ∈ l) :
    s.GetDelayLeft x.slot.event = x.delayLeft s.now := by
  rw [Rip.GetDelayLeft, h.find_timer hx]
  rfl

/-! ### Responses -/

/-- What a response does to a member with its network, and what it says. -/
inductive Handled (options : RipOptions) (now : ℕ) (r : Response) (x : Holding) :
    Holding → List RipAction → Prop
  /-- The metric is better, or another router gives the same when the timer is half over. -/
  | replaced (uid pointer : ℕ) (hsender : r.senderAddress ≠ x.route.m_gateway)
      (hmetric : r.rteMetric < x.route.m_metric ∨
        r.rteMetric = x.route.m_metric ∧ x.delayLeft now < options.m_timeoutDelay / 2) :
      Handled options now r x ⟨learn (r.newRoute pointer) r.rteMetric r.tag,
        some ⟨uid, now + options.m_timeoutDelay, .InvalidateRoute, pointer⟩⟩ [.learned pointer]
  /-- The gateway gives another metric that is finite. -/
  | updated (uid : ℕ) (hsender : r.senderAddress = x.route.m_gateway)
      (hmetric : r.rteMetric < x.route.m_metric ∨
        x.route.m_metric < r.rteMetric ∧ r.rteMetric < options.m_linkDown) :
      Handled options now r x ⟨learn x.route r.rteMetric r.tag,
        some ⟨uid, now + options.m_timeoutDelay, .InvalidateRoute, x.pointer⟩⟩ []
  /-- The gateway gives the same metric. -/
  | refreshed (uid : ℕ) (hsender : r.senderAddress = x.route.m_gateway)
      (hmetric : r.rteMetric = x.route.m_metric) :
      Handled options now r x ⟨x.route,
        some ⟨uid, now + options.m_timeoutDelay, .InvalidateRoute, x.pointer⟩⟩ []
  /-- The gateway has no route any more. -/
  | invalidated (uid : ℕ) (hsender : r.senderAddress = x.route.m_gateway)
      (hmetric : x.route.m_metric < r.rteMetric) (hdown : ¬ r.rteMetric < options.m_linkDown) :
      Handled options now r x ⟨invalid options x.route,
        some ⟨uid, now + options.m_garbageCollectionDelay, .DeleteRoute, x.pointer⟩⟩
        (told x.route now)
  | ignored (hsender : r.senderAddress ≠ x.route.m_gateway)
      (hmetric : x.route.m_metric < r.rteMetric ∨ r.rteMetric = x.route.m_metric ∧
        ¬ x.delayLeft now < options.m_timeoutDelay / 2) :
      Handled options now r x x []

/-- What a response does to all members, one after the other. -/
inductive HandledAll (options : RipOptions) (now : ℕ) (r : Response) :
    List Holding → List Holding → List RipAction → Prop
  | nil : HandledAll options now r [] [] []
  | other {x : Holding} {l l' : List Holding} {actions : List RipAction}
      (hnetwork : x.route.network ≠ r.network) (hrest : HandledAll options now r l l' actions) :
      HandledAll options now r (x :: l) (x :: l') actions
  | found {x x' : Holding} {l l' : List Holding} {happened actions : List RipAction}
      (hnetwork : x.route.network = r.network) (hhandled : Handled options now r x x' happened)
      (hrest : HandledAll options now r l l' actions) :
      HandledAll options now r (x :: l) (x' :: l') (happened ++ actions)

theorem learn_eq (route : RipRoutingTableEntry) (rteMetric tag : ℕ) :
    learn route rteMetric tag = { route with
      m_tag := tag, m_metric := rteMetric % 256, m_status := .RIP_VALID, m_changed := true } := by
  simp only [learn, RipRoutingTableEntry.SetRouteStatus, RipRoutingTableEntry.SetRouteMetric,
    RipRoutingTableEntry.SetRouteTag, RipRoutingTableEntry.SetRouteChanged]
  split_ifs <;> simp_all

theorem learn_pointer (route : RipRoutingTableEntry) (rteMetric tag : ℕ) :
    (learn route rteMetric tag).pointer = route.pointer := by rw [learn_eq]

/-- A response for a known network changes that route only. -/
theorem Represents.handleFound (h : Represents s (a ++ x :: b)) (r : Response) :
    ∃ s' x' happened, s.handleFound r x.pointer x.slot = .ok (s', happened) ∧
      Represents s' (a ++ x' :: b) ∧ Handled s.options s.now r x x' happened ∧
      Alike s s' := by
  have hdelay := h.getDelayLeft (mem_append_right a mem_cons_self)
  have hnew (pointer : ℕ) : (learn (r.newRoute pointer) r.rteMetric r.tag).pointer = pointer :=
    learn_pointer _ _ _
  unfold Rip.handleFound
  dsimp only
  rw [hdelay]
  split_ifs with hless hsender heq hsender hhalf hsender hdown
  · have hrenew := h.renew_new (hnew s.nextPointer)
    rw [hnew] at hrenew
    exact ⟨_, _, _, rfl, hrenew, .replaced _ _ hsender (.inl hless), rfl, rfl,
      Nat.le_succ _⟩
  · have hrenew := h.renew (learn_pointer x.route r.rteMetric r.tag)
    rw [learn_pointer] at hrenew
    exact ⟨_, _, _, rfl, hrenew, .updated _ (not_not.mp hsender) (.inl hless), rfl, rfl,
      Nat.le_refl _⟩
  · exact ⟨_, _, _, rfl, h.renew rfl, .refreshed _ hsender heq, rfl, rfl,
      Nat.le_refl _⟩
  · have hrenew := h.renew_new (hnew s.nextPointer)
    rw [hnew] at hrenew
    exact ⟨_, _, _, rfl, hrenew, .replaced _ _ hsender (.inr ⟨heq, hhalf⟩), rfl,
      rfl, Nat.le_succ _⟩
  · exact ⟨_, _, _, rfl, h, .ignored hsender (.inr ⟨heq, hhalf⟩), rfl, rfl,
      Nat.le_refl _⟩
  · have hrenew := h.renew (learn_pointer x.route r.rteMetric r.tag)
    rw [learn_pointer] at hrenew
    have hmore : x.route.m_metric < r.rteMetric :=
      Nat.lt_of_le_of_ne (Nat.le_of_not_lt hless) (Ne.symm heq)
    exact ⟨_, _, _, rfl, hrenew, .updated _ hsender (.inr ⟨hmore, hdown⟩), rfl, rfl,
      Nat.le_refl _⟩
  · have hmore : x.route.m_metric < r.rteMetric :=
      Nat.lt_of_le_of_ne (Nat.le_of_not_lt hless) (Ne.symm heq)
    obtain ⟨s', hok, hs', halike⟩ :=
      Holds.invalidateRoute h.cancel (h.cancel.cancel (filter_others h))
    exact ⟨s', _, _, hok, hs', .invalidated _ hsender hmore hdown, halike.1,
      halike.2, halike.3⟩
  · have hmore : x.route.m_metric < r.rteMetric :=
      Nat.lt_of_le_of_ne (Nat.le_of_not_lt hless) (Ne.symm heq)
    exact ⟨_, _, _, rfl, h, .ignored hsender (.inl hmore), rfl, rfl,
      Nat.le_refl _⟩

/-- A slot is for the network of a response if and only if both fields agree. -/
theorem network_eq_iff : x.route.network = r.network ↔
    x.slot.route.m_dest = r.rteAddr ∧ x.slot.route.m_destNetworkMask = r.rtePrefixMask :=
  Prod.mk_inj

/-- The loop over the routes, from `l` on. -/
theorem Represents.visitLoop (h : Represents s (a ++ l)) (r : Response) (found : Bool)
    (actions : List RipAction) :
    ∃ s' l' found' happened, (l.map Holding.pointer).foldlM (visit r) (s, found, actions) =
        .ok (s', found', actions ++ happened) ∧
      Represents s' (a ++ l') ∧ HandledAll s.options s.now r l l' happened ∧
      (found' = true ↔ found = true ∨ ∃ x ∈ l, x.route.network = r.network) ∧
      Alike s s' := by
  induction l generalizing s a found actions with
  | nil =>
    refine ⟨s, [], found, [], ?_, h, .nil, ?_, .rfl⟩
    · rw [append_nil]
      rfl
    · exact (or_iff_left fun ⟨_, hmem, _⟩ => not_mem_nil hmem).symm
  | cons x l ih =>
    rw [map_cons, foldlM_cons]
    have hfind := h.find (mem_append_right a mem_cons_self)
    by_cases hnetwork : x.route.network = r.network
    · -- the route is found
      obtain ⟨s₁, x', happened₁, hok₁, hs₁, hhandled, halike₁⟩ := h.handleFound r
      rw [append_cons] at hs₁
      obtain ⟨s₂, l', found', happened₂, hok₂, hs₂, hall, hfound, halike₂⟩ :=
        ih hs₁ true (actions ++ happened₁)
      rw [halike₁.options, halike₁.now] at hall
      refine ⟨s₂, x' :: l', found', happened₁ ++ happened₂, ?_, ?_, .found hnetwork hhandled hall,
        ?_, halike₁.trans halike₂⟩
      · have hvisit : visit r (s, found, actions) x.pointer =
            .ok (s₁, true, actions ++ happened₁) := by
          unfold visit
          dsimp only
          rw [hfind]
          dsimp only
          rw [if_pos (network_eq_iff.mp hnetwork), hok₁]
          rfl
        rw [hvisit, ok_bind, hok₂, append_assoc]
      · rw [append_cons]
        exact hs₂
      · exact hfound.trans (iff_of_true (.inl rfl) (.inr ⟨x, mem_cons_self, hnetwork⟩))
    · rw [append_cons] at h
      obtain ⟨s', l', found', happened, hok, hs', hall, hfound, halike⟩ := ih h found actions
      refine ⟨s', x :: l', found', happened, ?_, ?_, .other hnetwork hall, ?_, halike⟩
      · have hvisit : visit r (s, found, actions) x.pointer = .ok (s, found, actions) := by
          unfold visit
          dsimp only
          rw [hfind]
          dsimp only
          rw [if_neg fun hsame => hnetwork (network_eq_iff.mpr hsame)]
        rw [hvisit, ok_bind, hok]
      · rw [append_cons]
        exact hs'
      · refine hfound.trans (or_congr_right ⟨fun ⟨y, hy, heq⟩ => ⟨y, mem_cons_of_mem _ hy,
          heq⟩, fun ⟨y, hy, heq⟩ => ?_⟩)
        obtain rfl | hy := mem_cons.mp hy
        · exact absurd heq hnetwork
        · exact ⟨y, hy, heq⟩

/-- What a response does. -/
inductive Responded (options : RipOptions) (now : ℕ) (r : Response) (l : List Holding) :
    List Holding → List RipAction → Prop
  | handled {l' : List Holding} {happened : List RipAction}
      (hall : HandledAll options now r l l' happened)
      (hfound : (∃ x ∈ l, x.route.network = r.network) ∨ r.rteMetric = options.m_linkDown) :
      Responded options now r l l' (toldFinite options now r ++ happened)
  | added (uid pointer : ℕ) (hnone : ∀ x ∈ l, x.route.network ≠ r.network)
      (hmetric : r.rteMetric ≠ options.m_linkDown) :
      Responded options now r l (⟨learnedRoute r pointer,
        some ⟨uid, now + options.m_timeoutDelay, .InvalidateRoute, pointer⟩⟩ :: l)
        (toldFinite options now r ++ [.learned pointer])

/-- Where no route is found, nothing is done. -/
theorem HandledAll.of_none {options : RipOptions} {now : ℕ} {l l' : List Holding}
    {happened : List RipAction} (h : HandledAll options now r l l' happened)
    (hnone : ∀ x ∈ l, x.route.network ≠ r.network) : l' = l ∧ happened = [] := by
  induction h with
  | nil => exact ⟨rfl, rfl⟩
  | other hnetwork hrest ih =>
    obtain ⟨rfl, rfl⟩ := ih fun x hx => hnone x (mem_cons_of_mem _ hx)
    exact ⟨rfl, rfl⟩
  | found hnetwork _ _ _ => exact absurd hnetwork (hnone _ mem_cons_self)

/-- One response keeps the table represented, whatever branch it takes. -/
theorem Represents.handleResponse (h : Represents s l) (r : Response) :
    ∃ s' l' actions, s.handleResponse r = .ok (s', actions) ∧ Represents s' l' ∧
      Responded s.options s.now r l l' actions ∧ Alike s s' := by
  obtain ⟨s', l', found, happened, hok, hs', hall, hfound, halike⟩ :=
    Represents.visitLoop (a := []) h r false (toldFinite s.options s.now r)
  have hloop : (s.m_routes.map Slot.pointer).foldlM (visit r)
      (s, false, toldFinite s.options s.now r) =
      .ok (s', found, toldFinite s.options s.now r ++ happened) := by
    rw [h.routes, map_slot_pointer]
    exact hok
  have hcall : s.handleResponse r =
      if !found && r.rteMetric != s.options.m_linkDown then
        .ok (s'.addResponse r,
          toldFinite s.options s.now r ++ happened ++ [.learned s'.nextPointer])
      else .ok (s', toldFinite s.options s.now r ++ happened) := by
    unfold Rip.handleResponse
    rw [hloop]
    rfl
  rw [hcall]
  split_ifs with hadd
  · rw [Bool.and_eq_true, Bool.not_eq_true', bne_iff_ne] at hadd
    have hnone : ∀ x ∈ l, x.route.network ≠ r.network := fun x hx heq => by
      rw [hfound.mpr (.inr ⟨x, hx, heq⟩)] at hadd
      cases hadd.1
    obtain ⟨rfl, rfl⟩ := hall.of_none hnone
    rw [append_nil]
    have hadded := hs'.addResponse r
    rw [halike.options, halike.now] at hadded
    exact ⟨_, _, _, rfl, hadded, .added _ _ hnone hadd.2,
      halike.trans ⟨rfl, rfl, Nat.le_succ _⟩⟩
  · refine ⟨_, _, _, rfl, hs', .handled hall ?_, halike⟩
    by_contra hnot
    rw [not_or] at hnot
    refine hadd (Bool.and_eq_true_iff.mpr ⟨?_, bne_iff_ne.mpr hnot.2⟩)
    rw [Bool.not_eq_true', ← Bool.not_eq_true]
    exact fun hfound' => hnot.1 ((hfound.mp hfound').resolve_left Bool.false_ne_true)

/-! ### Notifications and timers -/

/-- The loops that invalidate routes. -/
inductive InvalidatedAll (options : RipOptions) (now : ℕ) (p : RipRoutingTableEntry → Bool) :
    List Holding → List Holding → List RipAction → Prop
  | nil : InvalidatedAll options now p [] [] []
  | other {x : Holding} {l l' : List Holding} {actions : List RipAction}
      (hother : ¬ p x.route = true) (hrest : InvalidatedAll options now p l l' actions) :
      InvalidatedAll options now p (x :: l) (x :: l') actions
  | found {x : Holding} {l l' : List Holding} {actions : List RipAction} (uid : ℕ)
      (hfound : p x.route = true) (hrest : InvalidatedAll options now p l l' actions) :
      InvalidatedAll options now p (x :: l) (⟨invalid options x.route,
        some ⟨uid, now + options.m_garbageCollectionDelay, .DeleteRoute, x.pointer⟩⟩ :: l')
        (told x.route now ++ actions)

/-- Invalidating the routes that meet a test, one after the other. -/
theorem Represents.invalidateLoop (h : Represents s (a ++ l)) (p : RipRoutingTableEntry → Bool)
    (actions : List RipAction) :
    ∃ s' l' happened, (l.map Holding.pointer).foldlM (invalidateLoop p) (s, actions) =
        .ok (s', actions ++ happened) ∧ Represents s' (a ++ l') ∧
      InvalidatedAll s.options s.now p l l' happened ∧ Alike s s' := by
  induction l generalizing s a actions with
  | nil =>
    refine ⟨s, [], [], ?_, h, .nil, .rfl⟩
    rw [append_nil]
    rfl
  | cons x l ih =>
    rw [map_cons, foldlM_cons]
    have hfind := h.find (mem_append_right a mem_cons_self)
    by_cases hp : p x.route = true
    · obtain ⟨s₁, hok₁, hs₁, halike₁⟩ := h.invalidateRoute
      rw [append_cons] at hs₁
      obtain ⟨s₂, l', happened, hok₂, hs₂, hall, halike₂⟩ :=
        ih hs₁ (actions ++ told x.route s.now)
      rw [halike₁.options, halike₁.now] at hall
      refine ⟨s₂, ⟨invalid s.options x.route, some ⟨s.nextUid,
        s.now + s.options.m_garbageCollectionDelay, .DeleteRoute, x.pointer⟩⟩ :: l',
        told x.route s.now ++ happened, ?_, ?_, .found _ hp hall, halike₁.trans halike₂⟩
      · have hturn : Rip.invalidateLoop p (s, actions) x.pointer =
            .ok (s₁, actions ++ told x.route s.now) := by
          unfold Rip.invalidateLoop
          dsimp only
          rw [hfind]
          dsimp only
          rw [if_pos (show p x.slot.route = true from hp)]
          show (s.InvalidateRoute x.pointer >>= _ : Except Fault _) = _
          rw [hok₁]
          rfl
        rw [hturn, ok_bind, hok₂, append_assoc]
      · rw [append_cons]
        exact hs₂
    · rw [append_cons] at h
      obtain ⟨s', l', happened, hok, hs', hall, halike⟩ := ih h actions
      refine ⟨s', x :: l', happened, ?_, ?_, .other hp hall, halike⟩
      · have hturn : Rip.invalidateLoop p (s, actions) x.pointer = .ok (s, actions) := by
          unfold Rip.invalidateLoop
          dsimp only
          rw [hfind]
          dsimp only
          rw [if_neg (show ¬ p x.slot.route = true from hp)]
        rw [hturn, ok_bind, hok]
      · rw [append_cons]
        exact hs'

/-- The next timer runs. -/
theorem Represents.runTimer (h : Represents s l) (htimers : s.timers = timer :: rest) :
    ∃ a x b s' l' actions, l = a ++ x :: b ∧ x.timer = some timer ∧
      s.runTimer = .ok (s', actions) ∧ Represents s' l' ∧ Alike { s with now := timer.ts } s' ∧
      (timer.call = .InvalidateRoute ∧ actions = told x.route timer.ts ∧ (∃ uid,
          l' = a ++ ⟨invalid s.options x.route, some ⟨uid,
            timer.ts + s.options.m_garbageCollectionDelay, .DeleteRoute, x.pointer⟩⟩ :: b) ∨
        timer.call = .DeleteRoute ∧ actions = [.deleted x.route.network timer.ts] ∧
          l' = a ++ b) := by
  obtain ⟨a, x, b, rfl, hown, hpop⟩ := h.pop htimers
  have hroute : timer.route = x.pointer :=
    h.own x (mem_append_right a mem_cons_self) timer hown
  cases hcall : timer.call with
  | InvalidateRoute =>
    obtain ⟨s', hok, hs', halike⟩ :=
      Holds.invalidateRoute hpop (hpop.cancel (filter_others hpop))
    refine ⟨a, x, b, s', _, _, rfl, hown, ?_, hs', ⟨halike.1, halike.2, halike.3⟩,
      .inl ⟨rfl, rfl, _, rfl⟩⟩
    unfold Rip.runTimer
    rw [htimers]
    dsimp only
    rw [hcall, hroute]
    exact hok
  | DeleteRoute =>
    obtain ⟨s', hok, hs', halike⟩ := hpop.deleteRoute
    refine ⟨a, x, b, s', _, _, rfl, hown, ?_, hs', ⟨halike.1, halike.2, halike.3⟩,
      .inr ⟨rfl, rfl, rfl⟩⟩
    unfold Rip.runTimer
    rw [htimers]
    dsimp only
    rw [hcall, hroute]
    exact hok

end Ns3Joined.Internet.Rip
