import Ns3Joined.Internet.RipTimers
import Ns3Joined.Library.TracedRun

/-!
# What a RIP router holds

What is meant to hold of a router after every call (`Right`): of a valid route the metric is
finite, no two routes have the same network, a learned route has one timer, and what became
unreachable is deleted when the garbage-collection delay is over, unless a response with a finite
metric comes before. Since when a network is unreachable is read off the history
(`unreachableSince`).

* `routes_right`: it holds throughout every run whose calls are `Sound`: nobody repeats that an
  invalid route is unreachable when the router would listen, nothing is added twice, and nothing
  that is invalid is invalidated again.
* `infinite_metric_valid`: in a run without that, a route with an infinite metric becomes valid.
-/

namespace Ns3Joined.Internet.Rip

open List Bool

/-! ### What is meant -/

def sinceTurn (network : Ipv4Address × Ipv4Mask) : Option ℕ → RipAction → Option ℕ
  | since, .learned _ => since
  | since, .unreachable network' now => if network' = network then some now else since
  | since, .finite network' _ => if network' = network then none else since
  | since, .deleted network' _ => if network' = network then none else since

/-- When the valid route to a network was invalidated, if no response with a finite metric came
since, and it was not deleted. -/
def unreachableSince (h : List RipAction) (network : Ipv4Address × Ipv4Mask) : Option ℕ :=
  h.foldl (sinceTurn network) none

structure Right (s : Rip) (h : List RipAction) : Prop where
  metric : ∀ slot ∈ s.m_routes, slot.route.m_status = .RIP_VALID →
    1 ≤ slot.route.m_metric ∧ slot.route.m_metric < s.options.m_linkDown
  /-- What `Lookup` finds in the table is valid and can be reached. -/
  lookup : ∀ m_ipv4 dst interface route, dst.IsLocalMulticast = false →
    s.Lookup m_ipv4 dst interface = .ok (some route) → ∃ slot ∈ s.m_routes,
      slot.route.m_status = .RIP_VALID ∧ slot.route.m_metric < s.options.m_linkDown ∧
      route = toIpv4Route m_ipv4 slot.route
  distinct : (s.m_routes.map fun slot => slot.route.network).Nodup
  timers : (s.timers.map Timer.uid).Nodup
  timer : ∀ slot ∈ s.m_routes, .learned slot.pointer ∈ h →
    ∃! timer, timer ∈ s.timers ∧ timer.route = slot.pointer
  refers : ∀ timer ∈ s.timers, ∃ slot ∈ s.m_routes, slot.pointer = timer.route
  /-- A route that is invalid became unreachable. -/
  invalid : ∀ slot ∈ s.m_routes, slot.route.m_status = .RIP_INVALID →
    unreachableSince h slot.route.network ≠ none
  /-- What became unreachable is due to be deleted after the delay, and is not overdue. -/
  due : ∀ network since, unreachableSince h network = some since →
    s.now ≤ since + s.options.m_garbageCollectionDelay ∧
    ∃ slot ∈ s.m_routes, slot.route.network = network ∧ ∃ timer ∈ s.timers,
      timer.route = slot.pointer ∧ timer.call = .DeleteRoute ∧
      timer.ts = since + s.options.m_garbageCollectionDelay
  /-- What was deleted was unreachable for the delay. -/
  deleted : ∀ before after network now, h = before ++ .deleted network now :: after →
    ∃ since, unreachableSince before network = some since ∧
      now = since + s.options.m_garbageCollectionDelay

/-! ### When calls are made as they should be -/

/-- No route that is invalid is given an infinite metric by its gateway, or by another router when
its timer has less than half of the timeout left. -/
def SoundResponse (s : Rip) (r : Response) : Prop :=
  ∀ slot ∈ s.m_routes, slot.route.network = r.network → slot.route.m_status = .RIP_INVALID →
    r.rteMetric = s.options.m_linkDown →
    r.senderAddress ≠ slot.route.m_gateway ∧
      ¬ s.GetDelayLeft slot.event < s.options.m_timeoutDelay / 2

def SoundResponses (s : Rip) : List Response → Prop
  | [] => True
  | r :: rest => s.SoundResponse r ∧
      ∀ s' actions, s.handleResponse r = .ok (s', actions) → s'.SoundResponses rest

/-- The entries of a message that are processed. -/
def accepted (s : Rip) (rtes : List RipRte) (senderAddress : Ipv4Address)
    (incomingInterface : ℕ) : List Response :=
  if s.options.m_interfaceExclusions.contains incomingInterface then []
  else if rtes.all (isValidRte s.options) then
    rtes.map (response s.options senderAddress incomingInterface)
  else []

/-- The networks that an interface brings. -/
def globalNetworks (addresses : List Ipv4InterfaceAddress) : List (Ipv4Address × Ipv4Mask) :=
  (addresses.filter fun address => address.m_scope == .GLOBAL).map fun address =>
    (address.network, address.m_mask)

/-- The networks that are added are not held, and none is added twice. -/
def SoundNetworks (s : Rip) (networks : List (Ipv4Address × Ipv4Mask)) : Prop :=
  (s.m_routes.map (fun slot => slot.route.network) ++ networks).Nodup

/-- What is invalidated is valid, or became invalid just now. -/
def SoundInvalidate (s : Rip) (p : RipRoutingTableEntry → Bool) : Prop :=
  ∀ slot ∈ s.m_routes, p slot.route = true → slot.route.m_status = .RIP_INVALID →
    s.GetDelayLeft slot.event = s.options.m_garbageCollectionDelay

def Sound (s : Rip) : Call → Prop
  | .HandleResponses rtes senderAddress incomingInterface =>
    s.SoundResponses (s.accepted rtes senderAddress incomingInterface)
  | .NotifyInterfaceUp _ isLoopback addresses =>
    isLoopback = false → s.SoundNetworks (globalNetworks addresses)
  | .NotifyInterfaceDown interface =>
    s.SoundInvalidate fun route => route.m_interface == interface
  | .NotifyAddAddress interface isUp address =>
    isUp = true → s.options.m_interfaceExclusions.contains interface = false →
      s.SoundNetworks (globalNetworks [address])
  | .NotifyRemoveAddress interface isUp address =>
    isUp = true → address.m_scope = .GLOBAL → s.SoundInvalidate (isRemoved interface address)
  | .elapse _ => True
  | .runTimer => True

/-! ### Histories -/

variable {h happened : List RipAction} {network : Ipv4Address × Ipv4Mask}

/-- The time since which a network is unreachable is computed along the history. -/
theorem unreachableSince_append (h happened : List RipAction) :
    unreachableSince (h ++ happened) network =
      happened.foldl (sinceTurn network) (unreachableSince h network) := foldl_append

/-- What is said of other networks makes no difference. -/
theorem unreachableSince_of_ne
    (hother : ∀ since, ∀ action ∈ happened, sinceTurn network since action = since) :
    unreachableSince (h ++ happened) network = unreachableSince h network := by
  rw [unreachableSince_append]
  generalize unreachableSince h network = since
  induction happened with
  | nil => rfl
  | cons action happened ih =>
    rw [foldl_cons, hother since action mem_cons_self]
    exact ih fun since action haction => hother since action (mem_cons_of_mem _ haction)

variable {now delay pointer : ℕ} {r : Response} {p : RipRoutingTableEntry → Bool}

/-- After a network was learned again, only learning follows: it is reachable. -/
theorem unreachableSince_finite
    (hlearned : ∀ action ∈ happened, ∃ pointer, action = .learned pointer) :
    unreachableSince (h ++ .finite network now :: happened) network = none := by
  rw [append_cons, unreachableSince_of_ne fun since action hmem => ?_,
    unreachableSince_append]
  · exact if_pos rfl
  · obtain ⟨pointer, rfl⟩ := hlearned action hmem
    rfl

/-- What is said in one call is of one network only. -/
def About (network : Ipv4Address × Ipv4Mask) (happened : List RipAction) : Prop :=
  ∀ network', network' ≠ network → ∀ since, ∀ action ∈ happened,
    sinceTurn network' since action = since

/-- Nothing that happened concerns every network. -/
theorem About.nil : About network [] := fun _ _ _ _ hmem => absurd hmem not_mem_nil

/-- What concerns a network one after the other concerns it together. -/
theorem About.append {happened' : List RipAction} (h : About network happened)
    (h' : About network happened') : About network (happened ++ happened') :=
  fun network' hne since action hmem => (mem_append.mp hmem).elim
    (h network' hne since action) (h' network' hne since action)

theorem About.learned (pointer : ℕ) : About network [.learned pointer] :=
  fun _ _ _ _ hmem => by
    rw [mem_singleton.mp hmem]
    rfl

theorem About.unreachable (now : ℕ) : About network [.unreachable network now] :=
  fun _ hne _ _ hmem => by
    rw [mem_singleton.mp hmem]
    exact if_neg hne.symm

theorem About.finite (now : ℕ) : About network [.finite network now] :=
  fun _ hne _ _ hmem => by
    rw [mem_singleton.mp hmem]
    exact if_neg hne.symm

theorem About.deleted (now : ℕ) : About network [.deleted network now] :=
  fun _ hne _ _ hmem => by
    rw [mem_singleton.mp hmem]
    exact if_neg hne.symm

/-- What a route tells concerns the route's network. -/
theorem About.told (route : RipRoutingTableEntry) (now : ℕ) :
    About route.network (Rip.told route now) := by
  unfold Rip.told
  split_ifs
  · exact .unreachable now
  · exact .nil

/-- What was deleted was unreachable for as long as it must be. -/
def DeletedOnTime (delay : ℕ) (h : List RipAction) : Prop :=
  ∀ before after network now, h = before ++ .deleted network now :: after →
    ∃ since, unreachableSince before network = some since ∧ now = since + delay

/-- Actions without a deletion keep the deletions on time. -/
theorem DeletedOnTime.append (hold : DeletedOnTime delay h)
    (hnone : ∀ network now, .deleted network now ∉ happened) :
    DeletedOnTime delay (h ++ happened) := by
  intro before after network now heq
  obtain ⟨rest, rfl, hrest⟩ | ⟨rest, rfl, hrest⟩ := append_eq_append_iff.mp heq
  · exact absurd (hrest ▸ mem_append_right rest mem_cons_self) (hnone network now)
  · cases rest with
    | nil =>
      rw [nil_append] at hrest
      exact absurd (hrest ▸ mem_cons_self) (hnone network now)
    | cons action rest =>
      obtain ⟨rfl, -⟩ := cons_eq_cons.mp hrest
      exact hold before rest network now rfl

/-- A deletion exactly a delay after the network became unreachable is on time. -/
theorem DeletedOnTime.concat {since : ℕ} (hold : DeletedOnTime delay h)
    (hsince : unreachableSince h network = some since) :
    DeletedOnTime delay (h ++ [.deleted network (since + delay)]) := by
  intro before after network' now heq
  obtain ⟨rest, rfl, hrest⟩ | ⟨rest, rfl, hrest⟩ := append_eq_append_iff.mp heq
  · cases rest with
    | nil =>
      cases hrest
      rw [append_nil]
      exact ⟨since, hsince, rfl⟩
    | cons action rest => exact absurd (cons_eq_cons.mp hrest).2 (by simp)
  · cases rest with
    | nil =>
      cases hrest
      rw [append_nil] at hsince
      exact ⟨since, hsince, rfl⟩
    | cons action rest =>
      obtain ⟨rfl, -⟩ := cons_eq_cons.mp hrest
      exact hold before rest network' now rfl

/-! ### The invariant -/

/-- A route, with its timer, as it should be. -/
inductive Good (options : RipOptions) (h : List RipAction) (x : Holding) : Prop
  | valid (hstatus : x.route.m_status = .RIP_VALID) (hpos : 1 ≤ x.route.m_metric)
      (hlt : x.route.m_metric < options.m_linkDown)
      (hlearned : x.timer = none → .learned x.pointer ∉ h)
      (hcall : ∀ timer, x.timer = some timer → timer.call = .InvalidateRoute)
  | invalid (timer : Timer) (since : ℕ) (hstatus : x.route.m_status = .RIP_INVALID)
      (hmetric : x.route.m_metric = options.m_linkDown) (htimer : x.timer = some timer)
      (hcall : timer.call = .DeleteRoute)
      (hsince : unreachableSince h x.route.network = some since)
      (hts : timer.ts = since + options.m_garbageCollectionDelay)

/-- What the routes and the history have to do with each other. -/
structure Sane (options : RipOptions) (h : List RipAction) (l : List Holding) : Prop where
  good : ∀ x ∈ l, Good options h x
  networks : (l.map fun x => x.route.network).Nodup
  since : ∀ network since, unreachableSince h network = some since →
    ∃ x ∈ l, x.route.network = network ∧ x.route.m_status = .RIP_INVALID
  deleted : DeletedOnTime options.m_garbageCollectionDelay h

/-- The invariant of the runs. -/
structure Keeps (s : Rip) (h : List RipAction) (l : List Holding) : Prop where
  represents : Represents s l
  sane : Sane s.options h l
  linkDown : 1 < s.options.m_linkDown ∧ s.options.m_linkDown < 256
  learned_lt : ∀ pointer, .learned pointer ∈ h → pointer < s.nextPointer

variable {s s' : Rip} {options : RipOptions} {l l' a b : List Holding} {x x' y : Holding}

/-- What happens to one network leaves a route to another as good as it was. -/
theorem Good.of_about (hgood : Good options h y) (habout : About network happened)
    (hne : y.route.network ≠ network) (hlearned : .learned y.pointer ∉ happened) :
    Good options (h ++ happened) y := by
  cases hgood with
  | valid hstatus hpos hlt hold hcall =>
    refine .valid hstatus hpos hlt (fun hnone hmem => ?_) hcall
    exact (mem_append.mp hmem).elim (hold hnone) hlearned
  | invalid timer since hstatus hmetric htimer hcall hsince hts =>
    refine .invalid timer since hstatus hmetric htimer hcall ?_ hts
    rw [unreachableSince_of_ne (habout _ hne)]
    exact hsince

/-- Membership around a middle element. -/
theorem mem_middle : y ∈ a ++ x :: b ↔ y = x ∨ y ∈ a ++ b :=
  perm_middle.mem_iff.trans mem_cons

/-- A sane table has one route for each network. -/
theorem Sane.network_ne (hsane : Sane options h (a ++ x :: b)) (hy : y ∈ a ++ b) :
    y.route.network ≠ x.route.network := fun heq =>
  (nodup_cons.mp ((perm_middle.map _).nodup_iff.mp hsane.networks)).1
    (mem_map.mpr ⟨y, hy, heq⟩)

/-- One route is changed. -/
theorem Sane.change (hsane : Sane options h (a ++ x :: b)) (hgood : Good options (h ++ happened) x')
    (hnetwork : x'.route.network = x.route.network) (habout : About x.route.network happened)
    (hlearned : ∀ y ∈ a ++ b, .learned y.pointer ∉ happened)
    (hsince : ∀ since, unreachableSince (h ++ happened) x.route.network = some since →
      x'.route.m_status = .RIP_INVALID)
    (hnone : ∀ network now, .deleted network now ∉ happened) :
    Sane options (h ++ happened) (a ++ x' :: b) where
  good := fun y hy => by
    obtain rfl | hy := mem_middle.mp hy
    · exact hgood
    · exact (hsane.good y (mem_middle.mpr (.inr hy))).of_about habout (hsane.network_ne hy)
        (hlearned y hy)
  networks := by
    have hmap : (a ++ x' :: b).map (fun x => x.route.network) =
        (a ++ x :: b).map fun x => x.route.network := by
      rw [map_append, map_append, map_cons, map_cons, hnetwork]
    rw [hmap]
    exact hsane.networks
  since := fun network since hsome => by
    by_cases heq : network = x.route.network
    · subst heq
      exact ⟨x', mem_middle.mpr (.inl rfl), hnetwork, hsince since hsome⟩
    · rw [unreachableSince_of_ne (habout _ heq)] at hsome
      obtain ⟨y, hy, hynetwork, hstatus⟩ := hsane.since network since hsome
      obtain rfl | hy := mem_middle.mp hy
      · exact absurd hynetwork.symm heq
      · exact ⟨y, mem_middle.mpr (.inr hy), hynetwork, hstatus⟩
  deleted := hsane.deleted.append hnone

/-- A route to a network that was not held is added. -/
theorem Sane.add (hsane : Sane options h l) (hperm : l'.Perm (x :: l))
    (hgood : Good options (h ++ happened) x) (hnone : ∀ y ∈ l, y.route.network ≠ x.route.network)
    (habout : About x.route.network happened)
    (hlearned : ∀ y ∈ l, .learned y.pointer ∉ happened)
    (hsince : unreachableSince (h ++ happened) x.route.network = none)
    (hdeleted : ∀ network now, .deleted network now ∉ happened) :
    Sane options (h ++ happened) l' where
  good := fun y hy => by
    obtain rfl | hy := mem_cons.mp (hperm.mem_iff.mp hy)
    · exact hgood
    · exact (hsane.good y hy).of_about habout (hnone y hy) (hlearned y hy)
  networks := by
    refine ((hperm.map _).nodup_iff).mpr (nodup_cons.mpr ⟨fun hmem => ?_, hsane.networks⟩)
    obtain ⟨y, hy, heq⟩ := mem_map.mp hmem
    exact hnone y hy heq
  since := fun network since hsome => by
    have hne : network ≠ x.route.network := fun heq => by
      rw [heq, hsince] at hsome
      cases hsome
    rw [unreachableSince_of_ne (habout _ hne)] at hsome
    obtain ⟨y, hy, hrest⟩ := hsane.since network since hsome
    exact ⟨y, hperm.mem_iff.mpr (mem_cons_of_mem _ hy), hrest⟩
  deleted := hsane.deleted.append hdeleted

/-! ### Responses -/

/-- At most one route has the network of a response. -/
theorem HandledAll.split (hall : HandledAll options now r l l' happened)
    (hnodup : (l.map fun x => x.route.network).Nodup) :
    (l' = l ∧ happened = [] ∧ ∀ x ∈ l, x.route.network ≠ r.network) ∨
    ∃ a x x' b, l = a ++ x :: b ∧ l' = a ++ x' :: b ∧ x.route.network = r.network ∧
      Handled options now r x x' happened := by
  induction hall with
  | nil => exact .inl ⟨rfl, rfl, nofun⟩
  | @other y l l' actions hnetwork hrest ih =>
    obtain ⟨rfl, rfl, hnone⟩ | ⟨a, x, x', b, rfl, rfl, hx⟩ := ih (nodup_cons.mp hnodup).2
    · refine .inl ⟨rfl, rfl, fun x hx => ?_⟩
      obtain rfl | hx := mem_cons.mp hx
      · exact hnetwork
      · exact hnone x hx
    · exact .inr ⟨y :: a, x, x', b, rfl, rfl, hx⟩
  | @found x x' l l' happened actions hnetwork hhandled hrest ih =>
    have hnone : ∀ y ∈ l, y.route.network ≠ r.network := fun y hy heq =>
      (nodup_cons.mp hnodup).1 (mem_map.mpr ⟨y, hy, heq.trans hnetwork.symm⟩)
    obtain ⟨rfl, rfl⟩ := hrest.of_none hnone
    refine .inr ⟨[], x, x', l', rfl, rfl, hnetwork, ?_⟩
    rw [append_nil]
    exact hhandled

/-- A valid route stays as good whatever happens, if it is not learned again. -/
theorem Good.of_valid (hgood : Good options h x) (hstatus : x.route.m_status = .RIP_VALID)
    (hlearned : .learned x.pointer ∉ happened) : Good options (h ++ happened) x := by
  cases hgood with
  | valid _ hpos hlt hold hcall =>
    refine .valid hstatus hpos hlt (fun hnone hmem => ?_) hcall
    exact (mem_append.mp hmem).elim (hold hnone) hlearned
  | invalid _ _ hstatus' => exact absurd (hstatus.symm.trans hstatus') (by decide)

/-- No metric exceeds that of an unreachable network. -/
theorem Good.metric_le (hgood : Good options h x) : x.route.m_metric ≤ options.m_linkDown := by
  cases hgood with
  | valid _ _ hlt => exact Nat.le_of_lt hlt
  | invalid _ _ _ hmetric => exact Nat.le_of_eq hmetric

/-- A route with a finite metric is valid. -/
theorem Good.status_of_lt (hgood : Good options h x)
    (hlt : x.route.m_metric < options.m_linkDown) : x.route.m_status = .RIP_VALID := by
  cases hgood with
  | valid hstatus => exact hstatus
  | invalid _ _ _ hmetric => exact absurd hmetric (Nat.ne_of_lt hlt)

/-- A route with an infinite metric is invalid. -/
theorem Good.status_of_eq (hgood : Good options h x)
    (heq : x.route.m_metric = options.m_linkDown) : x.route.m_status = .RIP_INVALID := by
  cases hgood with
  | valid _ _ hlt => exact absurd heq (Nat.ne_of_lt hlt)
  | invalid _ _ hstatus => exact hstatus

/-- The metric of a response that is processed. -/
def Response.InRange (options : RipOptions) (r : Response) : Prop :=
  1 ≤ r.rteMetric ∧ r.rteMetric ≤ options.m_linkDown

/-- A finite response makes the route valid, or leaves it so. -/
theorem Handled.good_of_finite (hhandled : Handled options now r x x' happened)
    (hgood : Good options h x) (hlinkDown : options.m_linkDown < 256) (hpos : 1 ≤ r.rteMetric)
    (hfinite : r.rteMetric < options.m_linkDown) (hnetwork : x.route.network = r.network) :
    Good options (h ++ (.finite r.network now :: happened)) x' ∧
      x'.route.network = x.route.network ∧
      ∀ action ∈ happened, action = .learned x'.pointer := by
  have hmod : r.rteMetric % 256 = r.rteMetric := Nat.mod_eq_of_lt (Nat.lt_trans hfinite hlinkDown)
  have hlearn (route : RipRoutingTableEntry) :
      1 ≤ (learn route r.rteMetric r.tag).m_metric ∧
      (learn route r.rteMetric r.tag).m_metric < options.m_linkDown := by
    rw [learn_eq]
    dsimp only
    rw [hmod]
    exact ⟨hpos, hfinite⟩
  have hstatus (route : RipRoutingTableEntry) :
      (learn route r.rteMetric r.tag).m_status = .RIP_VALID := by rw [learn_eq]
  cases hhandled with
  | replaced uid pointer hsender hmetric =>
    refine ⟨.valid (hstatus _) (hlearn _).1 (hlearn _).2 nofun ?_, ?_, ?_⟩
    · rintro timer ⟨⟩
      rfl
    · rw [hnetwork, learn_eq]
      rfl
    · intro action hmem
      rw [mem_singleton.mp hmem, Holding.pointer, learn_pointer]
      rfl
  | updated uid hsender hmetric =>
    refine ⟨.valid (hstatus _) (hlearn _).1 (hlearn _).2 nofun ?_, ?_, nofun⟩
    · rintro timer ⟨⟩
      rfl
    · rw [learn_eq]
      rfl
  | refreshed uid hsender hmetric =>
    rw [hmetric] at hpos hfinite
    refine ⟨.valid (hgood.status_of_lt hfinite) hpos hfinite nofun ?_, rfl, nofun⟩
    rintro timer ⟨⟩
    rfl
  | invalidated uid hsender hmetric hdown => exact absurd hfinite hdown
  | ignored hsender hmetric =>
    have hlt : x.route.m_metric < options.m_linkDown := by
      obtain hmore | ⟨heq, -⟩ := hmetric
      · exact Nat.lt_trans hmore hfinite
      · exact heq ▸ hfinite
    refine ⟨hgood.of_valid (hgood.status_of_lt hlt) fun hmem => ?_, rfl, nofun⟩
    obtain heq | hmem := mem_cons.mp hmem
    · cases heq
    · cases hmem

/-- An infinite response invalidates the route, or does nothing. -/
theorem Handled.good_of_infinite (hhandled : Handled options now r x x' happened)
    (hgood : Good options h x) (hlinkDown : options.m_linkDown < 256)
    (hinfinite : r.rteMetric = options.m_linkDown)
    (hsound : x.route.m_status = .RIP_INVALID → r.senderAddress ≠ x.route.m_gateway ∧
      ¬ x.delayLeft now < options.m_timeoutDelay / 2) :
    x' = x ∧ happened = [] ∨ Good options (h ++ happened) x' ∧
      x'.route.network = x.route.network ∧ x'.route.m_status = .RIP_INVALID ∧
      happened = [.unreachable x.route.network now] := by
  have hle := hgood.metric_le
  rw [← hinfinite] at hle
  cases hhandled with
  | replaced uid pointer hsender hmetric =>
    obtain hless | ⟨heq, hhalf⟩ := hmetric
    · exact absurd hless (Nat.not_lt_of_le hle)
    · exact absurd hhalf (hsound (hgood.status_of_eq (heq.symm.trans hinfinite))).2
  | updated uid hsender hmetric =>
    obtain hless | ⟨-, hfinite⟩ := hmetric
    · exact absurd hless (Nat.not_lt_of_le hle)
    · exact absurd hinfinite (Nat.ne_of_lt hfinite)
  | refreshed uid hsender hmetric =>
    exact absurd hsender (hsound (hgood.status_of_eq (hmetric.symm.trans hinfinite))).1
  | invalidated uid hsender hmetric hdown =>
    rw [hinfinite] at hmetric
    have htold : told x.route now = [.unreachable x.route.network now] :=
      if_pos (hgood.status_of_lt hmetric)
    have hnetwork : (invalid options x.route).network = x.route.network := by
      rw [invalid_eq]
      rfl
    have hmetric' : (invalid options x.route).m_metric = options.m_linkDown := by
      rw [invalid_eq]
      exact Nat.mod_eq_of_lt hlinkDown
    have hstatus : (invalid options x.route).m_status = .RIP_INVALID := by rw [invalid_eq]
    refine .inr ⟨.invalid _ now hstatus hmetric' rfl rfl ?_ rfl, hnetwork, hstatus, htold⟩
    rw [htold, unreachableSince_append, hnetwork]
    exact if_pos rfl
  | ignored => exact .inl ⟨rfl, rfl⟩

/-- What a call says and does, when the history and the table go on together. -/
theorem Keeps.next (hk : Keeps s h l) (hs' : Represents s' l') (halike : Alike s s')
    (hsane : Sane s.options (h ++ happened) l')
    (hlearned : ∀ pointer, .learned pointer ∈ happened → pointer < s'.nextPointer) :
    Keeps s' (h ++ happened) l' where
  represents := hs'
  sane := halike.options ▸ hsane
  linkDown := halike.options ▸ hk.linkDown
  learned_lt := fun pointer hmem => (mem_append.mp hmem).elim
    (fun hold => Nat.lt_of_lt_of_le (hk.learned_lt pointer hold) halike.nextPointer_le)
    (hlearned pointer)

theorem SoundResponse.holding (hsound : s.SoundResponse r) (hs : Represents s l) (hx : x ∈ l)
    (hnetwork : x.route.network = r.network) (hinfinite : r.rteMetric = s.options.m_linkDown)
    (hstatus : x.route.m_status = .RIP_INVALID) :
    r.senderAddress ≠ x.route.m_gateway ∧
      ¬ x.delayLeft s.now < s.options.m_timeoutDelay / 2 := by
  have hmem : x.slot ∈ s.m_routes := hs.routes ▸ mem_map_of_mem hx
  have hslot := hsound x.slot hmem hnetwork hstatus hinfinite
  rw [hs.getDelayLeft hx] at hslot
  exact hslot

/-- One entry of a response. -/
theorem Keeps.handleResponse (hk : Keeps s h l) (hr : r.InRange s.options)
    (hsound : s.SoundResponse r) :
    ∃ s' l' actions, s.handleResponse r = .ok (s', actions) ∧ Keeps s' (h ++ actions) l' ∧
      s'.options = s.options := by
  obtain ⟨s', l', actions, hok, hs', hresponded, halike⟩ := hk.represents.handleResponse r
  refine ⟨s', l', actions, hok, ?_, halike.options⟩
  cases hresponded with
  | @handled _ happened hall hfound =>
    obtain ⟨rfl, rfl, hnone⟩ | ⟨a, x, x', b, rfl, rfl, hnetwork, hhandled⟩ :=
      hall.split hk.sane.networks
    · -- the network is not held, and is not held after an infinite metric either
      have hinfinite := hfound.resolve_left fun ⟨x, hx, heq⟩ => hnone x hx heq
      have htold : toldFinite s.options s.now r = [] :=
        if_neg (Nat.not_lt_of_le (Nat.le_of_eq hinfinite.symm))
      rw [htold]
      refine hk.next hs' halike ?_ nofun
      rw [append_nil, append_nil]
      exact hk.sane
    have hx : x ∈ a ++ x :: b := mem_append_right a mem_cons_self
    have hgood := hk.sane.good x hx
    -- a held route: it is as good as before, or the network is unreachable now
    by_cases hfinite : r.rteMetric < s.options.m_linkDown
    · have htold : toldFinite s.options s.now r = [.finite r.network s.now] := if_pos hfinite
      obtain ⟨hgood', hnetwork', hlearned⟩ :=
        hhandled.good_of_finite hgood hk.linkDown.2 hr.1 hfinite hnetwork
      have habout : About x.route.network (.finite r.network s.now :: happened) := by
        have hfirst : About x.route.network [.finite r.network s.now] := hnetwork ▸ .finite s.now
        refine hfirst.append fun network' hne since action hmem => ?_
        rw [hlearned action hmem]
        rfl
      rw [htold, singleton_append]
      refine hk.next hs' halike (hk.sane.change hgood' hnetwork' habout (fun y hy hmem => ?_)
        (fun since hsome => ?_) fun network now hmem => ?_) fun pointer hmem => ?_
      · obtain heq | hmem := mem_cons.mp hmem
        · cases heq
        · exact hs'.pointer_ne hy (RipAction.learned.inj (hlearned _ hmem))
      · rw [hnetwork, unreachableSince_finite fun action hmem => ⟨_, hlearned action hmem⟩] at hsome
        cases hsome
      · obtain heq | hmem := mem_cons.mp hmem
        · cases heq
        · cases hlearned _ hmem
      · obtain heq | hmem := mem_cons.mp hmem
        · cases heq
        · rw [RipAction.learned.inj (hlearned _ hmem)]
          exact hs'.pointer_lt x' (mem_append_right a mem_cons_self)
    · have hinfinite := Nat.le_antisymm hr.2 (Nat.le_of_not_lt hfinite)
      have htold : toldFinite s.options s.now r = [] := if_neg hfinite
      rw [htold, nil_append]
      obtain ⟨rfl, rfl⟩ | ⟨hgood', hnetwork', hstatus, rfl⟩ := hhandled.good_of_infinite hgood
        hk.linkDown.2 hinfinite (hsound.holding hk.represents hx hnetwork hinfinite)
      · -- the holding is what it was
        refine hk.next hs' halike ?_ nofun
        rw [append_nil]
        exact hk.sane
      · refine hk.next hs' halike (hk.sane.change hgood' hnetwork' (.unreachable s.now) ?_
          (fun _ _ => hstatus) ?_) ?_
        all_goals simp
  | added uid pointer hnone hmetric =>
    have hfinite := Nat.lt_of_le_of_ne hr.2 hmetric
    have htold : toldFinite s.options s.now r = [.finite r.network s.now] := if_pos hfinite
    have hmod : r.rteMetric % 256 = r.rteMetric :=
      Nat.mod_eq_of_lt (Nat.lt_trans hfinite hk.linkDown.2)
    have hmem : ∀ action ∈ ([.finite r.network s.now, .learned pointer] : List RipAction),
        action = .finite r.network s.now ∨ action = .learned pointer := fun action hmem =>
      (mem_cons.mp hmem).imp_right mem_singleton.mp
    -- a route that was not held
    set new : Holding := ⟨learnedRoute r pointer, some ⟨uid, s.now + s.options.m_timeoutDelay,
      .InvalidateRoute, pointer⟩⟩ with hnew
    have hnetwork : new.route.network = r.network := by
      rw [hnew, learnedRoute_eq]
      rfl
    have hpointer : new.pointer = pointer := learnedRoute_pointer r pointer
    have hgood : Good s.options (h ++ [.finite r.network s.now, .learned pointer]) new := by
      refine .valid ?_ ?_ ?_ nofun ?_
      · rw [hnew, learnedRoute_eq]
      · rw [hnew, learnedRoute_eq]
        exact hmod.symm ▸ hr.1
      · rw [hnew, learnedRoute_eq]
        exact hmod.symm ▸ hfinite
      · rintro timer ⟨⟩
        rfl
    have habout : About new.route.network [.finite r.network s.now, .learned pointer] := by
      have hfirst : About r.network [.finite r.network s.now] := .finite s.now
      exact hnetwork ▸ hfirst.append (.learned pointer)
    have hsince : unreachableSince (h ++ [.finite r.network s.now, .learned pointer])
        new.route.network = none := by
      rw [hnetwork]
      exact unreachableSince_finite fun action hmem => ⟨pointer, mem_singleton.mp hmem⟩
    rw [htold, singleton_append]
    refine hk.next hs' halike (hk.sane.add (.refl _) hgood
      (fun y hy => hnetwork ▸ hnone y hy) habout (fun y hy hlearned => ?_) hsince
      fun network now hdeleted => ?_) fun other hlearned => ?_
    · obtain heq | heq := hmem _ hlearned
      · cases heq
      · have hne := (nodup_cons.mp hs'.pointers).1
        rw [← RipAction.learned.inj heq] at hpointer
        exact hne (mem_map.mpr ⟨y, hy, hpointer.symm⟩)
    · obtain heq | heq := hmem _ hdeleted
      · cases heq
      · cases heq
    · obtain heq | heq := hmem _ hlearned
      · cases heq
      · rw [RipAction.learned.inj heq, ← hpointer]
        exact hs'.pointer_lt new mem_cons_self

/-- The responses of a message, one after the other, keep the table. -/
theorem Keeps.handleResponseList (hk : Keeps s h l) {responses : List Response}
    (hr : ∀ r ∈ responses, r.InRange s.options) (hsound : s.SoundResponses responses) :
    ∃ s' l' actions, s.handleResponseList responses = .ok (s', actions) ∧
      Keeps s' (h ++ actions) l' := by
  induction responses generalizing s h l with
  | nil =>
    refine ⟨s, l, [], rfl, ?_⟩
    rw [append_nil]
    exact hk
  | cons r responses ih =>
    obtain ⟨s₁, l₁, actions₁, hok₁, hk₁, hoptions⟩ :=
      hk.handleResponse (hr r mem_cons_self) hsound.1
    obtain ⟨s₂, l₂, actions₂, hok₂, hk₂⟩ := ih hk₁
      (fun r' hr' => hoptions ▸ hr r' (mem_cons_of_mem _ hr')) (hsound.2 s₁ actions₁ hok₁)
    refine ⟨s₂, l₂, actions₁ ++ actions₂, ?_, ?_⟩
    · rw [Rip.handleResponseList, hok₁, ExceptFold.ok_bind]
      dsimp only
      rw [hok₂]
      rfl
    · rw [← append_assoc]
      exact hk₂

/-- Handling a message is handling the responses it was accepted as. -/
theorem HandleResponses_eq (s : Rip) (rtes : List RipRte) (senderAddress : Ipv4Address)
    (incomingInterface : ℕ) : s.HandleResponses rtes senderAddress incomingInterface =
      s.handleResponseList (s.accepted rtes senderAddress incomingInterface) := by
  unfold Rip.HandleResponses accepted
  split_ifs <;> rfl

/-- The metrics of what is processed have been validated. -/
theorem inRange_of_mem_accepted (hlinkDown : 1 < s.options.m_linkDown ∧ s.options.m_linkDown < 256)
    {rtes : List RipRte} {senderAddress : Ipv4Address} {incomingInterface : ℕ}
    (hr : r ∈ s.accepted rtes senderAddress incomingInterface) : r.InRange s.options := by
  unfold accepted at hr
  split_ifs at hr with hexcluded hall
  · cases hr
  · obtain ⟨rte, hrte, rfl⟩ := mem_map.mp hr
    have hvalid := all_eq_true.mp hall rte hrte
    simp only [isValidRte, and_eq_true, not_eq_true', or_eq_false_iff,
      beq_eq_false_iff_ne, decide_eq_false_iff_not] at hvalid
    have hmetric := UInt8.toNat_lt ((s.options.m_interfaceMetrics incomingInterface).getD 1)
    refine ⟨Nat.le_min.mpr ⟨?_, Nat.le_of_lt hlinkDown.1⟩, Nat.min_le_right _ _⟩
    rw [GetInterfaceMetric, Nat.mod_eq_of_lt (by omega)]
    omega
  · cases hr

/-! ### Notifications and timers -/

/-- Adding a route for an interface's network keeps the table where the network is new. -/
theorem Keeps.addNetworkRouteTo (hk : Keeps s h l) {address : Ipv4Address} {mask : Ipv4Mask}
    (hnone : ∀ x ∈ l, x.route.network ≠ (address, mask)) (interface : ℕ) :
    Keeps (s.AddNetworkRouteTo address mask interface) h
      (l ++ [⟨localRoute s.nextPointer address mask interface, none⟩]) := by
  have hadd := hk.represents.addNetworkRouteTo address mask interface
  have hfresh : RipAction.learned s.nextPointer ∉ h ++ [] := fun hmem => by
    rw [append_nil] at hmem
    exact Nat.lt_irrefl _ (hk.learned_lt _ hmem)
  have hnew : unreachableSince (h ++ []) (address, mask) = none := by
    rw [append_nil]
    cases hsince : unreachableSince h (address, mask) with
    | none => rfl
    | some since =>
      obtain ⟨x, hx, heq, -⟩ := hk.sane.since _ since hsince
      exact absurd heq (hnone x hx)
  have hsane := hk.sane.add (perm_append_singleton
      ⟨localRoute s.nextPointer address mask interface, none⟩ l)
    (.valid rfl (Nat.le_refl 1) hk.linkDown.1 (fun _ => hfresh) nofun) hnone .nil nofun hnew nofun
  rw [← append_nil h]
  exact hk.next hadd ⟨rfl, rfl, Nat.le_succ _⟩ hsane nofun

/-- The networks of an interface are added. -/
theorem Keeps.addNetworks (hk : Keeps s h l) {addresses : List Ipv4InterfaceAddress}
    (hnodup : (l.map (fun x => x.route.network) ++
      addresses.map fun address => (address.network, address.m_mask)).Nodup) (interface : ℕ) :
    ∃ l', Keeps (addresses.foldl (fun s address =>
      s.AddNetworkRouteTo address.network address.m_mask interface) s) h l' := by
  induction addresses generalizing s l with
  | nil => exact ⟨l, hk⟩
  | cons address addresses ih =>
    have hnone : ∀ x ∈ l, x.route.network ≠ (address.network, address.m_mask) := fun x hx heq =>
      disjoint_of_nodup_append hnodup (mem_map.mpr ⟨x, hx, heq⟩) mem_cons_self
    refine ih (hk.addNetworkRouteTo hnone interface) ?_
    rw [map_append, append_assoc]
    exact hnodup

/-- The networks of the table are those of the entries that represent it. -/
theorem Represents.networks (hs : Represents s l) :
    s.m_routes.map (fun slot => slot.route.network) = l.map fun x => x.route.network := by
  rw [hs.routes, map_map]
  rfl

/-- A route is invalidated that was valid, or became invalid just now. -/
theorem Sane.invalidate (hsane : Sane options h (a ++ x :: b)) (uid : ℕ)
    (hlinkDown : options.m_linkDown < 256) (hnow : ∀ timer, x.timer = some timer → now ≤ timer.ts)
    (hsound : x.route.m_status = .RIP_INVALID →
      x.delayLeft now = options.m_garbageCollectionDelay) :
    Sane options (h ++ told x.route now) (a ++ ⟨invalid options x.route, some ⟨uid,
      now + options.m_garbageCollectionDelay, .DeleteRoute, x.pointer⟩⟩ :: b) := by
  have hnetwork : (invalid options x.route).network = x.route.network := by
    rw [invalid_eq]
    rfl
  have hmetric : (invalid options x.route).m_metric = options.m_linkDown := by
    rw [invalid_eq]
    exact Nat.mod_eq_of_lt hlinkDown
  have hstatus : (invalid options x.route).m_status = .RIP_INVALID := by rw [invalid_eq]
  have htold : ∀ action ∈ told x.route now, action = .unreachable x.route.network now := by
    unfold told
    split_ifs
    · exact fun action hmem => mem_singleton.mp hmem
    · exact nofun
  refine hsane.change (.invalid _ now hstatus hmetric rfl rfl ?_ rfl) hnetwork (.told _ _) ?_
    (fun _ _ => hstatus) ?_
  · rw [hnetwork]
    cases hsane.good x (mem_append_right a mem_cons_self) with
    | valid hvalid =>
      rw [told, if_pos hvalid, unreachableSince_append]
      exact if_pos rfl
    | invalid timer since hinvalid _ htimer _ hsince hts =>
      -- it became unreachable just now, and is due as before
      have hdelay := hsound hinvalid
      have hle := hnow timer htimer
      rw [Holding.delayLeft, htimer] at hdelay
      have hleft : timer.ts - now = options.m_garbageCollectionDelay := hdelay
      have hnotValid : x.route.m_status ≠ .RIP_VALID := fun hvalid =>
        absurd (hvalid.symm.trans hinvalid) (by decide)
      rw [told, if_neg hnotValid, append_nil, hsince]
      exact congrArg some (by omega)
  · intro y _ hmem
    cases htold _ hmem
  · intro network' now' hmem
    cases htold _ hmem

/-- Invalidating a route learns nothing. -/
theorem not_learned_of_told {route : RipRoutingTableEntry} : .learned pointer ∉ told route now := by
  unfold told
  split_ifs
  · exact fun hmem => by cases mem_singleton.mp hmem
  · exact not_mem_nil

/-- Invalidating several routes learns nothing. -/
theorem InvalidatedAll.not_learned (hall : InvalidatedAll options now p l l' happened) :
    .learned pointer ∉ happened := by
  induction hall with
  | nil => exact not_mem_nil
  | other _ _ ih => exact ih
  | found _ _ _ ih => exact fun hmem => (mem_append.mp hmem).elim not_learned_of_told ih

/-- Invalidating routes keeps the table sane. -/
theorem Sane.invalidateAll (hall : InvalidatedAll options now p l l' happened)
    (hsane : Sane options h (a ++ l)) (hlinkDown : options.m_linkDown < 256)
    (hnow : ∀ x ∈ l, ∀ timer, x.timer = some timer → now ≤ timer.ts)
    (hsound : ∀ x ∈ l, p x.route = true → x.route.m_status = .RIP_INVALID →
      x.delayLeft now = options.m_garbageCollectionDelay) :
    Sane options (h ++ happened) (a ++ l') := by
  induction hall generalizing h a with
  | nil =>
    rw [append_nil]
    exact hsane
  | other _ _ ih =>
    rw [append_cons] at hsane ⊢
    exact ih hsane (fun x hx => hnow x (mem_cons_of_mem _ hx))
      fun x hx => hsound x (mem_cons_of_mem _ hx)
  | found uid hp _ ih =>
    have hsane' := hsane.invalidate uid hlinkDown (hnow _ mem_cons_self)
      (hsound _ mem_cons_self hp)
    rw [append_cons] at hsane' ⊢
    rw [← append_assoc]
    exact ih hsane' (fun x hx => hnow x (mem_cons_of_mem _ hx))
      fun x hx => hsound x (mem_cons_of_mem _ hx)

/-- No timer is already due. -/
theorem Represents.now_le_ts (hs : Represents s l) (hx : x ∈ l) (timer : Timer)
    (htimer : x.timer = some timer) : s.now ≤ timer.ts :=
  hs.now_le timer (hs.timers.mem_iff.mpr (mem_filterMap.mpr ⟨x, hx, htimer⟩))

/-- The loops of the notifications. -/
theorem Keeps.invalidateLoop (hk : Keeps s h l) (hsound : s.SoundInvalidate p) :
    ∃ s' l' actions, (s.m_routes.map Slot.pointer).foldlM (invalidateLoop p) (s, []) =
      .ok (s', actions) ∧ Keeps s' (h ++ actions) l' := by
  have hs : Represents s ([] ++ l) := hk.represents
  obtain ⟨s', l', actions, hok, hs', hall, halike⟩ := hs.invalidateLoop p []
  refine ⟨s', l', actions, ?_, hk.next hs' halike ?_ fun pointer hmem => absurd hmem
    hall.not_learned⟩
  · rw [hk.represents.routes, map_slot_pointer]
    exact hok
  · refine Sane.invalidateAll (a := []) hall hk.sane hk.linkDown.2
      (fun x hx => hk.represents.now_le_ts hx) fun x hx hp hstatus => ?_
    have hmem : x.slot ∈ s.m_routes := hk.represents.routes ▸ mem_map_of_mem hx
    rw [← hk.represents.getDelayLeft hx]
    exact hsound x.slot hmem hp hstatus

/-- Time passing keeps the table. -/
theorem Keeps.elapse (hk : Keeps s h l) (delay : ℕ) : Keeps (s.elapse delay) h l where
  represents := hk.represents.elapse delay
  __ := hk

/-- A route is deleted when it is due. -/
theorem Sane.delete {timer : Timer} (hsane : Sane options h (a ++ x :: b))
    (htimer : x.timer = some timer) (hcall : timer.call = .DeleteRoute) :
    Sane options (h ++ [.deleted x.route.network timer.ts]) (a ++ b) := by
  obtain ⟨-, -, -, -, hvalid⟩ | ⟨timer', since, -, -, htimer', -, hsince, hts⟩ :=
    hsane.good x (mem_append_right a mem_cons_self)
  · exact absurd ((hvalid timer htimer).symm.trans hcall) (by decide)
  obtain rfl := Option.some.inj (htimer'.symm.trans htimer)
  exact {
    good := fun y hy => (hsane.good y (mem_middle.mpr (.inr hy))).of_about (.deleted timer'.ts)
      (hsane.network_ne hy) fun hmem => by cases mem_singleton.mp hmem
    networks := (nodup_cons.mp ((perm_middle.map _).nodup_iff.mp hsane.networks)).2
    since := fun network since' hsome => by
      have hne : network ≠ x.route.network := by
        rintro rfl
        rw [unreachableSince_append] at hsome
        exact absurd ((if_pos rfl).symm.trans hsome) nofun
      rw [unreachableSince_of_ne (About.deleted timer'.ts network hne)] at hsome
      obtain ⟨y, hy, hnetwork, hstatus⟩ := hsane.since network since' hsome
      obtain rfl | hy := mem_middle.mp hy
      · exact absurd hnetwork.symm hne
      · exact ⟨y, hy, hnetwork, hstatus⟩
    deleted := by
      rw [hts]
      exact hsane.deleted.concat hsince }

/-- The next timer runs: a timeout, or a garbage collection. -/
theorem Keeps.runTimer (hk : Keeps s h l) :
    ∃ s' l' actions, s.runTimer = .ok (s', actions) ∧ Keeps s' (h ++ actions) l' := by
  cases htimers : s.timers with
  | nil =>
    refine ⟨s, l, [], ?_, ?_⟩
    · unfold Rip.runTimer
      rw [htimers]
    · rw [append_nil]
      exact hk
  | cons timer rest =>
    obtain ⟨a, x, b, s', l', actions, rfl, htimer, hok, hs', halike, hcall⟩ :=
      hk.represents.runTimer htimers
    have hx := hk.sane.good x (mem_append_right a mem_cons_self)
    have hkeeps (hsane : Sane s.options (h ++ actions) l')
        (hlearned : ∀ pointer, .learned pointer ∉ actions) : Keeps s' (h ++ actions) l' := {
      represents := hs'
      sane := halike.options ▸ hsane
      linkDown := halike.options ▸ hk.linkDown
      learned_lt := fun pointer hmem => Nat.lt_of_lt_of_le (hk.learned_lt pointer
        ((mem_append.mp hmem).resolve_right (hlearned pointer))) halike.nextPointer_le }
    obtain ⟨hinvalidate, rfl, uid, rfl⟩ | ⟨hdelete, rfl, rfl⟩ := hcall
    · refine ⟨s', _, _, hok, hkeeps (hk.sane.invalidate uid hk.linkDown.2 ?_ fun hstatus => ?_)
        fun pointer => not_learned_of_told⟩
      · intro timer' htimer'
        exact Nat.le_of_eq (congrArg Timer.ts (Option.some.inj (htimer.symm.trans htimer')))
      · obtain ⟨hvalid, -⟩ | ⟨timer', since, -, -, htimer', hcall', -⟩ := hx
        · exact absurd (hvalid.symm.trans hstatus) (by decide)
        · obtain rfl := Option.some.inj (htimer'.symm.trans htimer)
          exact absurd (hinvalidate.symm.trans hcall') (by decide)
    · refine ⟨s', _, _, hok, hkeeps (hk.sane.delete htimer hdelete) fun pointer hmem => ?_⟩
      cases mem_singleton.mp hmem

/-! ### Runs -/

/-- Every sound call succeeds and keeps the table. -/
theorem Keeps.step (hk : Keeps s h l) {call : Call} (hsound : s.Sound call) :
    ∃ s' l' actions, s.step call = .ok (s', actions) ∧ Keeps s' (h ++ actions) l' := by
  have hsame : Keeps s (h ++ []) l := (append_nil h).symm ▸ hk
  cases call with
  | HandleResponses rtes senderAddress incomingInterface =>
    obtain ⟨s', l', actions, hok, hk'⟩ :=
      hk.handleResponseList (fun r hr => inRange_of_mem_accepted hk.linkDown hr) hsound
    exact ⟨s', l', actions, (HandleResponses_eq _ _ _ _).trans hok, hk'⟩
  | NotifyInterfaceUp i isLoopback addresses =>
    cases isLoopback with
    | true => exact ⟨s, l, [], rfl, hsame⟩
    | false =>
      have hnodup := hsound rfl
      rw [SoundNetworks, hk.represents.networks] at hnodup
      obtain ⟨l', hk'⟩ := hk.addNetworks hnodup i
      exact ⟨_, l', [], rfl, (append_nil h).symm ▸ hk'⟩
  | NotifyInterfaceDown interface => exact hk.invalidateLoop hsound
  | NotifyAddAddress interface isUp address =>
    show ∃ s' l' actions, Except.ok (s.NotifyAddAddress interface isUp address, []) =
      Except.ok (s', actions) ∧ _
    unfold Rip.NotifyAddAddress
    split_ifs with hdown hexcluded hscope
    · exact ⟨s, l, [], rfl, hsame⟩
    · exact ⟨s, l, [], rfl, hsame⟩
    · have hnodup := hsound (by simpa using hdown) (eq_false_iff.mpr hexcluded)
      have hglobal : globalNetworks [address] = [(address.network, address.m_mask)] := by
        unfold globalNetworks
        rw [filter_singleton, hscope]
        rfl
      rw [SoundNetworks, hk.represents.networks, hglobal] at hnodup
      have hnone : ∀ x ∈ l, x.route.network ≠ (address.network, address.m_mask) :=
        fun x hx heq => disjoint_of_nodup_append hnodup (mem_map.mpr ⟨x, hx, heq⟩)
          mem_cons_self
      exact ⟨_, _, [], rfl, (append_nil h).symm ▸ hk.addNetworkRouteTo hnone interface⟩
    · exact ⟨s, l, [], rfl, hsame⟩
  | NotifyRemoveAddress interface isUp address =>
    show ∃ s' l' actions, s.NotifyRemoveAddress interface isUp address = .ok (s', actions) ∧ _
    unfold Rip.NotifyRemoveAddress
    split_ifs with hdown hscope
    · exact ⟨s, l, [], rfl, hsame⟩
    · exact ⟨s, l, [], rfl, hsame⟩
    · exact hk.invalidateLoop (hsound (by simpa using hdown) (not_not.mp hscope))
  | elapse delay => exact ⟨_, l, [], rfl, (append_nil h).symm ▸ hk.elapse delay⟩
  | runTimer => exact hk.runTimer

/-- What `Lookup` settles for is in the table. -/
theorem lookup_mem {m_ipv4 : Ipv4} {dst : Ipv4Address} {interface : Option ℕ} {route : Ipv4Route}
    {slots : List Slot} {best : Option Ipv4Route × ℕ}
    (hroute : (slots.foldl (lookupTurn m_ipv4 dst interface) best).1 = some route) :
    best.1 = some route ∨ ∃ slot ∈ slots, slot.route.m_status = .RIP_VALID ∧
      route = toIpv4Route m_ipv4 slot.route := by
  induction slots generalizing best with
  | nil => exact .inl hroute
  | cons slot slots ih =>
    obtain hbest | ⟨other, hmem, hrest⟩ := ih hroute
    · unfold lookupTurn at hbest
      dsimp only at hbest
      split_ifs at hbest with htaken
      · exact .inr ⟨slot, mem_cons_self, htaken.1, (Option.some.inj hbest).symm⟩
      · exact .inl hbest
    · exact .inr ⟨other, mem_cons_of_mem _ hmem, hrest⟩

/-- What a kept table promises. -/
theorem Keeps.right (hk : Keeps s h l) : Right s h := by
  have hs := hk.represents
  have hslot {slot : Slot} (hmem : slot ∈ s.m_routes) : ∃ x ∈ l, x.slot = slot := by
    rw [hs.routes] at hmem
    exact mem_map.mp hmem
  have hmem {x : Holding} (hx : x ∈ l) : x.slot ∈ s.m_routes := hs.routes ▸ mem_map_of_mem hx
  have htimer {x : Holding} (hx : x ∈ l) {timer : Timer} (htimer : x.timer = some timer) :
      timer ∈ s.timers := hs.timers.mem_iff.mpr (mem_filterMap.mpr ⟨x, hx, htimer⟩)
  have hmetric : ∀ slot ∈ s.m_routes, slot.route.m_status = .RIP_VALID →
      1 ≤ slot.route.m_metric ∧ slot.route.m_metric < s.options.m_linkDown := by
    intro slot hin hvalid
    obtain ⟨x, hx, rfl⟩ := hslot hin
    obtain ⟨-, hpos, hlt, -⟩ | ⟨-, -, hinvalid, -⟩ := hk.sane.good x hx
    · exact ⟨hpos, hlt⟩
    · exact absurd (hvalid.symm.trans hinvalid) (by decide)
  -- Each promise is read off the routes that represent the table.
  exact {
    metric := hmetric
    lookup := fun m_ipv4 dst interface route hdst hroute => by
      unfold Rip.Lookup at hroute
      rw [if_neg (eq_false_iff.mp hdst)] at hroute
      obtain hnone | ⟨slot, hin, hvalid, heq⟩ := lookup_mem (Except.ok.inj hroute)
      · cases hnone
      · exact ⟨slot, hin, hvalid, (hmetric slot hin hvalid).2, heq⟩
    distinct := hs.networks ▸ hk.sane.networks
    timers := (hs.timers.map Timer.uid).nodup_iff.mpr hs.uids
    timer := fun slot hin hlearned => by
      obtain ⟨x, hx, rfl⟩ := hslot hin
      cases hnone : x.timer with
      | none =>
        obtain ⟨-, -, -, hnot, -⟩ | ⟨timer, since, -, -, hsome, -⟩ := hk.sane.good x hx
        · exact absurd hlearned (hnot hnone)
        · exact absurd (hnone.symm.trans hsome) nofun
      | some timer =>
        refine ⟨timer, ⟨htimer hx hnone, hs.own x hx timer hnone⟩, ?_⟩
        rintro other ⟨hother, hroute⟩
        obtain ⟨y, hy, hown⟩ := mem_filterMap.mp (hs.timers.mem_iff.mp hother)
        have heq := hs.pointer_inj hy hx ((hs.own y hy other hown).symm.trans hroute)
        rw [heq, hnone] at hown
        exact (Option.some.inj hown).symm
    refers := fun timer hin => by
      obtain ⟨x, hx, hown⟩ := mem_filterMap.mp (hs.timers.mem_iff.mp hin)
      exact ⟨x.slot, hmem hx, (hs.own x hx timer hown).symm⟩
    invalid := fun slot hin hinvalid => by
      obtain ⟨x, hx, rfl⟩ := hslot hin
      obtain ⟨hvalid, -⟩ | ⟨-, since, -, -, -, -, hsince, -⟩ := hk.sane.good x hx
      · exact absurd (hvalid.symm.trans hinvalid) (by decide)
      · exact fun hnone => absurd (hnone.symm.trans hsince) nofun
    due := fun network since hsince => by
      obtain ⟨x, hx, rfl, hinvalid⟩ := hk.sane.since network since hsince
      obtain ⟨hvalid, -⟩ | ⟨timer, since', -, -, hown, hcall, hsince', hts⟩ := hk.sane.good x hx
      · exact absurd (hvalid.symm.trans hinvalid) (by decide)
      obtain rfl := Option.some.inj (hsince.symm.trans hsince')
      exact ⟨hts ▸ hs.now_le timer (htimer hx hown), x.slot, hmem hx, rfl, timer, htimer hx hown,
        hs.own x hx timer hown, hcall, hts⟩
    deleted := hk.sane.deleted }

/-- The empty table of a new router is kept. -/
theorem ofOptions_keeps (hlinkDown : 1 < options.m_linkDown ∧ options.m_linkDown < 256) :
    Keeps (ofOptions options) [] [] where
  represents := {
    routes := rfl
    timers := .refl _
    inOrder := List.Pairwise.nil
    now_le := nofun
    uids := nodup_nil
    uid_lt := nofun
    pointers := nodup_nil
    pointer_lt := nofun
    own := nofun }
  sane := {
    good := nofun
    networks := nodup_nil
    since := nofun
    deleted := fun _ _ _ _ heq => absurd heq.symm (append_ne_nil_of_right_ne_nil _ nofun) }
  linkDown := hlinkDown
  learned_lt := nofun

/-- **A router holds what it should**, for any options whose link-down metric fits a route's metric
and is above that of the router's own networks, and any run of responses, notifications and timers
that are `Sound`: every call returns, and after each the table is right. -/
theorem routes_right (options : RipOptions)
    (hlinkDown : 1 < options.m_linkDown ∧ options.m_linkDown < 256) (calls : List Call)
    (hmeets : TracedRun.Meets step (fun s _ call => s.Sound call) (ofOptions options) [] calls) :
    TracedRun.Throughout step Right (ofOptions options) [] calls := by
  refine TracedRun.throughout_of_meets (J := fun s h => ∃ l, Keeps s h l) ?_ ?_
    ⟨[], ofOptions_keeps hlinkDown⟩ hmeets
  · rintro s h call ⟨l, hk⟩ hsound
    obtain ⟨s', l', actions, hok, hk'⟩ := hk.step hsound
    exact ⟨s', actions, hok, l', hk'⟩
  · rintro s h ⟨l, hk⟩
    exact hk.right

instance (s : Rip) (r : Response) : Decidable (s.SoundResponse r) :=
  inferInstanceAs (Decidable (∀ slot ∈ s.m_routes, _ = _ → _ = _ → _ = _ → _ ∧ _))

instance decidableSoundResponses (s : Rip) (responses : List Response) :
    Decidable (s.SoundResponses responses) :=
  match responses with
  | [] => .isTrue trivial
  | r :: rest =>
    have : Decidable (∀ s' actions, s.handleResponse r = .ok (s', actions) →
        s'.SoundResponses rest) :=
      match hresponse : s.handleResponse r with
      | .error _ => .isTrue fun _ _ hok => nomatch hok
      | .ok (s', _) =>
        have := decidableSoundResponses s' rest
        decidable_of_iff (s'.SoundResponses rest)
          ⟨fun hsound _ _ hok => by cases hok; exact hsound, fun hsound => hsound _ _ rfl⟩
    inferInstanceAs (Decidable (_ ∧ _))

instance (s : Rip) (networks : List (Ipv4Address × Ipv4Mask)) :
    Decidable (s.SoundNetworks networks) := inferInstanceAs (Decidable (List.Nodup _))

instance (s : Rip) (p : RipRoutingTableEntry → Bool) : Decidable (s.SoundInvalidate p) :=
  inferInstanceAs (Decidable (∀ slot ∈ s.m_routes, _ = _ → _ = _ → _ = _))

instance (s : Rip) (call : Call) : Decidable (s.Sound call) :=
  match call with
  | .HandleResponses rtes senderAddress incomingInterface => inferInstanceAs
      (Decidable (s.SoundResponses (s.accepted rtes senderAddress incomingInterface)))
  | .NotifyInterfaceUp _ isLoopback addresses => inferInstanceAs
      (Decidable (isLoopback = false → s.SoundNetworks (globalNetworks addresses)))
  | .NotifyInterfaceDown interface => inferInstanceAs
      (Decidable (s.SoundInvalidate fun route => route.m_interface == interface))
  | .NotifyAddAddress interface isUp address => inferInstanceAs
      (Decidable (isUp = true → s.options.m_interfaceExclusions.contains interface = false →
        s.SoundNetworks (globalNetworks [address])))
  | .NotifyRemoveAddress interface isUp address => inferInstanceAs
      (Decidable (isUp = true → address.m_scope = .GLOBAL →
        s.SoundInvalidate (isRemoved interface address)))
  | .elapse _ | .runTimer => .isTrue trivial

/-- A network is learned, becomes unreachable, and is deleted. -/
theorem routes_right_learned :
    TracedRun.Throughout step Right (ofOptions .default) []
      [.NotifyInterfaceUp 1 false [⟨0x0a000001, 0xffffff00, .GLOBAL⟩],
        .HandleResponses [⟨0x0a010000, 0xffff0000, 0, 1⟩] 0x0a000002 1,
        .HandleResponses [⟨0x0a010000, 0xffff0000, 0, 16⟩] 0x0a000002 1, .elapse 200,
        .runTimer] :=
  routes_right .default (by decide) _ (by decide +kernel)

/-- A neighbor says that a network is unreachable, and 40 s later another one does: then the route
is valid again, with the metric 16. -/
theorem infinite_metric_valid :
    ¬ ∀ calls : List Call, TracedRun.Throughout step Right (ofOptions .default) [] calls := by
  intro hall
  set calls : List Call := [.HandleResponses [⟨0x0a010000, 0xffff0000, 0, 1⟩] 0x0a000002 1,
    .HandleResponses [⟨0x0a010000, 0xffff0000, 0, 16⟩] 0x0a000002 1, .elapse 40,
    .HandleResponses [⟨0x0a010000, 0xffff0000, 0, 16⟩] 0x0a000003 1] with hcalls
  obtain ⟨s, actions, hrun, hright⟩ := (hall calls).exists_run nofun
  have hroutes : (TracedRun.run step (ofOptions .default) calls).map (fun r => r.1.m_routes) =
      .ok [⟨⟨1, 0x0a010000, 0xffff0000, 0x0a000003, 1, 0, 16, .RIP_VALID, true⟩, some 2⟩] := by
    decide +kernel
  have hoptions : (TracedRun.run step (ofOptions .default) calls).map
      (fun r => r.1.options.m_linkDown) = .ok 16 := by decide +kernel
  rw [hrun] at hroutes hoptions
  have hslots : s.m_routes = [_] := Except.ok.inj hroutes
  have hlinkDown : s.options.m_linkDown = 16 := Except.ok.inj hoptions
  have hmetric := hright.metric
  rw [hslots, hlinkDown] at hmetric
  exact absurd (hmetric _ mem_cons_self rfl).2 (by decide)

end Ns3Joined.Internet.Rip
