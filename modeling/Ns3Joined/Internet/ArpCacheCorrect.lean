import Ns3Joined.Internet.ArpCache
import Ns3Joined.Library.ExceptFold
import Ns3Joined.Library.TracedRun

/-!
# What becomes of packets that wait for an ARP reply

* `Right`: each packet that `Lookup` was given has been sent, or traced as dropped, or discarded
  with its entry, or it is still queued, and only in one of these ways and once; entries that are
  not waiting for a reply hold no packets; while one waits the timer is running; and an entry waits
  for at most `MaxRetries` retransmissions and is dead then.
* `Well`: the invariant of the cache; the timer expires before an entry has waited for longer than
  the timeout, so that `Lookup` never comes to an expired entry that waits.
* `Effect`: what an event other than the timeout does to the packets and to those that wait.
* `throughout_right`: no run fails, and all this holds after each event.

`Flush` and `Remove` discard the packets of their entries without a trace.
-/

namespace Ns3Joined.Internet.Arp.ArpL3Protocol

open List ArpCache
open ExceptFold (ok_bind)
open Option (bind_some isSome_some map_some some)

variable {Packet : Type}

/-! ### Packets -/

def givenIn : Event Packet → List Packet
  | .Send packet _ => [packet]
  | _ => []

def sentIn : Action Packet → List Packet
  | .Send packet _ => [packet]
  | _ => []

def tracedIn : Action Packet → List Packet
  | .cacheDrop packet => [packet]
  | .drop packet => [packet]
  | _ => []

@[simp]
theorem flatMap_sentIn_Send (packets : List Packet) (hardwareDestination : Address) :
    (packets.map fun packet => Action.Send packet hardwareDestination).flatMap sentIn =
        packets := by
  simp [flatMap_map, sentIn]

@[simp]
theorem flatMap_tracedIn_Send (packets : List Packet) (hardwareDestination : Address) :
    (packets.map fun packet => Action.Send packet hardwareDestination).flatMap tracedIn = [] := by
  simp [flatMap_map, tracedIn, flatMap_eq_nil_iff]

@[simp]
theorem flatMap_sentIn_cacheDrop (packets : List Packet) :
    (packets.map Action.cacheDrop).flatMap sentIn = [] := by
  simp [flatMap_map, sentIn, flatMap_eq_nil_iff]

@[simp]
theorem flatMap_tracedIn_cacheDrop (packets : List Packet) :
    (packets.map Action.cacheDrop).flatMap tracedIn = packets := by
  simp [flatMap_map, tracedIn]

def queued (s : ArpCache Packet) : List Packet := s.m_arpCache.flatMap Entry.m_pending

/-- The packets of an address. -/
def pendingOf (s : ArpCache Packet) (destination : Ipv4Address) : List Packet :=
  ((s.Lookup destination).map Entry.m_pending).getD []

/-- The packets of the entries that are taken out in an event. -/
def discardedIn (x : Happened Packet) : List Packet :=
  match x.event with
  | .Flush => queued x.found
  | .Remove destination => pendingOf x.found destination
  | _ => []

def given (h : List (Happened Packet)) : List Packet := h.flatMap fun x => givenIn x.event

def sent (h : List (Happened Packet)) : List Packet := h.flatMap fun x => x.actions.flatMap sentIn

def traced (h : List (Happened Packet)) : List Packet :=
  h.flatMap fun x => x.actions.flatMap tracedIn

def discarded (h : List (Happened Packet)) : List Packet := h.flatMap discardedIn

/-! ### Entries that wait -/

/-- The retries of the entry of an address, if it waits. -/
def waits (s : ArpCache Packet) (destination : Ipv4Address) : Option UInt32 :=
  (s.Lookup destination).bind fun entry =>
    if entry.m_state = .WAIT_REPLY then some entry.m_retries else none

variable [DecidableEq Packet]

/-- The retransmissions for an address since its entry has been waiting. -/
def retransmissions (destination : Ipv4Address) (h : List (Happened Packet)) : ℕ :=
  h.foldl (fun n x =>
    if (waits x.found destination).isSome then n + x.actions.count (.SendArpRequest destination)
    else 0) 0

/-- The timer is running, and it will expire before the timeout has passed. -/
def TimerRuns (c : Attributes) (s : ArpCache Packet) : Prop :=
  ∃ due, s.m_waitReplyTimer = some due ∧ s.now ≤ due ∧ due ≤ s.now + c.m_waitReplyTimeout

/-- An entry that the timer finds waiting is retried, or it is dead after so many
retransmissions. -/
def Dies (c : Attributes) (s : ArpCache Packet) (h : List (Happened Packet)) : Prop :=
  ∀ x, h.getLast? = some x → x.event = .HandleWaitReplyTimeout → expires x.found = true →
    ∀ entry ∈ x.found.m_arpCache, entry.m_state = .WAIT_REPLY →
      ∃ entry' ∈ s.m_arpCache, entry'.m_ipv4Address = entry.m_ipv4Address ∧
        (entry'.m_state = .WAIT_REPLY ∧ .SendArpRequest entry.m_ipv4Address ∈ x.actions ∨
          entry'.m_state = .DEAD ∧
            retransmissions entry.m_ipv4Address h = c.m_maxRetries.toNat)

structure Right (c : Attributes) (s : ArpCache Packet) (h : List (Happened Packet)) : Prop where
  fate : ∀ packet, (given h).count packet = (sent h).count packet + (traced h).count packet +
    (discarded h).count packet + (queued s).count packet
  waiting : ∀ entry ∈ s.m_arpCache, entry.m_pending ≠ [] → entry.m_state = .WAIT_REPLY
  running : ∀ entry ∈ s.m_arpCache, entry.m_state = .WAIT_REPLY → TimerRuns c s
  retransmitted : ∀ entry ∈ s.m_arpCache, entry.m_state = .WAIT_REPLY →
    retransmissions entry.m_ipv4Address h ≤ c.m_maxRetries.toNat
  dies : Dies c s h

/-! ### The invariant of the cache -/

/-- An entry that waits has been seen no longer ago than the timer will tell; one that does not wait
is empty. -/
structure WellEntry (c : Attributes) (s : ArpCache Packet) (entry : Entry Packet) : Prop where
  waiting : entry.m_state = .WAIT_REPLY → ∃ due, s.m_waitReplyTimer = some due ∧
    due ≤ entry.m_lastSeen + c.m_waitReplyTimeout ∧ entry.m_lastSeen ≤ s.now ∧
    entry.m_retries ≤ c.m_maxRetries
  idle : entry.m_state ≠ .WAIT_REPLY → entry.m_pending = [] ∧ entry.m_retries = 0

structure Well (c : Attributes) (s : ArpCache Packet) : Prop where
  distinct : KeyedTable.Distinct Entry.m_ipv4Address s.m_arpCache
  entries : ∀ entry ∈ s.m_arpCache, WellEntry c s entry
  due : ∀ due, s.m_waitReplyTimer = some due →
    s.now ≤ due ∧ due ≤ s.now + c.m_waitReplyTimeout

variable {c : Attributes} {s s' : ArpCache Packet} {entry : Entry Packet} {packet : Packet}
  {destination : Ipv4Address} {actions : List (Action Packet)} {h : List (Happened Packet)}

omit [DecidableEq Packet] in
/-- What is looked up is well formed. -/
theorem Well.of_Lookup (hwell : Well c s) (hfind : s.Lookup destination = some entry) :
    WellEntry c s entry :=
  hwell.entries entry (KeyedTable.mem_of_find hfind).1

omit [DecidableEq Packet] in
/-- A well-formed entry can be stored. -/
theorem Well.stored (hwell : Well c s) (hentry : WellEntry c s entry) : Well c (s.store entry) := by
  refine ⟨hwell.distinct.insert entry, fun entry' hmem => ?_, hwell.due⟩
  obtain rfl | ⟨hmem, _⟩ := (hwell.distinct.insert_mem entry entry').mp hmem
  · exact ⟨hentry.waiting, hentry.idle⟩
  · exact ⟨(hwell.entries entry' hmem).waiting, (hwell.entries entry' hmem).idle⟩

omit [DecidableEq Packet] in
/-- Only the entry that was stored changes. -/
theorem Lookup_store :
    (s.store entry).Lookup destination =
      if entry.m_ipv4Address = destination then some entry else s.Lookup destination :=
  KeyedTable.find_insert entry s.m_arpCache

/-- What is stored with an entry takes the place of what was pending for its address. -/
theorem count_queued_store (entry : Entry Packet) (packet : Packet) :
    (queued (s.store entry)).count packet + (pendingOf s entry.m_ipv4Address).count packet =
      (queued s).count packet + entry.m_pending.count packet :=
  KeyedTable.count_flatMap_insert entry packet

omit [DecidableEq Packet] in
/-- Only the entry that was stored changes what waits. -/
theorem waits_store :
    waits (s.store entry) destination =
      if entry.m_ipv4Address = destination then
        if entry.m_state = .WAIT_REPLY then some entry.m_retries else none
      else waits s destination := by
  unfold waits
  rw [Lookup_store]
  split_ifs <;> simp [*]

/-! ### What an event does -/

/-- `packets` are given and `gone` are discarded. -/
structure Effect (packets gone : List Packet) (s s' : ArpCache Packet)
    (actions : List (Action Packet)) : Prop where
  fate : ∀ packet, packets.count packet + (queued s).count packet =
    (actions.flatMap sentIn).count packet + (actions.flatMap tracedIn).count packet +
      gone.count packet + (queued s').count packet
  waiting : ∀ destination n, waits s' destination = some n →
    waits s destination = some n ∨ waits s destination = none ∧ n = 0
  quiet : ∀ destination, .SendArpRequest destination ∉ actions

theorem Effect.refl (s : ArpCache Packet) : Effect [] [] s s [] where
  fate := fun packet => by simp
  waiting := fun _ _ hwaits => .inl hwaits
  quiet := fun _ => not_mem_nil

/-- Packets that an entry gets or gives away; it does not begin to wait with retries. -/
theorem Effect.of_store {packets gone : List Packet} (hfind : s.Lookup destination = some entry)
    (entry' : Entry Packet) (haddr : entry'.m_ipv4Address = entry.m_ipv4Address)
    (hfate : ∀ packet, packets.count packet + entry.m_pending.count packet =
      (actions.flatMap sentIn).count packet + (actions.flatMap tracedIn).count packet +
        gone.count packet + entry'.m_pending.count packet)
    (hwaits : entry'.m_state = .WAIT_REPLY → entry.m_state = .WAIT_REPLY ∧
      entry'.m_retries = entry.m_retries ∨ entry.m_state ≠ .WAIT_REPLY ∧ entry'.m_retries = 0)
    (hquiet : ∀ destination, .SendArpRequest destination ∉ actions)
    (hcache : s'.m_arpCache = (s.store entry').m_arpCache) :
    Effect packets gone s s' actions := by
  have hdestination : entry.m_ipv4Address = destination := (KeyedTable.mem_of_find hfind).2
  have hpending : pendingOf s entry'.m_ipv4Address = entry.m_pending := by
    rw [haddr, hdestination, pendingOf, hfind]
    rfl
  refine ⟨fun packet => ?_, fun a n hn => ?_, hquiet⟩
  · have hcount := count_queued_store (s := s) entry' packet
    have hqueued : queued s' = queued (s.store entry') := by rw [queued, queued, hcache]
    rw [hpending] at hcount
    rw [hqueued]
    have := hfate packet
    omega
  · have hsame : waits s' a = waits (s.store entry') a := by
      unfold waits ArpCache.Lookup
      rw [hcache]
    rw [hsame, waits_store] at hn
    split_ifs at hn with ha hwait
    · -- It is this entry that waits.
      have hold : waits s a =
          if entry.m_state = .WAIT_REPLY then some entry.m_retries else none := by
        rw [← ha, haddr, hdestination, waits, hfind]
        rfl
      obtain ⟨hstate, hretries⟩ | ⟨hstate, hretries⟩ := hwaits hwait
      · rw [hold, if_pos hstate, ← hretries]
        exact .inl hn
      · rw [hold, if_neg hstate]
        exact .inr ⟨rfl, (some.inj hn).symm.trans hretries⟩
    · exact .inl hn

omit [DecidableEq Packet] in
theorem StartWaitReplyTimer_m_arpCache : (s.StartWaitReplyTimer c).m_arpCache = s.m_arpCache := by
  unfold StartWaitReplyTimer
  split_ifs <;> rfl

omit [DecidableEq Packet] in
/-- An entry that begins to wait, with the timer that runs or is started. -/
theorem Well.started (hwell : Well c s) (hseen : entry.m_lastSeen = s.now)
    (hstate : entry.m_state = .WAIT_REPLY) (hretries : entry.m_retries = 0) :
    Well c ((s.store entry).StartWaitReplyTimer c) := by
  have hle : entry.m_retries ≤ c.m_maxRetries := by
    rw [hretries]
    exact UInt32.zero_le
  cases htimer : s.m_waitReplyTimer with
  | some due =>
    have hsame : (s.store entry).StartWaitReplyTimer c = s.store entry :=
      if_pos (by rw [store, htimer]; rfl)
    rw [hsame]
    obtain ⟨_, hdue⟩ := hwell.due due htimer
    exact hwell.stored ⟨fun _ => ⟨due, htimer, by omega, Nat.le_of_eq hseen, hle⟩,
      fun hne => absurd hstate hne⟩
  | none =>
    have hstarted : (s.store entry).StartWaitReplyTimer c =
        { s.store entry with m_waitReplyTimer := some (s.now + c.m_waitReplyTimeout) } :=
      if_neg (by rw [store, htimer]; exact Bool.noConfusion)
    rw [hstarted]
    refine ⟨hwell.distinct.insert entry, fun entry' hmem => ?_, fun due hdue => ?_⟩
    · obtain rfl | ⟨hmem, _⟩ := (hwell.distinct.insert_mem entry entry').mp hmem
      · exact ⟨fun _ => ⟨_, rfl, by omega, Nat.le_of_eq hseen, hle⟩, fun hne => absurd hstate hne⟩
      · -- No other entry has been waiting.
        have hentry := hwell.entries entry' hmem
        refine ⟨fun hwait => ?_, hentry.idle⟩
        obtain ⟨due, hdue, _⟩ := hentry.waiting hwait
        rw [htimer] at hdue
        cases hdue
    · obtain rfl := some.inj hdue
      exact ⟨Nat.le_add_right .., Nat.le_refl _⟩

/-- An entry that begins to wait. -/
theorem waitReply_spec (hwell : Well c s) (hfind : s.Lookup destination = some entry)
    (hstate : entry.m_state = .ALIVE ∨ entry.m_state = .DEAD) (packet : Packet) :
    ∃ s', waitReply c s entry packet destination =
        .ok (s', [.scheduleSendArpRequest destination], none) ∧
      Well c s' ∧ Effect [packet] [] s s' [.scheduleSendArpRequest destination] := by
  have hne : entry.m_state ≠ .WAIT_REPLY := by
    obtain h | h := hstate
    · exact fun h' => nomatch h.symm.trans h'
    · exact fun h' => nomatch h.symm.trans h'
  obtain ⟨hpending, hretries⟩ := (hwell.of_Lookup hfind).idle hne
  have hmark : entry.MarkWaitReply s.now packet = .ok { entry with
      m_state := .WAIT_REPLY, m_pending := entry.m_pending ++ [packet], m_lastSeen := s.now } :=
    if_pos ⟨hstate, by rw [hpending]; rfl⟩
  refine ⟨_, by rw [waitReply, hmark, ok_bind], ?_, ?_⟩
  · exact hwell.started rfl rfl hretries
  · refine Effect.of_store hfind { entry with
      m_state := .WAIT_REPLY, m_pending := entry.m_pending ++ [packet], m_lastSeen := s.now } rfl
      (fun p => ?_) (fun _ => .inr ⟨hne, hretries⟩) ?_ StartWaitReplyTimer_m_arpCache
    · simp [hpending, sentIn, tracedIn]
    · intro a hmem
      cases mem_singleton.mp hmem

omit [DecidableEq Packet] in
/-- The timer expires before an entry that waits has expired. -/
theorem Well.not_expired (hwell : Well c s) (hfind : s.Lookup destination = some entry)
    (hstate : entry.m_state = .WAIT_REPLY) : entry.IsExpired c s.now = false := by
  obtain ⟨due, htimer, hle, _⟩ := (hwell.of_Lookup hfind).waiting hstate
  have hnow := (hwell.due due htimer).1
  unfold Entry.IsExpired Entry.GetTimeout
  rw [hstate]
  exact decide_eq_false (by omega)

/-- A new entry is empty, and waits for nothing. -/
theorem Effect.of_Add {packets : List Packet} (hfind : s.Lookup destination = none)
    (heffect : Effect packets [] (s.store (Entry.new destination)) s' actions) :
    Effect packets [] s s' actions := by
  refine ⟨fun packet => ?_, fun a n hn => ?_, heffect.quiet⟩
  · have hcount := count_queued_store (s := s) (Entry.new destination) packet
    have hnone : pendingOf s (Entry.new destination : Entry Packet).m_ipv4Address = [] := by
      show ((s.Lookup destination).map Entry.m_pending).getD [] = []
      rw [hfind]
      rfl
    have hnew : (Entry.new destination : Entry Packet).m_pending = [] := rfl
    rw [hnone, hnew] at hcount
    have := heffect.fate packet
    rw [count_nil] at hcount
    omega
  · have hsame : waits (s.store (Entry.new destination)) a = waits s a := by
      rw [waits_store]
      split_ifs with ha hwait
      · cases hwait
      · obtain rfl : destination = a := ha
        rw [waits, hfind]
        rfl
      · rfl
    have := heffect.waiting a n hn
    rw [hsame] at this
    exact this

/-- What `Lookup` gives back is not queued or dropped. -/
theorem Lookup_spec (hwell : Well c s) (packet : Packet) (destination : Ipv4Address) :
    ∃ s' actions found, Lookup c s packet destination = .ok (s', actions, found) ∧ Well c s' ∧
      Effect (if found.isSome then [] else [packet]) [] s s' actions := by
  unfold Lookup
  cases hfind : s.Lookup destination with
  | none =>
    have hadd : s.Add destination = .ok (s.store (Entry.new destination), Entry.new destination) :=
      if_pos (by rw [hfind]; rfl)
    have hwell' : Well c (s.store (Entry.new destination)) :=
      hwell.stored ⟨nofun, fun _ => ⟨rfl, rfl⟩⟩
    have hfind' : (s.store (Entry.new destination)).Lookup destination =
        some (Entry.new destination) := by
      rw [Lookup_store]
      exact if_pos rfl
    obtain ⟨s', hok, hwell'', heffect⟩ := waitReply_spec hwell' hfind' (.inl rfl) packet
    refine ⟨s', _, none, ?_, hwell'', heffect.of_Add hfind⟩
    dsimp only
    rw [hadd, ok_bind]
    exact hok
  | some entry =>
    have hpending := (hwell.of_Lookup hfind).idle
    have hdropped : Effect [packet] [] s s [.drop packet] := by
      refine ⟨fun p => ?_, fun _ _ hn => .inl hn, fun a hmem => ?_⟩
      · simp [sentIn, tracedIn]
      · cases mem_singleton.mp hmem
    dsimp only
    cases hstate : entry.m_state with
    | ALIVE =>
      by_cases hexpired : entry.IsExpired c s.now = true
      · obtain ⟨s', hok, hwell', heffect⟩ := waitReply_spec hwell hfind (.inl hstate) packet
        refine ⟨s', _, none, ?_, hwell', heffect⟩
        simpa [hexpired, Entry.IsDead, Entry.IsAlive, hstate] using hok
      · refine ⟨s, [], some entry.m_macAddress, ?_, hwell, .refl s⟩
        simp [hexpired, Entry.IsDead, Entry.IsAlive, hstate]
    | DEAD =>
      by_cases hexpired : entry.IsExpired c s.now = true
      · obtain ⟨s', hok, hwell', heffect⟩ := waitReply_spec hwell hfind (.inr hstate) packet
        refine ⟨s', _, none, ?_, hwell', heffect⟩
        simpa [hexpired, Entry.IsDead, hstate] using hok
      · refine ⟨s, [.drop packet], none, ?_, hwell, hdropped⟩
        simp [hexpired, Entry.IsDead, hstate]
    | PERMANENT =>
      have hexpired : entry.IsExpired c s.now = false := by
        unfold Entry.IsExpired Entry.GetTimeout
        rw [hstate]
      refine ⟨s, [], some entry.m_macAddress, ?_, hwell, .refl s⟩
      simp [hexpired, Entry.IsDead, Entry.IsAlive, Entry.IsWaitReply, Entry.IsPermanent, hstate]
    | WAIT_REPLY =>
      have hexpired := hwell.not_expired hfind hstate
      have hentry := hwell.of_Lookup hfind
      by_cases hfull : entry.m_pending.length ≥ c.m_pendingQueueSize.toNat
      · -- There is no room in the queue.
        refine ⟨s.store entry, [.drop packet], none, ?_, hwell.stored hentry, ?_⟩
        · simp [hexpired, Entry.IsDead, Entry.IsAlive, Entry.IsWaitReply, Entry.UpdateWaitReply,
            hstate, hfull, ok_bind]
        · refine Effect.of_store hfind entry rfl (fun p => ?_) (fun _ => .inl ⟨hstate, rfl⟩) ?_ rfl
          · simp [sentIn, tracedIn]
          · intro a hmem
            cases mem_singleton.mp hmem
      · refine ⟨s.store { entry with m_pending := entry.m_pending ++ [packet] }, [], none, ?_,
          hwell.stored ⟨hentry.waiting, fun hne => absurd hstate hne⟩, ?_⟩
        · simp [hexpired, Entry.IsDead, Entry.IsAlive, Entry.IsWaitReply, Entry.UpdateWaitReply,
            hstate, hfull, ok_bind]
        · refine Effect.of_store hfind { entry with m_pending := entry.m_pending ++ [packet] } rfl
            (fun p => ?_) (fun _ => .inl ⟨hstate, rfl⟩) ?_ rfl
          · simp [Nat.add_comm]
          · exact fun _ => not_mem_nil

/-- A packet that the interface is to send. -/
theorem Send_spec (hwell : Well c s) (packet : Packet) (dest : Ipv4Address) :
    ∃ s' actions, Send c s packet dest = .ok (s', actions) ∧ Well c s' ∧
      Effect [packet] [] s s' actions := by
  obtain ⟨s', actions, found, hok, hwell', heffect⟩ := Lookup_spec hwell packet dest
  unfold Send
  rw [hok, ok_bind]
  cases found with
  | none => exact ⟨s', actions, rfl, hwell', heffect⟩
  | some hardwareDestination =>
    refine ⟨s', actions ++ [.Send packet hardwareDestination], rfl, hwell', ?_, heffect.waiting, ?_⟩
    · intro p
      have := heffect.fate p
      simp only [isSome_some, if_true, count_nil] at this
      simp only [flatMap_append, count_append, flatMap_cons, flatMap_nil, sentIn, tracedIn,
        append_nil, count_nil]
      omega
    · intro a hmem
      obtain hmem | hmem := mem_append.mp hmem
      · exact heffect.quiet a hmem
      · cases mem_singleton.mp hmem

/-! ### Replies -/

omit [DecidableEq Packet] in
/-- A fresh entry is used at once. -/
theorem Send_alive (hfind : s.Lookup destination = some entry) (hstate : entry.m_state = .ALIVE)
    (hseen : entry.m_lastSeen = s.now) (packet : Packet) :
    Send c s packet destination = .ok (s, [.Send packet entry.m_macAddress]) := by
  have hexpired : entry.IsExpired c s.now = false := by
    unfold Entry.IsExpired Entry.GetTimeout
    rw [hstate, hseen]
    exact decide_eq_false (by omega)
  have hLookup : Lookup c s packet destination = .ok (s, [], some entry.m_macAddress) := by
    unfold Lookup
    rw [hfind]
    simp [hexpired, Entry.IsDead, Entry.IsAlive, hstate]
  rw [Send, hLookup, ok_bind]
  rfl

omit [DecidableEq Packet] in
theorem store_store (entry entry' : Entry Packet)
    (haddr : entry'.m_ipv4Address = entry.m_ipv4Address) :
    (s.store entry).store entry' = s.store entry' := by
  unfold store
  rw [KeyedTable.insert_insert haddr]

omit [DecidableEq Packet] in
/-- All that is pending is sent to an entry that is alive. -/
theorem sendPending_eq (entry : Entry Packet) (hstate : entry.m_state = .ALIVE)
    (hseen : entry.m_lastSeen = s.now)
    {fuel : ℕ} (hfuel : entry.m_pending.length < fuel) :
    sendPending c entry.m_ipv4Address fuel (s.store entry) =
      .ok (s.store { entry with m_pending := [] },
        entry.m_pending.map fun packet => .Send packet entry.m_macAddress) := by
  induction fuel generalizing entry with
  | zero => exact absurd hfuel (Nat.not_lt_zero _)
  | succ fuel ih =>
    have hfind (entry : Entry Packet) :
        (s.store entry).Lookup entry.m_ipv4Address = some entry := by
      rw [Lookup_store]
      exact if_pos rfl
    rw [sendPending, hfind entry]
    dsimp only
    cases hpending : entry.m_pending with
    | nil =>
      have hsame : { entry with m_pending := [] } = entry := by rw [← hpending]
      rw [hsame]
      rfl
    | cons packet pending =>
      have hsend := Send_alive (c := c) (hfind { entry with m_pending := pending }) hstate hseen
        packet
      have hlength : pending.length < fuel := by
        rw [hpending] at hfuel
        exact Nat.lt_of_succ_lt_succ hfuel
      have hrest := ih { entry with m_pending := pending } hstate hseen hlength
      dsimp only at hsend hrest ⊢
      rw [store_store entry { entry with m_pending := pending } rfl, hsend, ok_bind,
        hrest, ok_bind]
      rfl

/-- A reply makes its entry alive and sends what was pending. -/
theorem receiveReply_spec (hwell : Well c s) (arp : ArpHeader) :
    ∃ s' actions, receiveReply c s arp = .ok (s', actions) ∧ Well c s' ∧
      Effect [] [] s s' actions := by
  have hignored : Effect [] [] s s [(.dropReply : Action Packet)] := by
    refine ⟨fun p => ?_, fun _ _ hn => .inl hn, fun a hmem => ?_⟩
    · simp [sentIn, tracedIn]
    · cases mem_singleton.mp hmem
  unfold receiveReply
  cases hfind : s.Lookup arp.m_ipv4Source with
  | none => exact ⟨s, _, rfl, hwell, hignored⟩
  | some entry =>
    dsimp only
    by_cases hstate : entry.m_state = .WAIT_REPLY
    · have hdestination : entry.m_ipv4Address = arp.m_ipv4Source := (KeyedTable.mem_of_find hfind).2
      have hwaits : entry.IsWaitReply = true := decide_eq_true hstate
      have halive : entry.MarkAlive s.now arp.m_macSource = .ok { entry with
          m_macAddress := arp.m_macSource, m_state := .ALIVE, m_retries := 0,
          m_lastSeen := s.now } := if_pos hstate
      have hsent := sendPending_eq (c := c) (s := s) { entry with
        m_macAddress := arp.m_macSource, m_state := .ALIVE, m_retries := 0, m_lastSeen := s.now }
        rfl rfl (Nat.lt_succ_self _)
      rw [if_pos hwaits, halive, ok_bind, ← hdestination]
      let answered : Entry Packet := { entry with
        m_macAddress := arp.m_macSource, m_state := .ALIVE, m_retries := 0, m_lastSeen := s.now,
        m_pending := [] }
      refine ⟨s.store answered, _, hsent, hwell.stored ⟨nofun, fun _ => ⟨rfl, rfl⟩⟩, ?_⟩
      refine Effect.of_store hfind answered rfl (fun p => ?_) nofun (fun a hmem => ?_) rfl
      · simp [answered]
      · obtain ⟨_, _, heq⟩ := mem_map.mp hmem
        cases heq
    · have hwaits : ¬ entry.IsWaitReply = true := fun h => hstate (of_decide_eq_true h)
      rw [if_neg hwaits]
      exact ⟨s, _, rfl, hwell, hignored⟩

/-- **`Receive`** answers requests for own addresses and takes in replies. -/
theorem Receive_spec (hwell : Well c s) (arp : ArpHeader) (deviceAddress : Address)
    (addresses : List Ipv4Address) :
    ∃ s' actions, Receive c s arp deviceAddress addresses = .ok (s', actions) ∧ Well c s' ∧
      Effect [] [] s s' actions := by
  induction addresses with
  | nil => exact ⟨s, [], rfl, hwell, .refl s⟩
  | cons address addresses ih =>
    rw [Receive]
    split_ifs
    · refine ⟨s, _, rfl, hwell, fun p => ?_, fun _ _ hn => .inl hn, fun a hmem => ?_⟩
      · simp [sentIn, tracedIn]
      · cases mem_singleton.mp hmem
    · exact receiveReply_spec hwell arp
    · exact ih

/-! ### The timeout -/

/-- What the timeout makes of an entry. -/
def timedOut (c : Attributes) (now : ℕ) (entry : Entry Packet) : Entry Packet :=
  if entry.m_state = .WAIT_REPLY then
    if entry.m_retries < c.m_maxRetries then entry.IncrementRetries now
    else { entry with m_state := .DEAD, m_retries := 0, m_lastSeen := now, m_pending := [] }
  else entry

def timeoutActions (c : Attributes) (entry : Entry Packet) : List (Action Packet) :=
  if entry.m_state = .WAIT_REPLY then
    if entry.m_retries < c.m_maxRetries then [.SendArpRequest entry.m_ipv4Address]
    else entry.m_pending.map .cacheDrop
  else []

def retried (c : Attributes) (entry : Entry Packet) : Bool :=
  entry.m_state = .WAIT_REPLY ∧ entry.m_retries < c.m_maxRetries

omit [DecidableEq Packet] in
/-- An entry whose request was not answered asks again or dies. -/
theorem timeoutEntry_eq (c : Attributes) (now : ℕ) (entry : Entry Packet) :
    timeoutEntry c now entry =
      .ok (timedOut c now entry, timeoutActions c entry, retried c entry) := by
  unfold timeoutEntry timedOut timeoutActions retried Entry.IsWaitReply Entry.MarkDead
  by_cases hstate : entry.m_state = .WAIT_REPLY
  · by_cases hretries : entry.m_retries < c.m_maxRetries
    · simp [hstate, hretries]
    · simp [hstate, hretries, ok_bind]
  · simp [hstate]

omit [DecidableEq Packet] in
/-- All entries, one after the other. -/
theorem timeoutEntries_eq (c : Attributes) (now : ℕ) (entries : List (Entry Packet)) :
    timeoutEntries c now entries =
      .ok (entries.map (timedOut c now), entries.flatMap (timeoutActions c),
        entries.any (retried c)) := by
  induction entries with
  | nil => rfl
  | cons entry entries ih =>
    rw [timeoutEntries, timeoutEntry_eq, ok_bind, ih, ok_bind]
    rfl

omit [DecidableEq Packet] in
theorem timedOut_m_ipv4Address (now : ℕ) (entry : Entry Packet) :
    (timedOut c now entry).m_ipv4Address = entry.m_ipv4Address := by
  unfold timedOut Entry.IncrementRetries
  split_ifs <;> rfl

/-- The cache after the timeout. -/
def timeoutCache (c : Attributes) (s : ArpCache Packet) : ArpCache Packet :=
  ⟨s.m_arpCache.map (timedOut c s.now),
    if s.m_arpCache.any (retried c) then some (s.now + c.m_waitReplyTimeout) else none, s.now⟩

omit [DecidableEq Packet] in
/-- `HandleWaitReplyTimeout` does so for the whole cache. -/
theorem HandleWaitReplyTimeout_eq :
    s.HandleWaitReplyTimeout c =
      .ok (timeoutCache c s, s.m_arpCache.flatMap (timeoutActions c)) := by
  rw [ArpCache.HandleWaitReplyTimeout, timeoutEntries_eq, ok_bind]
  rfl

omit [DecidableEq Packet] in
/-- Whoever still waits has just been retried, and the timer is started again. -/
theorem Well.timeoutCache (hwell : Well c s) : Well c (timeoutCache c s) := by
  refine ⟨?_, fun entry' hmem => ?_, fun due hdue => ?_⟩
  · rw [KeyedTable.distinct_iff_map]
    show ((s.m_arpCache.map (timedOut c s.now)).map Entry.m_ipv4Address).Nodup
    have hkeys : (s.m_arpCache.map (timedOut c s.now)).map Entry.m_ipv4Address =
        s.m_arpCache.map Entry.m_ipv4Address := by
      rw [map_map]
      exact map_congr_left fun entry _ => timedOut_m_ipv4Address s.now entry
    rw [hkeys]
    exact KeyedTable.distinct_iff_map.mp hwell.distinct
  · obtain ⟨entry, hentry, rfl⟩ := mem_map.mp hmem
    by_cases hstate : entry.m_state = .WAIT_REPLY
    · by_cases hlt : entry.m_retries < c.m_maxRetries
      · have hsome : s.m_arpCache.any (retried c) = true :=
          any_eq_true.mpr ⟨entry, hentry, decide_eq_true ⟨hstate, hlt⟩⟩
        have hretried : timedOut c s.now entry = entry.IncrementRetries s.now := by
          rw [timedOut, if_pos hstate, if_pos hlt]
        rw [hretried]
        refine ⟨fun _ => ⟨s.now + c.m_waitReplyTimeout, if_pos hsome, Nat.le_refl _,
          Nat.le_refl _, ?_⟩, fun hne => absurd hstate hne⟩
        show entry.m_retries + 1 ≤ c.m_maxRetries
        rw [UInt32.le_iff_toNat_le, UInt32.toNat_add]
        exact Nat.le_trans (Nat.mod_le _ _) (UInt32.lt_iff_toNat_lt.mp hlt)
      · have hdead : timedOut c s.now entry = { entry with
            m_state := .DEAD, m_retries := 0, m_lastSeen := s.now, m_pending := [] } := by
          rw [timedOut, if_pos hstate, if_neg hlt]
        rw [hdead]
        exact ⟨nofun, fun _ => ⟨rfl, rfl⟩⟩
    · have hsame : timedOut c s.now entry = entry := if_neg hstate
      rw [hsame]
      exact ⟨fun h => absurd h hstate, (hwell.entries entry hentry).idle⟩
  · simp only [ArpL3Protocol.timeoutCache, Option.ite_none_right_eq_some] at hdue
    obtain ⟨_, hdue⟩ := hdue
    obtain rfl := some.inj hdue
    exact ⟨Nat.le_add_right .., Nat.le_refl _⟩

/-- What was pending is dropped or still pending. -/
theorem count_timedOut (now : ℕ) (entry : Entry Packet) (packet : Packet) :
    entry.m_pending.count packet = ((timeoutActions c entry).flatMap sentIn).count packet +
      ((timeoutActions c entry).flatMap tracedIn).count packet +
      (timedOut c now entry).m_pending.count packet := by
  unfold timedOut timeoutActions Entry.IncrementRetries
  split_ifs
  · simp [sentIn, tracedIn]
  · simp
  · simp

/-- So it is for the whole cache. -/
theorem count_queued_timeout (s : ArpCache Packet) (packet : Packet) :
    (queued s).count packet =
      ((s.m_arpCache.flatMap (timeoutActions c)).flatMap sentIn).count packet +
      ((s.m_arpCache.flatMap (timeoutActions c)).flatMap tracedIn).count packet +
      (queued (timeoutCache c s)).count packet := by
  unfold queued ArpL3Protocol.timeoutCache
  dsimp only
  generalize s.now = now
  induction s.m_arpCache with
  | nil => rfl
  | cons entry entries ih =>
    have hentry := count_timedOut (c := c) now entry packet
    simp only [flatMap_cons, map_cons, flatMap_append, count_append]
    omega

omit [DecidableEq Packet] in
/-- What waits has one more retry, up to the maximum. -/
theorem waits_timeoutCache :
    waits (timeoutCache c s) destination =
      (waits s destination).bind fun n => if n < c.m_maxRetries then some (n + 1) else none := by
  have hfind : (timeoutCache c s).Lookup destination =
      (s.Lookup destination).map (timedOut c s.now) :=
    KeyedTable.find_map (timedOut_m_ipv4Address s.now)
  unfold waits
  rw [hfind]
  cases s.Lookup destination with
  | none => rfl
  | some entry =>
    simp only [map_some, bind_some]
    unfold timedOut Entry.IncrementRetries
    by_cases hstate : entry.m_state = .WAIT_REPLY
    · by_cases hlt : entry.m_retries < c.m_maxRetries
      · simp [hstate, hlt]
      · simp [hstate, hlt]
    · simp [hstate]

/-- One request goes out for each address that is retried. -/
theorem count_requests (hwell : Well c s) (destination : Ipv4Address) :
    (s.m_arpCache.flatMap (timeoutActions c)).count (.SendArpRequest destination) =
      if (waits (timeoutCache c s) destination).isSome then 1 else 0 := by
  rw [hwell.distinct.count_flatMap (k := destination), waits_timeoutCache]
  · unfold waits
    show (((s.Lookup destination).map (timeoutActions c)).getD []).count _ = _
    cases hfind : s.Lookup destination with
    | none => rfl
    | some entry =>
      have hdestination : entry.m_ipv4Address = destination := (KeyedTable.mem_of_find hfind).2
      simp only [map_some, Option.getD_some, bind_some]
      unfold timeoutActions
      by_cases hstate : entry.m_state = .WAIT_REPLY
      · by_cases hlt : entry.m_retries < c.m_maxRetries
        · simp [hstate, hlt, hdestination]
        · simp [hstate, hlt, count_eq_zero]
      · simp [hstate]
  · intro entry hne
    unfold timeoutActions
    split_ifs
    · simpa using Ne.symm hne
    · simp
    · exact not_mem_nil

/-! ### Runs -/

structure Keeps (c : Attributes) (s : ArpCache Packet) (h : List (Happened Packet)) : Prop where
  well : Well c s
  fate : ∀ packet, (given h).count packet = (sent h).count packet + (traced h).count packet +
    (discarded h).count packet + (queued s).count packet
  retries : ∀ destination n, waits s destination = some n →
    n.toNat = retransmissions destination h

/-- The requests for an address since it waits. -/
theorem retransmissions_append (destination : Ipv4Address) (x : Happened Packet) :
    retransmissions destination (h ++ [x]) =
      if (waits x.found destination).isSome then
        retransmissions destination h + x.actions.count (.SendArpRequest destination)
      else 0 := by
  unfold retransmissions
  rw [foldl_append]
  rfl

/-- The fate of packets after an event. -/
theorem count_fate_append {x : Happened Packet} (hk : Keeps c s h)
    (hfate : ∀ packet, (givenIn x.event).count packet + (queued s).count packet =
      (x.actions.flatMap sentIn).count packet + (x.actions.flatMap tracedIn).count packet +
        (discardedIn x).count packet + (queued s').count packet) (packet : Packet) :
    (given (h ++ [x])).count packet = (sent (h ++ [x])).count packet +
      (traced (h ++ [x])).count packet + (discarded (h ++ [x])).count packet +
      (queued s').count packet := by
  have hold := hk.fate packet
  have hnew := hfate packet
  unfold given sent traced discarded at hold ⊢
  simp only [flatMap_append, count_append, flatMap_cons, flatMap_nil, append_nil]
  omega

/-- An event with its effect keeps the invariant. -/
theorem Keeps.of_effect {x : Happened Packet} (hk : Keeps c s h) (hfound : x.found = s)
    (hwell : Well c s')
    (heffect : Effect (givenIn x.event) (discardedIn x) s s' x.actions) :
    Keeps c s' (h ++ [x]) := by
  refine ⟨hwell, count_fate_append hk heffect.fate, fun a n hn => ?_⟩
  rw [retransmissions_append, hfound, count_eq_zero.mpr (heffect.quiet a)]
  obtain hwaits | ⟨hwaits, rfl⟩ := heffect.waiting a n hn
  · rw [hwaits]
    exact hk.retries a n hwaits
  · rw [hwaits]
    rfl

/-- The wait-reply timer's turn at the whole cache keeps the cache sound. -/
theorem Keeps.timeout (hk : Keeps c s h) :
    Keeps c (timeoutCache c s)
      (h ++ [⟨.HandleWaitReplyTimeout, s, s.m_arpCache.flatMap (timeoutActions c)⟩]) := by
  refine ⟨hk.well.timeoutCache, count_fate_append hk fun packet => ?_, fun a n hn => ?_⟩
  · have := count_queued_timeout (c := c) s packet
    simp only [givenIn, discardedIn, count_nil]
    omega
  · have hcount := count_requests hk.well a
    rw [hn, isSome_some, if_pos rfl] at hcount
    rw [retransmissions_append, hcount]
    rw [waits_timeoutCache] at hn
    obtain ⟨m, hm, hn⟩ := Option.bind_eq_some_iff.mp hn
    split_ifs at hn with hlt
    obtain rfl := some.inj hn
    rw [hm, isSome_some, if_pos rfl, ← hk.retries a m hm, UInt32.toNat_add]
    have hlt := UInt32.lt_iff_toNat_lt.mp hlt
    have hmax := c.m_maxRetries.toNat_lt
    exact Nat.mod_eq_of_lt (Nat.lt_of_le_of_lt hlt hmax)

omit [DecidableEq Packet] in
/-- Where the invariant holds, a waiting entry's address is waiting with the entry's own retries. -/
theorem Well.waits_eq (hwell : Well c s) (hmem : entry ∈ s.m_arpCache)
    (hstate : entry.m_state = .WAIT_REPLY) :
    waits s entry.m_ipv4Address = some entry.m_retries := by
  have hfind : s.Lookup entry.m_ipv4Address = some entry :=
    hwell.distinct.find_eq_some.mpr ⟨hmem, rfl⟩
  rw [waits, hfind]
  exact if_pos hstate

/-- Which of the two it is, is decided by the retries. -/
theorem Keeps.dies (hk : Keeps c s h) :
    Dies c (timeoutCache c s)
      (h ++ [⟨.HandleWaitReplyTimeout, s, s.m_arpCache.flatMap (timeoutActions c)⟩]) := by
  intro x hx _ _ entry hmem hstate
  rw [getLast?_append, getLast?_singleton] at hx
  obtain rfl := some.inj hx
  dsimp only at hmem ⊢
  refine ⟨timedOut c s.now entry, mem_map_of_mem hmem, timedOut_m_ipv4Address s.now entry, ?_⟩
  have hwaits := hk.well.waits_eq hmem hstate
  have hretries := hk.retries _ _ hwaits
  have hcount := count_requests hk.well entry.m_ipv4Address
  rw [waits_timeoutCache, hwaits, bind_some] at hcount
  rw [retransmissions_append, hwaits, isSome_some, if_pos rfl, ← hretries, hcount]
  unfold timedOut
  rw [if_pos hstate]
  by_cases hlt : entry.m_retries < c.m_maxRetries
  · rw [if_pos hlt, isSome_some, if_pos rfl] at hcount
    rw [if_pos hlt]
    exact .inl ⟨hstate, count_pos_iff.mp (hcount ▸ Nat.zero_lt_one)⟩
  · -- So many requests have been sent as there may be.
    obtain ⟨_, _, _, _, hle⟩ := (hk.well.entries entry hmem).waiting hstate
    have hle := UInt32.le_iff_toNat_le.mp hle
    have hnlt : ¬ entry.m_retries.toNat < c.m_maxRetries.toNat :=
      fun h => hlt (UInt32.lt_iff_toNat_lt.mpr h)
    rw [if_neg hlt, if_neg hlt]
    refine .inr ⟨rfl, ?_⟩
    show entry.m_retries.toNat + 0 = _
    omega

/-- What a kept cache promises, once the packets it lets go of are accounted for. -/
theorem Keeps.right (hk : Keeps c s h) (hdies : Dies c s h) : Right c s h where
  fate := hk.fate
  waiting := fun entry hmem hpending => by
    by_contra hstate
    exact hpending ((hk.well.entries entry hmem).idle hstate).1
  running := fun entry hmem hstate => by
    obtain ⟨due, htimer, _⟩ := (hk.well.entries entry hmem).waiting hstate
    exact ⟨due, htimer, hk.well.due due htimer⟩
  retransmitted := fun entry hmem hstate => by
    obtain ⟨_, _, _, _, hle⟩ := (hk.well.entries entry hmem).waiting hstate
    rw [← hk.retries _ _ (hk.well.waits_eq hmem hstate)]
    exact UInt32.le_iff_toNat_le.mp hle
  dies := hdies

omit [DecidableEq Packet] in
/-- Time passes, and not beyond the timer. -/
theorem Well.pass (hwell : Well c s) (duration : ℕ) : Well c (pass s duration) := by
  cases htimer : s.m_waitReplyTimer with
  | none =>
    have hpass : ArpL3Protocol.pass s duration = { s with now := s.now + duration } := by
      rw [ArpL3Protocol.pass, htimer]
    rw [hpass]
    refine ⟨hwell.distinct, fun entry hmem => ⟨fun hstate => ?_, (hwell.entries entry hmem).idle⟩,
      fun due hdue => ?_⟩
    · obtain ⟨due, hdue, _⟩ := (hwell.entries entry hmem).waiting hstate
      rw [htimer] at hdue
      cases hdue
    · dsimp only at hdue
      rw [htimer] at hdue
      cases hdue
  | some due =>
    have hpass : ArpL3Protocol.pass s duration =
        { s with now := min (s.now + duration) due } := by
      rw [ArpL3Protocol.pass, htimer]
    rw [hpass]
    obtain ⟨hle, hdue⟩ := hwell.due due htimer
    have hnow : s.now ≤ min (s.now + duration) due := by omega
    refine ⟨hwell.distinct, fun entry hmem => ⟨fun hstate => ?_, (hwell.entries entry hmem).idle⟩,
      fun due' hdue' => ?_⟩
    · obtain ⟨due', hdue', hbefore, hseen, hretries⟩ := (hwell.entries entry hmem).waiting hstate
      exact ⟨due', hdue', hbefore, Nat.le_trans hseen hnow, hretries⟩
    · dsimp only at hdue'
      rw [htimer] at hdue'
      obtain rfl := some.inj hdue'
      dsimp only
      omega

/-- Time passing discards no packet. -/
theorem effect_pass (s : ArpCache Packet) (duration : ℕ) : Effect [] [] s (pass s duration) [] := by
  have hcache : (pass s duration).m_arpCache = s.m_arpCache := by
    unfold ArpL3Protocol.pass
    cases s.m_waitReplyTimer <;> rfl
  refine ⟨fun packet => ?_, fun a n hn => ?_, fun _ => not_mem_nil⟩
  · simp [queued, hcache]
  · unfold waits ArpCache.Lookup at hn ⊢
    rw [hcache] at hn
    exact .inl hn

omit [DecidableEq Packet] in
/-- An empty cache is well formed. -/
theorem well_empty (now : ℕ) : Well c (⟨[], none, now⟩ : ArpCache Packet) where
  distinct := .nil
  entries := nofun
  due := nofun

/-- `Flush` discards exactly the packets that were queued. -/
theorem effect_Flush (s : ArpCache Packet) : Effect [] (queued s) s s.Flush [] where
  fate := fun packet => by simp [queued, ArpCache.Flush]
  waiting := fun _ _ hn => nomatch hn
  quiet := fun _ => not_mem_nil

omit [DecidableEq Packet] in
/-- `Remove` keeps the cache well formed. -/
theorem Well.Remove (hwell : Well c s) (destination : Ipv4Address) :
    Well c (s.Remove destination) := by
  refine ⟨hwell.distinct.erase, fun entry hmem => ?_, hwell.due⟩
  have hentry := hwell.entries entry ((hwell.distinct.erase_mem entry).mp hmem).1
  exact ⟨hentry.waiting, hentry.idle⟩

/-- `Remove` discards exactly the packets that waited for the address. -/
theorem effect_Remove (hwell : Well c s) (destination : Ipv4Address) :
    Effect [] (pendingOf s destination) s (s.Remove destination) [] := by
  refine ⟨fun packet => ?_, fun a n hn => ?_, fun _ => not_mem_nil⟩
  · have hcount : ((KeyedTable.erase Entry.m_ipv4Address destination s.m_arpCache).flatMap
        Entry.m_pending).count packet + (((KeyedTable.find Entry.m_ipv4Address destination
        s.m_arpCache).map Entry.m_pending).getD []).count packet =
        (s.m_arpCache.flatMap Entry.m_pending).count packet :=
      KeyedTable.count_flatMap_erase destination packet
    simp only [flatMap_nil, count_nil]
    unfold queued pendingOf ArpCache.Lookup ArpCache.Remove
    dsimp only
    omega
  · have hfind : (s.Remove destination).Lookup a =
        if a = destination then none else s.Lookup a := hwell.distinct.find_erase a
    unfold waits at hn ⊢
    rw [hfind] at hn
    split_ifs at hn
    · cases hn
    · exact .inl hn

/-- A step of a run. -/
theorem Keeps.step (hk : Keeps c s h) (event : Event Packet) :
    ∃ s' happened, step c s event = .ok (s', happened) ∧ Keeps c s' (h ++ happened) ∧
      Dies c s' (h ++ happened) := by
  -- Where the timer does not expire, the effect is all that is to be known.
  have hstep {s' : ArpCache Packet} {actions : List (Action Packet)}
      (hok : handle c s event = .ok (s', actions)) (hwell : Well c s')
      (heffect : Effect (givenIn event) (discardedIn ⟨event, s, actions⟩) s s' actions)
      (hquiet : event = .HandleWaitReplyTimeout → expires s = false) :
      ∃ s' happened, ArpL3Protocol.step c s event = .ok (s', happened) ∧
        Keeps c s' (h ++ happened) ∧ Dies c s' (h ++ happened) := by
    refine ⟨s', [⟨event, s, actions⟩], ?_, hk.of_effect rfl hwell heffect, ?_⟩
    · rw [ArpL3Protocol.step, hok, ok_bind]
    · intro x hx hevent hexpires
      rw [getLast?_append, getLast?_singleton] at hx
      obtain rfl := some.inj hx
      exact absurd hexpires (by rw [hquiet hevent]; exact Bool.false_ne_true)
  cases event with
  | pass duration => exact hstep rfl (hk.well.pass duration) (effect_pass s duration) nofun
  | HandleWaitReplyTimeout =>
    by_cases hexpires : expires s = true
    · refine ⟨timeoutCache c s, _, ?_, hk.timeout, hk.dies⟩
      rw [ArpL3Protocol.step, handle, if_pos hexpires, HandleWaitReplyTimeout_eq,
        ok_bind]
    · exact hstep (if_neg hexpires) hk.well (.refl s) fun _ => Bool.eq_false_iff.mpr hexpires
  | Send packet dest =>
    obtain ⟨s', actions, hok, hwell, heffect⟩ := Send_spec hk.well packet dest
    exact hstep hok hwell heffect nofun
  | Receive arp deviceAddress addresses =>
    obtain ⟨s', actions, hok, hwell, heffect⟩ := Receive_spec hk.well arp deviceAddress addresses
    exact hstep hok hwell heffect nofun
  | Flush =>
    exact hstep rfl (well_empty s.now) (effect_Flush s) nofun
  | Remove destination =>
    exact hstep rfl (hk.well.Remove destination) (effect_Remove hk.well destination) nofun

/-- The cache as it is built. -/
theorem keeps_new : Keeps c (new : ArpCache Packet) [] where
  well := well_empty 0
  fate := fun _ => rfl
  retries := fun _ _ hn => nomatch hn

/-- **The ARP cache**: no run fails, whatever happens to the cache, and after each event the
packets and the entries are as they are to be. -/
theorem throughout_right (c : Attributes) (events : List (Event Packet)) :
    TracedRun.Throughout (step c) (Right c) new [] events := by
  refine TracedRun.throughout_of_meets (P := fun _ _ _ => True)
    (J := fun s h => Keeps c s h ∧ Dies c s h) ?_ (fun _ _ hJ => hJ.1.right hJ.2) ?_
    (TracedRun.meets_true events)
  · intro s h event hJ _
    exact hJ.1.step event
  · exact ⟨keeps_new, nofun⟩

/-- The attributes by default, with a timeout of a second. -/
def defaults : Attributes := ⟨120000000000, 100000000000, 1000000000, 3, 3⟩

/-- A packet that waits is lost without a trace when the link changes or its entry is removed. -/
theorem not_traced :
    ¬ TracedRun.Throughout (step defaults) (fun s h => ∀ packet, (given h).count packet =
        (sent h).count packet + (traced h).count packet + (queued s).count packet)
      (new : ArpCache ℕ) [] [.Send 7 1, .Flush] ∧
    ¬ TracedRun.Throughout (step defaults) (fun s h => ∀ packet, (given h).count packet =
        (sent h).count packet + (traced h).count packet + (queued s).count packet)
      (new : ArpCache ℕ) [] [.Send 7 1, .Remove 1] := by
  have hlost (last : Event ℕ) (hvalues :
      (TracedRun.run (step defaults) new [.Send 7 1, last]).toOption.map (fun r =>
        ((given r.2).count 7, (sent r.2).count 7, (traced r.2).count 7, (queued r.1).count 7)) =
      some (1, 0, 0, 0)) :
      ¬ TracedRun.Throughout (step defaults) (fun s h => ∀ packet, (given h).count packet =
        (sent h).count packet + (traced h).count packet + (queued s).count packet)
      (new : ArpCache ℕ) [] [.Send 7 1, last] := by
    intro hthroughout
    obtain ⟨s, h, hrun, hall⟩ := hthroughout.exists_run (cons_ne_nil _ _)
    have hseven := hall 7
    rw [hrun] at hvalues
    simp only [Except.toOption, map_some, some.injEq, Prod.mk.injEq] at hvalues
    rw [nil_append] at hseven
    omega
  exact ⟨hlost .Flush (by decide +kernel), hlost (.Remove 1) (by decide +kernel)⟩

end Ns3Joined.Internet.Arp.ArpL3Protocol
