import Ns3Joined.Core.MapScheduler
import Ns3Joined.Core.Simulator

/-!
# What the default simulator guarantees

`Orderly` says of the history of a run that events are executed by time stamp, those of one
time stamp in the order they were scheduled in, none twice and none after it was cancelled or
removed. It follows from one invariant of the runs (`Keeps`): the events held are due after the
last one executed, uids have been given out in increasing order, and an event held or waiting
for `Destroy` that was cancelled is marked.

The uid is a counter of 32 bits that is not checked. When it comes around, an event scheduled
later gets the smaller uid and comes first. `simulator_orderly` says what a run has to keep
from.
-/

namespace Ns3Joined.Core.DefaultSimulatorImpl

open List Function UInt32
open TracedRun (precedes_or run run_append run_invariant)

open TracedRun (Precedes)

/-! ### What is to hold of a history -/

/-- Ids are given out once; events are executed by time stamp and then in the order they were
scheduled in, none twice and none after it was cancelled or removed by its id. -/
structure Orderly (h : List Action) : Prop where
  unique : ∀ x, ¬ Precedes h (.scheduled x) (.scheduled x)
  nondecreasing : ∀ x y, Precedes h (.executed x) (.executed y) → x.ts ≤ y.ts
  inOrder : ∀ x y, Precedes h (.executed x) (.executed y) → x.ts = y.ts →
    Precedes h (.scheduled x) (.scheduled y)
  once : ∀ x, ¬ Precedes h (.executed x) (.executed x) ∧ ¬ Precedes h (.destroyed x) (.destroyed x)
  notRevoked : ∀ x, ¬ Precedes h (.revoked x) (.executed x) ∧
    ¬ Precedes h (.revoked x) (.destroyed x)

/-- The ids of the events still to come. -/
def pendingIds (s : DefaultSimulatorImpl) (held : List Event) : List EventId :=
  held.map Event.id ++ s.destroyEvents

/-- What a call has to be made with: ids that were given out, for a call that schedules a
counter that has not come around and a time stamp that fits, and for `ScheduleDestroy` an
`EventImpl` that it was not given before at this time. -/
def Fits (s : DefaultSimulatorImpl) (h : List Action) : Call → Prop
  | .schedule delay event | .scheduleWithContext _ delay event =>
    s.uid ≠ 0 ∧ event ≠ 0 ∧ 0 ≤ delay.toInt ∧ s.currentTs.toNat + delay.toInt < 2 ^ 63
  | .scheduleNow event => s.uid ≠ 0 ∧ event ≠ 0
  | .scheduleFromThread _ _ event => event ≠ 0
  | .scheduleDestroy event => s.uid ≠ 0 ∧ event ≠ 0 ∧ .scheduled (s.destroyId event) ∉ h
  | .cancel id | .remove id => id.impl = 0 ∨ .scheduled id ∈ h
  | .processEventsWithContext =>
    (s.uid ≠ 0 ∨ s.eventsWithContext = []) ∧
      s.uid.toNat + s.eventsWithContext.length ≤ 2 ^ 32 ∧
      ∀ event ∈ s.eventsWithContext, s.currentTs.toNat + event.timestamp.toNat < 2 ^ 64
  | .setScheduler _ | .runNext | .destroyNext => True

instance decidableFits (s : DefaultSimulatorImpl) (h : List Action) (call : Call) :
    Decidable (Fits s h call) :=
  match call with
  | .schedule _ _ | .scheduleWithContext _ _ _ => inferInstanceAs (Decidable (_ ∧ _ ∧ _ ∧ _))
  | .scheduleNow _ => inferInstanceAs (Decidable (_ ∧ _))
  | .scheduleFromThread _ _ _ => inferInstanceAs (Decidable (_ ≠ _))
  | .scheduleDestroy _ => inferInstanceAs (Decidable (_ ∧ _ ∧ _ ∉ _))
  | .cancel _ | .remove _ => inferInstanceAs (Decidable (_ ∨ _ ∈ _))
  | .processEventsWithContext => inferInstanceAs (Decidable (_ ∧ _ ∧ ∀ _ ∈ _, _))
  | .setScheduler _ | .runNext | .destroyNext => inferInstanceAs (Decidable True)

/-! ### The invariant -/

/-- What `operator <` of the keys compares. -/
def EventId.rank (id : EventId) : ℕ ×ₗ ℕ := toLex (id.ts.toNat, id.uid.toNat)

/-- The rank of the event executed last. -/
def current (s : DefaultSimulatorImpl) : ℕ ×ₗ ℕ := toLex (s.currentTs.toNat, s.currentUid.toNat)

/-- The uid to be given out next, before it is cut to 32 bits. -/
def nextUid (uid : UInt32) : ℕ := if uid = 0 then 2 ^ 32 else uid.toNat

/-- What may come after what in a history. -/
def Follows : Action → Action → Prop
  | .scheduled x, .scheduled y => x ≠ y ∧ (x.uid ≠ 2 → y.uid ≠ 2 → x.uid.toNat < y.uid.toNat)
  | .executed x, .executed y => EventId.rank x < EventId.rank y
  | .destroyed x, .destroyed y | .revoked x, .executed y | .revoked x, .destroyed y => x ≠ y
  | _, _ => True

/-- Ids that were given out. -/
structure Given (s : DefaultSimulatorImpl) (h : List Action) : Prop where
  four_le : 4 ≤ nextUid s.uid
  current_lt : s.currentUid.toNat < nextUid s.uid
  scheduled : ∀ id, .scheduled id ∈ h → id.impl ≠ 0 ∧
    (id.uid ≠ 2 → 4 ≤ id.uid.toNat ∧ id.uid.toNat < nextUid s.uid)
  revoked : ∀ id, .revoked id ∈ h → id.impl = 0 ∨ .scheduled id ∈ h

/-- Events to be run. -/
structure Held (s : DefaultSimulatorImpl) (h : List Action) (held : List Event) : Prop where
  holds : s.events.1.Holds s.events.2 held
  increasing : Increasing held
  unscheduled : s.unscheduledEvents = held.length
  scheduled : ∀ ev ∈ held, .scheduled ev.id ∈ h ∧ ev.key.uid ≠ 2
  later : ∀ ev ∈ held, s.current < ev.rank
  revoked : ∀ ev ∈ held, .revoked ev.id ∈ h → s.cancelled ev.impl = true
  live : ∀ id, .scheduled id ∈ h → id.uid ≠ 2 →
    (∃ ev ∈ held, ev.id = id) ∨ s.cancelled id.impl = true ∨ EventId.rank id ≤ s.current
  waiting : ∀ event ∈ s.eventsWithContext, event.event ≠ 0

/-- Events for `Destroy`. -/
structure Waiting (s : DefaultSimulatorImpl) (h : List Action) : Prop where
  scheduled : ∀ id ∈ s.destroyEvents, .scheduled id ∈ h ∧ id.uid = 2
  nodup : s.destroyEvents.Nodup
  revoked : ∀ id ∈ s.destroyEvents, .revoked id ∈ h → s.cancelled id.impl = true

/-- Events that were executed. -/
structure Past (s : DefaultSimulatorImpl) (h : List Action) : Prop where
  executed : ∀ id, .executed id ∈ h → .scheduled id ∈ h ∧ id.uid ≠ 2 ∧ EventId.rank id ≤ s.current
  destroyed : ∀ id, .destroyed id ∈ h → .scheduled id ∈ h ∧ id ∉ s.destroyEvents
  follows : h.Pairwise Follows

/-- The invariant of the runs. -/
structure Keeps (s : DefaultSimulatorImpl) (h : List Action) (held : List Event) : Prop where
  given : Given s h
  held : Held s h held
  waiting : Waiting s h
  past : Past s h

variable {uid : UInt32} {delay : Int64}

section Invariant

variable {s s' : DefaultSimulatorImpl} {h : List Action} {held : List Event} {id : EventId}
  {a b : Action}

theorem mem_snoc : a ∈ h ++ [b] ↔ a ∈ h ∨ a = b := by
  rw [mem_append, mem_singleton]

/-- What follows all of the past can be put behind it. -/
theorem pairwise_snoc (hpast : h.Pairwise Follows) (hb : ∀ a ∈ h, Follows a b) :
    (h ++ [b]).Pairwise Follows := by
  rw [pairwise_append]
  refine ⟨hpast, pairwise_singleton _ _, ?_⟩
  intro a ha b' hb'
  rw [mem_singleton.mp hb']
  exact hb a ha

/-- The numbers of events go up by one, except at the start. -/
theorem nextUid_succ (h : uid ≠ 0) : nextUid (uid + 1) = nextUid uid + 1 := by
  have hlt := uid.toNat_lt
  have hne : uid.toNat ≠ 0 := fun hzero => h (UInt32.toNat_inj.mp hzero)
  have hadd : (uid + 1).toNat = (uid.toNat + 1) % 2 ^ 32 := UInt32.toNat_add uid 1
  unfold nextUid
  rw [if_neg h]
  split_ifs with hzero
  · rw [hzero] at hadd
    have : (0 : UInt32).toNat = 0 := rfl
    omega
  · have hpos : (uid + 1).toNat ≠ 0 := fun hz => hzero (UInt32.toNat_inj.mp hz)
    omega

theorem nextUid_eq (h : uid ≠ 0) : nextUid uid = uid.toNat := if_neg h

/-- The identifier of an event has all of its fields. -/
theorem id_injective : Function.Injective Event.id := by
  rintro ⟨impl, ts, uid, context⟩ ⟨impl', ts', uid', context'⟩ heq
  cases heq
  rfl

/-- The ids given out stay so with one more: an id of the end, or one with the next number. -/
theorem Given.schedule (hgiven : Given s h) (huid : s.uid ≠ 0) (hnext : s'.uid = s.uid + 1)
    (hcurrent : s'.currentUid = s.currentUid) (himpl : id.impl ≠ 0)
    (hid : id.uid ≠ 2 → 4 ≤ id.uid.toNat ∧ id.uid.toNat ≤ nextUid s.uid) :
    Given s' (h ++ [.scheduled id]) := by
  have hsucc : nextUid s'.uid = nextUid s.uid + 1 := by rw [hnext, nextUid_succ huid]
  refine ⟨?_, ?_, ?_, ?_⟩
  · rw [hsucc]
    exact Nat.le_succ_of_le hgiven.four_le
  · rw [hsucc, hcurrent]
    exact Nat.lt_succ_of_lt hgiven.current_lt
  · intro id' hid'
    rw [hsucc]
    rcases mem_snoc.mp hid' with hid' | heq
    · obtain ⟨himpl', huid'⟩ := hgiven.scheduled id' hid'
      exact ⟨himpl', fun htwo => ⟨(huid' htwo).1, Nat.lt_succ_of_lt (huid' htwo).2⟩⟩
    · cases heq
      exact ⟨himpl, fun htwo => ⟨(hid htwo).1, Nat.lt_succ_of_le (hid htwo).2⟩⟩
  · intro id' hid'
    have hrevoked := (mem_snoc.mp hid').resolve_right fun heq => nomatch heq
    exact (hgiven.revoked id' hrevoked).imp_right fun hmem => mem_snoc.mpr (.inl hmem)

/-- An event held is not expired unless it was cancelled. -/
theorem Held.isExpired (hheld : Held s h held) (hgiven : Given s h) {ev : Event} (hev : ev ∈ held)
    (hcancelled : s.cancelled ev.impl = false) : s.IsExpired ev.id = false := by
  obtain ⟨hscheduled, huid⟩ := hheld.scheduled ev hev
  have himpl : ev.id.impl ≠ 0 := (hgiven.scheduled _ hscheduled).1
  have hlater : s.currentTs.toNat < ev.key.ts.toNat ∨
      s.currentTs.toNat = ev.key.ts.toNat ∧ s.currentUid.toNat < ev.key.uid.toNat :=
    Prod.Lex.toLex_lt_toLex.mp (hheld.later ev hev)
  have hts : ¬ ev.id.ts < s.currentTs := by
    rw [UInt64.lt_iff_toNat_lt]
    show ¬ ev.key.ts.toNat < _
    omega
  have hnow : ¬ (ev.id.ts = s.currentTs ∧ ev.id.uid ≤ s.currentUid) := by
    rintro ⟨hts, hle⟩
    rw [le_iff_toNat_le] at hle
    have hts' : ev.key.ts.toNat = s.currentTs.toNat := congrArg UInt64.toNat hts
    have hle' : ev.key.uid.toNat ≤ s.currentUid.toNat := hle
    omega
  have hcancelled' : s.cancelled ev.id.impl = false := hcancelled
  unfold IsExpired
  rw [if_neg (show ev.id.uid ≠ 2 from huid), hcancelled', decide_eq_false himpl,
    decide_eq_false hts]
  rw [Bool.false_or, Bool.false_or, Bool.or_false, ← Bool.decide_and]
  exact decide_eq_false hnow

/-- A call of the scheduler does what a scheduler is to do. -/
theorem callScheduler_spec (hholds : s.events.1.Holds s.events.2 held) (call : SchedulerCall)
    (hallowed : sortedList.Allowed held call) :
    ∃ scheduler : s.events.1.State,
      s.callScheduler call =
        .ok ({ s with events := ⟨s.events.1, scheduler⟩ }, sortedList.answer held call) ∧
      s.events.1.Holds scheduler (sortedList.next held call) := by
  obtain ⟨scheduler, hok, hnext⟩ := s.events.1.refines hholds hallowed
  refine ⟨scheduler, ?_, hnext⟩
  unfold callScheduler
  rw [hok]

end Invariant

/-! ### What the calls keep -/

section Calls

variable {s : DefaultSimulatorImpl} {h : List Action} {held : List Event} {impl : ℕ} {ts : UInt64}
  {context : UInt32} {id : EventId}

/-- **Scheduling an event** for a time that is not past, while the counter has not come
around. -/
theorem insert_spec (hs : Keeps s h held) (context : UInt32) (huid : s.uid ≠ 0) (himpl : impl ≠ 0)
    (hts : s.currentTs.toNat ≤ ts.toNat) :
    ∃ s' actions held', s.insert impl ts context = .ok (s', actions) ∧
        Keeps s' (h ++ actions) held' ∧
      s'.uid = s.uid + 1 ∧ s'.currentTs = s.currentTs := by
  obtain ⟨hgiven, hheld, hwaiting, hpast⟩ := hs
  have hnext := nextUid_eq huid
  have hfour := hgiven.four_le
  rw [hnext] at hfour
  let ev : Event := ⟨impl, ⟨ts, s.uid, context⟩⟩
  -- the uid is larger than all that were given out
  have hlt : ∀ id, .scheduled id ∈ h → id.uid ≠ 2 → id.uid.toNat < s.uid.toNat := by
    intro id hid htwo
    have hlt := ((hgiven.scheduled id hid).2 htwo).2
    rwa [hnext] at hlt
  have htwo : ev.key.uid ≠ 2 := by
    intro heq
    have : (2 : UInt32).toNat = 2 := rfl
    have hval : s.uid.toNat = 2 := congrArg UInt32.toNat heq
    omega
  have hnew : .scheduled ev.id ∉ h := fun hmem => absurd (hlt ev.id hmem htwo) (Nat.lt_irrefl _)
  have hallowed : sortedList.Allowed held (.insert ev) := by
    intro ev' hev' heq
    have hscheduled := hheld.scheduled ev' hev'
    have huid' : ev'.key.uid.toNat = s.uid.toNat := congrArg (fun r => (ofLex r).2) heq
    have hlt' : ev'.key.uid.toNat < s.uid.toNat := hlt ev'.id hscheduled.1 hscheduled.2
    omega
  let s₁ : DefaultSimulatorImpl :=
    { s with uid := s.uid + 1, unscheduledEvents := s.unscheduledEvents + 1 }
  obtain ⟨scheduler, hok, hholds⟩ :=
    callScheduler_spec (s := s₁) (show s₁.events.1.Holds s₁.events.2 held from hheld.holds) _
      hallowed
  refine ⟨{ s₁ with events := ⟨s.events.1, scheduler⟩ }, [.scheduled ev.id], insertEvent ev held,
    ?_,
    ?_, rfl, rfl⟩
  · show (callScheduler s₁ (.insert ev) >>= _) = _
    rw [hok]
    rfl
  have hmem : ∀ ev', ev' ∈ insertEvent ev held ↔ ev' = ev ∨ ev' ∈ held := fun ev' => by
    rw [(insertEvent_perm ev held).mem_iff, mem_cons]
  have hrevoked : ∀ id, .revoked id ∈ h ++ [.scheduled ev.id] → .revoked id ∈ h := fun id hid =>
    (mem_snoc.mp hid).resolve_right fun heq => nomatch heq
  have hnotRevoked : .revoked ev.id ∉ h := fun hid =>
    (hgiven.revoked ev.id hid).elim himpl hnew
  refine ⟨hgiven.schedule huid rfl rfl himpl fun _ => ⟨hfour, Nat.le_of_eq hnext.symm⟩,
    ⟨hholds, hheld.increasing.insertEvent hallowed, ?_, ?_, ?_, ?_, ?_, hheld.waiting⟩,
    ⟨?_, hwaiting.nodup, ?_⟩, ⟨?_, ?_, ?_⟩⟩
  · -- what the scheduler holds
    show s.unscheduledEvents + 1 = ((insertEvent ev held).length : ℤ)
    rw [(insertEvent_perm ev held).length_eq, hheld.unscheduled]
    rfl
  · intro ev' hev'
    rcases (hmem ev').mp hev' with rfl | hev'
    · exact ⟨mem_snoc.mpr (.inr rfl), htwo⟩
    · exact ⟨mem_snoc.mpr (.inl (hheld.scheduled ev' hev').1), (hheld.scheduled ev' hev').2⟩
  · -- a uid larger than the current one makes it later at the same time
    intro ev' hev'
    rcases (hmem ev').mp hev' with rfl | hev'
    · apply Prod.Lex.toLex_lt_toLex.mpr
      have hcurrent := hgiven.current_lt
      rw [hnext] at hcurrent
      show s.currentTs.toNat < ts.toNat ∨ s.currentTs.toNat = ts.toNat ∧
        s.currentUid.toNat < s.uid.toNat
      omega
    · exact hheld.later ev' hev'
  · intro ev' hev' hid
    rcases (hmem ev').mp hev' with rfl | hev'
    · exact absurd (hrevoked _ hid) hnotRevoked
    · exact hheld.revoked ev' hev' (hrevoked _ hid)
  · intro id hid huid
    rcases mem_snoc.mp hid with hid | heq
    · refine (hheld.live id hid huid).imp_left ?_
      rintro ⟨ev', hev', rfl⟩
      exact ⟨ev', (hmem ev').mpr (.inr hev'), rfl⟩
    · cases heq
      exact .inl ⟨ev, (hmem ev).mpr (.inl rfl), rfl⟩
  · -- what waits for the end
    intro id hid
    exact ⟨mem_snoc.mpr (.inl (hwaiting.scheduled id hid).1), (hwaiting.scheduled id hid).2⟩
  · intro id hid hrev
    exact hwaiting.revoked id hid (hrevoked id hrev)
  · -- what is past
    intro id hid
    have hid' := (mem_snoc.mp hid).resolve_right fun heq => nomatch heq
    exact ⟨mem_snoc.mpr (.inl (hpast.executed id hid').1), (hpast.executed id hid').2⟩
  · intro id hid
    have hid' := (mem_snoc.mp hid).resolve_right fun heq => nomatch heq
    exact ⟨mem_snoc.mpr (.inl (hpast.destroyed id hid').1), (hpast.destroyed id hid').2⟩
  · apply pairwise_snoc hpast.follows
    intro a ha
    match a with
    | .scheduled x =>
      refine ⟨?_, fun hx _ => hlt x ha hx⟩
      rintro rfl
      exact hnew ha
    | .executed _ | .destroyed _ | .revoked _ => trivial

/-- The time of an event is not before the present. -/
theorem tAbsolute_spec (hdelay : 0 ≤ delay.toInt)
    (hfits : s.currentTs.toNat + delay.toInt < 2 ^ 63) :
    ∃ ts, s.tAbsolute delay = .ok ts ∧ s.currentTs.toNat ≤ ts.toNat := by
  have hnow : s.currentTs.toInt64.toInt = s.currentTs.toNat := by
    show s.currentTs.toBitVec.toInt = _
    rw [BitVec.toInt_eq_toNat_of_lt (show 2 * s.currentTs.toNat < 2 ^ 64 by omega)]
    rfl
  refine ⟨UInt64.ofInt (delay.toInt + s.currentTs.toNat), ?_, ?_⟩
  · unfold tAbsolute
    rw [hnow]
    exact if_pos (by omega)
  · unfold UInt64.ofInt
    rw [UInt64.toNat_ofNat']
    omega

/-- Scheduling under a context, with a delay that is not negative and a time stamp that fits. -/
theorem scheduleWithContext_spec (hs : Keeps s h held) (huid : s.uid ≠ 0) (himpl : impl ≠ 0)
    (hdelay : 0 ≤ delay.toInt) (hfits : s.currentTs.toNat + delay.toInt < 2 ^ 63) :
    ∃ s' actions held', s.ScheduleWithContext context delay impl = .ok (s', actions) ∧
      Keeps s' (h ++ actions) held' := by
  obtain ⟨ts, hok, hts⟩ := tAbsolute_spec hdelay hfits
  obtain ⟨s', actions, held', hinsert, hs', -, -⟩ :=
    insert_spec hs context huid himpl hts
  refine ⟨s', actions, held', ?_, hs'⟩
  unfold ScheduleWithContext
  rw [hok]
  exact hinsert

/-- `Schedule` schedules in the present context. -/
theorem schedule_eq (hdelay : 0 ≤ delay.toInt) :
    s.Schedule delay impl = s.ScheduleWithContext s.currentContext delay impl := by
  have hnot : ¬ delay < 0 := by
    rw [Int64.lt_iff_toInt_lt]
    exact Int.not_lt.mpr hdelay
  unfold Schedule ScheduleWithContext
  rw [if_neg hnot]

/-- Events from other threads wait for the next one to be processed. -/
theorem scheduleFromThread_spec (hs : Keeps s h held) (himpl : impl ≠ 0) :
    Keeps (s.ScheduleFromThread context delay impl) h held := by
  refine ⟨⟨hs.given.four_le, hs.given.current_lt, hs.given.scheduled, hs.given.revoked⟩,
    { hs.held with waiting := ?_ }, ⟨hs.waiting.scheduled, hs.waiting.nodup, hs.waiting.revoked⟩,
    ⟨hs.past.executed, hs.past.destroyed, hs.past.follows⟩⟩
  intro event hevent
  rcases mem_append.mp hevent with hevent | hevent
  · exact hs.held.waiting event hevent
  · rw [mem_singleton.mp hevent]
    exact himpl

/-- Events that waited are inserted one after the other. -/
theorem insertAll_spec {events : List EventWithContext} (hs : Keeps s h held)
    (huid : s.uid ≠ 0 ∨ events = []) (hroom : s.uid.toNat + events.length ≤ 2 ^ 32)
    (hevents : ∀ event ∈ events, event.event ≠ 0 ∧
      s.currentTs.toNat + event.timestamp.toNat < 2 ^ 64) :
    ∃ s' actions held', insertAll s events = .ok (s', actions) ∧ Keeps s' (h ++ actions) held' := by
  induction events generalizing s h held with
  | nil =>
    refine ⟨s, [], held, rfl, ?_⟩
    rw [append_nil]
    exact hs
  | cons event events ih =>
    obtain ⟨⟨himpl, hts⟩, hevents⟩ := forall_mem_cons.mp hevents
    have huid := huid.resolve_right (cons_ne_nil _ _)
    rw [length_cons] at hroom
    have hsum :
        (s.currentTs + event.timestamp).toNat = s.currentTs.toNat + event.timestamp.toNat := by
      rw [UInt64.toNat_add]
      exact Nat.mod_eq_of_lt hts
    obtain ⟨s₁, actions₁, held₁, hok₁, hs₁, huid₁, hts₁⟩ := insert_spec hs
      event.context huid himpl
      (show s.currentTs.toNat ≤ (s.currentTs + event.timestamp).toNat by omega)
    have hsucc := nextUid_succ huid
    have hne : s.uid.toNat ≠ 0 := fun hzero => huid (UInt32.toNat_inj.mp hzero)
    have huid₁' : s₁.uid.toNat = (s.uid.toNat + 1) % 2 ^ 32 := by
      rw [huid₁]
      exact UInt32.toNat_add s.uid 1
    obtain ⟨s₂, actions₂, held₂, hok₂, hs₂⟩ := ih hs₁ (by
      -- the counter comes around only after the last event
      by_cases hnil : events = []
      · exact .inr hnil
      · left
        have hpos := length_pos_iff.mpr hnil
        intro hzero
        have : s₁.uid.toNat = 0 := congrArg UInt32.toNat hzero
        omega) (by
      by_cases hnil : events = []
      · rw [hnil, length_nil]
        have := s₁.uid.toNat_lt
        omega
      · have hpos := length_pos_iff.mpr hnil
        omega) (by rwa [hts₁])
    refine ⟨s₂, actions₁ ++ actions₂, held₂, ?_, ?_⟩
    · rw [insertAll, hok₁]
      show (insertAll s₁ events >>= _) = _
      rw [hok₂]
      rfl
    · rw [← append_assoc]
      exact hs₂

/-- `ProcessEventsWithContext` inserts all that waited. -/
theorem processEventsWithContext_spec (hs : Keeps s h held)
    (huid : s.uid ≠ 0 ∨ s.eventsWithContext = [])
    (hroom : s.uid.toNat + s.eventsWithContext.length ≤ 2 ^ 32)
    (hevents : ∀ event ∈ s.eventsWithContext,
      s.currentTs.toNat + event.timestamp.toNat < 2 ^ 64) :
    ∃ s' actions held', s.ProcessEventsWithContext = .ok (s', actions) ∧
      Keeps s' (h ++ actions) held' := by
  let s₁ : DefaultSimulatorImpl := { s with eventsWithContext := [] }
  have hs₁ : Keeps s₁ h held :=
    ⟨⟨hs.given.four_le, hs.given.current_lt, hs.given.scheduled, hs.given.revoked⟩,
      { hs.held with waiting := fun _ hevent => nomatch hevent },
      ⟨hs.waiting.scheduled, hs.waiting.nodup, hs.waiting.revoked⟩,
      ⟨hs.past.executed, hs.past.destroyed, hs.past.follows⟩⟩
  exact insertAll_spec hs₁ huid hroom fun event hevent =>
    ⟨hs.held.waiting event hevent, hevents event hevent⟩

/-- An event at the end is put behind the others at the end. -/
theorem scheduleDestroy_spec (hs : Keeps s h held) (huid : s.uid ≠ 0) (himpl : impl ≠ 0)
    (hnew : .scheduled (s.destroyId impl) ∉ h) :
    Keeps (s.ScheduleDestroy impl).1 (h ++ (s.ScheduleDestroy impl).2) held := by
  obtain ⟨hgiven, hheld, hwaiting, hpast⟩ := hs
  have hrevoked : ∀ id, .revoked id ∈ h ++ [.scheduled (s.destroyId impl)] → .revoked id ∈ h :=
    fun id hid => (mem_snoc.mp hid).resolve_right fun heq => nomatch heq
  have hmem : ∀ id, id ∈ s.destroyEvents ++ [s.destroyId impl] ↔
      id ∈ s.destroyEvents ∨ id = s.destroyId impl := fun id => by
    rw [mem_append, mem_singleton]
  -- Only the list of the events at destruction is longer; the rest is as before.
  refine ⟨hgiven.schedule huid rfl rfl himpl fun htwo => absurd rfl htwo,
    ⟨hheld.holds, hheld.increasing, hheld.unscheduled, ?_, hheld.later, ?_, ?_, hheld.waiting⟩,
    ⟨?_, ?_, ?_⟩, ⟨?_, ?_, ?_⟩⟩
  · intro ev hev
    exact ⟨mem_snoc.mpr (.inl (hheld.scheduled ev hev).1), (hheld.scheduled ev hev).2⟩
  · intro ev hev hid
    exact hheld.revoked ev hev (hrevoked _ hid)
  · intro id hid huid
    rcases mem_snoc.mp hid with hid | heq
    · exact hheld.live id hid huid
    · cases heq
      exact absurd rfl huid
  · intro id hid
    rcases (hmem id).mp hid with hid | rfl
    · exact ⟨mem_snoc.mpr (.inl (hwaiting.scheduled id hid).1), (hwaiting.scheduled id hid).2⟩
    · exact ⟨mem_snoc.mpr (.inr rfl), rfl⟩
  · apply nodup_append.mpr
    refine ⟨hwaiting.nodup, nodup_singleton _, ?_⟩
    rintro id hid id' hid' rfl
    rw [mem_singleton.mp hid'] at hid
    exact hnew (hwaiting.scheduled _ hid).1
  · intro id hid hrev
    rcases (hmem id).mp hid with hid | rfl
    · exact hwaiting.revoked id hid (hrevoked id hrev)
    · exact absurd (hgiven.revoked _ (hrevoked _ hrev)) (not_or.mpr ⟨himpl, hnew⟩)
  · intro id hid
    have hid' := (mem_snoc.mp hid).resolve_right fun heq => nomatch heq
    exact ⟨mem_snoc.mpr (.inl (hpast.executed id hid').1), (hpast.executed id hid').2⟩
  · intro id hid
    have hid' := (mem_snoc.mp hid).resolve_right fun heq => nomatch heq
    obtain ⟨hscheduled, hnot⟩ := hpast.destroyed id hid'
    refine ⟨mem_snoc.mpr (.inl hscheduled), fun hmem' => ?_⟩
    rcases (hmem id).mp hmem' with hmem' | rfl
    · exact hnot hmem'
    · exact hnew hscheduled
  · apply pairwise_snoc hpast.follows
    intro a ha
    match a with
    | .scheduled x =>
      refine ⟨?_, fun _ htwo => absurd rfl htwo⟩
      rintro rfl
      exact hnew ha
    | .executed _ | .destroyed _ | .revoked _ => trivial

/-- Less to come, more cancelled. -/
structure Narrows (s s' : DefaultSimulatorImpl) : Prop where
  uid : s'.uid = s.uid
  currentUid : s'.currentUid = s.currentUid
  currentTs : s'.currentTs = s.currentTs
  eventsWithContext : s'.eventsWithContext = s.eventsWithContext
  destroyEvents : s'.destroyEvents.Sublist s.destroyEvents
  cancelled : ∀ impl, s.cancelled impl = true → s'.cancelled impl = true

/-- **Cancelling or removing** by an id that was given out: what is still to come under the id
is marked. -/
theorem Keeps.revoke (hs : Keeps s h held) (hid : id.impl = 0 ∨ .scheduled id ∈ h)
    {s' : DefaultSimulatorImpl} (hs' : Narrows s s') {held' : List Event}
    (hholds : s'.events.1.Holds s'.events.2 held') (hsub : held'.Sublist held)
    (hunscheduled : s'.unscheduledEvents = held'.length)
    (hdropped : ∀ ev ∈ held, ev ∈ held' ∨ s'.cancelled ev.impl = true)
    (hheld' : ∀ ev ∈ held', ev.id = id → s'.cancelled ev.impl = true)
    (hdestroy' : id ∈ s'.destroyEvents → s'.cancelled id.impl = true) :
    Keeps s' (h ++ [.revoked id]) held' := by
  obtain ⟨hgiven, hheld, hwaiting, hpast⟩ := hs
  have hcurrent : s'.current = s.current := by
    rw [current, current, hs'.currentTs, hs'.currentUid]
  have hold : ∀ {a : Action}, a ∈ h → a ∈ h ++ [.revoked id] := fun ha => mem_snoc.mpr (.inl ha)
  -- The history grows by the revocation, and the events held may become fewer.
  refine ⟨⟨?_, ?_, ?_, ?_⟩, ⟨hholds, hheld.increasing.sublist hsub, hunscheduled, ?_, ?_, ?_, ?_,
    ?_⟩, ⟨?_, hwaiting.nodup.sublist hs'.destroyEvents, ?_⟩, ⟨?_, ?_, ?_⟩⟩
  · rw [hs'.uid]
    exact hgiven.four_le
  · rw [hs'.uid, hs'.currentUid]
    exact hgiven.current_lt
  · intro x hx
    rw [hs'.uid]
    exact hgiven.scheduled x ((mem_snoc.mp hx).resolve_right fun heq => nomatch heq)
  · intro x hx
    rcases mem_snoc.mp hx with hx | heq
    · exact (hgiven.revoked x hx).imp_right hold
    · cases heq
      exact hid.imp_right hold
  · intro ev hev
    obtain ⟨hscheduled, huid⟩ := hheld.scheduled ev (hsub.subset hev)
    exact ⟨hold hscheduled, huid⟩
  · intro ev hev
    rw [hcurrent]
    exact hheld.later ev (hsub.subset hev)
  · intro ev hev hrev
    rcases mem_snoc.mp hrev with hrev | heq
    · exact hs'.cancelled _ (hheld.revoked ev (hsub.subset hev) hrev)
    · exact hheld' ev hev (Action.revoked.inj heq)
  · intro x hx huid
    have hx' := (mem_snoc.mp hx).resolve_right fun heq => nomatch heq
    rw [hcurrent]
    rcases hheld.live x hx' huid with ⟨ev, hev, rfl⟩ | hcancelled | hle
    · exact (hdropped ev hev).imp (fun hev' => ⟨ev, hev', rfl⟩) .inl
    · exact .inr (.inl (hs'.cancelled _ hcancelled))
    · exact .inr (.inr hle)
  · rw [hs'.eventsWithContext]
    exact hheld.waiting
  · intro x hx
    obtain ⟨hscheduled, huid⟩ := hwaiting.scheduled x (hs'.destroyEvents.subset hx)
    exact ⟨hold hscheduled, huid⟩
  · intro x hx hrev
    rcases mem_snoc.mp hrev with hrev | heq
    · exact hs'.cancelled _ (hwaiting.revoked x (hs'.destroyEvents.subset hx) hrev)
    · cases heq
      exact hdestroy' hx
  · intro x hx
    have hx' := (mem_snoc.mp hx).resolve_right fun heq => nomatch heq
    obtain ⟨hscheduled, huid, hrank⟩ := hpast.executed x hx'
    rw [hcurrent]
    exact ⟨hold hscheduled, huid, hrank⟩
  · intro x hx
    have hx' := (mem_snoc.mp hx).resolve_right fun heq => nomatch heq
    obtain ⟨hscheduled, hnot⟩ := hpast.destroyed x hx'
    exact ⟨hold hscheduled, fun hmem => hnot (hs'.destroyEvents.subset hmem)⟩
  · apply pairwise_snoc hpast.follows
    intro a _
    match a with
    | .scheduled _ | .executed _ | .destroyed _ | .revoked _ => trivial

/-- What is still to come under an id that has expired was cancelled. -/
theorem Keeps.cancelled_of_isExpired (hs : Keeps s h held) (hexpired : s.IsExpired id = true) :
    (∀ ev ∈ held, ev.id = id → s.cancelled ev.impl = true) ∧
      (id ∈ s.destroyEvents → s.cancelled id.impl = true) := by
  constructor
  · rintro ev hev rfl
    by_contra hnot
    rw [hs.held.isExpired hs.given hev (Bool.eq_false_of_not_eq_true hnot)] at hexpired
    cases hexpired
  · intro hmem
    obtain ⟨hscheduled, huid⟩ := hs.waiting.scheduled id hmem
    have himpl := (hs.given.scheduled id hscheduled).1
    have hcontains : s.destroyEvents.contains id = true := contains_iff_mem.mpr hmem
    unfold IsExpired at hexpired
    rw [if_pos huid, hcontains, decide_eq_false himpl, Bool.false_or, Bool.not_true,
      Bool.or_false] at hexpired
    exact hexpired

theorem narrows_cancelImpl (s : DefaultSimulatorImpl) (impl : ℕ) :
    Narrows s (s.cancelImpl impl) where
  uid := rfl
  currentUid := rfl
  currentTs := rfl
  eventsWithContext := rfl
  destroyEvents := List.Sublist.refl _
  cancelled impl' hcancelled := by
    show update s.cancelled impl true impl' = true
    rw [update_apply]
    split_ifs
    · rfl
    · exact hcancelled

theorem cancelImpl_cancelled (s : DefaultSimulatorImpl) (impl : ℕ) :
    (s.cancelImpl impl).cancelled impl = true := update_self ..

section

variable (hs : Keeps s h held) (hid : id.impl = 0 ∨ .scheduled id ∈ h)

include hs hid

/-- `Cancel` keeps the invariant. -/
theorem cancel_spec : Keeps (s.Cancel id).1 (h ++ (s.Cancel id).2) held := by
  unfold Cancel
  dsimp only
  split_ifs with hexpired
  · obtain ⟨hheld, hdestroy⟩ := hs.cancelled_of_isExpired hexpired
    have hsame : Narrows s s := ⟨rfl, rfl, rfl, rfl, List.Sublist.refl _, fun _ hc => hc⟩
    exact hs.revoke hid hsame hs.held.holds (List.Sublist.refl _) hs.held.unscheduled
      (fun _ hev => .inl hev) hheld hdestroy
  · refine hs.revoke hid (narrows_cancelImpl s id.impl) hs.held.holds (List.Sublist.refl _)
      hs.held.unscheduled (fun _ hev => .inl hev) ?_ ?_
    · rintro ev - rfl
      exact cancelImpl_cancelled s ev.impl
    · intro _
      exact cancelImpl_cancelled s id.impl

/-- An event that has not expired is held. -/
theorem Keeps.exists_held (huid : id.uid ≠ 2) (hexpired : s.IsExpired id = false) :
    ∃ ev ∈ held, ev.id = id := by
  unfold IsExpired at hexpired
  rw [if_neg huid] at hexpired
  simp only [Bool.or_eq_false_iff, decide_eq_false_iff_not, Bool.and_eq_false_iff] at hexpired
  obtain ⟨⟨⟨himpl, hts⟩, hnow⟩, hcancelled⟩ := hexpired
  rcases hs.held.live id (hid.resolve_left himpl) huid with hev | htrue | hle
  · exact hev
  · rw [hcancelled] at htrue
    cases htrue
  · rw [UInt64.lt_iff_toNat_lt] at hts
    rw [le_iff_toNat_le, ← UInt64.toNat_inj] at hnow
    rcases Prod.Lex.toLex_le_toLex.mp hle with hlt | ⟨heq, hle⟩
    · exact absurd hlt hts
    · exact absurd hle (hnow.resolve_left fun hne => hne heq)

/-- `Remove` keeps the invariant. -/
theorem remove_spec :
    ∃ s' actions held', s.Remove id = .ok (s', actions) ∧ Keeps s' (h ++ actions) held' := by
  unfold Remove
  split_ifs with huid hexpired
  · -- an event for `Destroy`
    refine ⟨_, _, held, rfl, ?_⟩
    have hnarrows : Narrows s { s with destroyEvents := s.destroyEvents.erase id } :=
      ⟨rfl, rfl, rfl, rfl, erase_sublist, fun _ hc => hc⟩
    refine hs.revoke hid hnarrows hs.held.holds (List.Sublist.refl _) hs.held.unscheduled
      (fun _ hev => .inl hev) ?_ ?_
    · rintro ev hev rfl
      exact absurd huid (hs.held.scheduled ev hev).2
    · intro hmem
      exact absurd hmem hs.waiting.nodup.not_mem_erase
  · obtain ⟨hheld, hdestroy⟩ := hs.cancelled_of_isExpired hexpired
    have hsame : Narrows s s := ⟨rfl, rfl, rfl, rfl, List.Sublist.refl _, fun _ hc => hc⟩
    exact ⟨s, _, held, rfl, hs.revoke hid hsame hs.held.holds (List.Sublist.refl _)
      hs.held.unscheduled (fun _ hev => .inl hev) hheld hdestroy⟩
  · obtain ⟨ev, hev, rfl⟩ := hs.exists_held hid huid (Bool.eq_false_of_not_eq_true hexpired)
    obtain ⟨scheduler, hok, hholds⟩ :=
      callScheduler_spec hs.held.holds (.remove ev) hev
    let s' : DefaultSimulatorImpl :=
      { s.cancelImpl ev.impl with
        events := ⟨s.events.1, scheduler⟩
        unscheduledEvents := s.unscheduledEvents - 1 }
    refine ⟨s', [.revoked ev.id], held.erase ev, ?_, ?_⟩
    · show (callScheduler s (.remove ev) >>= _) = _
      rw [hok]
      rfl
    have hnarrows : Narrows s s' :=
      ⟨rfl, rfl, rfl, rfl, List.Sublist.refl _, (narrows_cancelImpl s ev.impl).cancelled⟩
    refine hs.revoke hid hnarrows hholds erase_sublist ?_ ?_ ?_ ?_
    · have hlength := length_erase_of_mem hev
      have hpos := length_pos_of_mem hev
      show s.unscheduledEvents - 1 = ((held.erase ev).length : ℤ)
      rw [hs.held.unscheduled]
      omega
    · intro ev' hev'
      by_cases heq : ev' = ev
      · right
        rw [heq]
        exact cancelImpl_cancelled s ev.impl
      · exact .inl ((mem_erase_of_ne heq).mpr hev')
    · intro ev' hev' heq
      rw [id_injective heq] at hev'
      exact absurd hev' hs.held.increasing.nodup.not_mem_erase
    · intro _
      exact cancelImpl_cancelled s ev.impl

end

/-- The loop of `SetScheduler` moves all events. -/
theorem moveEvents_spec {S T : SchedulerClass} {fuel : ℕ} {events : S.State} {scheduler : T.State}
    {held moved : List Event} (hS : S.Holds events held) (hT : T.Holds scheduler moved)
    (hheld : Increasing held) (hmoved : Increasing moved)
    (hnew : ∀ ev ∈ held, ∀ ev' ∈ moved, ev'.rank ≠ ev.rank) (hfuel : held.length < fuel) :
    ∃ scheduler' moved', moveEvents fuel events scheduler = .ok scheduler' ∧
      T.Holds scheduler' moved' ∧ Increasing moved' ∧
      ∀ ev, ev ∈ moved' ↔ ev ∈ held ∨ ev ∈ moved := by
  induction fuel generalizing held moved events scheduler with
  | zero => exact absurd hfuel (Nat.not_lt_zero _)
  | succ fuel ih =>
    rw [moveEvents]
    cases held with
    | nil =>
      rw [if_pos ((S.isEmpty_iff hS).mpr rfl)]
      refine ⟨scheduler, moved, rfl, hT, hmoved, fun ev => ?_⟩
      rw [or_iff_right (not_mem_nil)]
    | cons ev held =>
      have hnotEmpty : ¬ S.IsEmpty events = true := fun hempty =>
        cons_ne_nil _ _ ((S.isEmpty_iff hS).mp hempty)
      obtain ⟨hfirst, hrest⟩ := pairwise_cons.mp hheld
      obtain ⟨hnewFirst, hnewRest⟩ := forall_mem_cons.mp hnew
      obtain ⟨events₁, hok₁, hS₁⟩ := S.refines hS
        (show sortedList.Allowed (ev :: held) .removeNext from cons_ne_nil _ _)
      obtain ⟨scheduler₁, hok₂, hT₁⟩ := T.refines hT
        (show sortedList.Allowed moved (.insert ev) from hnewFirst)
      have hmem : ∀ ev', ev' ∈ insertEvent ev moved ↔ ev' = ev ∨ ev' ∈ moved := fun ev' => by
        rw [(insertEvent_perm ev moved).mem_iff, mem_cons]
      obtain ⟨scheduler', moved', hok, hT', hmoved', hmem'⟩ := ih hS₁ hT₁ hrest
        (hmoved.insertEvent hnewFirst) (by
          intro ev₁ hev₁ ev₂ hev₂
          rcases (hmem ev₂).mp hev₂ with rfl | hev₂
          · exact ne_of_lt (hfirst ev₁ hev₁)
          · exact hnewRest ev₁ hev₁ ev₂ hev₂) (Nat.lt_of_succ_lt_succ hfuel)
      refine ⟨scheduler', moved', ?_, hT', hmoved', fun ev' => ?_⟩
      · rw [if_neg hnotEmpty, hok₁]
        show (T.step scheduler (.insert ev) >>= _) = _
        rw [hok₂]
        exact hok
      · rw [hmem', mem_cons]
        show ev' ∈ held ∨ ev' ∈ insertEvent ev moved ↔ _
        rw [hmem, or_left_comm, or_assoc]

/-- `SetScheduler` moves all events to the new scheduler. -/
theorem setScheduler_spec (hs : Keeps s h held) (T : SchedulerClass) :
    ∃ s', s.SetScheduler T = .ok s' ∧ Keeps s' h held := by
  have hfuel : held.length < s.unscheduledEvents.toNat + 1 := by
    rw [hs.held.unscheduled, Int.toNat_natCast]
    exact Nat.lt_succ_self _
  obtain ⟨scheduler, moved, hok, hholds, hmoved, hmem⟩ :=
    moveEvents_spec hs.held.holds T.holds_create hs.held.increasing List.Pairwise.nil
      (fun _ _ _ hev' => nomatch hev') hfuel
  have hsame : moved = held := hmoved.eq_of_mem_iff hs.held.increasing fun ev => by
    rw [hmem, or_iff_left (not_mem_nil)]
  rw [hsame] at hholds
  refine ⟨{ s with events := ⟨T, scheduler⟩ }, ?_, ?_⟩
  · unfold SetScheduler
    rw [hok]
  · exact ⟨⟨hs.given.four_le, hs.given.current_lt, hs.given.scheduled, hs.given.revoked⟩,
      { hs.held with holds := hholds },
      ⟨hs.waiting.scheduled, hs.waiting.nodup, hs.waiting.revoked⟩,
      ⟨hs.past.executed, hs.past.destroyed, hs.past.follows⟩⟩

/-- An action that neither schedules nor revokes. -/
theorem Keeps.snoc (hs : Keeps s h held) {a : Action}
    (ha : ∀ id, .scheduled id ≠ a ∧ .revoked id ≠ a) (hpast : Past s (h ++ [a])) :
    Keeps s (h ++ [a]) held := by
  have hscheduled : ∀ id, .scheduled id ∈ h ++ [a] ↔ .scheduled id ∈ h := fun id => by
    rw [mem_snoc, or_iff_left (ha id).1]
  have hrevoked : ∀ id, .revoked id ∈ h ++ [a] ↔ .revoked id ∈ h := fun id => by
    rw [mem_snoc, or_iff_left (ha id).2]
  refine ⟨⟨hs.given.four_le, hs.given.current_lt, ?_, ?_⟩,
    ⟨hs.held.holds, hs.held.increasing, hs.held.unscheduled, ?_, hs.held.later, ?_, ?_,
      hs.held.waiting⟩, ⟨?_, hs.waiting.nodup, ?_⟩, hpast⟩
  all_goals simp only [hscheduled, hrevoked]
  · exact hs.given.scheduled
  · exact hs.given.revoked
  · exact hs.held.scheduled
  · exact hs.held.revoked
  · exact hs.held.live
  · exact hs.waiting.scheduled
  · exact hs.waiting.revoked

/-- The clock goes to the next event. -/
theorem Keeps.advance {next : Event} (hs : Keeps s h (next :: held)) {scheduler : s.events.1.State}
    (hholds : s.events.1.Holds scheduler held) :
    Keeps
      { s with
        events := ⟨s.events.1, scheduler⟩
        unscheduledEvents := s.unscheduledEvents - 1
        currentTs := next.key.ts
        currentContext := next.key.context
        currentUid := next.key.uid } h held := by
  obtain ⟨hgiven, hheld, hwaiting, hpast⟩ := hs
  obtain ⟨hfirst, hrest⟩ := pairwise_cons.mp hheld.increasing
  obtain ⟨hscheduled, huid⟩ := hheld.scheduled next mem_cons_self
  have hnext : s.current < next.rank := hheld.later next mem_cons_self
  refine ⟨⟨hgiven.four_le, ((hgiven.scheduled _ hscheduled).2 huid).2, hgiven.scheduled,
    hgiven.revoked⟩, ⟨hholds, hrest, ?_, ?_, hfirst, ?_, ?_, hheld.waiting⟩,
    ⟨hwaiting.scheduled, hwaiting.nodup, hwaiting.revoked⟩, ⟨?_, hpast.destroyed, hpast.follows⟩⟩
  · show s.unscheduledEvents - 1 = (held.length : ℤ)
    rw [hheld.unscheduled, length_cons]
    omega
  · intro ev hev
    exact hheld.scheduled ev (mem_cons_of_mem _ hev)
  · intro ev hev
    exact hheld.revoked ev (mem_cons_of_mem _ hev)
  · intro id hid huid
    rcases hheld.live id hid huid with ⟨ev, hev, rfl⟩ | hcancelled | hle
    · rcases mem_cons.mp hev with rfl | hev
      · exact .inr (.inr (le_refl _))
      · exact .inl ⟨ev, hev, rfl⟩
    · exact .inr (.inl hcancelled)
    · exact .inr (.inr (le_of_lt (lt_of_le_of_lt hle hnext)))
  · intro id hid
    obtain ⟨hscheduled, huid, hle⟩ := hpast.executed id hid
    exact ⟨hscheduled, huid, le_of_lt (lt_of_le_of_lt hle hnext)⟩

/-- **A turn of `Run`**: the first event is due after all that were executed. -/
theorem runNext_spec (hs : Keeps s h held) :
    ∃ s' actions held', s.runNext = .ok (s', actions) ∧ Keeps s' (h ++ actions) held' := by
  unfold runNext
  cases held with
  | nil =>
    rw [if_pos ((s.events.1.isEmpty_iff hs.held.holds).mpr rfl)]
    refine ⟨s, [], [], rfl, ?_⟩
    rw [append_nil]
    exact hs
  | cons next held =>
    have hnotEmpty : ¬ s.events.1.IsEmpty s.events.2 = true := fun hempty =>
      cons_ne_nil _ _ ((s.events.1.isEmpty_iff hs.held.holds).mp hempty)
    obtain ⟨scheduler, hok, hholds⟩ :=
      callScheduler_spec hs.held.holds .removeNext (cons_ne_nil _ _)
    have hnext : s.current < next.rank := hs.held.later next mem_cons_self
    have hts : ¬ next.key.ts < s.currentTs := by
      rw [UInt64.lt_iff_toNat_lt]
      rcases Prod.Lex.toLex_lt_toLex.mp hnext with hlt | ⟨heq, -⟩
      · exact Nat.lt_asymm hlt
      · exact Nat.not_lt_of_le (Nat.le_of_eq heq)
    let s' : DefaultSimulatorImpl :=
      { s with
        events := ⟨s.events.1, scheduler⟩
        unscheduledEvents := s.unscheduledEvents - 1
        currentTs := next.key.ts
        currentContext := next.key.context
        currentUid := next.key.uid }
    have hadvance : Keeps s' h held := hs.advance hholds
    rw [if_neg hnotEmpty]
    refine ⟨s', if s.cancelled next.impl then [] else [.executed next.id], held, ?_, ?_⟩
    · unfold ProcessOneEvent
      rw [hok]
      show (if next.key.ts < s.currentTs then _ else _) = _
      rw [if_neg hts]
      rfl
    -- A cancelled event is taken without being run.
    split_ifs with hcancelled
    · rw [append_nil]
      exact hadvance
    apply hadvance.snoc (a := .executed next.id) fun _ => ⟨nofun, nofun⟩
    obtain ⟨hscheduled, huid⟩ := hs.held.scheduled next mem_cons_self
    have hnotRevoked : .revoked next.id ∉ h := fun hrevoked =>
      hcancelled (hs.held.revoked next mem_cons_self hrevoked)
    refine ⟨?_, ?_, ?_⟩
    · intro id hid
      rcases mem_snoc.mp hid with hid | heq
      · obtain ⟨hscheduled, hpast⟩ := hadvance.past.executed id hid
        exact ⟨mem_snoc.mpr (.inl hscheduled), hpast⟩
      · cases heq
        exact ⟨mem_snoc.mpr (.inl hscheduled), huid, le_refl _⟩
    · intro id hid
      obtain ⟨hscheduled, hnot⟩ :=
        hadvance.past.destroyed id ((mem_snoc.mp hid).resolve_right fun heq => nomatch heq)
      exact ⟨mem_snoc.mpr (.inl hscheduled), hnot⟩
    · apply pairwise_snoc hs.past.follows
      intro a ha
      match a with
      | .executed x => exact lt_of_le_of_lt (hs.past.executed x ha).2.2 hnext
      | .revoked x =>
        rintro rfl
        exact hnotRevoked ha
      | .scheduled _ | .destroyed _ => trivial

/-- The events at the end are run one after the other. -/
theorem destroyNext_spec (hs : Keeps s h held) :
    Keeps s.destroyNext.1 (h ++ s.destroyNext.2) held := by
  unfold destroyNext
  match hdestroy : s.destroyEvents with
  | [] =>
    dsimp only
    rw [append_nil]
    exact hs
  | id :: rest =>
    dsimp only
    obtain ⟨hgiven, hheld, hwaiting, hpast⟩ := hs
    have hnodup := hwaiting.nodup
    rw [hdestroy, nodup_cons] at hnodup
    have hmem : id ∈ s.destroyEvents := by
      rw [hdestroy]
      exact mem_cons_self ..
    have hrest : ∀ x ∈ rest, x ∈ s.destroyEvents := fun x hx => by
      rw [hdestroy]
      exact mem_cons_of_mem _ hx
    have hless : Keeps { s with destroyEvents := rest } h held :=
      ⟨⟨hgiven.four_le, hgiven.current_lt, hgiven.scheduled, hgiven.revoked⟩,
        ⟨hheld.holds, hheld.increasing, hheld.unscheduled, hheld.scheduled, hheld.later,
          hheld.revoked, hheld.live, hheld.waiting⟩,
        ⟨fun x hx => hwaiting.scheduled x (hrest x hx), hnodup.2,
          fun x hx => hwaiting.revoked x (hrest x hx)⟩,
        ⟨hpast.executed, fun x hx => (hpast.destroyed x hx).imp_right fun hnot hx =>
          hnot (hrest x hx), hpast.follows⟩⟩
    -- A cancelled event is taken without being run.
    split_ifs with hcancelled
    · rw [append_nil]
      exact hless
    apply hless.snoc (a := .destroyed id) fun _ => ⟨nofun, nofun⟩
    have hscheduled := (hwaiting.scheduled id hmem).1
    refine ⟨?_, ?_, ?_⟩
    · intro x hx
      obtain ⟨hscheduled, hrank⟩ :=
        hpast.executed x ((mem_snoc.mp hx).resolve_right fun heq => nomatch heq)
      exact ⟨mem_snoc.mpr (.inl hscheduled), hrank⟩
    · intro x hx
      rcases mem_snoc.mp hx with hx | heq
      · obtain ⟨hscheduled, hnot⟩ := hless.past.destroyed x hx
        exact ⟨mem_snoc.mpr (.inl hscheduled), hnot⟩
      · cases heq
        exact ⟨mem_snoc.mpr (.inl hscheduled), hnodup.1⟩
    · apply pairwise_snoc hpast.follows
      intro a ha
      match a with
      | .destroyed x =>
        rintro rfl
        exact (hpast.destroyed x ha).2 hmem
      | .revoked x =>
        rintro rfl
        exact hcancelled (hwaiting.revoked x hmem ha)
      | .scheduled _ | .executed _ => trivial

end Calls

/-! ### Runs -/

section Runs

variable {s : DefaultSimulatorImpl} {h : List Action} {held : List Event}

theorem keeps_create (S : SchedulerClass) : Keeps (create S) [] [] := by
  refine ⟨⟨show 4 ≤ nextUid 4 by decide, show (0 : UInt32).toNat < nextUid 4 by decide,
    ?_, ?_⟩, ⟨S.holds_create, List.Pairwise.nil, rfl, ?_, ?_, ?_, ?_, ?_⟩,
    ⟨?_, nodup_nil, ?_⟩, ⟨?_, ?_, List.Pairwise.nil⟩⟩
  all_goals exact fun _ hmem => nomatch hmem

/-- **Step**: a call made as it is to be does not fail and keeps the invariant. -/
theorem step_keeps (hs : Keeps s h held) {call : Call} (hfits : Fits s h call) :
    ∃ s' actions held', step s call = .ok (s', actions) ∧ Keeps s' (h ++ actions) held' := by
  match call with
  | .schedule delay event =>
    obtain ⟨huid, himpl, hdelay, hroom⟩ := hfits
    show ∃ s' actions held', s.Schedule delay event = .ok (s', actions) ∧ _
    rw [schedule_eq hdelay]
    exact scheduleWithContext_spec hs huid himpl hdelay hroom
  | .scheduleNow event =>
    obtain ⟨huid, himpl⟩ := hfits
    obtain ⟨s', actions, held', hok, hs', -, -⟩ :=
      insert_spec hs s.currentContext huid himpl (le_refl _)
    exact ⟨s', actions, held', hok, hs'⟩
  | .scheduleWithContext context delay event =>
    obtain ⟨huid, himpl, hdelay, hroom⟩ := hfits
    exact scheduleWithContext_spec hs huid himpl hdelay hroom
  | .scheduleFromThread context delay event =>
    refine ⟨_, [], held, rfl, ?_⟩
    rw [append_nil]
    exact scheduleFromThread_spec hs hfits
  | .scheduleDestroy event =>
    obtain ⟨huid, himpl, hnew⟩ := hfits
    exact ⟨_, _, held, rfl, scheduleDestroy_spec hs huid himpl hnew⟩
  | .cancel id => exact ⟨_, _, held, rfl, cancel_spec hs hfits⟩
  | .remove id => exact remove_spec hs hfits
  | .setScheduler T =>
    obtain ⟨s', hok, hs'⟩ := setScheduler_spec hs T
    refine ⟨s', [], held, ?_, ?_⟩
    · show (s.SetScheduler T).map _ = _
      rw [hok]
      rfl
    · rw [append_nil]
      exact hs'
  | .runNext => exact runNext_spec hs
  | .processEventsWithContext =>
    obtain ⟨huid, hroom, hevents⟩ := hfits
    exact processEventsWithContext_spec hs huid hroom hevents
  | .destroyNext => exact ⟨_, _, held, rfl, destroyNext_spec hs⟩

/-- What was executed is in order. -/
theorem Keeps.orderly (hs : Keeps s h held) : Orderly h := by
  have hfollows : ∀ a b, Precedes h a b → Follows a b := fun _ _ =>
    Precedes.of_pairwise hs.past.follows
  refine ⟨?_, ?_, ?_, ?_, ?_⟩
  · intro x hx
    exact (hfollows _ _ hx).1 rfl
  · intro x y hxy
    rw [UInt64.le_iff_toNat_le]
    rcases Prod.Lex.toLex_lt_toLex.mp (hfollows _ _ hxy) with hlt | ⟨heq, -⟩
    · exact Nat.le_of_lt hlt
    · exact Nat.le_of_eq heq
  · intro x y hxy hts
    have hrank : EventId.rank x < EventId.rank y := hfollows _ _ hxy
    obtain ⟨hx, hxuid, -⟩ := hs.past.executed x (hxy.subset mem_cons_self)
    obtain ⟨hy, hyuid, -⟩ :=
      hs.past.executed y (hxy.subset (mem_cons_of_mem _ mem_cons_self))
    have hne : Action.scheduled x ≠ .scheduled y := fun heq =>
      absurd hrank (Action.scheduled.inj heq ▸ lt_irrefl _)
    refine (precedes_or hx hy hne).resolve_right fun hyx => ?_
    -- scheduled the other way around, `y` had the smaller uid
    have huid := (hfollows _ _ hyx).2 hyuid hxuid
    rcases Prod.Lex.toLex_lt_toLex.mp hrank with hlt | ⟨-, hlt⟩
    · have : x.ts.toNat < y.ts.toNat := hlt
      rw [hts] at this
      exact Nat.lt_irrefl _ this
    · exact Nat.lt_asymm huid hlt
  · intro x
    refine ⟨fun hx => lt_irrefl _ (show EventId.rank x < _ from hfollows _ _ hx), fun hx => ?_⟩
    exact hfollows _ _ hx rfl
  · intro x
    exact ⟨fun hx => hfollows _ _ hx rfl, fun hx => hfollows _ _ hx rfl⟩

/-- No two events that are pending have one identifier. -/
theorem Keeps.nodup_pendingIds (hs : Keeps s h held) : (pendingIds s held).Nodup := by
  apply nodup_append.mpr
  refine ⟨hs.held.increasing.nodup.map id_injective, hs.waiting.nodup, ?_⟩
  rintro x hx y hy rfl
  obtain ⟨ev, hev, rfl⟩ := mem_map.mp hx
  exact (hs.held.scheduled ev hev).2 (hs.waiting.scheduled _ hy).2

/-- **Runs of the simulator**, over schedulers that work as a sorted list: when the calls are
made as they are to be, and the counter of the uids does not come around, none fails, events are
executed in their order, none twice or after it was cancelled, and those still to come have
different ids. -/
theorem simulator_orderly (S : SchedulerClass) (calls : List Call)
    (hfits : TracedRun.Meets step Fits (create S) [] calls) :
    ∃ s h, run step (create S) calls = .ok (s, h) ∧ Orderly h ∧
      ∃ held, s.events.1.Holds s.events.2 held ∧ (pendingIds s held).Nodup := by
  obtain ⟨s, h, hok, held, hs⟩ :=
    run_invariant (I := fun s h => ∃ held, Keeps s h held)
      (fun s h call ⟨held, hs⟩ hfits => by
        obtain ⟨s', actions, held', hok, hs'⟩ := step_keeps hs hfits
        exact ⟨s', actions, hok, held', hs'⟩)
      ⟨[], keeps_create S⟩ hfits
  exact ⟨s, h, hok, hs.orderly, held, hs.held.holds, hs.nodup_pendingIds⟩

/-! ### The counter comes around -/

/-- A run: two events for one time, the first schedules a third and cancels the second, the
scheduler is replaced in between. -/
def exampleCalls : List Call :=
  [.schedule 5 1, .scheduleWithContext 7 5 2, .setScheduler MapScheduler.mapScheduler,
    .scheduleDestroy 3, .scheduleFromThread 1 2 5, .runNext, .scheduleNow 4, .cancel ⟨2, 5, 7, 5⟩,
    .processEventsWithContext, .runNext, .runNext, .remove ⟨3, 0, 0xffffffff, 2⟩, .runNext,
      .runNext,
    .destroyNext]

theorem simulator_orderly_exampleCalls :
    TracedRun.Meets step Fits (create MapScheduler.mapScheduler) [] exampleCalls ∧
      ∃ s h, run step (create MapScheduler.mapScheduler) exampleCalls = .ok (s, h) ∧
        Orderly h ∧ ∃ held, s.events.1.Holds s.events.2 held ∧ (pendingIds s held).Nodup :=
  have hfits : TracedRun.Meets step Fits (create MapScheduler.mapScheduler) [] exampleCalls := by
    decide +kernel
  ⟨hfits, simulator_orderly MapScheduler.mapScheduler exampleCalls hfits⟩

/-- The simulator between two events, with nothing to come. -/
def idle (uid currentUid : UInt32) : DefaultSimulatorImpl :=
  { create MapScheduler.mapScheduler with uid := uid, currentUid := currentUid }

/-- The simulator with one event to come. -/
def holding (x : EventId) (uid currentUid : UInt32) : DefaultSimulatorImpl :=
  let held : List Event := [⟨x.impl, ⟨x.ts, x.uid, x.context⟩⟩]
  { idle uid currentUid with
    events := ⟨MapScheduler.mapScheduler, held⟩
    unscheduledEvents := 1 }

/-- An event is scheduled for now and executed. -/
def turn : List Call := [.scheduleNow 1, .runNext]

/-- What happens in a turn. -/
def OfTurn : Action → Prop
  | .scheduled id | .executed id => id.impl = 1
  | .destroyed _ | .revoked _ => False

theorem run_turn (uid currentUid : UInt32) :
    run step (idle uid currentUid) turn =
      .ok (idle (uid + 1) uid,
        [.scheduled ⟨1, 0, 0xffffffff, uid⟩, .executed ⟨1, 0, 0xffffffff, uid⟩]) := rfl

/-- Turns one after the other use up the numbers. -/
theorem run_turns (n : ℕ) (uid currentUid : UInt32) :
    ∃ currentUid' h,
      run step (idle uid currentUid) (List.replicate n turn).flatten =
        .ok (idle (uid + UInt32.ofNat n) currentUid', h) ∧
      ∀ a ∈ h, OfTurn a := by
  induction n generalizing uid currentUid with
  | zero =>
    refine ⟨currentUid, [], ?_, fun _ hmem => nomatch hmem⟩
    rw [show UInt32.ofNat 0 = 0 from rfl, add_zero]
    rfl
  | succ n ih =>
    obtain ⟨currentUid', h, hok, himpl⟩ := ih (uid + 1) uid
    let first : List Action :=
      [.scheduled ⟨1, 0, 0xffffffff, uid⟩, .executed ⟨1, 0, 0xffffffff, uid⟩]
    refine ⟨currentUid', first ++ h, ?_, ?_⟩
    · rw [replicate_succ, flatten_cons, run_append (run_turn uid currentUid),
        hok, add_assoc, add_comm 1, ofNat_add]
      rfl
    · refine forall_mem_append.mpr ⟨forall_mem_cons.mpr ⟨?_, ?_⟩, himpl⟩
      · exact (rfl : (1 : ℕ) = 1)
      · exact forall_mem_singleton.mpr (rfl : (1 : ℕ) = 1)

/-- As many events as the counter has values left, then two for one time. -/
def wrappingCalls : List Call :=
  (List.replicate (2 ^ 32 - 5) turn).flatten ++
    ([.scheduleNow 1] ++ [.scheduleNow 2, .runNext, .runNext])

/-- Of the last two events, the one scheduled second has the uid 0 and is executed first. -/
theorem not_orderly_wrappingCalls :
    ∃ s h, run step (create MapScheduler.mapScheduler) wrappingCalls = .ok (s, h) ∧
      ¬ Orderly h := by
  let x : EventId := ⟨1, 0, 0xffffffff, 0xffffffff⟩
  let y : EventId := ⟨2, 0, 0xffffffff, 0⟩
  obtain ⟨currentUid, h, hturns, himpl⟩ := run_turns (2 ^ 32 - 5) 4 0
  rw [show (4 : UInt32) + UInt32.ofNat (2 ^ 32 - 5) = 0xffffffff by decide] at hturns
  -- after the first of the two the counter is 0
  have hfirst : run step (idle 0xffffffff currentUid) [.scheduleNow 1] =
      .ok (holding x (0xffffffff + 1) currentUid, [.scheduled x]) := rfl
  rw [show (0xffffffff : UInt32) + 1 = 0 by decide] at hfirst
  have hlast : ∃ s, run step (holding x 0 currentUid)
      [.scheduleNow 2, .runNext, .runNext] =
        .ok (s, [.scheduled y, .executed y, .executed x]) := ⟨_, rfl⟩
  obtain ⟨s, hlast⟩ := hlast
  refine ⟨s, h ++ [.scheduled x, .scheduled y, .executed y, .executed x], ?_, ?_⟩
  · show run step (idle 4 0) _ = _
    rw [wrappingCalls, run_append hturns, run_append hfirst, hlast]
    rfl
  · intro horderly
    have hexecuted : Precedes (h ++ [.scheduled x, .scheduled y, .executed y, .executed x])
        (.executed y) (.executed x) :=
      List.Sublist.append (nil_sublist h) (by decide)
    obtain ⟨l, l', heq, hl, hl'⟩ :=
      sublist_append_iff.mp (horderly.inOrder y x hexecuted (show y.ts = x.ts from rfl))
    match l with
    | [] =>
      rw [nil_append] at heq
      rw [← heq] at hl'
      revert hl'
      decide
    | a :: l =>
      -- `y` is none of the events before
      obtain ⟨rfl, -⟩ := List.cons.inj heq
      have himpl : y.impl = 1 := himpl _ (hl.subset mem_cons_self)
      revert himpl
      decide

end Runs

end Ns3Joined.Core.DefaultSimulatorImpl
