import Ns3Joined.Core.SimulatorCorrect
import Ns3Joined.Library.ExceptFold

/-!
# Which events are expired

`IsExpired` does not look into the scheduler: it compares the time stamp and the uid of an id with
those of the last event, and looks at the mark of the `EventImpl`. `Settled` is what makes this
right: whatever is not later than the last event, or marked, was executed, cancelled or removed
under its id (`Done`).

* `isExpired_iff`: an event is expired if and only if it is done.
* `simulator_isExpired`: this is so in all runs where no mark is on the `EventImpl` of another
  event (`Unmarked`).
* `not_pending_wrappingUid`: an event that gets the uid 0 is expired from the start.
-/

namespace Ns3Joined.Core.DefaultSimulatorImpl

open List Function ExceptFold Bool

/-! ### What is done -/

/-- The event was executed, or cancelled or removed by its id. -/
def Done (h : List Action) (id : EventId) : Prop :=
  .executed id ∈ h ∨ .destroyed id ∈ h ∨ .revoked id ∈ h

instance (h : List Action) (id : EventId) : Decidable (Done h id) :=
  inferInstanceAs (Decidable (_ ∨ _ ∨ _))

variable {s s' : DefaultSimulatorImpl} {h actions : List Action} {held : List Event}
  {id : EventId} {call : Call}

/-- What is done stays done. -/
theorem Done.append (hdone : Done h id) (actions : List Action) : Done (h ++ actions) id :=
  hdone.imp (mem_append_left actions) (.imp (mem_append_left actions)
    (mem_append_left actions))

/-- What makes the comparisons of `IsExpired` right. -/
structure Settled (s : DefaultSimulatorImpl) (h : List Action) : Prop where
  past : ∀ id, .scheduled id ∈ h → id.uid ≠ 2 → EventId.rank id ≤ s.current → Done h id
  waiting : ∀ id, .scheduled id ∈ h → id.uid = 2 → id ∈ s.destroyEvents ∨ Done h id
  cancelled : ∀ id, .scheduled id ∈ h → s.cancelled id.impl = true → Done h id
  destroyed : ∀ id, .destroyed id ∈ h → id.uid = 2

/-- **An id that was given out is expired if and only if its event is done.** -/
theorem isExpired_iff (hs : Keeps s h held) (ht : Settled s h) (hid : .scheduled id ∈ h) :
    s.IsExpired id = true ↔ Done h id := by
  have himpl := (hs.given.scheduled id hid).1
  constructor
  · intro hexpired
    by_contra hnot
    have hcancelled : s.cancelled id.impl = false :=
      eq_false_of_not_eq_true fun hc => hnot (ht.cancelled id hid hc)
    obtain ⟨hheld, hdestroy⟩ := hs.cancelled_of_isExpired hexpired
    by_cases huid : id.uid = 2
    · have hc := hdestroy ((ht.waiting id hid huid).resolve_right hnot)
      rw [hcancelled] at hc
      cases hc
    · obtain ⟨ev, hev, rfl⟩ | hc | hle := hs.held.live id hid huid
      · have hc : s.cancelled ev.id.impl = true := hheld ev hev rfl
        rw [hcancelled] at hc
        cases hc
      · rw [hcancelled] at hc
        cases hc
      · exact hnot (ht.past id hid huid hle)
  · intro hdone
    by_contra hnot
    rw [not_eq_true] at hnot
    by_cases huid : id.uid = 2
    · unfold IsExpired at hnot
      rw [if_pos huid] at hnot
      simp only [or_eq_false_iff, not_eq_false', contains_iff_mem] at hnot
      obtain ⟨⟨-, hcancelled⟩, hmem⟩ := hnot
      obtain hexecuted | hdestroyed | hrevoked := hdone
      · exact (hs.past.executed id hexecuted).2.1 huid
      · exact (hs.past.destroyed id hdestroyed).2 hmem
      · rw [hs.waiting.revoked id hmem hrevoked] at hcancelled
        cases hcancelled
    · obtain ⟨ev, hev, rfl⟩ := hs.exists_held (.inr hid) huid hnot
      obtain hexecuted | hdestroyed | hrevoked := hdone
      · exact absurd (hs.past.executed _ hexecuted).2.2 (not_le_of_gt (hs.held.later ev hev))
      · exact huid (ht.destroyed _ hdestroyed)
      · have hcancelled := hs.held.revoked ev hev hrevoked
        unfold IsExpired at hnot
        rw [if_neg huid] at hnot
        simp only [or_eq_false_iff] at hnot
        exact false_ne_true (hnot.2.symm.trans hcancelled)

/-! ### Marks -/

/-- No other event that is still to come has the `EventImpl` of this id. -/
def isAlone (h : List Action) (id : EventId) : Bool :=
  h.all fun a => match a with
    | .scheduled id' => decide (id' = id) || decide (id'.impl ≠ id.impl) || decide (Done h id')
    | _ => true

/-- Where no other event shares the implementation, those that did are done. -/
theorem done_of_isAlone (halone : isAlone h id = true) {id' : EventId} (hid' : .scheduled id' ∈ h)
    (himpl : id'.impl = id.impl) (hne : id' ≠ id) : Done h id' := by
  have hor := all_eq_true.mp halone _ hid'
  simp only [or_eq_true, decide_eq_true_eq] at hor
  exact hor.resolve_left fun h => h.elim hne fun himpl' => himpl' himpl

/-- The entries that the scheduler gets are fewer than an `int` counts. -/
def Counted (s : DefaultSimulatorImpl) (n : ℕ) : Prop := s.unscheduledEvents + n < 2 ^ 31

/-- An `EventImpl` that is scheduled is not marked, what is cancelled or removed shares its own
with no event to come, and the events can be counted. -/
def Unmarked (s : DefaultSimulatorImpl) (h : List Action) : Call → Prop
  | .schedule _ event | .scheduleWithContext _ _ event | .scheduleNow event =>
    s.cancelled event = false ∧ Counted s 1
  | .scheduleDestroy event => s.cancelled event = false
  | .cancel id => Done h id ∨ isAlone h id = true
  | .remove id => id.uid = 2 ∨ Done h id ∨ isAlone h id = true
  | .processEventsWithContext =>
    (∀ event ∈ s.eventsWithContext, s.cancelled event.event = false) ∧
      Counted s s.eventsWithContext.length
  | .scheduleFromThread _ _ _ | .setScheduler _ | .runNext | .destroyNext => True

instance (s : DefaultSimulatorImpl) (n : ℕ) : Decidable (Counted s n) :=
  inferInstanceAs (Decidable (_ < _))

instance decidableUnmarked (s : DefaultSimulatorImpl) (h : List Action) (call : Call) :
    Decidable (Unmarked s h call) :=
  match call with
  | .schedule _ _ | .scheduleWithContext _ _ _ | .scheduleNow _ =>
    inferInstanceAs (Decidable (_ ∧ _))
  | .scheduleDestroy _ => inferInstanceAs (Decidable (_ = _))
  | .cancel _ => inferInstanceAs (Decidable (_ ∨ _))
  | .remove _ => inferInstanceAs (Decidable (_ ∨ _ ∨ _))
  | .processEventsWithContext => inferInstanceAs (Decidable ((∀ _ ∈ _, _) ∧ _))
  | .scheduleFromThread _ _ _ | .setScheduler _ | .runNext | .destroyNext =>
    inferInstanceAs (Decidable True)

/-! ### What the calls keep -/

/-- A call that leaves what `Settled` looks at. -/
structure Same (s s' : DefaultSimulatorImpl) : Prop where
  current : s'.current = s.current
  destroyEvents : s'.destroyEvents = s.destroyEvents
  cancelled : s'.cancelled = s.cancelled

/-- Nothing changes for what is settled. -/
theorem Settled.same (ht : Settled s h) (hsame : Same s s') : Settled s' h where
  past := hsame.current ▸ ht.past
  waiting := hsame.destroyEvents ▸ ht.waiting
  cancelled := hsame.cancelled ▸ ht.cancelled
  destroyed := ht.destroyed

theorem scheduled_snoc {a : Action} (hid : .scheduled id ∈ h ++ [a]) (ha : ∀ x, a ≠ .scheduled x) :
    .scheduled id ∈ h := (mem_snoc.mp hid).resolve_right fun heq => ha id heq.symm

/-- An event is scheduled. -/
theorem Settled.schedule (ht : Settled s h) (hcurrent : s'.current = s.current)
    (hcancelled : s'.cancelled = s.cancelled)
    (hdestroy : ∀ x ∈ s.destroyEvents, x ∈ s'.destroyEvents)
    (hlater : id.uid ≠ 2 → s.current < EventId.rank id)
    (hwaiting : id.uid = 2 → id ∈ s'.destroyEvents) (hunmarked : s.cancelled id.impl = false) :
    Settled s' (h ++ [.scheduled id]) where
  past := fun x hx huid hle => by
    rw [hcurrent] at hle
    obtain hx | heq := mem_snoc.mp hx
    · exact (ht.past x hx huid hle).append _
    · cases heq
      exact absurd hle (not_le_of_gt (hlater huid))
  waiting := fun x hx huid => by
    obtain hx | heq := mem_snoc.mp hx
    · exact (ht.waiting x hx huid).imp (hdestroy x) fun hdone => hdone.append _
    · cases heq
      exact .inl (hwaiting huid)
  cancelled := fun x hx hc => by
    rw [hcancelled] at hc
    obtain hx | heq := mem_snoc.mp hx
    · exact (ht.cancelled x hx hc).append _
    · cases heq
      rw [hunmarked] at hc
      cases hc
  destroyed := fun x hx => ht.destroyed x ((mem_snoc.mp hx).resolve_right nofun)

/-- An event is cancelled or removed by its id, and nothing else is marked. -/
theorem Settled.revoke (ht : Settled s h) (hcurrent : s'.current = s.current)
    (hdestroy : ∀ x ∈ s.destroyEvents, x ∈ s'.destroyEvents ∨ x = id)
    (hcancelled : ∀ x, .scheduled x ∈ h → s'.cancelled x.impl = true →
      s.cancelled x.impl = true ∨ x = id ∨ Done h x) :
    Settled s' (h ++ [.revoked id]) := by
  have hself : Done (h ++ [.revoked id]) id := .inr (.inr (mem_snoc.mpr (.inr rfl)))
  constructor
  · intro x hx huid hle
    rw [hcurrent] at hle
    exact (ht.past x (scheduled_snoc hx nofun) huid hle).append _
  · intro x hx huid
    obtain hmem | hdone := ht.waiting x (scheduled_snoc hx nofun) huid
    · obtain hmem | rfl := hdestroy x hmem
      · exact .inl hmem
      · exact .inr hself
    · exact .inr (hdone.append _)
  · intro x hx hc
    have hx := scheduled_snoc hx nofun
    obtain hc | rfl | hdone := hcancelled x hx hc
    · exact (ht.cancelled x hx hc).append _
    · exact hself
    · exact hdone.append _
  · exact fun x hx => ht.destroyed x ((mem_snoc.mp hx).resolve_right nofun)

variable {context : UInt32} {impl : ℕ} {ts : UInt64}

/-- What `insert` does, if it returns. -/
theorem insert_eq_ok (hok : s.insert impl ts context = .ok (s', actions)) :
    actions = [.scheduled ⟨impl, ts, context, s.uid⟩] ∧ Same s s' ∧ s'.uid = s.uid + 1 ∧
      s'.currentUid = s.currentUid ∧ s'.currentTs = s.currentTs := by
  unfold insert at hok
  obtain ⟨⟨s₁, answer⟩, hcall, hok⟩ := bind_eq_ok_iff.mp hok
  unfold callScheduler at hcall
  split at hcall
  · cases hcall
  · cases hcall
    cases hok
    exact ⟨rfl, ⟨rfl, rfl, rfl⟩, rfl, rfl, rfl⟩

/-- An event that is due now or later gets a larger uid than the last one. -/
theorem Settled.insert (ht : Settled s h) (hfour : 4 ≤ nextUid s.uid)
    (hlt : s.currentUid.toNat < nextUid s.uid) (huid : s.uid ≠ 0)
    (hts : s.currentTs.toNat ≤ ts.toNat) (hunmarked : s.cancelled impl = false)
    (hok : s.insert impl ts context = .ok (s', actions)) : Settled s' (h ++ actions) := by
  obtain ⟨rfl, hsame, -, -, -⟩ := insert_eq_ok hok
  rw [nextUid_eq huid] at hfour hlt
  refine ht.schedule hsame.current hsame.cancelled (hsame.destroyEvents ▸ fun _ hx => hx)
    (fun _ => ?_) (fun heq => ?_) hunmarked
  · apply Prod.Lex.toLex_lt_toLex.mpr
    show s.currentTs.toNat < ts.toNat ∨
      s.currentTs.toNat = ts.toNat ∧ s.currentUid.toNat < s.uid.toNat
    omega
  · have heq : s.uid = 2 := heq
    rw [heq] at hfour
    exact absurd hfour (by decide)

/-- Events that waited are new, and settled. -/
theorem Settled.insertAll {events : List EventWithContext} (ht : Settled s h)
    (hfour : 4 ≤ nextUid s.uid) (hlt : s.currentUid.toNat < nextUid s.uid)
    (hroom : nextUid s.uid + events.length ≤ 2 ^ 32)
    (hevents : ∀ event ∈ events, s.currentTs.toNat + event.timestamp.toNat < 2 ^ 64)
    (hunmarked : ∀ event ∈ events, s.cancelled event.event = false)
    (hok : insertAll s events = .ok (s', actions)) : Settled s' (h ++ actions) := by
  induction events generalizing s h actions with
  | nil =>
    cases hok
    rw [append_nil]
    exact ht
  | cons event events ih =>
    obtain ⟨hevent, hevents⟩ := forall_mem_cons.mp hevents
    obtain ⟨hmark, hunmarked⟩ := forall_mem_cons.mp hunmarked
    rw [length_cons] at hroom
    -- the counter has not come around yet
    have huid : s.uid ≠ 0 := fun heq => by
      rw [heq] at hroom
      have hzero : nextUid 0 = 2 ^ 32 := rfl
      omega
    have hsum :
        (s.currentTs + event.timestamp).toNat = s.currentTs.toNat + event.timestamp.toNat := by
      rw [UInt64.toNat_add]
      exact Nat.mod_eq_of_lt hevent
    obtain ⟨⟨s₁, actions₁⟩, hok₁, hok⟩ := bind_eq_ok_iff.mp hok
    obtain ⟨⟨s₂, actions₂⟩, hok₂, hok⟩ := bind_eq_ok_iff.mp hok
    cases hok
    have ht₁ := ht.insert hfour hlt huid (hsum ▸ Nat.le_add_right _ _) hmark hok₁
    obtain ⟨-, hsame, huid₁, hcurrent₁, hts₁⟩ := insert_eq_ok hok₁
    have hnext : nextUid s₁.uid = nextUid s.uid + 1 := huid₁ ▸ nextUid_succ huid
    rw [← append_assoc]
    exact ih ht₁ (by omega) (by rw [hcurrent₁]; omega) (by omega) (hts₁ ▸ hevents)
      (hsame.cancelled ▸ hunmarked) hok₂

/-- What happens to the first event. -/
theorem processOneEvent_eq_ok {next : Event} (hholds : s.events.1.Holds s.events.2 (next :: held))
    (hok : s.ProcessOneEvent = .ok (s', actions)) :
    s'.current = next.rank ∧ s'.destroyEvents = s.destroyEvents ∧ s'.cancelled = s.cancelled ∧
      actions = if s.cancelled next.impl = true then [] else [.executed next.id] := by
  obtain ⟨scheduler, hcall, -⟩ := callScheduler_spec hholds .removeNext (cons_ne_nil _ _)
  unfold ProcessOneEvent at hok
  rw [hcall, ok_bind] at hok
  change (if next.key.ts < s.currentTs then _ else _) = _ at hok
  split at hok
  · cases hok
  · cases hok
    exact ⟨rfl, rfl, rfl, rfl⟩

/-- **A turn of `Run`**: what is due before the event that comes now is done. -/
theorem Settled.runNext (hs : Keeps s h held) (ht : Settled s h)
    (hok : s.runNext = .ok (s', actions)) : Settled s' (h ++ actions) := by
  unfold DefaultSimulatorImpl.runNext at hok
  split at hok
  · cases hok
    rw [append_nil]
    exact ht
  rename_i hnotEmpty
  cases held with
  | nil => exact absurd ((s.events.1.isEmpty_iff hs.held.holds).mpr rfl) hnotEmpty
  | cons next held =>
    obtain ⟨hcurrent, hdestroy, hcancelled, rfl⟩ := processOneEvent_eq_ok hs.held.holds hok
    obtain ⟨hfirst, -⟩ := pairwise_cons.mp hs.held.increasing
    have hold : ∀ x, .scheduled x ∈ h ++ (if s.cancelled next.impl = true then [] else
        [Action.executed next.id]) → .scheduled x ∈ h := fun x hx => by
      obtain hx | hx := mem_append.mp hx
      · exact hx
      · split at hx
        · cases hx
        · cases mem_singleton.mp hx
    constructor
    · intro id hmem huid hle
      have hid := hold id hmem
      clear hmem
      rw [hcurrent] at hle
      obtain ⟨ev, hev, rfl⟩ | hc | hle' := hs.held.live id hid huid
      · obtain rfl | hev := mem_cons.mp hev
        · -- the event itself, which is executed unless it is marked
          by_cases hc : s.cancelled ev.impl = true
          · exact (ht.cancelled _ hid hc).append _
          · refine .inl (mem_append_right h ?_)
            rw [if_neg hc]
            exact mem_singleton_self _
        · exact absurd hle (not_le_of_gt (hfirst ev hev))
      · exact (ht.cancelled id hid hc).append _
      · exact (ht.past id hid huid hle').append _
    · intro id hid huid
      rw [hdestroy]
      exact (ht.waiting id (hold id hid) huid).imp_right fun hdone => hdone.append _
    · intro id hid hc
      rw [hcancelled] at hc
      exact (ht.cancelled id (hold id hid) hc).append _
    · intro id hid
      obtain hid | hid := mem_append.mp hid
      · exact ht.destroyed id hid
      · split at hid
        · cases hid
        · cases mem_singleton.mp hid

/-- An event for `Destroy` that is marked was done before. -/
theorem Settled.destroyNext (hs : Keeps s h held) (ht : Settled s h) :
    Settled s.destroyNext.1 (h ++ s.destroyNext.2) := by
  unfold DefaultSimulatorImpl.destroyNext
  match hdestroy : s.destroyEvents with
  | [] =>
    dsimp only
    rw [append_nil]
    exact ht
  | id :: rest =>
    dsimp only
    obtain ⟨hid, huid⟩ := hs.waiting.scheduled id (by rw [hdestroy]; exact mem_cons_self)
    have hrest : ∀ x ∈ s.destroyEvents, x = id ∨ x ∈ rest := fun x hx => by
      rw [hdestroy] at hx
      exact mem_cons.mp hx
    split_ifs with hc
    · rw [append_nil]
      refine ⟨ht.past, fun x hx huid => ?_, ht.cancelled, ht.destroyed⟩
      obtain hmem | hdone := ht.waiting x hx huid
      · obtain rfl | hmem := hrest x hmem
        · exact .inr (ht.cancelled x hx hc)
        · exact .inl hmem
      · exact .inr hdone
    · refine ⟨fun x hx huid hle => ?_, fun x hx huid => ?_, fun x hx hc => ?_, fun x hx => ?_⟩
      · exact (ht.past x (scheduled_snoc hx nofun) huid hle).append _
      · obtain hmem | hdone := ht.waiting x (scheduled_snoc hx nofun) huid
        · obtain rfl | hmem := hrest x hmem
          · exact .inr (.inr (.inl (mem_snoc.mpr (.inr rfl))))
          · exact .inl hmem
        · exact .inr (hdone.append _)
      · exact (ht.cancelled x (scheduled_snoc hx nofun) hc).append _
      · obtain hx | heq := mem_snoc.mp hx
        · exact ht.destroyed x hx
        · cases heq
          exact huid

theorem cancelImpl_cancelled_iff {impl' : ℕ} :
    (s.cancelImpl impl).cancelled impl' = true ↔ impl' = impl ∨ s.cancelled impl' = true := by
  show update s.cancelled impl true impl' = true ↔ _
  by_cases heq : impl' = impl
  · rw [heq, update_self]
    exact iff_of_true rfl (.inl rfl)
  · rw [update_of_ne heq]
    exact (or_iff_right heq).symm

/-- What is marked when an event is cancelled or removed. -/
theorem Settled.mark (hs : Keeps s h held) (ht : Settled s h)
    (hid : id.impl = 0 ∨ .scheduled id ∈ h) (halone : Done h id ∨ isAlone h id = true)
    (hexpired : s.IsExpired id = false) (hcurrent : s'.current = s.current)
    (hdestroy : s'.destroyEvents = s.destroyEvents)
    (hcancelled : s'.cancelled = (s.cancelImpl id.impl).cancelled) :
    Settled s' (h ++ [.revoked id]) := by
  refine ht.revoke hcurrent (fun x hx => .inl (hdestroy ▸ hx)) fun x hx hc => ?_
  rw [hcancelled, cancelImpl_cancelled_iff] at hc
  obtain himpl | hc := hc
  · have hid : .scheduled id ∈ h :=
      hid.resolve_left fun hzero => (hs.given.scheduled x hx).1 (himpl.trans hzero)
    have hnot : ¬ Done h id := fun hdone => by
      rw [(isExpired_iff hs ht hid).mpr hdone] at hexpired
      cases hexpired
    by_cases hne : x = id
    · exact .inr (.inl hne)
    · exact .inr (.inr (done_of_isAlone (halone.resolve_left hnot) hx himpl hne))
  · exact .inl hc

/-- A revocation settles what it revokes. -/
theorem Settled.revoked (ht : Settled s h) :
    Settled s (h ++ [.revoked id]) :=
  ht.revoke rfl (fun _ hx => .inl hx) fun _ _ hc => .inl hc

/-- `Cancel` keeps what is settled. -/
theorem Settled.cancel (hs : Keeps s h held) (ht : Settled s h)
    (hid : id.impl = 0 ∨ .scheduled id ∈ h) (halone : Done h id ∨ isAlone h id = true) :
    Settled (s.Cancel id).1 (h ++ (s.Cancel id).2) := by
  unfold DefaultSimulatorImpl.Cancel
  dsimp only
  split_ifs with hexpired
  · exact ht.revoked
  · exact ht.mark hs hid halone (eq_false_of_not_eq_true hexpired) rfl rfl rfl

/-- So does `Remove`. -/
theorem Settled.remove (hs : Keeps s h held) (ht : Settled s h)
    (hid : id.impl = 0 ∨ .scheduled id ∈ h)
    (halone : id.uid = 2 ∨ Done h id ∨ isAlone h id = true)
    (hok : s.Remove id = .ok (s', actions)) : Settled s' (h ++ actions) := by
  unfold Remove at hok
  split_ifs at hok with huid hexpired
  · cases hok
    refine ht.revoke rfl (fun x hx => ?_) fun _ _ hc => .inl hc
    by_cases hne : x = id
    · exact .inr hne
    · exact .inl ((mem_erase_of_ne hne).mpr hx)
  · cases hok
    exact ht.revoked
  · obtain ⟨⟨s₁, answer⟩, hcall, hok⟩ := bind_eq_ok_iff.mp hok
    cases hok
    unfold callScheduler at hcall
    split at hcall
    · cases hcall
    · cases hcall
      exact ht.mark hs hid (halone.resolve_left huid) (eq_false_of_not_eq_true hexpired)
        rfl rfl rfl

/-! ### Runs -/

/-- **One call** keeps what is settled. -/
theorem step_settled (hs : Keeps s h held) (ht : Settled s h) (hfits : Fits s h call)
    (hunmarked : Unmarked s h call) (hok : step s call = .ok (s', actions)) :
    Settled s' (h ++ actions) := by
  -- Calls that insert events, calls that revoke them, and calls that run them.
  match call with
  | .schedule delay event =>
    obtain ⟨huid, -, hdelay, hroom⟩ := hfits
    obtain ⟨ts, hts, hle⟩ := tAbsolute_spec hdelay hroom
    change s.Schedule delay event = _ at hok
    rw [schedule_eq hdelay] at hok
    unfold ScheduleWithContext at hok
    rw [hts] at hok
    exact ht.insert hs.given.four_le hs.given.current_lt huid hle hunmarked.1 hok
  | .scheduleWithContext context delay event =>
    obtain ⟨huid, -, hdelay, hroom⟩ := hfits
    obtain ⟨ts, hts, hle⟩ := tAbsolute_spec hdelay hroom
    change s.ScheduleWithContext context delay event = _ at hok
    unfold ScheduleWithContext at hok
    rw [hts] at hok
    exact ht.insert hs.given.four_le hs.given.current_lt huid hle hunmarked.1 hok
  | .scheduleNow event =>
    exact ht.insert hs.given.four_le hs.given.current_lt hfits.1 (Nat.le_refl _) hunmarked.1 hok
  | .scheduleFromThread context delay event =>
    cases hok
    rw [append_nil]
    exact ht.same ⟨rfl, rfl, rfl⟩
  | .scheduleDestroy event =>
    cases hok
    refine ht.schedule rfl rfl (fun x hx => mem_append_left _ hx) (fun huid => ?_)
      (fun _ => mem_append_right _ (mem_singleton_self _)) hunmarked
    exact absurd rfl huid
  | .cancel id =>
    cases hok
    exact ht.cancel hs hfits hunmarked
  | .remove id => exact ht.remove hs hfits hunmarked hok
  | .setScheduler T =>
    change (s.SetScheduler T).map _ = _ at hok
    unfold SetScheduler at hok
    split at hok
    · cases hok
    · cases hok
      rw [append_nil]
      exact ht.same ⟨rfl, rfl, rfl⟩
  | .runNext => exact ht.runNext hs hok
  | .processEventsWithContext =>
    obtain ⟨huid, hroom, hevents⟩ := hfits
    have hnext : nextUid s.uid + s.eventsWithContext.length ≤ 2 ^ 32 := by
      unfold nextUid
      split_ifs with hzero
      · rw [huid.resolve_left fun hne => hne hzero]
        exact Nat.le_refl _
      · exact hroom
    have hsame : Same s { s with eventsWithContext := [] } := ⟨rfl, rfl, rfl⟩
    change s.ProcessEventsWithContext = _ at hok
    unfold ProcessEventsWithContext at hok
    exact (ht.same hsame).insertAll hs.given.four_le hs.given.current_lt hnext hevents
      hunmarked.1 hok
  | .destroyNext =>
    have hok : Except.ok s.destroyNext = Except.ok (s', actions) := hok
    have heq := Except.ok.inj hok
    rw [show s' = s.destroyNext.1 by rw [heq], show actions = s.destroyNext.2 by rw [heq]]
    exact ht.destroyNext hs

theorem settled_create (S : SchedulerClass) : Settled (create S) [] :=
  ⟨nofun, nofun, nofun, nofun⟩

/-- **Runs of the simulator**: an id that was given out is expired if and only if its event was
executed, cancelled or removed, and the counter is the number of the events in the scheduler. -/
theorem simulator_isExpired (S : SchedulerClass) (calls : List Call)
    (hfits : TracedRun.Meets step (fun s h call => Fits s h call ∧ Unmarked s h call)
      (create S) [] calls) :
    ∃ s h, TracedRun.run step (create S) calls = .ok (s, h) ∧
      (∀ id, .scheduled id ∈ h → (s.IsExpired id = false ↔ ¬ Done h id)) ∧
      ∃ held, s.events.1.Holds s.events.2 held ∧ s.unscheduledEvents = held.length := by
  obtain ⟨s, h, hok, held, hs, ht⟩ :=
    TracedRun.run_invariant (I := fun s h => ∃ held, Keeps s h held ∧ Settled s h)
      (fun s h call hI hcall => by
        obtain ⟨held, hs, ht⟩ := hI
        obtain ⟨s', actions, held', hok, hs'⟩ := step_keeps hs hcall.1
        exact ⟨s', actions, hok, held', hs', step_settled hs ht hcall.1 hcall.2 hok⟩)
      ⟨[], keeps_create S, settled_create S⟩ hfits
  refine ⟨s, h, hok, fun id hid => ?_, held, hs.held.holds, hs.held.unscheduled⟩
  rw [← not_eq_true]
  exact not_congr (isExpired_iff hs ht hid)

theorem simulator_isExpired_exampleCalls :
    ∃ s h, TracedRun.run step (create MapScheduler.mapScheduler) exampleCalls = .ok (s, h) ∧
      (∀ id, .scheduled id ∈ h → (s.IsExpired id = false ↔ ¬ Done h id)) ∧
      ∃ held, s.events.1.Holds s.events.2 held ∧ s.unscheduledEvents = held.length :=
  simulator_isExpired MapScheduler.mapScheduler exampleCalls (by decide +kernel)

/-- As many events as the counter has values left, then one more. -/
def wrappingUid : List Call := (List.replicate (2 ^ 32 - 4) turn).flatten ++ [.scheduleNow 2]

/-- The last event has the uid 0: it is to come, but expired. -/
theorem not_pending_wrappingUid :
    ∃ s h id, TracedRun.run step (create MapScheduler.mapScheduler) wrappingUid = .ok (s, h) ∧
      .scheduled id ∈ h ∧ ¬ Done h id ∧ s.IsExpired id = true := by
  let x : EventId := ⟨2, 0, 0xffffffff, 0⟩
  obtain ⟨currentUid, h, hturns, hturn⟩ := run_turns (2 ^ 32 - 4) 4 0
  rw [show (4 : UInt32) + UInt32.ofNat (2 ^ 32 - 4) = 0 by decide] at hturns
  have hlast : TracedRun.run step (idle 0 currentUid) [.scheduleNow 2] =
      .ok (holding x 1 currentUid, [.scheduled x]) := rfl
  refine ⟨holding x 1 currentUid, h ++ [.scheduled x], x, ?_, mem_snoc.mpr (.inr rfl), ?_, ?_⟩
  · show TracedRun.run step (idle 4 0) _ = _
    rw [wrappingUid, TracedRun.run_append hturns, hlast]
    rfl
  · rintro (hexecuted | hdestroyed | hrevoked)
    · have himpl : x.impl = 1 := hturn _ ((mem_snoc.mp hexecuted).resolve_right nofun)
      revert himpl
      decide
    · exact hturn _ ((mem_snoc.mp hdestroyed).resolve_right nofun)
    · exact hturn _ ((mem_snoc.mp hrevoked).resolve_right nofun)
  · unfold IsExpired
    have hle : (0 : UInt32) ≤ currentUid := UInt32.le_iff_toNat_le.mpr (Nat.zero_le _)
    rw [if_neg (show x.uid ≠ 2 by decide)]
    show (decide (x.impl = 0) || decide (x.ts < 0) || (decide (x.ts = 0) &&
      decide ((0 : UInt32) ≤ currentUid)) || _) = true
    rw [decide_eq_true hle]
    rfl

end Ns3Joined.Core.DefaultSimulatorImpl
