import Ns3Joined.Mpi.NullMessageSimulator

/-!
# What a rank keeps to

What a rank has promised to another is followed beside the state. Between two turns a promise is
never above an event of the rank by more than the delay of the bundle, but for the event that sends
the next null message on this bundle: no event that it could come before is executed first.

* `Keeps`, `Waits`, `Runs`: what holds of a rank at any time, between two turns, in a handler.
* `Waits.begin`, `Waits.nullMessage`, `Runs.sendPacket`: what is promised in a turn.
* `Links`: what holds of the messages on their way, by what was promised.
-/

namespace Ns3Joined.Mpi.NullMessage

open List Function
open RemoteChannelBundle (m_delay m_guaranteeTime)

variable {n : ℕ}

/-! ### One rank -/

/-- What holds of a rank that has promised `promised`. `without` are the bundles that wait for no
event to send the next null message. -/
structure Keeps (tuned : ℕ → ℕ) (without : List (Fin (n + 1))) (r : NullMessageSimulatorImpl n)
    (promised : Fin (n + 1) → ℕ) : Prop where
  inOrder : Agenda.InOrder Event.ts r.m_events
  current_le : ∀ ev ∈ r.m_events, r.m_currentTs ≤ ev.ts
  current_le_safe : r.m_currentTs ≤ r.m_safeTime
  safe_le : r.m_safeTime ≤ maximumSimulationTime
  safe_le_guarantee : ∀ j b, r.bundles j = some b → r.m_safeTime ≤ b.m_guaranteeTime
  promised_le_safe : ∀ j b, r.bundles j = some b → promised j ≤ r.m_safeTime + b.m_delay
  uid_lt : ∀ ev ∈ r.m_events, ev.uid < r.m_uid
  nodup : (r.m_events.map Event.uid).Nodup
  bundled : ∀ ev ∈ r.m_events, ∀ j, ev.kind = .nullMessage j →
    (r.bundles j).isSome ∧ j ∉ without
  nullEventId_lt : ∀ j b, r.bundles j = some b → b.m_nullEventId < r.m_uid
  nullEventId : ∀ j b, r.bundles j = some b → j ∉ without →
    ∀ ev ∈ r.m_events, ev.uid = b.m_nullEventId ↔ ev.kind = .nullMessage j
  awaits : ∀ j b, r.bundles j = some b → j ∉ without →
    ∃ ev ∈ r.m_events, ev.kind = .nullMessage j ∧ ev.ts ≤ r.m_currentTs + tuned b.m_delay

/-- What holds of a rank between two turns. -/
structure Waits (tuned : ℕ → ℕ) (r : NullMessageSimulatorImpl n) (promised : Fin (n + 1) → ℕ) :
    Prop where
  keeps : Keeps tuned [] r promised
  promised_le : ∀ j b, r.bundles j = some b → ∀ ev ∈ r.m_events, ev.kind ≠ .nullMessage j →
    promised j ≤ ev.ts + b.m_delay
  stops : r.m_stop = false → ∃ ev ∈ r.m_events, ev.kind = .stop

/-- What holds of a rank in a handler. -/
structure Runs (tuned : ℕ → ℕ) (r : NullMessageSimulatorImpl n) (promised : Fin (n + 1) → ℕ) :
    Prop where
  keeps : Keeps tuned [] r promised
  promised_le : ∀ j b, r.bundles j = some b → ∀ ev ∈ r.m_events, promised j ≤ ev.ts + b.m_delay
  stops : ∃ ev ∈ r.m_events, ev.kind = .stop

variable {i j k : Fin (n + 1)} {kind : Kind n} {ev next : Event n} {ts uid time : ℕ}
  {rest : List (Event n)} {ch : Channel n} {messages : List Message} {message : Message}
  {r : NullMessageSimulatorImpl n} {b : RemoteChannelBundle} {without : List (Fin (n + 1))}

section Rank

variable {tuned : ℕ → ℕ} {promised : Fin (n + 1) → ℕ}

open NullMessageSimulatorImpl

/-- A rank that runs also waits. -/
theorem Runs.waits (h : Runs tuned r promised) : Waits tuned r promised where
  keeps := h.keeps
  promised_le := fun j b hb ev hev _ => h.promised_le j b hb ev hev
  stops := fun _ => h.stops

theorem setBundle_of_ne (hne : k ≠ j) :
    (r.setBundle j b).bundles k = r.bundles k := update_of_ne hne _ _

theorem setBundle_self : (r.setBundle j b).bundles j = some b := update_self _ _ _

/-- The events after scheduling. -/
theorem mem_schedule :
    ev ∈ (r.Schedule ts kind).m_events ↔ ev = ⟨ts, r.m_uid, kind⟩ ∨ ev ∈ r.m_events :=
  Agenda.mem_add

/-- The next identifier is in no event. -/
theorem Keeps.nodup_add (h : Keeps tuned without r promised) (ts : ℕ) (kind : Kind n) :
    ((r.Schedule ts kind).m_events.map Event.uid).Nodup := by
  have hperm := (Agenda.add_perm Event.ts ⟨ts, r.m_uid, kind⟩ r.m_events).map Event.uid
  refine hperm.nodup_iff.mpr (nodup_cons.mpr ⟨fun hmem => ?_, h.nodup⟩)
  obtain ⟨ev, hev, huid⟩ := mem_map.mp hmem
  exact absurd huid (Nat.ne_of_lt (h.uid_lt ev hev))

/-- An event is scheduled that sends no null message. -/
theorem Keeps.schedule (h : Keeps tuned without r promised) (hts : r.m_currentTs ≤ ts)
    (hkind : ∀ k, kind ≠ .nullMessage k) :
    Keeps tuned without (r.Schedule ts kind) promised where
  inOrder := h.inOrder.add _
  current_le := fun ev hev => by
    obtain rfl | hev := mem_schedule.mp hev
    · exact hts
    · exact h.current_le ev hev
  __ := h
  uid_lt := fun ev hev => by
    obtain rfl | hev := mem_schedule.mp hev
    · exact Nat.lt_succ_self _
    · exact Nat.lt_succ_of_lt (h.uid_lt ev hev)
  nodup := h.nodup_add ts kind
  bundled := fun ev hev k hnull => by
    obtain rfl | hev := mem_schedule.mp hev
    · exact absurd hnull (hkind k)
    · exact h.bundled ev hev k hnull
  nullEventId_lt := fun k b hb => Nat.lt_succ_of_lt (h.nullEventId_lt k b hb)
  nullEventId := fun k b hb hwith ev hev => by
    obtain rfl | hev := mem_schedule.mp hev
    · exact iff_of_false (Nat.ne_of_gt (h.nullEventId_lt k b hb)) (hkind k)
    · exact h.nullEventId k b hb hwith ev hev
  awaits := fun k b hb hwith => by
    obtain ⟨ev, hev, hnull⟩ := h.awaits k b hb hwith
    exact ⟨ev, mem_schedule.mpr (.inr hev), hnull⟩

/-- The next null message is scheduled on the bundle that waits for none. -/
theorem Keeps.scheduleNull (h : Keeps tuned (j :: without) r promised) (hj : j ∉ without)
    (hb : r.bundles j = some b) :
    Keeps tuned without (r.ScheduleNullMessageEvent tuned j b) promised := by
  -- what holds of every bundle as it was holds of every bundle, if it does of the changed one
  have hbundles {P : Fin (n + 1) → RemoteChannelBundle → Prop}
      (hj : P j { b with m_nullEventId := r.m_uid })
      (hall : ∀ k b', k ≠ j → r.bundles k = some b' → P k b') :
      ∀ k b', (r.ScheduleNullMessageEvent tuned j b).bundles k = some b' → P k b' := by
    intro k b' hb'
    by_cases hk : k = j
    · subst hk
      cases setBundle_self.symm.trans hb'
      exact hj
    · exact hall k b' hk ((setBundle_of_ne hk).symm.trans hb')
  have hwith {k : Fin (n + 1)} (hk : k ≠ j) (hwithout : k ∉ without) : k ∉ j :: without :=
    not_mem_cons_of_ne_of_not_mem hk hwithout
  exact {
    inOrder := h.inOrder.add _
    current_le := fun ev hev => by
      obtain rfl | hev := mem_schedule.mp hev
      · exact Nat.le_add_right _ _
      · exact h.current_le ev hev
    __ := h
    safe_le_guarantee := hbundles (h.safe_le_guarantee j b hb) fun k b' _ =>
      h.safe_le_guarantee k b'
    promised_le_safe := hbundles (h.promised_le_safe j b hb) fun k b' _ => h.promised_le_safe k b'
    uid_lt := fun ev hev => by
      obtain rfl | hev := mem_schedule.mp hev
      · exact Nat.lt_succ_self _
      · exact Nat.lt_succ_of_lt (h.uid_lt ev hev)
    nodup := h.nodup_add _ _
    bundled := fun ev hev k hnull => by
      by_cases hk : k = j
      · subst hk
        exact ⟨Option.isSome_iff_exists.mpr ⟨_, setBundle_self⟩, hj⟩
      · obtain rfl | hev := mem_schedule.mp hev
        · cases hnull
          exact absurd rfl hk
        · obtain ⟨hsome, hwithout⟩ := h.bundled ev hev k hnull
          exact ⟨(congrArg Option.isSome (setBundle_of_ne hk)).trans hsome,
            not_mem_of_not_mem_cons hwithout⟩
    nullEventId_lt := hbundles (Nat.lt_succ_self _) fun k b' _ hb' =>
      Nat.lt_succ_of_lt (h.nullEventId_lt k b' hb')
    nullEventId := by
      refine hbundles (fun _ ev hev => ?_) fun k b' hk hb' hwithout ev hev => ?_
      · obtain rfl | hev := mem_schedule.mp hev
        · exact iff_of_true rfl rfl
        · exact iff_of_false (Nat.ne_of_lt (h.uid_lt ev hev)) fun hnull =>
            (h.bundled ev hev j hnull).2 mem_cons_self
      · obtain rfl | hev := mem_schedule.mp hev
        · refine iff_of_false (Nat.ne_of_gt (h.nullEventId_lt k b' hb')) fun hnull => ?_
          cases hnull
          exact hk rfl
        · exact h.nullEventId k b' hb' (hwith hk hwithout) ev hev
    awaits := by
      refine hbundles (fun _ => ⟨_, mem_schedule.mpr (.inl rfl), rfl, Nat.le_refl _⟩)
        fun k b' hk hb' hwithout => ?_
      obtain ⟨ev, hev, hnull⟩ := h.awaits k b' hb' (hwith hk hwithout)
      exact ⟨ev, mem_schedule.mpr (.inr hev), hnull⟩ }

/-- An event of a cancelled queue is one of the queue, whose kind may be another now. -/
theorem mem_cancel (hev : ev ∈ (r.Cancel uid).m_events) :
    ∃ ev' ∈ r.m_events, ev.ts = ev'.ts ∧ ev.uid = ev'.uid ∧
      (ev.uid = uid ∧ ev.kind = .cancelled ∨ ev.uid ≠ uid ∧ ev = ev') := by
  obtain ⟨ev', hev', rfl⟩ := mem_map.mp hev
  refine ⟨ev', hev', ?_⟩
  split_ifs with huid
  · exact ⟨rfl, rfl, .inl ⟨huid, rfl⟩⟩
  · exact ⟨rfl, rfl, .inr ⟨huid, rfl⟩⟩

theorem mem_cancel_of_ne (hev : ev ∈ r.m_events) (hne : ev.uid ≠ uid) :
    ev ∈ (r.Cancel uid).m_events := mem_map.mpr ⟨ev, hev, if_neg hne⟩

/-- Cancelling keeps the events in order. -/
theorem cancel_inOrder (h : Agenda.InOrder Event.ts r.m_events) (uid : ℕ) :
    Agenda.InOrder Event.ts (r.Cancel uid).m_events :=
  h.map fun ev => by
    split_ifs <;> rfl

/-- Cancelling keeps the identifiers. -/
theorem cancel_uids (uid : ℕ) :
    (r.Cancel uid).m_events.map Event.uid = r.m_events.map Event.uid := by
  show (r.m_events.map _).map _ = _
  rw [map_map]
  refine map_congr_left fun ev _ => ?_
  show Event.uid (if _ then _ else _) = _
  split_ifs <;> rfl

/-- Cancelling the timer of a bundle leaves it without one. -/
theorem Keeps.cancelNull (h : Keeps tuned [] r promised) (hb : r.bundles j = some b) :
    Keeps tuned [j] (r.Cancel b.m_nullEventId) promised := by
  -- the event that is cancelled is the one for this bundle
  have hnull {ev : Event n} (hev : ev ∈ r.m_events) (huid : ev.uid = b.m_nullEventId)
      {k : Fin (n + 1)} (hk : ev.kind = .nullMessage k) : k = j := by
    have hj := (h.nullEventId j b hb not_mem_nil ev hev).mp huid
    rw [hk] at hj
    exact Kind.nullMessage.inj hj
  exact {
    inOrder := cancel_inOrder h.inOrder _
    current_le := fun ev hev => by
      obtain ⟨ev', hev', hts, -⟩ := mem_cancel hev
      rw [hts]
      exact h.current_le ev' hev'
    __ := h
    uid_lt := fun ev hev => by
      obtain ⟨ev', hev', -, huid, -⟩ := mem_cancel hev
      rw [huid]
      exact h.uid_lt ev' hev'
    nodup := by
      rw [cancel_uids]
      exact h.nodup
    bundled := fun ev hev k hk => by
      obtain ⟨ev', hev', -, -, ⟨-, hcancelled⟩ | ⟨hne, rfl⟩⟩ := mem_cancel hev
      · rw [hcancelled] at hk
        cases hk
      · refine ⟨(h.bundled ev hev' k hk).1, fun heq => ?_⟩
        cases mem_singleton.mp heq
        exact hne ((h.nullEventId _ _ hb not_mem_nil ev hev').mpr hk)
    nullEventId := fun k b' hb' hwith ev hev => by
      obtain ⟨ev', hev', -, huid', ⟨huid, hcancelled⟩ | ⟨hne, rfl⟩⟩ := mem_cancel hev
      · refine iff_of_false (fun heq => ?_) fun hk => ?_
        · rw [huid'] at heq huid
          have hk := (h.nullEventId k b' hb' not_mem_nil ev' hev').mp heq
          exact hwith (mem_singleton.mpr (hnull hev' huid hk))
        · rw [hcancelled] at hk
          cases hk
      · exact h.nullEventId k b' hb' not_mem_nil ev hev'
    awaits := fun k b' hb' hwith => by
      obtain ⟨ev, hev, hk, hts⟩ := h.awaits k b' hb' not_mem_nil
      refine ⟨ev, mem_cancel_of_ne hev fun huid => ?_, hk, hts⟩
      exact hwith (mem_singleton.mpr (hnull hev huid hk)) }

/-- A handler cancels an event, which is one of its own. -/
theorem Keeps.cancel (h : Keeps tuned without r promised)
    (hown : ∀ ev ∈ r.m_events, ev.uid = uid → ev.kind = .handler ∨ ev.kind = .cancelled) :
    Keeps tuned without (r.Cancel uid) promised where
  inOrder := cancel_inOrder h.inOrder _
  current_le := fun ev hev => by
    obtain ⟨ev', hev', hts, -⟩ := mem_cancel hev
    rw [hts]
    exact h.current_le ev' hev'
  __ := h
  uid_lt := fun ev hev => by
    obtain ⟨ev', hev', -, huid, -⟩ := mem_cancel hev
    rw [huid]
    exact h.uid_lt ev' hev'
  nodup := by
    rw [cancel_uids]
    exact h.nodup
  bundled := fun ev hev k hk => by
    obtain ⟨ev', hev', -, -, ⟨-, hcancelled⟩ | ⟨-, rfl⟩⟩ := mem_cancel hev
    · rw [hcancelled] at hk
      cases hk
    · exact h.bundled ev hev' k hk
  nullEventId := fun k b hb hwith ev hev => by
    obtain ⟨ev', hev', -, huid', ⟨huid, hcancelled⟩ | ⟨-, rfl⟩⟩ := mem_cancel hev
    · have hkind := hown ev' hev' (huid'.symm.trans huid)
      rw [huid', hcancelled, h.nullEventId k b hb hwith ev' hev']
      refine iff_of_false (fun hk => ?_) nofun
      rw [hk] at hkind
      obtain hkind | hkind := hkind <;> cases hkind
    · exact h.nullEventId k b hb hwith ev hev'
  awaits := fun k b hb hwith => by
    obtain ⟨ev, hev, hk, hts⟩ := h.awaits k b hb hwith
    refine ⟨ev, mem_cancel_of_ne hev fun huid => ?_, hk, hts⟩
    have hkind := hown ev hev huid
    rw [hk] at hkind
    obtain hkind | hkind := hkind <;> cases hkind

/-- Removing takes away the event unless it is cancelled already. -/
theorem mem_remove :
    ev ∈ (r.Remove uid).m_events ↔ ev ∈ r.m_events ∧ (ev.uid ≠ uid ∨ ev.kind = .cancelled) := by
  show ev ∈ List.filter _ _ ↔ _
  rw [mem_filter, Bool.or_eq_true, bne_iff_ne, beq_iff_eq]

/-- Some events are gone, but none of a null message. -/
theorem Keeps.shrink (h : Keeps tuned without r promised) {events : List (Event n)}
    (hsub : events.Sublist r.m_events)
    (hnull : ∀ ev ∈ r.m_events, ∀ k, ev.kind = .nullMessage k → ev ∈ events) :
    Keeps tuned without { r with m_events := events } promised where
  inOrder := List.Pairwise.sublist hsub h.inOrder
  current_le := fun ev hev => h.current_le ev (hsub.subset hev)
  __ := h
  uid_lt := fun ev hev => h.uid_lt ev (hsub.subset hev)
  nodup := h.nodup.sublist (hsub.map _)
  bundled := fun ev hev => h.bundled ev (hsub.subset hev)
  nullEventId := fun k b hb hwith ev hev => h.nullEventId k b hb hwith ev (hsub.subset hev)
  awaits := fun k b hb hwith => by
    obtain ⟨ev, hev, hk, hts⟩ := h.awaits k b hb hwith
    exact ⟨ev, hnull ev hev k hk, hk, hts⟩

/-- A promise is made to one rank. -/
theorem Keeps.promise (h : Keeps tuned without r promised) {guarantee : ℕ}
    (hguarantee : ∀ b, r.bundles j = some b → guarantee ≤ r.m_safeTime + b.m_delay) :
    Keeps tuned without r (update promised j guarantee) where
  __ := h
  promised_le_safe := fun k b hb => by
    by_cases hk : k = j
    · subst hk
      rw [update_self]
      exact hguarantee b hb
    · rw [update_of_ne hk]
      exact h.promised_le_safe k b hb

section

variable (h : Waits tuned r promised) (hevents : r.m_events = next :: rest)
  (hsafe : next.ts ≤ r.m_safeTime)

include h hevents hsafe

/-- Taking the next event takes away its bundle's timer if it is one. -/
theorem Waits.begin (hwithout : ∀ k, next.kind = .nullMessage k ↔ k ∈ without) :
    Keeps tuned without { r with m_events := rest, m_currentTs := next.ts } promised := by
  have hnext : next ∈ r.m_events := hevents ▸ mem_cons_self
  have hrest {ev : Event n} (hev : ev ∈ rest) : ev ∈ r.m_events :=
    hevents ▸ mem_cons_of_mem _ hev
  have hinOrder := hevents ▸ h.keeps.inOrder
  have hnodup := hevents ▸ h.keeps.nodup
  rw [map_cons, nodup_cons] at hnodup
  exact {
    inOrder := hinOrder.tail
    current_le := fun ev hev => hinOrder.head_le (mem_cons_of_mem _ hev)
    current_le_safe := hsafe
    safe_le := h.keeps.safe_le
    safe_le_guarantee := h.keeps.safe_le_guarantee
    promised_le_safe := h.keeps.promised_le_safe
    uid_lt := fun ev hev => h.keeps.uid_lt ev (hrest hev)
    nodup := hnodup.2
    bundled := fun ev hev k hk => by
      obtain ⟨hsome, -⟩ := h.keeps.bundled ev (hrest hev) k hk
      refine ⟨hsome, fun heq => hnodup.1 ?_⟩
      -- there would be two events for the bundle
      obtain ⟨b, hb⟩ := Option.isSome_iff_exists.mp hsome
      have huid := (h.keeps.nullEventId k b hb not_mem_nil ev (hrest hev)).mpr hk
      have huid' := (h.keeps.nullEventId k b hb not_mem_nil next hnext).mpr ((hwithout k).mpr heq)
      rw [huid', ← huid]
      exact mem_map_of_mem hev
    nullEventId_lt := h.keeps.nullEventId_lt
    nullEventId := fun k b hb _ ev hev => h.keeps.nullEventId k b hb not_mem_nil ev (hrest hev)
    awaits := fun k b hb hk => by
      obtain ⟨ev, hev, hnull, hts⟩ := h.keeps.awaits k b hb not_mem_nil
      rw [hevents] at hev
      obtain rfl | hev := mem_cons.mp hev
      · exact absurd ((hwithout k).mp hnull) hk
      · exact ⟨ev, hev, hnull,
          Nat.le_trans hts (Nat.add_le_add_right (h.keeps.current_le next hnext) _)⟩ }

/-- An event of a model begins. -/
theorem Waits.begin_handler (hkind : next.kind = .handler) (hstop : r.m_stop = false) :
    Runs tuned { r with m_events := rest, m_currentTs := next.ts } promised ∧
      ∀ j b, r.bundles j = some b → promised j ≤ next.ts + b.m_delay := by
  have hnull (k : Fin (n + 1)) : next.kind ≠ .nullMessage k := by
    rw [hkind]
    nofun
  have hnow (j : Fin (n + 1)) (b : RemoteChannelBundle) (hb : r.bundles j = some b) :
      promised j ≤ next.ts + b.m_delay :=
    h.promised_le j b hb next (hevents ▸ mem_cons_self) (hnull j)
  have hkeeps : Keeps tuned [] { r with m_events := rest, m_currentTs := next.ts } promised :=
    h.begin hevents hsafe fun k => iff_of_false (hnull k) not_mem_nil
  refine ⟨⟨hkeeps, fun j b hb ev hev => ?_, ?_⟩, hnow⟩
  · exact Nat.le_trans (hnow j b hb) (Nat.add_le_add_right (hkeeps.current_le ev hev) _)
  · obtain ⟨ev, hev, hev'⟩ := h.stops hstop
    rw [hevents] at hev
    obtain rfl | hev := mem_cons.mp hev
    · rw [hkind] at hev'
      cases hev'
    · exact ⟨ev, hev, hev'⟩

/-- An event that stops the rank, or was cancelled, changes nothing else. -/
theorem Waits.begin_idle (hkind : ∀ k, next.kind ≠ .nullMessage k) (stop : Bool)
    (hstop : next.kind = .stop → stop = true) (hstops : stop = false → r.m_stop = false) :
    Waits tuned { r with m_events := rest, m_currentTs := next.ts, m_stop := stop } promised := by
  have hkeeps : Keeps tuned [] { r with m_events := rest, m_currentTs := next.ts } promised :=
    h.begin hevents hsafe fun k => iff_of_false (hkind k) not_mem_nil
  refine ⟨{ hkeeps with }, fun j b hb ev hev => ?_, fun hrunning => ?_⟩
  · exact h.promised_le j b hb ev (hevents ▸ mem_cons_of_mem _ hev)
  · obtain ⟨ev, hev, hev'⟩ := h.stops (hstops hrunning)
    rw [hevents] at hev
    obtain rfl | hev := mem_cons.mp hev
    · exact absurd ((hstop hev').symm.trans hrunning) nofun
    · exact ⟨ev, hev, hev'⟩

end

/-- The bundles after the next null message was scheduled: what was promised to them, and their
delays, are what they were. -/
theorem scheduleNull_bundles (tuned : ℕ → ℕ) {b' : RemoteChannelBundle} (hb : r.bundles j = some b)
    (hb' : (r.ScheduleNullMessageEvent tuned j b).bundles k = some b') :
    ∃ b₀, r.bundles k = some b₀ ∧ b'.m_delay = b₀.m_delay ∧
      b'.m_guaranteeTime = b₀.m_guaranteeTime := by
  by_cases hk : k = j
  · subst hk
    cases setBundle_self.symm.trans hb'
    exact ⟨b, hb, rfl, rfl⟩
  · exact ⟨b', (setBundle_of_ne hk).symm.trans hb', rfl, rfl⟩

/-- A guarantee can be calculated while an event is queued. -/
theorem calculateGuaranteeTime_ok (h : Agenda.InOrder Event.ts r.m_events) {ev₀ : Event n}
    (hev₀ : ev₀ ∈ r.m_events) (b : RemoteChannelBundle) :
    ∃ next, r.Next = .ok next ∧
      r.CalculateGuaranteeTime b = .ok (min next r.m_safeTime + b.m_delay) ∧
      (∃ ev ∈ r.m_events, ev.ts = next) ∧ ∀ ev ∈ r.m_events, next ≤ ev.ts := by
  obtain ⟨events, uid, currentTs, stop, safe, bundles⟩ := r
  cases events with
  | nil => cases hev₀
  | cons first rest =>
    exact ⟨first.ts, rfl, rfl, ⟨first, mem_cons_self, rfl⟩, fun ev hev => h.head_le hev⟩

/-- The event for the next null message is executed. -/
theorem Waits.nullMessage (h : Waits tuned r promised) (hevents : r.m_events = next :: rest)
    (hsafe : next.ts ≤ r.m_safeTime) (hkind : next.kind = .nullMessage j)
    (hstop : r.m_stop = false) :
    ∃ b time, r.bundles j = some b ∧
      { r with m_events := rest, m_currentTs := next.ts }.CalculateGuaranteeTime b = .ok time ∧
      promised j ≤ time ∧
      Waits tuned ({ r with m_events := rest, m_currentTs := next.ts }.ScheduleNullMessageEvent
        tuned j b) (update promised j time) := by
  have hnext : next ∈ r.m_events := hevents ▸ mem_cons_self
  obtain ⟨hsome, -⟩ := h.keeps.bundled next hnext j hkind
  obtain ⟨b, hb⟩ := Option.isSome_iff_exists.mp hsome
  have hkeeps : Keeps tuned [j] { r with m_events := rest, m_currentTs := next.ts } promised := by
    refine h.begin hevents hsafe fun k => ?_
    rw [hkind, mem_singleton]
    exact ⟨fun heq => (Kind.nullMessage.inj heq).symm, fun heq => congrArg _ heq.symm⟩
  obtain ⟨stopping, hstopping, hstopping'⟩ := h.stops hstop
  rw [hevents] at hstopping
  have hstopping := (mem_cons.mp hstopping).resolve_left fun heq => by
    rw [heq, hkind] at hstopping'
    cases hstopping'
  obtain ⟨first, -, hguarantee, ⟨ev₀, hev₀, hfirst⟩, hleast⟩ :=
    calculateGuaranteeTime_ok hkeeps.inOrder hstopping b
  have hrest {ev : Event n} (hev : ev ∈ rest) : ev ∈ r.m_events :=
    hevents ▸ mem_cons_of_mem _ hev
  refine ⟨b, _, hb, hguarantee, ?_, ?_⟩
  · -- no event but the one that is executed may come before what was promised
    have hev₀' := h.promised_le j b hb ev₀ (hrest hev₀) fun hnull =>
      (hkeeps.bundled ev₀ hev₀ j hnull).2 mem_cons_self
    rw [hfirst] at hev₀'
    rw [← Nat.add_min_add_right]
    exact Nat.le_min.mpr ⟨hev₀', h.keeps.promised_le_safe j b hb⟩
  · refine ⟨(hkeeps.promise fun b' hb' => ?_).scheduleNull not_mem_nil hb,
      fun k b' hb' ev hev hne => ?_,
      fun _ => ⟨stopping, mem_schedule.mpr (.inr hstopping), hstopping'⟩⟩
    · cases hb.symm.trans hb'
      exact Nat.add_le_add_right (Nat.min_le_right _ _) _
    · obtain ⟨b₀, hb₀, hdelay, -⟩ := scheduleNull_bundles tuned hb hb'
      rw [hdelay]
      by_cases hk : k = j
      · subst hk
        cases hb.symm.trans hb₀
        rw [update_self]
        obtain rfl | hev := mem_schedule.mp hev
        · exact absurd rfl hne
        · exact Nat.add_le_add_right (Nat.le_trans (Nat.min_le_left _ _) (hleast ev hev)) _
      · rw [update_of_ne hk]
        obtain rfl | hev := mem_schedule.mp hev
        · refine Nat.le_trans (h.promised_le k b₀ hb₀ next hnext fun hnull => hk ?_) ?_
          · rw [hkind] at hnull
            exact (Kind.nullMessage.inj hnull).symm
          · exact Nat.add_le_add_right (Nat.le_add_right _ _) _
        · exact h.promised_le k b₀ hb₀ ev (hrest hev) hne

/-- A packet is sent in a handler. Before what is promised with it, no event was queued. -/
theorem Runs.sendPacket (h : Runs tuned r promised) (hb : r.bundles j = some b) :
    ∃ next, r.Next = .ok next ∧
      r.CalculateGuaranteeTime b = .ok (min next r.m_safeTime + b.m_delay) ∧
      promised j ≤ min next r.m_safeTime + b.m_delay ∧
      Runs tuned (r.RescheduleNullMessageEvent tuned j b)
        (update promised j (min next r.m_safeTime + b.m_delay)) := by
  obtain ⟨stopping, hstopping, hstopping'⟩ := h.stops
  obtain ⟨next, hnext, hguarantee, ⟨ev₀, hev₀, hfirst⟩, hleast⟩ :=
    calculateGuaranteeTime_ok h.keeps.inOrder hstopping b
  refine ⟨next, hnext, hguarantee, ?_, ?_, fun k b' hb' ev' hev' => ?_, ?_⟩
  · have hev₀' := h.promised_le j b hb ev₀ hev₀
    rw [hfirst] at hev₀'
    rw [← Nat.add_min_add_right]
    exact Nat.le_min.mpr ⟨hev₀', h.keeps.promised_le_safe j b hb⟩
  · refine ((h.keeps.cancelNull hb).promise fun b' hb' => ?_).scheduleNull
      not_mem_nil hb
    cases hb.symm.trans hb'
    exact Nat.add_le_add_right (Nat.min_le_right _ _) _
  · -- every event that is queued now is no earlier than one that was queued
    have hearlier : ∃ ev ∈ r.m_events, ev.ts ≤ ev'.ts := by
      obtain rfl | hev' := mem_schedule.mp hev'
      · obtain ⟨ev, hev, -, hts⟩ := h.keeps.awaits j b hb not_mem_nil
        exact ⟨ev, hev, hts⟩
      · obtain ⟨ev, hev, hts, -⟩ := mem_cancel hev'
        exact ⟨ev, hev, Nat.le_of_eq hts.symm⟩
    obtain ⟨ev, hev, hts⟩ := hearlier
    obtain ⟨b₀, hb₀, hdelay, -⟩ := scheduleNull_bundles (r := r.Cancel b.m_nullEventId) tuned hb hb'
    rw [hdelay]
    refine Nat.le_trans ?_ (Nat.add_le_add_right hts _)
    by_cases hk : k = j
    · subst hk
      cases hb.symm.trans hb₀
      rw [update_self]
      exact Nat.add_le_add_right (Nat.le_trans (Nat.min_le_left _ _) (hleast ev hev)) _
    · rw [update_of_ne hk]
      exact h.promised_le k b₀ hb₀ ev hev
  · refine ⟨stopping, mem_schedule.mpr (.inr (mem_cancel_of_ne hstopping fun huid => ?_)),
      hstopping'⟩
    rw [(h.keeps.nullEventId j b hb not_mem_nil stopping hstopping).mp huid] at hstopping'
    cases hstopping'

/-- Scheduling behind every promise keeps a running rank. -/
theorem Runs.schedule (h : Runs tuned r promised) (hts : r.m_currentTs ≤ ts)
    (hpromised : ∀ j b, r.bundles j = some b → promised j ≤ ts + b.m_delay) :
    Runs tuned (r.Schedule ts .handler) promised where
  keeps := h.keeps.schedule hts nofun
  promised_le := fun j b hb ev hev => by
    obtain rfl | hev := mem_schedule.mp hev
    · exact hpromised j b hb
    · exact h.promised_le j b hb ev hev
  stops := by
    obtain ⟨ev, hev, hev'⟩ := h.stops
    exact ⟨ev, mem_schedule.mpr (.inr hev), hev'⟩

section

variable (h : Runs tuned r promised)
  (hown : ∀ ev ∈ r.m_events, ev.uid = uid → ev.kind = .handler ∨ ev.kind = .cancelled)

include h hown

/-- Cancelling an own event keeps a running rank. -/
theorem Runs.cancel :
    Runs tuned (r.Cancel uid) promised where
  keeps := h.keeps.cancel hown
  promised_le := fun j b hb ev hev => by
    obtain ⟨ev', hev', hts, -⟩ := mem_cancel hev
    rw [hts]
    exact h.promised_le j b hb ev' hev'
  stops := by
    obtain ⟨ev, hev, hev'⟩ := h.stops
    refine ⟨ev, mem_cancel_of_ne hev fun huid => ?_, hev'⟩
    have hkind := hown ev hev huid
    rw [hev'] at hkind
    obtain hkind | hkind := hkind <;> cases hkind

/-- Removing an own event keeps a running rank. -/
theorem Runs.remove : Runs tuned (r.Remove uid) promised := by
  have hstay {ev : Event n} (hev : ev ∈ r.m_events) (hkind : ev.kind ≠ .handler) :
      ev ∈ (r.Remove uid).m_events := by
    refine mem_remove.mpr ⟨hev, ?_⟩
    by_cases huid : ev.uid = uid
    · exact .inr ((hown ev hev huid).resolve_left hkind)
    · exact .inl huid
  refine ⟨h.keeps.shrink filter_sublist fun ev hev k hk => hstay hev fun hhandler => ?_,
    fun j b hb ev hev => h.promised_le j b hb ev (mem_remove.mp hev).1, ?_⟩
  · rw [hk] at hhandler
    cases hhandler
  · obtain ⟨ev, hev, hev'⟩ := h.stops
    refine ⟨ev, hstay hev fun hhandler => ?_, hev'⟩
    rw [hev'] at hhandler
    cases hhandler

end

/-- Stopping keeps a running rank. -/
theorem Runs.stop (h : Runs tuned r promised) : Runs tuned { r with m_stop := true } promised where
  keeps := { h.keeps with }
  __ := h

/-! ### Messages that arrive -/

/-- Scheduling behind the safe time keeps a waiting rank. -/
theorem Waits.schedule (h : Waits tuned r promised) (hts : r.m_safeTime ≤ ts) :
    Waits tuned (r.Schedule ts .handler) promised where
  keeps := h.keeps.schedule (Nat.le_trans h.keeps.current_le_safe hts) nofun
  promised_le := fun j b hb ev hev hne => by
    obtain rfl | hev := mem_schedule.mp hev
    · exact Nat.le_trans (h.keeps.promised_le_safe j b hb) (Nat.add_le_add_right hts _)
    · exact h.promised_le j b hb ev hev hne
  stops := fun hstop => by
    obtain ⟨ev, hev, hev'⟩ := h.stops hstop
    exact ⟨ev, mem_schedule.mpr (.inr hev), hev'⟩

/-- A greater guarantee keeps a waiting rank. -/
theorem Waits.setGuaranteeTime (h : Waits tuned r promised) (hb : r.bundles i = some b)
    (htime : b.m_guaranteeTime ≤ time) :
    Waits tuned (r.setBundle i { b with m_guaranteeTime := time }) promised := by
  have hbundles {P : Fin (n + 1) → RemoteChannelBundle → Prop}
      (hi : P i { b with m_guaranteeTime := time })
      (hall : ∀ k b', r.bundles k = some b' → P k b') :
      ∀ k b', (r.setBundle i { b with m_guaranteeTime := time }).bundles k = some b' →
        P k b' := by
    intro k b' hb'
    by_cases hk : k = i
    · subst hk
      cases setBundle_self.symm.trans hb'
      exact hi
    · exact hall k b' ((setBundle_of_ne hk).symm.trans hb')
  exact {
    keeps := {
      inOrder := h.keeps.inOrder
      current_le := h.keeps.current_le
      current_le_safe := h.keeps.current_le_safe
      safe_le := h.keeps.safe_le
      safe_le_guarantee := hbundles (Nat.le_trans (h.keeps.safe_le_guarantee i b hb) htime)
        h.keeps.safe_le_guarantee
      promised_le_safe := hbundles (h.keeps.promised_le_safe i b hb) h.keeps.promised_le_safe
      uid_lt := h.keeps.uid_lt
      nodup := h.keeps.nodup
      bundled := fun ev hev k hk => by
        refine ⟨?_, not_mem_nil⟩
        by_cases hki : k = i
        · subst hki
          exact Option.isSome_iff_exists.mpr ⟨_, setBundle_self⟩
        · exact (congrArg Option.isSome (setBundle_of_ne hki)).trans
            (h.keeps.bundled ev hev k hk).1
      nullEventId_lt := hbundles (h.keeps.nullEventId_lt i b hb) h.keeps.nullEventId_lt
      nullEventId := hbundles (h.keeps.nullEventId i b hb) h.keeps.nullEventId
      awaits := hbundles (h.keeps.awaits i b hb) h.keeps.awaits }
    promised_le := hbundles (h.promised_le i b hb) h.promised_le
    stops := h.stops }

/-- What `GetSafeTime` goes through: it is no more than each guarantee, and as much as all are. -/
theorem foldl_safeTime (bundles : Fin (n + 1) → Option RemoteChannelBundle)
    (systemIds : List (Fin (n + 1))) (initial time : ℕ) :
    time ≤ systemIds.foldl (fun safeTime j =>
        match bundles j with
        | none => safeTime
        | some b => min safeTime b.m_guaranteeTime) initial ↔
      time ≤ initial ∧ ∀ j ∈ systemIds, ∀ b, bundles j = some b → time ≤ b.m_guaranteeTime := by
  induction systemIds generalizing initial with
  | nil => exact ⟨fun hle => ⟨hle, nofun⟩, And.left⟩
  | cons j systemIds ih =>
    rw [foldl_cons, ih, forall_mem_cons, ← and_assoc]
    refine and_congr_left fun _ => ?_
    cases bundles j with
    | none => exact ⟨fun hle => ⟨hle, nofun⟩, And.left⟩
    | some b =>
      dsimp only
      rw [Nat.le_min]
      exact and_congr_right fun _ =>
        ⟨fun hle b' hb' => by cases hb'; exact hle, fun hle => hle b rfl⟩

/-- A time is safe if and only if every bundle guarantees it. -/
theorem le_getSafeTime : time ≤ r.GetSafeTime ↔
    time ≤ maximumSimulationTime ∧ ∀ j b, r.bundles j = some b → time ≤ b.m_guaranteeTime := by
  refine (foldl_safeTime r.bundles (List.finRange (n + 1)) maximumSimulationTime time).trans ?_
  exact and_congr_right fun _ => forall_congr' fun j => ⟨fun h => h (mem_finRange j),
    fun h _ => h⟩

/-- The safe time only grows. -/
theorem Waits.safe_le_getSafeTime (h : Waits tuned r promised) : r.m_safeTime ≤ r.GetSafeTime :=
  le_getSafeTime.mpr ⟨h.keeps.safe_le, h.keeps.safe_le_guarantee⟩

/-- Calculating the safe time keeps a waiting rank. -/
theorem Waits.calculateSafeTime (h : Waits tuned r promised) :
    Waits tuned { r with m_safeTime := r.GetSafeTime } promised where
  keeps := {
    h.keeps with
    current_le_safe := Nat.le_trans h.keeps.current_le_safe h.safe_le_getSafeTime
    safe_le := (le_getSafeTime.mp (Nat.le_refl _)).1
    safe_le_guarantee := (le_getSafeTime.mp (Nat.le_refl _)).2
    promised_le_safe := fun j b hb => Nat.le_trans (h.keeps.promised_le_safe j b hb)
      (Nat.add_le_add_right h.safe_le_getSafeTime _) }
  __ := h

end Rank

/-! ### The channels -/

namespace System

/-- A channel joins two ranks, whichever end is which. -/
theorem joins_iff : joins i j ch = true ↔
    ch.left ≠ ch.right ∧ (ch.left = i ∧ ch.right = j ∨ ch.left = j ∧ ch.right = i) := by
  unfold joins Channel.IsRemoteAt Channel.otherEnd
  simp only [Bool.and_eq_true, bne_iff_ne, Bool.or_eq_true, beq_iff_eq, and_assoc]
  refine and_congr_right fun hne => ?_
  split_ifs with hleft
  · subst hleft
    constructor
    · exact fun h => .inl ⟨rfl, h.2⟩
    · rintro (⟨-, hright⟩ | ⟨hleft, hright⟩)
      · exact ⟨.inl rfl, hright⟩
      · exact absurd hright.symm hne
  · constructor
    · exact fun h => .inr ⟨h.2, h.1.resolve_left hleft⟩
    · rintro (⟨hleft', -⟩ | ⟨hleft', hright⟩)
      · exact absurd hleft' hleft
      · exact ⟨.inr hright, hleft'⟩

/-- Both ends find the same delay. -/
theorem bundleDelay_symm (channels : List (Channel n)) (i j : Fin (n + 1)) :
    bundleDelay channels i j = bundleDelay channels j i := by
  have hjoins : joins i j = joins j i := by
    funext ch
    rw [Bool.eq_iff_iff, joins_iff, joins_iff]
    exact and_congr_right fun _ => or_comm
  unfold bundleDelay
  rw [hjoins]

/-- The delay of a bundle is the least of its channels. -/
theorem foldl_addChannel_le (channels : List (Channel n)) (initial : Option ℕ) :
    (∀ d, initial = some d → ∃ d', channels.foldl (fun delay ch =>
      some (min (delay.getD maximumSimulationTime) ch.delay)) initial = some d' ∧ d' ≤ d) ∧
    ∀ ch ∈ channels, ∃ d', channels.foldl (fun delay ch =>
      some (min (delay.getD maximumSimulationTime) ch.delay)) initial = some d' ∧
        d' ≤ ch.delay := by
  induction channels generalizing initial with
  | nil => exact ⟨fun d hd => ⟨d, hd, Nat.le_refl d⟩, nofun⟩
  | cons ch channels ih =>
    rw [foldl_cons]
    obtain ⟨hinitial, hchannels⟩ := ih (some (min (initial.getD maximumSimulationTime) ch.delay))
    obtain ⟨d', hd', hle⟩ := hinitial _ rfl
    refine ⟨fun d hd => ⟨d', hd', ?_⟩, fun ch' hch' => ?_⟩
    · rw [hd] at hle
      exact Nat.le_trans hle (Nat.min_le_left _ _)
    · obtain rfl | hch' := mem_cons.mp hch'
      · exact ⟨d', hd', Nat.le_trans hle (Nat.min_le_right _ _)⟩
      · exact hchannels ch' hch'

/-- The delay of a bundle is no more than that of any of its channels. -/
theorem bundleDelay_le {channels : List (Channel n)} (hch : ch ∈ channels)
    (hremote : ch.IsRemoteAt i = true) :
    ∃ d, bundleDelay channels i (ch.otherEnd i) = some d ∧ d ≤ ch.delay := by
  refine (foldl_addChannel_le _ none).2 ch (mem_filter.mpr ⟨hch, ?_⟩)
  unfold joins
  rw [hremote, beq_self_eq_true, Bool.and_self]

/-! ### Messages on their way -/

section

variable {s : System n}

theorem setRank_self : (s.setRank i r).ranks i = r := update_self _ _ _

theorem setRank_of_ne (hne : j ≠ i) : (s.setRank i r).ranks j = s.ranks j :=
  update_of_ne hne _ _

theorem setWire_self : (s.setWire i j messages).wires i j = messages := by
  show update s.wires i _ i j = _
  rw [update_self, update_self]

theorem setWire_of_ne {i' j' : Fin (n + 1)} (hne : ¬(i' = i ∧ j' = j)) :
    (s.setWire i j messages).wires i' j' = s.wires i' j' := by
  show update s.wires i _ i' j' = _
  by_cases hi : i' = i
  · subst hi
    rw [update_self, update_of_ne fun hj => hne ⟨rfl, hj⟩]
  · rw [update_of_ne hi]

end

end System

/-- What a rank has promised after one more promise. -/
def promise (promised : Fin (n + 1) → Fin (n + 1) → ℕ) (i j : Fin (n + 1)) (guarantee : ℕ) :
    Fin (n + 1) → Fin (n + 1) → ℕ :=
  update promised i (update (promised i) j guarantee)

section promise

variable {promised : Fin (n + 1) → Fin (n + 1) → ℕ} {i' j' : Fin (n + 1)} {guarantee : ℕ}

/-- What is promised where a promise was made. -/
theorem promise_self : promise promised i j guarantee i j = guarantee := by
  unfold promise
  rw [update_self, update_self]

/-- The row of a promise that was made. -/
theorem promise_row :
    promise promised i j guarantee i = update (promised i) j guarantee :=
  update_self _ _ _

/-- The other rows of the promises. -/
theorem promise_of_row_ne (hne : i' ≠ i) : promise promised i j guarantee i' = promised i' :=
  update_of_ne hne _ _

/-- The other promises. -/
theorem promise_of_ne (hne : ¬(i' = i ∧ j' = j)) :
    promise promised i j guarantee i' j' = promised i' j' := by
  by_cases hi : i' = i
  · subst hi
    rw [promise_row, update_of_ne fun hj => hne ⟨rfl, hj⟩]
  · rw [promise_of_row_ne hi]

/-- Promises only grow. -/
theorem le_promise (hle : promised i j ≤ guarantee) :
    promised i' j' ≤ promise promised i j guarantee i' j' := by
  by_cases h : i' = i ∧ j' = j
  · obtain ⟨rfl, rfl⟩ := h
    rw [promise_self]
    exact hle
  · rw [promise_of_ne h]

end promise

/-- Messages on their way to a rank that holds the guarantee `held`: each keeps to the guarantee
before it, and the last gives `promised`. -/
def InPromise : ℕ → List Message → ℕ → Prop
  | held, [], promised => held = promised
  | held, message :: messages, promised =>
    held ≤ message.guaranteeUpdate ∧ (message.rxTime ≠ 0 → held ≤ message.rxTime) ∧
      InPromise message.guaranteeUpdate messages promised

/-- A message that promises no less may join a wire. -/
theorem InPromise.append {held promised : ℕ} (h : InPromise held messages promised)
    (hguarantee : promised ≤ message.guaranteeUpdate)
    (hrx : message.rxTime ≠ 0 → promised ≤ message.rxTime) :
    InPromise held (messages ++ [message]) message.guaranteeUpdate := by
  induction messages generalizing held with
  | nil =>
    subst h
    exact ⟨hguarantee, hrx, rfl⟩
  | cons first messages ih => exact ⟨h.1, h.2.1, ih h.2.2⟩

/-- What holds between the ranks. -/
structure Links (s : System n) (promised : Fin (n + 1) → Fin (n + 1) → ℕ) : Prop where
  delays : ∀ i j, ((s.ranks i).bundles j).map m_delay =
    System.bundleDelay s.channels i j
  wires : ∀ i j b, (s.ranks j).bundles i = some b →
    InPromise b.m_guaranteeTime (s.wires i j) (promised i j)
  empty : ∀ i j, (s.ranks j).bundles i = none → s.wires i j = []

/-- The bundles have the delays and the guarantees that they had. -/
def Alike (r r' : NullMessageSimulatorImpl n) : Prop :=
  ∀ j, (r'.bundles j).map m_delay =
      (r.bundles j).map m_delay ∧
    (r'.bundles j).map m_guaranteeTime =
      (r.bundles j).map m_guaranteeTime

theorem Alike.rfl : Alike r r := fun _ => ⟨Eq.refl _, Eq.refl _⟩

/-- Scheduling a null message touches the timer of a bundle only. -/
theorem Alike.scheduleNull (tuned : ℕ → ℕ) (hb : r.bundles j = some b) :
    Alike r (r.ScheduleNullMessageEvent tuned j b) := by
  intro k
  by_cases hk : k = j
  · subst hk
    have hnew : (r.ScheduleNullMessageEvent tuned k b).bundles k =
        some { b with m_nullEventId := r.m_uid } := setBundle_self
    rw [hnew, hb]
    exact ⟨Eq.refl _, Eq.refl _⟩
  · have hold : (r.ScheduleNullMessageEvent tuned j b).bundles k = r.bundles k :=
      setBundle_of_ne hk
    rw [hold]
    exact ⟨Eq.refl _, Eq.refl _⟩

theorem Alike.trans {r' r'' : NullMessageSimulatorImpl n} (h : Alike r r') (h' : Alike r' r'') :
    Alike r r'' := fun j => ⟨(h' j).1.trans (h j).1, (h' j).2.trans (h j).2⟩

section Links

variable {s : System n} {promised : Fin (n + 1) → Fin (n + 1) → ℕ}

/-- The links read the bundles only. -/
theorem Links.setRank (h : Links s promised) (hr : Alike (s.ranks i) r) :
    Links (s.setRank i r) promised := by
  have hranks (k : Fin (n + 1)) : Alike (s.ranks k) ((s.setRank i r).ranks k) := by
    by_cases hk : k = i
    · subst hk
      rw [System.setRank_self]
      exact hr
    · rw [System.setRank_of_ne hk]
      exact .rfl
  exact {
    delays := fun k l => ((hranks k) l).1.trans (h.delays k l)
    wires := fun k l b hb => by
      have hguarantee := ((hranks l) k).2
      rw [hb] at hguarantee
      obtain ⟨b₀, hb₀, heq⟩ := Option.map_eq_some_iff.mp hguarantee.symm
      rw [← heq]
      exact h.wires k l b₀ hb₀
    empty := fun k l hnone => by
      have hguarantee := ((hranks l) k).2
      rw [hnone] at hguarantee
      exact h.empty k l (Option.map_eq_none_iff.mp hguarantee.symm) }

/-- A bundle is there at both ends or at neither. -/
theorem Links.isSome_symm (h : Links s promised) :
    ((s.ranks j).bundles i).isSome = ((s.ranks i).bundles j).isSome := by
  have hdelay : ((s.ranks j).bundles i).map m_delay =
      ((s.ranks i).bundles j).map m_delay := by
    rw [h.delays, h.delays, System.bundleDelay_symm]
  rw [← Option.isSome_map, hdelay, Option.isSome_map]

/-- Sending a message that promises no less keeps the links. -/
theorem Links.send (h : Links s promised) (hb : (s.ranks i).bundles j = some b)
    (hguarantee : promised i j ≤ message.guaranteeUpdate)
    (hrx : message.rxTime ≠ 0 → promised i j ≤ message.rxTime) :
    Links (s.send i j message) (promise promised i j message.guaranteeUpdate) where
  delays := h.delays
  wires := fun k l b' hb' => by
    by_cases hkl : k = i ∧ l = j
    · obtain ⟨rfl, rfl⟩ := hkl
      have hwire : (s.send k l message).wires k l = s.wires k l ++ [message] := System.setWire_self
      rw [hwire, promise_self]
      exact (h.wires k l b' hb').append hguarantee hrx
    · have hwire : (s.send i j message).wires k l = s.wires k l := System.setWire_of_ne hkl
      rw [hwire, promise_of_ne hkl]
      exact h.wires k l b' hb'
  empty := fun k l hnone => by
    by_cases hkl : k = i ∧ l = j
    · obtain ⟨rfl, rfl⟩ := hkl
      have hsome := h.isSome_symm (i := k) (j := l)
      rw [show (s.ranks l).bundles k = none from hnone, hb] at hsome
      cases hsome
    · exact (System.setWire_of_ne hkl).trans (h.empty k l hnone)

/-- A message has come to rank `i`, which now holds its guarantee. -/
theorem Links.receive (h : Links s promised) (hbundles : r.bundles = (s.ranks i).bundles)
    {source : Fin (n + 1)} (hb : (s.ranks i).bundles source = some b)
    (hpromise : InPromise time messages (promised source i)) :
    Links ((s.setWire source i messages).setRank i
      (r.setBundle source { b with m_guaranteeTime := time })) promised where
  delays := fun k l => by
    refine Eq.trans ?_ (h.delays k l)
    by_cases hk : k = i
    · subst hk
      rw [System.setRank_self]
      by_cases hl : l = source
      · subst hl
        rw [setBundle_self, hb]
        rfl
      · rw [setBundle_of_ne hl, hbundles]
    · rw [System.setRank_of_ne hk]
      rfl
  wires := fun k l b' hb' => by
    show InPromise _ ((s.setWire source i messages).wires k l) _
    by_cases hkl : k = source ∧ l = i
    · obtain ⟨rfl, rfl⟩ := hkl
      rw [System.setRank_self, setBundle_self] at hb'
      cases hb'
      rw [System.setWire_self]
      exact hpromise
    · rw [System.setWire_of_ne hkl]
      by_cases hl : l = i
      · subst hl
        rw [System.setRank_self, setBundle_of_ne fun hk => hkl ⟨hk, rfl⟩, hbundles] at hb'
        exact h.wires k l b' hb'
      · rw [System.setRank_of_ne hl] at hb'
        exact h.wires k l b' hb'
  empty := fun k l hnone => by
    show (s.setWire source i messages).wires k l = []
    by_cases hkl : k = source ∧ l = i
    · obtain ⟨rfl, rfl⟩ := hkl
      rw [System.setRank_self, setBundle_self] at hnone
      cases hnone
    · rw [System.setWire_of_ne hkl]
      by_cases hl : l = i
      · subst hl
        rw [System.setRank_self, setBundle_of_ne fun hk => hkl ⟨hk, rfl⟩, hbundles] at hnone
        exact h.empty k l hnone
      · rw [System.setRank_of_ne hl] at hnone
        exact h.empty k l hnone

end Links

/-! ### The beginning -/

section Beginning

variable {tuned : ℕ → ℕ} {promised : Fin (n + 1) → ℕ}

/-- Where there is no bundle there is no timer to miss. -/
theorem Keeps.skip (h : Keeps tuned (j :: without) r promised) (hnone : r.bundles j = none) :
    Keeps tuned without r promised := by
  have hmem {k : Fin (n + 1)} {b : RemoteChannelBundle} (hb : r.bundles k = some b)
      (hk : k ∉ without) : k ∉ j :: without := by
    refine not_mem_cons_of_ne_of_not_mem (fun heq => ?_) hk
    rw [heq, hnone] at hb
    cases hb
  exact {
    h with
    bundled := fun ev hev k hk =>
      ⟨(h.bundled ev hev k hk).1, not_mem_of_not_mem_cons (h.bundled ev hev k hk).2⟩
    nullEventId := fun k b hb hk => h.nullEventId k b hb (hmem hb hk)
    awaits := fun k b hb hk => h.awaits k b hb (hmem hb hk) }

/-- Every bundle gets an event for its next null message. -/
theorem Keeps.initialize {systemIds : List (Fin (n + 1))} (hnodup : systemIds.Nodup)
    (h : Keeps tuned systemIds r promised) :
    Keeps tuned [] (systemIds.foldl (System.initializeNullMessageEvent tuned) r) promised ∧
      Alike r (systemIds.foldl (System.initializeNullMessageEvent tuned) r) ∧
      ∀ ev ∈ r.m_events,
        ev ∈ (systemIds.foldl (System.initializeNullMessageEvent tuned) r).m_events := by
  induction systemIds generalizing r with
  | nil => exact ⟨h, .rfl, fun ev hev => hev⟩
  | cons j systemIds ih =>
    obtain ⟨hj, hnodup⟩ := nodup_cons.mp hnodup
    rw [foldl_cons]
    unfold System.initializeNullMessageEvent
    match hb : r.bundles j with
    | none => exact ih hnodup (h.skip hb)
    | some b =>
      obtain ⟨hkeeps, halike, hevents⟩ := ih hnodup (h.scheduleNull hj hb)
      exact ⟨hkeeps, (Alike.scheduleNull tuned hb).trans halike,
        fun ev hev => hevents ev (mem_schedule.mpr (.inr hev))⟩

/-- Events are scheduled before the simulation runs. -/
theorem Keeps.scheduleAll (h : Keeps tuned without r promised) (hnow : r.m_currentTs = 0)
    (scheduled : List ℕ) :
    Keeps tuned without (scheduled.foldl (fun r ts => r.Schedule ts .handler) r) promised ∧
      (scheduled.foldl (fun r ts => r.Schedule ts .handler) r).m_currentTs = 0 ∧
      (scheduled.foldl (fun r ts => r.Schedule ts .handler) r).bundles = r.bundles := by
  induction scheduled generalizing r with
  | nil => exact ⟨h, hnow, rfl⟩
  | cons ts scheduled ih =>
    exact ih (h.schedule (Nat.le_trans (Nat.le_of_eq hnow) (Nat.zero_le ts)) nofun) hnow

/-- What a rank has promised at first. -/
def firstPromised (channels : List (Channel n)) (i j : Fin (n + 1)) : ℕ :=
  (System.bundleDelay channels i j).getD 0

/-- A rank at first, with the bundles of its channels. -/
theorem initialize_waits (tuned : ℕ → ℕ) (channels : List (Channel n)) (scheduled : List ℕ)
    (stop : ℕ) (i : Fin (n + 1)) :
    Waits tuned (System.initializeNullMessageEvents tuned
      (System.calculateLookAhead channels scheduled stop i)) (firstPromised channels i) ∧
    ∀ j, ((System.initializeNullMessageEvents tuned
        (System.calculateLookAhead channels scheduled stop i)).bundles j).map
          m_delay = System.bundleDelay channels i j ∧
      ((System.initializeNullMessageEvents tuned
        (System.calculateLookAhead channels scheduled stop i)).bundles j).map
          m_guaranteeTime =
        (System.bundleDelay channels i j).map fun _ => 0 := by
  -- Before anything is scheduled; then the events, the stop, and the null messages follow.
  let idle : NullMessageSimulatorImpl n :=
    ⟨[], 4, 0, false, 0, fun j => (System.bundleDelay channels i j).map fun delay => ⟨delay, 0, 0⟩⟩
  have hdelay {j : Fin (n + 1)} {b : RemoteChannelBundle} (hb : idle.bundles j = some b) :
      firstPromised channels i j = b.m_delay ∧ b.m_nullEventId = 0 := by
    obtain ⟨d, hd, rfl⟩ := Option.map_eq_some_iff.mp hb
    exact ⟨by rw [firstPromised, hd]; rfl, rfl⟩
  have hidle : Keeps tuned (List.finRange (n + 1)) idle (firstPromised channels i) := {
    inOrder := List.Pairwise.nil
    current_le := nofun
    current_le_safe := Nat.le_refl _
    safe_le := Nat.zero_le _
    safe_le_guarantee := fun _ _ _ => Nat.zero_le _
    promised_le_safe := fun j b hb => by
      rw [(hdelay hb).1]
      exact Nat.le_add_left _ _
    uid_lt := nofun
    nodup := nodup_nil
    bundled := nofun
    nullEventId_lt := fun j b hb => by
      rw [(hdelay hb).2]
      exact Nat.succ_pos 3
    nullEventId := fun j b _ hj => absurd (mem_finRange j) hj
    awaits := fun j b _ hj => absurd (mem_finRange j) hj }
  obtain ⟨hscheduled, hnow, hbundles⟩ := hidle.scheduleAll rfl scheduled
  have hstop : Keeps _ _ (NullMessageSimulatorImpl.Schedule _ stop .stop) _ := hscheduled.schedule
    (Nat.le_trans (Nat.le_of_eq hnow) (Nat.zero_le stop)) nofun
  obtain ⟨hkeeps, halike, hevents⟩ := hstop.initialize (nodup_finRange _)
  have hfirst : Alike idle
      ((scheduled.foldl (fun r ts => r.Schedule ts .handler) idle).Schedule stop .stop) := by
    intro j
    rw [show (NullMessageSimulatorImpl.Schedule _ stop .stop).bundles = idle.bundles from hbundles]
    exact ⟨rfl, rfl⟩
  have halike' := hfirst.trans halike
  have hmap (j : Fin (n + 1)) :
      (idle.bundles j).map m_delay = System.bundleDelay channels i j ∧
      (idle.bundles j).map m_guaranteeTime =
        (System.bundleDelay channels i j).map fun _ => 0 := by
    show Option.map _ (Option.map _ _) = _ ∧ Option.map _ (Option.map _ _) = _
    rw [Option.map_map, Option.map_map]
    exact ⟨congrFun Option.map_id _, rfl⟩
  refine ⟨⟨hkeeps, fun j b hb ev _ _ => ?_, fun _ => ?_⟩, fun j =>
    ⟨(halike' j).1.trans (hmap j).1, (halike' j).2.trans (hmap j).2⟩⟩
  · have hd : some b.m_delay = System.bundleDelay channels i j :=
      (congrArg (Option.map m_delay) hb).symm.trans
        ((halike' j).1.trans (hmap j).1)
    rw [firstPromised, ← hd]
    exact Nat.le_add_left _ _
  · exact ⟨_, hevents _ (mem_schedule.mpr (.inl rfl)), rfl⟩

end Beginning

end Ns3Joined.Mpi.NullMessage
