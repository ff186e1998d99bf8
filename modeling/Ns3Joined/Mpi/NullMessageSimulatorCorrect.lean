import Ns3Joined.Mpi.NullMessageSimulatorKeeps

/-!
# Promises between ranks are kept

A guarantee is calculated in the middle of a handler, from the events that are queued then. What
the handler asks for afterwards can undercut it: an event that is scheduled for a time before all
of these, or another packet.

* `Enabled`: the turns that the loop of `Run` can take, with handlers that the simulator allows.
* `Orderly`: a handler that has sent a packet asks for nothing before what was looked ahead to.
* `promises_kept`: over all runs whose handlers are orderly.
* `guarded_throughout`: the timers and the guarantees of these runs.
* `promise_undercut`: two packets in one handler, the second before what the first promised.
-/

namespace Ns3Joined.Mpi.NullMessage

open List Function Option

variable {n : ℕ}

/-! ### What is claimed -/

/-- No rank goes back in time, and none undercuts what it has told another. -/
structure Right (h : List (Action n)) : Prop where
  executed : ∀ i currentTs ts, .executed i currentTs ts ∈ h → currentTs ≤ ts
  received : ∀ i currentTs rxTime, .received i currentTs rxTime ∈ h → currentTs ≤ rxTime
  kept : ∀ i j message packet, TracedRun.Precedes h (.sent i j message) (.sent i j packet) →
    packet.rxTime ≠ 0 → message.guaranteeUpdate ≤ packet.rxTime

namespace System

/-- What a handler of rank `i` may ask for: it cancels no events but those of handlers, and a
packet goes over a channel of its own. -/
def Allowed (s : System n) (i : Fin (n + 1)) : Request n → Prop
  | .schedule ts => (s.ranks i).m_currentTs ≤ ts
  | .cancel uid | .remove uid =>
    ∀ ev ∈ (s.ranks i).m_events, ev.uid = uid → ev.kind = .handler ∨ ev.kind = .cancelled
  | .sendPacket channel _ => channel ∈ s.channels ∧ channel.IsRemoteAt i = true
  | .stop => True

/-- If the turn runs a handler, `P` holds of it when it begins. -/
def Handles (s : System n) (turn : Turn n) (P : System n → List (Request n) → Prop) :
    List (Event n) → Prop
  | [] => True
  | next :: rest => next.ts ≤ (s.ranks turn.rank).m_safeTime → next.kind = .handler →
    P (s.begin turn.rank next rest) turn.handler

/-- The turns that can be taken. A message is waited for if there is nothing safe to execute, and
the messages that are received are on their way. -/
def Enabled (s : System n) (turn : Turn n) : Prop :=
  (s.ranks turn.rank).IsFinished = false ∧
  (∀ j, turn.sources.count j ≤ (s.wires j turn.rank).length) ∧
  (∀ ev ∈ (s.ranks turn.rank).m_events.head?, (s.ranks turn.rank).m_safeTime < ev.ts →
    turn.sources.length = if ∃ j, ((s.ranks turn.rank).bundles j).isSome then 1 else 0) ∧
  s.Handles turn (fun s' handler =>
      TracedRun.Meets (serve turn.rank) (fun s'' _ request => s''.Allowed turn.rank request) s' []
        handler) (s.ranks turn.rank).m_events

end System

/-- A request is not for anything before `bound`, nor for a packet to rank `j` that is received
before `bound + delay`. -/
def Request.NotBefore (i j : Fin (n + 1)) (now bound delay : ℕ) : Request n → Prop
  | .schedule ts => bound ≤ ts
  | .sendPacket channel txTime =>
    channel.otherEnd i = j → bound + delay ≤ now + txTime + channel.delay
  | .cancel _ | .remove _ | .stop => True

namespace System

/-- If the request is for a packet, no request after it is before the next event and the safe
time, whichever comes first. -/
def Respects (s : System n) (i : Fin (n + 1)) (later : List (Request n)) : Request n → Prop
  | .sendPacket channel _ =>
    ∀ b ∈ (s.ranks i).bundles (channel.otherEnd i), ∀ ev ∈ (s.ranks i).m_events.head?,
      ∀ request ∈ later, request.NotBefore i (channel.otherEnd i) (s.ranks i).m_currentTs
        (min ev.ts (s.ranks i).m_safeTime) b.m_delay
  | .schedule _ | .cancel _ | .remove _ | .stop => True

/-- All packets of a handler are so respected. -/
def Orderly (i : Fin (n + 1)) : System n → List (Request n) → Prop
  | _, [] => True
  | s, request :: later => s.Respects i later request ∧
    ∀ s' actions, serve i s request = .ok (s', actions) → Orderly i s' later

end System

/-! ### Histories -/

/-- A guarantee, and a packet on the same bundle after it. -/
def Keeping (a b : Action n) : Prop :=
  ∀ i j message packet, a = .sent i j message → b = .sent i j packet →
    packet.rxTime ≠ 0 → message.guaranteeUpdate ≤ packet.rxTime

/-- What holds of a history after which `promised` is what the ranks have promised. -/
structure Told (h : List (Action n)) (promised : Fin (n + 1) → Fin (n + 1) → ℕ) : Prop where
  executed : ∀ i currentTs ts, .executed i currentTs ts ∈ h → currentTs ≤ ts
  received : ∀ i currentTs rxTime, .received i currentTs rxTime ∈ h → currentTs ≤ rxTime
  kept : h.Pairwise Keeping
  sent_le : ∀ i j message, .sent i j message ∈ h → message.guaranteeUpdate ≤ promised i j

section Told

variable {h : List (Action n)} {promised : Fin (n + 1) → Fin (n + 1) → ℕ} {i j : Fin (n + 1)}

/-- What was told so far is right. -/
theorem Told.right (htold : Told h promised) : Right h where
  __ := htold
  kept := fun i j message packet hbefore =>
    (hbefore.of_pairwise htold.kept) i j message packet rfl rfl

/-- Something happens that is not sent. -/
theorem Told.other (htold : Told h promised) {action : Action n}
    (hsent : ∀ i j message, action ≠ .sent i j message)
    (hexecuted : ∀ i currentTs ts, action = .executed i currentTs ts → currentTs ≤ ts)
    (hreceived : ∀ i currentTs rxTime, action = .received i currentTs rxTime →
      currentTs ≤ rxTime) : Told (h ++ [action]) promised where
  executed := fun i currentTs ts hmem => by
    obtain hmem | hmem := mem_append.mp hmem
    · exact htold.executed i currentTs ts hmem
    · exact hexecuted i currentTs ts (mem_singleton.mp hmem).symm
  received := fun i currentTs rxTime hmem => by
    obtain hmem | hmem := mem_append.mp hmem
    · exact htold.received i currentTs rxTime hmem
    · exact hreceived i currentTs rxTime (mem_singleton.mp hmem).symm
  kept := by
    refine pairwise_append.mpr ⟨htold.kept, pairwise_singleton _ _, ?_⟩
    intro a _ b hb i j message packet _ hpacket
    rw [mem_singleton.mp hb] at hpacket
    exact absurd hpacket (hsent i j packet)
  sent_le := fun i j message hmem => by
    obtain hmem | hmem := mem_append.mp hmem
    · exact htold.sent_le i j message hmem
    · exact absurd (mem_singleton.mp hmem).symm (hsent i j message)

/-- One more message keeps what was told, where it promises no less. -/
theorem Told.sent (htold : Told h promised) {message : Message}
    (hguarantee : promised i j ≤ message.guaranteeUpdate)
    (hrx : message.rxTime ≠ 0 → promised i j ≤ message.rxTime) :
    Told (h ++ [.sent i j message]) (promise promised i j message.guaranteeUpdate) where
  executed := fun i currentTs ts hmem => by
    obtain hmem | hmem := mem_append.mp hmem
    · exact htold.executed i currentTs ts hmem
    · cases mem_singleton.mp hmem
  received := fun i currentTs rxTime hmem => by
    obtain hmem | hmem := mem_append.mp hmem
    · exact htold.received i currentTs rxTime hmem
    · cases mem_singleton.mp hmem
  kept := by
    refine pairwise_append.mpr ⟨htold.kept, pairwise_singleton _ _, ?_⟩
    intro a ha b hb i' j' earlier packet hearlier hpacket hne
    rw [mem_singleton.mp hb] at hpacket
    cases hpacket
    rw [hearlier] at ha
    exact Nat.le_trans (htold.sent_le _ _ earlier ha) (hrx hne)
  sent_le := fun i' j' earlier hmem => by
    obtain hmem | hmem := mem_append.mp hmem
    · exact Nat.le_trans (htold.sent_le i' j' earlier hmem) (le_promise hguarantee)
    · cases mem_singleton.mp hmem
      exact Nat.le_of_eq promise_self.symm

end Told

/-! ### In a handler -/

/-- What holds of all ranks between two turns. -/
structure Holds (s : System n) (promised : Fin (n + 1) → Fin (n + 1) → ℕ) (h : List (Action n)) :
    Prop where
  links : Links s promised
  told : Told h promised
  waits : ∀ i, Waits s.tuned (s.ranks i) (promised i)

/-- What holds of all ranks while rank `i` is in a handler. -/
structure Busy (i : Fin (n + 1)) (s : System n) (promised : Fin (n + 1) → Fin (n + 1) → ℕ)
    (h : List (Action n)) : Prop where
  links : Links s promised
  told : Told h promised
  others : ∀ j, j ≠ i → Waits s.tuned (s.ranks j) (promised j)
  runs : Runs s.tuned (s.ranks i) (promised i)

/-- What is promised to a rank is no more than what the handler keeps off from now on. -/
def Bounded (i : Fin (n + 1)) (r : NullMessageSimulatorImpl n) (promised : Fin (n + 1) → ℕ)
    (requests : List (Request n)) : Prop :=
  ∀ j b, r.bundles j = some b → ∃ bound, promised j ≤ bound + b.m_delay ∧
    (bound ≤ r.m_currentTs ∨
      ∀ request ∈ requests, request.NotBefore i j r.m_currentTs bound b.m_delay)

variable {r : NullMessageSimulatorImpl n} {later : List (Request n)} {request : Request n}
  {i j : Fin (n + 1)} {turn : System.Turn n} {sources : List (Fin (n + 1))}
  {channels : List (Channel n)} {scheduled : Fin (n + 1) → List ℕ} {stop : Fin (n + 1) → ℕ}
  {tuned : ℕ → ℕ}

section Busy

variable {s : System n} {promised : Fin (n + 1) → Fin (n + 1) → ℕ} {h : List (Action n)}

/-- A busy rank is one way to hold the invariant. -/
theorem Busy.holds (hb : Busy i s promised h) : Holds s promised h where
  __ := hb
  waits := fun j => by
    by_cases hj : j = i
    · subst hj
      exact hb.runs.waits
    · exact hb.others j hj

/-- Changing the busy rank keeps the invariant where the rank runs on. -/
theorem Busy.setRank (hb : Busy i s promised h) (hr : Runs s.tuned r (promised i))
    (halike : Alike (s.ranks i) r) :
    Busy i (s.setRank i r) promised h where
  links := hb.links.setRank halike
  told := hb.told
  others := fun j hj => by
    rw [System.setRank_of_ne hj]
    exact hb.others j hj
  runs := by
    rw [System.setRank_self]
    exact hr

/-- The rest of a handler's requests is bounded where its first leaves the bundles and the clock. -/
theorem Bounded.tail {r' : NullMessageSimulatorImpl n} {promised : Fin (n + 1) → ℕ}
    (h : Bounded i r promised (request :: later)) (hbundles : r'.bundles = r.bundles)
    (hnow : r'.m_currentTs = r.m_currentTs) : Bounded i r' promised later := by
  intro j b hb
  obtain ⟨bound, hle, hlater⟩ := h j b (hbundles ▸ hb)
  rw [hnow]
  exact ⟨bound, hle, hlater.imp_right fun hall request' hmem =>
    hall request' (mem_cons_of_mem _ hmem)⟩

/-- What is promised is kept by the request that comes next. -/
theorem Bounded.head {promised : Fin (n + 1) → ℕ} (h : Bounded i r promised (request :: later))
    {b : RemoteChannelBundle} (hb : r.bundles j = some b) :
    ∃ bound, promised j ≤ bound + b.m_delay ∧
      (bound ≤ r.m_currentTs ∨ request.NotBefore i j r.m_currentTs bound b.m_delay) := by
  obtain ⟨bound, hle, hlater⟩ := h j b hb
  exact ⟨bound, hle, hlater.imp_right fun hall => hall request mem_cons_self⟩

/-- A packet is sent. -/
theorem Busy.sendPacket (hb : Busy i s promised h) {channel : Channel n} {txTime : ℕ}
    (hallowed : s.Allowed i (.sendPacket channel txTime))
    (hbounded : Bounded i (s.ranks i) (promised i) (.sendPacket channel txTime :: later))
    (hrespects : s.Respects i later (.sendPacket channel txTime)) :
    ∃ s' actions promised', s.SendPacket i channel txTime = .ok (s', actions) ∧
      Busy i s' promised' (h ++ actions) ∧ Bounded i (s'.ranks i) (promised' i) later ∧
      ∀ j, (s.wires j i).length ≤ (s'.wires j i).length := by
  obtain ⟨hch, hremote⟩ := hallowed
  obtain ⟨d, hd, hdle⟩ := System.bundleDelay_le hch hremote
  rw [← hb.links.delays] at hd
  obtain ⟨b, hbundle, rfl⟩ := map_eq_some_iff.mp hd
  obtain ⟨next, hnext, hguarantee, hpromised, hruns⟩ := hb.runs.sendPacket hbundle
  have hrx : promised i (channel.otherEnd i) ≤
      (s.ranks i).m_currentTs + txTime + channel.delay := by
    obtain ⟨bound, hle, hbound | hbound⟩ := hbounded.head hbundle
    · omega
    · exact Nat.le_trans hle (hbound rfl)
  have hhead : ∃ ev, (s.ranks i).m_events.head? = some ev ∧ ev.ts = next := by
    unfold NullMessageSimulatorImpl.Next at hnext
    split at hnext
    · cases hnext
    · rename_i ev rest hevents
      rw [hevents]
      exact ⟨ev, rfl, Except.ok.inj hnext⟩
  obtain ⟨ev, hev, rfl⟩ := hhead
  -- The packet, which promises as much as the rank's next event allows.
  let message : Message := ⟨(s.ranks i).m_currentTs + txTime + channel.delay,
    min ev.ts (s.ranks i).m_safeTime + b.m_delay⟩
  have hsend : s.SendPacket i channel txTime =
      .ok ((s.send i (channel.otherEnd i) message).setRank i
        ((s.ranks i).RescheduleNullMessageEvent s.tuned (channel.otherEnd i) b),
        [.sent i (channel.otherEnd i) message]) := by
    unfold System.SendPacket
    dsimp only
    rw [hbundle]
    dsimp only
    rw [hguarantee]
    rfl
  have hlinks : Links (s.send i (channel.otherEnd i) message)
      (promise promised i (channel.otherEnd i) message.guaranteeUpdate) :=
    hb.links.send hbundle hpromised fun _ => hrx
  refine ⟨_, _, _, hsend, ⟨hlinks.setRank ?_, hb.told.sent hpromised fun _ => hrx, fun j hj => ?_,
    ?_⟩, ?_, fun j => ?_⟩
  · exact Alike.scheduleNull s.tuned (r := (s.ranks i).Cancel b.m_nullEventId) hbundle
  · rw [System.setRank_of_ne hj, promise_of_row_ne hj]
    exact hb.others j hj
  · rw [System.setRank_self, promise_row]
    exact hruns
  · rw [System.setRank_self, promise_row]
    intro k b' hb'
    obtain ⟨b₀, hb₀, hdelay, -⟩ :=
      scheduleNull_bundles (r := (s.ranks i).Cancel b.m_nullEventId) s.tuned hbundle hb'
    rw [hdelay]
    -- The timer of the channel's own bundle starts anew, the others run on.
    by_cases hk : k = channel.otherEnd i
    · subst hk
      cases hbundle.symm.trans hb₀
      rw [update_self]
      exact ⟨_, Nat.le_refl _, .inr fun request hmem => hrespects b hbundle ev hev request hmem⟩
    · rw [update_of_ne hk]
      obtain ⟨bound, hle, hlater⟩ := hbounded k b₀ hb₀
      exact ⟨bound, hle, hlater.imp_right fun hall request hmem =>
        hall request (mem_cons_of_mem _ hmem)⟩
  · show _ ≤ ((s.send i (channel.otherEnd i) _).wires j i).length
    by_cases hj : j = i ∧ i = channel.otherEnd i
    · obtain ⟨rfl, hj⟩ := hj
      unfold System.send
      rw [← hj, System.setWire_self, length_append]
      exact Nat.le_add_right _ _
    · exact Nat.le_of_eq (congrArg List.length (System.setWire_of_ne hj)).symm

/-- One request of a handler. -/
theorem Busy.serve (hb : Busy i s promised h) (hallowed : s.Allowed i request)
    (hbounded : Bounded i (s.ranks i) (promised i) (request :: later))
    (hrespects : s.Respects i later request) :
    ∃ s' actions promised', System.serve i s request = .ok (s', actions) ∧
      Busy i s' promised' (h ++ actions) ∧ Bounded i (s'.ranks i) (promised' i) later ∧
      ∀ j, (s.wires j i).length ≤ (s'.wires j i).length := by
  -- all but a packet concern the rank alone
  have hown {r : NullMessageSimulatorImpl n} (hr : Runs s.tuned r (promised i))
      (hbundles : r.bundles = (s.ranks i).bundles) (hnow : r.m_currentTs = (s.ranks i).m_currentTs)
      (hserve : System.serve i s request = .ok (s.setRank i r, [])) :
      ∃ s' actions promised', System.serve i s request = .ok (s', actions) ∧
        Busy i s' promised' (h ++ actions) ∧ Bounded i (s'.ranks i) (promised' i) later ∧
        ∀ j, (s.wires j i).length ≤ (s'.wires j i).length := by
    refine ⟨_, _, promised, hserve, ?_, ?_, fun j => Nat.le_refl _⟩
    · rw [append_nil]
      exact hb.setRank hr fun k => by rw [hbundles]; exact ⟨rfl, rfl⟩
    · rw [System.setRank_self]
      exact hbounded.tail hbundles hnow
  cases request with
  | schedule ts =>
    refine hown (hb.runs.schedule hallowed fun j b hbundle => ?_) rfl rfl rfl
    obtain ⟨bound, hle, hbound | hbound⟩ := hbounded.head hbundle
    · exact Nat.le_trans hle (Nat.add_le_add_right (Nat.le_trans hbound hallowed) _)
    · exact Nat.le_trans hle (Nat.add_le_add_right hbound _)
  | cancel uid => exact hown (hb.runs.cancel hallowed) rfl rfl rfl
  | remove uid => exact hown (hb.runs.remove hallowed) rfl rfl rfl
  | sendPacket channel txTime => exact hb.sendPacket hallowed hbounded hrespects
  | stop => exact hown hb.runs.stop rfl rfl rfl

/-- A whole handler. -/
theorem Busy.run (hb : Busy i s promised h) {handler : List (Request n)} {told : List (Action n)}
    (hallowed : TracedRun.Meets (System.serve i) (fun s' _ request => s'.Allowed i request) s told
      handler)
    (hbounded : Bounded i (s.ranks i) (promised i) handler)
    (horderly : System.Orderly i s handler) :
    ∃ s' actions promised', TracedRun.run (System.serve i) s handler = .ok (s', actions) ∧
      Busy i s' promised' (h ++ actions) ∧ ∀ j, (s.wires j i).length ≤ (s'.wires j i).length := by
  induction handler generalizing s promised h told with
  | nil =>
    refine ⟨s, [], promised, rfl, ?_, fun j => Nat.le_refl _⟩
    rw [append_nil]
    exact hb
  | cons request later ih =>
    obtain ⟨s₁, actions₁, promised₁, hserve, hb₁, hbounded₁, hlength₁⟩ :=
      hb.serve hallowed.1 hbounded horderly.1
    obtain ⟨s₂, actions₂, promised₂, hrun, hb₂, hlength₂⟩ :=
      ih hb₁ (hallowed.2 s₁ actions₁ hserve) hbounded₁ (horderly.2 s₁ actions₁ hserve)
    refine ⟨s₂, actions₁ ++ actions₂, promised₂, ?_, ?_,
      fun j => Nat.le_trans (hlength₁ j) (hlength₂ j)⟩
    · rw [TracedRun.run, hserve]
      dsimp only
      rw [hrun]
      rfl
    · rw [← append_assoc]
      exact hb₂

end Busy

/-! ### A turn -/

section Turn

variable {s : System n} {promised : Fin (n + 1) → Fin (n + 1) → ℕ} {h : List (Action n)}

section

variable (hs : Holds s promised h)

include hs

/-- A null message is sent, and the next one scheduled. -/
theorem Holds.nullMessageEventHandler {j : Fin (n + 1)} {next : Event n} {rest : List (Event n)}
    (hevents : (s.ranks i).m_events = next :: rest) (hsafe : next.ts ≤ (s.ranks i).m_safeTime)
    (hkind : next.kind = .nullMessage j) (hrunning : (s.ranks i).m_stop = false)
    {told : List (Action n)} (htold : Told told promised) :
    ∃ s' actions promised', (s.begin i next rest).NullMessageEventHandler i j = .ok (s', actions) ∧
      Holds s' promised' (told ++ actions) ∧
      ∀ k, (s.wires k i).length ≤ (s'.wires k i).length := by
  obtain ⟨b, time, hb, hguarantee, hle, hnull⟩ :=
    (hs.waits i).nullMessage hevents hsafe hkind hrunning
  have hrank : (s.begin i next rest).ranks i =
    { s.ranks i with m_events := rest, m_currentTs := next.ts } := System.setRank_self
  have hbundle : ((s.begin i next rest).ranks i).bundles j = some b := by
    rw [hrank]
    exact hb
  have hsend : (s.begin i next rest).NullMessageEventHandler i j =
      .ok (((s.begin i next rest).send i j ⟨0, time⟩).setRank i
        (((s.begin i next rest).ranks i).ScheduleNullMessageEvent s.tuned j b),
        [.sent i j ⟨0, time⟩]) := by
    unfold System.NullMessageEventHandler
    rw [hbundle]
    dsimp only
    rw [hrank, hguarantee]
    rfl
  have hbegun : Links (s.begin i next rest) promised := hs.links.setRank .rfl
  have hlinks : Links ((s.begin i next rest).send i j ⟨0, time⟩) (promise promised i j time) :=
    hbegun.send hbundle hle fun hne => absurd rfl hne
  refine ⟨_, _, _, hsend, ⟨hlinks.setRank (Alike.scheduleNull s.tuned hbundle),
    htold.sent hle fun hne => absurd rfl hne, fun k => ?_⟩, fun k => ?_⟩
  · -- the others wait for what they waited for
    by_cases hk : k = i
    · subst hk
      rw [System.setRank_self, promise_row, hrank]
      exact hnull
    · rw [System.setRank_of_ne hk, promise_of_row_ne hk]
      have hrank' : ((s.begin i next rest).send i j ⟨0, time⟩).ranks k = s.ranks k :=
        System.setRank_of_ne hk
      rw [hrank']
      exact hs.waits k
  · show _ ≤ (((s.begin i next rest).send i j ⟨0, time⟩).wires k i).length
    by_cases hk : k = i ∧ i = j
    · obtain ⟨rfl, rfl⟩ := hk
      unfold System.send
      rw [System.setWire_self, length_append]
      exact Nat.le_add_right _ _
    · exact Nat.le_of_eq (congrArg List.length (System.setWire_of_ne hk)).symm

/-- An event is executed. -/
theorem Holds.processOneEvent {next : Event n} {rest : List (Event n)}
    (hevents : (s.ranks turn.rank).m_events = next :: rest)
    (hsafe : next.ts ≤ (s.ranks turn.rank).m_safeTime)
    (hrunning : (s.ranks turn.rank).m_stop = false)
    (hallowed : s.Handles turn (fun s' handler => TracedRun.Meets (System.serve turn.rank)
      (fun s'' _ request => s''.Allowed turn.rank request) s' [] handler) (next :: rest))
    (horderly : s.Handles turn (System.Orderly turn.rank) (next :: rest)) :
    ∃ s' actions promised', s.ProcessOneEvent turn.rank turn.handler = .ok (s', actions) ∧
      Holds s' promised' (h ++ actions) ∧
      ∀ j, (s.wires j turn.rank).length ≤ (s'.wires j turn.rank).length := by
  obtain ⟨i, handler, sources⟩ := turn
  dsimp only at hevents hsafe hrunning ⊢
  have hwaits := hs.waits i
  have hcurrent : (s.ranks i).m_currentTs ≤ next.ts :=
    hwaits.keeps.current_le next (hevents ▸ mem_cons_self)
  -- what is left is to invoke the event
  have hinvoke (hinvoke : ∃ s' actions promised',
      (s.begin i next rest).invoke i handler next.kind = .ok (s', actions) ∧
      Holds s' promised' ((h ++ [.executed i (s.ranks i).m_currentTs next.ts]) ++ actions) ∧
      ∀ j, (s.wires j i).length ≤ (s'.wires j i).length) :
      ∃ s' actions promised', s.ProcessOneEvent i handler = .ok (s', actions) ∧
        Holds s' promised' (h ++ actions) ∧
        ∀ j, (s.wires j i).length ≤ (s'.wires j i).length := by
    obtain ⟨s', actions, promised', hok, hholds, hlength⟩ := hinvoke
    refine ⟨s', .executed i (s.ranks i).m_currentTs next.ts :: actions, promised', ?_, ?_, hlength⟩
    · unfold System.ProcessOneEvent
      rw [hevents]
      dsimp only
      rw [if_neg (Nat.not_lt.mpr hcurrent), hok]
      rfl
    · rw [append_assoc] at hholds
      exact hholds
  have htold : Told (h ++ [.executed i (s.ranks i).m_currentTs next.ts]) promised :=
    hs.told.other nofun (fun _ _ _ heq => by cases heq; exact hcurrent) nofun
  have halike : Alike (s.ranks i) { s.ranks i with m_events := rest, m_currentTs := next.ts } :=
      .rfl
  have hothers {r : NullMessageSimulatorImpl n} (hr : Waits s.tuned r (promised i)) (j) :
      Waits s.tuned ((s.setRank i r).ranks j) (promised j) := by
    by_cases hj : j = i
    · subst hj
      rw [System.setRank_self]
      exact hr
    · rw [System.setRank_of_ne hj]
      exact hs.waits j
  -- One case for each kind of event.
  refine hinvoke ?_
  cases hkind : next.kind with
  | handler =>
    obtain ⟨hruns, hnow⟩ := hwaits.begin_handler hevents hsafe hkind hrunning
    have hbusy : Busy i (s.begin i next rest) promised
        (h ++ [.executed i (s.ranks i).m_currentTs next.ts]) := {
      links := hs.links.setRank halike
      told := htold
      others := fun j hj => by
        have hrank : (s.begin i next rest).ranks j = s.ranks j := System.setRank_of_ne hj
        rw [hrank]
        exact hs.waits j
      runs := by
        have hrank : (s.begin i next rest).ranks i =
          { s.ranks i with m_events := rest, m_currentTs := next.ts } := System.setRank_self
        rw [hrank]
        exact hruns }
    obtain ⟨s', actions, promised', hrun, hbusy', hlength⟩ :=
      hbusy.run (hallowed hsafe hkind) (fun j b hb => by
        have hrank : (s.begin i next rest).ranks i =
          { s.ranks i with m_events := rest, m_currentTs := next.ts } := System.setRank_self
        rw [hrank] at hb ⊢
        exact ⟨next.ts, hnow j b hb, .inl (Nat.le_refl _)⟩) (horderly hsafe hkind)
    exact ⟨s', actions, promised', hrun, hbusy'.holds, hlength⟩
  | nullMessage j =>
    exact hs.nullMessageEventHandler hevents hsafe hkind hrunning htold
  | stop =>
    have hrank : (s.begin i next rest).ranks i =
      { s.ranks i with m_events := rest, m_currentTs := next.ts } := System.setRank_self
    have hstop := hwaits.begin_idle hevents hsafe (fun k => by rw [hkind]; nofun) true
      (fun _ => rfl) nofun
    have hset : (s.begin i next rest).setRank i
        { (s.begin i next rest).ranks i with m_stop := true } = s.setRank i
          { s.ranks i with m_events := rest, m_currentTs := next.ts, m_stop := true } := by
      rw [hrank]
      unfold System.begin System.setRank
      dsimp only
      rw [update_idem]
    refine ⟨s.setRank i { s.ranks i with m_events := rest, m_currentTs := next.ts, m_stop := true },
      [], promised, ?_, ⟨hs.links.setRank .rfl, ?_, hothers hstop⟩, fun _ => Nat.le_refl _⟩
    · rw [← hset]
      rfl
    · rw [append_nil]
      exact htold
  | cancelled =>
    have hidle := hwaits.begin_idle hevents hsafe (fun k => by rw [hkind]; nofun)
      (s.ranks i).m_stop (fun heq => by rw [hkind] at heq; cases heq) id
    refine ⟨s.begin i next rest, [], promised, rfl, ⟨hs.links.setRank halike, ?_, ?_⟩,
      fun _ => Nat.le_refl _⟩
    · rw [append_nil]
      exact htold
    · exact hothers hidle

/-- A message is received. -/
theorem Holds.receive {source : Fin (n + 1)} (hne : 0 < (s.wires source i).length) :
    ∃ s' actions, System.receive i s source = .ok (s', actions) ∧
      Holds s' promised (h ++ actions) ∧ ∀ j, (s'.wires j i).length =
        (s.wires j i).length - if j = source then 1 else 0 := by
  match hwire : s.wires source i with
  | [] =>
    rw [hwire] at hne
    cases hne
  | message :: messages =>
    match hb : (s.ranks i).bundles source with
    | none =>
      rw [hs.links.empty source i hb] at hwire
      cases hwire
    | some b =>
      have hwaits := hs.waits i
      obtain ⟨hguarantee, hrx, hpromise⟩ := hwire ▸ hs.links.wires source i b hb
      have hsafe := hwaits.keeps.safe_le_guarantee source b hb
      have hcurrent := Nat.le_trans hwaits.keeps.current_le_safe hsafe
      -- the state afterwards, whether a packet has come or not
      have hkeeps {r : NullMessageSimulatorImpl n} (hr : Waits s.tuned r (promised i))
          (hbundles : r.bundles = (s.ranks i).bundles) {h' : List (Action n)}
          (htold : Told h' promised) :
          Holds ((s.setWire source i messages).setRank i
            (r.setBundle source { b with m_guaranteeTime := message.guaranteeUpdate }))
            promised h' := {
        links := hs.links.receive hbundles hb hpromise
        told := htold
        waits := fun j => by
          by_cases hj : j = i
          · subst hj
            rw [System.setRank_self]
            exact hr.setGuaranteeTime (hbundles ▸ hb) hguarantee
          · rw [System.setRank_of_ne hj]
            exact hs.waits j }
      have hlength (j : Fin (n + 1)) : ((s.setWire source i messages).wires j i).length =
          (s.wires j i).length - if j = source then 1 else 0 := by
        split_ifs with hj
        · subst hj
          rw [System.setWire_self, hwire]
          rfl
        · rw [System.setWire_of_ne fun hk => hj hk.1]
          rfl
      have hreceive : System.receive i s source =
          if message.guaranteeUpdate < (s.ranks i).m_currentTs then .error .abort
          else if message.rxTime = 0 then
            .ok ((s.setWire source i messages).setRank i ((s.ranks i).setBundle source
              { b with m_guaranteeTime := message.guaranteeUpdate }), [])
          else if message.rxTime < (s.ranks i).m_currentTs then .error .abort
          else
            .ok ((s.setWire source i messages).setRank i
              (((s.ranks i).Schedule message.rxTime .handler).setBundle source
                { b with m_guaranteeTime := message.guaranteeUpdate }),
              [.received i (s.ranks i).m_currentTs message.rxTime]) := by
        unfold System.receive
        dsimp only
        rw [hwire, hb]
      rw [hreceive, if_neg (Nat.not_lt.mpr (Nat.le_trans hcurrent hguarantee))]
      by_cases hnull : message.rxTime = 0
      · rw [if_pos hnull]
        refine ⟨_, _, rfl, ?_, hlength⟩
        rw [append_nil]
        exact hkeeps hwaits rfl hs.told
      · have hlate := Nat.le_trans hcurrent (hrx hnull)
        rw [if_neg hnull, if_neg (Nat.not_lt.mpr hlate)]
        refine ⟨_, _, rfl, ?_, hlength⟩
        refine hkeeps (hwaits.schedule (Nat.le_trans hsafe (hrx hnull))) rfl ?_
        exact hs.told.other nofun nofun fun _ _ _ heq => by cases heq; exact hlate

/-- Messages are received as far as they have come. -/
theorem Holds.receiveAll (hcount : ∀ j, sources.count j ≤ (s.wires j i).length) :
    ∃ s' actions, TracedRun.run (System.receive i) s sources = .ok (s', actions) ∧
      Holds s' promised (h ++ actions) := by
  induction sources generalizing s h with
  | nil =>
    refine ⟨s, [], rfl, ?_⟩
    rw [append_nil]
    exact hs
  | cons source sources ih =>
    have hsource := hcount source
    rw [count_cons_self] at hsource
    obtain ⟨s₁, actions₁, hreceive, hs₁, hlength⟩ := hs.receive (i := i) (Nat.lt_of_lt_of_le
      (Nat.succ_pos _) hsource)
    obtain ⟨s₂, actions₂, hrun, hs₂⟩ := ih hs₁ fun j => by
      have hj := hcount j
      rw [hlength]
      rw [count_cons] at hj
      by_cases hne : j = source
      · rw [if_pos hne]
        rw [if_pos (beq_iff_eq.mpr hne.symm)] at hj
        exact Nat.le_sub_of_add_le hj
      · rw [if_neg hne]
        exact Nat.le_trans (Nat.le_add_right _ _) hj
    refine ⟨s₂, actions₁ ++ actions₂, ?_, ?_⟩
    · rw [TracedRun.run, hreceive]
      dsimp only
      rw [hrun]
      rfl
    · rw [← append_assoc]
      exact hs₂

/-- Handling the messages that came succeeds and keeps the invariant. -/
theorem Holds.handleArrivingMessages (hcount : ∀ j, sources.count j ≤ (s.wires j i).length) :
    ∃ s' actions, s.HandleArrivingMessages i sources = .ok (s', actions) ∧
      Holds s' promised (h ++ actions) := by
  obtain ⟨s₁, actions, hrun, hs₁⟩ := hs.receiveAll hcount
  have hwaits := hs₁.waits i
  have hsafe := Nat.le_trans hwaits.keeps.current_le_safe hwaits.safe_le_getSafeTime
  refine ⟨_, actions, ?_, ⟨hs₁.links.setRank
    (r := { s₁.ranks i with m_safeTime := (s₁.ranks i).GetSafeTime }) .rfl, hs₁.told,
    fun j => ?_⟩⟩
  · unfold System.HandleArrivingMessages System.CalculateSafeTime
    rw [hrun]
    show (if _ then _ else _ : Except Fault (System n)).bind _ = _
    rw [if_neg (Nat.not_lt.mpr hsafe)]
    rfl
  · by_cases hj : j = i
    · subst hj
      rw [System.setRank_self]
      exact hwaits.calculateSafeTime
    · rw [System.setRank_of_ne hj]
      exact hs₁.waits j

/-- A turn of the loop. -/
theorem Holds.step (henabled : s.Enabled turn)
    (horderly : s.Handles turn (System.Orderly turn.rank) (s.ranks turn.rank).m_events) :
    ∃ s' actions promised', s.step turn = .ok (s', actions) ∧
      Holds s' promised' (h ++ actions) := by
  obtain ⟨hfinished, hcount, -, hallowed⟩ := henabled
  have hrunning := hfinished
  unfold NullMessageSimulatorImpl.IsFinished at hrunning
  rw [Bool.or_eq_false_iff] at hrunning
  match hevents : (s.ranks turn.rank).m_events with
  | [] =>
    rw [hevents] at hrunning
    cases hrunning.1
  | next :: rest =>
    have hnext : (s.ranks turn.rank).Next = .ok next.ts := by
      unfold NullMessageSimulatorImpl.Next
      rw [hevents]
    have hstep : s.step turn =
        if next.ts ≤ (s.ranks turn.rank).m_safeTime then do
          let r ← s.ProcessOneEvent turn.rank turn.handler
          let r' ← r.1.HandleArrivingMessages turn.rank turn.sources
          .ok (r'.1, r.2 ++ r'.2)
        else s.HandleArrivingMessages turn.rank turn.sources := by
      unfold System.step
      dsimp only
      rw [if_neg (by rw [hfinished]; exact Bool.false_ne_true), hnext]
      rfl
    rw [hstep]
    rw [hevents] at hallowed horderly
    by_cases hsafe : next.ts ≤ (s.ranks turn.rank).m_safeTime
    · rw [if_pos hsafe]
      obtain ⟨s₁, actions₁, promised', hprocess, hs₁, hlength⟩ :=
        hs.processOneEvent hevents hsafe hrunning.2 hallowed horderly
      obtain ⟨s₂, actions₂, hreceive, hs₂⟩ := hs₁.handleArrivingMessages
        fun j => Nat.le_trans (hcount j) (hlength j)
      refine ⟨s₂, actions₁ ++ actions₂, promised', ?_, ?_⟩
      · rw [hprocess]
        show (s₁.HandleArrivingMessages turn.rank turn.sources).bind _ = _
        rw [hreceive]
        rfl
      · rw [← append_assoc]
        exact hs₂
    · rw [if_neg hsafe]
      obtain ⟨s', actions, hreceive, hs'⟩ := hs.handleArrivingMessages hcount
      exact ⟨s', actions, promised, hreceive, hs'⟩

end

end Turn

/-! ### Runs -/

namespace System

/-- A packet that the turn's handler sends is respected by what it asks for afterwards. -/
def OrderlyTurn (s : System n) (turn : Turn n) : Prop :=
  s.Handles turn (Orderly turn.rank) (s.ranks turn.rank).m_events

/-- At the start the first null message of a bundle is on its way. -/
theorem run_wires_of_some {delay : ℕ} (hdelay : bundleDelay channels i j = some delay) :
    (run channels tuned scheduled stop).wires i j = [⟨0, delay⟩] := by
  unfold run
  dsimp only
  rw [hdelay]

/-- Where there is no bundle nothing is on its way. -/
theorem run_wires_of_none (hdelay : bundleDelay channels i j = none) :
    (run channels tuned scheduled stop).wires i j = [] := by
  unfold run
  dsimp only
  rw [hdelay]

/-- Every start of the simulation holds the invariant. -/
theorem run_holds (channels : List (Channel n)) (tuned : ℕ → ℕ) (scheduled : Fin (n + 1) → List ℕ)
    (stop : Fin (n + 1) → ℕ) :
    Holds (run channels tuned scheduled stop) (firstPromised channels)
      (firstMessages channels) := by
  have hrank (i : Fin (n + 1)) := initialize_waits tuned channels (scheduled i) (stop i) i
  -- the first messages are null messages
  have hfirst {action : Action n} (hmem : action ∈ firstMessages channels) :
      ∃ i j, action = .sent i j ⟨0, firstPromised channels i j⟩ := by
    obtain ⟨i, -, hmem⟩ := mem_flatMap.mp hmem
    obtain ⟨j, -, hmem⟩ := mem_filterMap.mp hmem
    obtain ⟨d, hd, rfl⟩ := map_eq_some_iff.mp hmem
    exact ⟨i, j, by rw [firstPromised, hd]; rfl⟩
  exact {
    links := {
      delays := fun i j => ((hrank i).2 j).1
      wires := fun i j b hb => by
        have hguarantee : some b.m_guaranteeTime = (bundleDelay channels j i).map fun _ => 0 :=
          (congrArg (Option.map RemoteChannelBundle.m_guaranteeTime) hb).symm.trans
            ((hrank j).2 i).2
        obtain ⟨d, hd, hzero⟩ := map_eq_some_iff.mp hguarantee.symm
        rw [bundleDelay_symm] at hd
        rw [run_wires_of_some hd, firstPromised, hd, ← hzero]
        exact ⟨Nat.zero_le _, fun _ => Nat.zero_le _, rfl⟩
      empty := fun i j hnone => by
        have hdelay : none = bundleDelay channels j i :=
          (congrArg (Option.map RemoteChannelBundle.m_delay) hnone).symm.trans ((hrank j).2 i).1
        rw [bundleDelay_symm] at hdelay
        exact run_wires_of_none hdelay.symm }
    told := {
      executed := fun i currentTs ts hmem => by
        obtain ⟨_, _, heq⟩ := hfirst hmem
        cases heq
      received := fun i currentTs rxTime hmem => by
        obtain ⟨_, _, heq⟩ := hfirst hmem
        cases heq
      kept := by
        refine pairwise_of_forall_mem_list fun a _ b hb i j message packet _ hpacket hne => ?_
        obtain ⟨_, _, heq⟩ := hfirst hb
        rw [hpacket] at heq
        cases heq
        exact absurd rfl hne
      sent_le := fun i j message hmem => by
        obtain ⟨_, _, heq⟩ := hfirst hmem
        cases heq
        exact Nat.le_refl _ }
    waits := fun i => (hrank i).1 }

/-- A run of orderly turns keeps the invariant, with the promises made on the way. -/
theorem throughout_holds (channels : List (Channel n)) (tuned : ℕ → ℕ)
    (scheduled : Fin (n + 1) → List ℕ) (stop : Fin (n + 1) → ℕ) (turns : List (Turn n))
    (hmeets : TracedRun.Meets step (fun s _ turn => s.Enabled turn ∧ s.OrderlyTurn turn)
      (run channels tuned scheduled stop) (firstMessages channels) turns) :
    TracedRun.Throughout step (fun s h => ∃ promised, Holds s promised h)
      (run channels tuned scheduled stop) (firstMessages channels) turns := by
  refine TracedRun.throughout_of_meets (J := fun s h => ∃ promised, Holds s promised h) ?_ ?_
    ⟨_, run_holds channels tuned scheduled stop⟩ hmeets
  · intro s h turn hs hturn
    obtain ⟨promised, hholds⟩ := hs
    obtain ⟨s', actions, promised', hok, hholds'⟩ := hholds.step hturn.1 hturn.2
    exact ⟨s', actions, hok, promised', hholds'⟩
  · intro s h hs
    exact hs

/-- **Promises are kept**, for any channels, tuning and handlers, and whichever rank takes the next
turn with whichever messages, if what a handler asks for after a packet is for nothing before the
time that the packet's guarantee was calculated from: every call returns, no event is executed and
no packet received too late, and no guarantee is undercut. -/
theorem promises_kept (channels : List (Channel n)) (tuned : ℕ → ℕ)
    (scheduled : Fin (n + 1) → List ℕ) (stop : Fin (n + 1) → ℕ) (turns : List (Turn n))
    (hmeets : TracedRun.Meets step (fun s _ turn => s.Enabled turn ∧ s.OrderlyTurn turn)
      (run channels tuned scheduled stop) (firstMessages channels) turns) :
    TracedRun.Throughout step (fun _ => Right) (run channels tuned scheduled stop)
      (firstMessages channels) turns := by
  refine (throughout_holds channels tuned scheduled stop turns hmeets).mono ?_
  intro s h hs
  obtain ⟨promised, hholds⟩ := hs
  exact hholds.told.right

instance (s : System n) (i : Fin (n + 1)) (request : Request n) :
    Decidable (s.Allowed i request) :=
  match request with
  | .schedule _ => inferInstanceAs (Decidable (_ ≤ _))
  | .cancel _ | .remove _ => inferInstanceAs (Decidable (∀ _ ∈ _, _ = _ → _ = _ ∨ _ = _))
  | .sendPacket _ _ => inferInstanceAs (Decidable (_ ∈ _ ∧ _ = _))
  | .stop => .isTrue trivial

instance (s : System n) (turn : Turn n) (P : System n → List (Request n) → Prop)
    [∀ s' handler, Decidable (P s' handler)] (events : List (Event n)) :
    Decidable (s.Handles turn P events) :=
  match events with
  | [] => .isTrue trivial
  | next :: rest => inferInstanceAs (Decidable (_ ≤ _ → next.kind = _ →
      P (s.begin turn.rank next rest) turn.handler))

instance (s : System n) (turn : Turn n) : Decidable (s.Enabled turn) :=
  inferInstanceAs (Decidable (_ = _ ∧ (∀ j, _ ≤ (s.wires j turn.rank).length) ∧
    (∀ ev ∈ (s.ranks turn.rank).m_events.head?, _ < ev.ts →
      _ = if ∃ j, ((s.ranks turn.rank).bundles j).isSome then 1 else 0) ∧ Handles s turn _ _))

instance (i j : Fin (n + 1)) (now bound delay : ℕ) (request : Request n) :
    Decidable (request.NotBefore i j now bound delay) :=
  match request with
  | .schedule _ => inferInstanceAs (Decidable (_ ≤ _))
  | .sendPacket _ _ => inferInstanceAs (Decidable (_ = _ → _ ≤ _))
  | .cancel _ | .remove _ | .stop => .isTrue trivial

instance (s : System n) (i : Fin (n + 1)) (later : List (Request n)) (request : Request n) :
    Decidable (s.Respects i later request) :=
  match request with
  | .sendPacket channel _ => inferInstanceAs (Decidable
      (∀ b ∈ (s.ranks i).bundles (channel.otherEnd i), ∀ ev ∈ (s.ranks i).m_events.head?,
        ∀ request ∈ later, request.NotBefore i (channel.otherEnd i) (s.ranks i).m_currentTs
          (min ev.ts (s.ranks i).m_safeTime) b.m_delay))
  | .schedule _ | .cancel _ | .remove _ | .stop => .isTrue trivial

instance decidableOrderly (i : Fin (n + 1)) (s : System n) (handler : List (Request n)) :
    Decidable (Orderly i s handler) :=
  match handler with
  | [] => .isTrue trivial
  | request :: later =>
    have : Decidable (∀ s' actions, serve i s request = .ok (s', actions) → Orderly i s' later) :=
      match hserve : serve i s request with
      | .error _ => .isTrue fun _ _ hok => nomatch hok
      | .ok (s', _) =>
        have := decidableOrderly i s' later
        decidable_of_iff (Orderly i s' later)
          ⟨fun horderly _ _ hok => by cases hok; exact horderly, fun horderly => horderly _ _ rfl⟩
    inferInstanceAs (Decidable (_ ∧ _))

instance (s : System n) (turn : Turn n) : Decidable (s.OrderlyTurn turn) :=
  inferInstanceAs (Decidable (Handles s turn _ _))

/-- Two channels between two ranks. -/
def twoLinks : List (Channel 1) := (List.finRange 2).map fun i => ⟨i, i.rev, 5⟩

/-- A packet is sent, and received beside null messages. -/
theorem promises_kept_two :
    TracedRun.Throughout step (fun _ => Right)
      (run twoLinks id (fun i => if i = 0 then [1] else []) fun _ => 20) (firstMessages twoLinks)
      [⟨0, [], [1]⟩, ⟨0, [.schedule 3, .sendPacket ⟨0, 1, 5⟩ 2, .schedule 4], []⟩, ⟨1, [], [0]⟩,
        ⟨1, [], [0]⟩, ⟨0, [], []⟩] :=
  promises_kept twoLinks id (fun i => if i = 0 then [1] else []) (fun _ => 20) _
    (by decide +kernel)

/-- A handler sends two packets at once. With the first goes the promise that nothing comes before
10, since nothing is queued before 5 and the channels take 5; the second is received at 6. -/
theorem promise_undercut :
    ¬ ∀ (n : ℕ) (channels : List (Channel n)) (tuned : ℕ → ℕ) (scheduled : Fin (n + 1) → List ℕ)
      (stop : Fin (n + 1) → ℕ) (turns : List (Turn n)), (∀ ch ∈ channels, 0 < ch.delay) →
      TracedRun.Meets step (fun s _ turn => s.Enabled turn) (run channels tuned scheduled stop)
        (firstMessages channels) turns →
      TracedRun.Throughout step (fun _ => Right) (run channels tuned scheduled stop)
        (firstMessages channels) turns := by
  intro hall
  have hthroughout := hall 1 twoLinks id (fun i => if i = 0 then [1] else []) (fun _ => 20)
    [⟨0, [], [1]⟩, ⟨0, [.sendPacket ⟨0, 1, 5⟩ 0, .sendPacket ⟨1, 0, 5⟩ 0], []⟩]
    (by decide) (by decide +kernel)
  obtain ⟨s, actions, hrun, hright⟩ := hthroughout.exists_run nofun
  have hactions : (TracedRun.run step (run twoLinks id (fun i => if i = 0 then [1] else [])
      fun _ => 20) [⟨0, [], [1]⟩,
        ⟨0, [.sendPacket ⟨0, 1, 5⟩ 0, .sendPacket ⟨1, 0, 5⟩ 0], []⟩]).map Prod.snd =
      .ok [.executed 0 0 1, .sent 0 1 ⟨6, 10⟩, .sent 0 1 ⟨6, 10⟩] := by decide +kernel
  rw [hrun] at hactions
  cases Except.ok.inj hactions
  have hbefore : TracedRun.Precedes (firstMessages twoLinks ++ [.executed 0 0 1,
      .sent 0 1 ⟨6, 10⟩, .sent 0 1 ⟨6, 10⟩]) (.sent 0 1 ⟨6, 10⟩) (.sent 0 1 ⟨6, 10⟩) :=
    (sublist_cons_self _ _).trans (sublist_append_right _ _)
  exact absurd (hright.kept 0 1 ⟨6, 10⟩ ⟨6, 10⟩ hbefore (by decide)) (by decide)

end System

/-! ### Timers and guarantees -/

/-- Every bundle waits for one null message event, the one whose id it has, which is not further
ahead than the tuned delay; and the guarantees that are on their way on a bundle follow the one that
the receiver holds, which is at least its safe time, and never go back. -/
structure System.Guarded (s : System n) : Prop where
  timer : ∀ i j b, (s.ranks i).bundles j = some b → ∃ ev ∈ (s.ranks i).m_events,
    ev.uid = b.m_nullEventId ∧ ev.ts ≤ (s.ranks i).m_currentTs + s.tuned b.m_delay ∧
      ∀ ev' ∈ (s.ranks i).m_events, ev'.kind = .nullMessage j ↔ ev' = ev
  guarantees : ∀ i j b, (s.ranks j).bundles i = some b → (s.ranks j).m_currentTs ≤
      (s.ranks j).m_safeTime ∧ (s.ranks j).m_safeTime ≤ b.m_guaranteeTime ∧
    (b.m_guaranteeTime :: (s.wires i j).map Message.guaranteeUpdate).Pairwise (· ≤ ·)

/-- The guarantees on a wire come in order. -/
theorem InPromise.pairwise {held promised : ℕ} {messages : List Message}
    (h : InPromise held messages promised) :
    (held :: messages.map Message.guaranteeUpdate).Pairwise (· ≤ ·) := by
  induction messages generalizing held with
  | nil => exact pairwise_singleton _ _
  | cons message messages ih =>
    have hrest := ih h.2.2
    refine pairwise_cons.mpr ⟨?_, hrest⟩
    intro guarantee hmem
    rcases mem_cons.mp hmem with rfl | hmem
    · exact h.1
    · exact Nat.le_trans h.1 ((pairwise_cons.mp hrest).1 guarantee hmem)

/-- Where the invariant holds every event is guarded. -/
theorem Holds.guarded {s : System n} {promised : Fin (n + 1) → Fin (n + 1) → ℕ}
    {h : List (Action n)} (hs : Holds s promised h) : s.Guarded where
  timer := by
    intro i j b hb
    have hk := (hs.waits i).keeps
    obtain ⟨ev, hev, hkind, hts⟩ := hk.awaits j b hb not_mem_nil
    refine ⟨ev, hev, (hk.nullEventId j b hb not_mem_nil ev hev).mpr hkind, hts, ?_⟩
    intro ev' hev'
    constructor
    · intro hkind'
      have huid := (hk.nullEventId j b hb not_mem_nil ev hev).mpr hkind
      have huid' := (hk.nullEventId j b hb not_mem_nil ev' hev').mpr hkind'
      exact inj_on_of_nodup_map hk.nodup hev' hev (huid'.trans huid.symm)
    · rintro rfl
      exact hkind
  guarantees := by
    intro i j b hb
    have hk := (hs.waits j).keeps
    exact ⟨hk.current_le_safe, hk.safe_le_guarantee i b hb, (hs.links.wires i j b hb).pairwise⟩

end Ns3Joined.Mpi.NullMessage
