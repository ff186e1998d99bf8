import Mathlib.Algebra.Group.Nat.Defs
import Ns3Joined.Library.ExceptFold
import Ns3Joined.Library.TracedRun
import Ns3Joined.Olsr.TopologyControl

/-!
# The topology set follows the freshest advertisement

An originator advertises neighbors; its ANSN is the number of its advertisement, modulo `2 ^ 16`. A
node is to know the neighbors of the freshest advertisement that it heard.

* `isNewer_iff`: advertisements less than `2 ^ 15` apart are told by the wrap-around order of their
  numbers.
* `Right`: after a TC message that is the freshest so far, the tuples of the originator that have
  not expired are what it advertises; a staler message changes none of its tuples.
* `Orderly`: the numbers of the stored tuples compare with the ANSN as the advertisements do, and a
  staler message does not come while no tuple is stored. The source compares the numbers as they
  are, and knows nothing of advertisements of which it has no tuples.
* `Keeps`: the invariant; all tuples of the originator are of the freshest advertisement.
* `always_topologyRight`: over runs.
* `not_always_right_wrapped`: where the ANSN comes around.
-/

namespace Ns3Joined.Olsr.TopologyControl

open List

/-! ### Advertisements -/

/-- The ANSN of the `epoch`-th advertisement. -/
def ansnOf (epoch : ℕ) : UInt16 := UInt16.ofNat epoch

/-- A number is ahead of another one by less than half of them. -/
def IsNewer (ansn ansn' : UInt16) : Prop := 0 < (ansn - ansn').toNat ∧ (ansn - ansn').toNat < 2 ^ 15

/-- The order of advertisements is the wrap-around order of their numbers, if they are less than
half of the numbers apart. -/
theorem isNewer_iff {epoch epoch' : ℕ} (hlt : epoch < epoch' + 2 ^ 15)
    (hlt' : epoch' < epoch + 2 ^ 15) :
    IsNewer (ansnOf epoch) (ansnOf epoch') ↔ epoch' < epoch := by
  unfold IsNewer ansnOf
  rw [UInt16.toNat_sub, UInt16.toNat_ofNat', UInt16.toNat_ofNat']
  omega

variable {o : Ipv4Address} {advertised : ℕ → List Ipv4Address} {r r' : Node} {h : List Happened}
  {epoch : ℕ} {msg : TcMessage} {senderIface : Ipv4Address}

/-- The advertisement of the originator that was heard in an event, if it was one. -/
def heardEpoch (o : Ipv4Address) (x : Happened) : Option ℕ :=
  match x.event with
  | .ProcessTc epoch msg senderIface =>
    if msg.m_originatorAddress = o ∧ x.found.hears senderIface = true then some epoch else none
  | _ => none

/-- The advertisements of the originator that were heard. -/
def heardEpochs (o : Ipv4Address) (h : List Happened) : List ℕ := h.filterMap (heardEpoch o)

/-- The tuples of the originator. -/
def tuplesOf (o : Ipv4Address) (m_topologySet : TopologySet) : TopologySet :=
  m_topologySet.filter fun tuple => tuple.lastAddr = o

/-- The node has a tuple that has not expired. -/
def Knows (o : Ipv4Address) (r : Node) (addr : Ipv4Address) : Prop :=
  ∃ tuple ∈ tuplesOf o r.m_topologySet, tuple.destAddr = addr ∧ r.now ≤ tuple.expirationTime

/-- What is to hold after an event, which is the last of the history. -/
def RightAfter (o : Ipv4Address) (advertised : ℕ → List Ipv4Address) (r : Node)
    (h : List Happened) (x : Happened) : Prop :=
  ∀ epoch, heardEpoch o x = some epoch →
    ((∀ k ∈ heardEpochs o h, k ≤ epoch) → ∀ addr, Knows o r addr ↔ addr ∈ advertised epoch) ∧
    ((∃ k ∈ heardEpochs o h, epoch < k) →
      tuplesOf o r.m_topologySet = tuplesOf o x.found.m_topologySet)

def Right (o : Ipv4Address) (advertised : ℕ → List Ipv4Address) (r : Node)
    (h : List Happened) : Prop :=
  ∀ x, h.getLast? = some x → RightAfter o advertised r h x

/-- The message is an advertisement of the originator. -/
def IsSent (o : Ipv4Address) (advertised : ℕ → List Ipv4Address) : Event → Prop
  | .ProcessTc epoch msg _ => msg.m_originatorAddress = o →
      msg.tc = ⟨advertised epoch, ansnOf epoch⟩
  | _ => True

instance (event : Event) : Decidable (IsSent o advertised event) :=
  match event with
  | .sensing _ | .TopologyTupleTimerExpire _ _ => .isTrue trivial
  | .ProcessTc epoch msg _ =>
    inferInstanceAs (Decidable (msg.m_originatorAddress = o →
      msg.tc = ⟨advertised epoch, ansnOf epoch⟩))

/-- The numbers of the tuples compare with the ANSN as the advertisements do; without tuples, the
message is not staler than what was heard. -/
def Compares (o : Ipv4Address) (m_topologySet : TopologySet) (freshest epoch : ℕ) : Prop :=
  (∀ tuple ∈ tuplesOf o m_topologySet,
    (tuple.sequenceNumber > ansnOf epoch ↔ epoch < freshest) ∧
    (tuple.sequenceNumber < ansnOf epoch ↔ freshest < epoch)) ∧
  (tuplesOf o m_topologySet = [] → freshest ≤ epoch)

instance (m_topologySet : TopologySet) (freshest epoch : ℕ) :
    Decidable (Compares o m_topologySet freshest epoch) :=
  inferInstanceAs (Decidable (_ ∧ _))

/-- The condition on an event. -/
def Orderly (o : Ipv4Address) (r : Node) (h : List Happened) (event : Event) : Prop :=
  ∀ epoch ∈ heardEpoch o ⟨event, r⟩, ∀ freshest ∈ heardEpochs o h,
    (∀ k ∈ heardEpochs o h, k ≤ freshest) → Compares o r.m_topologySet freshest epoch

instance (event : Event) : Decidable (Orderly o r h event) :=
  inferInstanceAs (Decidable (∀ epoch ∈ heardEpoch o ⟨event, r⟩, ∀ freshest ∈ heardEpochs o h,
    (∀ k ∈ heardEpochs o h, k ≤ freshest) → Compares o r.m_topologySet freshest epoch))

/-! ### The topology set -/

/-- The tuples of an originator. -/
theorem mem_tuplesOf {set : TopologySet} {tuple : TopologyTuple} :
    tuple ∈ tuplesOf o set ↔ tuple ∈ set ∧ tuple.lastAddr = o := by
  rw [tuplesOf, mem_filter, decide_eq_true_eq]

/-- A newer tuple is found if and only if the originator has one. -/
theorem isSome_FindNewerTopologyTuple {set : TopologySet} {ansn : UInt16} :
    (FindNewerTopologyTuple set o ansn).isSome = true ↔
      ∃ tuple ∈ tuplesOf o set, tuple.sequenceNumber > ansn := by
  simp only [FindNewerTopologyTuple, find?_isSome, decide_eq_true_eq, mem_tuplesOf, and_assoc]

/-- Erasing older tuples leaves those that are not older. -/
theorem mem_EraseOlderTopologyTuples {set : TopologySet} {ansn : UInt16} {tuple : TopologyTuple} :
    tuple ∈ tuplesOf o (EraseOlderTopologyTuples set o ansn) ↔
      tuple ∈ tuplesOf o set ∧ ¬ tuple.sequenceNumber < ansn := by
  rw [mem_tuplesOf, EraseOlderTopologyTuples, mem_filter, decide_eq_true_eq, mem_tuplesOf]
  tauto

/-- Tuples of other originators are neither erased nor recorded. -/
theorem tuplesOf_EraseOlder_of_ne {set : TopologySet} {last : Ipv4Address} {ansn : UInt16}
    (hne : last ≠ o) : tuplesOf o (EraseOlderTopologyTuples set last ansn) = tuplesOf o set := by
  unfold tuplesOf EraseOlderTopologyTuples
  rw [filter_filter]
  refine filter_congr fun tuple _ => ?_
  rw [← Bool.decide_and, decide_eq_decide]
  constructor
  · exact fun h => h.1
  · exact fun h => ⟨h, fun hlast => hne (hlast.1.symm.trans h)⟩

/-! ### Step 4 -/

/-- Recording an address leaves the tuples of other originators. -/
theorem tuplesOf_recordAddress_of_ne (hne : msg.m_originatorAddress ≠ o) (addr : Ipv4Address) :
    tuplesOf o (r.recordAddress msg addr).1.m_topologySet = tuplesOf o r.m_topologySet := by
  unfold Node.recordAddress
  cases FindTopologyTuple r.m_topologySet addr msg.m_originatorAddress with
  | some _ =>
    refine KeyedTable.filter_modify fun tuple hlink => ?_
    have hlast : tuple.lastAddr = msg.m_originatorAddress := congrArg Prod.snd hlink
    exact ⟨decide_eq_false (hlast ▸ hne), decide_eq_false (hlast ▸ hne)⟩
  | none =>
    have hnot : decide (msg.m_originatorAddress = o) = false := decide_eq_false hne
    simp [tuplesOf, InsertTopologyTuple, hnot]

/-- Recording a message leaves the tuples of other originators. -/
theorem tuplesOf_recordAddresses_of_ne (hne : msg.m_originatorAddress ≠ o)
    (addrs : List Ipv4Address) :
    tuplesOf o (Node.recordAddresses msg r addrs).1.m_topologySet = tuplesOf o r.m_topologySet := by
  induction addrs generalizing r with
  | nil => rfl
  | cons addr addrs ih =>
    rw [Node.recordAddresses]
    exact ih.trans (tuplesOf_recordAddress_of_ne hne addr)

/-- All tuples of the originator are of one advertisement. -/
def FromEpoch (o : Ipv4Address) (advertised : ℕ → List Ipv4Address) (set : TopologySet)
    (epoch : ℕ) : Prop :=
  ∀ tuple ∈ tuplesOf o set,
    tuple.sequenceNumber = ansnOf epoch ∧ tuple.destAddr ∈ advertised epoch

/-- Recording an address advertised in an epoch keeps the tuples of that epoch. -/
theorem FromEpoch.recordAddress (hset : FromEpoch o advertised r.m_topologySet epoch)
    (hansn : msg.tc.ansn = ansnOf epoch) {addr : Ipv4Address} (haddr : addr ∈ advertised epoch) :
    FromEpoch o advertised (r.recordAddress msg addr).1.m_topologySet epoch := by
  unfold Node.recordAddress
  cases hfind : FindTopologyTuple r.m_topologySet addr msg.m_originatorAddress with
  | some _ =>
    intro tuple htuple
    obtain ⟨hmem, hlast⟩ := mem_tuplesOf.mp htuple
    obtain hold | ⟨tuple', hold, _, rfl⟩ := KeyedTable.mem_or_of_mem_modify hmem
    · exact hset tuple (mem_tuplesOf.mpr ⟨hold, hlast⟩)
    · exact hset tuple' (mem_tuplesOf.mpr ⟨hold, hlast⟩)
  | none =>
    intro tuple htuple
    obtain ⟨hmem, hlast⟩ := mem_tuplesOf.mp htuple
    obtain hold | hnew := mem_append.mp hmem
    · exact hset tuple (mem_tuplesOf.mpr ⟨hold, hlast⟩)
    · obtain rfl := mem_singleton.mp hnew
      exact ⟨hansn, haddr⟩

/-- The address is known then. -/
theorem knows_recordAddress (horiginator : msg.m_originatorAddress = o) (addr : Ipv4Address) :
    Knows o (r.recordAddress msg addr).1 addr := by
  have hnow : r.now ≤ r.now + msg.vTime := by omega
  unfold Node.recordAddress
  cases hfind : FindTopologyTuple r.m_topologySet addr msg.m_originatorAddress with
  | some tuple =>
    have hlink := (KeyedTable.mem_of_find hfind).2
    exact ⟨{ tuple with expirationTime := r.now + msg.vTime },
      mem_tuplesOf.mpr ⟨KeyedTable.mem_modify_of_find hfind,
        (congrArg Prod.snd hlink).trans horiginator⟩, congrArg Prod.fst hlink, hnow⟩
  | none =>
    exact ⟨_, mem_tuplesOf.mpr ⟨mem_append_right _ mem_cons_self, horiginator⟩, rfl, hnow⟩

/-- What is known is not forgotten. -/
theorem Knows.recordAddress {addr' : Ipv4Address} (hknows : Knows o r addr') (addr : Ipv4Address) :
    Knows o (r.recordAddress msg addr).1 addr' := by
  obtain ⟨tuple, htuple, rfl, hexpiration⟩ := hknows
  obtain ⟨hmem, hlast⟩ := mem_tuplesOf.mp htuple
  have hnow : r.now ≤ r.now + msg.vTime := by omega
  unfold Node.recordAddress
  cases hfind : FindTopologyTuple r.m_topologySet addr msg.m_originatorAddress with
  | some _ =>
    let extended := fun tuple : TopologyTuple => { tuple with expirationTime := r.now + msg.vTime }
    have hmodified : tuple ∈ KeyedTable.modify TopologyTuple.link (addr, msg.m_originatorAddress)
        extended r.m_topologySet ∨ (tuple.link = (addr, msg.m_originatorAddress) ∧
        extended tuple ∈ KeyedTable.modify TopologyTuple.link (addr, msg.m_originatorAddress)
          extended r.m_topologySet) := KeyedTable.mem_modify_or_of_mem hmem
    obtain hsame | ⟨_, hchanged⟩ := hmodified
    · exact ⟨tuple, mem_tuplesOf.mpr ⟨hsame, hlast⟩, rfl, hexpiration⟩
    · exact ⟨extended tuple, mem_tuplesOf.mpr ⟨hchanged, hlast⟩, rfl, hnow⟩
  | none =>
    exact ⟨tuple, mem_tuplesOf.mpr ⟨mem_append_left _ hmem, hlast⟩, rfl, hexpiration⟩

/-- After step 4 the addresses are known, and the tuples are those of the advertisement. -/
theorem recordAddresses_spec (horiginator : msg.m_originatorAddress = o)
    (hansn : msg.tc.ansn = ansnOf epoch) {addrs : List Ipv4Address}
    (haddrs : ∀ addr ∈ addrs, addr ∈ advertised epoch)
    (hset : FromEpoch o advertised r.m_topologySet epoch) :
    FromEpoch o advertised (Node.recordAddresses msg r addrs).1.m_topologySet epoch ∧
      (∀ addr ∈ addrs, Knows o (Node.recordAddresses msg r addrs).1 addr) ∧
      ∀ addr, Knows o r addr → Knows o (Node.recordAddresses msg r addrs).1 addr := by
  induction addrs generalizing r with
  | nil => exact ⟨hset, fun _ h => absurd h not_mem_nil, fun _ h => h⟩
  | cons addr addrs ih =>
    rw [Node.recordAddresses]
    obtain ⟨hset', hknown, hkept⟩ := ih (fun a ha => haddrs a (mem_cons_of_mem _ ha))
      (hset.recordAddress hansn (haddrs addr mem_cons_self))
    refine ⟨hset', fun a ha => ?_, fun a ha => hkept a (ha.recordAddress addr)⟩
    obtain rfl | ha := mem_cons.mp ha
    · exact hkept a (knows_recordAddress horiginator a)
    · exact hknown a ha

/-! ### Events -/

/-- An event that is no message of the originator, or one that is not heard, makes no tuples of
it. -/
theorem handle_of_none {event : Event} (hnone : heardEpoch o ⟨event, r⟩ = none)
    (hok : handle r event = .ok r') {tuple : TopologyTuple}
    (htuple : tuple ∈ tuplesOf o r'.m_topologySet) : tuple ∈ tuplesOf o r.m_topologySet := by
  cases event with
  | sensing event =>
    obtain ⟨sensed, _, hr'⟩ := ExceptFold.bind_eq_ok_iff.mp hok
    obtain rfl := Except.ok.inj hr'
    exact htuple
  | ProcessTc epoch msg senderIface =>
    obtain rfl := Except.ok.inj hok
    unfold Node.ProcessTc at htuple
    split_ifs at htuple with hhears
    · exact htuple
    · exact htuple
    · have hne : msg.m_originatorAddress ≠ o := by
        rintro rfl
        have hheard : r.hears senderIface = true := by simpa using hhears
        simp [heardEpoch, hheard] at hnone
      rw [tuplesOf_recordAddresses_of_ne hne, tuplesOf_EraseOlder_of_ne hne] at htuple
      exact htuple
  | TopologyTupleTimerExpire destAddr lastAddr =>
    obtain rfl := Except.ok.inj hok
    unfold Node.TopologyTupleTimerExpire at htuple
    cases hfind : FindTopologyTuple r.m_topologySet destAddr lastAddr with
    | none =>
      rw [hfind] at htuple
      exact htuple
    | some found =>
      rw [hfind] at htuple
      dsimp only at htuple
      split_ifs at htuple
      · obtain ⟨hmem, hlast⟩ := mem_tuplesOf.mp htuple
        exact mem_tuplesOf.mpr ⟨(eraseP_subset hmem), hlast⟩
      · exact htuple

/-- A message of the originator, where a tuple is newer than it. -/
theorem ProcessTc_of_newer (horiginator : msg.m_originatorAddress = o)
    (hnewer : ∃ tuple ∈ tuplesOf o r.m_topologySet, tuple.sequenceNumber > msg.tc.ansn) :
    (r.ProcessTc msg senderIface).1 = r := by
  subst horiginator
  unfold Node.ProcessTc
  rw [if_pos (isSome_FindNewerTopologyTuple.mpr hnewer)]
  split_ifs
  · rfl
  · rfl

/-- A message of the originator, where no tuple is newer than it, and those that are not older are
of the same advertisement. -/
theorem ProcessTc_of_fresh (horiginator : msg.m_originatorAddress = o)
    (hheard : r.hears senderIface = true) (htc : msg.tc = ⟨advertised epoch, ansnOf epoch⟩)
    (hnewer : ¬ ∃ tuple ∈ tuplesOf o r.m_topologySet, tuple.sequenceNumber > msg.tc.ansn)
    (hsame : ∀ tuple ∈ tuplesOf o r.m_topologySet, ¬ tuple.sequenceNumber < ansnOf epoch →
      tuple.sequenceNumber = ansnOf epoch ∧ tuple.destAddr ∈ advertised epoch) :
    FromEpoch o advertised (r.ProcessTc msg senderIface).1.m_topologySet epoch ∧
      ∀ addr, Knows o (r.ProcessTc msg senderIface).1 addr ↔ addr ∈ advertised epoch := by
  subst horiginator
  have hnone : ¬ (FindNewerTopologyTuple r.m_topologySet msg.m_originatorAddress
      msg.tc.ansn).isSome = true := fun h => hnewer (isSome_FindNewerTopologyTuple.mp h)
  have hhears : ¬ r.hears senderIface = false := by rw [hheard]; exact Bool.noConfusion
  unfold Node.ProcessTc
  rw [if_neg hhears, if_neg hnone]
  have hansn : msg.tc.ansn = ansnOf epoch := by rw [htc]
  have haddrs : msg.tc.neighborAddresses = advertised epoch := by rw [htc]
  have herased : FromEpoch msg.m_originatorAddress advertised (EraseOlderTopologyTuples
      r.m_topologySet msg.m_originatorAddress msg.tc.ansn) epoch := by
    intro tuple htuple
    obtain ⟨hmem, hnot⟩ := mem_EraseOlderTopologyTuples.mp htuple
    rw [hansn] at hnot
    exact hsame tuple hmem hnot
  obtain ⟨hset, hknown, _⟩ := recordAddresses_spec (r := { r with
    m_topologySet := EraseOlderTopologyTuples r.m_topologySet msg.m_originatorAddress msg.tc.ansn })
    rfl hansn (fun a ha => haddrs ▸ ha) herased
  refine ⟨hset, fun addr => ⟨?_, fun haddr => hknown addr (haddrs ▸ haddr)⟩⟩
  rintro ⟨tuple, htuple, rfl, _⟩
  exact (hset tuple htuple).2

/-! ### Runs -/

/-- All tuples of the originator are of the freshest advertisement that was heard. -/
structure Keeps (o : Ipv4Address) (advertised : ℕ → List Ipv4Address) (r : Node)
    (h : List Happened) : Prop where
  none : heardEpochs o h = [] → tuplesOf o r.m_topologySet = []
  fresh : ∀ freshest ∈ heardEpochs o h, (∀ k ∈ heardEpochs o h, k ≤ freshest) →
    FromEpoch o advertised r.m_topologySet freshest

/-- The epochs heard in a longer history. -/
theorem heardEpochs_append (h : List Happened) (x : Happened) :
    heardEpochs o (h ++ [x]) = heardEpochs o h ++ (heardEpoch o x).toList := by
  unfold heardEpochs
  rw [filterMap_append]
  cases hx : heardEpoch o x with
  | none => simp [hx]
  | some epoch => simp [hx]

/-- Of some epochs heard one is the freshest. -/
theorem exists_freshest {l : List ℕ} (hl : l ≠ []) : ∃ m ∈ l, ∀ k ∈ l, k ≤ m := by
  induction l with
  | nil => exact absurd rfl hl
  | cons a l ih =>
    by_cases hnil : l = []
    · subst hnil
      exact ⟨a, mem_cons_self, fun k hk => (mem_singleton.mp hk).le⟩
    · obtain ⟨m, hm, hmax⟩ := ih hnil
      obtain hle | hle := Nat.le_total a m
      · refine ⟨m, mem_cons_of_mem _ hm, fun k hk => ?_⟩
        obtain rfl | hk := mem_cons.mp hk
        · exact hle
        · exact hmax k hk
      · refine ⟨a, mem_cons_self, fun k hk => ?_⟩
        obtain rfl | hk := mem_cons.mp hk
        · exact le_rfl
        · exact (hmax k hk).trans hle

/-- What is not heard from the originator can only take tuples away. -/
theorem Keeps.of_none (hkeeps : Keeps o advertised r h) {x : Happened}
    (hnone : heardEpoch o x = Option.none)
    (hsub : ∀ tuple ∈ tuplesOf o r'.m_topologySet, tuple ∈ tuplesOf o r.m_topologySet) :
    Keeps o advertised r' (h ++ [x]) := by
  have hepochs : heardEpochs o (h ++ [x]) = heardEpochs o h := by
    rw [heardEpochs_append, hnone, Option.toList_none, append_nil]
  constructor
  · intro hempty
    rw [hepochs] at hempty
    refine eq_nil_iff_forall_not_mem.mpr fun tuple htuple => ?_
    have hmem := hsub tuple htuple
    rw [hkeeps.none hempty] at hmem
    cases hmem
  · intro freshest hmem hmax tuple htuple
    rw [hepochs] at hmem hmax
    exact hkeeps.fresh freshest hmem hmax tuple (hsub tuple htuple)

/-- A message of the originator that is heard. -/
theorem Keeps.of_heard (hkeeps : Keeps o advertised r h)
    (horiginator : msg.m_originatorAddress = o) (hheard : r.hears senderIface = true)
    (htc : msg.tc = ⟨advertised epoch, ansnOf epoch⟩) {x : Happened}
    (hx : heardEpoch o x = some epoch) (hfound : x.found = r)
    (horderly : ∀ freshest ∈ heardEpochs o h, (∀ k ∈ heardEpochs o h, k ≤ freshest) →
      Compares o r.m_topologySet freshest epoch) :
    Keeps o advertised (r.ProcessTc msg senderIface).1 (h ++ [x]) ∧
      RightAfter o advertised (r.ProcessTc msg senderIface).1 (h ++ [x]) x := by
  have hepochs : heardEpochs o (h ++ [x]) = heardEpochs o h ++ [epoch] := by
    rw [heardEpochs_append, hx, Option.toList_some]
  -- No message is fresher than this one, if its step 4 is done.
  have hdone (hle : ∀ k ∈ heardEpochs o h, k ≤ epoch)
      (hnewer : ¬ ∃ tuple ∈ tuplesOf o r.m_topologySet, tuple.sequenceNumber > msg.tc.ansn)
      (hsame : ∀ tuple ∈ tuplesOf o r.m_topologySet, ¬ tuple.sequenceNumber < ansnOf epoch →
        tuple.sequenceNumber = ansnOf epoch ∧ tuple.destAddr ∈ advertised epoch) :
      Keeps o advertised (r.ProcessTc msg senderIface).1 (h ++ [x]) ∧
        RightAfter o advertised (r.ProcessTc msg senderIface).1 (h ++ [x]) x := by
    obtain ⟨hset, hknows⟩ := ProcessTc_of_fresh horiginator hheard htc hnewer hsame
    have hle' : ∀ k ∈ heardEpochs o (h ++ [x]), k ≤ epoch := by
      intro k hk
      rw [hepochs] at hk
      obtain hk | hk := mem_append.mp hk
      · exact hle k hk
      · exact (mem_singleton.mp hk).le
    refine ⟨⟨fun hempty => ?_, fun freshest hmem hmax => ?_⟩, fun epoch' hepoch' => ?_⟩
    · rw [hepochs] at hempty
      exact absurd hempty (append_ne_nil_of_right_ne_nil _ (cons_ne_nil _ _))
    · -- The message is the freshest one.
      have hin : epoch ∈ heardEpochs o (h ++ [x]) := by
        rw [hepochs]
        exact mem_append_right _ mem_cons_self
      have hge : epoch ≤ freshest := hmax epoch hin
      obtain rfl := Nat.le_antisymm hge (hle' freshest hmem)
      exact hset
    · rw [hx] at hepoch'
      obtain rfl := Option.some.inj hepoch'
      refine ⟨fun _ => hknows, ?_⟩
      rintro ⟨k, hk, hlt⟩
      exact absurd (hle' k hk) (not_le.mpr hlt)
  by_cases hfirst : heardEpochs o h = []
  · -- It is the first message of the originator.
    have hnone := hkeeps.none hfirst
    refine hdone (fun k hk => ?_) ?_ fun tuple htuple => ?_
    · rw [hfirst] at hk
      cases hk
    · rintro ⟨tuple, htuple, _⟩
      rw [hnone] at htuple
      cases htuple
    · rw [hnone] at htuple
      cases htuple
  obtain ⟨freshest, hmem, hmax⟩ := exists_freshest hfirst
  obtain ⟨hcompare, hempty⟩ := horderly freshest hmem hmax
  have hfrom := hkeeps.fresh freshest hmem hmax
  have hansn : msg.tc.ansn = ansnOf epoch := by rw [htc]
  by_cases hnewer : ∃ tuple ∈ tuplesOf o r.m_topologySet, tuple.sequenceNumber > msg.tc.ansn
  · -- A staler message.
    have hlt : epoch < freshest := by
      obtain ⟨tuple, htuple, hgt⟩ := hnewer
      rw [hansn] at hgt
      exact (hcompare tuple htuple).1.mp hgt
    rw [ProcessTc_of_newer horiginator hnewer]
    have hmem' : freshest ∈ heardEpochs o (h ++ [x]) := by
      rw [hepochs]
      exact mem_append_left _ hmem
    refine ⟨⟨fun hnil => ?_, fun k hk hmaxk => ?_⟩, fun epoch' hepoch' => ?_⟩
    · rw [hnil] at hmem'
      cases hmem'
    · -- The freshest one is still that of before.
      have hge := hmaxk freshest hmem'
      rw [hepochs] at hk
      obtain hk | hk := mem_append.mp hk
      · obtain rfl := Nat.le_antisymm (hmax k hk) hge
        exact hfrom
      · obtain rfl := mem_singleton.mp hk
        exact absurd hge (not_le.mpr hlt)
    · rw [hx] at hepoch'
      obtain rfl := Option.some.inj hepoch'
      refine ⟨fun hle => absurd (hle freshest hmem') (not_le.mpr hlt), fun _ => ?_⟩
      rw [hfound]
  · have hle : freshest ≤ epoch := by
      by_cases hnil : tuplesOf o r.m_topologySet = []
      · exact hempty hnil
      · obtain ⟨tuple, htuple⟩ := exists_mem_of_ne_nil _ hnil
        by_contra hlt
        refine hnewer ⟨tuple, htuple, ?_⟩
        rw [hansn]
        exact (hcompare tuple htuple).1.mpr (not_le.mp hlt)
    refine hdone (fun k hk => (hmax k hk).trans hle) hnewer fun tuple htuple hnot => ?_
    -- A tuple that is not older is of the same advertisement.
    have hge : ¬ freshest < epoch := fun hlt => hnot ((hcompare tuple htuple).2.mpr hlt)
    obtain rfl := Nat.le_antisymm hle (not_lt.mp hge)
    exact hfrom tuple htuple

/-- A step of a run. -/
theorem Keeps.step (hkeeps : Keeps o advertised r h) {event : Event}
    (hsent : IsSent o advertised event) (horderly : Orderly o r h event)
    {happened : List Happened} (hok : step r event = .ok (r', happened)) :
    Keeps o advertised r' (h ++ happened) ∧ Right o advertised r' (h ++ happened) := by
  obtain ⟨r₁, hhandle, hr'⟩ := ExceptFold.bind_eq_ok_iff.mp hok
  obtain ⟨rfl, rfl⟩ := Prod.mk.inj (Except.ok.inj hr')
  -- The event is the last of the history.
  have hlast (hafter : RightAfter o advertised r₁ (h ++ [⟨event, r⟩]) ⟨event, r⟩) :
      Right o advertised r₁ (h ++ [⟨event, r⟩]) := by
    intro x hx
    rw [getLast?_append, getLast?_singleton] at hx
    obtain rfl := Option.some.inj hx
    exact hafter
  cases hheard : heardEpoch o ⟨event, r⟩ with
  | none =>
    refine ⟨hkeeps.of_none hheard fun tuple => handle_of_none hheard hhandle, hlast ?_⟩
    intro epoch hepoch
    rw [hheard] at hepoch
    cases hepoch
  | some epoch =>
    cases event with
    | sensing event => cases hheard
    | TopologyTupleTimerExpire destAddr lastAddr => cases hheard
    | ProcessTc epoch' msg senderIface =>
      have hepoch := hheard
      unfold heardEpoch at hepoch
      dsimp only at hepoch
      split_ifs at hepoch with hcond
      obtain rfl := Option.some.inj hepoch
      obtain rfl := Except.ok.inj hhandle
      obtain ⟨hkeeps', hafter⟩ := hkeeps.of_heard hcond.1 hcond.2 (hsent hcond.1) hheard rfl
        (horderly _ hheard)
      exact ⟨hkeeps', hlast hafter⟩

/-- In every run whose messages are orderly, the tuples of the originator are right after each
event. -/
theorem always_topologyRight (o : Ipv4Address) (advertised : ℕ → List Ipv4Address) (r : Node)
    (events : List Event) (hnew : tuplesOf o r.m_topologySet = [])
    (hmeets : TracedRun.Meets step
      (fun r h event => IsSent o advertised event ∧ Orderly o r h event) r [] events) :
    TracedRun.Always step (Right o advertised) r [] events := by
  refine TracedRun.always_of_meets
    (J := fun r h => Keeps o advertised r h ∧ Right o advertised r h) ?_ (fun _ _ hJ => hJ.2) ?_
    hmeets
  · intro r h event r' happened hJ hP hok
    exact hJ.1.step hP.1 hP.2 hok
  · exact ⟨⟨fun _ => hnew, fun _ hmem => absurd hmem not_mem_nil⟩, fun x hx => nomatch hx⟩

/-- Node 100. -/
def listener : Node := ⟨RoutingProtocol.new 100 [] 2000000000, []⟩

/-- Node 1 hears it. -/
def hello : Event := .sensing (.ProcessHello ⟨1, 6000000000, ⟨3, [⟨6, [100]⟩]⟩⟩ 100 1)

/-- A message of node 7, that node 1 forwards. -/
def forwarded (advertised : ℕ → List Ipv4Address) (epoch : ℕ) : Event :=
  .ProcessTc epoch ⟨7, 15000000000, ⟨advertised epoch, ansnOf epoch⟩⟩ 1

/-- Each neighbor is advertised in two advertisements. -/
def twice (epoch : ℕ) : List Ipv4Address := [UInt32.ofNat epoch, UInt32.ofNat (epoch + 1)]

/-- A run in which an originator is heard twice, with an old message in between. -/
theorem always_right_twice :
    TracedRun.Always step (Right 7 twice) listener []
      [hello, forwarded twice 2, forwarded twice 4, forwarded twice 3, forwarded twice 4,
        .sensing (.pass 1000000000), .TopologyTupleTimerExpire 4 7, forwarded twice 5] :=
  always_topologyRight 7 twice listener _ rfl (by decide +kernel)

/-- The number comes around to 0, and the advertisement is taken for a staler one. -/
theorem not_always_right_wrapped :
    TracedRun.Meets step (fun _ _ event => IsSent 7 twice event) listener []
        [hello, forwarded twice 65535, forwarded twice 65536] ∧
      ¬ TracedRun.Always step (Right 7 twice) listener []
        [hello, forwarded twice 65535, forwarded twice 65536] := by
  refine ⟨by decide +kernel, fun halways => ?_⟩
  have hvalues : (TracedRun.run step listener
      [hello, forwarded twice 65535, forwarded twice 65536]).toOption.map (fun r =>
        ((tuplesOf 7 r.1.m_topologySet).map TopologyTuple.destAddr, heardEpochs 7 r.2,
          r.2.getLast?.bind (heardEpoch 7))) =
      some ([65535, 65536], [65535, 65536], some 65536) := by decide +kernel
  cases hrun : TracedRun.run step listener
      [hello, forwarded twice 65535, forwarded twice 65536] with
  | error e =>
    rw [hrun] at hvalues
    cases hvalues
  | ok result =>
    rw [hrun] at hvalues
    have hvalues := Option.some.inj hvalues
    obtain ⟨hdest, hheard, hlast⟩ := (Prod.mk.inj hvalues).imp_right Prod.mk.inj
    obtain ⟨x, hx, hepoch⟩ := Option.bind_eq_some_iff.mp hlast
    have hright := halways.of_run (cons_ne_nil _ _) hrun x hx 65536 hepoch
    have hmax : ∀ k ∈ heardEpochs 7 result.2, k ≤ 65536 := by
      rw [hheard]
      decide
    have hknows : Knows 7 result.1 65537 := (hright.1 hmax 65537).mpr (by decide)
    obtain ⟨tuple, htuple, haddr, _⟩ := hknows
    have hmem : (65537 : Ipv4Address) ∈ (tuplesOf 7 result.1.m_topologySet).map
        TopologyTuple.destAddr := haddr ▸ mem_map_of_mem htuple
    rw [hdest] at hmem
    revert hmem
    decide

end Ns3Joined.Olsr.TopologyControl
