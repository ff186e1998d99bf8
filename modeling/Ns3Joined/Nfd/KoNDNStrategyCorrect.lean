import Ns3Joined.Nfd.KoNDNStrategy
import Ns3Joined.Nfd.LookupFibCorrect

/-!
# When the strategy for identifiers forwards a new Interest

* `findEligible_eq_none_iff`: the search for the earliest out-record finds nothing only where no
  next hop is eligible.
* `switchToNdn_acts_iff`: when an Interest is forwarded by its name.
* `afterReceiveInterest_acts_iff`: when a new Interest is forwarded, or answered by a Nack and
  rejected.

Only an Interest of another protocol is rejected when it cannot be forwarded. One that is looked up
by its identifier is left pending when the list of FIB entries is empty, and when no next hop of
the longest prefix match is left.
-/

namespace Ns3Joined.Nfd.fw

open List

open Ndn (Name Component Interest)
open name_tree (HashValue)
open fib (EntryRef NextHop)
open ExceptFold (bind_eq_ok_iff map_eq_ok_iff ok_bind foldlM_cons_eq_ok_iff)

variable {inFace : Face} {interest : Interest} {pitEntry : pit.AttachedEntry}
  {nexthops : List NextHop}

/-! ### The earliest next hop -/

variable {r found : Option (NextHop × ℕ)} {isFirstNdn : Bool} {isUnused : NextHop → Bool}

/-- One turn of the search keeps what was found or finds an eligible next hop. -/
theorem earliestTurn_ne_none {it : NextHop}
    (hok : earliestTurn inFace interest pitEntry found it = .ok r) :
    r = none ↔ found = none ∧ isNextHopEligible inFace interest it pitEntry none = false := by
  unfold earliestTurn at hok
  by_cases heligible : isNextHopEligible inFace interest it pitEntry none = true
  · rw [if_neg (by rw [heligible]; exact Bool.false_ne_true)] at hok
    refine iff_of_false ?_ fun h => by rw [heligible] at h; cases h.2
    cases hrecord : pitEntry.getOutRecord it.face with
    | none =>
      rw [hrecord] at hok
      cases hok
    | some outRecord =>
      rw [hrecord] at hok
      dsimp only at hok
      split_ifs at hok with hearlier
      · cases hok
        exact Option.some_ne_none _
      · cases hok
        -- an earlier one was found before
        rintro rfl
        exact hearlier rfl
  · have hnot := Bool.eq_false_iff.mpr heligible
    rw [if_pos (by rw [hnot]; rfl)] at hok
    cases hok
    exact ⟨fun h => ⟨h, hnot⟩, And.left⟩

/-- The search finds none if and only if it had none and none is eligible. -/
theorem earliestLoop_eq_none_iff
    (hok : nexthops.foldlM (earliestTurn inFace interest pitEntry) found = .ok r) :
    r = none ↔ found = none ∧
      ∀ it ∈ nexthops, isNextHopEligible inFace interest it pitEntry none = false := by
  induction nexthops generalizing found with
  | nil =>
    cases hok
    exact ⟨fun h => ⟨h, fun _ hit => absurd hit not_mem_nil⟩, And.left⟩
  | cons it nexthops ih =>
    obtain ⟨t, ht, hok⟩ := foldlM_cons_eq_ok_iff.mp hok
    rw [ih hok, earliestTurn_ne_none ht, forall_mem_cons, and_assoc]

/-- The search from the start finds none if and only if none is eligible. -/
theorem findEligible_eq_none_iff {r : Option NextHop}
    (hok : findEligibleNextHopWithEarliestOutRecord inFace interest nexthops pitEntry = .ok r) :
    r = none ↔ ∀ it ∈ nexthops, isNextHopEligible inFace interest it pitEntry none = false := by
  obtain ⟨found, hfound, hok⟩ := bind_eq_ok_iff.mp hok
  cases hok
  rw [Option.map_eq_none_iff, earliestLoop_eq_none_iff hfound]
  exact and_iff_right rfl

/-- Where no next hop is eligible, no out-record is looked for. -/
theorem findEligible_of_none
    (hnone : ∀ it ∈ nexthops, isNextHopEligible inFace interest it pitEntry none = false) :
    findEligibleNextHopWithEarliestOutRecord inFace interest nexthops pitEntry = .ok none := by
  have hloop : nexthops.foldlM (earliestTurn inFace interest pitEntry) none = .ok none := by
    induction nexthops with
    | nil => rfl
    | cons it nexthops ih =>
      obtain ⟨hit, hrest⟩ := forall_mem_cons.mp hnone
      rw [foldlM_cons, earliestTurn, hit]
      exact ih hrest
  rw [findEligibleNextHopWithEarliestOutRecord, hloop]
  rfl

/-! ### What was done -/

/-- An Interest was sent, or a Nack, and the Interest rejected. -/
def Acts (actions : List Action) : Prop :=
  (∃ egress interest, Action.sendInterest egress interest ∈ actions) ∨
    (∃ egress reason, Action.sendNack egress reason ∈ actions) ∧
      Action.rejectPendingInterest ∈ actions

/-- Doing nothing is not acting. -/
theorem not_acts_nil : ¬ Acts [] := by
  rintro (⟨_, _, h⟩ | ⟨-, h⟩)
  · exact not_mem_nil h
  · exact not_mem_nil h

namespace KoNDNStrategy

variable {hash : Component → HashValue} {strategy : KoNDNStrategy} {ingress : Face}
  {st st' : Handling}

/-- A sent Interest is an act. -/
theorem acts_sendInterest {egress : Face}
    (hok : strategy.sendInterest st egress isFirstNdn = .ok st') : Acts st'.actions := by
  unfold sendInterest at hok
  split at hok
  · obtain ⟨interest, -, rfl⟩ := map_eq_ok_iff.mp hok
    exact .inl ⟨egress, st.interest, mem_append_right _ mem_cons_self⟩
  · cases hok

/-- With no next hop to try, nothing is sent. -/
theorem retransmit_of_none (hunused : ∀ it ∈ nexthops, isUnused it = false)
    (hnone : ∀ it ∈ nexthops, isNextHopEligible ingress st.interest it st.pitEntry none = false) :
    strategy.retransmit ingress st nexthops isUnused isFirstNdn = .ok (st, false) := by
  have hfind : nexthops.find? isUnused = none :=
    List.find?_eq_none.mpr fun it hit => Bool.eq_false_iff.mp (hunused it hit)
  rw [retransmit, hfind]
  dsimp only
  rw [findEligible_of_none hnone]
  rfl

/-- It sends over some next hop, or finds none to try. -/
theorem retransmit_cases {r : Handling × Bool}
    (hok : strategy.retransmit ingress st nexthops isUnused isFirstNdn = .ok r) :
    (∃ egress, strategy.sendInterest st egress isFirstNdn = .ok r.1) ∨
      r.1 = st ∧ nexthops.find? isUnused = none ∧
        findEligibleNextHopWithEarliestOutRecord ingress st.interest nexthops st.pitEntry =
          .ok none := by
  have hsent : ∀ {egress b}, (strategy.sendInterest st egress isFirstNdn).map (fun st => (st, b)) =
      .ok r → ∃ egress, strategy.sendInterest st egress isFirstNdn = .ok r.1 := by
    intro egress b hok
    obtain ⟨st', hsend, rfl⟩ := map_eq_ok_iff.mp hok
    exact ⟨egress, hsend⟩
  unfold retransmit at hok
  cases hfind : nexthops.find? isUnused with
  | some it =>
    rw [hfind] at hok
    exact .inl (hsent hok)
  | none =>
    rw [hfind] at hok
    obtain ⟨found, hfound, hok⟩ := bind_eq_ok_iff.mp hok
    cases found with
    | some it => exact .inl (hsent hok)
    | none =>
      cases hok
      exact .inr ⟨rfl, rfl, hfound⟩

/-- With a next hop to try, something is sent. -/
theorem acts_retransmit {r : Handling × Bool}
    (hsome : ∃ it ∈ nexthops, isUnused it = true ∨
      isNextHopEligible ingress st.interest it st.pitEntry none = true)
    (hok : strategy.retransmit ingress st nexthops isUnused isFirstNdn = .ok r) :
    Acts r.1.actions := by
  obtain ⟨egress, hsend⟩ | ⟨-, hfind, hfound⟩ := retransmit_cases hok
  · exact acts_sendInterest hsend
  · obtain ⟨it, hit, hunused | heligible⟩ := hsome
    · exact absurd hunused (List.find?_eq_none.mp hfind it hit)
    · rw [(findEligible_eq_none_iff hfound).mp rfl it hit] at heligible
      cases heligible

/-! ### Forwarding by name -/

/-- A next hop that is left for an Interest whose agent this node becomes: an unused one, or one
that is eligible. -/
def IsLeft (strategy : KoNDNStrategy) (ingress : Face) (interest : Interest)
    (pitEntry : pit.AttachedEntry) (it : NextHop) : Prop :=
  isNextHopEligibleAt ingress { interest with agentNodeID := strategy.m_nodeId } it pitEntry
      strategy.m_nodeId (some strategy.now) = true ∨
    isNextHopEligible ingress interest it pitEntry none = true

/-- The FIB entry for the name has a next hop that is left. -/
def HasLeft (hash : Component → HashValue) (strategy : KoNDNStrategy) (ingress : Face)
    (interest : Interest) (pitEntry : pit.AttachedEntry) : Prop :=
  ∀ ref, strategy.forwarder.lookupFib hash pitEntry = .ok ref →
    ∃ it ∈ (strategy.forwarder.m_fib.deref ref).m_nextHops,
      IsLeft strategy ingress interest pitEntry it

/-- Some next hop of a FIB entry is eligible. -/
def HasEligible (strategy : KoNDNStrategy) (ingress : Face) (interest : Interest)
    (pitEntry : pit.AttachedEntry) (ref : EntryRef) : Prop :=
  ∃ it ∈ (strategy.forwarder.m_fib.deref ref).m_nextHops,
    isNextHopEligible ingress interest it pitEntry none = true

/-- Switching to NDN acts if and only if something is left to send on. -/
theorem switchToNdn_acts_iff (destinationNodeID : Name) :
    (∀ st', strategy.switchToNdn hash ingress ⟨interest, pitEntry, []⟩ destinationNodeID = .ok st' →
      Acts st'.actions) ↔ HasLeft hash strategy ingress interest pitEntry := by
  unfold switchToNdn
  dsimp only
  constructor
  · intro h ref href
    by_contra hnot
    push Not at hnot
    rw [href, ok_bind, retransmit_of_none] at h
    · exact not_acts_nil (h _ rfl)
    · exact fun it hit => Bool.eq_false_iff.mpr fun hunused => hnot it hit (.inl hunused)
    · exact fun it hit => Bool.eq_false_iff.mpr fun heligible => hnot it hit (.inr heligible)
  · intro hleft st' hok
    obtain ⟨ref, href, hok⟩ := bind_eq_ok_iff.mp hok
    obtain ⟨r, hr, hok⟩ := bind_eq_ok_iff.mp hok
    cases hok
    exact acts_retransmit (hleft ref href) hr

/-- What a new Interest comes to at a FIB entry. -/
theorem acts_of_find (hash : Component → HashValue) (strategy : KoNDNStrategy) (ingress : Face)
    (interest : Interest) (pitEntry : pit.AttachedEntry) (ref : EntryRef)
    (destinationNodeID : Name) {k : NextHop → Except Fault Handling}
    (hk : ∀ it st', k it = .ok st' → Acts st'.actions) :
    (∀ st', (match (strategy.forwarder.m_fib.deref ref).m_nextHops.find? fun nexthop =>
          isNextHopEligible ingress interest nexthop pitEntry none with
        | none => strategy.switchToNdn hash ingress ⟨interest, pitEntry, []⟩ destinationNodeID
        | some it => k it) = .ok st' → Acts st'.actions) ↔
      HasEligible strategy ingress interest pitEntry ref ∨
        HasLeft hash strategy ingress interest pitEntry := by
  cases hfind : (strategy.forwarder.m_fib.deref ref).m_nextHops.find? fun nexthop =>
      isNextHopEligible ingress interest nexthop pitEntry none with
  | none =>
    have hnone : ¬ HasEligible strategy ingress interest pitEntry ref := by
      rintro ⟨it, hit, heligible⟩
      exact List.find?_eq_none.mp hfind it hit heligible
    rw [or_iff_right hnone]
    exact switchToNdn_acts_iff destinationNodeID
  | some it =>
    have heligible := List.find?_some hfind
    exact iff_of_true (fun st' hok => hk it st' hok)
      (.inl ⟨it, mem_of_find?_eq_some hfind, heligible⟩)

/-! ### New Interests -/

/-- What an Interest needs so that it is not left pending: if it is looked up by its identifier, a
FIB entry, and an eligible next hop of the first one, or one that is left for its name. -/
def CanForward (hash : Component → HashValue) (strategy : KoNDNStrategy) (ingress : Face)
    (interest : Interest) (pitEntry : pit.AttachedEntry) : Prop :=
  interest.protocol = kademlia →
    if interest.destinationNodeID = [] ∨
        interest.destinationNodeID = strategy.forwarderNodeId then
      strategy.forwarder.lookupFibList hash strategy.sort pitEntry
          (name_tree.uriOf strategy.m_nodeId) ≠ .ok [] ∧
        ∀ ref rest, strategy.forwarder.lookupFibList hash strategy.sort pitEntry
            (name_tree.uriOf strategy.m_nodeId) = .ok (some ref :: rest) →
          HasEligible strategy ingress interest pitEntry ref ∨
            HasLeft hash strategy ingress interest pitEntry
    else
      ∀ ref, strategy.forwarder.lookupFib hash pitEntry = .ok ref →
        HasEligible strategy ingress interest pitEntry ref ∨
          HasLeft hash strategy ingress interest pitEntry

/-- A new NDN Interest is always acted on. -/
theorem acts_afterReceiveNdn {st' : Handling}
    (hok : strategy.afterReceiveNdn hash ingress .NEW ⟨interest, pitEntry, []⟩ = .ok st') :
    Acts st'.actions := by
  obtain ⟨ref, -, hok⟩ := bind_eq_ok_iff.mp hok
  rw [if_pos rfl] at hok
  cases hfind : (strategy.forwarder.m_fib.deref ref).m_nextHops.find? fun nexthop =>
      isNextHopEligible ingress interest nexthop pitEntry none with
  | none =>
    rw [hfind] at hok
    cases hok
    refine .inr ⟨⟨ingress, _, mem_cons_self⟩, ?_⟩
    exact mem_cons_of_mem _ mem_cons_self
  | some it =>
    rw [hfind] at hok
    exact acts_sendInterest hok

/-- Any other new Interest is acted on if and only if its FIB entry has an eligible next hop. -/
theorem afterReceiveForOther_acts_iff :
    (∀ st', strategy.afterReceiveForOther hash ingress .NEW ⟨interest, pitEntry, []⟩ = .ok st' →
      Acts st'.actions) ↔
    ∀ ref, strategy.forwarder.lookupFib hash pitEntry = .ok ref →
      HasEligible strategy ingress interest pitEntry ref ∨
        HasLeft hash strategy ingress interest pitEntry := by
  unfold afterReceiveForOther
  dsimp only
  cases hlookup : strategy.forwarder.lookupFib hash pitEntry with
  | error fault => exact iff_of_true (fun st' hok => by cases hok) fun ref h => by cases h
  | ok ref =>
    have hiff := acts_of_find hash strategy ingress interest pitEntry ref
      interest.destinationNodeID
      (k := fun it => strategy.sendInterest ⟨interest, pitEntry, []⟩ it.face false)
      fun it st' hok => acts_sendInterest hok
    rw [ok_bind, if_pos rfl]
    constructor
    · rintro h ref' href'
      cases href'
      exact hiff.mp h
    · exact fun h => hiff.mpr (h ref rfl)

/-- The list of entries is acted on if and only if its first entry has an eligible next hop. -/
theorem listLoop_acts_iff {fibEntries : List (Option EntryRef)} :
    (∀ st', strategy.listLoop hash ingress .NEW (fibEntries.take 2) ⟨interest, pitEntry, []⟩ =
      .ok st' → Acts st'.actions) ↔
    fibEntries ≠ [] ∧ ∀ ref rest, fibEntries = some ref :: rest →
      HasEligible strategy ingress interest pitEntry ref ∨
        HasLeft hash strategy ingress interest pitEntry := by
  match fibEntries with
  | [] => exact iff_of_false (fun h => not_acts_nil (h _ rfl)) fun h => h.1 rfl
  | none :: rest =>
    refine iff_of_true (fun st' hok => by cases hok) ⟨cons_ne_nil _ _, fun ref rest' h => ?_⟩
    cases h
  | some ref :: rest =>
    have hiff := acts_of_find hash strategy ingress interest pitEntry ref []
      (k := fun it => strategy.sendInterest
        ⟨{ interest with
            destinationNodeID := (strategy.forwarder.m_fib.deref ref).getPrefix
            hasWire := false }, pitEntry, []⟩ it.face false)
      fun it st' hok => acts_sendInterest hok
    rw [take_succ_cons, listLoop]
    dsimp only
    rw [if_pos rfl]
    constructor
    · refine fun h => ⟨cons_ne_nil _ _, fun ref' rest' heq => ?_⟩
      cases heq
      exact hiff.mp h
    · exact fun h => hiff.mpr (h.2 ref rest rfl)

/-- **When a new Interest is forwarded, or answered by a Nack and rejected.** -/
theorem afterReceiveInterest_acts_iff (hash : Component → HashValue) (strategy : KoNDNStrategy)
    (ingress : Face) (interest : Interest) (pitEntry : pit.AttachedEntry) :
    (∀ st, strategy.afterReceiveInterest hash ingress .NEW interest pitEntry = .ok st →
      Acts st.actions) ↔ CanForward hash strategy ingress interest pitEntry := by
  unfold afterReceiveInterest CanForward
  dsimp only
  rw [if_neg (by decide)]
  by_cases hprotocol : interest.protocol = kademlia
  · rw [if_pos hprotocol, forall_prop_of_true hprotocol]
    by_cases hown : interest.destinationNodeID = [] ∨
        interest.destinationNodeID = strategy.forwarderNodeId
    · rw [if_pos hown, if_pos hown]
      cases hlist : strategy.forwarder.lookupFibList hash strategy.sort pitEntry
          (name_tree.uriOf strategy.m_nodeId) with
      | error fault =>
        refine iff_of_true (fun st hok => ?_) ⟨fun h => ?_, fun ref rest h => ?_⟩
        · cases hok
        · cases h
        · cases h
      | ok fibEntries =>
        rw [ok_bind, listLoop_acts_iff]
        simp only [ne_eq, Except.ok.injEq]
    · rw [if_neg hown, if_neg hown]
      exact afterReceiveForOther_acts_iff
  · rw [if_neg hprotocol]
    exact iff_of_true (fun st hok => acts_afterReceiveNdn hok) fun h => absurd h hprotocol

/-! ### An Interest that is left pending -/

open name_tree (NameTree.Call NameTree.step NameTree.ofOptions zeros hashOfWire nameOf
  defaultOptions)

/-- A route to `/`, and the PIT entry of an Interest. -/
def routeToRoot : List NameTree.Call :=
  [.lookup [] 0, .setFibEntry 0 (some 7), .lookup (nameOf [97]) 1,
    .insertPitEntry 1 ⟨9, nameOf [97]⟩]

/-- A face with a link to one other node. -/
def linkTo (id : ℕ) : Face := ⟨id, .FACE_SCOPE_NON_LOCAL, .LINK_TYPE_POINT_TO_POINT⟩

/-- The Interest, for a content that has an identifier. -/
def newInterest : Interest := { name := nameOf [97], hashedName := zeros, protocol := kademlia }

def newPitEntry : pit.AttachedEntry where
  interest := newInterest
  inRecords := []
  outRecords := []
  isSatisfied := false
  dataFreshnessPeriod := 0
  nameTreeEntry := 1

/-- The strategy of a node with a name tree, and a next hop for each FIB entry. -/
def strategyOver (s : name_tree.Hashtable) : KoNDNStrategy where
  forwarder := ⟨⟨s, fun _ => ⟨[], [⟨linkTo 2, 0⟩]⟩⟩, []⟩
  forwarderNodeId := nameOf (List.replicate 40 102)
  m_nodeId := nameOf (List.replicate 40 102)
  sort := CutSort.insertionSort _ _
  now := 0
  pitToken := false
  sha256 := fun _ => Vector.replicate _ 0
  autoCheck := true
  encodes := fun _ => true
  random := 0

/-- No identifier is in the FIB, and the route is not looked for. -/
theorem afterReceiveInterest_silent : ∃ s returned,
    TracedRun.run (NameTree.step hashOfWire) (NameTree.ofOptions defaultOptions) routeToRoot =
      .ok (s, returned) ∧
      ¬ ∀ st, (strategyOver s).afterReceiveInterest hashOfWire (linkTo 1) .NEW newInterest
        newPitEntry = .ok st → Acts st.actions := by
  obtain ⟨s, returned, hok, -⟩ := name_tree.run_keeps hashOfWire defaultOptions routeToRoot
    (by decide +kernel)
  refine ⟨s, returned, hok, fun h => ?_⟩
  have hsilent : (TracedRun.run (NameTree.step hashOfWire) (NameTree.ofOptions defaultOptions)
      routeToRoot).map (fun r => ((strategyOver r.1).afterReceiveInterest hashOfWire (linkTo 1)
        .NEW newInterest newPitEntry).map fun st => st.actions.length) = .ok (.ok 0) := by
    decide +kernel
  rw [hok] at hsilent
  replace hsilent := Except.ok.inj hsilent
  dsimp only at hsilent
  cases hst : (strategyOver s).afterReceiveInterest hashOfWire (linkTo 1) .NEW newInterest
      newPitEntry with
  | error fault =>
    rw [hst] at hsilent
    cases hsilent
  | ok st =>
    rw [hst] at hsilent
    have hacts := h st hst
    rw [eq_nil_of_length_eq_zero (Except.ok.inj hsilent)] at hacts
    exact not_acts_nil hacts

end KoNDNStrategy
end Ns3Joined.Nfd.fw
