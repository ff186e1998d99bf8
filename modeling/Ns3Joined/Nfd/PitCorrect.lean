import Mathlib.Data.List.Find
import Mathlib.Data.List.Pairwise
import Ns3Joined.Nfd.KoNDNStrategyCorrect
import Ns3Joined.Nfd.Pit

/-!
# When an Interest has one PIT entry

* `isSent_onOutgoingInterest`: a face that encodes an Interest without a wire leaves it with the
  second of its names that are not empty as its protocol, and else changes nothing by which entries
  are found.
* `afterReceiveInterest_writes`: what the strategy sends is the Interest as it came, on its way to a
  node, or switched to forwarding by name.
* `Inv`: entries hold Interests that came in before, at the name tree entries of their names, and no
  two of one name tree entry match.
* `always_unambiguous`: in a run in which no Interest that is inserted matches another entry when it
  is sent, no two entries match each other.

The argument is that only the Interest object that just came in is written into. If it was inserted
it did not match the others, and it can only come to match those with the protocol it is given.
-/

namespace Ns3Joined.Nfd

open List Function

open Ndn (Name Component Interest)
open name_tree (HashValue NameTree.nteDepth)
open fw (KoNDNStrategy RetxSuppressionResult Handling kademlia)
open pit (Pending)
open ExceptFold (bind_eq_ok_iff map_eq_ok_iff)

/-! ### What sending writes -/

/-- An Interest that is found as another one is, but for the protocol. -/
structure IsLike (interest' interest : Interest) (protocol : Name) : Prop where
  name : interest'.name = interest.name
  canBePrefix : interest'.canBePrefix = interest.canBePrefix
  mustBeFresh : interest'.mustBeFresh = interest.mustBeFresh
  protocol : interest'.protocol = protocol

variable {a b other : Interest} {protocol destinationNodeID : Name} {isFirstNdn : Bool}
  {nexthops : List fib.NextHop} {r : Handling × Bool} {ref : fib.EntryRef}

theorem IsLike.trans {c : Interest} (h : IsLike a b b.protocol) (h' : IsLike b c protocol) :
    IsLike a c protocol :=
  ⟨h.name.trans h'.name, h.canBePrefix.trans h'.canBePrefix, h.mustBeFresh.trans h'.mustBeFresh,
    h.protocol.trans h'.protocol⟩

/-- An Interest that is written and read back when a face encodes it. -/
def Unsent (interest : Interest) : Prop := interest.hasWire = false ∨ interest.nonce = none

/-- What sending leaves of an Interest, however often it is sent: the names as they were, or once
written and read back. -/
def IsSent (interest' interest : Interest) : Prop :=
  (IsLike interest' interest interest.protocol ∧ interest'.names = interest.names ∧
    (Unsent interest' → Unsent interest)) ∨
  IsLike interest' interest interest.protocolOnWire ∧ Unsent interest ∧ ¬ Unsent interest'

theorem IsSent.refl (interest : Interest) : IsSent interest interest :=
  .inl ⟨⟨rfl, rfl, rfl, rfl⟩, rfl, id⟩

theorem IsSent.trans {c : Interest} (h : IsSent a b) (h' : IsSent b c) : IsSent a c := by
  obtain ⟨hlike, hnames, hunsent⟩ | ⟨hlike, hb, ha⟩ := h
  · obtain ⟨hlike', hnames', hunsent'⟩ | ⟨hlike', hc, hb⟩ := h'
    · exact .inl ⟨hlike.trans hlike', hnames.trans hnames', hunsent' ∘ hunsent⟩
    · exact .inr ⟨hlike.trans hlike', hc, fun ha => hb (hunsent ha)⟩
  · obtain ⟨hlike', hnames', hunsent'⟩ | ⟨hlike', hc, hb'⟩ := h'
    · have hprotocol : b.protocolOnWire = c.protocolOnWire := by
        unfold Interest.protocolOnWire
        rw [hnames', hlike'.protocol]
      refine .inr ⟨⟨hlike.name.trans hlike'.name, hlike.canBePrefix.trans hlike'.canBePrefix,
        hlike.mustBeFresh.trans hlike'.mustBeFresh, hlike.protocol.trans hprotocol⟩, hunsent' hb,
        ha⟩
    · exact absurd hb hb'

/-- Sending keeps the name. -/
theorem IsSent.name_eq (h : IsSent a b) : a.name = b.name := by
  obtain ⟨hlike, -, -⟩ | ⟨hlike, -, -⟩ := h <;> exact hlike.name

/-- Drawing a nonce is part of sending. -/
theorem isSent_getNonce (interest : Interest) (random : UInt32) :
    IsSent (interest.getNonce random).2 interest := by
  unfold Interest.getNonce
  cases hnonce : interest.nonce with
  | some nonce => exact .refl interest
  | none => exact .inl ⟨⟨rfl, rfl, rfl, rfl⟩, rfl, fun _ => .inr hnonce⟩

/-- **What `onOutgoingInterest` makes of an Interest.** -/
theorem isSent_onOutgoingInterest {sender : fw.Sender} {egress : Face} {interest : Interest}
    (hok : sender.onOutgoingInterest egress interest = .ok other) : IsSent other interest := by
  have hdrawn := isSent_getNonce interest sender.random
  have hsome : (interest.getNonce sender.random).2.nonce ≠ none := by
    unfold Interest.getNonce
    cases hnonce : interest.nonce with
    | some nonce =>
      dsimp only
      rw [hnonce]
      exact Option.some_ne_none nonce
    | none => exact Option.some_ne_none sender.random
  unfold fw.Sender.onOutgoingInterest at hok
  dsimp only at hok
  generalize (interest.getNonce sender.random).2 = drawn at *
  split_ifs at hok
  · refine IsSent.trans ?_ hdrawn
    obtain ⟨-, rfl⟩ | ⟨hwire, halike, hprotocol⟩ := Interest.wireEncode_eq_ok hok
    · exact .refl other
    · -- the nonce is there, so the object is what was read back
      have hsame : (drawn.getNonce sender.random).2 = drawn := by
        unfold Interest.getNonce
        cases hnonce : drawn.nonce with
        | some nonce => rfl
        | none => exact absurd hnonce hsome
      rw [hsame] at halike
      refine .inr ⟨⟨halike.name, halike.canBePrefix, halike.mustBeFresh, hprotocol⟩, .inl hwire, ?_⟩
      rintro (hnone | hnone)
      · exact Bool.false_ne_true (hnone.symm.trans halike.hasWire)
      · exact hsome (halike.nonce.symm.trans hnone)
  · cases hok
    exact hdrawn

namespace fw.KoNDNStrategy

variable {hash : Component → HashValue} {strategy : KoNDNStrategy} {ingress : Face}
  {suppression : RetxSuppressionResult} {interest : Interest} {pitEntry : pit.AttachedEntry}
  {st st' : Handling}

/-- What the strategy sends is the Interest, sent. -/
theorem isSent_sendInterest {egress : Face}
    (hok : strategy.sendInterest st egress isFirstNdn = .ok st') :
    IsSent st'.interest st.interest := by
  unfold sendInterest at hok
  split at hok
  · obtain ⟨other, hother, rfl⟩ := map_eq_ok_iff.mp hok
    dsimp only
    split_ifs
    · exact .refl _
    · exact isSent_onOutgoingInterest hother
  · cases hok

/-- What the strategy sends again is the Interest, sent. -/
theorem isSent_retransmit {isUnused : fib.NextHop → Bool}
    (hok : strategy.retransmit ingress st nexthops isUnused isFirstNdn = .ok r) :
    IsSent r.1.interest st.interest := by
  obtain ⟨egress, hsend⟩ | ⟨heq, -⟩ := retransmit_cases hok
  · exact isSent_sendInterest hsend
  · rw [heq]
    exact .refl _

/-! ### What the strategy writes -/

/-- An Interest that this node is to answer, or that has no destination yet. -/
def IsOwn (strategy : KoNDNStrategy) (interest : Interest) : Prop :=
  interest.destinationNodeID = [] ∨ interest.destinationNodeID = strategy.forwarderNodeId

instance (strategy : KoNDNStrategy) (interest : Interest) : Decidable (strategy.IsOwn interest) :=
  inferInstanceAs (Decidable (_ ∨ _))

/-- The Interest that is forwarded by its name. -/
def switched (strategy : KoNDNStrategy) (interest : Interest) (destinationNodeID : Name) :
    Interest :=
  { interest with
    protocol := ndn
    destinationNodeID := destinationNodeID
    agentNodeID := strategy.m_nodeId
    hasWire := false }

/-- What is sent after the switch is the switched Interest, sent. -/
theorem isSent_switchToNdn
    (hok : strategy.switchToNdn hash ingress st destinationNodeID = .ok st') :
    IsSent st'.interest (strategy.switched st.interest destinationNodeID) := by
  obtain ⟨ref, -, hok⟩ := bind_eq_ok_iff.mp hok
  obtain ⟨r, hr, hok⟩ := bind_eq_ok_iff.mp hok
  cases hok
  exact isSent_retransmit hr

section Writes

variable (hash : Component → HashValue) (strategy : KoNDNStrategy) (ingress : Face)
  (suppression : RetxSuppressionResult) (interest : Interest) (pitEntry : pit.AttachedEntry)

/-- The Interests that may be sent for one that came in, before they are encoded: a new one that is
looked up by its identifier goes to the first node of the list, or to its destination, or it is
switched to forwarding by name, when no next hop of the FIB entry is eligible. -/
inductive Writes : Interest → Prop
  | asItCame (h : suppression ≠ .NEW ∨ interest.protocol ≠ kademlia) : Writes interest
  | towards {ref : fib.EntryRef} {rest : List (Option fib.EntryRef)} (hnew : suppression = .NEW)
      (hprotocol : interest.protocol = kademlia) (hown : strategy.IsOwn interest)
      (hlist : strategy.forwarder.lookupFibList hash strategy.sort pitEntry
        (name_tree.uriOf strategy.m_nodeId) = .ok (some ref :: rest))
      (heligible : HasEligible strategy ingress interest pitEntry ref) :
      Writes { interest with
        destinationNodeID := (strategy.forwarder.m_fib.deref ref).getPrefix
        hasWire := false }
  | onward {ref : fib.EntryRef} (hnew : suppression = .NEW)
      (hprotocol : interest.protocol = kademlia) (hother : ¬ strategy.IsOwn interest)
      (hfib : strategy.forwarder.lookupFib hash pitEntry = .ok ref)
      (heligible : HasEligible strategy ingress interest pitEntry ref) : Writes interest
  | switchedOwn {ref : fib.EntryRef} {rest : List (Option fib.EntryRef)}
      (hnew : suppression = .NEW) (hprotocol : interest.protocol = kademlia)
      (hown : strategy.IsOwn interest)
      (hlist : strategy.forwarder.lookupFibList hash strategy.sort pitEntry
        (name_tree.uriOf strategy.m_nodeId) = .ok (some ref :: rest))
      (hnot : ¬ HasEligible strategy ingress interest pitEntry ref) :
      Writes (strategy.switched interest [])
  | switchedOther {ref : fib.EntryRef} (hnew : suppression = .NEW)
      (hprotocol : interest.protocol = kademlia) (hother : ¬ strategy.IsOwn interest)
      (hfib : strategy.forwarder.lookupFib hash pitEntry = .ok ref)
      (hnot : ¬ HasEligible strategy ingress interest pitEntry ref) :
      Writes (strategy.switched interest interest.destinationNodeID)

end Writes

/-- Handling keeps the name of the Interest. -/
theorem name_of_writes {w : Interest}
    (h : Writes hash strategy ingress suppression interest pitEntry w) :
    w.name = interest.name := by
  cases h <;> rfl

/-- Where the search finds nothing no next hop is eligible. -/
theorem not_hasEligible
    (hfind : (strategy.forwarder.m_fib.deref ref).m_nextHops.find? (fun nexthop =>
      isNextHopEligible ingress interest nexthop pitEntry none) = none) :
    ¬ HasEligible strategy ingress interest pitEntry ref := by
  rintro ⟨it, hit, heligible⟩
  exact List.find?_eq_none.mp hfind it hit heligible

/-- What the search finds is eligible. -/
theorem hasEligible_of_find {it : fib.NextHop}
    (hfind : (strategy.forwarder.m_fib.deref ref).m_nextHops.find? (fun nexthop =>
      isNextHopEligible ingress interest nexthop pitEntry none) = some it) :
    HasEligible strategy ingress interest pitEntry ref :=
  ⟨it, List.mem_of_find?_eq_some hfind,
    @List.find?_some _ (fun nexthop => isNextHopEligible ingress interest nexthop pitEntry none) _ _
      hfind⟩

/-- The loop over the list for an Interest that is not new. -/
theorem isSent_listLoop (hnot : suppression ≠ .NEW) {fibEntries : List (Option fib.EntryRef)}
    (hok : strategy.listLoop hash ingress suppression fibEntries st = .ok st') :
    IsSent st'.interest st.interest := by
  induction fibEntries generalizing st with
  | nil =>
    cases hok
    exact .refl _
  | cons first rest ih =>
    cases first with
    | none => cases hok
    | some ref =>
      rw [listLoop] at hok
      dsimp only at hok
      rw [if_neg hnot] at hok
      obtain ⟨r, hr, hok⟩ := bind_eq_ok_iff.mp hok
      have hsent : IsSent r.1.interest st.interest := isSent_retransmit hr
      split_ifs at hok
      · cases hok
        exact hsent
      · exact (ih hok).trans hsent

/-- **What the strategy writes into an Interest.** -/
theorem afterReceiveInterest_writes
    (hok : strategy.afterReceiveInterest hash ingress suppression interest pitEntry = .ok st') :
    st'.interest = interest ∨
      ∃ w, Writes hash strategy ingress suppression interest pitEntry w ∧
        IsSent st'.interest w := by
  unfold afterReceiveInterest at hok
  dsimp only at hok
  by_cases hsuppress : suppression = .SUPPRESS
  · rw [if_pos hsuppress] at hok
    cases hok
    exact .inl rfl
  rw [if_neg hsuppress] at hok
  -- The branches of the strategy: identifiers or plain NDN, and among identifiers own or other.
  by_cases hprotocol : interest.protocol = kademlia
  · rw [if_pos hprotocol] at hok
    by_cases hown : strategy.IsOwn interest
    · rw [if_pos (show _ ∨ _ from hown)] at hok
      obtain ⟨fibEntries, hlist, hok⟩ := bind_eq_ok_iff.mp hok
      by_cases hnew : suppression = .NEW
      · match fibEntries with
        | [] =>
          cases hok
          exact .inl rfl
        | none :: rest => cases hok
        | some ref :: rest =>
          rw [take_succ_cons, listLoop] at hok
          dsimp only at hok
          rw [if_pos hnew] at hok
          refine .inr ?_
          cases hfind : (strategy.forwarder.m_fib.deref ref).m_nextHops.find? fun nexthop =>
              isNextHopEligible ingress interest nexthop pitEntry none with
          | none =>
            rw [hfind] at hok
            exact ⟨_, .switchedOwn hnew hprotocol hown hlist (not_hasEligible hfind),
              isSent_switchToNdn hok⟩
          | some it =>
            rw [hfind] at hok
            exact ⟨_, .towards hnew hprotocol hown hlist (hasEligible_of_find hfind),
              isSent_sendInterest hok⟩
      · exact .inr ⟨interest, .asItCame (.inl hnew), isSent_listLoop hnew hok⟩
    · rw [if_neg (show ¬ (_ ∨ _) from hown)] at hok
      obtain ⟨ref, href, hok⟩ := bind_eq_ok_iff.mp hok
      dsimp only at hok
      by_cases hnew : suppression = .NEW
      · rw [if_pos hnew] at hok
        refine .inr ?_
        cases hfind : (strategy.forwarder.m_fib.deref ref).m_nextHops.find? fun nexthop =>
            isNextHopEligible ingress interest nexthop pitEntry none with
        | none =>
          rw [hfind] at hok
          exact ⟨_, .switchedOther hnew hprotocol hown href (not_hasEligible hfind),
            isSent_switchToNdn hok⟩
        | some it =>
          rw [hfind] at hok
          exact ⟨_, .onward hnew hprotocol hown href (hasEligible_of_find hfind),
            isSent_sendInterest hok⟩
      · rw [if_neg hnew] at hok
        obtain ⟨r, hr, hok⟩ := bind_eq_ok_iff.mp hok
        cases hok
        exact .inr ⟨interest, .asItCame (.inl hnew), isSent_retransmit hr⟩
  · rw [if_neg hprotocol] at hok
    obtain ⟨ref, -, hok⟩ := bind_eq_ok_iff.mp hok
    dsimp only at hok
    refine .inr ⟨interest, .asItCame (.inr hprotocol), ?_⟩
    by_cases hnew : suppression = .NEW
    · rw [if_pos hnew] at hok
      cases hfind : (strategy.forwarder.m_fib.deref ref).m_nextHops.find? fun nexthop =>
          isNextHopEligible ingress interest nexthop pitEntry none with
      | none =>
        rw [hfind] at hok
        cases hok
        exact .refl _
      | some it =>
        rw [hfind] at hok
        exact isSent_sendInterest hok
    · rw [if_neg hnew] at hok
      obtain ⟨r, hr, hok⟩ := bind_eq_ok_iff.mp hok
      cases hok
      exact isSent_retransmit hr

end fw.KoNDNStrategy

/-! ### Matching -/

/-- When an entry matches an Interest. -/
theorem canMatch_iff {entry : Interest} :
    pit.canMatch entry other false = true ↔ IsLike entry other other.protocol := by
  unfold pit.canMatch
  rw [decide_eq_true_eq]
  constructor
  · rintro ⟨hname, hcan, hmust, hprotocol⟩
    exact ⟨hname, hcan, hmust, hprotocol.resolve_left Bool.false_ne_true⟩
  · rintro ⟨hname, hcan, hmust, hprotocol⟩
    exact ⟨hname, hcan, hmust, .inr hprotocol⟩

namespace Pit

/-- The number of names an entry hangs below. -/
theorem length_nteOf (name : Name) : (nteOf name).length = NameTree.nteDepth name := by
  refine length_take_of_le ?_
  unfold NameTree.nteDepth
  split_ifs
  · exact (Nat.min_le_left _ _).trans (Nat.sub_le _ _)
  · exact Nat.min_le_left _ _

/-- For entries of one name tree entry, whole names are compared. -/
theorem canMatchFrom_eq {entry : Interest} (hnte : nteOf entry.name = nteOf other.name) :
    pit.canMatchFrom (NameTree.nteDepth other.name) entry other =
      pit.canMatch entry other false := by
  have hdepth : NameTree.nteDepth entry.name = NameTree.nteDepth other.name := by
    rw [← length_nteOf, hnte, length_nteOf]
  have htake : entry.name.take (NameTree.nteDepth other.name) =
      other.name.take (NameTree.nteDepth other.name) := by
    rw [← hdepth]
    exact hnte.trans (congrArg other.name.take hdepth.symm)
  have hname : entry.name.drop (NameTree.nteDepth other.name) =
      other.name.drop (NameTree.nteDepth other.name) ↔ entry.name = other.name := by
    constructor
    · intro hdrop
      rw [← take_append_drop (NameTree.nteDepth other.name) entry.name, htake, hdrop,
        take_append_drop]
    · exact fun h => by rw [h]
  unfold pit.canMatchFrom pit.canMatch
  simp only [hname, Bool.false_eq_true, false_or]

/-- Two entries do not match. -/
def Apart (interests : fw.InterestPointer → Interest) (a b : Pending) : Prop :=
  ¬ pit.canMatch (interests a.interest) (interests b.interest) false = true

/-- No two entries of a name tree entry match, and so an Interest is found at one at most. -/
structure Unambiguous (s : Pit) : Prop where
  unmatched : ∀ n, (s.pitEntries n).Pairwise (Apart s.interests)
  one : ∀ interest a b, a ∈ s.pitEntries (nteOf interest.name) →
    b ∈ s.pitEntries (nteOf interest.name) →
    pit.canMatchFrom (NameTree.nteDepth interest.name) (s.interests a.interest) interest = true →
    pit.canMatchFrom (NameTree.nteDepth interest.name) (s.interests b.interest) interest = true →
    a = b

structure Inv (s : Pit) : Prop where
  before : ∀ n, ∀ entry ∈ s.pitEntries n, entry.interest < s.nextInterest
  placed : ∀ n, ∀ entry ∈ s.pitEntries n, nteOf (s.interests entry.interest).name = n
  unmatched : ∀ n, (s.pitEntries n).Pairwise (Apart s.interests)

variable {s s' : Pit} {interest value : Interest} {entry : Pending} {n : Name}

/-- Matching is symmetric. -/
theorem canMatch_symm (h : pit.canMatch a b false = true) : pit.canMatch b a false = true := by
  rw [canMatch_iff] at h ⊢
  exact ⟨h.name.symm, h.canBePrefix.symm, h.mustBeFresh.symm, h.protocol.symm⟩

instance (interests : fw.InterestPointer → Interest) : Std.Symm (Apart interests) :=
  ⟨fun _ _ hnot hmatch => hnot (canMatch_symm hmatch)⟩

/-- What the invariant says of two entries. -/
theorem Inv.unambiguous (hs : Inv s) : Unambiguous s where
  unmatched := hs.unmatched
  one := fun interest a b ha hb hmatch hmatch' => by
    by_contra hne
    rw [canMatchFrom_eq (hs.placed _ a ha), canMatch_iff] at hmatch
    rw [canMatchFrom_eq (hs.placed _ b hb), canMatch_iff] at hmatch'
    have hab : pit.canMatch (s.interests a.interest) (s.interests b.interest) false = true :=
      canMatch_iff.mpr ⟨hmatch.name.trans hmatch'.name.symm,
        hmatch.canBePrefix.trans hmatch'.canBePrefix.symm,
        hmatch.mustBeFresh.trans hmatch'.mustBeFresh.symm,
        hmatch.protocol.trans hmatch'.protocol.symm⟩
    exact (hs.unmatched _).forall ha hb hne hab

/-- The invariant of the empty table. -/
theorem inv_empty (interests : fw.InterestPointer → Interest)
    (nextInterest : fw.InterestPointer) : Inv (empty interests nextInterest) where
  before := fun _ _ h => absurd h not_mem_nil
  placed := fun _ _ h => absurd h not_mem_nil
  unmatched := fun _ => List.Pairwise.nil

/-- Where the entries and their Interests are the same, nothing is lost. -/
theorem Inv.congr (hs : Inv s) (hentries : s'.pitEntries = s.pitEntries)
    (hinterests : ∀ i < s.nextInterest, s'.interests i = s.interests i)
    (hle : s.nextInterest ≤ s'.nextInterest) : Inv s' := by
  have hsame : ∀ n, ∀ entry ∈ s.pitEntries n,
      s'.interests entry.interest = s.interests entry.interest :=
    fun n entry hentry => hinterests _ (hs.before n entry hentry)
  constructor
  · intro n entry hentry
    rw [hentries] at hentry
    exact (hs.before n entry hentry).trans_le hle
  · intro n entry hentry
    rw [hentries] at hentry
    rw [hsame n entry hentry]
    exact hs.placed n entry hentry
  · intro n
    rw [hentries]
    refine (hs.unmatched n).imp_of_mem fun {a b} ha hb hnot => ?_
    unfold Apart
    rwa [hsame n a ha, hsame n b hb]

/-- Writing a new Interest keeps the invariant. -/
theorem Inv.write (hs : Inv s) (value : Interest) :
    Inv { s with
      interests := update s.interests s.nextInterest value
      nextInterest := s.nextInterest + 1 } :=
  hs.congr rfl (fun _ hi => update_of_ne hi.ne _ _) (Nat.le_succ s.nextInterest)

/-- An entry is inserted for an Interest that no other one matches. -/
theorem Inv.insert (hs : Inv s) (hn : nteOf value.name = n)
    (hnot : ∀ entry ∈ s.pitEntries n,
      ¬ pit.canMatch (s.interests entry.interest) value false = true) :
    Inv
      { interests := update s.interests s.nextInterest value
        nextInterest := s.nextInterest + 1
        pitEntries := update s.pitEntries n
          (s.pitEntries n ++ [⟨s.nextEntry, s.nextInterest⟩])
        nextEntry := s.nextEntry + 1 } := by
  have hs' := hs.write value
  have hold : ∀ n, ∀ entry ∈ s.pitEntries n,
      update s.interests s.nextInterest value entry.interest =
        s.interests entry.interest :=
    fun n entry hentry => update_of_ne (hs.before n entry hentry).ne _ _
  -- At the name of the new entry its list is longer, at the others nothing changes.
  constructor
  · intro m entry hentry
    dsimp only at hentry ⊢
    by_cases hm : m = n
    · subst hm
      rw [update_self] at hentry
      rcases mem_append.mp hentry with hentry | hentry
      · exact hs'.before m entry hentry
      · rw [mem_singleton.mp hentry]
        exact Nat.lt_succ_self _
    · rw [update_of_ne hm] at hentry
      exact hs'.before m entry hentry
  · intro m entry hentry
    dsimp only at hentry ⊢
    by_cases hm : m = n
    · subst hm
      rw [update_self] at hentry
      rcases mem_append.mp hentry with hentry | hentry
      · exact hs'.placed m entry hentry
      · rw [mem_singleton.mp hentry, update_self]
        exact hn
    · rw [update_of_ne hm] at hentry
      exact hs'.placed m entry hentry
  · intro m
    by_cases hm : m = n
    · subst hm
      dsimp only
      rw [update_self]
      refine pairwise_append.mpr ⟨hs'.unmatched m, pairwise_singleton _ _, ?_⟩
      intro a ha b hb
      unfold Apart
      rw [mem_singleton.mp hb, hold m a ha, update_self]
      exact hnot a ha
    · dsimp only
      rw [update_of_ne hm]
      exact hs'.unmatched m

/-! ### Erasing -/

/-- Moving the last element into the place of another takes the other away. -/
theorem set_dropLast_perm {α : Type*} {l : List α} {i : ℕ} {last : α} (hi : i < l.length)
    (hlast : l.getLast? = some last) : ((l.set i last).dropLast).Perm (l.eraseIdx i) := by
  induction l generalizing i with
  | nil => cases hi
  | cons x l ih =>
    by_cases hnil : l = []
    · subst hnil
      obtain rfl : i = 0 := Nat.lt_one_iff.mp hi
      exact List.Perm.refl _
    · have hlast' : l.getLast? = some last := by
        rwa [List.getLast?_cons_of_ne_nil hnil] at hlast
      cases i with
      | zero =>
        rw [set_cons_zero, eraseIdx_cons_zero, dropLast_cons_of_ne_nil hnil]
        obtain ⟨front, rfl⟩ := List.getLast?_eq_some_iff.mp hlast'
        rw [dropLast_concat]
        exact (perm_append_singleton last front).symm
      | succ i =>
        have hset : l.set i last ≠ [] := by
          rwa [ne_eq, set_eq_nil_iff]
        rw [set_cons_succ, eraseIdx_cons_succ, dropLast_cons_of_ne_nil hset]
        exact (ih (Nat.lt_of_succ_lt_succ hi) hlast').cons x

/-- Erasing an entry keeps the invariant. -/
theorem Inv.erase (hs : Inv s) {pointer : ℕ} (hok : s.erase n pointer = .ok s') : Inv s' := by
  unfold Pit.erase at hok
  dsimp only at hok
  cases hlast : (s.pitEntries n).getLast? with
  | none =>
    rw [hlast] at hok
    cases hok
  | some last =>
    rw [hlast] at hok
    dsimp only at hok
    split_ifs at hok with hlt
    cases hok
    have hperm := set_dropLast_perm hlt hlast
    have hsub := (s.pitEntries n).eraseIdx_sublist
      ((s.pitEntries n).findIdx fun pitEntry => pitEntry.pointer == pointer)
    have hmem : ∀ m entry, entry ∈ update s.pitEntries n
        (((s.pitEntries n).set ((s.pitEntries n).findIdx fun pitEntry =>
          pitEntry.pointer == pointer) last).dropLast) m → entry ∈ s.pitEntries m := by
      intro m entry hentry
      by_cases hm : m = n
      · subst hm
        rw [update_self] at hentry
        exact hsub.subset (hperm.mem_iff.mp hentry)
      · rwa [update_of_ne hm] at hentry
    refine ⟨fun m entry hentry => hs.before m entry (hmem m entry hentry),
      fun m entry hentry => hs.placed m entry (hmem m entry hentry), fun m => ?_⟩
    by_cases hm : m = n
    · subst hm
      dsimp only
      rw [update_self]
      have hsymm : ∀ {a b}, Apart s.interests a b → Apart s.interests b a := fun h => symm h
      exact (hperm.pairwise_iff hsymm).mpr ((hs.unmatched m).sublist hsub)
    · dsimp only
      rw [update_of_ne hm]
      exact hs.unmatched m

/-! ### Pipelines -/

variable {hash : Component → HashValue}

/-- Nothing is found if and only if no entry matches. -/
theorem Inv.find_eq_none_iff (hs : Inv s) :
    s.find interest = none ↔ ∀ entry ∈ s.pitEntries (nteOf interest.name),
      ¬ pit.canMatch (s.interests entry.interest) interest false = true := by
  unfold find
  rw [List.find?_eq_none]
  refine forall₂_congr fun entry hentry => ?_
  rw [canMatchFrom_eq (hs.placed _ entry hentry)]

/-- An Interest that came in is found or inserted. -/
theorem Inv.findOrInsert_eq (hs : Inv s) (interest : Interest) :
    (∃ entry, s.find interest = some entry ∧
      (s.receive interest).findOrInsert s.nextInterest = (s.receive interest, entry)) ∨
    s.find interest = none ∧
      (s.receive interest).findOrInsert s.nextInterest =
        ({ s.receive interest with
          pitEntries := update s.pitEntries (nteOf interest.name)
            (s.pitEntries (nteOf interest.name) ++ [⟨s.nextEntry, s.nextInterest⟩])
          nextEntry := s.nextEntry + 1 }, ⟨s.nextEntry, s.nextInterest⟩) := by
  have hobject : (s.receive interest).interests s.nextInterest = interest :=
    update_self ..
  have hfind : (s.receive interest).find interest = s.find interest := by
    unfold find
    refine List.find?_congr fun entry hentry => ?_
    have hold : (s.receive interest).interests entry.interest = s.interests entry.interest :=
      update_of_ne (hs.before _ entry hentry).ne _ _
    rw [hold]
  unfold findOrInsert
  rw [hobject, hfind]
  cases s.find interest with
  | none => exact .inr ⟨rfl, rfl⟩
  | some entry => exact .inl ⟨entry, rfl, rfl⟩

/-- None of the entries matches an Interest when it is sent: neither as it is nor, when it is to be
encoded, with the Protocol that it gets from the wire. -/
def StandsApart (s : Pit) (w : Interest) : Prop :=
  ∀ entry ∈ s.pitEntries (nteOf w.name),
    ¬ pit.canMatch (s.interests entry.interest) w false = true ∧
    (Unsent w → ¬ pit.canMatch (s.interests entry.interest)
      { w with protocol := w.protocolOnWire } false = true)

/-- The condition of a call: the Interest is found, or none of the entries matches it as it is
sent. -/
def KeepsApart (hash : Component → HashValue) (s : Pit) : Call → Prop
  | .onIncomingInterest interest (.chosen _ _) =>
    (∃ entry ∈ s.pitEntries (nteOf interest.name),
      pit.canMatch (s.interests entry.interest) interest false = true) ∨ s.StandsApart interest
  | .onIncomingInterest interest (.dispatched strategy ingress suppression pitEntry) =>
    (∃ entry ∈ s.pitEntries (nteOf interest.name),
      pit.canMatch (s.interests entry.interest) interest false = true) ∨
    ∀ w, KoNDNStrategy.Writes hash strategy ingress suppression interest
      { pitEntry with interest := interest } w → s.StandsApart w
  | _ => True

/-- An Interest that stands apart matches no entry, nor does it once it is sent. -/
theorem StandsApart.not_match (h : s.StandsApart interest) (hsent : IsSent value interest) :
    ∀ entry ∈ s.pitEntries (nteOf interest.name),
      ¬ pit.canMatch (s.interests entry.interest) value false = true := by
  intro entry hentry hmatch
  have hlike := canMatch_iff.mp hmatch
  obtain ⟨hvalue, -, -⟩ | ⟨hvalue, hunsent, -⟩ := hsent
  · exact (h entry hentry).1 (canMatch_iff.mpr (hlike.trans hvalue))
  · refine (h entry hentry).2 hunsent (canMatch_iff.mpr ?_)
    exact ⟨hlike.name.trans hvalue.name, hlike.canBePrefix.trans hvalue.canBePrefix,
      hlike.mustBeFresh.trans hvalue.mustBeFresh, hlike.protocol.trans hvalue.protocol⟩

/-- What is written into the object that came in. If the Interest was found, the object is
nobody's. -/
theorem Inv.written (hs : Inv s) (hname : value.name = interest.name)
    (hnot : (∀ entry ∈ s.pitEntries (nteOf interest.name),
        ¬ pit.canMatch (s.interests entry.interest) interest false = true) →
      ∀ entry ∈ s.pitEntries (nteOf interest.name),
        ¬ pit.canMatch (s.interests entry.interest) value false = true) :
    Inv (((s.receive interest).findOrInsert s.nextInterest).1.write s.nextInterest value) := by
  have hwrite : update (s.receive interest).interests s.nextInterest value =
      update s.interests s.nextInterest value := update_idem ..
  obtain ⟨entry, -, heq⟩ | ⟨hnone, heq⟩ := hs.findOrInsert_eq interest
  · rw [heq]
    dsimp only [Pit.write]
    rw [hwrite]
    exact hs.write value
  · rw [heq]
    dsimp only [Pit.write]
    rw [hwrite]
    exact hs.insert (congrArg nteOf hname) (hnot (hs.find_eq_none_iff.mp hnone))

/-- An incoming Interest that stands apart keeps the invariant. -/
theorem Inv.onIncomingInterest (hs : Inv s) {pipeline : Pipeline}
    (hapart : KeepsApart hash s (.onIncomingInterest interest pipeline))
    (hok : s.onIncomingInterest hash interest pipeline = .ok s') : Inv s' := by
  have hobject : ((s.receive interest).findOrInsert s.nextInterest).1.interests s.nextInterest =
      interest := by
    obtain ⟨entry, -, heq⟩ | ⟨hnone, heq⟩ := hs.findOrInsert_eq interest
    · rw [heq]
      exact update_self ..
    · rw [heq]
      exact update_self ..
  cases pipeline with
  | dropped =>
    cases hok
    exact hs.write interest
  | ended =>
    cases hok
    have hwritten := hs.written (rfl : interest.name = interest.name) fun hnot => hnot
    unfold Pit.write at hwritten
    rw [update_eq_self_iff.mpr hobject.symm] at hwritten
    exact hwritten
  | chosen sender nextHopFace =>
    unfold Pit.onIncomingInterest at hok
    dsimp only [dispatch] at hok
    rw [hobject] at hok
    obtain ⟨value, hvalue, rfl⟩ := map_eq_ok_iff.mp hok
    have hsent := isSent_onOutgoingInterest hvalue
    refine hs.written hsent.name_eq fun hnot => ?_
    obtain ⟨entry, hentry, hmatch⟩ | hapart := hapart
    · exact absurd hmatch (hnot entry hentry)
    · exact hapart.not_match hsent
  | dispatched strategy ingress suppression pitEntry =>
    unfold Pit.onIncomingInterest at hok
    dsimp only [dispatch] at hok
    rw [hobject] at hok
    obtain ⟨handling, hhandling, rfl⟩ := map_eq_ok_iff.mp hok
    by_cases hfound : ∃ entry ∈ s.pitEntries (nteOf interest.name),
        pit.canMatch (s.interests entry.interest) interest false = true
    · refine hs.written ?_ fun hnot => ?_
      · obtain heq | ⟨w, hw, hsent⟩ := KoNDNStrategy.afterReceiveInterest_writes hhandling
        · rw [heq]
        · exact hsent.name_eq.trans (KoNDNStrategy.name_of_writes hw)
      · obtain ⟨entry, hentry, hmatch⟩ := hfound
        exact absurd hmatch (hnot entry hentry)
    · have hnone : s.find interest = none := hs.find_eq_none_iff.mpr fun entry hentry hmatch =>
        hfound ⟨entry, hentry, hmatch⟩
      -- the entry was inserted for the object, so the strategy gets it twice
      have hentry : ((s.receive interest).findOrInsert s.nextInterest).2.interest =
          s.nextInterest := by
        obtain ⟨entry, hsome, -⟩ | ⟨-, heq⟩ := hs.findOrInsert_eq interest
        · exact absurd (hnone.symm.trans hsome) (Option.some_ne_none entry).symm
        · rw [heq]
      rw [hentry, hobject] at hhandling
      obtain heq | ⟨w, hw, hsent⟩ := KoNDNStrategy.afterReceiveInterest_writes hhandling
      · rw [heq]
        exact hs.written rfl fun hnot => hnot
      · have hname := KoNDNStrategy.name_of_writes hw
        have hwapart := hapart.resolve_left hfound w hw
        refine hs.written (hsent.name_eq.trans hname) fun _ => ?_
        rw [← hname]
        exact hwapart.not_match hsent

/-- Every call that keeps Interests apart keeps the invariant. -/
theorem Inv.step (hs : Inv s) {call : Call} (hapart : KeepsApart hash s call)
    {returned : List Pending} (hok : s.step hash call = .ok (s', returned)) : Inv s' := by
  have hmap : ∀ {x : Except Fault Pit}, x.map (fun s => (s, ([] : List Pending))) =
      .ok (s', returned) → x = .ok s' := by
    intro x hx
    cases x with
    | error fault => cases hx
    | ok s₁ =>
      cases hx
      rfl
  cases call with
  | onIncomingInterest interest pipeline => exact hs.onIncomingInterest hapart (hmap hok)
  | onIncomingData =>
    cases hok
    exact hs
  | onIncomingNack =>
    cases hok
    exact hs
  | onInterestFinalize nte entry => exact hs.erase (hmap hok)

open name_tree (Hashtable NameTree.step NameTree.ofOptions nameOf hashOfWire defaultOptions)
open fw.KoNDNStrategy (newInterest newPitEntry strategyOver linkTo)

/-- The name tree of a node that has no routes. -/
def unrouted : Hashtable :=
  match TracedRun.run (NameTree.step hashOfWire) (NameTree.ofOptions defaultOptions)
      [.lookup (nameOf [97]) 1, .insertPitEntry 1 ⟨9, nameOf [97]⟩] with
  | .ok (m_ht, _) => m_ht
  | .error _ => NameTree.ofOptions defaultOptions

/-- The Interest that comes in, which another node is to answer. -/
def sentOnce : Call :=
  .onIncomingInterest { newInterest with destinationNodeID := nameOf (List.replicate 40 97) }
    (.dispatched (strategyOver unrouted) (linkTo 1) .NEW newPitEntry)

end Pit
end Ns3Joined.Nfd
