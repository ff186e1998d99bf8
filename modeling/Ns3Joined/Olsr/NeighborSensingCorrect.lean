import Ns3Joined.Library.TracedRun
import Ns3Joined.Olsr.NeighborSensing

/-!
# The neighbor set follows the link set

There is a neighbor for each main address that the address of some link has, and it is symmetric
if one of its links was when its status was computed last (`Agrees`, one main address at a
time). A step changes this for one main address, or moves all of it to other main addresses.

* `Agrees.transfer`: how it is moved.
* `LinkTupleUpdated_keeps`, `LinkTupleAdded_keeps`: the two ways in which a status is computed.
* `RemoveLinkTuple_keeps`, `ProcessMid_keeps`, `IfaceAssocTupleTimerExpire_keeps`.
* `sound_of_meets`: over runs.
-/

namespace Ns3Joined.Olsr

open KeyedTable List

/-- What is to hold of the neighbor with a main address, and of the links to it. -/
structure Agrees (s : OlsrState) (m : Ipv4Address) : Prop where
  exists_iff : (∃ n ∈ s.m_neighborSet, n.neighborMainAddr = m) ↔
    ∃ l ∈ s.m_linkSet, s.GetMainAddress l.neighborIfaceAddr = m
  status_iff : ∀ n ∈ s.m_neighborSet, n.neighborMainAddr = m → (n.status = .STATUS_SYM ↔
    ∃ l ∈ s.m_linkSet, s.GetMainAddress l.neighborIfaceAddr = m ∧ n.updated ≤ l.symTime)

/-- What is to hold when a handler returns. -/
structure Sound (s : OlsrState) : Prop where
  distinct : Distinct NeighborTuple.neighborMainAddr s.m_neighborSet
  agrees : ∀ m, Agrees s m

/-- There is one link tuple for each interface of a neighbor. -/
structure Keeps (s : OlsrState) : Prop extends Sound s where
  links : Distinct LinkTuple.neighborIfaceAddr s.m_linkSet

variable {s s' : OlsrState} {m senderIface receiverIface : Ipv4Address} {tuple : LinkTuple}
  {msg : MessageHeader Hello} {r' : RoutingProtocol} {actions : List Action}

/-- What agrees for one main address agrees for another, in another state, if the neighbors and
the links of the two are the same. -/
theorem Agrees.transfer {m' : Ipv4Address} (h : Agrees s m)
    (hold : ∀ n' ∈ s'.m_neighborSet, n'.neighborMainAddr = m' →
      ∃ n ∈ s.m_neighborSet, n.neighborMainAddr = m ∧ n'.status = n.status ∧
        n'.updated = n.updated)
    (hkept : ∀ n ∈ s.m_neighborSet, n.neighborMainAddr = m →
      ∃ n' ∈ s'.m_neighborSet, n'.neighborMainAddr = m')
    (hlinks : ∀ l, l ∈ s'.m_linkSet ∧ s'.GetMainAddress l.neighborIfaceAddr = m' ↔
      l ∈ s.m_linkSet ∧ s.GetMainAddress l.neighborIfaceAddr = m) :
    Agrees s' m' where
  exists_iff := by
    constructor
    · rintro ⟨n', hn', hm'⟩
      obtain ⟨n, hn, hm, -⟩ := hold n' hn' hm'
      obtain ⟨l, hl⟩ := h.exists_iff.mp ⟨n, hn, hm⟩
      exact ⟨l, (hlinks l).mpr hl⟩
    · rintro ⟨l, hl⟩
      obtain ⟨n, hn, hm⟩ := h.exists_iff.mpr ⟨l, (hlinks l).mp hl⟩
      exact hkept n hn hm
  status_iff := by
    intro n' hn' hm'
    obtain ⟨n, hn, hm, hstatus, hupdated⟩ := hold n' hn' hm'
    rw [hstatus, hupdated, h.status_iff n hn hm]
    constructor
    · rintro ⟨l, hl, hlm, hle⟩
      obtain ⟨hl', hlm'⟩ := (hlinks l).mpr ⟨hl, hlm⟩
      exact ⟨l, hl', hlm', hle⟩
    · rintro ⟨l, hl, hlm, hle⟩
      obtain ⟨hl', hlm'⟩ := (hlinks l).mp ⟨hl, hlm⟩
      exact ⟨l, hl', hlm', hle⟩

/-- The neighbors with one main address are untouched, and so are its links. -/
theorem Agrees.frame (h : Agrees s m)
    (hsame : ∀ n, n.neighborMainAddr = m → (n ∈ s'.m_neighborSet ↔ n ∈ s.m_neighborSet))
    (hlinks : ∀ l, l ∈ s'.m_linkSet ∧ s'.GetMainAddress l.neighborIfaceAddr = m ↔
      l ∈ s.m_linkSet ∧ s.GetMainAddress l.neighborIfaceAddr = m) :
    Agrees s' m :=
  h.transfer (fun n hn hm => ⟨n, (hsame n hm).mp hn, hm, rfl, rfl⟩)
    (fun n hn hm => ⟨n, (hsame n hm).mpr hn, hm⟩) hlinks

/-! ### The status of a neighbor -/

namespace RoutingProtocol

variable {r : RoutingProtocol}

/-- The search for a symmetric link, by main address. -/
theorem hasSymmetricLink_iff : r.hasSymmetricLink m = true ↔
    ∃ l ∈ r.m_state.m_linkSet, r.m_state.GetMainAddress l.neighborIfaceAddr = m ∧
      r.now ≤ l.symTime := by
  rw [hasSymmetricLink, any_eq_true]
  refine exists_congr fun l => and_congr_right fun _ => ?_
  rw [Bool.and_eq_true, beq_iff_eq, decide_eq_true_eq]

/-- All agrees but one main address, which has a link. -/
structure AgreesBut (s : OlsrState) (m : Ipv4Address) : Prop where
  distinct : Distinct NeighborTuple.neighborMainAddr s.m_neighborSet
  links : Distinct LinkTuple.neighborIfaceAddr s.m_linkSet
  agrees : ∀ m', m' ≠ m → Agrees s m'
  link : ∃ l ∈ s.m_linkSet, s.GetMainAddress l.neighborIfaceAddr = m

/-- Inserting a neighbor of the address keeps the agreement of the others. -/
theorem AgreesBut.insert (h : AgreesBut s m) {t : NeighborTuple} (ht : t.neighborMainAddr = m) :
    AgreesBut (s.InsertNeighborTuple t) m where
  distinct := h.distinct.insert t
  __ := h
  agrees := by
    intro m' hm'
    refine (h.agrees m' hm').frame (fun n hn => ?_) fun l => Iff.rfl
    have hne : n.neighborMainAddr ≠ t.neighborMainAddr := by rw [hn, ht]; exact hm'
    rw [OlsrState.InsertNeighborTuple, h.distinct.insert_mem]
    exact ⟨fun h => h.elim (fun heq => absurd (congrArg _ heq) hne) And.left,
      fun h => .inr ⟨h, hne⟩⟩

/-- Updating the status of an address completes the agreement. -/
theorem updateStatus_keeps (h : AgreesBut r.m_state m)
    (hn : ∃ n ∈ r.m_state.m_neighborSet, n.neighborMainAddr = m) :
    Keeps (r.updateStatus m).m_state where
  distinct := h.distinct.modify fun _ => rfl
  links := h.links
  agrees := by
    intro m'
    by_cases hm' : m' = m
    · subst hm'
      constructor
      · refine ⟨fun _ => h.link, fun _ => ?_⟩
        obtain ⟨n, hn, hm⟩ := hn
        exact ⟨_, (h.distinct.modify_mem _ _).mpr (.inr ⟨n, hn, hm, rfl⟩), hm⟩
      · intro n' hn' hm'
        obtain ⟨-, hne⟩ | ⟨n, -, -, rfl⟩ := (h.distinct.modify_mem _ _).mp hn'
        · exact absurd hm' hne
        · -- the status is the one that was computed at this time
          refine Iff.trans ?_ hasSymmetricLink_iff
          dsimp only
          by_cases hsym : r.hasSymmetricLink m' = true
          · rw [if_pos hsym]
            exact iff_of_true rfl hsym
          · rw [if_neg hsym]
            exact iff_of_false Status.noConfusion hsym
    · refine (h.agrees m' hm').frame (fun n hn => ?_) fun l => Iff.rfl
      refine (h.distinct.modify_mem _ _).trans ⟨?_, fun hmem => .inl ⟨hmem, hn ▸ hm'⟩⟩
      rintro (⟨hmem, -⟩ | ⟨x, -, hx, rfl⟩)
      · exact hmem
      · exact absurd (hn.symm.trans hx) hm'

/-- Updating a link tuple completes the agreement at its neighbor. -/
theorem LinkTupleUpdated_keeps (willingness : UInt8)
    (h : AgreesBut r.m_state (r.m_state.GetMainAddress tuple.neighborIfaceAddr)) :
    Keeps (r.LinkTupleUpdated tuple willingness).m_state := by
  rw [LinkTupleUpdated]
  cases hfind : r.m_state.FindNeighborTuple
      (r.m_state.GetMainAddress tuple.neighborIfaceAddr) with
  | none =>
    refine updateStatus_keeps (h.insert rfl) ⟨_, (h.distinct.insert_mem _ _).mpr (.inl rfl), rfl⟩
  | some n => exact updateStatus_keeps h ⟨n, mem_of_find hfind⟩

/-- Where a link is added, its neighbor gets the status of this link. -/
theorem LinkTupleAdded_keeps (willingness : UInt8)
    (h : AgreesBut r.m_state (r.m_state.GetMainAddress tuple.neighborIfaceAddr))
    (hmem : tuple ∈ r.m_state.m_linkSet)
    (hsym : tuple.symTime < r.now → ∀ l ∈ r.m_state.m_linkSet,
      r.m_state.GetMainAddress l.neighborIfaceAddr =
        r.m_state.GetMainAddress tuple.neighborIfaceAddr → l.symTime < r.now) :
    Keeps (r.LinkTupleAdded tuple willingness).m_state where
  distinct := (h.insert rfl).distinct
  links := h.links
  agrees := by
    intro m'
    by_cases hm' : m' = r.m_state.GetMainAddress tuple.neighborIfaceAddr
    · subst hm'
      refine ⟨⟨fun _ => h.link, fun _ => ⟨_, (h.distinct.insert_mem _ _).mpr (.inl rfl), rfl⟩⟩, ?_⟩
      intro n hn hmain
      obtain rfl | ⟨-, hne⟩ := (h.distinct.insert_mem _ _).mp hn
      · dsimp only
        by_cases hle : r.now ≤ tuple.symTime
        · rw [if_pos hle]
          exact iff_of_true rfl ⟨tuple, hmem, rfl, hle⟩
        · rw [if_neg hle]
          refine iff_of_false Status.noConfusion ?_
          rintro ⟨l, hl, hlm, hle'⟩
          exact absurd (hsym (Int.not_le.mp hle) l hl hlm) (Int.not_lt.mpr hle')
      · exact absurd hmain hne
    · exact (h.insert rfl).agrees m' hm'

/-- A link that is removed takes the neighbor with it, so that there must be no other. -/
theorem RemoveLinkTuple_keeps (h : Keeps r.m_state) (hmem : tuple ∈ r.m_state.m_linkSet)
    (honly : ∀ l ∈ r.m_state.m_linkSet, r.m_state.GetMainAddress l.neighborIfaceAddr =
      r.m_state.GetMainAddress tuple.neighborIfaceAddr →
      l.neighborIfaceAddr = tuple.neighborIfaceAddr) :
    Keeps (r.RemoveLinkTuple tuple).m_state := by
  have herase : (r.RemoveLinkTuple tuple).m_state.m_linkSet =
      erase LinkTuple.neighborIfaceAddr tuple.neighborIfaceAddr r.m_state.m_linkSet := by
    refine eraseP_eq_erase fun l hl => ?_
    rw [Bool.and_eq_true, beq_iff_eq, beq_iff_eq]
    refine ⟨And.right, fun hiface => ⟨?_, hiface⟩⟩
    rw [h.links.eq_of_key hl hmem hiface]
  have hlink : ∀ l, l ∈ (r.RemoveLinkTuple tuple).m_state.m_linkSet ↔
      l ∈ r.m_state.m_linkSet ∧ l.neighborIfaceAddr ≠ tuple.neighborIfaceAddr :=
    fun l => by rw [herase, h.links.erase_mem]
  have hneighbor : ∀ n, n ∈ (r.RemoveLinkTuple tuple).m_state.m_neighborSet ↔
      n ∈ r.m_state.m_neighborSet ∧
        n.neighborMainAddr ≠ r.m_state.GetMainAddress tuple.neighborIfaceAddr :=
    fun n => h.distinct.erase_mem n
  refine ⟨⟨h.distinct.erase, fun m => ?_⟩, ?_⟩
  · by_cases hm : m = r.m_state.GetMainAddress tuple.neighborIfaceAddr
    · constructor
      · refine iff_of_false ?_ ?_
        · rintro ⟨n, hn, hnm⟩
          exact ((hneighbor n).mp hn).2 (hnm.trans hm)
        · rintro ⟨l, hl, hlm⟩
          obtain ⟨hl, hne⟩ := (hlink l).mp hl
          exact hne (honly l hl (hlm.trans hm))
      · intro n hn hnm
        exact absurd (hnm.trans hm) ((hneighbor n).mp hn).2
    · refine (h.agrees m).frame (fun n hn => ?_) fun l => ?_
      · rw [hneighbor, hn]
        exact and_iff_left hm
      · show l ∈ (r.RemoveLinkTuple tuple).m_state.m_linkSet ∧
          r.m_state.GetMainAddress l.neighborIfaceAddr = m ↔ _
        rw [hlink]
        refine and_congr_left fun hlm => and_iff_left ?_
        intro hiface
        exact hm (by rw [← hlm, hiface])
  · rw [herase]
    exact h.links.erase

/-! ### HELLO messages -/

/-- The last valid link message about the interface, if there is one, says that the link is not
lost. -/
def heard (receiverIface : Ipv4Address) : Bool → List LinkMessage → Bool
  | before, [] => before
  | before, linkMessage :: linkMessages =>
    heard receiverIface
      (if linkMessage.invalid || !linkMessage.neighborInterfaceAddresses.contains receiverIface
        then before else linkMessage.lt != 3) linkMessages

/-- A link that the neighbor hears is symmetric for the time that the message is valid. -/
theorem senseLinkMessages_spec {vTime : ℤ} (before : Bool) (hvTime : 0 < vTime)
    {linkMessages : List LinkMessage} {link link' : LinkTuple × Bool}
    (hok : r.senseLinkMessages vTime receiverIface link linkMessages = .ok link')
    (hbefore : before = true → r.now ≤ link.1.symTime) :
    link'.1.neighborIfaceAddr = link.1.neighborIfaceAddr ∧
      (heard receiverIface before linkMessages = true → r.now ≤ link'.1.symTime) ∧
      (link.2 = true → link'.2 = true) := by
  induction linkMessages generalizing link before with
  | nil =>
    cases hok
    exact ⟨rfl, hbefore, id⟩
  | cons linkMessage linkMessages ih =>
    rw [heard]
    cases hsense : r.senseLinkMessage vTime receiverIface link linkMessage with
    | error e =>
      rw [senseLinkMessages, hsense] at hok
      cases hok
    | ok link₁ =>
      rw [senseLinkMessages, hsense] at hok
      simp only [bind, Except.bind] at hok
      -- What one link message does; the others follow by the induction.
      suffices hlink₁ : link₁.1.neighborIfaceAddr = link.1.neighborIfaceAddr ∧
          ((if linkMessage.invalid ||
              !linkMessage.neighborInterfaceAddresses.contains receiverIface
            then before else linkMessage.lt != 3) = true → r.now ≤ link₁.1.symTime) ∧
          (link.2 = true → link₁.2 = true) by
        obtain ⟨hiface, hsym, hupdated⟩ := ih _ hok hlink₁.2.1
        exact ⟨hiface.trans hlink₁.1, hsym, fun h => hupdated (hlink₁.2.2 h)⟩
      rw [senseLinkMessage] at hsense
      by_cases hinvalid : linkMessage.invalid = true
      · rw [if_pos hinvalid] at hsense
        cases hsense
        rw [hinvalid, Bool.true_or, if_pos rfl]
        exact ⟨rfl, hbefore, id⟩
      rw [if_neg hinvalid] at hsense
      rw [Bool.not_eq_true] at hinvalid
      by_cases hcontains :
          linkMessage.neighborInterfaceAddresses.contains receiverIface = true
      · rw [if_pos hcontains] at hsense
        rw [hinvalid, hcontains, Bool.not_true, Bool.or_false, if_neg Bool.false_ne_true]
        split at hsense
        · next hlt =>
          cases hsense
          rw [hlt]
          exact ⟨rfl, fun h => absurd h (by decide), fun _ => rfl⟩
        · cases hsense
        · cases hsense
          exact ⟨rfl, fun _ => by dsimp only; omega, fun _ => rfl⟩
      · rw [if_neg hcontains] at hsense
        cases hsense
        rw [Bool.not_eq_true] at hcontains
        rw [hcontains, Bool.not_false, Bool.or_true, if_pos rfl]
        exact ⟨rfl, hbefore, id⟩

/-- Updating a link tuple leaves the links and the associations. -/
theorem LinkTupleUpdated_same (tuple : LinkTuple) (willingness : UInt8) :
    (r.LinkTupleUpdated tuple willingness).m_state.m_linkSet = r.m_state.m_linkSet ∧
      (r.LinkTupleUpdated tuple willingness).m_state.m_ifaceAssocSet = r.m_state.m_ifaceAssocSet ∧
      (r.LinkTupleUpdated tuple willingness).now = r.now := by
  rw [LinkTupleUpdated]
  cases r.m_state.FindNeighborTuple (r.m_state.GetMainAddress tuple.neighborIfaceAddr) <;>
    exact ⟨rfl, rfl, rfl⟩

/-- Storing a link may spoil the agreement at its own neighbor only. -/
theorem agreesBut_storeLink (h : Keeps s) (link : LinkTuple) :
    AgreesBut (s.storeLink link) (s.GetMainAddress link.neighborIfaceAddr) where
  distinct := h.distinct
  links := h.links.insert link
  agrees := by
    intro m' hm'
    refine (h.agrees m').frame (fun _ _ => Iff.rfl) fun l => ?_
    show l ∈ KeyedTable.insert _ link s.m_linkSet ∧ s.GetMainAddress l.neighborIfaceAddr = m' ↔ _
    rw [h.links.insert_mem]
    refine and_congr_left fun hlm => ⟨?_, fun hl => .inr ⟨hl, fun hiface => ?_⟩⟩
    · rintro (rfl | ⟨hl, -⟩)
      · exact absurd hlm.symm hm'
      · exact hl
    · exact hm' (by rw [← hlm, hiface])
  link := ⟨link, (h.links.insert_mem _ _).mpr (.inl rfl), rfl⟩

/-- The condition for a link that is new: it is symmetric, or no other to its node is. -/
def FirstHeard (r : RoutingProtocol) (hello : Hello) (receiverIface senderIface : Ipv4Address) :
    Prop :=
  r.m_state.FindLinkTuple senderIface = none →
    heard receiverIface false hello.linkMessages = true ∨
      ∀ l ∈ r.m_state.m_linkSet, r.m_state.GetMainAddress l.neighborIfaceAddr =
        r.m_state.GetMainAddress senderIface → l.symTime < r.now

/-- Link sensing keeps the agreement where the sender is first heard or known well. -/
theorem LinkSensing_keeps (h : Keeps r.m_state)
    (hfits : r.FirstHeard msg.message receiverIface senderIface)
    (hok : r.LinkSensing msg receiverIface senderIface = .ok (r', actions)) : Keeps r'.m_state := by
  rw [LinkSensing] at hok
  by_cases hvTime : msg.vTime ≤ 0
  · rw [if_pos hvTime] at hok
    cases hok
  rw [if_neg hvTime] at hok
  have hpositive : 0 < msg.vTime := Int.not_le.mp hvTime
  cases hfind : r.m_state.FindLinkTuple senderIface with
  | some link =>
    -- a link that is known is brought up to date
    obtain ⟨hlink, hiface⟩ := mem_of_find hfind
    rw [hfind] at hok
    simp only [bind, Except.bind, Option.isNone_some, Option.getD_some, Bool.not_false,
      Bool.false_eq_true, if_false] at hok
    cases hsense : r.senseLinkMessages msg.vTime receiverIface
        ({ link with asymTime := r.now + msg.vTime }, true) msg.message.linkMessages with
    | error e =>
      rw [hsense] at hok
      cases hok
    | ok sensed =>
      obtain ⟨hsame, -, hupdated⟩ :=
        senseLinkMessages_spec false hpositive hsense (fun h => nomatch h)
      rw [hsense] at hok
      dsimp only at hok hsame
      rw [if_pos (hupdated rfl)] at hok
      cases hok
      exact LinkTupleUpdated_keeps _ (agreesBut_storeLink h _)
  | none =>
    -- a link that is new is put in, updated and added
    rw [hfind] at hok
    simp only [bind, Except.bind, Option.isNone_none, Option.getD_none, Bool.not_true, if_true]
      at hok
    cases hsense : RoutingProtocol.senseLinkMessages
        { r with m_state :=
          r.m_state.InsertLinkTuple (r.newLinkTuple msg.vTime receiverIface senderIface) }
        msg.vTime receiverIface
        ({ r.newLinkTuple msg.vTime receiverIface senderIface with
          asymTime := r.now + msg.vTime }, false) msg.message.linkMessages with
    | error e =>
      rw [hsense] at hok
      cases hok
    | ok sensed =>
      obtain ⟨hsame, hsym, -⟩ :=
        senseLinkMessages_spec false hpositive hsense (fun h => nomatch h)
      rw [hsense] at hok
      dsimp only at hok hsame hsym
      obtain ⟨link, updated⟩ := sensed
      dsimp only at hok hsame hsym
      have hiface : link.neighborIfaceAddr = senderIface := hsame
      have hnone := find_eq_none.mp hfind
      -- the new tuple is where it was put, so that the set is as if it had been written at once
      have hstore : (r.m_state.InsertLinkTuple
            (r.newLinkTuple msg.vTime receiverIface senderIface)).storeLink
              { link with time := max link.time link.asymTime } =
          r.m_state.storeLink { link with time := max link.time link.asymTime } := by
        rw [OlsrState.storeLink, OlsrState.storeLink, OlsrState.InsertLinkTuple]
        rw [insert_append (fun l hl => by rw [hiface]; exact hnone l hl) hiface.symm]
      rw [hstore] at hok
      generalize hlink' : { link with time := max link.time link.asymTime } = link' at hok
      have hsymTime : link'.symTime = link.symTime := by rw [← hlink']
      have hiface' : link'.neighborIfaceAddr = senderIface := by rw [← hlink']; exact hiface
      cases hok
      generalize hr₂ : { r with m_state := r.m_state.storeLink link' } = r₂
      have hlinks : ∀ l, l ∈ r₂.m_state.m_linkSet ↔
          l = link' ∨ l ∈ r.m_state.m_linkSet ∧ l.neighborIfaceAddr ≠ link'.neighborIfaceAddr := by
        rw [← hr₂]
        exact h.links.insert_mem link'
      have hmain : ∀ a, r₂.m_state.GetMainAddress a = r.m_state.GetMainAddress a := by
        rw [← hr₂]
        exact fun _ => rfl
      have hnow : r₂.now = r.now := by rw [← hr₂]
      have hbut : AgreesBut r₂.m_state (r₂.m_state.GetMainAddress link'.neighborIfaceAddr) := by
        rw [← hr₂]
        exact agreesBut_storeLink h link'
      -- if it is not symmetric, no link to its node is
      have hothers : link'.symTime < r₂.now → ∀ l ∈ r₂.m_state.m_linkSet,
          r₂.m_state.GetMainAddress l.neighborIfaceAddr =
            r₂.m_state.GetMainAddress link'.neighborIfaceAddr → l.symTime < r₂.now := by
        intro hlost l hl hlm
        rw [hmain, hmain, hiface'] at hlm
        rw [hnow] at hlost ⊢
        obtain rfl | ⟨hl, -⟩ := (hlinks l).mp hl
        · exact hlost
        · obtain hheard | hnone := hfits hfind
          · have := hsym hheard
            omega
          · exact hnone l hl hlm
      have hmem : link' ∈ r₂.m_state.m_linkSet := (hlinks link').mpr (.inl rfl)
      by_cases hupdated : updated = true
      · rw [if_pos hupdated]
        obtain ⟨hsameLinks, hsameAssoc, hsameNow⟩ :=
          r₂.LinkTupleUpdated_same link' msg.message.willingness
        have hkeeps := LinkTupleUpdated_keeps (r := r₂) msg.message.willingness hbut
        generalize r₂.LinkTupleUpdated link' msg.message.willingness = r₃ at *
        have hmain₃ : ∀ a, r₃.m_state.GetMainAddress a = r₂.m_state.GetMainAddress a :=
          fun a => by
            simp only [OlsrState.GetMainAddress, OlsrState.FindIfaceAssocTuple, hsameAssoc]
        refine LinkTupleAdded_keeps _ ?_ (hsameLinks ▸ hmem) ?_
        · exact ⟨hkeeps.distinct, hkeeps.links, fun m' _ => hkeeps.agrees m',
            ⟨link', hsameLinks ▸ hmem, rfl⟩⟩
        · rw [hsameNow, hsameLinks]
          simp only [hmain₃]
          exact hothers
      · rw [if_neg hupdated]
        exact LinkTupleAdded_keeps _ hbut hmem hothers

/-- Populating the neighbor set keeps the agreement. -/
theorem PopulateNeighborSet_keeps (h : Keeps r.m_state) (msg : MessageHeader Hello) :
    Keeps (r.PopulateNeighborSet msg).m_state := by
  have hmem := h.distinct.modify_mem (k := msg.m_originatorAddress)
    fun nb_tuple => { nb_tuple with willingness := msg.message.willingness }
  refine ⟨⟨h.distinct.modify fun _ => rfl, fun m => ?_⟩, h.links⟩
  refine (h.agrees m).transfer (fun n' hn' hm => ?_) (fun n hn hm => ?_) fun _ => Iff.rfl
  · obtain ⟨hn, -⟩ | ⟨n, hn, -, rfl⟩ := (hmem n').mp hn'
    · exact ⟨n', hn, hm, rfl, rfl⟩
    · exact ⟨n, hn, hm, rfl, rfl⟩
  · by_cases horiginator : n.neighborMainAddr = msg.m_originatorAddress
    · exact ⟨_, (hmem _).mpr (.inr ⟨n, hn, horiginator, rfl⟩), hm⟩
    · exact ⟨n, (hmem n).mpr (.inl ⟨hn, horiginator⟩), hm⟩

/-- A HELLO keeps the agreement under the condition on its sender. -/
theorem ProcessHello_keeps (h : Keeps r.m_state)
    (hfits : r.FirstHeard msg.message receiverIface senderIface)
    (hok : r.ProcessHello msg receiverIface senderIface = .ok (r', actions)) :
    Keeps r'.m_state := by
  rw [ProcessHello] at hok
  cases hsense : r.LinkSensing msg receiverIface senderIface with
  | error e =>
    rw [hsense] at hok
    cases hok
  | ok sensed =>
    rw [hsense] at hok
    cases hok
    exact PopulateNeighborSet_keeps (LinkSensing_keeps h hfits hsense) msg

/-! ### MID messages -/

/-- The main address that an association gives. -/
def associated (s : OlsrState) (a : Ipv4Address) : Option Ipv4Address :=
  (s.FindIfaceAssocTuple a).map IfaceAssocTuple.mainAddr

/-- The main address is the associated one or the address itself. -/
theorem getMainAddress_eq (s : OlsrState) (a : Ipv4Address) :
    s.GetMainAddress a = (associated s a).getD a := by
  rw [OlsrState.GetMainAddress, associated]
  cases s.FindIfaceAssocTuple a <;> rfl

/-- An address that has no association gets the originator. -/
theorem associated_associate (msg : MessageHeader Mid) (addr a : Ipv4Address) :
    associated (r.associate msg addr).1.m_state a =
      (associated r.m_state a).or (if a = addr then some msg.m_originatorAddress else none) := by
  rw [associate]
  dsimp only
  split
  · next hany =>
    -- the tuples only change their times
    have hfind : associated { r.m_state with
          m_ifaceAssocSet := r.m_state.m_ifaceAssocSet.map fun tuple =>
            if (tuple.ifaceAddr == addr && tuple.mainAddr == msg.m_originatorAddress) = true
            then { tuple with time := r.now + msg.vTime } else tuple } a =
        associated r.m_state a := by
      rw [associated, OlsrState.FindIfaceAssocTuple, find_map fun x => by split <;> rfl,
        Option.map_map]
      exact congrArg (Option.map · _) (funext fun x => by
        dsimp only [Function.comp]
        split <;> rfl)
    refine hfind.trans ?_
    by_cases ha : a = addr
    · obtain ⟨tuple, htuple, hmatching⟩ := any_eq_true.mp hany
      rw [Bool.and_eq_true, beq_iff_eq, beq_iff_eq] at hmatching
      cases hnone : r.m_state.FindIfaceAssocTuple a with
      | none => exact absurd (hmatching.1.trans ha.symm) (find_eq_none.mp hnone tuple htuple)
      | some found => rw [associated, hnone]; rfl
    · rw [if_neg ha, Option.or_none]
  · show associated (r.m_state.InsertIfaceAssocTuple
      ⟨addr, msg.m_originatorAddress, r.now + msg.vTime⟩) a = _
    rw [associated, OlsrState.FindIfaceAssocTuple, OlsrState.InsertIfaceAssocTuple, find_append,
      Option.map_or]
    refine congrArg _ ?_
    by_cases ha : a = addr
    · rw [if_pos ha, if_pos ha.symm]
      rfl
    · rw [if_neg ha, if_neg (Ne.symm ha)]
      rfl

/-- Associating an address leaves the links and the neighbors. -/
theorem associate_same (msg : MessageHeader Mid) (addr : Ipv4Address) :
    (r.associate msg addr).1.m_state.m_linkSet = r.m_state.m_linkSet ∧
      (r.associate msg addr).1.m_state.m_neighborSet = r.m_state.m_neighborSet := by
  rw [associate]
  dsimp only
  split <;> exact ⟨rfl, rfl⟩

/-- **The associations of a MID message**: the addresses that it lists and that have no
association get the originator. -/
theorem associateAll_spec (msg : MessageHeader Mid) (addrs : List Ipv4Address)
    (r : RoutingProtocol) :
    (∀ a, associated (associateAll msg r addrs).1.m_state a =
      (associated r.m_state a).or (if a ∈ addrs then some msg.m_originatorAddress else none)) ∧
    (associateAll msg r addrs).1.m_state.m_linkSet = r.m_state.m_linkSet ∧
    (associateAll msg r addrs).1.m_state.m_neighborSet = r.m_state.m_neighborSet := by
  induction addrs generalizing r with
  | nil => exact ⟨fun a => by simp [associateAll], rfl, rfl⟩
  | cons addr addrs ih =>
    obtain ⟨hassociated, hlinks, hneighbors⟩ := ih (r.associate msg addr).1
    obtain ⟨hlinks₁, hneighbors₁⟩ := r.associate_same msg addr
    refine ⟨fun a => ?_, hlinks.trans hlinks₁, hneighbors.trans hneighbors₁⟩
    refine (hassociated a).trans ?_
    rw [associated_associate, Option.or_assoc]
    refine congrArg _ ?_
    by_cases ha : a = addr
    · simp [ha]
    · simp [ha]

/-- The main address that an address has once the message has been processed. -/
def mainAddressWith (s : OlsrState) (msg : MessageHeader Mid) (a : Ipv4Address) : Ipv4Address :=
  match s.FindIfaceAssocTuple a with
  | some tuple => tuple.mainAddr
  | none => if a ∈ msg.message.interfaceAddresses then msg.m_originatorAddress else a

/-- The condition for a MID message: no two neighbors come to have the same main address, and
that of a link is still the one that its neighbor gets. -/
structure RenamesWell (s : OlsrState) (msg : MessageHeader Mid) : Prop where
  injective : ∀ n ∈ s.m_neighborSet, ∀ n' ∈ s.m_neighborSet,
    mainAddressWith s msg n.neighborMainAddr = mainAddressWith s msg n'.neighborMainAddr →
      n.neighborMainAddr = n'.neighborMainAddr
  link : ∀ l ∈ s.m_linkSet, mainAddressWith s msg (s.GetMainAddress l.neighborIfaceAddr) =
    mainAddressWith s msg l.neighborIfaceAddr

/-- A MID keeps the agreement where it renames no link's neighbor badly. -/
theorem ProcessMid_keeps (h : Keeps r.m_state) {msg : MessageHeader Mid}
    (hfits : (r.m_state.FindSymLinkTuple senderIface r.now).isSome → RenamesWell r.m_state msg) :
    Keeps (r.ProcessMid msg senderIface).1.m_state := by
  rw [ProcessMid]
  by_cases hnone : (r.m_state.FindSymLinkTuple senderIface r.now).isNone = true
  · rw [if_pos hnone]
    exact h
  rw [if_neg hnone]
  obtain ⟨hinjective, hrenamed⟩ := hfits
    (Option.isSome_iff_ne_none.mpr fun h => hnone (Option.isNone_iff_eq_none.mpr h))
  obtain ⟨hassociated, hlinks, hneighbors⟩ :=
    associateAll_spec msg msg.message.interfaceAddresses r
  dsimp only
  generalize (associateAll msg r msg.message.interfaceAddresses).1 = r₁ at *
  -- What the message changes: main addresses, and with them the neighbors that are renamed.
  have hmain : ∀ a, r₁.m_state.GetMainAddress a = mainAddressWith r.m_state msg a := by
    intro a
    rw [getMainAddress_eq, hassociated, associated, mainAddressWith]
    cases r.m_state.FindIfaceAssocTuple a with
    | some tuple => rfl
    | none =>
      dsimp only [Option.map_none, Option.none_or]
      split <;> rfl
  have hmem : ∀ n', n' ∈ r₁.renameNeighbors.m_state.m_neighborSet ↔
      ∃ n ∈ r.m_state.m_neighborSet,
        { n with neighborMainAddr := mainAddressWith r.m_state msg n.neighborMainAddr } = n' := by
    intro n'
    show n' ∈ r₁.m_state.m_neighborSet.map _ ↔ _
    rw [mem_map, hneighbors]
    simp only [hmain]
  have hlink : ∀ l m, l ∈ r₁.renameNeighbors.m_state.m_linkSet ∧
      r₁.renameNeighbors.m_state.GetMainAddress l.neighborIfaceAddr = m ↔
      l ∈ r.m_state.m_linkSet ∧ mainAddressWith r.m_state msg l.neighborIfaceAddr = m := by
    intro l m
    show l ∈ r₁.m_state.m_linkSet ∧ r₁.m_state.GetMainAddress l.neighborIfaceAddr = m ↔ _
    rw [hlinks, hmain]
  have hneighbor : ∀ l ∈ r.m_state.m_linkSet, ∃ n ∈ r.m_state.m_neighborSet,
      n.neighborMainAddr = r.m_state.GetMainAddress l.neighborIfaceAddr :=
    fun l hl => (h.agrees _).exists_iff.mpr ⟨l, hl, rfl⟩
  refine ⟨⟨?_, fun m => ?_⟩, ?_⟩
  · show List.Pairwise _ (r₁.m_state.m_neighborSet.map _)
    rw [pairwise_map, hneighbors]
    refine h.distinct.imp_of_mem fun {n n'} hn hn' hne => ?_
    rw [hmain, hmain]
    exact fun heq => hne (hinjective n hn n' hn' heq)
  · by_cases hm : ∃ n ∈ r.m_state.m_neighborSet,
        mainAddressWith r.m_state msg n.neighborMainAddr = m
    -- The agreement at the old address is carried over to the new one.
    · obtain ⟨n₀, hn₀, rfl⟩ := hm
      refine (h.agrees n₀.neighborMainAddr).transfer (fun n' hn' hsame => ?_)
        (fun n hn hsame => ⟨_, (hmem _).mpr ⟨n, hn, rfl⟩,
          congrArg (mainAddressWith r.m_state msg) hsame⟩) fun l => ?_
      · obtain ⟨n, hn, rfl⟩ := (hmem n').mp hn'
        exact ⟨n, hn, hinjective n hn n₀ hn₀ hsame, rfl, rfl⟩
      · rw [hlink]
        refine and_congr_right fun hl => ?_
        obtain ⟨n, hn, hnl⟩ := hneighbor l hl
        rw [← hrenamed l hl, ← hnl]
        exact ⟨fun heq => hinjective n hn n₀ hn₀ heq, fun heq => by rw [heq]⟩
    · -- no neighbor is renamed to this address, so that no link has it
      constructor
      · refine iff_of_false ?_ ?_
        · rintro ⟨n', hn', hsame⟩
          obtain ⟨n, hn, rfl⟩ := (hmem n').mp hn'
          exact hm ⟨n, hn, hsame⟩
        · rintro ⟨l, hl, hlm⟩
          obtain ⟨hl, hlm⟩ := (hlink l m).mp ⟨hl, hlm⟩
          obtain ⟨n, hn, hnl⟩ := hneighbor l hl
          exact hm ⟨n, hn, by rw [hnl, hrenamed l hl, hlm]⟩
      · intro n' hn' hsame
        obtain ⟨n, hn, rfl⟩ := (hmem n').mp hn'
        exact absurd ⟨n, hn, hsame⟩ hm
  · show Distinct _ r₁.m_state.m_linkSet
    rw [hlinks]
    exact h.links

/-! ### Timers -/

/-- The condition for a link's timer: a link that is removed is the only one to its node. -/
def OnlyLink (r : RoutingProtocol) (neighborIfaceAddr : Ipv4Address) : Prop :=
  ∀ tuple ∈ r.m_state.FindLinkTuple neighborIfaceAddr, tuple.time < r.now →
    ∀ l ∈ r.m_state.m_linkSet, r.m_state.GetMainAddress l.neighborIfaceAddr =
      r.m_state.GetMainAddress tuple.neighborIfaceAddr →
      l.neighborIfaceAddr = tuple.neighborIfaceAddr

/-- What agrees everywhere agrees except at one address. -/
theorem agreesBut_of_keeps (h : Keeps s) {l : LinkTuple} (hl : l ∈ s.m_linkSet) :
    AgreesBut s (s.GetMainAddress l.neighborIfaceAddr) where
  __ := h
  agrees := fun m _ => h.agrees m
  link := ⟨l, hl, rfl⟩

/-- The timer of a link keeps the agreement where the link is the neighbor's only one. -/
theorem LinkTupleTimerExpire_keeps (h : Keeps r.m_state) {neighborIfaceAddr : Ipv4Address}
    (hfits : r.OnlyLink neighborIfaceAddr) :
    Keeps (r.LinkTupleTimerExpire neighborIfaceAddr).1.m_state := by
  rw [LinkTupleTimerExpire]
  cases hfind : r.m_state.FindLinkTuple neighborIfaceAddr with
  | none => exact h
  | some tuple =>
    obtain ⟨hmem, -⟩ := mem_of_find hfind
    dsimp only
    by_cases hexpired : tuple.time < r.now
    · rw [if_pos hexpired]
      exact RemoveLinkTuple_keeps h hmem (hfits tuple hfind hexpired)
    rw [if_neg hexpired]
    by_cases hlost : tuple.symTime < r.now
    · rw [if_pos hlost]
      dsimp only
      split
      · exact h
      · exact LinkTupleUpdated_keeps 3 (agreesBut_of_keeps h hmem)
    · rw [if_neg hlost]
      exact h

/-- The condition for an association's timer: if it is removed and there is a link with its
address, another association with the same main address remains. -/
def StaysAssociated (r : RoutingProtocol) (ifaceAddr : Ipv4Address) : Prop :=
  ∀ tuple ∈ r.m_state.FindIfaceAssocTuple ifaceAddr, tuple.time < r.now →
    (r.m_state.FindLinkTuple ifaceAddr).isSome →
    (r.m_state.EraseIfaceAssocTuple tuple).GetMainAddress ifaceAddr = tuple.mainAddr

/-- The timer of an association keeps the agreement where the address stays associated. -/
theorem IfaceAssocTupleTimerExpire_keeps (h : Keeps r.m_state) {ifaceAddr : Ipv4Address}
    (hfits : r.StaysAssociated ifaceAddr) :
    Keeps (r.IfaceAssocTupleTimerExpire ifaceAddr).1.m_state := by
  rw [IfaceAssocTupleTimerExpire]
  cases hfind : r.m_state.FindIfaceAssocTuple ifaceAddr with
  | none => exact h
  | some tuple =>
    dsimp only
    by_cases hexpired : tuple.time < r.now
    · rw [if_pos hexpired]
      obtain ⟨-, hiface⟩ := mem_of_find hfind
      have hmain : ∀ l ∈ r.m_state.m_linkSet,
          (r.m_state.EraseIfaceAssocTuple tuple).GetMainAddress l.neighborIfaceAddr =
            r.m_state.GetMainAddress l.neighborIfaceAddr := by
        intro l hl
        by_cases hl' : l.neighborIfaceAddr = ifaceAddr
        · have hsome : (r.m_state.FindLinkTuple ifaceAddr).isSome :=
            Option.isSome_iff_ne_none.mpr fun hnone => find_eq_none.mp hnone l hl hl'
          rw [hl', hfits tuple hfind hexpired hsome, OlsrState.GetMainAddress, hfind]
        · have hsame : (r.m_state.EraseIfaceAssocTuple tuple).FindIfaceAssocTuple
              l.neighborIfaceAddr = r.m_state.FindIfaceAssocTuple l.neighborIfaceAddr := by
            refine find_eraseP fun x hx hkey => hl' ?_
            rw [Bool.and_eq_true, beq_iff_eq, beq_iff_eq] at hx
            rw [← hkey, hx.1, hiface]
          rw [OlsrState.GetMainAddress, OlsrState.GetMainAddress, hsame]
      refine ⟨⟨h.distinct, fun m => (h.agrees m).frame (fun _ _ => Iff.rfl) fun l => ?_⟩, h.links⟩
      refine and_congr_right fun hl => ?_
      rw [hmain l hl]
    · rw [if_neg hexpired]
      exact h

/-! ### Runs -/

/-- The conditions for the four events. -/
def Fits (r : RoutingProtocol) (_ : List Action) : Event → Prop
  | .pass _ => True
  | .ProcessHello msg receiverIface senderIface =>
    r.FirstHeard msg.message receiverIface senderIface
  | .ProcessMid msg senderIface =>
    (r.m_state.FindSymLinkTuple senderIface r.now).isSome → RenamesWell r.m_state msg
  | .LinkTupleTimerExpire neighborIfaceAddr => r.OnlyLink neighborIfaceAddr
  | .IfaceAssocTupleTimerExpire ifaceAddr => r.StaysAssociated ifaceAddr

instance decidableFits (r : RoutingProtocol) (h : List Action) :
    (event : Event) → Decidable (Fits r h event)
  | .pass _ => .isTrue trivial
  | .ProcessHello msg receiverIface senderIface =>
    inferInstanceAs (Decidable (r.m_state.FindLinkTuple senderIface = none →
      heard receiverIface false msg.message.linkMessages = true ∨
        ∀ l ∈ r.m_state.m_linkSet, r.m_state.GetMainAddress l.neighborIfaceAddr =
          r.m_state.GetMainAddress senderIface → l.symTime < r.now))
  | .ProcessMid msg senderIface =>
    have : Decidable (RenamesWell r.m_state msg) :=
      decidable_of_iff
        ((∀ n ∈ r.m_state.m_neighborSet, ∀ n' ∈ r.m_state.m_neighborSet,
            mainAddressWith r.m_state msg n.neighborMainAddr =
              mainAddressWith r.m_state msg n'.neighborMainAddr →
            n.neighborMainAddr = n'.neighborMainAddr) ∧
          ∀ l ∈ r.m_state.m_linkSet,
            mainAddressWith r.m_state msg (r.m_state.GetMainAddress l.neighborIfaceAddr) =
              mainAddressWith r.m_state msg l.neighborIfaceAddr)
        ⟨fun ⟨hinjective, hlink⟩ => ⟨hinjective, hlink⟩, fun h => ⟨h.injective, h.link⟩⟩
    inferInstanceAs (Decidable ((r.m_state.FindSymLinkTuple senderIface r.now).isSome →
      RenamesWell r.m_state msg))
  | .LinkTupleTimerExpire neighborIfaceAddr =>
    inferInstanceAs (Decidable (∀ tuple ∈ r.m_state.FindLinkTuple neighborIfaceAddr,
      tuple.time < r.now → ∀ l ∈ r.m_state.m_linkSet,
        r.m_state.GetMainAddress l.neighborIfaceAddr =
          r.m_state.GetMainAddress tuple.neighborIfaceAddr →
        l.neighborIfaceAddr = tuple.neighborIfaceAddr))
  | .IfaceAssocTupleTimerExpire ifaceAddr =>
    inferInstanceAs (Decidable (∀ tuple ∈ r.m_state.FindIfaceAssocTuple ifaceAddr,
      tuple.time < r.now → (r.m_state.FindLinkTuple ifaceAddr).isSome →
        (r.m_state.EraseIfaceAssocTuple tuple).GetMainAddress ifaceAddr = tuple.mainAddr))

/-- Every event that fits keeps the agreement. -/
theorem step_keeps {r : RoutingProtocol} {h : List Action} {event : Event} (hr : Keeps r.m_state)
    (hfits : Fits r h event) (hok : r.step event = .ok (r', actions)) : Keeps r'.m_state := by
  cases event with
  | pass duration =>
    cases hok
    exact hr
  | ProcessHello msg receiverIface senderIface => exact ProcessHello_keeps hr hfits hok
  | ProcessMid msg senderIface =>
    have hkeeps := ProcessMid_keeps hr hfits
    rw [step] at hok
    generalize r.ProcessMid msg senderIface = result at hok hkeeps
    cases hok
    exact hkeeps
  | LinkTupleTimerExpire neighborIfaceAddr =>
    have hkeeps := LinkTupleTimerExpire_keeps hr hfits
    rw [step] at hok
    generalize r.LinkTupleTimerExpire neighborIfaceAddr = result at hok hkeeps
    cases hok
    exact hkeeps
  | IfaceAssocTupleTimerExpire ifaceAddr =>
    have hkeeps := IfaceAssocTupleTimerExpire_keeps hr hfits
    rw [step] at hok
    generalize r.IfaceAssocTupleTimerExpire ifaceAddr = result at hok hkeeps
    cases hok
    exact hkeeps

/-- A new node has no link to disagree with. -/
theorem keeps_new (mainAddress : Ipv4Address) (own : List Ipv4Address) (helloInterval : ℤ) :
    Keeps (new mainAddress own helloInterval).m_state where
  distinct := .nil
  agrees := fun _ =>
    ⟨iff_of_false (fun ⟨_, hn, _⟩ => absurd hn not_mem_nil)
      (fun ⟨_, hl, _⟩ => absurd hl not_mem_nil),
      fun _ hn => absurd hn not_mem_nil⟩
  links := .nil

/-- **The neighbor set of an OLSR node**: whenever a handler of a run returns, the neighbors are
the nodes that there are links to, each with one tuple, and symmetric if one of their links was
when this was computed last. This is so in every run in which a link is new only when it is
symmetric or no other to its node is, in which a link that is removed is the only one to its
node, and in which associations that come or go leave links and neighbors with the same main
addresses. -/
theorem sound_of_meets (mainAddress : Ipv4Address) (own : List Ipv4Address) (helloInterval : ℤ)
    (events : List Event)
    (hmeets : TracedRun.Meets step Fits (new mainAddress own helloInterval) [] events) :
    TracedRun.Always step (fun r _ => Sound r.m_state) (new mainAddress own helloInterval) []
      events := by
  refine TracedRun.always_of_meets (J := fun r _ => Keeps r.m_state) ?_ ?_
    (keeps_new mainAddress own helloInterval) hmeets
  · intro r h event r' actions hr hfits hok
    exact step_keeps hr hfits hok
  · intro r h hr
    exact hr.toSound

/-- A HELLO of node 1 from one of its interfaces, which hears interface 100. -/
def helloFrom (senderIface : Ipv4Address) : Event :=
  .ProcessHello ⟨1, 6000000000, ⟨3, [⟨6, [100]⟩]⟩⟩ 100 senderIface

/-- Node 1 has interfaces 1 and 2. That of 2 falls silent. -/
def secondInterface : List Event :=
  [helloFrom 1, .ProcessMid ⟨1, 15000000000, ⟨[2]⟩⟩ 1, helloFrom 2, .pass 11000000000,
    helloFrom 1, .pass 2000000000, .LinkTupleTimerExpire 2]

/-- The run up to the last of these, and then node 3, which is heard and lost. -/
def neighborsComeAndGo : List Event :=
  [helloFrom 1, .ProcessMid ⟨1, 15000000000, ⟨[2]⟩⟩ 1, helloFrom 2, .pass 3000000000,
    .ProcessHello ⟨3, 2000000000, ⟨3, [⟨6, [100]⟩]⟩⟩ 100 3, .LinkTupleTimerExpire 3,
    .pass 20000000000, .LinkTupleTimerExpire 3, .IfaceAssocTupleTimerExpire 9]

/-- A run in which neighbors come and go. -/
theorem sound_neighborsComeAndGo :
    TracedRun.Meets step Fits (new 100 [101] 2000000000) [] neighborsComeAndGo ∧
      TracedRun.Always step (fun r _ => Sound r.m_state) (new 100 [101] 2000000000) []
        neighborsComeAndGo :=
  have hmeets : TracedRun.Meets step Fits (new 100 [101] 2000000000) [] neighborsComeAndGo := by
    decide +kernel
  ⟨hmeets, sound_of_meets 100 [101] 2000000000 neighborsComeAndGo hmeets⟩

/-- With the link to interface 2, the neighbor goes to which the other link is symmetric. -/
theorem not_sound_secondInterface :
    ¬ TracedRun.Always step (fun r _ => Sound r.m_state) (new 100 [101] 2000000000) []
      secondInterface := by
  intro halways
  have hvalues : (TracedRun.run step (new 100 [101] 2000000000) secondInterface).toOption.map
      (fun r => (r.1.m_state.m_neighborSet, r.1.m_state.m_linkSet.map fun l =>
        (l, r.1.m_state.GetMainAddress l.neighborIfaceAddr))) =
      some ([], [(⟨100, 1, 17000000000, 17000000000, 23000000000⟩, 1)]) := by decide +kernel
  cases hrun : TracedRun.run step (new 100 [101] 2000000000) secondInterface with
  | error e =>
    rw [hrun] at hvalues
    cases hvalues
  | ok result =>
    rw [hrun] at hvalues
    obtain ⟨hneighbors, hlinks⟩ := Prod.mk.inj (Option.some.inj hvalues)
    have hsound := halways.of_run (cons_ne_nil _ _) hrun
    have hlink : (⟨⟨100, 1, 17000000000, 17000000000, 23000000000⟩, 1⟩ : LinkTuple × Ipv4Address) ∈
        result.1.m_state.m_linkSet.map fun l =>
          (l, result.1.m_state.GetMainAddress l.neighborIfaceAddr) := by
      rw [hlinks]
      exact mem_singleton.mpr rfl
    obtain ⟨l, hl, hpair⟩ := mem_map.mp hlink
    obtain ⟨n, hn, -⟩ :=
      (hsound.agrees 1).exists_iff.mpr ⟨l, hl, (Prod.mk.inj hpair).2⟩
    rw [hneighbors] at hn
    cases hn

end RoutingProtocol
end Ns3Joined.Olsr
