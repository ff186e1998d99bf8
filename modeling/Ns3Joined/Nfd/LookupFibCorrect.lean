import Ns3Joined.Nfd.IdLookupCorrect
import Ns3Joined.Nfd.LookupFib

/-!
# When the two lookups of the strategy agree

* `LongestMatch`: the FIB entry of the longest prefix.
* `Delegates`: the entry that a forwarding hint leads to, if one of its delegations has next hops.
* `lookups_agree_iff`: when the single lookup returns the first element of the list, and nothing
  is null.

Without a forwarding hint both lookups look at one list, and the first element is the same. With
one that leads nowhere, the list has a null pointer where the single lookup returns an entry
without next hops.
-/

namespace Ns3Joined.Nfd.fw

open List Option

open Ndn (Name Component Interest Delegation Text)
open name_tree
open fib (Fib EntryRef nteHasFibEntry entryOrEmpty)
open ExceptFold (bind_eq_ok_iff ok_bind)

variable {hash : Component → HashValue} {forwarder : Tables} {l : List (List ℕ)} {name : Name}
  {ref : EntryRef} {fh : List Delegation}

/-! ### Longest prefixes -/

/-- The FIB entry of the longest prefix of a name, or the empty one. -/
def LongestMatch (fib : Fib) (name : Name) (ref : EntryRef) : Prop :=
  ∃ found, IsLongest fib.m_nameTree.tree name nteHasFibEntry found ∧
    ref = (found.bind (fibAt fib.m_nameTree)).getD .s_emptyEntry

variable {s : Hashtable}

/-- The entry of a longest match, or the empty entry. -/
theorem entryOrEmpty_eq {found : Option ℕ} (hfound : IsLongest s.tree name nteHasFibEntry found) :
    entryOrEmpty s found = .ok ((found.bind (fibAt s)).getD .s_emptyEntry) := by
  cases found with
  | none => rfl
  | some p =>
    obtain ⟨e, he, -, hfib, -⟩ := hfound
    have hentry := isSome_fibAt he
    obtain ⟨entry, hentry⟩ := isSome_iff_exists.mp (hentry.trans hfib)
    rw [entryOrEmpty, getFibEntry_eq he, ok_bind, bind_some, hentry]
    rfl

/-- **The longest prefix match is the only one.** -/
theorem findLongestPrefixMatch_eq_ok_iff (hs : Keeps hash forwarder.m_fib.m_nameTree l) :
    forwarder.m_fib.findLongestPrefixMatch hash name = .ok ref ↔
      LongestMatch forwarder.m_fib name ref := by
  obtain ⟨found, hok, hfound⟩ := hs.findLongestPrefixMatch name nteHasFibEntry
  rw [Fib.findLongestPrefixMatch, hok, ok_bind, entryOrEmpty_eq hfound]
  constructor
  · exact fun h => ⟨found, hfound, (Except.ok.inj h).symm⟩
  · rintro ⟨found', hfound', rfl⟩
    rw [hfound.unique hs.names hfound']

/-! ### Delegations -/

/-- The first delegation whose longest prefix match has next hops leads to that entry, and those
before it lead to `/`. -/
def Delegates (forwarder : Tables) (fh : List Delegation) (ref : EntryRef) : Prop :=
  ∃ before del after, fh = before ++ del :: after ∧
    LongestMatch forwarder.m_fib del.name ref ∧ forwarder.m_fib.hasNextHops ref = true ∧
    ∀ del' ∈ before, ∃ ref', LongestMatch forwarder.m_fib del'.name ref' ∧
      forwarder.m_fib.hasNextHops ref' = false ∧ (forwarder.m_fib.deref ref').getPrefix = []

/-- The delegation used, with one more in front. -/
theorem delegates_cons_iff {del : Delegation} :
    Delegates forwarder (del :: fh) ref ↔
      LongestMatch forwarder.m_fib del.name ref ∧ forwarder.m_fib.hasNextHops ref = true ∨
      (∃ ref', LongestMatch forwarder.m_fib del.name ref' ∧
        forwarder.m_fib.hasNextHops ref' = false ∧ (forwarder.m_fib.deref ref').getPrefix = []) ∧
        Delegates forwarder fh ref := by
  constructor
  · rintro ⟨before, del', after, heq, hmatch, hhops, hbefore⟩
    cases before with
    | nil =>
      cases heq
      exact .inl ⟨hmatch, hhops⟩
    | cons del'' before =>
      cases heq
      obtain ⟨hfirst, hbefore⟩ := forall_mem_cons.mp hbefore
      exact .inr ⟨hfirst, before, del', after, rfl, hmatch, hhops, hbefore⟩
  · rintro (⟨hmatch, hhops⟩ | ⟨hfirst, before, del', after, rfl, hmatch, hhops, hbefore⟩)
    · exact ⟨[], del, fh, rfl, hmatch, hhops, fun _ h => absurd h not_mem_nil⟩
    · exact ⟨del :: before, del', after, rfl, hmatch, hhops,
        forall_mem_cons.mpr ⟨hfirst, hbefore⟩⟩

/-- The loop finds that entry. -/
theorem delegated_eq_ok_iff (hs : Keeps hash forwarder.m_fib.m_nameTree l)
    (fh : List Delegation) (last : Option EntryRef) :
    forwarder.delegated hash fh last = .ok (ref, true) ↔ Delegates forwarder fh ref := by
  induction fh generalizing last with
  | nil =>
    refine iff_of_false (fun h => ?_) ?_
    · cases last with
      | none => cases h
      | some fibEntry =>
        rw [Tables.delegated] at h
        split_ifs at h
        cases h
    · rintro ⟨before, del, after, heq, -⟩
      exact absurd heq.symm (append_ne_nil_of_right_ne_nil before (cons_ne_nil _ _))
  | cons del rest ih =>
    obtain ⟨found, hok, hfound⟩ := hs.findLongestPrefixMatch del.name nteHasFibEntry
    obtain ⟨fibEntry, hentry⟩ :
        ∃ fibEntry, forwarder.m_fib.findLongestPrefixMatch hash del.name = .ok fibEntry := by
      rw [Fib.findLongestPrefixMatch, hok, ok_bind, entryOrEmpty_eq hfound]
      exact ⟨_, rfl⟩
    have hmatch := (findLongestPrefixMatch_eq_ok_iff hs).mp hentry
    have hunique : ∀ ref', LongestMatch forwarder.m_fib del.name ref' → ref' = fibEntry := by
      intro ref' href'
      have hentry' := (findLongestPrefixMatch_eq_ok_iff hs).mpr href'
      exact Except.ok.inj (hentry'.symm.trans hentry)
    rw [Tables.delegated, hentry, ok_bind, delegates_cons_iff]
    -- The first delegation has next hops, or leads to the root and is skipped, or ends the search.
    by_cases hhops : forwarder.m_fib.hasNextHops fibEntry = true
    · rw [if_pos hhops]
      constructor
      · rintro h
        cases h
        exact .inl ⟨hmatch, hhops⟩
      · rintro (⟨href, -⟩ | ⟨⟨ref', href', hnot, -⟩, -⟩)
        · rw [hunique ref href]
        · rw [hunique ref' href', hhops] at hnot
          cases hnot
    · rw [if_neg hhops]
      have hnohops := Bool.eq_false_iff.mpr hhops
      by_cases hroot : (forwarder.m_fib.deref fibEntry).getPrefix.length = 0
      · rw [if_pos hroot, ih]
        constructor
        · intro h
          exact .inr ⟨⟨fibEntry, hmatch, hnohops, eq_nil_of_length_eq_zero hroot⟩, h⟩
        · rintro (⟨href, hhops'⟩ | ⟨-, h⟩)
          · rw [hunique ref href] at hhops'
            exact absurd hhops' hhops
          · exact h
      · rw [if_neg hroot]
        refine iff_of_false (fun h => by cases h) ?_
        rintro (⟨href, hhops'⟩ | ⟨⟨ref', href', -, hempty⟩, -⟩)
        · rw [hunique ref href] at hhops'
          exact hhops hhops'
        · rw [hunique ref' href'] at hempty
          exact hroot (congrArg List.length hempty)

/-! ### The two lookups -/

/-- The name of the protocol, as a text. -/
theorem toUri_kademlia : kademlia.toUri = Tables.kademliaUri := by decide

/-- The single lookup returns the first element of the list, or the empty entry when there is
none, and nothing is null. -/
def Agree (hash : Component → HashValue) (forwarder : Tables) (sort : NextHopSort)
    (pitEntry : pit.AttachedEntry) (currentId : Text) : Prop :=
  ∃ single list, forwarder.lookupFibByID hash sort pitEntry currentId = .ok single ∧
    forwarder.lookupFibList hash sort pitEntry currentId = .ok list ∧
    (∀ first ∈ list.head?, first = some single) ∧ (single = .s_emptyEntry ↔ list = []) ∧
    ∀ entry ∈ list, entry ≠ none

/-- What an Interest needs for it: without a forwarding hint, that no element of the list is null,
and with one, that it leads to an entry. -/
def CanAgree (forwarder : Tables) (pitEntry : pit.AttachedEntry) (currentId : Text) : Prop :=
  if pitEntry.interest.forwardingHint = [] then
    Readable forwarder.m_fib.m_nameTree pitEntry.interest.hashedName currentId ∧
      NoneNull forwarder.m_fib.m_nameTree pitEntry.interest.hashedName currentId
  else
    forwarder.isInProducerRegion pitEntry.interest.forwardingHint = false ∧
      ∃ ref, Delegates forwarder pitEntry.interest.forwardingHint ref

variable {pitEntry : pit.AttachedEntry} {currentId : Text}

/-- A selected entry is one of the table. -/
theorem selected_ne_empty {nodes : List ℕ} {entry : EntryRef}
    (hentry : some entry ∈ selected s nodes) : entry ≠ .s_emptyEntry := by
  rintro rfl
  have hmem : some EntryRef.s_emptyEntry ∈ nodes.map (fibAt s) := by
    rwa [selected_of_ne_nil (ne_nil_of_mem hentry)] at hentry
  obtain ⟨p, -, hp⟩ := mem_map.mp hmem
  obtain ⟨pointer, -, heq⟩ := map_eq_some_iff.mp hp
  cases heq

section

variable (hprotocol : pitEntry.interest.protocol = kademlia)
  (hnone : pitEntry.interest.forwardingHint = []) (sort : NextHopSort)

include hprotocol hnone sort

/-- The lookup by identifier in a strategy is that of the table. -/
theorem lookupFibByID_eq :
    forwarder.lookupFibByID hash sort pitEntry currentId =
      Fib.findLongestIDMatch forwarder.m_fib.m_nameTree sort pitEntry.interest.hashedName
        currentId := by
  rw [Tables.lookupFibByID, if_pos hnone, if_pos (hprotocol ▸ toUri_kademlia)]

/-- The lookup of the list in a strategy is that of the table. -/
theorem lookupFibList_eq :
    forwarder.lookupFibList hash sort pitEntry currentId =
      Fib.findLongestIDMatchList forwarder.m_fib.m_nameTree sort pitEntry.interest.hashedName
        currentId := by
  rw [Tables.lookupFibList, if_pos hnone, if_pos (hprotocol ▸ toUri_kademlia)]

end

/-- Without a forwarding hint. -/
theorem agree_iff_of_none (hs : Keeps hash forwarder.m_fib.m_nameTree l)
    (hprotocol : pitEntry.interest.protocol = kademlia)
    (hnone : pitEntry.interest.forwardingHint = []) :
    (∀ sort, Agree hash forwarder sort pitEntry currentId) ↔
      CanAgree forwarder pitEntry currentId := by
  unfold CanAgree Agree
  simp only [lookupFibByID_eq hprotocol hnone, lookupFibList_eq hprotocol hnone]
  rw [if_pos hnone, ← hs.lookupsSafe_iff]
  constructor
  · intro h sort
    obtain ⟨single, list, hsingle, hlist, -, -, hall⟩ := h sort
    exact ⟨⟨list, hlist, hall⟩, single, hsingle⟩
  · intro h sort
    obtain ⟨⟨list, hlist, hall⟩, -⟩ := h sort
    obtain ⟨a, b, -, hlist', hsingle⟩ := hs.lookups_eq (hs.readable_of_list hlist) sort
    rw [hlist] at hlist'
    cases hlist'
    refine ⟨_, _, hsingle, hlist, ?_, ?_, hall⟩
    · intro first hfirst
      have hmem := mem_of_head? hfirst
      obtain ⟨entry, rfl⟩ := ne_none_iff_exists'.mp (hall first hmem)
      obtain ⟨rest, heq⟩ := List.head?_eq_some_iff.mp hfirst
      rw [heq]
      rfl
    · constructor
      · intro hempty
        by_contra hne
        obtain ⟨first, rest, heq⟩ := exists_cons_of_ne_nil hne
        have hmem : first ∈ selected forwarder.m_fib.m_nameTree (a.map Prod.snd) :=
          heq ▸ mem_cons_self
        obtain ⟨entry, rfl⟩ := ne_none_iff_exists'.mp (hall first hmem)
        rw [heq] at hempty
        exact selected_ne_empty hmem hempty
      · intro hnil
        rw [hnil]
        rfl

/-- With a forwarding hint. -/
theorem agree_iff_of_some (hs : Keeps hash forwarder.m_fib.m_nameTree l)
    (hsome : pitEntry.interest.forwardingHint ≠ []) (sort : NextHopSort) :
    Agree hash forwarder sort pitEntry currentId ↔ CanAgree forwarder pitEntry currentId := by
  unfold CanAgree Agree Tables.lookupFibByID Tables.lookupFibList Tables.lookupDelegated
  rw [if_neg hsome, if_neg hsome, if_neg hsome]
  by_cases hregion : forwarder.isInProducerRegion pitEntry.interest.forwardingHint = true
  · rw [if_pos hregion, hregion]
    refine iff_of_false ?_ fun h => Bool.noConfusion h.1
    rintro ⟨single, list, hsingle, -⟩
    cases hsingle
  · rw [if_neg hregion]
    have hout := Bool.eq_false_iff.mpr hregion
    constructor
    · rintro ⟨single, list, hsingle, hlist, -, -, hall⟩
      refine ⟨hout, ?_⟩
      cases hfound : forwarder.delegated hash pitEntry.interest.forwardingHint none with
      | error fault =>
        rw [hfound] at hsingle
        cases hsingle
      | ok found =>
        obtain ⟨ref, isFound⟩ := found
        cases isFound with
        | true => exact ⟨ref, (delegated_eq_ok_iff hs _ _).mp hfound⟩
        | false =>
          rw [hfound] at hlist
          cases hlist
          exact absurd rfl (hall none mem_cons_self)
    · rintro ⟨-, ref, href⟩
      have hfound := (delegated_eq_ok_iff hs _ none).mpr href
      obtain ⟨-, -, -, -, -, hhops, -⟩ := href
      rw [hfound]
      refine ⟨ref, [some ref], rfl, rfl, fun first hfirst => (Option.some.inj hfirst).symm, ?_, ?_⟩
      · refine iff_of_false ?_ (cons_ne_nil _ _)
        rintro rfl
        cases hhops
      · intro entry hentry
        rw [mem_singleton.mp hentry]
        exact some_ne_none ref

/-- **When the two lookups agree**, after any run of calls of the name tree. -/
theorem lookups_agree_iff (hash : Component → HashValue) (options : HashtableOptions)
    (calls : List NameTree.Call)
    (hvalid : TracedRun.Meets (NameTree.step hash) (fun s _ call => Valid s call)
      (NameTree.ofOptions options) [] calls)
    (entries : ℕ → fib.Entry) (regions : List Name) (pitEntry : pit.AttachedEntry)
    (hprotocol : pitEntry.interest.protocol = kademlia) (currentId : Text) :
    ∃ s returned, TracedRun.run (NameTree.step hash) (NameTree.ofOptions options) calls =
      .ok (s, returned) ∧
      ((∀ sort, Agree hash ⟨⟨s, entries⟩, regions⟩ sort pitEntry currentId) ↔
        CanAgree ⟨⟨s, entries⟩, regions⟩ pitEntry currentId) := by
  obtain ⟨s, returned, hok, l, hs⟩ := run_keeps hash options calls hvalid
  refine ⟨s, returned, hok, ?_⟩
  by_cases hnone : pitEntry.interest.forwardingHint = []
  · exact agree_iff_of_none hs hprotocol hnone
  · have hagree : ∀ sort, Agree hash ⟨⟨s, entries⟩, regions⟩ sort pitEntry currentId ↔
        CanAgree ⟨⟨s, entries⟩, regions⟩ pitEntry currentId := agree_iff_of_some hs hnone
    constructor
    · exact fun h => (hagree (CutSort.insertionSort _ _)).mp (h _)
    · exact fun h sort => (hagree sort).mpr h

/-- A PIT entry for an Interest with a forwarding hint. -/
def hinted : pit.AttachedEntry where
  interest :=
    { name := nameOf [97]
      forwardingHint := [⟨0, nameOf [98]⟩]
      hashedName := zeros
      protocol := kademlia }
  inRecords := []
  outRecords := []
  isSatisfied := false
  dataFreshnessPeriod := 0
  nameTreeEntry := 0

/-- FIB entries without next hops. -/
def noNextHops (_ : ℕ) : fib.Entry := ⟨[], []⟩

/-- A hinted Interest on a table of one bucket. -/
theorem lookups_agree_iff_hinted : ∃ s returned,
    TracedRun.run (NameTree.step hashOfWire) (NameTree.ofOptions defaultOptions)
      oneBucket = .ok (s, returned) ∧
      ((∀ sort, Agree hashOfWire ⟨⟨s, noNextHops⟩, []⟩ sort hinted farthest) ↔
        CanAgree ⟨⟨s, noNextHops⟩, []⟩ hinted farthest) :=
  lookups_agree_iff _ _ _ (by decide +kernel) noNextHops [] hinted rfl farthest

/-- The hint leads nowhere, and the list has a null pointer. -/
theorem lookups_disagree : ∃ s returned,
    TracedRun.run (NameTree.step hashOfWire) (NameTree.ofOptions defaultOptions)
      oneBucket = .ok (s, returned) ∧
      ¬ ∀ sort, Agree hashOfWire ⟨⟨s, noNextHops⟩, []⟩ sort hinted farthest := by
  obtain ⟨s, returned, hok, -⟩ := run_keeps hashOfWire defaultOptions oneBucket
    (by decide +kernel)
  refine ⟨s, returned, hok, fun h => ?_⟩
  have hnull : (TracedRun.run (NameTree.step hashOfWire)
      (NameTree.ofOptions defaultOptions) oneBucket).map (fun r =>
        (⟨⟨r.1, noNextHops⟩, []⟩ : Tables).lookupFibList hashOfWire
          (CutSort.insertionSort _ _) hinted farthest) = .ok (.ok [none]) := by decide +kernel
  rw [hok] at hnull
  obtain ⟨single, list, -, hlist, -, -, hall⟩ := h (CutSort.insertionSort _ _)
  cases hlist.symm.trans (Except.ok.inj hnull)
  exact hall none mem_cons_self rfl

end Ns3Joined.Nfd.fw
