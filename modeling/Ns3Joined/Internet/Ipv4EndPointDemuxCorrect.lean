import Ns3Joined.Internet.Ipv4EndPointDemux

/-!
# The end point of a packet

The end points that `Lookup` finds are of four classes: the local address is the packet's or stands
for it, and the peer is the packet's or any.

* `foldl_lookAt`: the loop finds the end points of each class.
* `right_iff`: when there is at most one of the most specific class, for every packet, and one
  whenever some end point matches.
* `clash_iff`: when two end points are of one class for some packet.
* `throughout_right_iff`: the runs of the sockets in which all this stays so.
-/

namespace Ns3Joined.Internet.Ipv4EndPointDemux

open List

variable {D : Type}

/-- A packet, and where it came in. -/
structure Arrival (D : Type) where
  daddr : Ipv4Address
  dport : UInt16
  saddr : Ipv4Address
  sport : UInt16
  incomingInterface : Ipv4Interface D

/-! ### The classes -/

/-- The end point gets packets that come in there. -/
def Listens (interface : Ipv4Interface D) (e : Ipv4EndPoint D) : Prop :=
  e.m_rxEnabled = true ∧ ∀ device ∈ e.m_boundnetdevice, device = interface.m_device

/-- The local address is another one, and stands for this one. -/
def StandsFor (interface : Ipv4Interface D) (daddr : Ipv4Address) (e : Ipv4EndPoint D) : Prop :=
  e.m_localAddr ≠ daddr ∧
    (e.m_localAddr = Ipv4Address.GetAny ∨ localAddressIsSubnetAny daddr interface e = true)

/-- The local address is this one, or it stands for it. -/
def HasAddress (interface : Ipv4Interface D) (daddr : Ipv4Address) (e : Ipv4EndPoint D) :
    Bool → Prop
  | true => e.m_localAddr = daddr
  | false => StandsFor interface daddr e

def peer (e : Ipv4EndPoint D) : Ipv4Address × UInt16 := (e.m_peerAddr, e.m_peerPort)

/-- The peer of a packet, or any. -/
def peerOf (p : Arrival D) : Bool → Ipv4Address × UInt16
  | true => (p.saddr, p.sport)
  | false => (Ipv4Address.GetAny, 0)

/-- The end point is of the class with the address of the packet or one that stands for it, and the
peer of the packet or any. -/
def InClass (p : Arrival D) (localExact peerExact : Bool) (e : Ipv4EndPoint D) : Prop :=
  Listens p.incomingInterface e ∧ e.m_localPort = p.dport ∧
    HasAddress p.incomingInterface p.daddr e localExact ∧ peer e = peerOf p peerExact

variable {p : Arrival D} {e e' : Ipv4EndPoint D} {l : List (Ipv4EndPoint D)}
  {localExact localExact' peerExact : Bool} {interface : Ipv4Interface D}

/-- The end point gets some of the packets that come in there, but is of a class only for some of
these: either its peer has an address and no port, or a port and no address. -/
def HalfOpen (e : Ipv4EndPoint D) : Prop :=
  ¬ (e.m_peerAddr = Ipv4Address.GetAny ↔ e.m_peerPort = 0)

/-- `Lookup` does not skip the end point. -/
def Matches (p : Arrival D) (e : Ipv4EndPoint D) : Prop :=
  Listens p.incomingInterface e ∧ e.m_localPort = p.dport ∧
    (∃ localExact, HasAddress p.incomingInterface p.daddr e localExact) ∧
    (e.m_peerPort = p.sport ∨ e.m_peerPort = 0) ∧
    (e.m_peerAddr = p.saddr ∨ e.m_peerAddr = Ipv4Address.GetAny)

/-- Both end points get packets that come in there, on the same port and from the same peer. -/
def Alike (interface : Ipv4Interface D) (e e' : Ipv4EndPoint D) : Prop :=
  Listens interface e ∧ Listens interface e' ∧ e.m_localPort = e'.m_localPort ∧ peer e = peer e'

/-- Of two that are alike the addresses differ, and where both stand for an address a third one
has it. -/
def Apart (interface : Ipv4Interface D) (l : List (Ipv4EndPoint D)) (e e' : Ipv4EndPoint D) :
    Prop :=
  Alike interface e e' → e.m_localAddr ≠ e'.m_localAddr ∧
    ∀ daddr, StandsFor interface daddr e → StandsFor interface daddr e' →
      ∃ third ∈ l, Alike interface third e ∧ third.m_localAddr = daddr

/-- All end points are told apart. -/
def ToldApart (interfaces : List (Ipv4Interface D)) (l : List (Ipv4EndPoint D)) : Prop :=
  ∀ interface ∈ interfaces, l.Pairwise (Apart interface l)

/-- What a half-open end point matches, another one gets. -/
def Served (interfaces : List (Ipv4Interface D)) (l : List (Ipv4EndPoint D)) : Prop :=
  ∀ p : Arrival D, p.incomingInterface ∈ interfaces → ∀ e ∈ l, HalfOpen e → Matches p e →
    ∃ e' ∈ l, ∃ localExact peerExact, InClass p localExact peerExact e'

/-- Two end points of one class clash on the interface of the packet. -/
theorem InClass.alike (h : InClass p localExact peerExact e)
    (h' : InClass p localExact' peerExact e') : Alike p.incomingInterface e e' :=
  ⟨h.1, h'.1, h.2.1.trans h'.2.1.symm, h.2.2.2.trans h'.2.2.2.symm⟩

/-- An end point that is not half-open is of a class for whatever it matches. -/
theorem inClass_of_matches (h : Matches p e) (hopen : ¬ HalfOpen e) :
    ∃ localExact peerExact, InClass p localExact peerExact e := by
  obtain ⟨hlistens, hport, ⟨localExact, haddress⟩, hpeerPort, hpeerAddr⟩ := h
  have hboth : e.m_peerAddr = Ipv4Address.GetAny ↔ e.m_peerPort = 0 := not_not.mp hopen
  by_cases hzero : e.m_peerPort = 0
  · exact ⟨localExact, false, hlistens, hport, haddress, Prod.ext (hboth.mpr hzero) hzero⟩
  · have hany := mt hboth.mp hzero
    exact ⟨localExact, true, hlistens, hport, haddress,
      Prod.ext (hpeerAddr.resolve_right hany) (hpeerPort.resolve_right hzero)⟩

/-! ### Allocations -/

/-- Two end points that are of one class for some packet that comes in there. -/
def Clash (interface : Ipv4Interface D) (e e' : Ipv4EndPoint D) : Prop :=
  Alike interface e e' ∧ (e.m_localAddr = e'.m_localAddr ∨
    ∃ daddr, StandsFor interface daddr e ∧ StandsFor interface daddr e')

/-- Two end points clash if and only if some packet falls in the same class of both. -/
theorem clash_iff : Clash interface e e' ↔ ∃ p : Arrival D, p.incomingInterface = interface ∧
    ∃ localExact peerExact, InClass p localExact peerExact e ∧
      InClass p localExact peerExact e' := by
  constructor
  · rintro ⟨⟨hlistens, hlistens', hport, hpeer⟩, haddr | ⟨daddr, hstands, hstands'⟩⟩
    · exact ⟨⟨e.m_localAddr, e.m_localPort, e.m_peerAddr, e.m_peerPort, interface⟩, rfl, true,
        true, ⟨hlistens, rfl, rfl, rfl⟩, ⟨hlistens', hport.symm, haddr.symm, hpeer.symm⟩⟩
    · exact ⟨⟨daddr, e.m_localPort, e.m_peerAddr, e.m_peerPort, interface⟩, rfl, false, true,
        ⟨hlistens, rfl, hstands, rfl⟩, ⟨hlistens', hport.symm, hstands', hpeer.symm⟩⟩
  · rintro ⟨p, rfl, localExact, peerExact, he, he'⟩
    refine ⟨he.alike he', ?_⟩
    cases localExact with
    | true => exact .inl (he.2.2.1.trans he'.2.2.1.symm)
    | false => exact .inr ⟨p.daddr, he.2.2.1, he'.2.2.1⟩

/-- No packet on these interfaces is for the new end point just as for one before it. -/
def Distinguishable (interfaces : List (Ipv4Interface D)) (a : Allocation D) : Prop :=
  ∀ p : Arrival D, p.incomingInterface ∈ interfaces → ∀ e ∈ a.before, ∀ localExact peerExact,
    ¬ (InClass p localExact peerExact e ∧ InClass p localExact peerExact a.endPoint)

/-- A new end point can be told from the old ones if and only if it clashes with none of them. -/
theorem distinguishable_iff {interfaces : List (Ipv4Interface D)} {a : Allocation D} :
    Distinguishable interfaces a ↔
      ∀ interface ∈ interfaces, ∀ e ∈ a.before, ¬ Clash interface e a.endPoint := by
  constructor
  · intro h interface hinterface e he hclash
    obtain ⟨p, rfl, localExact, peerExact, hboth⟩ := clash_iff.mp hclash
    exact h p hinterface e he localExact peerExact hboth
  · intro h p hp e he localExact peerExact hboth
    exact h _ hp e he (clash_iff.mpr ⟨p, rfl, localExact, peerExact, hboth⟩)

/-- An end point that clashes with none is told apart from all. -/
theorem toldApart_concat {interfaces : List (Ipv4Interface D)} (h : ToldApart interfaces l)
    (hnone : ∀ interface ∈ interfaces, ∀ e ∈ l, ¬ Clash interface e e') :
    ToldApart interfaces (l ++ [e']) := by
  intro interface hinterface
  refine pairwise_append.mpr ⟨?_, pairwise_singleton _ _, fun e he x hx halike => ?_⟩
  · refine (h interface hinterface).imp fun hapart halike => ?_
    obtain ⟨hne, hthird⟩ := hapart halike
    refine ⟨hne, fun daddr hstands hstands' => ?_⟩
    obtain ⟨third, hmem, hrest⟩ := hthird daddr hstands hstands'
    exact ⟨third, mem_append_left _ hmem, hrest⟩
  · obtain rfl := mem_singleton.mp hx
    have hclash := hnone interface hinterface e he
    refine ⟨fun haddr => hclash ⟨halike, .inl haddr⟩, fun daddr hstands hstands' => ?_⟩
    exact absurd ⟨halike, .inr ⟨daddr, hstands, hstands'⟩⟩ hclash

/-- An end point that is not half open may join those that are served. -/
theorem served_concat {interfaces : List (Ipv4Interface D)} (h : Served interfaces l)
    (hopen : ¬ HalfOpen e') : Served interfaces (l ++ [e']) := by
  intro p hp e he hhalf hmatches
  obtain he | he := mem_append.mp he
  · obtain ⟨other, hother, hclass⟩ := h p hp e he hhalf hmatches
    exact ⟨other, mem_append_left _ hother, hclass⟩
  · obtain rfl := mem_singleton.mp he
    exact absurd hhalf hopen

variable {port : UInt16} {s : Ipv4EndPointDemux D} {ipv4 : Ipv4Address} {boundNetDevice : Option D}
  {allocations : List (Allocation D)} {call : Call D}

/-- A port the search returns is free. -/
theorem lookupPortLocal_freePortAfter {turns : ℕ} {port' : UInt16}
    (hfound : s.freePortAfter turns port = some port') : s.LookupPortLocal port' = false := by
  induction turns generalizing port with
  | zero => cases hfound
  | succ turns ih =>
    rw [freePortAfter] at hfound
    cases hlookup : s.LookupPortLocal (s.nextPort port) with
    | true =>
      rw [hlookup, if_pos rfl] at hfound
      exact ih hfound
    | false =>
      rw [hlookup, if_neg Bool.false_ne_true] at hfound
      cases hfound
      exact hlookup

/-- An end point on a free port clashes with no other. -/
theorem not_clash_of_free (hfree : s.LookupPortLocal e'.m_localPort = false) :
    ∀ e ∈ s.m_endPoints, ¬ Clash interface e e' := by
  intro e he hclash
  have hany := any_eq_false.mp hfree e he
  exact hany (beq_iff_eq.mpr hclash.1.2.2.1)

/-- A new end point has a memory address of its own. -/
def Numbered (s : Ipv4EndPointDemux D) : Prop := ∀ e ∈ s.m_endPoints, e.pointer < s.made

/-- Finishing a fresh end point changes that end point only. -/
theorem finish_push {s' : Ipv4EndPointDemux D} (f : Ipv4EndPoint D → Ipv4EndPoint D)
    (hs' : Numbered s') (he : e.pointer = s'.made) :
    s.finish f (s'.push e, some e) = (s'.push (f e), [⟨s.m_endPoints, f e⟩]) := by
  have hmap : s'.m_endPoints.map (fun x => if x.pointer = e.pointer then f x else x) =
      s'.m_endPoints := by
    conv_rhs => rw [← map_id s'.m_endPoints]
    refine map_congr_left fun x hx => if_neg ?_
    have hlt := hs' x hx
    omega
  unfold finish modify push
  dsimp only
  rw [map_append, hmap, map_singleton, if_pos rfl]

/-! ### What is found -/

/-- The most exact list is the first of the four that is not empty. -/
theorem mostExact_cases (found : Found D) :
    found.retval4 ≠ [] ∧ found.mostExact = found.retval4 ∨
    found.retval4 = [] ∧ found.retval3 ≠ [] ∧ found.mostExact = found.retval3 ∨
    found.retval4 = [] ∧ found.retval3 = [] ∧ found.retval2 ≠ [] ∧
      found.mostExact = found.retval2 ∨
    found.retval4 = [] ∧ found.retval3 = [] ∧ found.retval2 = [] ∧
      found.mostExact = found.retval1 := by
  obtain ⟨retval1, retval2, retval3, retval4⟩ := found
  unfold Found.mostExact
  cases retval4 with
  | cons e l => exact .inl ⟨cons_ne_nil _ _, rfl⟩
  | nil =>
    cases retval3 with
    | cons e l => exact .inr (.inl ⟨rfl, cons_ne_nil _ _, rfl⟩)
    | nil =>
      cases retval2 with
      | cons e l => exact .inr (.inr (.inl ⟨rfl, rfl, cons_ne_nil _ _, rfl⟩))
      | nil => exact .inr (.inr (.inr ⟨rfl, rfl, rfl, rfl⟩))

variable [DecidableEq D]

instance (interface : Ipv4Interface D) (e : Ipv4EndPoint D) : Decidable (Listens interface e) :=
  inferInstanceAs (Decidable (_ ∧ _))

instance (interface : Ipv4Interface D) (daddr : Ipv4Address) (e : Ipv4EndPoint D) :
    Decidable (StandsFor interface daddr e) := inferInstanceAs (Decidable (_ ∧ (_ ∨ _)))

instance (interface : Ipv4Interface D) (daddr : Ipv4Address) (e : Ipv4EndPoint D) :
    ∀ localExact, Decidable (HasAddress interface daddr e localExact)
  | true => inferInstanceAs (Decidable (_ = _))
  | false => inferInstanceAs (Decidable (StandsFor _ _ _))

instance (p : Arrival D) (localExact peerExact : Bool) (e : Ipv4EndPoint D) :
    Decidable (InClass p localExact peerExact e) := inferInstanceAs (Decidable (_ ∧ _ ∧ _ ∧ _))

/-- The end points of a class. -/
def ofClass (p : Arrival D) (localExact peerExact : Bool) (l : List (Ipv4EndPoint D)) :
    List (Ipv4EndPoint D) := l.filter fun e => InClass p localExact peerExact e

/-- All that `Lookup` finds. -/
def foundIn (p : Arrival D) (l : List (Ipv4EndPoint D)) : Found D where
  retval1 := ofClass p false false l
  retval2 := ofClass p true false l
  retval3 := ofClass p false true l
  retval4 := ofClass p true true l

/-- The list of a class keeps the members of that class. -/
theorem mem_ofClass : e ∈ ofClass p localExact peerExact l ↔
    e ∈ l ∧ InClass p localExact peerExact e := by
  rw [ofClass, mem_filter, decide_eq_true_iff]

/-- An end point that does not listen on the port is in no class. -/
theorem ofClass_single_of_not (h : ¬ (Listens p.incomingInterface e ∧ e.m_localPort = p.dport)) :
    ofClass p localExact peerExact [e] = [] :=
  filter_eq_nil_iff.mpr fun x hx => by
    obtain rfl := mem_singleton.mp hx
    rw [decide_eq_true_iff]
    exact fun hclass => h ⟨hclass.1, hclass.2.1⟩

/-- An end point that listens is in the class of its own addresses only. -/
theorem ofClass_single (h : Listens p.incomingInterface e ∧ e.m_localPort = p.dport) :
    ofClass p localExact peerExact [e] =
      if HasAddress p.incomingInterface p.daddr e localExact ∧ peer e = peerOf p peerExact then [e]
      else [] := by
  have hclass : InClass p localExact peerExact e ↔
      HasAddress p.incomingInterface p.daddr e localExact ∧ peer e = peerOf p peerExact :=
    ⟨fun hclass => hclass.2.2, fun hrest => ⟨h.1, h.2, hrest⟩⟩
  rw [ofClass, filter_cons, filter_nil]
  simp only [decide_eq_true_iff, hclass]

/-- A turn of the loop puts the end point where it belongs. -/
theorem lookAt_eq (found : Found D) :
    lookAt p.daddr p.dport p.saddr p.sport p.incomingInterface found e =
      { retval1 := found.retval1 ++ ofClass p false false [e]
        retval2 := found.retval2 ++ ofClass p true false [e]
        retval3 := found.retval3 ++ ofClass p false true [e]
        retval4 := found.retval4 ++ ofClass p true true [e] } := by
  have hskip (h : ¬ (Listens p.incomingInterface e ∧ e.m_localPort = p.dport)) :
      found = { retval1 := found.retval1 ++ ofClass p false false [e]
                retval2 := found.retval2 ++ ofClass p true false [e]
                retval3 := found.retval3 ++ ofClass p false true [e]
                retval4 := found.retval4 ++ ofClass p true true [e] } := by
    simp only [ofClass_single_of_not h, append_nil]
  unfold lookAt
  cases hrx : e.m_rxEnabled with
  | false =>
    rw [if_pos (by rfl)]
    exact hskip fun h => Bool.false_ne_true (hrx.symm.trans h.1.1)
  | true =>
    rw [if_neg (by decide)]
    by_cases hport : e.m_localPort = p.dport
    · rw [if_neg (not_not.mpr hport)]
      by_cases hdevice : e.m_boundnetdevice.any fun device => device ≠ p.incomingInterface.m_device
      · rw [if_pos hdevice]
        obtain ⟨device, hmem, hne⟩ := (Option.any_eq_true _ _).mp hdevice
        exact hskip fun h => of_decide_eq_true hne (h.1.2 device hmem)
      · have hhere : Listens p.incomingInterface e ∧ e.m_localPort = p.dport := by
          refine ⟨⟨hrx, fun device hmem => ?_⟩, hport⟩
          by_contra hne
          exact hdevice ((Option.any_eq_true _ _).mpr ⟨device, hmem, decide_eq_true hne⟩)
        rw [if_neg hdevice]
        have haddress : HasAddress p.incomingInterface p.daddr e true ↔
            (e.m_localAddr == p.daddr) = true := beq_iff_eq.symm
        have hstands : HasAddress p.incomingInterface p.daddr e false ↔
            (e.m_localAddr == p.daddr) = false ∧ ((e.m_localAddr == Ipv4Address.GetAny) = true ∨
              localAddressIsSubnetAny p.daddr p.incomingInterface e = true) := by
          rw [beq_eq_false_iff_ne, beq_iff_eq]
          rfl
        have hpeer : peer e = peerOf p true ↔
            (e.m_peerAddr == p.saddr) = true ∧ (e.m_peerPort == p.sport) = true := by
          rw [beq_iff_eq, beq_iff_eq]
          exact Prod.mk.injEq _ _ _ _ ▸ Iff.rfl
        have hany : peer e = peerOf p false ↔
            (e.m_peerAddr == Ipv4Address.GetAny) = true ∧ (e.m_peerPort == 0) = true := by
          rw [beq_iff_eq, beq_iff_eq]
          exact Prod.mk.injEq _ _ _ _ ▸ Iff.rfl
        simp only [ofClass_single hhere, haddress, hstands, hpeer, hany]
        -- what is left depends on these comparisons alone
        generalize (e.m_localAddr == p.daddr) = isLocal
        generalize (e.m_localAddr == Ipv4Address.GetAny) = isAny
        generalize localAddressIsSubnetAny p.daddr p.incomingInterface e = isSubnet
        generalize (e.m_peerAddr == p.saddr) = isPeer
        generalize (e.m_peerPort == p.sport) = isPort
        generalize (e.m_peerAddr == Ipv4Address.GetAny) = isAnyPeer
        generalize (e.m_peerPort == 0) = isAnyPort
        cases isLocal <;> cases isAny <;> cases isSubnet <;> cases isPeer <;> cases isPort <;>
          cases isAnyPeer <;> cases isAnyPort <;> simp
    · rw [if_pos hport]
      exact hskip fun h => hport h.2

/-- One pass over the end points fills the four lists with the four classes. -/
theorem foldl_lookAt (found : Found D) (l : List (Ipv4EndPoint D)) :
    l.foldl (lookAt p.daddr p.dport p.saddr p.sport p.incomingInterface) found =
      { retval1 := found.retval1 ++ ofClass p false false l
        retval2 := found.retval2 ++ ofClass p true false l
        retval3 := found.retval3 ++ ofClass p false true l
        retval4 := found.retval4 ++ ofClass p true true l } := by
  induction l generalizing found with
  | nil =>
    rw [foldl_nil]
    simp only [ofClass, filter_nil, append_nil]
  | cons e l ih =>
    have hcons (localExact peerExact : Bool) : ofClass p localExact peerExact (e :: l) =
        ofClass p localExact peerExact [e] ++ ofClass p localExact peerExact l :=
      filter_append [e] l
    rw [foldl_cons, ih, lookAt_eq]
    simp only [hcons, append_assoc]

/-- `Lookup`, for a packet. -/
def lookup (s : Ipv4EndPointDemux D) (p : Arrival D) : Except Fault (List (Ipv4EndPoint D)) :=
  s.Lookup p.daddr p.dport p.saddr p.sport p.incomingInterface

/-- `Lookup` aborts if and only if the most exact class has several members. -/
theorem lookup_eq (s : Ipv4EndPointDemux D) (p : Arrival D) :
    s.lookup p = if 1 < (foundIn p s.m_endPoints).mostExact.length then .error .abort
      else .ok (foundIn p s.m_endPoints).mostExact := by
  have hfold := foldl_lookAt (p := p) {} s.m_endPoints
  simp only [nil_append] at hfold
  rw [lookup, Lookup, hfold]
  rfl

/-- For packets on these interfaces there is at most one end point of the most specific class, and
one is found whenever one matches. -/
def LookupRight (interfaces : List (Ipv4Interface D)) (s : Ipv4EndPointDemux D) : Prop :=
  ∀ p : Arrival D, p.incomingInterface ∈ interfaces → ∃ found, s.lookup p = .ok found ∧
    ((∃ e ∈ s.m_endPoints, Matches p e) → found ≠ [])

/-- A class is inhabited if and only if some end point is of it. -/
theorem ofClass_ne_nil_iff : ofClass p localExact peerExact l ≠ [] ↔
    ∃ e ∈ l, InClass p localExact peerExact e := by
  simp only [← mem_ofClass]
  exact ⟨exists_mem_of_ne_nil _, fun ⟨e, he⟩ => ne_nil_of_mem he⟩

/-- Something is found if and only if some class is inhabited. -/
theorem mostExact_ne_nil_iff : (foundIn p l).mostExact ≠ [] ↔
    ∃ localExact peerExact, ofClass p localExact peerExact l ≠ [] := by
  obtain ⟨h4, hfound⟩ | ⟨h4, h3, hfound⟩ | ⟨h4, h3, h2, hfound⟩ | ⟨h4, h3, h2, hfound⟩ :=
    mostExact_cases (foundIn p l)
  · exact ⟨fun _ => ⟨true, true, h4⟩, fun _ => hfound ▸ h4⟩
  · exact ⟨fun _ => ⟨false, true, h3⟩, fun _ => hfound ▸ h3⟩
  · exact ⟨fun _ => ⟨true, false, h2⟩, fun _ => hfound ▸ h2⟩
  · rw [hfound]
    refine ⟨fun h1 => ⟨false, false, h1⟩, ?_⟩
    rintro ⟨localExact, peerExact, hne⟩
    cases localExact <;> cases peerExact
    · exact hne
    · exact absurd h3 hne
    · exact absurd h2 hne
    · exact absurd h4 hne

/-- What is found is a class, and those of its end points that only stand for the address are found
if none has it. -/
theorem exists_class_mostExact : ∃ localExact peerExact,
    (foundIn p l).mostExact = ofClass p localExact peerExact l ∧
      (localExact = false → ofClass p true peerExact l = []) := by
  obtain ⟨-, hfound⟩ | ⟨h4, -, hfound⟩ | ⟨-, -, -, hfound⟩ | ⟨-, -, h2, hfound⟩ :=
    mostExact_cases (foundIn p l)
  · exact ⟨true, true, hfound, fun hfalse => nomatch hfalse⟩
  · exact ⟨false, true, hfound, fun _ => h4⟩
  · exact ⟨true, false, hfound, fun hfalse => nomatch hfalse⟩
  · exact ⟨false, false, hfound, fun _ => h2⟩

/-- Two end points of one class. -/
theorem one_lt_length_ofClass_iff : 1 < (ofClass p localExact peerExact l).length ↔
    ∃ e e', List.Sublist [e, e'] l ∧ InClass p localExact peerExact e ∧
      InClass p localExact peerExact e' := by
  constructor
  · intro hlength
    match hfilter : ofClass p localExact peerExact l with
    | [] =>
      rw [hfilter] at hlength
      exact absurd hlength (Nat.not_lt_zero 1)
    | [_] =>
      rw [hfilter] at hlength
      exact absurd hlength (Nat.lt_irrefl 1)
    | e :: e' :: rest =>
      have hsub : List.Sublist [e, e'] (ofClass p localExact peerExact l) := by
        rw [hfilter]
        exact ((nil_sublist rest).cons_cons e').cons_cons e
      have hmem (x : Ipv4EndPoint D) (hx : x ∈ [e, e']) : InClass p localExact peerExact x :=
        (mem_ofClass.mp (hsub.subset hx)).2
      exact ⟨e, e', hsub.trans filter_sublist, hmem e (by simp), hmem e' (by simp)⟩
  · rintro ⟨e, e', hsub, he, he'⟩
    have hpair : ofClass p localExact peerExact [e, e'] = [e, e'] := by
      rw [ofClass, filter_eq_self]
      intro x hx
      rw [decide_eq_true_iff]
      obtain rfl | rfl : x = e ∨ x = e' := by simpa using hx
      · exact he
      · exact he'
    have hle := (hsub.filter fun e => decide (InClass p localExact peerExact e)).length_le
    change (ofClass p localExact peerExact [e, e']).length ≤ _ at hle
    rw [hpair] at hle
    exact hle

/-- Where no two end points clash, the most exact class has at most one member. -/
theorem length_mostExact_le_one (htold : l.Pairwise (Apart p.incomingInterface l)) :
    (foundIn p l).mostExact.length ≤ 1 := by
  obtain ⟨localExact, peerExact, hfound, hnone⟩ := exists_class_mostExact (p := p) (l := l)
  rw [hfound]
  by_contra hlt
  obtain ⟨e, e', hsub, he, he'⟩ := one_lt_length_ofClass_iff.mp (not_le.mp hlt)
  obtain ⟨hne, hthird⟩ := pairwise_iff_forall_sublist.mp htold hsub (he.alike he')
  cases localExact with
  | true => exact hne (he.2.2.1.trans he'.2.2.1.symm)
  | false =>
    obtain ⟨third, hmem, halike, haddr⟩ := hthird p.daddr he.2.2.1 he'.2.2.1
    refine ofClass_ne_nil_iff.mpr ⟨third, hmem, ?_⟩ (hnone rfl)
    exact ⟨halike.1, halike.2.2.1.trans he.2.1, haddr, halike.2.2.2.trans he.2.2.2⟩

/-- Otherwise two are found for some packet. -/
theorem exists_one_lt_length (hsub : List.Sublist [e, e'] l) (halike : Alike interface e e')
    (hone : ∀ p : Arrival D, p.incomingInterface = interface →
      (foundIn p l).mostExact.length ≤ 1) : e.m_localAddr ≠ e'.m_localAddr ∧
    ∀ daddr, StandsFor interface daddr e → StandsFor interface daddr e' →
      ∃ third ∈ l, Alike interface third e ∧ third.m_localAddr = daddr := by
  obtain ⟨hlistens, hlistens', hport, hpeer⟩ := halike
  refine ⟨fun haddr => ?_, fun daddr hstands hstands' => ?_⟩
  · -- a packet for the address that both have
    let p : Arrival D := ⟨e.m_localAddr, e.m_localPort, e.m_peerAddr, e.m_peerPort, interface⟩
    have hboth : 1 < (ofClass p true true l).length := one_lt_length_ofClass_iff.mpr
      ⟨e, e', hsub, ⟨hlistens, rfl, rfl, rfl⟩, ⟨hlistens', hport.symm, haddr.symm, hpeer.symm⟩⟩
    have hle := hone p rfl
    obtain ⟨-, hfound⟩ | ⟨h4, -⟩ | ⟨h4, -⟩ | ⟨h4, -⟩ := mostExact_cases (foundIn p l)
    · rw [hfound] at hle
      exact absurd hboth (not_lt.mpr hle)
    all_goals
      change ofClass p true true l = [] at h4
      rw [h4] at hboth
      exact absurd hboth (Nat.not_lt_zero 1)
  · -- a packet for the address that both stand for
    let p : Arrival D := ⟨daddr, e.m_localPort, e.m_peerAddr, e.m_peerPort, interface⟩
    have hboth : 1 < (ofClass p false true l).length := one_lt_length_ofClass_iff.mpr
      ⟨e, e', hsub, ⟨hlistens, rfl, hstands, rfl⟩, ⟨hlistens', hport.symm, hstands', hpeer.symm⟩⟩
    have hle := hone p rfl
    obtain ⟨h4, -⟩ | ⟨-, -, hfound⟩ | ⟨-, h3, -⟩ | ⟨-, h3, -⟩ := mostExact_cases (foundIn p l)
    · obtain ⟨third, hmem, hclass⟩ := ofClass_ne_nil_iff.mp h4
      exact ⟨third, hmem, ⟨hclass.1, hlistens, hclass.2.1, hclass.2.2.2⟩, hclass.2.2.1⟩
    · rw [hfound] at hle
      exact absurd hboth (not_lt.mpr hle)
    all_goals
      change ofClass p false true l = [] at h3
      rw [h3] at hboth
      exact absurd hboth (Nat.not_lt_zero 1)

/-- When `Lookup` returns, and what. -/
theorem lookup_eq_ok_iff {found : List (Ipv4EndPoint D)} :
    s.lookup p = .ok found ↔ (foundIn p s.m_endPoints).mostExact = found ∧
      (foundIn p s.m_endPoints).mostExact.length ≤ 1 := by
  rw [lookup_eq]
  by_cases hlt : 1 < (foundIn p s.m_endPoints).mostExact.length
  · rw [if_pos hlt]
    exact ⟨fun hok => (nomatch hok), fun h => absurd hlt (not_lt.mpr h.2)⟩
  · rw [if_neg hlt]
    exact ⟨fun hok => ⟨Except.ok.inj hok, not_lt.mp hlt⟩, fun h => congrArg Except.ok h.1⟩

/-- `Lookup` is right exactly as long as all end points are told apart, and what half-open ones
match others get. -/
theorem right_iff {interfaces : List (Ipv4Interface D)} :
    LookupRight interfaces s ↔
      ToldApart interfaces s.m_endPoints ∧ Served interfaces s.m_endPoints := by
  constructor
  · intro hright
    refine ⟨fun interface hinterface => ?_, fun p hp e he _ hmatches => ?_⟩
    · refine pairwise_iff_forall_sublist.mpr fun hsub halike => ?_
      refine exists_one_lt_length hsub halike fun p hp => ?_
      obtain ⟨found, hok, -⟩ := hright p (hp ▸ hinterface)
      exact (lookup_eq_ok_iff.mp hok).2
    · obtain ⟨found, hok, hfound⟩ := hright p hp
      obtain ⟨rfl, -⟩ := lookup_eq_ok_iff.mp hok
      obtain ⟨localExact, peerExact, hne⟩ := mostExact_ne_nil_iff.mp (hfound ⟨e, he, hmatches⟩)
      obtain ⟨e', he', hclass⟩ := ofClass_ne_nil_iff.mp hne
      exact ⟨e', he', localExact, peerExact, hclass⟩
  · rintro ⟨htold, hserved⟩ p hp
    refine ⟨_, lookup_eq_ok_iff.mpr ⟨rfl, length_mostExact_le_one (htold _ hp)⟩, ?_⟩
    rintro ⟨e, he, hmatches⟩
    rw [mostExact_ne_nil_iff]
    by_cases hopen : HalfOpen e
    · obtain ⟨e', he', localExact, peerExact, hclass⟩ := hserved p hp e he hopen hmatches
      exact ⟨localExact, peerExact, ofClass_ne_nil_iff.mpr ⟨e', he', hclass⟩⟩
    · obtain ⟨localExact, peerExact, hclass⟩ := inClass_of_matches hmatches hopen
      exact ⟨localExact, peerExact, ofClass_ne_nil_iff.mpr ⟨e, he, hclass⟩⟩

/-! ### Runs -/

section Steps

variable (f : Ipv4EndPoint D → Ipv4EndPoint D)

/-- What a `Bind` does: without a port, a free one is taken if there is one, and with a port it
fails if `LookupLocal` finds an end point. -/
theorem finish_allocateFor (hs : Numbered s) (boundNetDevice : Option D) (ipv4 : Ipv4Address)
    (port : UInt16) :
    (∃ s' : Ipv4EndPointDemux D, s'.m_endPoints = s.m_endPoints ∧ s'.made = s.made ∧
        (port ≠ 0 → (s.LookupLocal boundNetDevice ipv4 port ||
          s.LookupLocal none ipv4 port) = true) ∧
        s.finish f (s.allocateFor boundNetDevice ipv4 port) = (s', [])) ∨
    ∃ (s' : Ipv4EndPointDemux D) (port' : UInt16),
      s'.m_endPoints = s.m_endPoints ∧ s'.made = s.made ∧
      (port = 0 ∧ s.LookupPortLocal port' = false ∨
        port ≠ 0 ∧ port' = port ∧ (s.LookupLocal boundNetDevice ipv4 port ||
          s.LookupLocal none ipv4 port) = false) ∧
      s.finish f (s.allocateFor boundNetDevice ipv4 port) =
        (s'.push (f (s.newEndPoint ipv4 port')), [⟨s.m_endPoints, f (s.newEndPoint ipv4 port')⟩])
    := by
  by_cases hport : port = 0
  · rw [allocateFor, if_pos hport, AllocateAddress, AllocateEphemeralPort]
    cases hfound : s.freePortAfter (s.m_portLast.toNat + 1 - s.m_portFirst.toNat)
        s.m_ephemeral with
    | none => exact .inl ⟨s, rfl, rfl, fun hne => absurd hport hne, rfl⟩
    | some port' =>
      dsimp only
      by_cases hzero : port' = 0
      · rw [if_pos hzero]
        exact .inl ⟨{ s with m_ephemeral := port' }, rfl, rfl, fun hne => absurd hport hne, rfl⟩
      · rw [if_neg hzero]
        exact .inr ⟨{ s with m_ephemeral := port' }, port', rfl, rfl,
          .inl ⟨hport, lookupPortLocal_freePortAfter hfound⟩, finish_push f hs rfl⟩
  · rw [allocateFor, if_neg hport, AllocatePort]
    cases htaken : s.LookupLocal boundNetDevice ipv4 port || s.LookupLocal none ipv4 port with
    | true =>
      rw [if_pos rfl]
      exact .inl ⟨s, rfl, rfl, fun _ => rfl, rfl⟩
    | false =>
      rw [if_neg Bool.false_ne_true]
      exact .inr ⟨s, port, rfl, rfl, .inr ⟨hport, rfl, rfl⟩, finish_push f hs rfl⟩

/-- `AllocatePeer` pushes one end point or refuses. -/
theorem finish_allocatePeer (hs : Numbered s) (boundNetDevice : Option D)
    (localAddress : Ipv4Address) (localPort : UInt16) (peerAddress : Ipv4Address)
    (peerPort : UInt16) :
    s.finish f (s.AllocatePeer boundNetDevice localAddress localPort peerAddress peerPort) =
      if s.LookupPeer boundNetDevice localAddress localPort peerAddress peerPort then (s, [])
      else (s.push (f ((s.newEndPoint localAddress localPort).SetPeer peerAddress peerPort)),
        [⟨s.m_endPoints, f ((s.newEndPoint localAddress localPort).SetPeer peerAddress peerPort)⟩])
    := by
  unfold AllocatePeer
  split
  · rfl
  · exact finish_push f hs rfl

end Steps

variable (interfaces : List (Ipv4Interface D))

/-- The end point clashes with none. -/
def Fresh (s : Ipv4EndPointDemux D) (e : Ipv4EndPoint D) : Prop :=
  ∀ interface ∈ interfaces, ∀ e' ∈ s.m_endPoints, ¬ Clash interface e' e

/-- `Lookup` can take these end points. -/
def Sound (l : List (Ipv4EndPoint D)) : Prop := ToldApart interfaces l ∧ Served interfaces l

/-- Of the calls with a port, those that the check for a duplicate lets through make an end point
that clashes with none, and those that change an end point or remove one leave all told apart. -/
def Fits (s : Ipv4EndPointDemux D) : Call D → Prop
  | .UdpBind m_boundnetdevice ipv4 port => port ≠ 0 →
    (s.LookupLocal m_boundnetdevice ipv4 port || s.LookupLocal none ipv4 port) = false →
    Fresh interfaces s ((s.newEndPoint ipv4 port).BindToNetDevice m_boundnetdevice)
  | .TcpBind m_boundnetdevice ipv4 port => port ≠ 0 →
    (s.LookupLocal m_boundnetdevice ipv4 port || s.LookupLocal none ipv4 port) = false →
    Fresh interfaces s (s.newEndPoint ipv4 port)
  | .CompleteFork m_boundnetdevice localAddress localPort peerAddress peerPort =>
    s.LookupPeer m_boundnetdevice localAddress localPort peerAddress peerPort = false →
    Fresh interfaces s ((s.newEndPoint localAddress localPort).SetPeer peerAddress peerPort) ∧
    Served interfaces (s.m_endPoints ++
      [(s.newEndPoint localAddress localPort).SetPeer peerAddress peerPort])
  | .SetLocalAddress pointer address =>
    Sound interfaces (s.modify pointer (·.SetLocalAddress address)).m_endPoints
  | .SetPeer pointer address port =>
    Sound interfaces (s.modify pointer (·.SetPeer address port)).m_endPoints
  | .BindToNetDevice pointer netdevice =>
    Sound interfaces (s.modify pointer (·.BindToNetDevice netdevice)).m_endPoints
  | .SetRxEnabled pointer enabled =>
    Sound interfaces (s.modify pointer (·.SetRxEnabled enabled)).m_endPoints
  | .DeAllocate pointer => Sound interfaces (s.DeAllocate pointer).m_endPoints

/-- `Lookup` is right, and every end point that was made could be told from those before it. -/
def Right (s : Ipv4EndPointDemux D) (h : List (Allocation D)) : Prop :=
  LookupRight interfaces s ∧ ∀ a ∈ h, Distinguishable interfaces a

variable {interfaces} {s' : Ipv4EndPointDemux D} {h : List (Allocation D)}

/-- A fresh end point that is served may be pushed. -/
theorem Right.push (hs : Right interfaces s h) (hpoints : s'.m_endPoints = s.m_endPoints)
    (hfresh : Fresh interfaces s e) (hserved : Served interfaces (s.m_endPoints ++ [e])) :
    Right interfaces (s'.push e) (h ++ [⟨s.m_endPoints, e⟩]) := by
  obtain ⟨hright, hall⟩ := hs
  refine ⟨right_iff.mpr ?_, fun a ha => ?_⟩
  · have hpush : (s'.push e).m_endPoints = s.m_endPoints ++ [e] :=
      congrArg (· ++ [e]) hpoints
    rw [hpush]
    exact ⟨toldApart_concat (right_iff.mp hright).1 hfresh, hserved⟩
  · obtain ha | ha := mem_append.mp ha
    · exact hall a ha
    · obtain rfl := mem_singleton.mp ha
      exact distinguishable_iff.mpr hfresh

/-- The last end point allocated in a right run was fresh. -/
theorem fresh_of_right (hs : Right interfaces s' (h ++ [⟨s.m_endPoints, e⟩])) :
    Fresh interfaces s e :=
  distinguishable_iff.mp (hs.2 _ (mem_append_right _ (mem_singleton_self _)))

omit [DecidableEq D] in
/-- Pushing an end point under the next pointer keeps the numbering. -/
theorem Numbered.push (hs : Numbered s) (hpoints : s'.m_endPoints = s.m_endPoints)
    (hmade : s'.made = s.made) (he : e.pointer = s.made) : Numbered (s'.push e) := by
  intro x hx
  change x ∈ s'.m_endPoints ++ [e] at hx
  change x.pointer < s'.made + 1
  rw [hpoints] at hx
  rw [hmade]
  obtain hx | hx := mem_append.mp hx
  · exact Nat.lt_succ_of_lt (hs x hx)
  · obtain rfl := mem_singleton.mp hx
    exact he ▸ Nat.lt_succ_self _

omit [DecidableEq D] in
/-- Changing an end point in place keeps the numbering. -/
theorem Numbered.modify (hs : Numbered s) (pointer : ℕ) {f : Ipv4EndPoint D → Ipv4EndPoint D}
    (hf : ∀ e, (f e).pointer = e.pointer) : Numbered (s.modify pointer f) := by
  intro x hx
  obtain ⟨e, he, rfl⟩ := mem_map.mp hx
  have hlt := hs e he
  split
  · rw [hf]
    exact hlt
  · exact hlt

/-- The invariant reads the end points only. -/
theorem Right.of_eq (hs : Right interfaces s h) (hpoints : s'.m_endPoints = s.m_endPoints) :
    Right interfaces s' h :=
  ⟨right_iff.mpr (hpoints ▸ right_iff.mp hs.1), hs.2⟩

/-! ### What the calls keep -/

/-- What a socket does with its new end point leaves the port and the peer. -/
def Leaves (f : Ipv4EndPoint D → Ipv4EndPoint D) : Prop :=
  ∀ e, (f e).pointer = e.pointer ∧ (f e).m_localPort = e.m_localPort ∧ peer (f e) = peer e

/-- Binding a socket keeps the invariant where the new end point is fresh whenever it is made. -/
theorem Right.bind {f : Ipv4EndPoint D → Ipv4EndPoint D} (hf : Leaves f) (hs : Numbered s)
    (hright : Right interfaces s h)
    (hfits : port ≠ 0 → (s.LookupLocal boundNetDevice ipv4 port ||
      s.LookupLocal none ipv4 port) = false → Fresh interfaces s (f (s.newEndPoint ipv4 port))) :
    Numbered (s.finish f (s.allocateFor boundNetDevice ipv4 port)).1 ∧
      Right interfaces (s.finish f (s.allocateFor boundNetDevice ipv4 port)).1
        (h ++ (s.finish f (s.allocateFor boundNetDevice ipv4 port)).2) := by
  obtain ⟨s', hpoints, hmade, -, hfinish⟩ | ⟨s', port', hpoints, hmade, hcase, hfinish⟩ :=
    finish_allocateFor f hs boundNetDevice ipv4 port
  · rw [hfinish, append_nil]
    refine ⟨fun x hx => ?_, hright.of_eq hpoints⟩
    rw [hmade]
    exact hs x (hpoints ▸ hx)
  · rw [hfinish]
    obtain ⟨hpointer, hport, hpeer⟩ := hf (s.newEndPoint ipv4 port')
    have hopen : ¬ HalfOpen (f (s.newEndPoint ipv4 port')) :=
      not_not.mpr ⟨fun _ => congrArg Prod.snd hpeer, fun _ => congrArg Prod.fst hpeer⟩
    refine ⟨hs.push hpoints hmade hpointer, hright.push hpoints ?_ ?_⟩
    · obtain ⟨-, hfree⟩ | ⟨hne, rfl, hfree⟩ := hcase
      · exact fun interface _ => not_clash_of_free (hport.symm ▸ hfree)
      · exact hfits hne hfree
    · exact served_concat (right_iff.mp hright.1).2 hopen

/-- Conversely, what a right bind made was fresh. -/
theorem fresh_of_bind {f : Ipv4EndPoint D → Ipv4EndPoint D} (hs : Numbered s)
    (hok : s.finish f (s.allocateFor boundNetDevice ipv4 port) = (s', allocations))
    (hright : Right interfaces s' (h ++ allocations)) (hport : port ≠ 0)
    (hfree : (s.LookupLocal boundNetDevice ipv4 port || s.LookupLocal none ipv4 port) = false) :
    Fresh interfaces s (f (s.newEndPoint ipv4 port)) := by
  obtain ⟨s', -, -, htaken, -⟩ | ⟨s', port', -, -, hcase, hfinish⟩ :=
    finish_allocateFor f hs boundNetDevice ipv4 port
  · exact absurd (hfree.symm.trans (htaken hport)) Bool.false_ne_true
  · obtain ⟨hzero, -⟩ | ⟨-, rfl, -⟩ := hcase
    · exact absurd hzero hport
    · cases hfinish.symm.trans hok
      exact fresh_of_right hright

omit [DecidableEq D] in
/-- What `UdpSocketImpl::Bind` does with the end point. -/
theorem leaves_bindToNetDevice (m_boundnetdevice : Option D) : Leaves fun e : Ipv4EndPoint D =>
    if m_boundnetdevice.isSome then e.BindToNetDevice m_boundnetdevice else e := by
  intro e
  dsimp only
  split
  · exact ⟨rfl, rfl, rfl⟩
  · exact ⟨rfl, rfl, rfl⟩

omit [DecidableEq D] in
theorem bindToNetDevice_newEndPoint (m_boundnetdevice : Option D) (ipv4 : Ipv4Address)
    (port : UInt16) : (if m_boundnetdevice.isSome then
      (s.newEndPoint ipv4 port).BindToNetDevice m_boundnetdevice else s.newEndPoint ipv4 port) =
    (s.newEndPoint ipv4 port).BindToNetDevice m_boundnetdevice := by
  cases m_boundnetdevice <;> rfl

/-- A step that allocates nothing needs only a sound table. -/
theorem Right.of_sound (hright : Right interfaces s h) (hsound : Sound interfaces s'.m_endPoints) :
    Right interfaces s' (h ++ []) := by
  rw [append_nil]
  exact ⟨right_iff.mpr hsound, hright.2⟩

/-- Every call within the condition succeeds and keeps the numbering and the invariant. -/
theorem keep_step (hs : Numbered s ∧ Right interfaces s h) (hfits : Fits interfaces s call) :
    ∃ s' allocations, step s call = .ok (s', allocations) ∧ Numbered s' ∧
      Right interfaces s' (h ++ allocations) := by
  obtain ⟨hnumbered, hright⟩ := hs
  cases call with
  | UdpBind m_boundnetdevice ipv4 port =>
    refine ⟨_, _, rfl, hright.bind (leaves_bindToNetDevice m_boundnetdevice) hnumbered
      fun hport hfree => ?_⟩
    rw [bindToNetDevice_newEndPoint]
    exact hfits hport hfree
  | TcpBind m_boundnetdevice ipv4 port =>
    exact ⟨_, _, rfl, hright.bind (fun e => ⟨rfl, rfl, rfl⟩) hnumbered hfits⟩
  | CompleteFork m_boundnetdevice localAddress localPort peerAddress peerPort =>
    rw [step, finish_allocatePeer id hnumbered]
    cases hlookup : s.LookupPeer m_boundnetdevice localAddress localPort peerAddress peerPort with
    | true =>
      rw [if_pos rfl]
      refine ⟨s, [], rfl, hnumbered, ?_⟩
      rw [append_nil]
      exact hright
    | false =>
      rw [if_neg Bool.false_ne_true]
      obtain ⟨hfresh, hserved⟩ := hfits hlookup
      exact ⟨_, _, rfl, hnumbered.push rfl rfl rfl, hright.push rfl hfresh hserved⟩
  | SetLocalAddress pointer address =>
    exact ⟨_, _, rfl, hnumbered.modify pointer fun _ => rfl, hright.of_sound hfits⟩
  | SetPeer pointer address port =>
    exact ⟨_, _, rfl, hnumbered.modify pointer fun _ => rfl, hright.of_sound hfits⟩
  | BindToNetDevice pointer netdevice =>
    exact ⟨_, _, rfl, hnumbered.modify pointer fun _ => rfl, hright.of_sound hfits⟩
  | SetRxEnabled pointer enabled =>
    exact ⟨_, _, rfl, hnumbered.modify pointer fun _ => rfl, hright.of_sound hfits⟩
  | DeAllocate pointer =>
    exact ⟨_, _, rfl, fun x hx => hnumbered x (mem_of_mem_eraseP hx), hright.of_sound hfits⟩

/-- The converse: a call after which the history is right was within the condition. -/
theorem fits_of_right (hnumbered : Numbered s) (hok : step s call = .ok (s', allocations))
    (hright : Right interfaces s' (h ++ allocations)) : Fits interfaces s call := by
  cases call with
  | UdpBind m_boundnetdevice ipv4 port =>
    intro hport hfree
    have hfresh := fresh_of_bind hnumbered (Except.ok.inj hok) hright hport hfree
    rw [bindToNetDevice_newEndPoint] at hfresh
    exact hfresh
  | TcpBind m_boundnetdevice ipv4 port =>
    exact fresh_of_bind hnumbered (Except.ok.inj hok) hright
  | CompleteFork m_boundnetdevice localAddress localPort peerAddress peerPort =>
    intro hlookup
    have hstep := Except.ok.inj hok
    rw [finish_allocatePeer id hnumbered, hlookup, if_neg Bool.false_ne_true] at hstep
    cases hstep
    exact ⟨fresh_of_right hright, (right_iff.mp hright.1).2⟩
  | SetLocalAddress pointer address =>
    cases hok
    exact right_iff.mp hright.1
  | SetPeer pointer address port =>
    cases hok
    exact right_iff.mp hright.1
  | BindToNetDevice pointer netdevice =>
    cases hok
    exact right_iff.mp hright.1
  | SetRxEnabled pointer enabled =>
    cases hok
    exact right_iff.mp hright.1
  | DeAllocate pointer =>
    cases hok
    exact right_iff.mp hright.1

/-- **The end points**, throughout a run of the sockets. -/
theorem throughout_right_iff (interfaces : List (Ipv4Interface D)) (calls : List (Call D)) :
    TracedRun.Throughout step (Right interfaces) {} [] calls ↔
      TracedRun.Meets step (fun s _ call => Fits interfaces s call) {} [] calls :=
  TracedRun.throughout_iff_meets (J := fun s h => Numbered s ∧ Right interfaces s h)
    (fun _ _ _ hs hfits => keep_step hs hfits)
    (fun _ _ _ _ _ hs hok hright => fits_of_right hs.1 hok hright) (fun _ _ hs => hs.2)
    ⟨fun _ hx => absurd hx not_mem_nil,
      right_iff.mpr ⟨fun _ _ => List.Pairwise.nil, fun _ _ _ hx => absurd hx not_mem_nil⟩,
      fun _ ha => absurd ha not_mem_nil⟩ calls

/-- A socket that is bound to a device, and then one that is not, with the same address and port. -/
theorem not_right_unbound : ¬ TracedRun.Throughout step
    (Right [⟨1, [⟨0x0a000001, 0xffffff00, .GLOBAL⟩]⟩]) ({} : Ipv4EndPointDemux ℕ) []
    [.UdpBind (some 1) 0x0a000001 9, .UdpBind none 0x0a000001 9] := by
  intro hthroughout
  obtain ⟨s, allocations, hrun, hright, -⟩ := hthroughout.exists_run (cons_ne_nil _ _)
  let p : Arrival ℕ :=
    ⟨0x0a000001, 9, 0x0a000002, 5000, ⟨1, [⟨0x0a000001, 0xffffff00, .GLOBAL⟩]⟩⟩
  have haborts : (TracedRun.run step ({} : Ipv4EndPointDemux ℕ) [.UdpBind (some 1) 0x0a000001 9,
      .UdpBind none 0x0a000001 9]).toOption.map (fun r => (r.1.lookup p).toOption) =
      some none := by decide +kernel
  obtain ⟨found, hok, -⟩ := hright p (mem_singleton_self _)
  rw [hrun] at haborts
  have hnone : (s.lookup p).toOption = none := Option.some.inj haborts
  rw [hok] at hnone
  cases hnone

end Ns3Joined.Internet.Ipv4EndPointDemux
