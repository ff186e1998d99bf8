import Ns3Joined.Internet.RipNetworkKeeps

/-!
# Quiet networks have shortest paths

When no update that a neighbor would send now changes a table, what `Keeps` says of all routes
makes the metrics a distance vector at rest (`DistanceVector.Rests`). Three things may keep an entry
from a neighbor, and none does harm in a network that is `Plain`:

* The entry's network is that of the interface. Then the neighbor is attached to it.
* Split horizon leaves it out, or poisons it. Then the route's gateway is on the same link, from
  where the neighbor has a shorter path.

So the metrics are those of the shortest paths (`metrics_least`). In a network that is not plain
they may not be (`masked_network_hidden`).
-/

namespace Ns3Joined.Internet.Network

open DistanceVector Rip List

variable {n : ℕ} {N : Network n} {linkDown : ℕ} {i j : Fin n} {network : Ipv4Address × Ipv4Mask}
  {s : Rip} {l : List Holding} {x y : Holding} {S : System n}

/-! ### Metrics -/

/-- Two routes of one network are the same, or the router is attached to the network. -/
theorem Router.eq_or_attached (h : N.Router linkDown i s l) (hx : x ∈ l) (hy : y ∈ l)
    (heq : x.route.network = y.route.network) : x = y ∨ N.Attached x.route.network i := by
  by_cases hsame : x = y
  · exact .inl hsame
  · have hnetworks := pairwise_map.mp h.networks
    have hsymm : Std.Symm fun x y : Holding =>
        x.route.network = y.route.network → N.Attached x.route.network i :=
      ⟨fun x y hxy heq => heq ▸ hxy heq.symm⟩
    exact .inr (hnetworks.forall hx hy hsame heq)

/-- An attached network has metric one. -/
theorem Accounted.metric_eq_one (h : N.Accounted linkDown i x)
    (hattached : N.Attached x.route.network i) : x.route.m_metric = 1 := by
  cases h with
  | attached _ _ hmetric => exact hmetric
  | learned hnot => exact absurd hattached hnot

/-- All routes of a network have one metric. -/
theorem Router.metric_unique (h : N.Router linkDown i s l) (hx : x ∈ l) (hy : y ∈ l)
    (heq : x.route.network = y.route.network) : x.route.m_metric = y.route.m_metric := by
  obtain rfl | hattached := h.eq_or_attached hx hy heq
  · rfl
  · rw [(h.accounted x hx).metric_eq_one hattached,
      (h.accounted y hy).metric_eq_one (heq ▸ hattached)]

/-- The metric the router answers for a network is that of its route. -/
theorem Router.metricOf_eq (h : N.Router linkDown i s l) (hx : x ∈ l)
    (hnetwork : x.route.network = network) : s.metricOf network = x.route.m_metric := by
  have hslot : x.slot ∈ s.m_routes := h.represents.routes ▸ mem_map_of_mem hx
  unfold Rip.metricOf
  cases hfind : s.m_routes.find? fun slot => slot.route.network == network with
  | none =>
    have hne := List.find?_eq_none.mp hfind _ hslot
    exact absurd (beq_iff_eq.mpr hnetwork) hne
  | some slot =>
    obtain ⟨y, hy, rfl⟩ := h.slot (mem_of_find?_eq_some hfind)
    have hfound := List.find?_some hfind
    have heq : y.route.network = network := beq_iff_eq.mp hfound
    exact h.metric_unique hy hx (heq.trans hnetwork.symm)

/-- The metric is that of a route, or there is none. -/
theorem Router.metricOf_cases (h : N.Router linkDown i s l) (hfixed : N.Fixed linkDown)
    (network : Ipv4Address × Ipv4Mask) : (∃ x ∈ l, x.route.network = network ∧
      s.metricOf network = x.route.m_metric) ∨ s.metricOf network = linkDown := by
  by_cases hheld : ∃ x ∈ l, x.route.network = network
  · obtain ⟨x, hx, hnetwork⟩ := hheld
    exact .inl ⟨x, hx, hnetwork, h.metricOf_eq hx hnetwork⟩
  · refine .inr ?_
    unfold Rip.metricOf
    rw [List.find?_eq_none.mpr, h.options]
    · exact hfixed.linkDown i
    · intro slot hslot heq
      obtain ⟨x, hx, rfl⟩ := h.slot hslot
      exact hheld ⟨x, hx, beq_iff_eq.mp heq⟩

/-- No metric exceeds that of an unreachable network. -/
theorem Router.metricOf_le (hplain : N.Plain linkDown) (hfixed : N.Fixed linkDown)
    (h : N.Router linkDown i s l) : s.metricOf network ≤ linkDown := by
  obtain ⟨x, hx, -, heq⟩ | heq := h.metricOf_cases hfixed network
  · exact heq ▸ (h.accounted x hx).metric_le hplain
  · exact Nat.le_of_eq heq

/-- A router answers metric one for the networks it is attached to. -/
theorem Router.metricOf_attached (h : N.Router linkDown i s l) (hattached : N.Attached network i) :
    s.metricOf network = 1 := by
  obtain ⟨x, hx, rfl⟩ := h.attached network hattached
  rw [h.metricOf_eq hx rfl]
  exact (h.accounted x hx).metric_eq_one hattached

variable {link bound interface : ℕ} {iface : Interface}

/-- Being below a bound can be read off the printed table. -/
theorem Router.below_iff (h : N.Router linkDown i s l) : Below bound network l ↔
    ∃ entry ∈ s.table, entry.1 = network ∧ entry.2.2.2.1 ≤ bound := by
  unfold Rip.table
  rw [h.represents.routes, map_map]
  constructor
  · rintro ⟨x, hx, hnetwork, hle⟩
    exact ⟨_, mem_map_of_mem hx, hnetwork, hle⟩
  · rintro ⟨entry, hentry, hnetwork, hle⟩
    obtain ⟨x, hx, rfl⟩ := mem_map.mp hentry
    exact ⟨x, hx, hnetwork, hle⟩

/-! ### Updates that are heard -/

/-- A path by a gateway on the link, when the metric is finite. -/
theorem Backed.gateway {gateway : Ipv4Address} {interface metric : ℕ}
    (h : N.Backed linkDown i network gateway interface metric) (hlt : metric < linkDown) :
    ∃ j link cost length, N.At i interface link ∧ N.Speaks j link gateway ∧
      N.Hears i j cost ∧ Path (N.Attached network) N.Hears 1 j length ∧
      length + cost ≤ metric := by
  obtain ⟨-, j, link, hne, hat, hspeaks, rfl | ⟨interface', length, hat', hpath, hle⟩⟩ := h
  · exact absurd hlt (Nat.lt_irrefl _)
  · exact ⟨j, link, _, length, hat, hspeaks, ⟨hne, interface', link, gateway, hat', hspeaks, rfl⟩,
      hpath, hle⟩

/-- What split horizon keeps from a neighbor is of no use there. -/
theorem Accounted.path_of_splitHorizon (hfixed : N.Fixed linkDown) (h : N.Accounted linkDown j y)
    (hnot : ¬ N.AttachedBy j y.route.m_interface y.route.network)
    (hlt : y.route.m_metric < linkDown) (hat : N.At j y.route.m_interface link)
    (hat' : N.At i interface link) :
    ∃ length, Path (N.Attached y.route.network) N.Hears 1 i length ∧
      length < y.route.m_metric + GetInterfaceMetric (N.options i) interface := by
  cases h with
  | attached hattached => exact absurd hattached hnot
  | learned _ _ hbacked =>
    obtain ⟨k, link', cost, length, hatk, hspeaks, hhears, hpath, hle⟩ := hbacked.gateway hlt
    obtain rfl := hat.unique hatk
    obtain ⟨-, interface', -, -, -, -, rfl⟩ := hhears
    have hcost := hfixed.metric j interface'
    by_cases heq : i = k
    · subst heq
      exact ⟨length, hpath, by omega⟩
    · exact ⟨_, .hop ⟨heq, interface, link, _, hat', hspeaks, rfl⟩ hpath, by omega⟩

/-- Messages from one address, one after the other. -/
theorem Router.receiveAll (hplain : N.Plain linkDown) (hfixed : N.Fixed linkDown)
    (network : Ipv4Address × Ipv4Mask) (hat : N.At i interface link) {senderAddress : Ipv4Address}
    (hspeaks : N.Speaks j link senderAddress) (hne : i ≠ j) {messages : List (List RipRte)}
    (hsound : ∀ rtes ∈ messages, ∀ rte ∈ rtes, N.SoundRte linkDown j rte)
    (hbound : bound < linkDown)
    (hle : ∀ rtes ∈ messages, ∀ rte ∈ rtes, (rte.m_prefix, rte.m_subnetMask) = network →
      rte.m_metric + GetInterfaceMetric (N.options i) interface ≤ bound)
    (h : N.Router linkDown i s l)
    (hheard : Below bound network l ∨
      ∃ rtes ∈ messages, ∃ rte ∈ rtes, (rte.m_prefix, rte.m_subnetMask) = network) :
    ∃ s' l', (messages.map fun rtes => (⟨link, senderAddress, rtes⟩ : Message)).foldlM
        (N.receive i interface) s = .ok s' ∧ N.Router linkDown i s' l' ∧
      Below bound network l' := by
  induction messages generalizing s l with
  | nil => exact ⟨s, l, rfl, h, hheard.resolve_right fun ⟨_, hmem, _⟩ => not_mem_nil hmem⟩
  | cons rtes messages ih =>
    obtain ⟨hhead, htail⟩ := forall_mem_cons.mp hsound
    obtain ⟨hlehead, hletail⟩ := forall_mem_cons.mp hle
    obtain ⟨s₁, l₁, hok₁, h₁, hbelow₁⟩ :=
      h.receive hplain hfixed ⟨link, senderAddress, rtes⟩ hat hspeaks hhead
    have hnext : Below bound network l₁ ∨
        ∃ rtes ∈ messages, ∃ rte ∈ rtes, (rte.m_prefix, rte.m_subnetMask) = network := by
      by_cases hlater : ∃ rtes ∈ messages, ∃ rte ∈ rtes,
          (rte.m_prefix, rte.m_subnetMask) = network
      · exact .inr hlater
      · refine .inl (hbelow₁ hne bound network hbound hlehead (hheard.imp_right ?_))
        rintro ⟨rtes', hrtes, hrte⟩
        obtain rfl | hrtes := mem_cons.mp hrtes
        · exact hrte
        · exact absurd ⟨rtes', hrtes, hrte⟩ hlater
    obtain ⟨s', l', hok, hrouter, hbelow⟩ := ih htail hletail h₁ hnext
    exact ⟨s', l', ExceptFold.foldlM_cons_eq_ok_iff.mpr ⟨s₁, hok₁, hok⟩, hrouter, hbelow⟩

/-! ### Updates that are sent -/

/-- A periodic update names exactly the routes that pass the split horizon. -/
theorem Router.mem_updateMessages (hfixed : N.Fixed linkDown) (h : N.Router linkDown j s l)
    {rte : RipRte} :
    (∃ rtes ∈ s.updateMessages interface iface true, rte ∈ rtes) ↔
      ∃ y ∈ l, s.updateRte interface iface.addresses true y.slot = some rte := by
  unfold Rip.updateMessages
  rw [h.options, hfixed.exclusions, contains_nil, if_neg Bool.false_ne_true, mem_fill_iff,
    h.represents.routes]
  constructor
  · rintro ⟨slot, hslot, heq⟩
    obtain ⟨y, hy, rfl⟩ := mem_map.mp hslot
    exact ⟨y, hy, heq⟩
  · rintro ⟨y, hy, heq⟩
    exact ⟨_, mem_map_of_mem hy, heq⟩

/-- An entry that nothing is held against. -/
theorem updateRte_eq {addresses : List Ipv4InterfaceAddress} {slot : Slot}
    (hsame : ¬ sameNetwork addresses slot.route = true)
    (hinterface : slot.route.m_interface ≠ interface) :
    s.updateRte interface addresses true slot = some ⟨slot.route.m_dest,
      slot.route.m_destNetworkMask, slot.route.m_tag, slot.route.m_metric⟩ := by
  have hadvertised : isAdvertised interface slot.route = true := rfl
  unfold Rip.updateRte
  rw [hadvertised, Bool.eq_false_iff.mpr hsame]
  show splitHorizon s.options interface slot.route = _
  unfold splitHorizon
  dsimp only
  rw [if_neg fun h => hinterface h.2, if_neg fun h => hinterface h.2]

/-- A network of an interface is held back there. -/
theorem sameNetwork_of_attachedBy (hiface : (N.interfaces j)[interface]? = some iface)
    (hattached : N.AttachedBy j interface y.route.network) :
    sameNetwork iface.addresses y.route = true := by
  obtain ⟨iface', hiface', address, haddress, -, heq⟩ := hattached
  obtain rfl := Option.some.inj (hiface.symm.trans hiface')
  exact any_eq_true.mpr ⟨address, haddress, beq_iff_eq.mpr (congrArg Prod.fst heq)⟩

/-- Whether the addresses lie in a route's network depends on the network only. -/
theorem sameNetwork_congr (addresses : List Ipv4InterfaceAddress)
    (heq : x.route.network = y.route.network) :
    sameNetwork addresses x.route = sameNetwork addresses y.route := by
  have hdest : x.route.m_dest = y.route.m_dest := congrArg Prod.fst heq
  unfold sameNetwork
  rw [hdest]

/-- **What a neighbor has is taken over**, or there is a better path. -/
theorem Keeps.taken (hplain : N.Plain linkDown) (hfixed : N.Fixed linkDown)
    (h : N.Keeps linkDown S) (hquiet : N.Quiet S) {cost : ℕ} (hhears : N.Hears i j cost)
    (hlt : (S.routers j).metricOf network + cost < linkDown) :
    (S.routers i).metricOf network ≤ (S.routers j).metricOf network + cost ∨
      ∃ length, Path (N.Attached network) N.Hears 1 i length ∧
        length < (S.routers j).metricOf network + cost := by
  obtain ⟨hne, interface, link, senderAddress, hat, hspeaks, rfl⟩ := hhears
  obtain ⟨iface, hiface, hlink⟩ := id hat
  obtain ⟨iface', hmem', hlink', address, haddress, rfl⟩ := id hspeaks
  obtain ⟨interface', hiface'⟩ := mem_iff_getElem?.mp hmem'
  obtain ⟨l, hi⟩ := h.routers i
  obtain ⟨l', hj⟩ := h.routers j
  obtain ⟨y, hy, hnetwork, hmetric⟩ | hdown := hj.metricOf_cases hfixed network
  swap
  · omega
  rw [hmetric] at hlt ⊢
  by_cases hsame : sameNetwork iface'.addresses y.route = true
  · -- the neighbor is attached to the network
    obtain ⟨address', haddress', heq⟩ := any_eq_true.mp hsame
    obtain ⟨k, hk⟩ := (hj.accounted y hy).known
    have hattached := hplain.sameNetwork _ k hk j iface' hmem' address' haddress'
      (beq_iff_eq.mp heq) i interface (hlink'.symm ▸ hat)
    rw [hi.metricOf_attached (hnetwork ▸ hattached)]
    exact .inl (Nat.le_trans (hfixed.metric i interface) (Nat.le_add_left _ _))
  by_cases hback : ∃ z ∈ l', z.route.network = network ∧ z.route.m_interface = interface'
  · -- the route is one by the neighbor's link
    obtain ⟨z, hz, hznetwork, hzinterface⟩ := hback
    have heq := hznetwork.trans hnetwork.symm
    have hzmetric := hj.metric_unique hz hy heq
    rw [← hzmetric] at hlt ⊢
    rw [← hznetwork]
    refine .inr ((hj.accounted z hz).path_of_splitHorizon hfixed (fun hattached => hsame ?_)
      (by omega) ⟨iface', hzinterface ▸ hiface', hlink'⟩ hat)
    rw [← sameNetwork_congr _ heq]
    exact sameNetwork_of_attachedBy (hzinterface ▸ hiface') hattached
  · -- the entry is sent as it is
    have hupdate : ∀ z ∈ l', z.route.network = network →
        (S.routers j).updateRte interface' iface'.addresses true z.slot =
          some ⟨z.route.m_dest, z.route.m_destNetworkMask, z.route.m_tag, z.route.m_metric⟩ := by
      intro z hz hznetwork
      refine updateRte_eq (fun hzsame => hsame ?_) fun hinterface =>
        hback ⟨z, hz, hznetwork, hinterface⟩
      rw [← sameNetwork_congr _ (hznetwork.trans hnetwork.symm)]
      exact hzsame
    have hsound : ∀ rtes ∈ (S.routers j).updateMessages interface' iface' true, ∀ rte ∈ rtes,
        N.SoundRte linkDown j rte := fun rtes hrtes rte hrte =>
      hj.updateMessages hplain hfixed hrtes hrte
    obtain ⟨s', l'', hok, hrouter, hbelow⟩ := hi.receiveAll hplain hfixed network hat
      hspeaks hne hsound hlt
      (fun rtes hrtes rte hrte hrtenetwork => by
        obtain ⟨z, hz, hrte⟩ := (hj.mem_updateMessages hfixed).mp ⟨rtes, hrtes, hrte⟩
        obtain ⟨hdest, hmask, -⟩ := splitHorizon_eq (updateRte_splitHorizon _ _ hrte)
        have hznetwork : z.route.network = network := by
          rw [← hrtenetwork, hdest, hmask]
          rfl
        obtain rfl := Option.some.inj ((hupdate z hz hznetwork).symm.trans hrte)
        exact Nat.le_of_eq (congrArg (· + _)
          (hj.metric_unique hz hy (hznetwork.trans hnetwork.symm))))
      (.inr (by
        obtain ⟨rtes, hrtes, hrte⟩ :=
          (hj.mem_updateMessages hfixed).mpr ⟨y, hy, hupdate y hy hnetwork⟩
        exact ⟨rtes, hrtes, _, hrte, hnetwork⟩))
    -- nothing has changed by it
    have hsilent := hquiet i j hne interface iface interface' iface' hiface hiface'
      (hlink.trans hlink'.symm) address haddress
    unfold afterUpdate at hsilent
    rw [hlink', hok] at hsilent
    have htable : s'.table = (S.routers i).table := Except.ok.inj hsilent
    obtain ⟨x, hx, hxnetwork, hle⟩ := hi.below_iff.mpr (htable ▸ hrouter.below_iff.mp hbelow)
    rw [hi.metricOf_eq hx hxnetwork]
    exact .inl hle

/-! ### At rest -/

/-- The next hop backs the metric. -/
theorem Keeps.backed (hfixed : N.Fixed linkDown) (h : N.Keeps linkDown S)
    (hlt : (S.routers i).metricOf network < linkDown) (hnot : ¬ N.Attached network i) :
    ∃ j, N.NextHop S network i j ∧ Backs (N.Attached network) N.Hears 1
      (fun i => (S.routers i).metricOf network) i j := by
  obtain ⟨l, hi⟩ := h.routers i
  obtain ⟨x, hx, rfl, hmetric⟩ | hdown := hi.metricOf_cases hfixed network
  swap
  · omega
  rw [hmetric] at hlt
  cases hi.accounted x hx with
  | attached hattached => exact absurd ⟨_, hattached⟩ hnot
  | learned _ _ hbacked hstatus =>
    obtain ⟨j, link, cost, length, hat, hspeaks, hhears, hpath, hle⟩ := hbacked.gateway hlt
    have hslot : x.slot ∈ (S.routers i).m_routes :=
      hi.represents.routes ▸ mem_map_of_mem hx
    exact ⟨j, ⟨x.slot, hslot, rfl, hstatus.resolve_right (Nat.ne_of_lt hlt), link, hat, hspeaks⟩,
      cost, length, hhears, hpath, Nat.le_trans hle (Nat.le_of_eq hmetric.symm)⟩

/-- **The metrics for a network are at rest** in a quiet state. -/
theorem Keeps.rests (hplain : N.Plain linkDown) (hfixed : N.Fixed linkDown)
    (h : N.Keeps linkDown S) (hquiet : N.Quiet S) (network : Ipv4Address × Ipv4Mask) :
    Rests (N.Attached network) N.Hears 1 linkDown fun i => (S.routers i).metricOf network where
  pos := fun i j cost hhears => by
    obtain ⟨-, interface, -, -, -, -, rfl⟩ := hhears
    exact hfixed.metric i interface
  le_cap := fun i => by
    obtain ⟨l, hi⟩ := h.routers i
    exact hi.metricOf_le hplain hfixed
  label_target := fun i hattached => by
    obtain ⟨l, hi⟩ := h.routers i
    exact hi.metricOf_attached hattached
  backed := fun i hlt => by
    by_cases hattached : N.Attached network i
    · exact .inl hattached
    · obtain ⟨j, -, hbacks⟩ := h.backed hfixed hlt hattached
      exact .inr ⟨j, hbacks⟩
  taken := fun _ _ _ hhears hlt => h.taken hplain hfixed hquiet hhears hlt

/-- A router has one next hop towards a network. -/
theorem Keeps.nextHop_unique (hplain : N.Plain linkDown) (h : N.Keeps linkDown S)
    {j' : Fin n} (hj : N.NextHop S network i j) (hj' : N.NextHop S network i j') : j = j' := by
  obtain ⟨l, hi⟩ := h.routers i
  obtain ⟨slot, hslot, hnetwork, -, link, -, hspeaks⟩ := hj
  obtain ⟨slot', hslot', hnetwork', -, link', -, hspeaks'⟩ := hj'
  obtain ⟨x, hx, rfl⟩ := hi.slot hslot
  obtain ⟨x', hx', rfl⟩ := hi.slot hslot'
  have heq : x.route.network = x'.route.network := hnetwork.trans hnetwork'.symm
  obtain rfl | hattached := hi.eq_or_attached hx hx' heq
  · exact (hspeaks.unique hplain hspeaks').1
  · -- the route of an attached network has no gateway
    cases hi.accounted x hx with
    | attached _ hgateway => exact absurd hgateway (hspeaks.ne_zero hplain)
    | learned hnot => exact absurd hattached hnot

/-- A quiet network of kept routers has converged to least metrics. -/
theorem Keeps.converged (hplain : N.Plain linkDown) (hfixed : N.Fixed linkDown)
    (h : N.Keeps linkDown S) (hquiet : N.Quiet S) : N.Converged linkDown S where
  least := fun network i => (h.rests hplain hfixed hquiet network).isLeast i
  nextHop_unique := fun _ _ _ _ hj hj' => h.nextHop_unique hplain hj hj'
  arrives := fun network _ hlt => (h.rests hplain hfixed hquiet network).exists_route
    (fun _ hlt hnot => h.backed hfixed hlt hnot) hlt

/-! ### Deciding -/

/-- The networks of a router's global addresses. -/
def networks (N : Network n) (i : Fin n) : List (Ipv4Address × Ipv4Mask) :=
  (N.interfaces i).flatMap fun iface =>
    (iface.addresses.filter fun address => address.m_scope == .GLOBAL).map fun address =>
      (address.network, address.m_mask)

/-- Being attached, as membership in a computed list. -/
theorem attached_iff : N.Attached network i ↔ network ∈ N.networks i := by
  constructor
  · rintro ⟨interface, iface, hiface, address, haddress, hscope, rfl⟩
    exact mem_flatMap.mpr ⟨iface, mem_of_getElem? hiface, mem_map_of_mem
      (mem_filter.mpr ⟨haddress, beq_iff_eq.mpr hscope⟩)⟩
  · intro hmem
    obtain ⟨iface, hiface, hmem⟩ := mem_flatMap.mp hmem
    obtain ⟨address, haddress, rfl⟩ := mem_map.mp hmem
    obtain ⟨haddress, hscope⟩ := mem_filter.mp haddress
    obtain ⟨interface, hinterface⟩ := mem_iff_getElem?.mp hiface
    exact ⟨interface, iface, hinterface, address, haddress, beq_iff_eq.mp hscope, rfl⟩

/-- The interfaces of a router on a link, as membership in a computed list. -/
theorem exists_at_iff : (∃ interface, N.At i interface link) ↔
    link ∈ (N.interfaces i).map Interface.link := by
  constructor
  · rintro ⟨interface, iface, hiface, rfl⟩
    exact mem_map_of_mem (mem_of_getElem? hiface)
  · intro hmem
    obtain ⟨iface, hiface, rfl⟩ := mem_map.mp hmem
    obtain ⟨interface, hinterface⟩ := mem_iff_getElem?.mp hiface
    exact ⟨interface, iface, hinterface, rfl⟩

/-- The addresses of two routers are different. -/
def isUnique (N : Network n) (i j : Fin n) : Bool :=
  (N.interfaces i).all fun iface => iface.addresses.all fun address =>
    (N.interfaces j).all fun iface' => iface'.addresses.all fun address' =>
      address.m_local != address'.m_local || (i == j && iface.link == iface'.link)

/-- A network that has the same network address as the interface is one of all routers there. -/
def isShared (N : Network n) (network : Ipv4Address × Ipv4Mask) (iface : Interface) : Bool :=
  iface.addresses.all fun address => address.network != network.1 ||
    (List.finRange n).all fun k =>
      !((N.interfaces k).map Interface.link).contains iface.link || (N.networks k).contains network

def isPlain (N : Network n) (linkDown : ℕ) : Bool :=
  decide (1 < linkDown ∧ linkDown < 256) && (List.finRange n).all fun i =>
    ((N.interfaces i).all fun iface => iface.addresses.all fun address => address.m_local != 0) &&
    ((N.networks i).all fun network =>
      !(network.1.IsLocalhost || network.1.IsBroadcast || network.1.IsMulticast)) &&
    (List.finRange n).all fun j => N.isUnique i j &&
      (N.networks i).all fun network => (N.interfaces j).all (N.isShared network)

/-- The computed check that no address is used twice. -/
theorem isUnique_iff : N.isUnique i j = true ↔ ∀ iface ∈ N.interfaces i,
    ∀ address ∈ iface.addresses, ∀ iface' ∈ N.interfaces j, ∀ address' ∈ iface'.addresses,
    address.m_local = address'.m_local → i = j ∧ iface.link = iface'.link := by
  simp only [isUnique, all_eq_true, Bool.or_eq_true, bne_iff_ne, Bool.and_eq_true, beq_iff_eq,
    Classical.or_iff_not_imp_left, not_not]

/-- The computed check that a network is not split over several links. -/
theorem isShared_iff : N.isShared network iface = true ↔
    ∀ address ∈ iface.addresses, address.network = network.1 →
    ∀ k interface, N.At k interface iface.link → N.Attached network k := by
  simp only [isShared, all_eq_true, Bool.or_eq_true, bne_iff_ne, Bool.not_eq_true',
    Classical.or_iff_not_imp_left, not_not, mem_finRange, true_imp_iff, Bool.not_eq_false,
    contains_iff_mem, ← exists_at_iff, ← attached_iff, forall_exists_index]

/-- The computed check of a plain network. -/
theorem isPlain_iff : N.isPlain linkDown = true ↔ N.Plain linkDown := by
  simp only [isPlain, Bool.and_eq_true, decide_eq_true_eq, all_eq_true, mem_finRange,
    true_imp_iff, bne_iff_ne, Bool.not_eq_true', isUnique_iff, isShared_iff, ← attached_iff]
  constructor
  · rintro ⟨hlinkDown, hrouters⟩
    exact ⟨hlinkDown, fun i => (hrouters i).1.1,
      fun i iface hiface address haddress j => ((hrouters i).2 j).1 iface hiface address haddress,
      fun network i => (hrouters i).1.2 network,
      fun network i hattached j => ((hrouters i).2 j).2 network hattached⟩
  · rintro ⟨hlinkDown, hnonzero, hunique, hunicast, hsame⟩
    exact ⟨hlinkDown, fun i => ⟨⟨hnonzero i, fun network => hunicast network i⟩, fun j =>
      ⟨fun iface hiface address haddress => hunique i iface hiface address haddress j,
        fun network hattached => hsame network i hattached j⟩⟩⟩

instance : Decidable (N.Plain linkDown) := decidable_of_iff _ isPlain_iff

def isQuiet (N : Network n) (S : System n) : Bool :=
  (List.finRange n).all fun i => (List.finRange n).all fun j => i == j ||
    (N.interfaces i).zipIdx.all fun p => (N.interfaces j).zipIdx.all fun p' =>
      p.1.link != p'.1.link || p'.1.speakers.all fun address =>
        decide (N.afterUpdate S i p.2 j p'.2 p'.1 address = .ok (S.routers i).table)

/-- The computed check that nothing is left to send. -/
theorem isQuiet_iff : N.isQuiet S = true ↔ N.Quiet S := by
  simp only [isQuiet, all_eq_true, mem_finRange, true_imp_iff, Bool.or_eq_true,
    beq_iff_eq, bne_iff_ne, Classical.or_iff_not_imp_left, not_not, decide_eq_true_eq]
  constructor
  · intro hquiet i j hne interface iface interface' iface' hiface hiface'
    exact hquiet i j hne (iface, interface) (mem_zipIdx_iff_getElem?.mpr hiface)
      (iface', interface') (mem_zipIdx_iff_getElem?.mpr hiface')
  · intro hquiet i j hne p hp p' hp'
    exact hquiet i j hne p.2 p.1 p'.2 p'.1 (mem_zipIdx_iff_getElem?.mp hp)
      (mem_zipIdx_iff_getElem?.mp hp')

instance : Decidable (N.Quiet S) := decidable_of_iff _ isQuiet_iff

/-- **In a quiet state the metrics are those of the shortest paths**, whatever the routers have
sent and received, and the gateways lead there. -/
theorem metrics_least (N : Network n) (linkDown : ℕ) (hfixed : N.Fixed linkDown)
    (hplain : N.Plain linkDown) (events : List (Event n)) :
    ∃ S, N.run events = .ok S ∧ (N.Quiet S → N.Converged linkDown S) := by
  obtain ⟨S, hrun, hkeeps⟩ := run_keeps hplain hfixed events
  exact ⟨S, hrun, hkeeps.converged hplain hfixed⟩

/-- Three routers, one after the other, with a network at the end. -/
def chain : Network 3 where
  options := fun _ => .default
  interfaces := fun i => [[⟨0, [⟨0x0a000001, 0xffffff00, .GLOBAL⟩], 1500⟩],
    [⟨0, [⟨0x0a000002, 0xffffff00, .GLOBAL⟩], 1500⟩,
      ⟨1, [⟨0x0a000101, 0xffffff00, .GLOBAL⟩], 1500⟩],
    [⟨1, [⟨0x0a000102, 0xffffff00, .GLOBAL⟩], 1500⟩,
      ⟨2, [⟨0x0a010001, 0xffff0000, .GLOBAL⟩], 1500⟩]].getD i []

/-- All routers send updates, and each is received. -/
def chainEvents : List (Event 3) :=
  [.sendUpdate 2 true, .receive 1 1 0, .sendUpdate 1 true, .receive 0 0 2, .receive 2 0 3,
    .sendUpdate 0 true, .receive 1 0 4]

/-- The chain comes to rest, at the shortest paths. -/
theorem metrics_least_chain : ∃ S, chain.run chainEvents = .ok S ∧ chain.Converged 16 S := by
  obtain ⟨S, hrun, hconverged⟩ := metrics_least chain 16 ⟨fun _ => rfl, fun _ => rfl,
    fun _ _ => Nat.one_pos⟩ (by decide +kernel) chainEvents
  have hquiet : (chain.run chainEvents).map (fun S => decide (chain.Quiet S)) = .ok true := by
    decide +kernel
  rw [hrun] at hquiet
  exact ⟨S, hrun, hconverged (of_decide_eq_true (Except.ok.inj hquiet))⟩

/-- A link with a small network, whose address is also that of a larger one. -/
def masked : Network 2 where
  options := fun _ => .default
  interfaces := fun i => [[⟨0, [⟨0x0a010001, 0xffffff00, .GLOBAL⟩], 1500⟩,
      ⟨1, [⟨0x0a018001, 0xffff0000, .GLOBAL⟩], 1500⟩],
    [⟨0, [⟨0x0a010002, 0xffffff00, .GLOBAL⟩], 1500⟩]].getD i []

/-- The larger network is never in an update on the link, so it is not known there. -/
theorem masked_network_hidden :
    ¬ ∀ (n : ℕ) (N : Network n) (linkDown : ℕ), N.Fixed linkDown → ∀ events S,
      N.run events = .ok S → N.Quiet S → N.Converged linkDown S := by
  intro hall
  have hquiet : masked.Quiet masked.start := by decide +kernel
  have hconverged := hall 2 masked 16 ⟨fun _ => rfl, fun _ => rfl, fun _ _ => Nat.one_pos⟩ []
    masked.start rfl hquiet
  -- router 0 is attached, and router 1 hears it
  have hattached : masked.Attached (0x0a010000, 0xffff0000) 0 :=
    attached_iff.mpr (by decide +kernel)
  have hhears : masked.Hears 1 0 1 := ⟨by decide, 0, 0, 0x0a010001, ⟨_, rfl, rfl⟩,
    ⟨_, mem_cons_self, rfl, _, mem_cons_self, rfl⟩, rfl⟩
  have hle := (hconverged.least (0x0a010000, 0xffff0000) 1).2
    (.inr (.hop hhears (.target hattached)))
  have hmetric : (masked.start.routers 1).metricOf (0x0a010000, 0xffff0000) = 16 := by
    decide +kernel
  rw [hmetric] at hle
  exact absurd hle (by decide)

end Ns3Joined.Internet.Network
