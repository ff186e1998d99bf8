import Ns3Joined.Internet.RipNetwork
import Ns3Joined.Internet.RipTimers

/-!
# What holds in a network of RIP routers

Whatever the routers send and receive, and whenever their timers run: a route is either that of a
network which the router is attached to, and stays as it is, or it is learned, and its metric is not
below what a path by its gateway allows (`Accounted`). The same is true of all entries that were
ever sent (`SoundRte`).

* `Keeps.step`: one step keeps it.
* `start_keeps`: it holds at the beginning.
-/

namespace Ns3Joined.Internet.Network

open DistanceVector Rip List Function

variable {n : ℕ} {N : Network n} {linkDown : ℕ} {i j : Fin n} {network : Ipv4Address × Ipv4Mask}

/-- The addresses are unique, the prefixes are those of unicast networks, the value for link-down
fits a metric, and a network that has the same network address as an interface is one that all
routers on its link are attached to. -/
structure Plain (N : Network n) (linkDown : ℕ) : Prop where
  linkDown : 1 < linkDown ∧ linkDown < 256
  nonzero : ∀ i, ∀ iface ∈ N.interfaces i, ∀ address ∈ iface.addresses, address.m_local ≠ 0
  unique : ∀ i, ∀ iface ∈ N.interfaces i, ∀ address ∈ iface.addresses,
    ∀ j, ∀ iface' ∈ N.interfaces j, ∀ address' ∈ iface'.addresses,
    address.m_local = address'.m_local → i = j ∧ iface.link = iface'.link
  unicast : ∀ network i, N.Attached network i →
    (network.1.IsLocalhost || network.1.IsBroadcast || network.1.IsMulticast) = false
  sameNetwork : ∀ network i, N.Attached network i →
    ∀ j, ∀ iface ∈ N.interfaces j, ∀ address ∈ iface.addresses, address.network = network.1 →
    ∀ k interface, N.At k interface iface.link → N.Attached network k

/-! ### What is accounted for -/

/-- A metric for a network, given by a router on the link of the interface, is not below what a
path from there allows. -/
def Backed (N : Network n) (linkDown : ℕ) (i : Fin n) (network : Ipv4Address × Ipv4Mask)
    (gateway : Ipv4Address) (interface metric : ℕ) : Prop :=
  metric ≤ linkDown ∧ ∃ j link, i ≠ j ∧ N.At i interface link ∧ N.Speaks j link gateway ∧
    (metric = linkDown ∨ ∃ interface' length, N.At i interface' link ∧
      Path (N.Attached network) N.Hears 1 j length ∧
      length + GetInterfaceMetric (N.options i) interface' ≤ metric)

/-- A route of a router. -/
inductive Accounted (N : Network n) (linkDown : ℕ) (i : Fin n) (x : Holding) : Prop
  | attached (hattached : N.AttachedBy i x.route.m_interface x.route.network)
      (hgateway : x.route.m_gateway = 0) (hmetric : x.route.m_metric = 1)
      (hstatus : x.route.m_status = .RIP_VALID) (htimer : x.timer = none)
  | learned (hnot : ¬ N.Attached x.route.network i) (hknown : ∃ k, N.Attached x.route.network k)
      (hbacked : N.Backed linkDown i x.route.network x.route.m_gateway x.route.m_interface
        x.route.m_metric)
      (hstatus : x.route.m_status = .RIP_VALID ∨ x.route.m_metric = linkDown)

/-- An entry that a router sends. -/
structure SoundRte (N : Network n) (linkDown : ℕ) (j : Fin n) (rte : RipRte) : Prop where
  masked : rte.m_prefix.CombineMask rte.m_subnetMask = rte.m_prefix
  known : ∃ k, N.Attached (rte.m_prefix, rte.m_subnetMask) k
  pos : 1 ≤ rte.m_metric
  le_linkDown : rte.m_metric ≤ linkDown
  path : rte.m_metric = linkDown ∨ ∃ length ≤ rte.m_metric,
    Path (N.Attached (rte.m_prefix, rte.m_subnetMask)) N.Hears 1 j length

def SoundMessage (N : Network n) (linkDown : ℕ) (message : Message) : Prop :=
  ∃ j, N.Speaks j message.link message.senderAddress ∧
    ∀ rte ∈ message.rtes, N.SoundRte linkDown j rte

/-- A router and its routes. -/
structure Router (N : Network n) (linkDown : ℕ) (i : Fin n) (s : Rip) (l : List Holding) :
    Prop where
  represents : Represents s l
  options : s.options = N.options i
  accounted : ∀ x ∈ l, N.Accounted linkDown i x
  /-- Only of a network that the router is attached to more than one route is held. -/
  networks : (l.map fun x => x.route.network).Pairwise fun network network' =>
    network = network' → N.Attached network i
  attached : ∀ network, N.Attached network i → ∃ x ∈ l, x.route.network = network

/-- The invariant. -/
structure Keeps (N : Network n) (linkDown : ℕ) (S : System n) : Prop where
  routers : ∀ i, ∃ l, N.Router linkDown i (S.routers i) l
  sent : ∀ message ∈ S.sent, N.SoundMessage linkDown message

/-! ### Addresses -/

variable {iface : Interface} {link bound link' metric interface : ℕ}
  {address gateway senderAddress : Ipv4Address} {options : RipOptions} {rte : RipRte}
  {f : Slot → Option RipRte} {rtes : List RipRte} {periodic : Bool}
  {addresses : List Ipv4InterfaceAddress} {S : System n}

theorem mem_speakers {address : Ipv4InterfaceAddress} (h : address ∈ iface.speakers) :
    address ∈ iface.addresses := mem_of_mem_filter h

/-- An address speaks for one router on one link. -/
theorem Speaks.unique (hplain : N.Plain linkDown) (h : N.Speaks i link address)
    (h' : N.Speaks j link' address) : i = j ∧ link = link' := by
  obtain ⟨iface, hiface, rfl, a, ha, rfl⟩ := h
  obtain ⟨iface', hiface', rfl, a', ha', heq⟩ := h'
  exact hplain.unique i iface hiface a (mem_speakers ha) j iface' hiface' a' (mem_speakers ha')
    heq.symm

/-- No router speaks from the zero address. -/
theorem Speaks.ne_zero (hplain : N.Plain linkDown) (h : N.Speaks i link address) : address ≠ 0 := by
  obtain ⟨iface, hiface, -, a, ha, rfl⟩ := h
  exact hplain.nonzero i iface hiface a (mem_speakers ha)

/-- An interface is at one link. -/
theorem At.unique (h : N.At i interface link) (h' : N.At i interface link') : link = link' := by
  obtain ⟨iface, hiface, rfl⟩ := h
  obtain ⟨iface', hiface', rfl⟩ := h'
  rw [Option.some.inj (hiface.symm.trans hiface')]

/-- The networks attached are given with their mask applied. -/
theorem Attached.masked (h : N.Attached network i) :
    network.1.CombineMask network.2 = network.1 := by
  obtain ⟨-, -, -, address, -, -, rfl⟩ := h
  show address.m_local &&& address.m_mask &&& address.m_mask = address.m_local &&& address.m_mask
  rw [UInt32.and_assoc, UInt32.and_self]

/-- A metric that is backed is positive. -/
theorem Backed.pos (hplain : N.Plain linkDown)
    (h : N.Backed linkDown i network gateway interface metric) : 1 ≤ metric := by
  obtain ⟨-, j, link, -, -, -, rfl | ⟨interface', length, -, hpath, hle⟩⟩ := h
  · exact Nat.le_of_lt hplain.linkDown.1
  · exact Nat.le_trans hpath.start_le (Nat.le_trans (Nat.le_add_right _ _) hle)

/-- A metric that is backed is infinite or the length of a path. -/
theorem Backed.path (h : N.Backed linkDown i network gateway interface metric) :
    metric = linkDown ∨
      ∃ length ≤ metric, Path (N.Attached network) N.Hears 1 i length := by
  obtain ⟨-, j, link, hne, -, hspeaks, rfl | ⟨interface', length, hat, hpath, hle⟩⟩ := h
  · exact .inl rfl
  · exact .inr ⟨_, hle, .hop ⟨hne, interface', link, gateway, hat, hspeaks, rfl⟩ hpath⟩

/-! ### Sending -/

variable {x x' : Holding} {l l' : List Holding} {s : Rip}

/-- An accounted route is at most as far as unreachable. -/
theorem Accounted.metric_le (hplain : N.Plain linkDown) (h : N.Accounted linkDown i x) :
    x.route.m_metric ≤ linkDown := by
  cases h with
  | attached _ _ hmetric => exact hmetric ▸ Nat.le_of_lt hplain.linkDown.1
  | learned _ _ hbacked => exact hbacked.1

/-- A network that a route is for is attached somewhere. -/
theorem Accounted.known (h : N.Accounted linkDown i x) : ∃ k, N.Attached x.route.network k := by
  cases h with
  | attached hattached => exact ⟨i, _, hattached⟩
  | learned _ hknown => exact hknown

/-- What split horizon leaves of a route. -/
theorem splitHorizon_eq {route : RipRoutingTableEntry}
    (h : splitHorizon options interface route = some rte) :
    rte.m_prefix = route.m_dest ∧ rte.m_subnetMask = route.m_destNetworkMask ∧
      (rte.m_metric = options.m_linkDown ∨ rte.m_metric = route.m_metric) := by
  unfold splitHorizon at h
  dsimp only at h
  split_ifs at h
  all_goals
    obtain rfl := Option.some.inj h
    first | exact ⟨rfl, rfl, .inl rfl⟩ | exact ⟨rfl, rfl, .inr rfl⟩

/-- What the split horizon lets out of an accounted route is sound. -/
theorem Accounted.soundRte (hplain : N.Plain linkDown) (hfixed : N.Fixed linkDown)
    (h : N.Accounted linkDown i x)
    (hrte : splitHorizon (N.options i) interface x.route = some rte) :
    N.SoundRte linkDown i rte := by
  obtain ⟨hdest, hmask, hmetric⟩ := splitHorizon_eq hrte
  have hnetwork : (rte.m_prefix, rte.m_subnetMask) = x.route.network := by
    rw [hdest, hmask]
    rfl
  obtain ⟨k, hknown⟩ := h.known
  rw [hfixed.linkDown] at hmetric
  have hbounds : 1 ≤ x.route.m_metric ∧ (x.route.m_metric = linkDown ∨
      ∃ length ≤ x.route.m_metric, Path (N.Attached x.route.network) N.Hears 1 i length) := by
    cases h with
    | attached hattached _ hone =>
      rw [hone]
      exact ⟨Nat.le_refl 1, .inr ⟨1, Nat.le_refl 1, .target ⟨_, hattached⟩⟩⟩
    | learned _ _ hbacked => exact ⟨hbacked.pos hplain, hbacked.path⟩
  refine ⟨?_, ⟨k, hnetwork ▸ hknown⟩, ?_, ?_, ?_⟩
  · rw [hdest, hmask]
    exact hknown.masked
  · obtain heq | heq := hmetric
    · exact heq ▸ Nat.le_of_lt hplain.linkDown.1
    · exact heq ▸ hbounds.1
  · obtain heq | heq := hmetric
    · exact Nat.le_of_eq heq
    · exact heq ▸ h.metric_le hplain
  · rw [hnetwork]
    obtain heq | heq := hmetric
    · exact .inl heq
    · rw [heq]
      exact hbounds.2

/-- All entries are in the messages, in their order. -/
theorem fill_flatten {maxRte : ℕ} (hmax : maxRte < 2 ^ 16) (rtes : List (Option RipRte)) :
    ∀ hdr : List RipRte, hdr.length < 2 ^ 16 → (maxRte ≠ 0 → hdr.length < maxRte) →
    (fill maxRte rtes hdr).flatten = hdr ++ rtes.flatMap Option.toList := by
  induction rtes with
  | nil =>
    intro hdr hlt _
    unfold fill
    rw [Nat.mod_eq_of_lt hlt, flatMap_nil, append_nil]
    split_ifs with hpos
    · exact append_nil hdr
    · exact (eq_nil_of_length_eq_zero (Nat.eq_zero_of_not_pos hpos)).symm
  | cons rte rtes ih =>
    intro hdr hlt hbelow
    have hlength : (hdr ++ rte.toList).length ≤ hdr.length + 1 := by
      rw [length_append]
      refine Nat.add_le_add_left ?_ _
      cases rte with
      | none => exact Nat.zero_le 1
      | some rte => exact Nat.le_refl 1
    unfold fill
    rw [flatMap_cons, ← append_assoc]
    split_ifs with hfull
    · -- the message is sent, and the next one is empty
      rw [flatten_cons, ih [] (Nat.two_pow_pos 16) Nat.pos_of_ne_zero, nil_append]
    · refine ih _ ?_ fun hne => ?_
      · by_contra hge
        have heq : (hdr ++ rte.toList).length = 2 ^ 16 := by omega
        have hzero : maxRte ≠ 0 := fun hzero => hfull (by rw [heq, hzero, Nat.mod_self])
        have := hbelow hzero
        omega
      · have := hbelow hne
        have hlt' : (hdr ++ rte.toList).length < 2 ^ 16 := by omega
        rw [Nat.mod_eq_of_lt hlt'] at hfull
        omega

/-- The number of entries of a message fits its 16 bits. -/
theorem maxRte_lt (mtu : ℕ) : maxRte mtu < 2 ^ 16 := Nat.mod_lt _ (Nat.two_pow_pos 16)

/-- Filling messages loses no entry and adds none. -/
theorem mem_fill_iff {mtu : ℕ} {slots : List Slot} :
    (∃ rtes ∈ fill (maxRte mtu) (slots.map f) [], rte ∈ rtes) ↔
      ∃ slot ∈ slots, f slot = some rte := by
  rw [← mem_flatten, fill_flatten (maxRte_lt mtu) _ [] (Nat.two_pow_pos 16) Nat.pos_of_ne_zero,
    nil_append, flatMap_map, mem_flatMap]
  exact exists_congr fun slot => and_congr_right fun _ => Option.mem_toList

/-- Every slot of the table is that of a represented route. -/
theorem Router.slot (h : N.Router linkDown i s l) {slot : Slot} (hslot : slot ∈ s.m_routes) :
    ∃ x ∈ l, x.slot = slot := by
  rw [h.represents.routes] at hslot
  exact mem_map.mp hslot

/-- All that a router sends is sound, whatever it leaves out. -/
theorem Router.soundRte (hplain : N.Plain linkDown) (hfixed : N.Fixed linkDown)
    (h : N.Router linkDown i s l) {mtu : ℕ}
    (hf : ∀ slot rte, f slot = some rte → splitHorizon s.options interface slot.route = some rte)
    (hrtes : rtes ∈ fill (maxRte mtu) (s.m_routes.map f) []) (hrte : rte ∈ rtes) :
    N.SoundRte linkDown i rte := by
  obtain ⟨slot, hslot, heq⟩ := mem_fill_iff.mp ⟨rtes, hrtes, hrte⟩
  obtain ⟨x, hx, rfl⟩ := h.slot hslot
  have hsplit := hf _ _ heq
  rw [h.options] at hsplit
  exact (h.accounted x hx).soundRte hplain hfixed hsplit

/-- An entry of an update has passed the split horizon. -/
theorem updateRte_splitHorizon (slot : Slot) (rte : RipRte)
    (h : s.updateRte interface addresses periodic slot = some rte) :
    splitHorizon s.options interface slot.route = some rte := by
  unfold updateRte at h
  split_ifs at h
  exact h

/-- An entry of a whole table has passed the split horizon. -/
theorem tableRte_splitHorizon (slot : Slot) (rte : RipRte)
    (h : s.tableRte interface slot = some rte) :
    splitHorizon s.options interface slot.route = some rte := by
  unfold tableRte at h
  split_ifs at h
  exact h

/-- The updates of a router are sound. -/
theorem Router.updateMessages (hplain : N.Plain linkDown) (hfixed : N.Fixed linkDown)
    (h : N.Router linkDown i s l) (hrtes : rtes ∈ s.updateMessages interface iface periodic)
    (hrte : rte ∈ rtes) : N.SoundRte linkDown i rte := by
  unfold Rip.updateMessages at hrtes
  split_ifs at hrtes
  · cases hrtes
  · exact h.soundRte hplain hfixed updateRte_splitHorizon hrtes hrte

/-- The whole tables of a router are sound. -/
theorem Router.tableMessages (hplain : N.Plain linkDown) (hfixed : N.Fixed linkDown)
    (h : N.Router linkDown i s l) (hrtes : rtes ∈ s.tableMessages interface iface)
    (hrte : rte ∈ rtes) : N.SoundRte linkDown i rte := by
  unfold Rip.tableMessages at hrtes
  split_ifs at hrtes
  · cases hrtes
  · exact h.soundRte hplain hfixed tableRte_splitHorizon hrtes hrte

/-- Sound entries make sound messages on the link. -/
theorem soundMessage_of_mem_onLink (hiface : iface ∈ N.interfaces i) {messages : List (List RipRte)}
    (hsound : ∀ rtes ∈ messages, ∀ rte ∈ rtes, N.SoundRte linkDown i rte) {message : Message}
    (hmessage : message ∈ onLink iface messages) : N.SoundMessage linkDown message := by
  obtain ⟨address, haddress, hmem⟩ := mem_flatMap.mp hmessage
  obtain ⟨rtes, hrtes, rfl⟩ := mem_map.mp hmem
  exact ⟨i, ⟨iface, hiface, rfl, address, haddress, rfl⟩, hsound rtes hrtes⟩

/-- Clearing the marks of changed routes keeps the router. -/
theorem Router.clearChanged (h : N.Router linkDown i s l) :
    N.Router linkDown i s.clearChanged
      (l.map fun x => { x with route := x.route.SetRouteChanged false }) := by
  have htimers : (l.map fun x => ({ x with route := x.route.SetRouteChanged false } : Holding)
      ).filterMap Holding.timer = l.filterMap Holding.timer := filterMap_map
  have hpointers : (l.map fun x => ({ x with route := x.route.SetRouteChanged false } : Holding)
      ).map Holding.pointer = l.map Holding.pointer := map_map
  have hnetworks : (l.map fun x => ({ x with route := x.route.SetRouteChanged false } : Holding)
      ).map (fun x => x.route.network) = l.map fun x => x.route.network := map_map
  have hr := h.represents
  exact {
    represents := {
      routes := by
        show s.m_routes.map _ = _
        rw [hr.routes, map_map, map_map]
        rfl
      timers := by
        rw [htimers]
        exact hr.timers
      __ := hr
      uids := by
        rw [htimers]
        exact hr.uids
      uid_lt := by
        rw [htimers]
        exact hr.uid_lt
      pointers := by
        rw [hpointers]
        exact hr.pointers
      pointer_lt := fun y hy => by
        obtain ⟨x, hx, rfl⟩ := mem_map.mp hy
        exact hr.pointer_lt x hx
      own := fun y hy => by
        obtain ⟨x, hx, rfl⟩ := mem_map.mp hy
        exact hr.own x hx }
    options := h.options
    accounted := fun y hy => by
      obtain ⟨x, hx, rfl⟩ := mem_map.mp hy
      cases h.accounted x hx with
      | attached hattached hgateway hmetric hstatus htimer =>
        exact .attached hattached hgateway hmetric hstatus htimer
      | learned hnot hknown hbacked hstatus => exact .learned hnot hknown hbacked hstatus
    networks := by
      rw [hnetworks]
      exact h.networks
    attached := fun network hattached => by
      obtain ⟨x, hx, heq⟩ := h.attached network hattached
      exact ⟨_, mem_map_of_mem hx, heq⟩ }

/-! ### Receiving -/

variable {r : Response} {happened : List RipAction} {now : ℕ}

/-- An entry of a message, as it is processed. -/
structure SoundResponse (N : Network n) (linkDown : ℕ) (i : Fin n) (r : Response) : Prop where
  known : ∃ k, N.Attached r.network k
  two_le : 2 ≤ r.rteMetric
  backed : N.Backed linkDown i r.network r.senderAddress r.incomingInterface r.rteMetric

section

variable (hplain : N.Plain linkDown) (hfixed : N.Fixed linkDown)

include hplain hfixed

/-- A sound entry heard on a link is a sound response there. -/
theorem SoundRte.response (h : N.SoundRte linkDown j rte) (hne : i ≠ j)
    (hat : N.At i interface link) (hspeaks : N.Speaks j link senderAddress) :
    N.SoundResponse linkDown i (Rip.response (N.options i) senderAddress interface rte) := by
  have hnetwork : (Rip.response (N.options i) senderAddress interface rte).network =
      (rte.m_prefix, rte.m_subnetMask) := congrArg (·, _) h.masked
  have hcost := hfixed.metric i interface
  have hcost_lt : GetInterfaceMetric (N.options i) interface < 256 := UInt8.toNat_lt _
  have hle := h.le_linkDown
  have hpos := h.pos
  have hsmall := hplain.linkDown
  have hmetric : (Rip.response (N.options i) senderAddress interface rte).rteMetric =
      min (rte.m_metric + GetInterfaceMetric (N.options i) interface) linkDown := by
    show rteMetric _ _ _ = _
    rw [rteMetric, hfixed.linkDown, Nat.mod_eq_of_lt (by omega)]
  refine ⟨hnetwork ▸ h.known, ?_, ?_⟩
  · rw [hmetric]
    exact Nat.le_min.mpr ⟨by omega, hsmall.1⟩
  rw [hnetwork, hmetric]
  refine ⟨Nat.min_le_right _ _, j, link, hne, hat, hspeaks, ?_⟩
  obtain heq | ⟨length, hlength, hpath⟩ := h.path
  · exact .inl (Nat.min_eq_right (by omega))
  · by_cases hcap : rte.m_metric + GetInterfaceMetric (N.options i) interface < linkDown
    · refine .inr ⟨interface, length, hat, hpath, ?_⟩
      rw [Nat.min_eq_left (Nat.le_of_lt hcap)]
      exact Nat.add_le_add_right hlength _
    · exact .inl (Nat.min_eq_right (Nat.le_of_not_lt hcap))

/-- What a sound response does to a route. -/
theorem Accounted.handled (h : N.Accounted linkDown i x) (hr : N.SoundResponse linkDown i r)
    (hnetwork : x.route.network = r.network)
    (hhandled : Handled (N.options i) now r x x' happened) :
    N.Accounted linkDown i x' ∧ x'.route.network = x.route.network := by
  obtain ⟨-, j, link, hne, hat, hspeaks, -⟩ := hr.backed
  have hmod : r.rteMetric % 256 = r.rteMetric :=
    Nat.mod_eq_of_lt (Nat.lt_of_le_of_lt hr.backed.1 hplain.linkDown.2)
  cases h with
  | attached hattached hgateway hmetric hstatus htimer =>
    -- the metric is below that of any response, and nobody has the gateway's address
    have hsender : r.senderAddress ≠ x.route.m_gateway := hgateway ▸ hspeaks.ne_zero hplain
    have htwo := hr.two_le
    cases hhandled with
    | replaced uid pointer _ hbetter => omega
    | updated uid heq => exact absurd heq hsender
    | refreshed uid heq => exact absurd heq hsender
    | invalidated uid heq => exact absurd heq hsender
    | ignored => exact ⟨.attached hattached hgateway hmetric hstatus htimer, rfl⟩
  | learned hnot hknown hbacked hstatus =>
    cases hhandled with
    | replaced uid pointer hsender hbetter =>
      have hroute : (learn (r.newRoute pointer) r.rteMetric r.tag).network = x.route.network := by
        rw [hnetwork, learn_eq]
        rfl
      refine ⟨.learned (hroute ▸ hnot) (hroute ▸ hknown) ?_ (.inl ?_), hroute⟩
      · rw [hroute, hnetwork, learn_eq]
        dsimp only
        rw [hmod]
        exact hr.backed
      · rw [learn_eq]
    | updated uid hsender hbetter =>
      have hroute : (learn x.route r.rteMetric r.tag).network = x.route.network := by
        rw [learn_eq]
        rfl
      obtain ⟨-, j', link', -, hat', hspeaks', -⟩ := hbacked
      rw [← hsender] at hspeaks'
      obtain ⟨rfl, rfl⟩ := hspeaks.unique hplain hspeaks'
      refine ⟨.learned (hroute ▸ hnot) (hroute ▸ hknown) ?_ (.inl ?_), hroute⟩
      · rw [hroute, hnetwork, learn_eq]
        dsimp only
        rw [hmod, ← hsender]
        obtain ⟨hle, k, link'', hne'', hat'', hspeaks'', hpath⟩ := hr.backed
        obtain ⟨rfl, rfl⟩ := hspeaks.unique hplain hspeaks''
        exact ⟨hle, j, link, hne, hat', hspeaks, hpath⟩
      · rw [learn_eq]
    | refreshed uid hsender hsame => exact ⟨.learned hnot hknown hbacked hstatus, rfl⟩
    | invalidated uid hsender hmore hdown =>
      have hroute : (invalid (N.options i) x.route).network = x.route.network := by
        rw [invalid_eq]
        rfl
      obtain ⟨-, j', link', hne', hat', hspeaks', -⟩ := hbacked
      have hmetric : (invalid (N.options i) x.route).m_metric = linkDown := by
        rw [invalid_eq, hfixed.linkDown]
        exact Nat.mod_eq_of_lt hplain.linkDown.2
      refine ⟨.learned (hroute ▸ hnot) (hroute ▸ hknown) ?_ (.inr hmetric), hroute⟩
      rw [hroute, hmetric, invalid_eq]
      exact ⟨Nat.le_refl _, j', link', hne', hat', hspeaks', .inl rfl⟩
    | ignored => exact ⟨.learned hnot hknown hbacked hstatus, rfl⟩

/-- What a sound response does to all routes. -/
theorem Accounted.handledAll (hr : N.SoundResponse linkDown i r)
    (h : HandledAll (N.options i) now r l l' happened) (hl : ∀ x ∈ l, N.Accounted linkDown i x) :
    (∀ x ∈ l', N.Accounted linkDown i x) ∧
      l'.map (fun x => x.route.network) = l.map fun x => x.route.network := by
  induction h with
  | nil => exact ⟨hl, rfl⟩
  | other hnetwork hrest ih =>
    obtain ⟨hall, hmap⟩ := ih fun x hx => hl x (mem_cons_of_mem _ hx)
    refine ⟨forall_mem_cons.mpr ⟨hl _ mem_cons_self, hall⟩, ?_⟩
    rw [map_cons, map_cons, hmap]
  | found hnetwork hhandled hrest ih =>
    obtain ⟨hall, hmap⟩ := ih fun x hx => hl x (mem_cons_of_mem _ hx)
    obtain ⟨haccounted, heq⟩ :=
      (hl _ mem_cons_self).handled hplain hfixed hr hnetwork hhandled
    refine ⟨forall_mem_cons.mpr ⟨haccounted, hall⟩, ?_⟩
    rw [map_cons, map_cons, hmap, heq]

end

/-- The route learned from a response is for its network. -/
theorem learnedRoute_network (r : Response) (pointer : ℕ) :
    (learnedRoute r pointer).network = r.network := by
  rw [learnedRoute_eq]
  rfl

/-- A new route. -/
theorem SoundResponse.accounted (hplain : N.Plain linkDown) (hr : N.SoundResponse linkDown i r)
    (hnot : ¬ N.Attached r.network i) (pointer : ℕ) (timer : Option Timer) :
    N.Accounted linkDown i ⟨learnedRoute r pointer, timer⟩ := by
  have hnetwork := learnedRoute_network r pointer
  refine .learned (hnetwork ▸ hnot) (hnetwork ▸ hr.known) ?_ (.inl (by rw [learnedRoute_eq]))
  rw [hnetwork, learnedRoute_eq]
  dsimp only
  rw [Nat.mod_eq_of_lt (Nat.lt_of_le_of_lt hr.backed.1 hplain.linkDown.2)]
  exact hr.backed

/-- A sound response keeps the router. -/
theorem Router.handleResponse (hplain : N.Plain linkDown) (hfixed : N.Fixed linkDown)
    (h : N.Router linkDown i s l) (hr : N.SoundResponse linkDown i r) :
    ∃ s' l' actions, s.handleResponse r = .ok (s', actions) ∧ N.Router linkDown i s' l' ∧
      Responded (N.options i) s.now r l l' actions := by
  obtain ⟨s', l', actions, hok, hrepresents, hresponded, halike⟩ := h.represents.handleResponse r
  rw [h.options] at hresponded
  refine ⟨s', l', actions, hok, ?_, hresponded⟩
  have hoptions : s'.options = N.options i := halike.options.trans h.options
  cases hresponded with
  | handled hall _ =>
    obtain ⟨haccounted, hmap⟩ := Accounted.handledAll hplain hfixed hr hall h.accounted
    refine ⟨hrepresents, hoptions, haccounted, hmap ▸ h.networks, fun network hattached => ?_⟩
    obtain ⟨x, hx, heq⟩ := h.attached network hattached
    have hmem : network ∈ l'.map fun x => x.route.network :=
      hmap ▸ mem_map.mpr ⟨x, hx, heq⟩
    exact mem_map.mp hmem
  | added uid pointer hnone _ =>
    have hnetwork := learnedRoute_network r pointer
    have hnot : ¬ N.Attached r.network i := fun hattached => by
      obtain ⟨x, hx, heq⟩ := h.attached _ hattached
      exact hnone x hx heq
    refine ⟨hrepresents, hoptions, forall_mem_cons.mpr
      ⟨hr.accounted hplain hnot pointer _, h.accounted⟩, ?_, fun network hattached => ?_⟩
    · rw [map_cons, pairwise_cons]
      refine ⟨fun network hmem heq => ?_, h.networks⟩
      obtain ⟨x, hx, rfl⟩ := mem_map.mp hmem
      exact absurd (heq.symm.trans hnetwork) (hnone x hx)
    · obtain ⟨x, hx, heq⟩ := h.attached network hattached
      exact ⟨x, mem_cons_of_mem _ hx, heq⟩

/-- A route for a network whose metric is at most a bound. -/
def Below (bound : ℕ) (network : Ipv4Address × Ipv4Mask) (l : List Holding) : Prop :=
  ∃ x ∈ l, x.route.network = network ∧ x.route.m_metric ≤ bound

/-- A finite metric is taken over, or the route's is not worse. -/
theorem handled_le (hnetwork : x.route.network = r.network)
    (h : Handled options now r x x' happened) (hle : r.rteMetric ≤ bound)
    (hfinite : bound < options.m_linkDown) :
    x'.route.network = r.network ∧ x'.route.m_metric ≤ bound := by
  cases h with
  | replaced uid pointer _ _ =>
    rw [learn_eq]
    exact ⟨rfl, Nat.le_trans (Nat.mod_le _ _) hle⟩
  | updated uid _ _ =>
    rw [learn_eq]
    exact ⟨hnetwork, Nat.le_trans (Nat.mod_le _ _) hle⟩
  | refreshed uid _ hsame => exact ⟨hnetwork, hsame ▸ hle⟩
  | invalidated uid _ _ hdown => exact absurd (Nat.lt_of_le_of_lt hle hfinite) hdown
  | ignored _ hmetric =>
    obtain hless | ⟨heq, -⟩ := hmetric
    · exact ⟨hnetwork, Nat.le_trans (Nat.le_of_lt hless) hle⟩
    · exact ⟨hnetwork, heq ▸ hle⟩

/-- Handling a response touches the routes of its network only. -/
theorem handledAll_mem (h : HandledAll options now r l l' happened) (hx : x ∈ l) :
    x.route.network ≠ r.network ∧ x ∈ l' ∨ x.route.network = r.network ∧
      ∃ x' ∈ l', ∃ happened, Handled options now r x x' happened := by
  induction h with
  | nil => cases hx
  | other hnetwork hrest ih =>
    obtain rfl | hx := mem_cons.mp hx
    · exact .inl ⟨hnetwork, mem_cons_self⟩
    · obtain ⟨hne, hmem⟩ | ⟨heq, x', hmem, happened, hhandled⟩ := ih hx
      · exact .inl ⟨hne, mem_cons_of_mem _ hmem⟩
      · exact .inr ⟨heq, x', mem_cons_of_mem _ hmem, happened, hhandled⟩
  | found hnetwork hhandled hrest ih =>
    obtain rfl | hx := mem_cons.mp hx
    · exact .inr ⟨hnetwork, _, mem_cons_self, _, hhandled⟩
    · obtain ⟨hne, hmem⟩ | ⟨heq, x', hmem, happened, hhandled⟩ := ih hx
      · exact .inl ⟨hne, mem_cons_of_mem _ hmem⟩
      · exact .inr ⟨heq, x', mem_cons_of_mem _ hmem, happened, hhandled⟩

/-- **A finite metric that is heard bounds the route's**, and what is heard for another network
leaves the bound. -/
theorem below_of_responded (h : Responded options now r l l' happened)
    (hfinite : bound < options.m_linkDown) (hle : r.network = network → r.rteMetric ≤ bound)
    (hbelow : Below bound network l ∨ r.network = network) : Below bound network l' := by
  cases h with
  | handled hall hfound =>
    have hmember : ∃ x ∈ l, x.route.network = network ∧
        (r.network ≠ network → x.route.m_metric ≤ bound) := by
      obtain ⟨x, hx, hnetwork, hmetric⟩ | heq := hbelow
      · exact ⟨x, hx, hnetwork, fun _ => hmetric⟩
      · obtain ⟨x, hx, hnetwork⟩ | hdown := hfound
        · exact ⟨x, hx, hnetwork.trans heq, fun hne => absurd heq hne⟩
        · have := hle heq
          omega
    obtain ⟨x, hx, rfl, hmetric⟩ := hmember
    obtain ⟨hne, hmem⟩ | ⟨heq, x', hmem, happened, hhandled⟩ := handledAll_mem hall hx
    · exact ⟨x, hmem, rfl, hmetric hne.symm⟩
    · obtain ⟨hnetwork, hmetric⟩ := handled_le heq hhandled (hle heq.symm) hfinite
      exact ⟨x', hmem, hnetwork.trans heq.symm, hmetric⟩
  | added uid pointer hnone hmetric =>
    obtain ⟨x, hx, hnetwork, hmetric⟩ | heq := hbelow
    · exact ⟨x, mem_cons_of_mem _ hx, hnetwork, hmetric⟩
    · refine ⟨_, mem_cons_self, (learnedRoute_network r pointer).trans heq, ?_⟩
      rw [learnedRoute_eq]
      exact Nat.le_trans (Nat.mod_le _ _) (hle heq)

/-- Responses in their order. -/
theorem Router.handleResponseList (hplain : N.Plain linkDown) (hfixed : N.Fixed linkDown)
    {rs : List Response} (h : N.Router linkDown i s l)
    (hrs : ∀ r ∈ rs, N.SoundResponse linkDown i r) :
    ∃ s' l' actions, s.handleResponseList rs = .ok (s', actions) ∧ N.Router linkDown i s' l' ∧
      ∀ bound network, bound < linkDown →
        (∀ r ∈ rs, r.network = network → r.rteMetric ≤ bound) →
        (Below bound network l ∨ ∃ r ∈ rs, r.network = network) → Below bound network l' := by
  induction rs generalizing s l with
  | nil =>
    refine ⟨s, l, [], rfl, h, fun bound network _ _ hbelow => ?_⟩
    exact hbelow.resolve_right fun ⟨_, hmem, _⟩ => not_mem_nil hmem
  | cons r rs ih =>
    obtain ⟨hr, hrs⟩ := forall_mem_cons.mp hrs
    obtain ⟨s₁, l₁, actions₁, hok₁, h₁, hresponded⟩ := h.handleResponse hplain hfixed hr
    obtain ⟨s₂, l₂, actions₂, hok₂, h₂, hbelow₂⟩ := ih h₁ hrs
    refine ⟨s₂, l₂, actions₁ ++ actions₂, ?_, h₂, fun bound network hfinite hle hbelow => ?_⟩
    · rw [Rip.handleResponseList, hok₁, ExceptFold.ok_bind]
      dsimp only
      rw [hok₂]
      rfl
    · obtain ⟨hle, hrest⟩ := forall_mem_cons.mp hle
      refine hbelow₂ bound network hfinite hrest ?_
      have hfinite' : bound < (N.options i).m_linkDown := by rwa [hfixed.linkDown]
      by_cases hnext : ∃ r ∈ rs, r.network = network
      · exact .inr hnext
      · refine .inl (below_of_responded hresponded hfinite' hle (hbelow.imp_right ?_))
        rintro ⟨r', hr', heq⟩
        obtain rfl | hr' := mem_cons.mp hr'
        · exact heq
        · exact absurd ⟨r', hr', heq⟩ hnext

/-- A sound entry passes the code's own test. -/
theorem SoundRte.isValidRte (hplain : N.Plain linkDown) (hfixed : N.Fixed linkDown)
    (h : N.SoundRte linkDown j rte) : isValidRte (N.options i) rte = true := by
  obtain ⟨k, hknown⟩ := h.known
  have hunicast := hplain.unicast _ k hknown
  have hpos := h.pos
  have hle := h.le_linkDown
  unfold Rip.isValidRte
  rw [hfixed.linkDown, hunicast, Bool.and_eq_true, Bool.not_eq_true', Bool.or_eq_false_iff,
    beq_eq_false_iff_ne, decide_eq_false_iff_not]
  exact ⟨⟨by omega, by omega⟩, rfl⟩

/-- The check for the own addresses. -/
theorem own_iff (hplain : N.Plain linkDown) (hspeaks : N.Speaks j link senderAddress) :
    ((N.interfaces i).any fun iface =>
      iface.addresses.any fun address => address.m_local == senderAddress) = true ↔ i = j := by
  obtain ⟨iface', hiface', -, address', haddress', rfl⟩ := hspeaks
  constructor
  · intro h
    obtain ⟨iface, hiface, haddress⟩ := any_eq_true.mp h
    obtain ⟨address, haddress, heq⟩ := any_eq_true.mp haddress
    exact (hplain.unique i iface hiface address haddress j iface' hiface' address'
      (mem_speakers haddress') (beq_iff_eq.mp heq)).1
  · rintro rfl
    exact any_eq_true.mpr ⟨iface', hiface', any_eq_true.mpr
      ⟨address', mem_speakers haddress', beq_self_eq_true _⟩⟩

/-- Receiving a sound message keeps the router. -/
theorem Router.receive (hplain : N.Plain linkDown) (hfixed : N.Fixed linkDown)
    (h : N.Router linkDown i s l) (message : Message) (hat : N.At i interface message.link)
    (hspeaks : N.Speaks j message.link message.senderAddress)
    (hrtes : ∀ rte ∈ message.rtes, N.SoundRte linkDown j rte) :
    ∃ s' l', N.receive i interface s message = .ok s' ∧ N.Router linkDown i s' l' ∧
      (i ≠ j → ∀ bound network, bound < linkDown →
        (∀ rte ∈ message.rtes, (rte.m_prefix, rte.m_subnetMask) = network →
          rte.m_metric + GetInterfaceMetric (N.options i) interface ≤ bound) →
        (Below bound network l ∨
          ∃ rte ∈ message.rtes, (rte.m_prefix, rte.m_subnetMask) = network) →
        Below bound network l') := by
  unfold Network.receive
  by_cases hne : i = j
  · rw [if_pos ((own_iff hplain hspeaks).mpr hne)]
    exact ⟨s, l, rfl, h, fun hnot => absurd hne hnot⟩
  rw [if_neg (mt (own_iff hplain hspeaks).mp hne)]
  have hsound : ∀ r ∈ message.rtes.map (response (N.options i) message.senderAddress interface),
      N.SoundResponse linkDown i r := by
    intro r hr
    obtain ⟨rte, hrte, rfl⟩ := mem_map.mp hr
    exact (hrtes rte hrte).response hplain hfixed hne hat hspeaks
  obtain ⟨s', l', actions, hok, hrouter, hbelow⟩ := h.handleResponseList hplain hfixed hsound
  have hcall : s.HandleResponses message.rtes message.senderAddress interface =
      .ok (s', actions) := by
    unfold Rip.HandleResponses
    rw [h.options, hfixed.exclusions, contains_nil, if_neg Bool.false_ne_true, if_pos, hok]
    exact all_eq_true.mpr fun rte hrte => (hrtes rte hrte).isValidRte hplain hfixed
  rw [hcall]
  refine ⟨s', l', rfl, hrouter, fun _ bound network hfinite hle hheard => ?_⟩
  have hnetwork : ∀ rte ∈ message.rtes,
      (response (N.options i) message.senderAddress interface rte).network =
        (rte.m_prefix, rte.m_subnetMask) := fun rte hrte => congrArg (·, _) (hrtes rte hrte).masked
  refine hbelow bound network hfinite (fun r hr heq => ?_) (hheard.imp_right ?_)
  · obtain ⟨rte, hrte, rfl⟩ := mem_map.mp hr
    refine Nat.le_trans (Nat.min_le_left _ _) (Nat.le_trans (Nat.mod_le _ _) ?_)
    exact hle rte hrte ((hnetwork rte hrte).symm.trans heq)
  · rintro ⟨rte, hrte, heq⟩
    exact ⟨_, mem_map_of_mem hrte, (hnetwork rte hrte).trans heq⟩

/-! ### Timers -/

/-- Time passing keeps the router. -/
theorem Router.elapse (h : N.Router linkDown i s l) (delay : ℕ) :
    N.Router linkDown i (s.elapse delay) l :=
  ⟨h.represents.elapse delay, h.options, h.accounted, h.networks, h.attached⟩

/-- Only routes that are learned have timers. -/
theorem Router.runTimer (hplain : N.Plain linkDown) (hfixed : N.Fixed linkDown)
    (h : N.Router linkDown i s l) :
    ∃ s' l' actions, s.runTimer = .ok (s', actions) ∧ N.Router linkDown i s' l' := by
  cases htimers : s.timers with
  | nil =>
    refine ⟨s, l, [], ?_, h⟩
    unfold Rip.runTimer
    rw [htimers]
  | cons timer rest =>
    obtain ⟨a, x, b, s', l', actions, rfl, hown, hok, hrepresents, halike, hcall⟩ :=
      h.represents.runTimer htimers
    have hx : x ∈ a ++ x :: b := mem_append_right a mem_cons_self
    have hothers {y : Holding} (hy : y ∈ a ++ b) : y ∈ a ++ x :: b :=
      perm_middle.mem_iff.mpr (mem_cons_of_mem _ hy)
    have hoptions : s'.options = N.options i := halike.options.trans h.options
    refine ⟨s', l', actions, hok, ?_⟩
    cases h.accounted x hx with
    | attached _ _ _ _ htimer => exact absurd (hown.symm.trans htimer) (Option.some_ne_none _)
    | learned hnot hknown hbacked _ =>
      obtain ⟨-, -, uid, rfl⟩ | ⟨-, -, rfl⟩ := hcall
      · -- the route is unreachable now
        have hroute : (invalid s.options x.route).network = x.route.network := by
          rw [invalid_eq]
          rfl
        have hmetric : (invalid s.options x.route).m_metric = linkDown := by
          rw [invalid_eq, h.options, hfixed.linkDown]
          exact Nat.mod_eq_of_lt hplain.linkDown.2
        obtain ⟨-, j, link, hne, hat, hspeaks, -⟩ := hbacked
        refine ⟨hrepresents, hoptions, fun y hy => ?_, ?_, fun network hattached => ?_⟩
        · obtain rfl | hy := mem_cons.mp (perm_middle.mem_iff.mp hy)
          · refine .learned (hroute ▸ hnot) (hroute ▸ hknown) ?_ (.inr hmetric)
            rw [hroute, hmetric, invalid_eq]
            exact ⟨Nat.le_refl _, j, link, hne, hat, hspeaks, .inl rfl⟩
          · exact h.accounted y (hothers hy)
        · have hnetworks := h.networks
          rw [map_append, map_cons] at hnetworks ⊢
          rw [hroute]
          exact hnetworks
        · obtain ⟨y, hy, rfl⟩ := h.attached network hattached
          obtain rfl | hy := mem_cons.mp (perm_middle.mem_iff.mp hy)
          · exact absurd hattached hnot
          · exact ⟨y, perm_middle.mem_iff.mpr (mem_cons_of_mem _ hy), rfl⟩
      · -- the route is gone
        refine ⟨hrepresents, hoptions, fun y hy => h.accounted y (hothers hy), ?_,
          fun network hattached => ?_⟩
        · have hsub : (a ++ b).Sublist (a ++ x :: b) :=
            (sublist_cons_self x b).append_left a
          exact h.networks.sublist (hsub.map _)
        · obtain ⟨y, hy, rfl⟩ := h.attached network hattached
          obtain rfl | hy := mem_cons.mp (perm_middle.mem_iff.mp hy)
          · exact absurd hattached hnot
          · exact ⟨y, hy, rfl⟩

/-! ### The beginning -/

/-- A router that has not heard of any network. -/
structure OnlyAttached (N : Network n) (i : Fin n) (s : Rip) (l : List Holding) : Prop where
  represents : Represents s l
  options : s.options = N.options i
  routes : ∀ x ∈ l, N.AttachedBy i x.route.m_interface x.route.network ∧ x.route.m_gateway = 0 ∧
    x.route.m_metric = 1 ∧ x.route.m_status = .RIP_VALID ∧ x.timer = none

/-- A network the router is attached to may be added. -/
theorem OnlyAttached.addNetworkRouteTo (h : N.OnlyAttached i s l)
    (hattached : N.AttachedBy i interface network) :
    ∃ x, N.OnlyAttached i (s.AddNetworkRouteTo network.1 network.2 interface) (l ++ [x]) ∧
      x.route.network = network := by
  refine ⟨_, ⟨h.represents.addNetworkRouteTo network.1 network.2 interface, h.options, ?_⟩, rfl⟩
  refine fun x hx => (mem_append.mp hx).elim (h.routes x) fun hx => ?_
  obtain rfl := mem_singleton.mp hx
  exact ⟨hattached, rfl, rfl, rfl, rfl⟩

/-- The networks of an interface may be added one after the other. -/
theorem OnlyAttached.addAddresses (h : N.OnlyAttached i s l)
    (hattached : ∀ address ∈ addresses,
      N.AttachedBy i interface (address.network, address.m_mask)) :
    ∃ l', N.OnlyAttached i (addresses.foldl (fun s address =>
        s.AddNetworkRouteTo address.network address.m_mask interface) s) (l ++ l') ∧
      ∀ address ∈ addresses, ∃ x ∈ l', x.route.network = (address.network, address.m_mask) := by
  induction addresses generalizing s l with
  | nil => exact ⟨[], (append_nil l).symm ▸ h, nofun⟩
  | cons address addresses ih =>
    obtain ⟨hhead, htail⟩ := forall_mem_cons.mp hattached
    obtain ⟨x, hx, hnetwork⟩ := h.addNetworkRouteTo hhead
    obtain ⟨l', hl', hmem⟩ := ih hx htail
    rw [append_assoc] at hl'
    refine ⟨[x] ++ l', hl', forall_mem_cons.mpr ⟨⟨x, mem_cons_self, hnetwork⟩,
      fun address' haddress' => ?_⟩⟩
    obtain ⟨y, hy, heq⟩ := hmem address' haddress'
    exact ⟨y, mem_cons_of_mem x hy, heq⟩

/-- All interfaces are brought up. -/
theorem OnlyAttached.interfacesUp (interfaces : List (Interface × ℕ)) (h : N.OnlyAttached i s l)
    (hinterfaces : ∀ p ∈ interfaces, (N.interfaces i)[p.2]? = some p.1) :
    ∃ l', N.OnlyAttached i (interfaces.foldl (fun s p =>
        s.NotifyInterfaceUp p.2 false p.1.addresses) s) (l ++ l') ∧
      ∀ p ∈ interfaces, ∀ address ∈ p.1.addresses, address.m_scope = .GLOBAL →
        ∃ x ∈ l', x.route.network = (address.network, address.m_mask) := by
  induction interfaces generalizing s l with
  | nil => exact ⟨[], (append_nil l).symm ▸ h, nofun⟩
  | cons p interfaces ih =>
    obtain ⟨hhead, htail⟩ := forall_mem_cons.mp hinterfaces
    have hattached : ∀ address ∈ p.1.addresses.filter (fun address => address.m_scope == .GLOBAL),
        N.AttachedBy i p.2 (address.network, address.m_mask) := fun address haddress => by
      obtain ⟨hmem, hscope⟩ := mem_filter.mp haddress
      exact ⟨p.1, hhead, address, hmem, beq_iff_eq.mp hscope, rfl⟩
    obtain ⟨l₁, h₁, hmem₁⟩ := h.addAddresses hattached
    obtain ⟨l₂, h₂, hmem₂⟩ := ih h₁ htail
    rw [append_assoc] at h₂
    refine ⟨l₁ ++ l₂, h₂, forall_mem_cons.mpr ⟨fun address haddress hscope => ?_,
      fun p' hp' address haddress hscope => ?_⟩⟩
    · obtain ⟨x, hx, heq⟩ := hmem₁ address
        (mem_filter.mpr ⟨haddress, beq_iff_eq.mpr hscope⟩)
      exact ⟨x, mem_append_left _ hx, heq⟩
    · obtain ⟨x, hx, heq⟩ := hmem₂ p' hp' address haddress hscope
      exact ⟨x, mem_append_right _ hx, heq⟩

theorem ofOptions_represents (options : RipOptions) : Represents (ofOptions options) [] where
  routes := rfl
  timers := .refl _
  inOrder := .nil
  now_le := nofun
  uids := nodup_nil
  uid_lt := nofun
  pointers := nodup_nil
  pointer_lt := nofun
  own := nofun

/-- The network as it starts is kept. -/
theorem start_keeps : N.Keeps linkDown N.start where
  routers := fun i => by
    have hfirst : N.OnlyAttached i (ofOptions (N.options i)) [] :=
      ⟨ofOptions_represents _, rfl, nofun⟩
    obtain ⟨l, hl, hmem⟩ := hfirst.interfacesUp (N.interfaces i).zipIdx
      fun p hp => mem_zipIdx_iff_getElem?.mp hp
    refine ⟨l, hl.represents, hl.options, fun x hx => ?_, ?_, ?_⟩
    · obtain ⟨hattached, hgateway, hmetric, hstatus, htimer⟩ := hl.routes x hx
      exact .attached hattached hgateway hmetric hstatus htimer
    · refine pairwise_of_forall_mem_list fun network hnetwork network' _ _ => ?_
      obtain ⟨x, hx, rfl⟩ := mem_map.mp hnetwork
      exact ⟨_, (hl.routes x hx).1⟩
    · rintro network ⟨interface, iface, hiface, address, haddress, hscope, rfl⟩
      exact hmem (iface, interface) (mem_zipIdx_iff_getElem?.mpr hiface) address haddress
        hscope
  sent := nofun

/-! ### A step -/

/-- A kept router may be put back in the network. -/
theorem Keeps.setRouter (h : N.Keeps linkDown S) (hrouter : N.Router linkDown i s l) :
    N.Keeps linkDown (setRouter S i s) where
  routers := fun k => by
    show ∃ l, N.Router linkDown k (update S.routers i s k) l
    by_cases heq : k = i
    · subst heq
      exact ⟨l, (update_self k s S.routers).symm ▸ hrouter⟩
    · rw [update_of_ne heq]
      exact h.routers k
  sent := h.sent

/-- Sending sound messages keeps the network. -/
theorem Keeps.send (h : N.Keeps linkDown S) {messages : List Message}
    (hmessages : ∀ message ∈ messages, N.SoundMessage linkDown message) :
    N.Keeps linkDown ⟨S.routers, S.sent ++ messages⟩ where
  routers := h.routers
  sent := fun message hmem => (mem_append.mp hmem).elim (h.sent message) (hmessages message)

section

variable (hplain : N.Plain linkDown) (hfixed : N.Fixed linkDown)

include hplain hfixed

/-- What a router sends of itself is sound. -/
theorem Router.updates (h : N.Router linkDown i s l) (periodic : Bool) :
    ∀ message ∈ N.updates i s periodic, N.SoundMessage linkDown message := by
  intro message hmessage
  obtain ⟨p, hp, hmem⟩ := mem_flatMap.mp hmessage
  have hiface : p.1 ∈ N.interfaces i :=
    mem_of_getElem? (mem_zipIdx_iff_getElem?.mp hp)
  exact soundMessage_of_mem_onLink hiface
    (fun rtes hrtes rte hrte => h.updateMessages hplain hfixed hrtes hrte) hmem

/-- **One step keeps what is accounted for.** -/
theorem Keeps.step (h : N.Keeps linkDown S) (event : Event n) :
    ∃ S', N.step S event = .ok S' ∧ N.Keeps linkDown S' := by
  cases event with
  | sendUpdate i periodic =>
    obtain ⟨l, hrouter⟩ := h.routers i
    exact ⟨_, rfl, (h.setRouter hrouter.clearChanged).send
      (hrouter.updates hplain hfixed periodic)⟩
  | sendTable i interface =>
    obtain ⟨l, hrouter⟩ := h.routers i
    dsimp only [Network.step]
    split
    · exact ⟨S, rfl, h⟩
    · next iface hiface =>
      exact ⟨_, rfl, h.send fun message hmessage =>
        soundMessage_of_mem_onLink (mem_of_getElem? hiface)
          (fun rtes hrtes rte hrte => hrouter.tableMessages hplain hfixed hrtes hrte) hmessage⟩
  | receive i interface message =>
    obtain ⟨l, hrouter⟩ := h.routers i
    dsimp only [Network.step]
    split
    · next iface message hiface hmessage =>
      split_ifs with hlink
      · obtain ⟨j, hspeaks, hrtes⟩ := h.sent message (mem_of_getElem? hmessage)
        obtain ⟨s', l', hok, hrouter', -⟩ :=
          hrouter.receive hplain hfixed message ⟨iface, hiface, hlink⟩ hspeaks hrtes
        rw [hok]
        exact ⟨_, rfl, h.setRouter hrouter'⟩
      · exact ⟨S, rfl, h⟩
    · exact ⟨S, rfl, h⟩
  | elapse i delay =>
    obtain ⟨l, hrouter⟩ := h.routers i
    exact ⟨_, rfl, h.setRouter (hrouter.elapse delay)⟩
  | runTimer i =>
    obtain ⟨l, hrouter⟩ := h.routers i
    obtain ⟨s', l', actions, hok, hrouter'⟩ := hrouter.runTimer hplain hfixed
    refine ⟨Network.setRouter S i s', ?_, h.setRouter hrouter'⟩
    show (S.routers i).runTimer.map _ = _
    rw [hok]
    rfl

/-- Every run from the start succeeds and keeps the network. -/
theorem run_keeps (events : List (Event n)) : ∃ S, N.run events = .ok S ∧ N.Keeps linkDown S :=
  ExceptFold.foldlM_total (N.Keeps linkDown) (fun _ event _ hkeeps =>
    hkeeps.step hplain hfixed event) start_keeps

end

end Ns3Joined.Internet.Network
