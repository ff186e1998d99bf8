import Ns3Joined.Internet.Rip
import Ns3Joined.Library.BestScan

/-!
# Static routing

`Ipv4StaticRouting` (`model/ipv4-static-routing.cc`): the network routes of a node, with their
metrics, in the order in which they were added.

* `LookupStatic`: the route for a destination, found in one pass that ends at a route for a single
  host.
* `GetDefaultRoute`: the same for the default routes, without that.
* `lookupStatic_iff`: when the route that is found has the longest mask and, of those, the smallest
  metric.
-/

namespace Ns3Joined.Internet

open List

structure Ipv4RoutingTableEntry where
  m_dest : Ipv4Address
  m_destNetworkMask : Ipv4Mask
  m_gateway : Ipv4Address
  m_interface : UInt32
deriving DecidableEq

/-- What is asked of the `Ipv4` of the node, whose devices are of type `D`. -/
structure Ipv4 (D : Type) where
  GetNetDevice : UInt32 → D
  GetInterfaceForDevice : D → UInt32
  /-- `GetAddress (interface, 0).GetLocal ()`. -/
  localAddress : UInt32 → Ipv4Address
  SourceAddressSelection : UInt32 → Ipv4Address → Ipv4Address

structure Ipv4Route (D : Type) where
  m_dest : Ipv4Address
  m_source : Ipv4Address
  m_gateway : Ipv4Address
  m_outputDevice : D
deriving DecidableEq

variable {s : Search}

namespace Ipv4StaticRouting

/-- An entry of `m_networkRoutes`. -/
abbrev NetworkRoute := Ipv4RoutingTableEntry × UInt32

/-- The variables of the loop of `LookupStatic`. Of `rtentry` it keeps the entry that it is made
of. -/
structure Search where
  route : Option NetworkRoute
  longest_mask : ℕ
  shortest_metric : UInt32

variable {D : Type} [DecidableEq D] (ipv4 : Ipv4 D) (dest : Ipv4Address) (oif : Option D)

/-- The loop of `LookupStatic`. -/
def searchFrom (s : Search) : List NetworkRoute → Search
  | [] => s
  | (j, metric) :: routes =>
    let masklen := j.m_destNetworkMask.GetPrefixLength
    if j.m_destNetworkMask.IsMatch dest j.m_dest then
      if oif.any fun oif => oif ≠ ipv4.GetNetDevice j.m_interface then searchFrom s routes
      else if masklen < s.longest_mask then searchFrom s routes
      else
        let shortest_metric := if masklen > s.longest_mask then 0xffffffff else s.shortest_metric
        if metric > shortest_metric then
          searchFrom { s with longest_mask := masklen, shortest_metric := shortest_metric } routes
        else
          let s : Search :=
            { route := some (j, metric), longest_mask := masklen, shortest_metric := metric }
          if masklen = 32 then s else searchFrom s routes
    else searchFrom s routes

/-- The route that `LookupStatic` chooses. -/
def chosen (m_networkRoutes : List NetworkRoute) : Option NetworkRoute :=
  (searchFrom ipv4 dest oif ⟨none, 0, 0xffffffff⟩ m_networkRoutes).route

/-- `rtentry`, for the route. -/
def toRoute (route : Ipv4RoutingTableEntry) : Ipv4Route D where
  m_dest := route.m_dest
  m_source := ipv4.SourceAddressSelection route.m_interface route.m_dest
  m_gateway := route.m_gateway
  m_outputDevice := ipv4.GetNetDevice route.m_interface

def LookupStatic (m_networkRoutes : List NetworkRoute) : Except Fault (Option (Ipv4Route D)) :=
  if dest.IsLocalMulticast then
    match oif with
    | none => .error .abort
    | some oif =>
      .ok (some {
        m_dest := dest
        m_source := ipv4.localAddress (ipv4.GetInterfaceForDevice oif)
        m_gateway := 0
        m_outputDevice := oif })
  else .ok ((chosen ipv4 dest oif m_networkRoutes).map fun route => toRoute ipv4 route.1)

/-- The loop of `GetDefaultRoute`. -/
def defaultFrom (result : Option NetworkRoute) (shortest_metric : UInt32) :
    List NetworkRoute → Option NetworkRoute
  | [] => result
  | (j, metric) :: routes =>
    if j.m_destNetworkMask.GetPrefixLength ≠ 0 then defaultFrom result shortest_metric routes
    else if metric > shortest_metric then defaultFrom result shortest_metric routes
    else defaultFrom (some (j, metric)) metric routes

/-- `GetDefaultRoute`, if there is one. -/
def GetDefaultRoute (m_networkRoutes : List NetworkRoute) : Option Ipv4RoutingTableEntry :=
  (defaultFrom none 0xffffffff m_networkRoutes).map Prod.fst

/-! ### The best routes -/

/-- The route matches, and is on the device if one is asked for. -/
def Matches (route : NetworkRoute) : Bool :=
  route.1.m_destNetworkMask.IsMatch dest route.1.m_dest &&
    oif.all fun oif => oif = ipv4.GetNetDevice route.1.m_interface

/-- The mask is longer, or it is of the same length and the metric is not greater. -/
def Better (route route' : NetworkRoute) : Prop :=
  route'.1.m_destNetworkMask.GetPrefixLength < route.1.m_destNetworkMask.GetPrefixLength ∨
  route'.1.m_destNetworkMask.GetPrefixLength = route.1.m_destNetworkMask.GetPrefixLength ∧
    route.2 ≤ route'.2

instance : DecidableRel Better := fun _ _ => inferInstanceAs (Decidable (_ ∨ _ ∧ _))

/-- The route is for a single host. -/
def IsHost (route : NetworkRoute) : Bool := route.1.m_destNetworkMask.GetPrefixLength = 32

variable {route route' : NetworkRoute} {routes : List NetworkRoute}

/-- Of two routes one is at least as good as the other. -/
theorem better_total (route route' : NetworkRoute) : Better route route' ∨ Better route' route := by
  unfold Better
  obtain hlt | heq | hlt := Nat.lt_trichotomy route.1.m_destNetworkMask.GetPrefixLength
    route'.1.m_destNetworkMask.GetPrefixLength
  · exact .inr (.inl hlt)
  · obtain hle | hle := UInt32.le_total route.2 route'.2
    · exact .inl (.inr ⟨heq.symm, hle⟩)
    · exact .inr (.inr ⟨heq, hle⟩)
  · exact .inl (.inl hlt)

theorem better_trans (route route' route'' : NetworkRoute) (h : Better route route')
    (h' : Better route' route'') : Better route route'' := by
  unfold Better at *
  obtain hlt | ⟨heq, hle⟩ := h
  · left
    obtain hlt' | ⟨heq', -⟩ := h'
    · exact hlt'.trans hlt
    · omega
  · obtain hlt' | ⟨heq', hle'⟩ := h'
    · left
      omega
    · exact .inr ⟨heq'.trans heq, UInt32.le_trans hle hle'⟩

/-- The loop that counts mask bits takes at most its number of turns. -/
theorem prefixLengthLoop_le (fuel : ℕ) (mask : Ipv4Mask) :
    Ipv4Mask.prefixLengthLoop fuel mask ≤ fuel := by
  induction fuel generalizing mask with
  | zero => exact Nat.le_refl 0
  | succ fuel ih =>
    rw [Ipv4Mask.prefixLengthLoop]
    split_ifs
    · exact Nat.zero_le _
    · exact Nat.succ_le_succ (ih _)

/-- Between host routes the metric decides. -/
theorem better_of_isHost (hhost : IsHost route = true) :
    Better route route' ↔ (IsHost route' = true → route.2 ≤ route'.2) := by
  have hlen : route.1.m_destNetworkMask.GetPrefixLength = 32 := of_decide_eq_true hhost
  have hle : route'.1.m_destNetworkMask.GetPrefixLength ≤ 32 := prefixLengthLoop_le 32 _
  unfold Better IsHost
  rw [hlen, decide_eq_true_iff]
  constructor
  · rintro (hlt | ⟨-, hmetric⟩) heq
    · omega
    · exact hmetric
  · intro h
    obtain hlt | heq := Nat.lt_or_eq_of_le hle
    · exact .inl hlt
    · exact .inr ⟨heq, h heq⟩

/-! ### The pass -/

/-- What the variables say of the route that is kept. -/
structure Search.For (s : Search) : Prop where
  none : s.route = none → s.longest_mask = 0 ∧ s.shortest_metric = 0xffffffff
  some : ∀ route ∈ s.route, s.longest_mask = route.1.m_destNetworkMask.GetPrefixLength ∧
    s.shortest_metric = route.2

/-- No metric exceeds the largest one the search starts from. -/
theorem not_gt_max (metric : UInt32) : ¬ metric > 0xffffffff := by
  have hlt := metric.toNat_lt
  have htoNat : (0xffffffff : UInt32).toNat = 4294967295 := rfl
  rw [gt_iff_lt, UInt32.lt_iff_toNat_lt, htoNat]
  omega

/-- A route that is not skipped is at least as good as the one that is kept. -/
theorem Search.For.keep (hs : s.For) (route : NetworkRoute) :
    BestScan.keep Better s.route route =
      if route.1.m_destNetworkMask.GetPrefixLength < s.longest_mask then s.route
      else if route.2 > if route.1.m_destNetworkMask.GetPrefixLength > s.longest_mask then
          0xffffffff else s.shortest_metric then s.route
      else Option.some route := by
  have hmax := not_gt_max route.2
  unfold BestScan.keep
  cases hroute : s.route with
  | none =>
    obtain ⟨hlongest, hshortest⟩ := hs.none hroute
    rw [hlongest, hshortest, if_neg (Nat.not_lt_zero _), ite_self, if_neg hmax]
  | some best =>
    obtain ⟨hlongest, hshortest⟩ := hs.some best hroute
    rw [hlongest, hshortest]
    dsimp only
    obtain hlt | heq | hlt := Nat.lt_trichotomy route.1.m_destNetworkMask.GetPrefixLength
      best.1.m_destNetworkMask.GetPrefixLength
    · -- a shorter mask
      have hworse : ¬ Better route best := by
        unfold Better
        omega
      rw [if_pos hlt, if_neg hworse]
    · -- the same mask, so that the metrics are compared
      have hbetter : Better route best ↔ ¬ route.2 > best.2 := by
        unfold Better
        rw [heq, gt_iff_lt, UInt32.not_lt]
        simp
      rw [heq, if_neg (lt_irrefl best.1.m_destNetworkMask.GetPrefixLength),
        if_neg (lt_irrefl best.1.m_destNetworkMask.GetPrefixLength)]
      by_cases hgt : route.2 > best.2
      · rw [if_pos hgt, if_neg fun hb => hbetter.mp hb hgt]
      · rw [if_neg hgt, if_pos (hbetter.mpr hgt)]
    · -- a longer mask
      have hbetter : Better route best := .inl hlt
      rw [if_neg (lt_asymm hlt), if_pos (show _ > _ from hlt), if_neg hmax, if_pos hbetter]

/-- A route the search skips while it has no host route is not a host route. -/
theorem Search.isHost_of_skip (hhost : ∀ route ∈ s.route, IsHost route = false)
    (hskip : BestScan.keep Better s.route route = s.route) : IsHost route = false := by
  by_contra htrue
  have hroute : IsHost route = true := by simpa using htrue
  cases hkept : s.route with
  | none =>
    rw [hkept] at hskip
    cases hskip
  | some best =>
    have hbest := hhost best hkept
    have hbetter : Better route best := (better_of_isHost hroute).mpr fun h =>
      absurd (hbest.symm.trans h) Bool.false_ne_true
    rw [hkept] at hskip
    unfold BestScan.keep at hskip
    dsimp only at hskip
    rw [if_pos hbetter] at hskip
    obtain rfl := Option.some.inj hskip
    exact absurd (hbest.symm.trans hroute) Bool.false_ne_true

/-- **The loop** keeps the best of the routes that match, up to the first one for a single host. -/
theorem searchFrom_route (hs : s.For) (hhost : ∀ route ∈ s.route, IsHost route = false) :
    (searchFrom ipv4 dest oif s routes).route =
      BestScan.scanUntil Better IsHost s.route (routes.filter (Matches ipv4 dest oif)) := by
  induction routes generalizing s with
  | nil => rfl
  | cons route routes ih =>
    obtain ⟨j, metric⟩ := route
    have hmatches : Matches ipv4 dest oif (j, metric) =
        (j.m_destNetworkMask.IsMatch dest j.m_dest &&
          !(oif.any fun oif => oif ≠ ipv4.GetNetDevice j.m_interface)) := by
      unfold Matches
      cases oif <;> simp
    unfold searchFrom
    dsimp only
    cases hmatch : j.m_destNetworkMask.IsMatch dest j.m_dest with
    | false =>
      rw [hmatch, Bool.false_and] at hmatches
      rw [if_neg Bool.false_ne_true, filter_cons_of_neg (by rw [hmatches]; simp)]
      exact ih hs hhost
    | true =>
      rw [hmatch, Bool.true_and] at hmatches
      rw [if_pos rfl]
      by_cases hdevice : (oif.any fun oif => oif ≠ ipv4.GetNetDevice j.m_interface) = true
      · rw [hdevice] at hmatches
        rw [if_pos hdevice, filter_cons_of_neg (by rw [hmatches]; simp)]
        exact ih hs hhost
      · rw [Bool.not_eq_true] at hdevice
        rw [hdevice] at hmatches
        have hkeep := hs.keep (j, metric)
        have hskip : BestScan.keep Better s.route (j, metric) = s.route →
            IsHost (j, metric) = false := s.isHost_of_skip hhost
        dsimp only at hkeep
        rw [hdevice, if_neg Bool.false_ne_true, filter_cons_of_pos (by rw [hmatches]; rfl),
          BestScan.scanUntil]
        by_cases hshort : j.m_destNetworkMask.GetPrefixLength < s.longest_mask
        · -- a shorter mask
          rw [if_pos hshort] at hkeep ⊢
          rw [hskip hkeep, if_neg Bool.false_ne_true, hkeep]
          exact ih hs hhost
        rw [if_neg hshort] at hkeep ⊢
        by_cases hmetric : metric > if j.m_destNetworkMask.GetPrefixLength > s.longest_mask then
            0xffffffff else s.shortest_metric
        · -- a greater metric
          rw [if_pos hmetric] at hkeep ⊢
          rw [hskip hkeep, if_neg Bool.false_ne_true, hkeep]
          have hsame : ¬ j.m_destNetworkMask.GetPrefixLength > s.longest_mask := fun hlonger => by
            rw [if_pos hlonger] at hmetric
            exact not_gt_max metric hmetric
          have hlongest : j.m_destNetworkMask.GetPrefixLength = s.longest_mask := by omega
          rw [if_neg hsame, hlongest]
          exact ih hs hhost
        · -- a better route
          rw [if_neg hmetric] at hkeep ⊢
          rw [hkeep]
          have hs' : Search.For ⟨some (j, metric), j.m_destNetworkMask.GetPrefixLength, metric⟩ :=
            ⟨fun h => (by cases h), fun route hroute => by cases hroute; exact ⟨rfl, rfl⟩⟩
          by_cases hlen : j.m_destNetworkMask.GetPrefixLength = 32
          · have hishost : IsHost (j, metric) = true := decide_eq_true hlen
            rw [if_pos hlen, hishost, if_pos rfl]
          · have hishost : IsHost (j, metric) = false := decide_eq_false hlen
            rw [if_neg hlen, hishost, if_neg Bool.false_ne_true]
            exact ih hs' fun route hroute => by cases hroute; exact hishost

/-! ### What is found -/

/-- The route that is chosen is one of the best of those that match, if there is one. -/
structure LookupRight (routes : List NetworkRoute) : Prop where
  result : LookupStatic ipv4 dest oif routes =
    .ok ((chosen ipv4 dest oif routes).map fun route => toRoute ipv4 route.1)
  none : chosen ipv4 dest oif routes = none ↔ ∀ route ∈ routes, Matches ipv4 dest oif route = false
  best : ∀ route ∈ chosen ipv4 dest oif routes, route ∈ routes ∧
    Matches ipv4 dest oif route = true ∧
    ∀ route' ∈ routes, Matches ipv4 dest oif route' = true → Better route route'

/-- Of the routes for a single host that match, none has a smaller metric than the first one. -/
def FirstHostBest (routes : List NetworkRoute) : Prop :=
  ∀ route ∈ (routes.filter (Matches ipv4 dest oif)).find? IsHost,
    ∀ route' ∈ routes, Matches ipv4 dest oif route' = true → IsHost route' = true →
      route.2 ≤ route'.2

instance (routes : List NetworkRoute) : Decidable (FirstHostBest ipv4 dest oif routes) :=
  inferInstanceAs (Decidable (∀ route ∈ (routes.filter (Matches ipv4 dest oif)).find? IsHost,
    ∀ route' ∈ routes, Matches ipv4 dest oif route' = true → IsHost route' = true →
      route.2 ≤ route'.2))

/-- The route chosen is that of a scan of the matching routes that stops at the first host route. -/
theorem chosen_eq (routes : List NetworkRoute) : chosen ipv4 dest oif routes =
    BestScan.scanUntil Better IsHost none (routes.filter (Matches ipv4 dest oif)) :=
  searchFrom_route ipv4 dest oif ⟨fun _ => ⟨rfl, rfl⟩, fun _ h => by cases h⟩ fun _ h => by cases h

/-- **The route for a destination** is one of the best exactly if the first one for a single host,
if there is one, is as good as the other ones for a single host. -/
theorem lookupStatic_iff (hdest : dest.IsLocalMulticast = false) (routes : List NetworkRoute) :
    LookupRight ipv4 dest oif routes ↔ FirstHostBest ipv4 dest oif routes := by
  have hresult : LookupStatic ipv4 dest oif routes =
      .ok ((chosen ipv4 dest oif routes).map fun route => toRoute ipv4 route.1) := by
    unfold LookupStatic
    rw [hdest, if_neg Bool.false_ne_true]
  have hchosen := chosen_eq ipv4 dest oif routes
  have hmem : ∀ route, route ∈ routes.filter (Matches ipv4 dest oif) ↔
      route ∈ routes ∧ Matches ipv4 dest oif route = true := fun _ => mem_filter
  unfold FirstHostBest
  cases hfirst : (routes.filter (Matches ipv4 dest oif)).find? IsHost with
  | none =>
    -- the loop sees all routes
    rw [BestScan.scanUntil_eq, BestScan.seen_eq_self hfirst] at hchosen
    refine ⟨fun _ route h => (by cases h), fun _ => ⟨hresult, ?_, fun route hroute => ?_⟩⟩
    · rw [hchosen, BestScan.scan_eq_none_iff, filter_eq_nil_iff]
      simp
    · rw [hchosen] at hroute
      obtain ⟨hin, hbest⟩ := BestScan.scan_spec better_total better_trans hroute
      obtain ⟨hroutes, hmatches⟩ := (hmem route).mp hin
      exact ⟨hroutes, hmatches, fun route' hroute' hmatches' =>
        hbest route' ((hmem route').mpr ⟨hroute', hmatches'⟩)⟩
  | some host =>
    -- it ends at the first route for a single host
    have hhost : IsHost host = true := List.find?_some hfirst
    obtain ⟨hroutes, hmatches⟩ := (hmem host).mp (mem_of_find?_eq_some hfirst)
    rw [BestScan.scanUntil_of_stop hfirst fun route _ hroute =>
      (better_of_isHost hhost).mpr fun h => absurd (hroute.symm.trans h) Bool.false_ne_true]
      at hchosen
    constructor
    · rintro hright route hroute route' hroute' hmatches' hhost'
      obtain rfl := Option.some.inj hroute
      obtain ⟨-, -, hbest⟩ := hright.best host hchosen
      exact (better_of_isHost hhost).mp (hbest route' hroute' hmatches') hhost'
    · intro hfirstBest
      refine ⟨hresult, ?_, fun route hroute => ?_⟩
      · rw [hchosen]
        refine ⟨fun h => (by cases h), fun hall => ?_⟩
        exact absurd ((hall host hroutes).symm.trans hmatches) Bool.false_ne_true
      · rw [hchosen] at hroute
        obtain rfl := Option.some.inj hroute
        exact ⟨hroutes, hmatches, fun route' hroute' hmatches' => (better_of_isHost hhost).mpr
          (hfirstBest host rfl route' hroute' hmatches')⟩

/-- A node with an address for each device. -/
def oneAddressEach : Ipv4 ℕ where
  GetNetDevice := fun interface => interface.toNat
  GetInterfaceForDevice := fun device => UInt32.ofNat device
  localAddress := fun interface => 0x0a000001 + interface
  SourceAddressSelection := fun interface _ => 0x0a000001 + interface

/-- Networks within one another, the smallest one twice. -/
theorem lookupRight_nested :
    LookupRight oneAddressEach 0x0a010203 none
      [(⟨0x0a010000, 0xffff0000, 0x0a000002, 1⟩, 7), (⟨0x0a000000, 0xff000000, 0x0a000003, 2⟩, 1),
        (⟨0x0a010000, 0xffff0000, 0x0a000004, 3⟩, 2)] :=
  (lookupStatic_iff _ _ _ (by decide) _).mpr (by decide)

/-- Two routes for a host, of which the second one has the smaller metric. -/
theorem not_lookupRight_host :
    ¬ LookupRight oneAddressEach 0x0a010203 none
      [(⟨0x0a010203, 0xffffffff, 0x0a000002, 1⟩, 5),
        (⟨0x0a010203, 0xffffffff, 0x0a000003, 2⟩, 1)] := fun hright =>
  absurd ((hright.best (⟨0x0a010203, 0xffffffff, 0x0a000002, 1⟩, 5) rfl).2.2
    (⟨0x0a010203, 0xffffffff, 0x0a000003, 2⟩, 1) (by decide) (by decide)) (by decide)

/-! ### Default routes -/

/-- The metric is not greater. -/
def Cheaper (route route' : NetworkRoute) : Prop := route.2 ≤ route'.2

instance : DecidableRel Cheaper := fun route route' =>
  inferInstanceAs (Decidable (route.2 ≤ route'.2))

/-- The route is for all destinations. -/
def IsForAll (route : NetworkRoute) : Bool := route.1.m_destNetworkMask.GetPrefixLength = 0

/-- The loop of `GetDefaultRoute` keeps the best of the default routes. -/
theorem defaultFrom_eq {result : Option NetworkRoute} {shortest_metric : UInt32}
    (hnone : result = none → shortest_metric = 0xffffffff)
    (hsome : ∀ route ∈ result, shortest_metric = route.2) (routes : List NetworkRoute) :
    defaultFrom result shortest_metric routes =
      BestScan.scan Cheaper result (routes.filter IsForAll) := by
  induction routes generalizing result shortest_metric with
  | nil => rfl
  | cons route routes ih =>
    obtain ⟨j, metric⟩ := route
    unfold defaultFrom
    by_cases hdefault : j.m_destNetworkMask.GetPrefixLength = 0
    · have hforAll : IsForAll (j, metric) = true := decide_eq_true hdefault
      have hkeep : BestScan.keep Cheaper result (j, metric) =
          if metric > shortest_metric then result else some (j, metric) := by
        unfold BestScan.keep
        cases hresult : result with
        | none => rw [hnone hresult, if_neg (not_gt_max metric)]
        | some best =>
          rw [hsome best hresult]
          dsimp only
          by_cases hgt : metric > best.2
          · have hworse : ¬ Cheaper (j, metric) best := UInt32.not_le.mpr hgt
            rw [if_pos hgt, if_neg hworse]
          · have hcheaper : Cheaper (j, metric) best := UInt32.not_lt.mp hgt
            rw [if_neg hgt, if_pos hcheaper]
      have hcons : BestScan.scan Cheaper result ((j, metric) :: routes.filter IsForAll) =
          BestScan.scan Cheaper (BestScan.keep Cheaper result (j, metric))
            (routes.filter IsForAll) := rfl
      rw [if_neg (not_not.mpr hdefault), filter_cons_of_pos hforAll, hcons, hkeep]
      split_ifs
      · exact ih hnone hsome
      · exact ih (fun h => (by cases h)) fun route hroute => by
          cases hroute
          rfl
    · have hnot : IsForAll (j, metric) = false := decide_eq_false hdefault
      rw [if_pos hdefault, filter_cons_of_neg (by rw [hnot]; exact Bool.false_ne_true)]
      exact ih hnone hsome

/-- **The default route** is found whenever there is one, and has the smallest metric. -/
theorem getDefaultRoute_spec (routes : List NetworkRoute) :
    (GetDefaultRoute routes = none ↔ ∀ route ∈ routes, ¬ IsForAll route = true) ∧
    ∀ entry, GetDefaultRoute routes = some entry →
      ∃ metric, (entry, metric) ∈ routes ∧ IsForAll (entry, metric) = true ∧
        ∀ route ∈ routes, IsForAll route = true → metric ≤ route.2 := by
  have hscan : defaultFrom none 0xffffffff routes =
      BestScan.scan Cheaper none (routes.filter IsForAll) :=
    defaultFrom_eq (fun _ => rfl) (fun _ h => (by cases h)) routes
  unfold GetDefaultRoute
  rw [hscan]
  constructor
  · rw [Option.map_eq_none_iff, BestScan.scan_eq_none_iff, filter_eq_nil_iff]
  · intro entry h
    obtain ⟨⟨j, metric⟩, hfound, rfl⟩ := Option.map_eq_some_iff.mp h
    have htotal : ∀ route route', Cheaper route route' ∨ Cheaper route' route :=
      fun route route' => UInt32.le_total route.2 route'.2
    obtain ⟨hmem, hbest⟩ := BestScan.scan_spec htotal (fun _ _ _ => UInt32.le_trans) hfound
    obtain ⟨hroutes, hforAll⟩ := mem_filter.mp hmem
    refine ⟨metric, hroutes, hforAll, ?_⟩
    intro route hroute hdefault
    exact hbest route (mem_filter.mpr ⟨hroute, hdefault⟩)

end Ipv4StaticRouting
end Ns3Joined.Internet
