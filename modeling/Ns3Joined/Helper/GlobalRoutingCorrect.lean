import Ns3Joined.Helper.GlobalRouting

/-!
# The routes of global routing

A route that `CalculateRoutes` adds has the least cost of a path and the first hop of a path
that attains it, as long as this cost is below 65535: `WeightInf` is the largest number of 16
bits, costs have 32, and a path that costs as much or more never relaxes a distance (`Leads`). A
next hop holds one cost, so of the origins of a name that are found through the same face the last
in the map gives it. Names of more than 32 components get no route at all.
-/

namespace Ns3Joined.Helper

open List Function BitVec
open ShortestWalks (cost cost_snoc exists_least le_cost_of_relaxed)

open Ndn (Name)
open ShortestWalks (Digraph Walk Least)

/-- The topology as a graph with the metrics of the links for weights. -/
def Topology.digraph (g : Topology) : Digraph ℕ Incidency where
  out := g.incidencies
  target := Incidency.target
  weight edge :=
    match edge.face with
    | none => 0
    | some face => (g.metric face).toNat

/-- The face is the first hop of a path that costs `c`. -/
def FirstHop (g : Topology) (source v c face : ℕ) : Prop :=
  ∃ path, Walk g.digraph source v path ∧ cost g.digraph path = c ∧
    path.head?.bind Incidency.face = some face

/-- The FIB of the node has a route for the name with this cost, through the first hop of a
path to `v` that attains it. -/
def Installed (g : Topology) (fib : Fib) (node : ℕ) (name : Name) (v c : ℕ) : Prop :=
  ∃ nextHop ∈ fib node name, nextHop.cost.toNat = c ∧ FirstHop g node v c nextHop.face

/-- The search leaves the least cost of a path to `v`, with this face. -/
def Leads (g : Topology) (dijkstra_shortest_paths : Topology → ℕ → DistancesMap)
    (source face v c : ℕ) : Prop :=
  Least g.digraph source v c ∧ c < 65535 ∧
    ((dijkstra_shortest_paths g source).get v).face = some face

/-! ### What the search finds -/

variable {a : Distance}

section Search

variable {g : Topology} {source u v c : ℕ} {distances : DistancesMap} {edge : Incidency}
  {path : List Incidency}

theorem mem_vertices : v ∈ g.vertices ↔ some v ∈ g.nodeList ++ g.channelList := by
  unfold Topology.vertices
  simp

theorem edgeWeight_face : (g.edgeWeight edge).face = edge.face := by
  unfold Topology.edgeWeight
  split <;> simp_all

theorem edgeWeight_metric : (g.edgeWeight edge).metric.toNat = g.digraph.weight edge := by
  unfold Topology.edgeWeight
  show _ = match edge.face with | none => 0 | some face => (g.metric face).toNat
  match edge.face with
  | none => rfl
  | some face =>
    have hlt := g.metric_lt face
    show (g.metric face).toUInt16.toNat = (g.metric face).toNat
    rw [UInt64.toNat_toUInt16]
    exact Nat.mod_eq_of_lt hlt

/-- The cost of a path with one more edge. -/
theorem combine_cost (ha : a.cost.toNat ≤ 65535) :
    (WeightCombine a (g.edgeWeight edge)).cost.toNat = a.cost.toNat + g.digraph.weight edge := by
  have hcost : (WeightCombine a (g.edgeWeight edge)).cost =
      a.cost + (g.edgeWeight edge).metric.toUInt32 := by
    unfold WeightCombine
    split_ifs <;> rfl
  have hlt := (g.edgeWeight edge).metric.toNat_lt
  rw [hcost, UInt32.toNat_add, UInt16.toNat_toUInt32, edgeWeight_metric]
  rw [edgeWeight_metric] at hlt
  exact Nat.mod_eq_of_lt (by omega)

/-- Distances are compared by cost. -/
theorem compare_iff {b : Distance} : WeightCompare a b = true ↔ a.cost.toNat < b.cost.toNat := by
  unfold WeightCompare
  rw [decide_eq_true_iff, UInt32.lt_iff_toNat_lt]

theorem mem_of_walk (hsource : some source ∈ g.nodeList) (h : Walk g.digraph source v path) :
    v ∈ g.vertices := by
  refine h.mem (S := fun v => v ∈ g.vertices) ?_ ?_
  · exact mem_vertices.mpr (mem_append_left _ hsource)
  · intro u hu edge hedge
    exact mem_vertices.mpr (g.target_mem u (mem_vertices.mp hu) edge hedge)

section

variable (hsource : some source ∈ g.nodeList) (h : Searched g source distances)

include hsource h

/-- **The tree** holds a path for each distance in it, with its cost and its first hop. The path
does not return to the source, whose distance has no face. -/
theorem Tree.exists_path (htree : Tree g source distances v) :
    (distances.get v).cost.toNat < 65535 ∧ ∃ path, Walk g.digraph source v path ∧
      cost g.digraph path = (distances.get v).cost.toNat ∧
      (distances.get v).face = path.head?.bind Incidency.face ∧
      ∀ edge ∈ path, edge.target ≠ source := by
  induction htree with
  | source =>
    rw [h.zero]
    exact ⟨by decide, [], .nil, rfl, rfl, nofun⟩
  | @edge u edge _ hedge hget hlt ih =>
    obtain ⟨hu, path, hpath, hcost, hface, hreturn⟩ := ih
    have hfirst : (distances.get edge.target).face =
        (path ++ [edge]).head?.bind Incidency.face := by
      rw [hget]
      match path, hface with
      | [], hface =>
        -- the first edge gives the face
        have hnone : (distances.get u).face = none := hface
        unfold WeightCombine
        rw [if_pos hnone]
        exact edgeWeight_face
      | first :: path, hface =>
        have hface' : (distances.get u).face = first.face := hface
        have hne : (distances.get u).face ≠ none := by
          rw [hface']
          exact g.face_ne_none source hsource first (hpath.head_mem rfl)
        unfold WeightCombine
        rw [if_neg hne]
        exact hface'
    have hpath' : Walk g.digraph source edge.target (path ++ [edge]) := hpath.snoc hedge
    refine ⟨compare_iff.mp hlt, path ++ [edge], hpath', ?_, hfirst, ?_⟩
    · calc cost g.digraph (path ++ [edge])
          = cost g.digraph path + g.digraph.weight edge :=
            cost_snoc path edge
        _ = (distances.get u).cost.toNat + g.digraph.weight edge := by rw [hcost]
        _ = (distances.get edge.target).cost.toNat := by
            rw [hget, combine_cost (Nat.le_of_lt hu)]
    · have htarget : edge.target ≠ source := by
        intro hsame
        rw [hsame, h.zero] at hfirst
        obtain ⟨first, hhead⟩ := Option.ne_none_iff_exists'.mp
          (mt head?_eq_none_iff.mp (append_ne_nil_of_right_ne_nil path (cons_ne_nil edge [])))
        rw [hhead] at hfirst
        exact g.face_ne_none source hsource first (hpath'.head_mem hhead) hfirst.symm
      intro edge' hedge'
      rcases mem_append.mp hedge' with hold | hnew
      · exact hreturn edge' hold
      · rw [mem_singleton.mp hnew]
        exact htarget

/-- A cost does not exceed the largest metric of an edge. -/
theorem Searched.cost_le (hv : v ∈ g.vertices) : (distances.get v).cost.toNat ≤ 65535 := by
  rcases h.tree v hv with hinf | htree
  · rw [hinf]
    exact le_refl _
  · exact Nat.le_of_lt (htree.exists_path hsource h).1

/-- What the search finds costs no more than any path. -/
theorem Searched.le_cost (hpath : Walk g.digraph source v path) :
    (distances.get v).cost.toNat ≤ cost g.digraph path := by
  refine le_cost_of_relaxed (d := fun v => (distances.get v).cost.toNat) ?_ ?_ hpath
  · rw [h.zero]
    rfl
  · intro u path hpath edge hedge
    have hu := mem_of_walk hsource hpath
    have hrelaxed := h.relaxed u hu edge hedge
    rw [Bool.eq_false_iff, ne_eq, compare_iff, combine_cost (h.cost_le hsource hu)] at hrelaxed
    exact Nat.le_of_not_lt hrelaxed

/-- **Distances**: the least cost of a path and the first hop of one that attains it, if this
is less than infinity, and infinity without a face otherwise. -/
theorem Searched.spec (hleast : Least g.digraph source v c) :
    (c < 65535 ∧ (distances.get v).cost.toNat = c ∧
      ∃ path, Walk g.digraph source v path ∧ cost g.digraph path = c ∧
        (distances.get v).face = path.head?.bind Incidency.face) ∨
    65535 ≤ c ∧ (distances.get v).face = none := by
  obtain ⟨⟨path, hpath, hcost⟩, hle⟩ := hleast
  have hv := mem_of_walk hsource hpath
  have hbound : (distances.get v).cost.toNat ≤ c := hcost ▸ h.le_cost hsource hpath
  rcases h.tree v hv with hinf | htree
  · right
    rw [hinf] at hbound ⊢
    exact ⟨hbound, rfl⟩
  · left
    obtain ⟨hlt, path', hpath', hcost', hface, -⟩ := htree.exists_path hsource h
    have heq : (distances.get v).cost.toNat = c :=
      le_antisymm hbound (hcost' ▸ hle path' hpath')
    rw [heq] at hlt hcost'
    exact ⟨hlt, heq, path', hpath', hcost', hface⟩

/-- A distance with a face is the cost of a path that starts with it. -/
theorem Searched.path_of_face {other : ℕ} (hface : (distances.get v).face = some other) :
    (distances.get v).cost.toNat < 65535 ∧ ∃ path, Walk g.digraph source v path ∧
      cost g.digraph path = (distances.get v).cost.toNat ∧
      path.head?.bind Incidency.face = some other ∧ ∀ edge ∈ path, edge.target ≠ source := by
  have hmem : v ∈ distances.map Prod.fst := by
    by_contra hnot
    have hnone : distances.lookup v = none := by
      rw [lookup_eq_none_iff]
      intro entry hentry
      rw [bne_iff_ne]
      rintro rfl
      exact hnot (mem_map_of_mem hentry)
    unfold DistancesMap.get at hface
    rw [hnone] at hface
    cases hface
  rcases h.tree v ((h.mem_iff v).mp hmem) with hinf | htree
  · rw [hinf] at hface
    cases hface
  · obtain ⟨hlt, path, hpath, hcost, hhead, htarget⟩ := htree.exists_path hsource h
    exact ⟨hlt, path, hpath, hcost, hhead ▸ hface, htarget⟩

end

/-- The entries of the map are what `get` finds. -/
theorem mem_distances (hnodup : (distances.map Prod.fst).Nodup) {d : Distance} :
    (v, d) ∈ distances ↔ v ∈ distances.map Prod.fst ∧ distances.get v = d := by
  induction distances with
  | nil => simp
  | cons entry distances ih =>
    obtain ⟨v', d'⟩ := entry
    rw [map_cons, nodup_cons] at hnodup
    obtain ⟨hnew, hnodup⟩ := hnodup
    have hget : DistancesMap.get ((v', d') :: distances) v =
        if v = v' then d' else DistancesMap.get distances v := by
      unfold DistancesMap.get
      rw [lookup_cons]
      split <;> simp_all
    rw [hget, map_cons, mem_cons, mem_cons, ih hnodup]
    by_cases heq : v = v'
    · subst heq
      rw [if_pos rfl]
      constructor
      · rintro (hpair | ⟨hmem, -⟩)
        · exact ⟨.inl rfl, (Prod.mk.inj hpair).2.symm⟩
        · exact absurd hmem hnew
      · rintro ⟨-, rfl⟩
        exact .inl rfl
    · rw [if_neg heq]
      constructor
      · rintro (hpair | ⟨hmem, hd⟩)
        · exact absurd (Prod.mk.inj hpair).1 heq
        · exact ⟨.inr hmem, hd⟩
      · rintro ⟨hmem, hd⟩
        exact .inr ⟨hmem.resolve_left heq, hd⟩

end Search

/-! ### Routes -/

/-- A route to add. -/
structure Route where
  node : ℕ
  name : Name
  face : ℕ
  metric : Int32

def Route.nextHop (r : Route) : NextHop := ⟨r.face, r.metric.toInt64.toUInt64⟩

def Route.apply (fib : Fib) (r : Route) : Fib := AddRoute fib r.node r.name r.face r.metric

/-- The routes of a node to one router. -/
def routesTo (g : Topology) (source : ℕ) (dist : ℕ × Distance) : List Route :=
  if dist.1 = source then []
  else
    match dist.2.face with
    | none => []
    | some face =>
      (g.localPrefixes dist.1).map fun name => ⟨source, name, face, dist.2.cost.toInt32⟩

def routes (g : Topology) (dijkstra_shortest_paths : Topology → ℕ → DistancesMap) : List Route :=
  (g.nodeList.filterMap id).flatMap fun source =>
    (dijkstra_shortest_paths g source).flatMap (routesTo g source)

variable {r : Route}

section Routes

variable {g : Topology} {dijkstra_shortest_paths : Topology → ℕ → DistancesMap} {fib : Fib}
  {node face : ℕ} {name : Name} {cost : UInt64} {nextHop : NextHop} {rs : List Route}

/-- The loops of `CalculateRoutes` add the routes one after the other. -/
theorem calculateRoutes_eq :
    CalculateRoutes g dijkstra_shortest_paths fib =
      (routes g dijkstra_shortest_paths).foldl Route.apply fib := by
  have hto : ∀ source, addRoutes g source =
      fun fib dist => (routesTo g source dist).foldl Route.apply fib := by
    intro source
    funext fib dist
    unfold addRoutes routesTo
    split_ifs
    · rfl
    · match dist.2.face with
      | none => rfl
      | some face =>
        dsimp only
        rw [foldl_map]
        rfl
  unfold CalculateRoutes routes
  rw [foldl_flatMap, foldl_filterMap]
  congr 1
  funext fib node
  match node with
  | none => rfl
  | some source =>
    show List.foldl (addRoutes g source) fib _ = List.foldl Route.apply fib _
    rw [foldl_flatMap, hto]

/-- A next hop takes the place of the one with the same face. -/
theorem mem_addOrUpdateNextHop {nextHops : List NextHop} :
    nextHop ∈ addOrUpdateNextHop nextHops face cost ↔
      nextHop = ⟨face, cost⟩ ∨ nextHop.face ≠ face ∧ nextHop ∈ nextHops := by
  unfold addOrUpdateNextHop
  split_ifs with hold
  · rw [mem_map]
    constructor
    · rintro ⟨nextHop', hmem, rfl⟩
      split_ifs with hface
      · rw [← hface]
        exact .inl rfl
      · exact .inr ⟨hface, hmem⟩
    · rintro (rfl | ⟨hface, hmem⟩)
      · obtain ⟨nextHop', hmem, hface⟩ := mem_map.mp hold
        refine ⟨nextHop', hmem, ?_⟩
        rw [if_pos hface, ← hface]
      · exact ⟨nextHop, hmem, if_neg hface⟩
  · rw [mem_append, mem_singleton]
    constructor
    · rintro (hmem | rfl)
      · refine .inr ⟨?_, hmem⟩
        rintro rfl
        exact hold (mem_map_of_mem hmem)
      · exact .inl rfl
    · rintro (rfl | ⟨-, hmem⟩)
      · exact .inr rfl
      · exact .inl hmem

/-- A name that is too long gets no route. -/
theorem apply_of_long (hlong : getMaxDepth < name.length) :
    Route.apply fib r node name = fib node name := by
  unfold Route.apply AddRoute
  split_ifs with hr
  · rfl
  · -- the name of the route is another one
    have hname : name ≠ r.name := by
      rintro rfl
      exact hr hlong
    by_cases hnode : node = r.node
    · subst hnode
      rw [update_self, update_of_ne hname]
    · rw [update_of_ne hnode]

/-- **Adding a route** replaces the next hop of its face. -/
theorem mem_apply (hshort : name.length ≤ getMaxDepth) :
    nextHop ∈ Route.apply fib r node name ↔
      (r.node = node ∧ r.name = name ∧ nextHop = r.nextHop) ∨
      (¬ (r.node = node ∧ r.name = name ∧ nextHop.face = r.face) ∧ nextHop ∈ fib node name) := by
  unfold Route.apply AddRoute
  by_cases hname : r.name = name
  · subst hname
    rw [if_neg (Nat.not_lt.mpr hshort)]
    by_cases hnode : r.node = node
    · subst hnode
      rw [update_self, update_self, mem_addOrUpdateNextHop]
      simp [Route.nextHop]
    · rw [update_of_ne (Ne.symm hnode)]
      simp [hnode]
  · split_ifs
    · simp [hname]
    · by_cases hnode : r.node = node
      · subst hnode
        rw [update_self, update_of_ne (Ne.symm hname)]
        simp [hname]
      · rw [update_of_ne (Ne.symm hnode)]
        simp [hnode]

/-- Prefixes that are too long are refused. -/
theorem foldl_apply_of_long (hlong : getMaxDepth < name.length) :
    rs.foldl Route.apply fib node name = fib node name := by
  induction rs generalizing fib with
  | nil => rfl
  | cons r rs ih => exact ih.trans (apply_of_long hlong)

/-- A next hop of the FIB was there or comes from a route. -/
theorem mem_foldl_apply (h : nextHop ∈ rs.foldl Route.apply fib node name) :
    nextHop ∈ fib node name ∨ ∃ r ∈ rs, r.node = node ∧ r.name = name ∧ nextHop = r.nextHop := by
  rcases Nat.lt_or_ge getMaxDepth name.length with hlong | hshort
  · rw [foldl_apply_of_long hlong] at h
    exact .inl h
  induction rs generalizing fib with
  | nil => exact .inl h
  | cons r rs ih =>
    rcases ih h with hmem | ⟨r', hr', hroute⟩
    · rcases (mem_apply hshort).mp hmem with hroute | ⟨-, hmem⟩
      · exact .inr ⟨r, mem_cons_self .., hroute⟩
      · exact .inl hmem
    · exact .inr ⟨r', mem_cons_of_mem _ hr', hroute⟩

/-! ### The last route wins -/

def Route.isFor (node : ℕ) (name : Name) (face : ℕ) (r : Route) : Bool :=
  r.node = node ∧ r.name = name ∧ r.face = face

theorem isFor_iff : r.isFor node name face = true ↔
    r.node = node ∧ r.name = name ∧ r.face = face := by
  unfold Route.isFor
  exact decide_eq_true_iff

/-- **The next hop of a face** is that of the last route for it. -/
theorem mem_foldl_apply_iff (hshort : name.length ≤ getMaxDepth) :
    nextHop ∈ rs.foldl Route.apply fib node name ↔
      match (rs.filter (Route.isFor node name nextHop.face)).getLast? with
      | none => nextHop ∈ fib node name
      | some r => nextHop = r.nextHop := by
  induction rs using reverseRecOn with
  | nil => rfl
  | append_singleton rs r ih =>
    rw [foldl_append, filter_append]
    show nextHop ∈ Route.apply (rs.foldl Route.apply fib) r node name ↔ _
    rw [mem_apply hshort]
    by_cases hfor : r.isFor node name nextHop.face = true
    · obtain ⟨hnode, hname, hface⟩ := isFor_iff.mp hfor
      rw [filter_cons_of_pos hfor, filter_nil, getLast?_concat]
      dsimp only
      constructor
      · rintro (⟨-, -, heq⟩ | ⟨hnot, -⟩)
        · exact heq
        · exact absurd ⟨hnode, hname, hface.symm⟩ hnot
      · exact fun heq => .inl ⟨hnode, hname, heq⟩
    · have hnot : ¬ (r.node = node ∧ r.name = name ∧ nextHop.face = r.face) := by
        rintro ⟨hnode, hname, hface⟩
        exact hfor (isFor_iff.mpr ⟨hnode, hname, hface.symm⟩)
      rw [filter_cons_of_neg hfor, filter_nil, append_nil, ← ih]
      constructor
      · rintro (⟨hnode, hname, rfl⟩ | ⟨-, hmem⟩)
        · exact absurd ⟨hnode, hname, rfl⟩ hnot
        · exact hmem
      · exact fun hmem => .inr ⟨hnot, hmem⟩

/-- Where each distance gives routes, the last route of some kind is for the largest router that
has one. -/
theorem exists_last_entry {distances : DistancesMap} {f : ℕ × Distance → List Route}
    {p : Route → Bool} (hordered : distances.Pairwise fun entry entry' => entry.1 < entry'.1)
    (hr : ((distances.flatMap f).filter p).getLast? = some r) :
    ∃ entry ∈ distances, r ∈ f entry ∧ p r = true ∧
      ∀ entry' ∈ distances, ∀ r' ∈ f entry', p r' = true → entry'.1 ≤ entry.1 := by
  rw [filter_flatMap, getLast?_flatMap, findSome?_eq_some_iff] at hr
  obtain ⟨after, entry, before, hsplit, hr, hnone⟩ := hr
  have hmem : ∀ {entry'}, entry' ∈ distances ↔
      entry' ∈ after ∨ entry' = entry ∨ entry' ∈ before := by
    intro entry'
    rw [← mem_reverse, hsplit, mem_append, mem_cons]
  have hdescending := pairwise_reverse.mpr hordered
  rw [hsplit, pairwise_append, pairwise_cons] at hdescending
  obtain ⟨-, ⟨hbefore, -⟩, -⟩ := hdescending
  obtain ⟨hmemf, hp⟩ := mem_filter.mp (mem_of_getLast? hr)
  refine ⟨entry, hmem.mpr (.inr (.inl rfl)), hmemf, hp, fun entry' hentry' r' hr' hp' => ?_⟩
  rcases hmem.mp hentry' with hafter | rfl | hbefore'
  · -- the entries after it give none
    have hempty := getLast?_eq_none_iff.mp (hnone _ hafter)
    exact absurd hp' (filter_eq_nil_iff.mp hempty r' hr')
  · exact Nat.le_refl _
  · exact Nat.le_of_lt (hbefore _ hbefore')

/-! ### The routes of `CalculateRoutes` -/

/-- The routes that a found distance gives. -/
theorem mem_routesTo {source : ℕ} {dist : ℕ × Distance} :
    r ∈ routesTo g source dist ↔
      r.node = source ∧ dist.1 ≠ source ∧ dist.2.face = some r.face ∧
        r.name ∈ g.localPrefixes dist.1 ∧ r.metric = dist.2.cost.toInt32 := by
  unfold routesTo
  split_ifs with hself
  · simp [hself]
  · match hface : dist.2.face with
    | none => simp
    | some face =>
      dsimp only
      rw [mem_map]
      constructor
      · rintro ⟨name, hname, rfl⟩
        exact ⟨rfl, hself, rfl, hname, rfl⟩
      · rintro ⟨rfl, -, hr, hname, hmetric⟩
        refine ⟨r.name, hname, ?_⟩
        rw [Option.some.inj hr, ← hmetric]

/-- Small costs go through the signed number of `AddRoute`. -/
theorem toNat_metric {c : UInt32} (h : c.toNat < 2 ^ 31) :
    c.toInt32.toInt64.toUInt64.toNat = c.toNat := by
  have hlow : c.toInt32.toInt = c.toNat := by
    show c.toBitVec.toInt = _
    rw [toInt_eq_toNat_of_lt (show 2 * c.toNat < 2 ^ 32 by omega)]
    rfl
  have hhigh : c.toInt32.toInt64.toInt = c.toNat := by
    rw [Int32.toInt_toInt64, hlow]
  have hbits : c.toInt32.toInt64.toUInt64.toBitVec.toInt = c.toNat := hhigh
  have hlt : 2 * c.toInt32.toInt64.toUInt64.toBitVec.toNat < 2 ^ 64 := by
    rw [toInt_eq_toNat_cond] at hbits
    split_ifs at hbits
    · assumption
    · have := c.toInt32.toInt64.toUInt64.toBitVec.isLt
      omega
  rw [toInt_eq_toNat_of_lt hlt] at hbits
  exact Int.ofNat_inj.mp hbits

/-- What the search finds, from its distances. -/
theorem leads_iff {source v c : ℕ} (hsource : some source ∈ g.nodeList)
    (h : Searched g source (dijkstra_shortest_paths g source)) :
    Leads g dijkstra_shortest_paths source face v c ↔
      ((dijkstra_shortest_paths g source).get v).face = some face ∧
        ((dijkstra_shortest_paths g source).get v).cost.toNat = c := by
  constructor
  · rintro ⟨hleast, -, hface⟩
    rcases h.spec hsource hleast with ⟨-, hcost, -⟩ | ⟨-, hnone⟩
    · exact ⟨hface, hcost⟩
    · exact absurd (hface.symm.trans hnone) (Option.some_ne_none face)
  · rintro ⟨hface, rfl⟩
    obtain ⟨hlt, path, hpath, -⟩ := h.path_of_face hsource hface
    obtain ⟨c, hleast⟩ := exists_least hpath
    rcases h.spec hsource hleast with ⟨-, hcost, -⟩ | ⟨-, hnone⟩
    · exact ⟨hcost ▸ hleast, hlt, hface⟩
    · exact absurd (hface.symm.trans hnone) (Option.some_ne_none face)

section Calculated

variable {source : ℕ} (hsearched : ∀ source, some source ∈ g.nodeList →
  Searched g source (dijkstra_shortest_paths g source))

include hsearched

/-- **The routes of one distance**: for what the search finds, at its cost. -/
theorem mem_routesTo_iff {v : ℕ} {d : Distance} (hsource : some source ∈ g.nodeList)
    (hdist : (v, d) ∈ dijkstra_shortest_paths g source) :
    r ∈ routesTo g source (v, d) ↔
      r.node = source ∧ v ≠ source ∧ r.name ∈ g.localPrefixes v ∧
        Leads g dijkstra_shortest_paths source r.face v r.nextHop.cost.toNat ∧
        r.metric = d.cost.toInt32 := by
  have h := hsearched source hsource
  obtain ⟨-, hd⟩ := (mem_distances h.nodup).mp hdist
  rw [mem_routesTo, leads_iff hsource h, hd]
  constructor
  · rintro ⟨hnode, hne, hface, hname, hmetric⟩
    have hlt : d.cost.toNat < 65535 := hd ▸ (h.path_of_face hsource (hd ▸ hface)).1
    refine ⟨hnode, hne, hname, ⟨hface, ?_⟩, hmetric⟩
    show d.cost.toNat = r.metric.toInt64.toUInt64.toNat
    rw [show r.metric = d.cost.toInt32 from hmetric, toNat_metric (by omega)]
  · rintro ⟨hnode, hne, hname, ⟨hface, -⟩, hmetric⟩
    exact ⟨hnode, hne, hface, hname, hmetric⟩

/-- What the search finds gives a route for each name. -/
theorem exists_route_of_leads {v c : ℕ} (hsource : some source ∈ g.nodeList) (hne : v ≠ source)
    (hname : name ∈ g.localPrefixes v)
    (hleads : Leads g dijkstra_shortest_paths source face v c) :
    ∃ entry ∈ dijkstra_shortest_paths g source, entry.1 = v ∧
      ∃ r ∈ routesTo g source entry, r.isFor source name face = true := by
  have h := hsearched source hsource
  obtain ⟨⟨path, hpath, -⟩, -⟩ := hleads.1
  obtain ⟨hface, -⟩ := (leads_iff hsource h).mp hleads
  refine ⟨(v, (dijkstra_shortest_paths g source).get v), ?_, rfl,
    ⟨source, name, face, ((dijkstra_shortest_paths g source).get v).cost.toInt32⟩, ?_,
    isFor_iff.mpr ⟨rfl, rfl, rfl⟩⟩
  · rw [mem_distances h.nodup, h.mem_iff]
    exact ⟨mem_of_walk hsource hpath, rfl⟩
  · exact mem_routesTo.mpr ⟨rfl, hne, hface, hname, rfl⟩

/-- **The last route for a face** is to the largest origin that is found through it. -/
theorem last_routes
    (hordered : ∀ source,
      (dijkstra_shortest_paths g source).Pairwise fun entry entry' => entry.1 < entry'.1)
    (hr : ((routes g dijkstra_shortest_paths).filter
      (Route.isFor source name face)).getLast? = some r) :
    ∃ v, v ≠ source ∧ name ∈ g.localPrefixes v ∧
      Leads g dijkstra_shortest_paths source face v r.nextHop.cost.toNat ∧
      ∀ v' c', v' ≠ source → name ∈ g.localPrefixes v' →
        Leads g dijkstra_shortest_paths source face v' c' → v' ≤ v := by
  -- all routes for the face are from the search of the node
  unfold routes at hr
  rw [filter_flatMap, getLast?_flatMap] at hr
  obtain ⟨source', hsource, hr⟩ := exists_of_findSome?_eq_some hr
  have hsource : some source' ∈ g.nodeList := by
    obtain ⟨_, hmem, rfl⟩ := mem_filterMap.mp (mem_reverse.mp hsource)
    exact hmem
  obtain ⟨⟨v, d⟩, hdist, hmem, hfor, hlast⟩ := exists_last_entry (hordered source') hr
  obtain ⟨hnode', hne, hlocal, hleads, -⟩ := (mem_routesTo_iff hsearched hsource hdist).mp hmem
  obtain ⟨hnode, rfl, rfl⟩ := isFor_iff.mp hfor
  obtain rfl : source' = source := hnode'.symm.trans hnode
  refine ⟨v, hne, hlocal, hleads, fun v' c' hne' hlocal' hleads' => ?_⟩
  obtain ⟨entry', hentry', rfl, r', hr', hfor'⟩ :=
    exists_route_of_leads hsearched hsource hne' hlocal' hleads'
  exact hlast entry' hentry' r' hr' hfor'

/-- A prefix of a node that can be reached has a last route. -/
theorem exists_last_route {v c : ℕ} (hsource : some source ∈ g.nodeList) (hne : v ≠ source)
    (hname : name ∈ g.localPrefixes v)
    (hleads : Leads g dijkstra_shortest_paths source face v c) :
    ∃ r, ((routes g dijkstra_shortest_paths).filter
      (Route.isFor source name face)).getLast? = some r := by
  obtain ⟨entry, hentry, -, r, hr, hfor⟩ :=
    exists_route_of_leads hsearched hsource hne hname hleads
  have hall : r ∈ routes g dijkstra_shortest_paths :=
    mem_flatMap.mpr ⟨source, mem_filterMap.mpr ⟨some source, hsource, rfl⟩,
      mem_flatMap.mpr ⟨entry, hentry, hr⟩⟩
  refine Option.ne_none_iff_exists'.mp ?_
  rw [ne_eq, getLast?_eq_none_iff]
  exact ne_nil_of_mem (mem_filter.mpr ⟨hall, hfor⟩)

end Calculated

/-- The nodes 1, 2 and 3; the face `10 * a + b` of `a` leads to `b`. -/
def chainIncidencies : ℕ → List Incidency
  | 1 => [⟨some 12, 2⟩]
  | 2 => [⟨some 21, 1⟩, ⟨some 23, 3⟩]
  | 3 => [⟨some 32, 2⟩]
  | _ => []

/-- The name that the node 3 is the origin of. -/
def chainName : Name := [⟨8, [0x61]⟩]

def chain (metric : UInt64) (hmetric : metric.toNat < 2 ^ 16) : Topology where
  nodeList := [some 1, some 2, none, some 3]
  channelList := []
  incidencies := chainIncidencies
  localPrefixes router := if router = 3 then [chainName] else []
  metric _ := metric
  metric_lt _ := hmetric
  face_ne_none := by
    intro node hnode
    simp only [mem_cons, Option.some.injEq, reduceCtorEq, not_mem_nil, or_false,
      false_or] at hnode
    obtain rfl | rfl | rfl := hnode <;> decide
  target_mem := by
    intro node hnode
    simp only [append_nil, mem_cons, Option.some.injEq, reduceCtorEq, not_mem_nil,
      or_false, false_or] at hnode
    obtain rfl | rfl | rfl := hnode <;> decide

theorem incidency_12 : ⟨some 12, 2⟩ ∈ chainIncidencies 1 := by decide

theorem incidency_21 : ⟨some 21, 1⟩ ∈ chainIncidencies 2 := by decide

theorem incidency_23 : ⟨some 23, 3⟩ ∈ chainIncidencies 2 := by decide

theorem incidency_32 : ⟨some 32, 2⟩ ∈ chainIncidencies 3 := by decide

theorem walk_chain {metric : UInt64} {hmetric : metric.toNat < 2 ^ 16} :
    Walk (chain metric hmetric).digraph 1 3 [⟨some 12, 2⟩, ⟨some 23, 3⟩] := by
  have hone : Walk (chain metric hmetric).digraph 1 1 [] := .nil
  have htwo : Walk (chain metric hmetric).digraph 1 2 [⟨some 12, 2⟩] :=
    hone.snoc incidency_12
  exact htwo.snoc incidency_23

/-- What a search leaves of the row, from what it leaves of each node. -/
theorem searched_of_three {g : Topology} {source : ℕ} {distances : DistancesMap}
    (hvertices : g.vertices = [1, 2, 3]) (hkeys : distances.map Prod.fst = [1, 2, 3])
    (hzero : distances.get source = WeightZero.toDistance)
    (hone : distances.get 1 = WeightInf.toDistance ∨ Tree g source distances 1)
    (htwo : distances.get 2 = WeightInf.toDistance ∨ Tree g source distances 2)
    (hthree : distances.get 3 = WeightInf.toDistance ∨ Tree g source distances 3)
    (hrelaxed : ∀ u ∈ g.vertices, ∀ edge ∈ g.incidencies u,
      WeightCompare (WeightCombine (distances.get u) (g.edgeWeight edge))
        (distances.get edge.target) = false) :
    Searched g source distances where
  nodup := by
    rw [hkeys]
    decide
  mem_iff v := by rw [hkeys, hvertices]
  zero := hzero
  tree := by
    rw [hvertices]
    exact forall_mem_cons.mpr ⟨hone, forall_mem_cons.mpr ⟨htwo, forall_mem_singleton.mpr hthree⟩⟩
  relaxed := hrelaxed

/-- What the search leaves when both links have the metric 5. -/
def nearDistances : ℕ → DistancesMap
  | 1 => [(1, ⟨none, 0⟩), (2, ⟨some 12, 5⟩), (3, ⟨some 12, 10⟩)]
  | 2 => [(1, ⟨some 21, 5⟩), (2, ⟨none, 0⟩), (3, ⟨some 23, 5⟩)]
  | 3 => [(1, ⟨some 32, 10⟩), (2, ⟨some 32, 5⟩), (3, ⟨none, 0⟩)]
  | _ => []

def nearChain : Topology := chain 5 (by decide)

theorem searched_nearChain (source : ℕ) (hsource : some source ∈ nearChain.nodeList) :
    Searched nearChain source (nearDistances source) := by
  have hcases : source = 1 ∨ source = 2 ∨ source = 3 := by
    simpa [nearChain, chain] using hsource
  rcases hcases with rfl | rfl | rfl
  · have hone : Tree nearChain 1 (nearDistances 1) 1 := .source
    have htwo := hone.edge incidency_12 (by decide) (by decide)
    have hthree := htwo.edge incidency_23 (by decide) (by decide)
    exact searched_of_three rfl rfl rfl (.inr hone) (.inr htwo) (.inr hthree) (by decide)
  · have htwo : Tree nearChain 2 (nearDistances 2) 2 := .source
    have hone := htwo.edge incidency_21 (by decide) (by decide)
    have hthree := htwo.edge incidency_23 (by decide) (by decide)
    exact searched_of_three rfl rfl rfl (.inr hone) (.inr htwo) (.inr hthree) (by decide)
  · have hthree : Tree nearChain 3 (nearDistances 3) 3 := .source
    have htwo := hthree.edge incidency_32 (by decide) (by decide)
    have hone := htwo.edge incidency_21 (by decide) (by decide)
    exact searched_of_three rfl rfl rfl (.inr hone) (.inr htwo) (.inr hthree) (by decide)

theorem nearDistances_pairwise (source : ℕ) :
    (nearDistances source).Pairwise fun entry entry' => entry.1 < entry'.1 := by
  unfold nearDistances
  split <;> simp

/-- What the search leaves when both links have the metric 40000. -/
def farDistances : ℕ → DistancesMap
  | 1 => [(1, ⟨none, 0⟩), (2, ⟨some 12, 40000⟩), (3, ⟨none, 65535⟩)]
  | 2 => [(1, ⟨some 21, 40000⟩), (2, ⟨none, 0⟩), (3, ⟨some 23, 40000⟩)]
  | 3 => [(1, ⟨none, 65535⟩), (2, ⟨some 32, 40000⟩), (3, ⟨none, 0⟩)]
  | _ => []

def farChain : Topology := chain 40000 (by decide)

theorem searched_farChain (source : ℕ) (hsource : some source ∈ farChain.nodeList) :
    Searched farChain source (farDistances source) := by
  have hcases : source = 1 ∨ source = 2 ∨ source = 3 := by
    simpa [farChain, chain] using hsource
  rcases hcases with rfl | rfl | rfl
  · have hone : Tree farChain 1 (farDistances 1) 1 := .source
    have htwo := hone.edge incidency_12 (by decide) (by decide)
    exact searched_of_three rfl rfl rfl (.inr hone) (.inr htwo) (.inl rfl) (by decide)
  · have htwo : Tree farChain 2 (farDistances 2) 2 := .source
    have hone := htwo.edge incidency_21 (by decide) (by decide)
    have hthree := htwo.edge incidency_23 (by decide) (by decide)
    exact searched_of_three rfl rfl rfl (.inr hone) (.inr htwo) (.inr hthree) (by decide)
  · have hthree : Tree farChain 3 (farDistances 3) 3 := .source
    have htwo := hthree.edge incidency_32 (by decide) (by decide)
    exact searched_of_three rfl rfl rfl (.inl rfl) (.inr htwo) (.inr hthree) (by decide)

end Routes

end Ns3Joined.Helper
