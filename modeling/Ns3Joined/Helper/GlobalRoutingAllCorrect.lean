import Mathlib
import Ns3Joined.Helper.GlobalRoutingCorrect

/-!
# All possible routes of global routing

A search of `CalculateAllPossibleRoutes` runs with the other faces of the node at 65534. It leaves
a distance through the enabled face to whatever is less than 65534 away, to some of what is just
as far, and to nothing behind that (`Found`). A next hop holds one cost, so of the origins of a
name that are found the last in the map, which is ordered by the routers, gives the route: it has
the least cost if this origin is one of the nearest. Names of more than 32 components get no route.
-/

namespace Ns3Joined.Helper

open List
open ShortestWalks (cost cost_snoc)

open Ndn (Name)
open ShortestWalks (Walk)

/-! ### Paths through a face -/

/-- A path through the face that does not return to the node. -/
structure Via (n : Network) (source face v : ℕ) (path : List Incidency) : Prop where
  walk : Walk n.digraph source v path
  head : path.head?.bind Incidency.face = some face
  target_ne : ∀ edge ∈ path, edge.target ≠ source

def LeastVia (n : Network) (source face v c : ℕ) : Prop :=
  (∃ path, Via n source face v path ∧ cost n.digraph path = c) ∧
  ∀ path, Via n source face v path → c ≤ cost n.digraph path

/-- The least cost of a path through the face to an origin of the name. -/
def Nearest (n : Network) (source face : ℕ) (name : Name) (c : ℕ) : Prop :=
  (∃ v path, name ∈ n.localPrefixes v ∧ Via n source face v path ∧
    cost n.digraph path = c) ∧
  ∀ v path, name ∈ n.localPrefixes v → Via n source face v path →
    c ≤ cost n.digraph path

/-- What `CalculateAllPossibleRoutes` should do to the routes and to the metrics. The first edge
of a path has a face of the node, of a network device. -/
structure AllRight (n : Network) (fib : Fib) (s : Topology × Fib) : Prop where
  least : ∀ source face name c, some source ∈ n.nodeList → Nearest n source face name c →
    ∃ nextHop ∈ s.2 source name, nextHop.face = face ∧ nextHop.cost.toNat = c
  reachable : ∀ source name, ∀ nextHop ∈ s.2 source name, nextHop ∈ fib source name ∨
    ∃ v path, name ∈ n.localPrefixes v ∧ Via n source nextHop.face v path
  metric : ∀ face, s.1.metric face = n.metric face

/-- The topology of a search: the other faces of the node are disabled. -/
def Network.enablingOnly (n : Network) (source face : ℕ) : Topology where
  __ := n.toTopology
  metric other :=
    if other ∈ n.faceTable source ∧ other ≠ face then disabledMetric.toUInt64 else n.metric other
  metric_lt := by
    intro other
    split_ifs
    · exact disabledMetric.toNat_lt
    · exact n.metric_lt other

/-- The search leaves the least distance through the face: it is less than the metric of a
disabled face, or just as much and not lost to a path through one. -/
def Found (n : Network) (dijkstra_shortest_paths : Topology → ℕ → DistancesMap)
    (source face v c : ℕ) : Prop :=
  LeastVia n source face v c ∧
    (c < 65534 ∨ c = 65534 ∧
      ((dijkstra_shortest_paths (n.enablingOnly source face) source).get v).face = some face)

/-! ### Metrics -/

section Metrics

variable {g : Topology} {face face' : ℕ} {metric metric' : UInt16} {faces : List ℕ}
  {originalMetrics : List (ℕ × UInt16)}

theorem setMetric_self : g.setMetric face (g.metric face).toUInt16 = g := by
  have hback : (g.metric face).toUInt16.toUInt64 = g.metric face := by
    rw [← UInt64.toNat_inj, UInt16.toNat_toUInt64, UInt64.toNat_toUInt16]
    exact Nat.mod_eq_of_lt (g.metric_lt face)
  unfold Topology.setMetric
  congr
  rw [hback]
  exact Function.update_eq_self face g.metric

theorem setMetric_setMetric : (g.setMetric face metric).setMetric face metric' =
    g.setMetric face metric' := by
  unfold Topology.setMetric
  congr 1
  exact Function.update_idem _ _ _

/-- Metrics of different faces are set in any order. -/
theorem setMetric_comm (hne : face ≠ face') :
    (g.setMetric face metric).setMetric face' metric' =
      (g.setMetric face' metric').setMetric face metric := by
  unfold Topology.setMetric
  congr 1
  exact Function.update_comm hne _ _ _

/-- The topology with faces disabled. -/
def Topology.disabling (g : Topology) (faces : List ℕ) : Topology :=
  faces.foldl (fun g face => g.setMetric face disabledMetric) g

/-- Faces that are disabled have the metric for it. -/
theorem disabling_metric : (g.disabling faces).metric face =
    if face ∈ faces then disabledMetric.toUInt64 else g.metric face := by
  induction faces generalizing g with
  | nil => rfl
  | cons first faces ih =>
    show ((g.setMetric first disabledMetric).disabling faces).metric face = _
    rw [ih]
    show (if face ∈ faces then disabledMetric.toUInt64
      else Function.update g.metric first disabledMetric.toUInt64 face) = _
    rw [Function.update_apply]
    split_ifs <;> simp_all

theorem disabling_setMetric (hface : face ∉ faces) :
    (g.disabling faces).setMetric face metric = (g.setMetric face metric).disabling faces := by
  induction faces generalizing g with
  | nil => rfl
  | cons first faces ih =>
    obtain ⟨hne, hface⟩ := not_or.mp (mt mem_cons.mpr hface)
    show ((g.setMetric first disabledMetric).disabling faces).setMetric face metric =
      ((g.setMetric face metric).setMetric first disabledMetric).disabling faces
    rw [ih hface, setMetric_comm hne]

/-- The loop that disables the faces remembers the metrics they had before it. -/
theorem disableFaces_eq (hnodup : faces.Nodup) :
    disableFaces g originalMetrics faces = (g.disabling faces,
      originalMetrics ++ faces.map fun face => (face, (g.metric face).toUInt16)) := by
  induction faces generalizing g originalMetrics with
  | nil => simp [disableFaces, Topology.disabling]
  | cons first faces ih =>
    obtain ⟨hnew, hnodup⟩ := nodup_cons.mp hnodup
    have hsame : ∀ face ∈ faces, (g.setMetric first disabledMetric).metric face =
        g.metric face := by
      intro face hface
      exact Function.update_of_ne (ne_of_mem_of_not_mem hface hnew) _ _
    show disableFaces (g.setMetric first disabledMetric) _ faces = _
    rw [ih hnodup, append_assoc, map_congr_left fun face hface => by rw [hsame face hface]]
    rfl

/-- The metrics that were remembered undo it. -/
theorem restore_disabling (hnodup : faces.Nodup) :
    (faces.map fun face => (face, (g.metric face).toUInt16)).foldl
      (fun g metric => g.setMetric metric.1 metric.2) (g.disabling faces) = g := by
  suffices h : ∀ (g' : Topology) (original : ℕ → UInt16), (∀ face ∈ faces,
      g'.setMetric face (original face) = g') →
      (faces.map fun face => (face, original face)).foldl
        (fun g metric => g.setMetric metric.1 metric.2) (g'.disabling faces) = g' from
    h g _ fun face _ => setMetric_self
  intro g' original hself
  induction faces with
  | nil => rfl
  | cons first faces ih =>
    obtain ⟨hnew, hnodup⟩ := nodup_cons.mp hnodup
    obtain ⟨hfirst, hself⟩ := forall_mem_cons.mp hself
    show (faces.map fun face => (face, original face)).foldl
      (fun g metric => g.setMetric metric.1 metric.2)
      (((g'.setMetric first disabledMetric).disabling faces).setMetric first (original first)) = g'
    rw [disabling_setMetric hnew, setMetric_setMetric, hfirst]
    exact ih hnodup hself

/-- A topology is known by its parts. -/
theorem Topology.eq_of_metric {g' : Topology} (hnode : g.nodeList = g'.nodeList)
    (hchannel : g.channelList = g'.channelList) (hedge : g.incidencies = g'.incidencies)
    (hpre : g.localPrefixes = g'.localPrefixes) (hmetric : g.metric = g'.metric) : g = g' := by
  cases g
  cases g'
  simp_all

/-- One face of a node is enabled, and all its others are disabled. -/
theorem enablingOnly_eq {n : Network} {source : ℕ} :
    ((n.disabling (n.faceTable source)).setMetric face (n.metric face).toUInt16) =
      n.enablingOnly source face := by
  have hwiring : ∀ (faces : List ℕ) (g : Topology), (g.disabling faces).nodeList = g.nodeList ∧
      (g.disabling faces).channelList = g.channelList ∧
      (g.disabling faces).incidencies = g.incidencies ∧
      (g.disabling faces).localPrefixes = g.localPrefixes := by
    intro faces
    induction faces with
    | nil => exact fun g => ⟨rfl, rfl, rfl, rfl⟩
    | cons first faces ih => exact fun g => ih (g.setMetric first disabledMetric)
  obtain ⟨hnode, hchannel, hedge, hpre⟩ := hwiring (n.faceTable source) n.toTopology
  refine Topology.eq_of_metric hnode hchannel hedge hpre ?_
  funext other
  show Function.update (n.disabling (n.faceTable source)).metric face
    (n.metric face).toUInt16.toUInt64 other = if _ then _ else _
  by_cases hother : other = face
  · subst hother
    rw [Function.update_self, if_neg fun h => h.2 rfl]
    rw [← UInt64.toNat_inj, UInt16.toNat_toUInt64, UInt64.toNat_toUInt16]
    exact Nat.mod_eq_of_lt (n.metric_lt other)
  · rw [Function.update_of_ne hother, disabling_metric]
    simp [hother]

end Metrics

/-! ### What a search finds -/

section Search

variable {n : Network} {source face v c : ℕ} {path : List Incidency} {distances : DistancesMap}

/-- The weight of an edge of the face that is enabled stays. -/
theorem enablingOnly_weight {edge : Incidency}
    (hedge : edge.face = some face ∨ ∀ other, edge.face = some other → other ∉ n.faceTable source) :
    (n.enablingOnly source face).digraph.weight edge = n.digraph.weight edge := by
  obtain ⟨_ | other, target⟩ := edge
  · rfl
  · have hkept : ¬ (other ∈ n.faceTable source ∧ other ≠ face) := by
      rintro ⟨hmem, hne⟩
      rcases hedge with hsame | hnot
      · exact hne (Option.some.inj hsame)
      · exact hnot other rfl hmem
    show (if other ∈ n.faceTable source ∧ other ≠ face then disabledMetric.toUInt64
      else n.metric other).toNat = _
    rw [if_neg hkept]
    rfl

/-- The edges of the other faces of the node get the weight of disabled ones. -/
theorem enablingOnly_weight_of_ne {edge : Incidency} {other : ℕ} (hface : edge.face = some other)
    (hmem : other ∈ n.faceTable source) (hne : other ≠ face) :
    (n.enablingOnly source face).digraph.weight edge = 65534 := by
  obtain ⟨edgeFace, target⟩ := edge
  obtain rfl : edgeFace = some other := hface
  show (if other ∈ n.faceTable source ∧ other ≠ face then disabledMetric.toUInt64
    else n.metric other).toNat = 65534
  rw [if_pos ⟨hmem, hne⟩]
  rfl

variable (hsource : some source ∈ n.nodeList)

include hsource

/-- Disabling the other faces does not change the cost of a path that starts with the face and does
not return to the node. -/
theorem cost_enablingOnly (hwalk : Walk n.digraph source v path)
    (hhead : ∀ first, path.head? = some first → first.face = some face)
    (htarget : ∀ edge ∈ path, edge.target ≠ source) :
    cost (n.enablingOnly source face).digraph path =
      cost n.digraph path := by
  induction hwalk with
  | nil => rfl
  | @snoc u path edge hwalk hedge ih =>
    have hold := ih (fun first hfirst => hhead first (by rw [head?_append, hfirst]; rfl))
      (fun edge hedge => htarget edge (mem_append_left _ hedge))
    have hweight : (n.enablingOnly source face).digraph.weight edge = n.digraph.weight edge := by
      apply enablingOnly_weight
      by_cases hnil : path = []
      · subst hnil
        exact .inl (hhead edge rfl)
      · -- the path has left the node
        obtain ⟨last, hlast, rfl⟩ := hwalk.exists_target hnil
        exact .inr (n.not_mem_faceTable source hsource _ (htarget last (mem_append_left _ hlast))
          (mem_vertices.mp (mem_of_walk hsource hwalk)) edge hedge)
    rw [cost_snoc, cost_snoc, hold, hweight]

/-- A way via the face costs the same when the other faces are disabled. -/
theorem Via.cost_eq (h : Via n source face v path) :
    cost (n.enablingOnly source face).digraph path =
      cost n.digraph path := by
  refine cost_enablingOnly hsource h.walk ?_ h.target_ne
  intro first hfirst
  have hhead := h.head
  rw [hfirst] at hhead
  exact hhead

/-- It begins at a face of the node. -/
theorem Via.face_mem (h : Via n source face v path) :
    face ∈ n.faceTable source ∧ n.isNetDevice face = true := by
  match path, h.head, h.walk with
  | first :: _, hhead, hwalk =>
    exact n.mem_faceTable source hsource first (hwalk.head_mem rfl) face hhead

theorem Via.mem_vertices (h : Via n source face v path) : v ∈ n.vertices :=
  mem_of_walk hsource h.walk

variable (h : Searched (n.enablingOnly source face) source distances)

include h

/-- What the search finds costs no more than any way via the face. -/
theorem Searched.le_via (hvia : Via n source face v path) :
    (distances.get v).cost.toNat ≤ cost n.digraph path := by
  rw [← hvia.cost_eq hsource]
  exact h.le_cost hsource hvia.walk.of_weight

/-- A distance through the face is the least of a path through it. -/
theorem Searched.via_of_face (hface : (distances.get v).face = some face) :
    LeastVia n source face v (distances.get v).cost.toNat ∧
      (distances.get v).cost.toNat < 65535 := by
  obtain ⟨hlt, path, hpath, hcost, hhead, htarget⟩ :=
    h.path_of_face (g := n.enablingOnly source face) hsource hface
  have hvia : Via n source face v path := ⟨hpath.of_weight, hhead, htarget⟩
  rw [hvia.cost_eq hsource] at hcost
  exact ⟨⟨⟨path, hvia, hcost⟩, fun path' hvia' => h.le_via hsource hvia'⟩, hlt⟩

/-- The face of a distance is one of the node. -/
theorem Searched.face_mem {other : ℕ} (hface : (distances.get v).face = some other) :
    other ∈ n.faceTable source := by
  obtain ⟨-, path, hpath, -, hhead, -⟩ :=
    h.path_of_face (g := n.enablingOnly source face) hsource hface
  match path, hhead, hpath with
  | first :: rest, hhead, hpath =>
    have hedge : first ∈ n.incidencies source := hpath.head_mem rfl
    exact (n.mem_faceTable source hsource first hedge other hhead).1

/-- What is less than the metric of a disabled face away has a distance through the face. -/
theorem Searched.face_of_lt (hvia : Via n source face v path)
    (hlt : cost n.digraph path < 65534) : (distances.get v).face = some face := by
  have hle := h.le_via hsource hvia
  rcases h.tree v (hvia.mem_vertices hsource) with hinf | htree
  · have hcost : (distances.get v).cost.toNat = 65535 := by
      rw [hinf]
      rfl
    omega
  · obtain ⟨-, path', hpath', hcost', hhead', -⟩ :=
      htree.exists_path (g := n.enablingOnly source face) hsource h
    match path', hpath' with
    | [], hpath' =>
      -- the path through the face has left the node for good
      have hne : path ≠ [] := by
        rintro rfl
        cases hvia.head
      obtain ⟨last, hlast, htarget⟩ := hvia.walk.exists_target hne
      exact absurd (htarget.trans hpath'.eq_of_nil) (hvia.target_ne last hlast)
    | first :: rest, hpath' =>
      have hedge : first ∈ n.incidencies source := hpath'.head_mem rfl
      obtain ⟨other, hother⟩ := Option.ne_none_iff_exists'.mp
        (n.face_ne_none source hsource first hedge)
      rw [hhead']
      show first.face = some face
      rw [hother]
      by_contra hne
      have hdisabled : (n.enablingOnly source face).digraph.weight first = 65534 :=
        enablingOnly_weight_of_ne hother (n.mem_faceTable source hsource first hedge other hother).1
          fun heq => hne (congrArg some heq)
      have hsum : cost (n.enablingOnly source face).digraph (first :: rest) =
          (n.enablingOnly source face).digraph.weight first +
            cost (n.enablingOnly source face).digraph rest := rfl
      omega

end Search

/-- The search finds a node exactly if there is a way to it via the face. -/
theorem found_iff {n : Network} {dijkstra_shortest_paths : Topology → ℕ → DistancesMap}
    {source face v c : ℕ} (hsource : some source ∈ n.nodeList)
    (h : Searched (n.enablingOnly source face) source
      (dijkstra_shortest_paths (n.enablingOnly source face) source)) :
    Found n dijkstra_shortest_paths source face v c ↔
      ((dijkstra_shortest_paths (n.enablingOnly source face) source).get v).face = some face ∧
      ((dijkstra_shortest_paths (n.enablingOnly source face) source).get v).cost.toNat = c := by
  constructor
  · rintro ⟨⟨⟨path, hvia, hcost⟩, hle⟩, hbound⟩
    have hface : ((dijkstra_shortest_paths (n.enablingOnly source face) source).get v).face =
        some face := by
      rcases hbound with hlt | ⟨-, hface⟩
      · exact h.face_of_lt hsource hvia (hcost ▸ hlt)
      · exact hface
    obtain ⟨⟨⟨path', hvia', hcost'⟩, hle'⟩, -⟩ := h.via_of_face hsource hface
    refine ⟨hface, le_antisymm ?_ ?_⟩
    · exact hcost ▸ hle' path hvia
    · exact hcost' ▸ hle path' hvia'
  · rintro ⟨hface, rfl⟩
    obtain ⟨hleast, hlt⟩ := h.via_of_face hsource hface
    refine ⟨hleast, ?_⟩
    rcases Nat.lt_or_eq_of_le (Nat.le_of_lt_succ hlt) with hlt | heq
    · exact .inl hlt
    · exact .inr ⟨heq, hface⟩

/-! ### Routes -/

/-- The routes of a node to one router, but not through a disabled face. -/
def enabledRoutesTo (g : Topology) (source : ℕ) (dist : ℕ × Distance) : List Route :=
  (routesTo g source dist).filter fun r => g.metric r.face ≠ 65534

/-- The routes of one search. -/
def searchRoutes (n : Network) (dijkstra_shortest_paths : Topology → ℕ → DistancesMap)
    (source face : ℕ) : List Route :=
  (dijkstra_shortest_paths (n.enablingOnly source face) source).flatMap
    (enabledRoutesTo (n.enablingOnly source face) source)

def allRoutes (n : Network) (dijkstra_shortest_paths : Topology → ℕ → DistancesMap) :
    List Route :=
  (n.nodeList.filterMap id).flatMap fun source =>
    ((n.faceTable source).filter fun face => n.isNetDevice face).flatMap
      (searchRoutes n dijkstra_shortest_paths source)

section Routes

variable {n : Network} {dijkstra_shortest_paths : Topology → ℕ → DistancesMap} {fib : Fib}
  {source face node : ℕ} {name : Name} {r : Route} {rs : List Route} {nextHop : NextHop}

/-- The routes for a node are added one after the other. -/
theorem addEnabledRoutes_eq {g : Topology} :
    addEnabledRoutes g source =
      fun fib dist => (enabledRoutesTo g source dist).foldl Route.apply fib := by
  funext fib dist
  unfold addEnabledRoutes enabledRoutesTo routesTo
  split_ifs
  · rfl
  · match dist.2.face with
    | none => rfl
    | some face =>
      dsimp only
      rw [foldl_filter, foldl_map]
      congr 1
      funext fib name
      by_cases hmetric : g.metric face = 65534
      · simp [hmetric]
      · simp [hmetric, Route.apply]

theorem lookup_metrics {faces : List ℕ} {original : ℕ → UInt16} (hface : face ∈ faces) :
    (faces.map fun face => (face, original face)).lookup face = some (original face) := by
  induction faces with
  | nil => cases hface
  | cons first faces ih =>
    rw [map_cons, lookup_cons]
    split
    · next heq => rw [beq_iff_eq.mp heq]
    · next heq => exact ih ((mem_cons.mp hface).resolve_left (beq_eq_false_iff_ne.mp heq))

/-- **The loop over the faces** adds the routes of each search and leaves the faces disabled. -/
theorem enableFaces_eq {faces : List ℕ} (hfaces : ∀ face ∈ faces, face ∈ n.faceTable source) :
    enableFaces n.isNetDevice
        ((n.faceTable source).map fun face => (face, (n.metric face).toUInt16))
        dijkstra_shortest_paths source (n.disabling (n.faceTable source), fib) faces =
      (n.disabling (n.faceTable source),
        ((faces.filter fun face => n.isNetDevice face).flatMap
          (searchRoutes n dijkstra_shortest_paths source)).foldl Route.apply fib) := by
  induction faces generalizing fib with
  | nil => rfl
  | cons first faces ih =>
    obtain ⟨hfirst, hfaces⟩ := forall_mem_cons.mp hfaces
    unfold enableFaces
    split_ifs with hdevice
    · rw [ih hfaces, filter_cons_of_neg (by simp [hdevice])]
    · rw [filter_cons_of_pos (Bool.not_eq_false _ ▸ hdevice), flatMap_cons, foldl_append]
      dsimp only
      rw [lookup_metrics hfirst, Option.getD_some, enablingOnly_eq]
      -- the face is disabled again
      have hdisabled : (n.enablingOnly source first).setMetric first disabledMetric =
          n.disabling (n.faceTable source) := by
        have hmetric : ((n.disabling (n.faceTable source)).metric first).toUInt16 =
            disabledMetric := by
          rw [disabling_metric, if_pos hfirst]
          rfl
        have hself : (n.disabling (n.faceTable source)).setMetric first
            ((n.disabling (n.faceTable source)).metric first).toUInt16 =
            n.disabling (n.faceTable source) := setMetric_self
        rw [← enablingOnly_eq, setMetric_setMetric]
        rwa [hmetric] at hself
      rw [hdisabled, ih hfaces, addEnabledRoutes_eq, ← foldl_flatMap]
      rfl

/-- The routes from a node: for each of its faces, what the search gives. -/
theorem calculateFromNode_eq :
    calculateFromNode n dijkstra_shortest_paths (n.toTopology, fib) source =
      (n.toTopology, (((n.faceTable source).filter fun face => n.isNetDevice face).flatMap
        (searchRoutes n dijkstra_shortest_paths source)).foldl Route.apply fib) := by
  unfold calculateFromNode
  dsimp only
  rw [disableFaces_eq (n.nodup source), nil_append, enableFaces_eq fun _ hface => hface,
    restore_disabling (n.nodup source)]

/-- **`CalculateAllPossibleRoutes`** adds the routes of all searches one after the other, and the
metrics are what they were. -/
theorem calculateAllPossibleRoutes_eq :
    CalculateAllPossibleRoutes n dijkstra_shortest_paths fib =
      (n.toTopology, (allRoutes n dijkstra_shortest_paths).foldl Route.apply fib) := by
  unfold CalculateAllPossibleRoutes allRoutes
  generalize n.nodeList = nodes
  induction nodes generalizing fib with
  | nil => rfl
  | cons node nodes ih =>
    cases node with
    | none => exact ih
    | some source =>
      rw [foldl_cons]
      dsimp only
      rw [calculateFromNode_eq, ih, ← foldl_append]
      rfl

/-! ### The last route -/

section Searched

variable (hsource : some source ∈ n.nodeList) (hmetric : (n.metric face).toNat < 65534)
  (h : Searched (n.enablingOnly source face) source
    (dijkstra_shortest_paths (n.enablingOnly source face) source))

include hsource hmetric h

/-- The routes that a found distance gives. -/
theorem mem_enabledRoutesTo {v : ℕ} {d : Distance}
    (hdist : (v, d) ∈ dijkstra_shortest_paths (n.enablingOnly source face) source) :
    r ∈ enabledRoutesTo (n.enablingOnly source face) source (v, d) ↔
      r.node = source ∧ r.face = face ∧ r.name ∈ n.localPrefixes v ∧
        Found n dijkstra_shortest_paths source face v r.nextHop.cost.toNat ∧
        r.metric = d.cost.toInt32 := by
  obtain ⟨-, hd⟩ := (mem_distances h.nodup).mp hdist
  unfold enabledRoutesTo
  rw [mem_filter, mem_routesTo, decide_eq_true_iff, found_iff hsource h, hd]
  constructor
  · rintro ⟨⟨hnode, -, hface, hname, hcost⟩, henabled⟩
    -- only the face has another metric than that of a disabled one
    have hsame : r.face = face := by
      by_contra hne
      have hmem : r.face ∈ n.faceTable source := h.face_mem hsource (hd ▸ hface)
      exact henabled (if_pos ⟨hmem, hne⟩)
    rw [hsame] at hface
    have hlt : d.cost.toNat < 65535 := hd ▸ (h.via_of_face hsource (hd ▸ hface)).2
    refine ⟨hnode, hsame, hname, ⟨hface, ?_⟩, hcost⟩
    show d.cost.toNat = r.metric.toInt64.toUInt64.toNat
    rw [show r.metric = d.cost.toInt32 from hcost, toNat_metric (by omega)]
  · rintro ⟨hnode, rfl, hname, ⟨hface, -⟩, hcost⟩
    refine ⟨⟨hnode, ?_, hface, hname, hcost⟩, ?_⟩
    · rintro rfl
      have hzero := h.zero
      rw [hd] at hzero
      rw [hzero] at hface
      cases hface
    · intro hdisabled
      have heq : n.metric r.face = 65534 := by
        rw [← hdisabled]
        exact (if_neg fun hother => hother.2 rfl).symm
      rw [heq] at hmetric
      exact absurd hmetric (by decide)

/-- What is found has a route. -/
theorem exists_route_of_found {v c : ℕ} (hname : name ∈ n.localPrefixes v)
    (hfound : Found n dijkstra_shortest_paths source face v c) :
    ∃ d r, (v, d) ∈ dijkstra_shortest_paths (n.enablingOnly source face) source ∧
      r ∈ enabledRoutesTo (n.enablingOnly source face) source (v, d) ∧
      r.isFor source name face = true := by
  obtain ⟨⟨path, hvia, -⟩, -⟩ := hfound.1
  obtain ⟨hface, hcost⟩ := (found_iff hsource h).mp hfound
  have hlt := (h.via_of_face hsource hface).2
  generalize hd : (dijkstra_shortest_paths (n.enablingOnly source face) source).get v = d at *
  have hdist := (mem_distances h.nodup).mpr ⟨(h.mem_iff v).mpr (hvia.mem_vertices hsource), hd⟩
  let r : Route := ⟨source, name, face, d.cost.toInt32⟩
  have hr : r ∈ enabledRoutesTo (n.enablingOnly source face) source (v, d) := by
    refine (mem_enabledRoutesTo hsource hmetric h hdist).mpr ⟨rfl, rfl, hname, ?_, rfl⟩
    show Found n dijkstra_shortest_paths source face v d.cost.toInt32.toInt64.toUInt64.toNat
    rw [toNat_metric (by omega), hcost]
    exact hfound
  exact ⟨d, r, hdist, hr, isFor_iff.mpr ⟨rfl, rfl, rfl⟩⟩

/-- **The routes of a search** are for what it finds. -/
theorem searchRoutes_spec (hr : r ∈ searchRoutes n dijkstra_shortest_paths source face) :
    r.node = source ∧ r.face = face ∧ ∃ v, r.name ∈ n.localPrefixes v ∧
      Found n dijkstra_shortest_paths source face v r.nextHop.cost.toNat := by
  obtain ⟨⟨v, d⟩, hdist, hr⟩ := mem_flatMap.mp hr
  obtain ⟨hnode, hface, hname, hfound, -⟩ :=
    (mem_enabledRoutesTo hsource hmetric h hdist).mp hr
  exact ⟨hnode, hface, v, hname, hfound⟩

end Searched

section All

variable (hmetric : ∀ face, n.isNetDevice face = true → (n.metric face).toNat < 65534)
  (hsearched : ∀ source face, some source ∈ n.nodeList → face ∈ n.faceTable source →
    n.isNetDevice face = true → Searched (n.enablingOnly source face) source
      (dijkstra_shortest_paths (n.enablingOnly source face) source))
  (hordered : ∀ g source,
    (dijkstra_shortest_paths g source).Pairwise fun entry entry' => entry.1 < entry'.1)

/-- All routes come from a node, one of its faces and a search. -/
theorem mem_allRoutes :
    r ∈ allRoutes n dijkstra_shortest_paths ↔
      ∃ source face, some source ∈ n.nodeList ∧ face ∈ n.faceTable source ∧
        n.isNetDevice face = true ∧ r ∈ searchRoutes n dijkstra_shortest_paths source face := by
  unfold allRoutes
  simp only [mem_flatMap, mem_filterMap, id_eq, exists_eq_right, mem_filter]
  constructor
  · rintro ⟨source, hsource, face, ⟨hface, hdevice⟩, hr⟩
    exact ⟨source, face, hsource, hface, hdevice, hr⟩
  · rintro ⟨source, face, hsource, hface, hdevice, hr⟩
    exact ⟨source, hsource, face, ⟨hface, hdevice⟩, hr⟩

include hmetric hsearched

/-- A route says what was found. -/
theorem allRoutes_spec (hr : r ∈ allRoutes n dijkstra_shortest_paths) :
    some r.node ∈ n.nodeList ∧ r.face ∈ n.faceTable r.node ∧ n.isNetDevice r.face = true ∧
      ∃ v, r.name ∈ n.localPrefixes v ∧
        Found n dijkstra_shortest_paths r.node r.face v r.nextHop.cost.toNat := by
  obtain ⟨source, face, hsource, hface, hdevice, hr⟩ := mem_allRoutes.mp hr
  obtain ⟨rfl, rfl, v, hname, hfound⟩ := searchRoutes_spec hsource (hmetric face hdevice)
    (hsearched source face hsource hface hdevice) hr
  exact ⟨hsource, hface, hdevice, v, hname, hfound⟩

include hordered

/-- **The last route for a face** is to the last origin that is found. -/
theorem last_allRoutes
    (hr : ((allRoutes n dijkstra_shortest_paths).filter
      (Route.isFor source name face)).getLast? = some r) :
    ∃ v, name ∈ n.localPrefixes v ∧
      Found n dijkstra_shortest_paths source face v r.nextHop.cost.toNat ∧
      ∀ v' c', name ∈ n.localPrefixes v' → Found n dijkstra_shortest_paths source face v' c' →
        v' ≤ v := by
  -- all routes for the face are from one search
  unfold allRoutes at hr
  rw [filter_flatMap, getLast?_flatMap] at hr
  obtain ⟨source', hsource, hr⟩ := exists_of_findSome?_eq_some hr
  rw [filter_flatMap, getLast?_flatMap] at hr
  obtain ⟨face', hface, hr⟩ := exists_of_findSome?_eq_some hr
  obtain ⟨hface, hdevice⟩ := mem_filter.mp (mem_reverse.mp hface)
  have hsource : some source' ∈ n.nodeList := by
    obtain ⟨_, hmem, rfl⟩ := mem_filterMap.mp (mem_reverse.mp hsource)
    exact hmem
  have hsearch := hsearched source' face' hsource hface hdevice
  have hmetric' := hmetric face' hdevice
  obtain ⟨hmem, hfor⟩ := mem_filter.mp (mem_of_getLast? hr)
  obtain ⟨hnode', hface', -⟩ := searchRoutes_spec hsource hmetric' hsearch hmem
  obtain ⟨hnode, -, hsame⟩ := isFor_iff.mp hfor
  obtain rfl : source' = source := hnode'.symm.trans hnode
  obtain rfl : face' = face := hface'.symm.trans hsame
  unfold searchRoutes at hr
  obtain ⟨⟨v, d⟩, hdist, hmem, hfor, hlast⟩ := exists_last_entry (hordered _ source') hr
  obtain ⟨-, -, hlocal, hfound, -⟩ :=
    (mem_enabledRoutesTo hsource hmetric' hsearch hdist).mp hmem
  refine ⟨v, (isFor_iff.mp hfor).2.1 ▸ hlocal, hfound, fun v' c' hlocal' hfound' => ?_⟩
  obtain ⟨d', r', hdist', hr', hfor'⟩ :=
    exists_route_of_found hsource hmetric' hsearch hlocal' hfound'
  exact hlast (v', d') hdist' r' hr' hfor'

omit hordered in
/-- A prefix of a node that was found has a last route. -/
theorem exists_last {v c : ℕ} (hsource : some source ∈ n.nodeList)
    (hname : name ∈ n.localPrefixes v)
    (hfound : Found n dijkstra_shortest_paths source face v c) :
    ∃ r, ((allRoutes n dijkstra_shortest_paths).filter
      (Route.isFor source name face)).getLast? = some r := by
  obtain ⟨⟨path, hvia, -⟩, -⟩ := hfound.1
  obtain ⟨hface, hdevice⟩ := hvia.face_mem hsource
  obtain ⟨d, r, hdist, hr, hfor⟩ := exists_route_of_found hsource (hmetric face hdevice)
    (hsearched source face hsource hface hdevice) hname hfound
  have hall : r ∈ allRoutes n dijkstra_shortest_paths :=
    mem_allRoutes.mpr ⟨source, face, hsource, hface, hdevice, mem_flatMap.mpr ⟨_, hdist, hr⟩⟩
  refine Option.ne_none_iff_exists'.mp ?_
  rw [ne_eq, getLast?_eq_none_iff]
  exact ne_nil_of_mem (mem_filter.mpr ⟨hall, hfor⟩)

end All

end Routes

/-- A prefix that can be reached has a nearest origin. -/
theorem exists_nearest {n : Network} {source face v : ℕ} {name : Name} {path : List Incidency}
    (hname : name ∈ n.localPrefixes v) (hvia : Via n source face v path) :
    ∃ c, Nearest n source face name c := by
  classical
  have hex : ∃ c v path, name ∈ n.localPrefixes v ∧ Via n source face v path ∧
      cost n.digraph path = c := ⟨_, v, path, hname, hvia, rfl⟩
  refine ⟨Nat.find hex, Nat.find_spec hex, ?_⟩
  intro v' path' hname' hvia'
  exact Nat.find_min' hex ⟨v', path', hname', hvia', rfl⟩

/-- The face tables, with a face of an application at each node. -/
def chainFaces : ℕ → List ℕ
  | 1 => [10, 12]
  | 2 => [20, 21, 23]
  | 3 => [30, 32]
  | _ => []

def chainNetwork (metric : UInt64) (hmetric : metric.toNat < 2 ^ 16) : Network where
  __ := chain metric hmetric
  faceTable := chainFaces
  isNetDevice face := face % 10 ≠ 0
  nodup node := by
    unfold chainFaces
    split <;> decide
  mem_faceTable := by
    intro node hnode
    have hcases : node = 1 ∨ node = 2 ∨ node = 3 := by simpa [chain] using hnode
    obtain rfl | rfl | rfl := hcases <;> simp [chain, chainIncidencies, chainFaces]
  not_mem_faceTable := by
    intro node hnode router hne hrouter
    have hcases : node = 1 ∨ node = 2 ∨ node = 3 := by simpa [chain] using hnode
    have hcases' : router = 1 ∨ router = 2 ∨ router = 3 := by simpa [chain] using hrouter
    obtain rfl | rfl | rfl := hcases <;> obtain rfl | rfl | rfl := hcases' <;>
      simp_all [chain, chainIncidencies, chainFaces]

theorem via_chainNetwork {metric : UInt64} {hmetric : metric.toNat < 2 ^ 16} :
    Via (chainNetwork metric hmetric) 1 12 3 [⟨some 12, 2⟩, ⟨some 23, 3⟩] :=
  ⟨walk_chain, rfl, by decide⟩

/-- What the searches leave when the links have the metric; a node at an end of the row is at the
distance from the other one. -/
def chainSearch (metric : UInt32) (first last : Distance) (g : Topology) : ℕ → DistancesMap
  | 1 => [(1, ⟨none, 0⟩), (2, ⟨some 12, metric⟩), (3, last)]
  | 2 =>
    if g.metric 21 = 65534 then [(1, ⟨some 21, 65534⟩), (2, ⟨none, 0⟩), (3, ⟨some 23, metric⟩)]
    else [(1, ⟨some 21, metric⟩), (2, ⟨none, 0⟩), (3, ⟨some 23, 65534⟩)]
  | 3 => [(1, first), (2, ⟨some 32, metric⟩), (3, ⟨none, 0⟩)]
  | _ => []

theorem chainSearch_pairwise {metric : UInt32} {first last : Distance} {g : Topology}
    {source : ℕ} : (chainSearch metric first last g source).Pairwise
      fun entry entry' => entry.1 < entry'.1 := by
  unfold chainSearch
  split
  · simp
  · split_ifs <;> simp
  · simp
  · exact .nil

theorem chainNetwork_cases {metric : UInt64} {hmetric : metric.toNat < 2 ^ 16} {source face : ℕ}
    (hsource : some source ∈ (chainNetwork metric hmetric).nodeList)
    (hface : face ∈ (chainNetwork metric hmetric).faceTable source)
    (hdevice : (chainNetwork metric hmetric).isNetDevice face = true) :
    source = 1 ∧ face = 12 ∨ source = 2 ∧ face = 21 ∨ source = 2 ∧ face = 23 ∨
      source = 3 ∧ face = 32 := by
  have hcases : source = 1 ∨ source = 2 ∨ source = 3 := by
    simpa [chainNetwork, chain] using hsource
  obtain rfl | rfl | rfl := hcases
  all_goals
    simp only [chainNetwork, chainFaces, mem_cons, not_mem_nil, or_false] at hface
    simp only [chainNetwork, decide_eq_true_iff] at hdevice
    omega

theorem near_lt : UInt64.toNat 5 < 2 ^ 16 := by decide

def nearNetwork : Network := chainNetwork 5 near_lt

def nearSearch : Topology → ℕ → DistancesMap := chainSearch 5 ⟨some 32, 10⟩ ⟨some 12, 10⟩

theorem searched_nearNetwork (source face : ℕ) (hsource : some source ∈ nearNetwork.nodeList)
    (hface : face ∈ nearNetwork.faceTable source) (hdevice : nearNetwork.isNetDevice face = true) :
    Searched (nearNetwork.enablingOnly source face) source
      (nearSearch (nearNetwork.enablingOnly source face) source) := by
  obtain ⟨rfl, rfl⟩ | ⟨rfl, rfl⟩ | ⟨rfl, rfl⟩ | ⟨rfl, rfl⟩ :=
    chainNetwork_cases hsource hface hdevice
  · have hone : Tree (nearNetwork.enablingOnly 1 12) 1
        (nearSearch (nearNetwork.enablingOnly 1 12) 1) 1 := .source
    have htwo := hone.edge incidency_12 (by decide) (by decide)
    have hthree := htwo.edge incidency_23 (by decide) (by decide)
    exact searched_of_three rfl rfl rfl (.inr hone) (.inr htwo) (.inr hthree) (by decide)
  · have htwo : Tree (nearNetwork.enablingOnly 2 21) 2
        (nearSearch (nearNetwork.enablingOnly 2 21) 2) 2 := .source
    have hone := htwo.edge incidency_21 (by decide) (by decide)
    have hthree := htwo.edge incidency_23 (by decide) (by decide)
    exact searched_of_three rfl rfl rfl (.inr hone) (.inr htwo) (.inr hthree) (by decide)
  · have htwo : Tree (nearNetwork.enablingOnly 2 23) 2
        (nearSearch (nearNetwork.enablingOnly 2 23) 2) 2 := .source
    have hone := htwo.edge incidency_21 (by decide) (by decide)
    have hthree := htwo.edge incidency_23 (by decide) (by decide)
    exact searched_of_three rfl rfl rfl (.inr hone) (.inr htwo) (.inr hthree) (by decide)
  · have hthree : Tree (nearNetwork.enablingOnly 3 32) 3
        (nearSearch (nearNetwork.enablingOnly 3 32) 3) 3 := .source
    have htwo := hthree.edge incidency_32 (by decide) (by decide)
    have hone := htwo.edge incidency_21 (by decide) (by decide)
    exact searched_of_three rfl rfl rfl (.inr hone) (.inr htwo) (.inr hthree) (by decide)

theorem far_lt : UInt64.toNat 40000 < 2 ^ 16 := by decide

def farNetwork : Network := chainNetwork 40000 far_lt

def farSearch : Topology → ℕ → DistancesMap := chainSearch 40000 ⟨none, 65535⟩ ⟨none, 65535⟩

theorem searched_farNetwork (source face : ℕ) (hsource : some source ∈ farNetwork.nodeList)
    (hface : face ∈ farNetwork.faceTable source) (hdevice : farNetwork.isNetDevice face = true) :
    Searched (farNetwork.enablingOnly source face) source
      (farSearch (farNetwork.enablingOnly source face) source) := by
  obtain ⟨rfl, rfl⟩ | ⟨rfl, rfl⟩ | ⟨rfl, rfl⟩ | ⟨rfl, rfl⟩ :=
    chainNetwork_cases hsource hface hdevice
  · have hone : Tree (farNetwork.enablingOnly 1 12) 1
        (farSearch (farNetwork.enablingOnly 1 12) 1) 1 := .source
    have htwo := hone.edge incidency_12 (by decide) (by decide)
    exact searched_of_three rfl rfl rfl (.inr hone) (.inr htwo) (.inl rfl) (by decide)
  · have htwo : Tree (farNetwork.enablingOnly 2 21) 2
        (farSearch (farNetwork.enablingOnly 2 21) 2) 2 := .source
    have hone := htwo.edge incidency_21 (by decide) (by decide)
    have hthree := htwo.edge incidency_23 (by decide) (by decide)
    exact searched_of_three rfl rfl rfl (.inr hone) (.inr htwo) (.inr hthree) (by decide)
  · have htwo : Tree (farNetwork.enablingOnly 2 23) 2
        (farSearch (farNetwork.enablingOnly 2 23) 2) 2 := .source
    have hone := htwo.edge incidency_21 (by decide) (by decide)
    have hthree := htwo.edge incidency_23 (by decide) (by decide)
    exact searched_of_three rfl rfl rfl (.inr hone) (.inr htwo) (.inr hthree) (by decide)
  · have hthree : Tree (farNetwork.enablingOnly 3 32) 3
        (farSearch (farNetwork.enablingOnly 3 32) 3) 3 := .source
    have htwo := hthree.edge incidency_32 (by decide) (by decide)
    exact searched_of_three rfl rfl rfl (.inl rfl) (.inr htwo) (.inr hthree) (by decide)

end Ns3Joined.Helper
