import Mathlib.Data.UInt
import Ns3Joined.Library.ShortestWalks
import Ns3Joined.NdnCxx.Name

/-!
# Global routing

`GlobalRoutingHelper::CalculateRoutes` (`ndnSIM/helper/ndn-global-routing-helper.cpp`) and the
graph it gives to the Boost Graph Library (`boost-graph-ndn-global-routing-helper.hpp`). Every
node runs Dijkstra over tuples of a face, a cost and a delay, and adds a route for what it can
reach. A `GlobalRouter` and a `Face` are known by their addresses; the delay is always 0 and
only logged, so it is left out.

`dijkstra_shortest_paths` is not part of the repository: it is a parameter, `Searched` says what
it is documented to leave in the distance map.
-/

namespace Ns3Joined.Helper

open Ndn (Name)

/-! ### The topology -/

/-- An edge of a router: its face, which is null at a channel, and the router it leads to. -/
structure Incidency where
  face : Option ℕ
  target : ℕ
deriving DecidableEq, Repr

/-- Nodes and channels, each with its router if one is installed, wired as
`GlobalRoutingHelper::Install` does it: the edges of a node have faces, and both ends of an edge
are routers of the topology. -/
structure Topology where
  nodeList : List (Option ℕ)
  channelList : List (Option ℕ)
  incidencies : ℕ → List Incidency
  localPrefixes : ℕ → List Name
  metric : ℕ → UInt64
  metric_lt : ∀ face, (metric face).toNat < 2 ^ 16
  face_ne_none : ∀ node, some node ∈ nodeList → ∀ edge ∈ incidencies node, edge.face ≠ none
  target_mem : ∀ router, some router ∈ nodeList ++ channelList →
    ∀ edge ∈ incidencies router, some edge.target ∈ nodeList ++ channelList

/-- `GetVertices` of `NdnGlobalRouterGraph`. -/
def Topology.vertices (g : Topology) : List ℕ :=
  g.nodeList.filterMap id ++ g.channelList.filterMap id

/-! ### Weights and distances -/

structure EdgeWeight where
  face : Option ℕ
  metric : UInt16
deriving DecidableEq, Repr

structure Distance where
  face : Option ℕ
  cost : UInt32
deriving DecidableEq, Repr

def EdgeWeight.toDistance (w : EdgeWeight) : Distance := ⟨w.face, w.metric.toUInt32⟩

def WeightZero : EdgeWeight := ⟨none, 0⟩

def WeightInf : EdgeWeight := ⟨none, 65535⟩

def WeightCompare (a b : Distance) : Bool := a.cost < b.cost

def WeightCombine (a : Distance) (b : EdgeWeight) : Distance :=
  if a.face = none then ⟨b.face, a.cost + b.metric.toUInt32⟩
  else ⟨a.face, a.cost + b.metric.toUInt32⟩

/-- `get` of `EdgeWeights`. -/
def Topology.edgeWeight (g : Topology) (edge : Incidency) : EdgeWeight :=
  match edge.face with
  | none => ⟨none, 0⟩
  | some face => ⟨some face, (g.metric face).toUInt16⟩

/-- The map in iteration order. -/
abbrev DistancesMap := List (ℕ × Distance)

/-- `get` of `DistancesMap`. -/
def DistancesMap.get (distances : DistancesMap) (key : ℕ) : Distance :=
  (distances.lookup key).getD ⟨none, 0xffffffff⟩

/-! ### What the search leaves -/

/-- The tree of the edges that set a distance. -/
inductive Tree (g : Topology) (source : ℕ) (distances : DistancesMap) : ℕ → Prop
  | source : Tree g source distances source
  | edge {u : ℕ} {edge : Incidency} : Tree g source distances u → edge ∈ g.incidencies u →
      distances.get edge.target = WeightCombine (distances.get u) (g.edgeWeight edge) →
      WeightCompare (distances.get edge.target) WeightInf.toDistance →
      Tree g source distances edge.target

/-- What `dijkstra_shortest_paths` is documented to leave: a distance for every vertex, zero for
the source and otherwise infinity, or less along an edge of the tree; and no edge that would
give a smaller one. -/
structure Searched (g : Topology) (source : ℕ) (distances : DistancesMap) : Prop where
  nodup : (distances.map Prod.fst).Nodup
  mem_iff : ∀ v, v ∈ distances.map Prod.fst ↔ v ∈ g.vertices
  zero : distances.get source = WeightZero.toDistance
  tree : ∀ v ∈ g.vertices, distances.get v = WeightInf.toDistance ∨ Tree g source distances v
  relaxed : ∀ u ∈ g.vertices, ∀ edge ∈ g.incidencies u,
    WeightCompare (WeightCombine (distances.get u) (g.edgeWeight edge))
      (distances.get edge.target) = false

/-! ### Routes -/

structure NextHop where
  face : ℕ
  cost : UInt64
deriving DecidableEq, Repr

/-- The next hops of a name at a node. -/
abbrev Fib := ℕ → Name → List NextHop

/-- `fib::Entry::addOrUpdateNextHop`, up to the order. -/
def addOrUpdateNextHop (nextHops : List NextHop) (face : ℕ) (cost : UInt64) : List NextHop :=
  if face ∈ nextHops.map NextHop.face then
    nextHops.map fun nextHop =>
      if nextHop.face = face then { nextHop with cost := cost } else nextHop
  else nextHops ++ [⟨face, cost⟩]

/-- `Fib::getMaxDepth`. -/
def getMaxDepth : ℕ := 32

/-- `FibHelper::AddRoute`, with the command it sends: `FibManager::addNextHop` refuses a prefix that
is too long. -/
def AddRoute (fib : Fib) (node : ℕ) (pfx : Name) (face : ℕ) (metric : Int32) : Fib :=
  if pfx.length > getMaxDepth then fib
  else
    Function.update fib node
      (Function.update (fib node) pfx
        (addOrUpdateNextHop (fib node pfx) face metric.toInt64.toUInt64))

/-- The routes to one router. -/
def addRoutes (g : Topology) (source : ℕ) (fib : Fib) (dist : ℕ × Distance) : Fib :=
  if dist.1 = source then fib
  else
    match dist.2.face with
    | none => fib
    | some face =>
      (g.localPrefixes dist.1).foldl
        (fun fib pfx => AddRoute fib source pfx face dist.2.cost.toInt32) fib

/-- `CalculateRoutes`, on top of the routes there are. -/
def CalculateRoutes (g : Topology) (dijkstra_shortest_paths : Topology → ℕ → DistancesMap)
    (fib : Fib) : Fib :=
  g.nodeList.foldl
    (fun fib node =>
      match node with
      | none => fib
      | some source => (dijkstra_shortest_paths g source).foldl (addRoutes g source) fib) fib

/-! ### All possible routes -/

/-- A topology with the face tables of its nodes, by their routers. The faces that lead to other
routers are those of network devices, and every face is in the table of one node. -/
structure Network extends Topology where
  faceTable : ℕ → List ℕ
  isNetDevice : ℕ → Bool
  nodup : ∀ node, (faceTable node).Nodup
  mem_faceTable : ∀ node, some node ∈ nodeList → ∀ edge ∈ incidencies node,
    ∀ face, edge.face = some face → face ∈ faceTable node ∧ isNetDevice face = true
  not_mem_faceTable : ∀ node, some node ∈ nodeList → ∀ router, router ≠ node →
    some router ∈ nodeList ++ channelList → ∀ edge ∈ incidencies router,
    ∀ face, edge.face = some face → face ∉ faceTable node

/-- `setMetric`, of a face. All metrics that are set here have 16 bits. -/
def Topology.setMetric (g : Topology) (face : ℕ) (metric : UInt16) : Topology :=
  { g with
    metric := Function.update g.metric face metric.toUInt64
    metric_lt := by
      intro face'
      rw [Function.update_apply]
      split_ifs
      · exact metric.toNat_lt
      · exact g.metric_lt face' }

/-- The metric of a disabled face. -/
def disabledMetric : UInt16 := 65534

/-- The loop that remembers the metrics and disables the faces. -/
def disableFaces (g : Topology) (originalMetrics : List (ℕ × UInt16)) :
    List ℕ → Topology × List (ℕ × UInt16)
  | [] => (g, originalMetrics)
  | face :: faces =>
    disableFaces (g.setMetric face disabledMetric)
      (originalMetrics ++ [(face, (g.metric face).toUInt16)]) faces

/-- The routes to one router, but not through a disabled face. -/
def addEnabledRoutes (g : Topology) (source : ℕ) (fib : Fib) (dist : ℕ × Distance) : Fib :=
  if dist.1 = source then fib
  else
    match dist.2.face with
    | none => fib
    | some face =>
      (g.localPrefixes dist.1).foldl
        (fun fib pfx =>
          if g.metric face = 65534 then fib
          else AddRoute fib source pfx face dist.2.cost.toInt32) fib

/-- The loop over the faces of a node. -/
def enableFaces (isNetDevice : ℕ → Bool) (originalMetrics : List (ℕ × UInt16))
    (dijkstra_shortest_paths : Topology → ℕ → DistancesMap) (source : ℕ) :
    Topology × Fib → List ℕ → Topology × Fib
  | s, [] => s
  | s, face :: faces =>
    if isNetDevice face = false then
      enableFaces isNetDevice originalMetrics dijkstra_shortest_paths source s faces
    else
      let enabled := s.1.setMetric face ((originalMetrics.lookup face).getD 0)
      let fib := (dijkstra_shortest_paths enabled source).foldl
          (addEnabledRoutes enabled source) s.2
      enableFaces isNetDevice originalMetrics dijkstra_shortest_paths source
        (enabled.setMetric face disabledMetric, fib) faces

/-- What is done at a node. -/
def calculateFromNode (n : Network) (dijkstra_shortest_paths : Topology → ℕ → DistancesMap)
    (s : Topology × Fib) (source : ℕ) : Topology × Fib :=
  let disabled := disableFaces s.1 [] (n.faceTable source)
  let enabled := enableFaces n.isNetDevice disabled.2 dijkstra_shortest_paths source
    (disabled.1, s.2) (n.faceTable source)
  (disabled.2.foldl (fun g metric => g.setMetric metric.1 metric.2) enabled.1, enabled.2)

/-- `CalculateAllPossibleRoutes`, with the metrics that it leaves. -/
def CalculateAllPossibleRoutes (n : Network)
    (dijkstra_shortest_paths : Topology → ℕ → DistancesMap) (fib : Fib) : Topology × Fib :=
  n.nodeList.foldl
    (fun s node =>
      match node with
      | none => s
      | some source => calculateFromNode n dijkstra_shortest_paths s source) (n.toTopology, fib)

end Ns3Joined.Helper
