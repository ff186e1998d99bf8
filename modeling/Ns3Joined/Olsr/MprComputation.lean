import Mathlib.Data.Finset.Insert
import Mathlib.Data.List.Sort
import Ns3Joined.Library.GreedyCover
import Ns3Joined.Olsr.RoutingTable

/-!
# The multipoint relays of an OLSR node

`MprComputation` of `olsr-routing-protocol.cc`, with `CoverTwoHopNeighbors` and `Degree`: the
neighbors that a node selects to reach its two-hop neighbors.

The neighbor set is a list, of which nothing is assumed: `ProcessMid` writes the main addresses
of its tuples, so that two of them may get the same.
-/

namespace Ns3Joined.Olsr

def OLSR_WILL_NEVER : UInt8 := 0
def OLSR_WILL_ALWAYS : UInt8 := 7

def CoverTwoHopNeighbors (neighborMainAddr : Ipv4Address) (N2 : List TwoHopNeighborTuple) :
    List TwoHopNeighborTuple :=
  let toRemove := (N2.filter fun twoHopNeigh =>
    twoHopNeigh.neighborMainAddr = neighborMainAddr).map TwoHopNeighborTuple.twoHopNeighborAddr
  N2.filter fun twoHopNeigh => twoHopNeigh.twoHopNeighborAddr ∉ toRemove

namespace MprComputation

/-- `N`, the symmetric neighbors. -/
def symNeighbors (m_neighborSet : List NeighborTuple) : List NeighborTuple :=
  m_neighborSet.filter fun neighbor => neighbor.status = .STATUS_SYM

/-- The `ok` of the first loop over `N`, which ends at the first neighbor with the address. -/
def isWilling (N : List NeighborTuple) (neighborMainAddr : Ipv4Address) : Bool :=
  match N.find? fun neigh => neigh.neighborMainAddr = neighborMainAddr with
  | some neigh => neigh.willingness ≠ OLSR_WILL_NEVER
  | none => false

/-- `N2`, without the node itself, the nodes that are only reached through unwilling neighbors,
and the symmetric neighbors. -/
def strictTwoHopNeighbors (m_mainAddress : Ipv4Address) (N : List NeighborTuple)
    (m_twoHopNeighborSet : List TwoHopNeighborTuple) : List TwoHopNeighborTuple :=
  m_twoHopNeighborSet.filter fun twoHopNeigh =>
    twoHopNeigh.twoHopNeighborAddr ≠ m_mainAddress ∧
      isWilling N twoHopNeigh.neighborMainAddr = true ∧
      ∀ neigh ∈ N, neigh.neighborMainAddr ≠ twoHopNeigh.twoHopNeighborAddr

/-- The set that is computed, and the two-hop neighbors that are left. -/
structure Selection where
  mprSet : Finset Ipv4Address
  N2 : List TwoHopNeighborTuple

/-- A neighbor becomes an MPR, and what it reaches is covered. -/
def Selection.select (s : Selection) (neighborMainAddr : Ipv4Address) : Selection :=
  ⟨insert neighborMainAddr s.mprSet, CoverTwoHopNeighbors neighborMainAddr s.N2⟩

/-- Step 1. -/
def selectAlways (s : Selection) (N : List NeighborTuple) : Selection :=
  N.foldl (fun s neighbor =>
    if neighbor.willingness = OLSR_WILL_ALWAYS then s.select neighbor.neighborMainAddr else s) s

def onlyOne (N2 : List TwoHopNeighborTuple) (twoHopNeigh : TwoHopNeighborTuple) : Bool :=
  N2.all fun other => ¬ (other.twoHopNeighborAddr = twoHopNeigh.twoHopNeighborAddr ∧
    other.neighborMainAddr ≠ twoHopNeigh.neighborMainAddr)

/-- The loop of step 3, over all of `N2`: the MPRs, and `coveredTwoHopNeighbors`. -/
def selectOnly (N2 : List TwoHopNeighborTuple) (mprSet : Finset Ipv4Address) :
    Finset Ipv4Address × List Ipv4Address :=
  N2.foldl (fun s twoHopNeigh =>
    if onlyOne N2 twoHopNeigh then
      (insert twoHopNeigh.neighborMainAddr s.1,
        s.2 ++ (N2.filter fun other => other.neighborMainAddr = twoHopNeigh.neighborMainAddr).map
          TwoHopNeighborTuple.twoHopNeighborAddr)
    else s) (mprSet, [])

/-- Step 3. -/
def selectNecessary (s : Selection) : Selection :=
  let selected := selectOnly s.N2 s.mprSet
  ⟨selected.1, s.N2.filter fun twoHopNeigh => twoHopNeigh.twoHopNeighborAddr ∉ selected.2⟩

/-- The number of two-hop neighbors that are reached through a neighbor. -/
def reachabilityOf (N2 : List TwoHopNeighborTuple) (nb_tuple : NeighborTuple) : ℕ :=
  N2.countP fun nb2hop_tuple => nb_tuple.neighborMainAddr = nb2hop_tuple.neighborMainAddr

def Degree (s : Repositories) (tuple : NeighborTuple) : ℕ :=
  s.m_twoHopNeighborSet.countP fun nb2hop_tuple =>
    nb2hop_tuple.neighborMainAddr = tuple.neighborMainAddr ∧
      (s.FindNeighborTuple nb2hop_tuple.neighborMainAddr).isNone

/-- The neighbors in the order in which step 4.2 sees them: `reachability`, by `rs`. -/
def byReachability (N : List NeighborTuple) (N2 : List TwoHopNeighborTuple) :
    List (ℕ × NeighborTuple) :=
  let rs := (N.map (reachabilityOf N2)).dedup.insertionSort (· ≤ ·)
  rs.flatMap fun r => (N.filter fun nb_tuple => reachabilityOf N2 nb_tuple = r).map fun nb_tuple =>
    (r, nb_tuple)

/-- Whether the second neighbor takes the place of the first, `max` with `max_r`. -/
def isBetter (s : Repositories) (max nb_tuple : ℕ × NeighborTuple) : Bool :=
  nb_tuple.2.willingness > max.2.willingness ||
    (nb_tuple.2.willingness == max.2.willingness &&
      (decide (nb_tuple.1 > max.1) ||
        (nb_tuple.1 == max.1 && decide (Degree s nb_tuple.2 > Degree s max.2))))

/-- The loop of step 4.2. -/
def selectMax (s : Repositories) : Option (ℕ × NeighborTuple) → List (ℕ × NeighborTuple) →
    Option (ℕ × NeighborTuple)
  | max, [] => max
  | max, nb_tuple :: rest =>
    if nb_tuple.1 = 0 then selectMax s max rest
    else match max with
      | none => selectMax s (some nb_tuple) rest
      | some m => selectMax s (some (if isBetter s m nb_tuple then nb_tuple else m)) rest

/-- Step 4. -/
def selectRest (s : Repositories) (N : List NeighborTuple) :
    ℕ → Selection → Except Fault (Finset Ipv4Address)
  | 0, _ => .error .diverges
  | fuel + 1, selection =>
    match selection.N2 with
    | [] => .ok selection.mprSet
    | _ => match selectMax s none (byReachability N selection.N2) with
      | some max => selectRest s N fuel (selection.select max.2.neighborMainAddr)
      | none => selectRest s N fuel selection

end MprComputation

open MprComputation in
/-- `MprComputation`, the set that becomes the MPR set. Step 4 takes a two-hop neighbor away each
time. -/
def MprComputation (m_mainAddress : Ipv4Address) (s : Repositories) :
    Except Fault (Finset Ipv4Address) :=
  let N := symNeighbors s.m_neighborSet
  let N2 := strictTwoHopNeighbors m_mainAddress N s.m_twoHopNeighborSet
  let selection := selectNecessary (selectAlways ⟨∅, N2⟩ N)
  selectRest s N (N2.length + 1) selection

end Ns3Joined.Olsr

/-!
## The multipoint relays cover the two-hop neighbors

* `Correct`: the MPRs are symmetric and willing, all that are always willing are among them, and
  each strict two-hop neighbor is covered.
* `Reached`: where that is so. Step 2 of the source looks at the first symmetric neighbor with an
  address only, so that a neighbor that is in the set twice may be taken for unwilling.
* `Kept`: the invariant of the steps, over `GreedyCover`.
* `computes_iff`.
-/

namespace Ns3Joined.Olsr
namespace MprComputation

open GreedyCover List

variable {m_mainAddress : Ipv4Address} {s : Repositories}

/-! ### What is to be computed -/

def IsSymmetric (s : Repositories) (addr : Ipv4Address) : Prop :=
  ∃ neighbor ∈ s.m_neighborSet, neighbor.status = .STATUS_SYM ∧ neighbor.neighborMainAddr = addr

/-- A symmetric neighbor whose willingness is not `WILL_NEVER`. -/
def IsWilling (s : Repositories) (addr : Ipv4Address) : Prop :=
  ∃ neighbor ∈ s.m_neighborSet, neighbor.status = .STATUS_SYM ∧
    neighbor.neighborMainAddr = addr ∧ neighbor.willingness ≠ OLSR_WILL_NEVER

/-- A symmetric neighbor whose willingness is `WILL_ALWAYS`. -/
def IsAlways (s : Repositories) (addr : Ipv4Address) : Prop :=
  ∃ neighbor ∈ s.m_neighborSet, neighbor.status = .STATUS_SYM ∧
    neighbor.neighborMainAddr = addr ∧ neighbor.willingness = OLSR_WILL_ALWAYS

/-- Neither the node itself nor a symmetric neighbor. -/
def IsStrict (m_mainAddress : Ipv4Address) (s : Repositories) (addr : Ipv4Address) : Prop :=
  addr ≠ m_mainAddress ∧ ¬ IsSymmetric s addr

/-- What the MPR set is to be. -/
structure Correct (m_mainAddress : Ipv4Address) (s : Repositories) (mprSet : Finset Ipv4Address) :
    Prop where
  willing : ∀ addr ∈ mprSet, IsWilling s addr
  always : ∀ addr, IsAlways s addr → addr ∈ mprSet
  covers : ∀ tuple ∈ s.m_twoHopNeighborSet, IsStrict m_mainAddress s tuple.twoHopNeighborAddr →
    IsWilling s tuple.neighborMainAddr →
    ∃ other ∈ s.m_twoHopNeighborSet, other.twoHopNeighborAddr = tuple.twoHopNeighborAddr ∧
      IsWilling s other.neighborMainAddr ∧ other.neighborMainAddr ∈ mprSet

/-- `MprComputation` ends, with a set that is what it is to be. -/
def Computes (m_mainAddress : Ipv4Address) (s : Repositories) : Prop :=
  ∃ mprSet, MprComputation m_mainAddress s = .ok mprSet ∧ Correct m_mainAddress s mprSet

/-- The first symmetric neighbor with the address is willing, or one of them always is. -/
def IsSeen (s : Repositories) (addr : Ipv4Address) : Prop :=
  isWilling (symNeighbors s.m_neighborSet) addr = true ∨ IsAlways s addr

/-- Strict two-hop neighbors that a willing neighbor reaches are reached by one that is seen to be
willing. -/
def Reached (m_mainAddress : Ipv4Address) (s : Repositories) : Prop :=
  ∀ tuple ∈ s.m_twoHopNeighborSet, IsStrict m_mainAddress s tuple.twoHopNeighborAddr →
    IsWilling s tuple.neighborMainAddr →
    ∃ other ∈ s.m_twoHopNeighborSet, other.twoHopNeighborAddr = tuple.twoHopNeighborAddr ∧
      IsSeen s other.neighborMainAddr

/-! ### The sets -/

/-- The symmetric neighbors. -/
theorem mem_symNeighbors {l : List NeighborTuple} {neighbor : NeighborTuple} :
    neighbor ∈ symNeighbors l ↔ neighbor ∈ l ∧ neighbor.status = .STATUS_SYM := by
  rw [symNeighbors, mem_filter, decide_eq_true_eq]

/-- The test of willingness looks at the first neighbor of the address. -/
theorem isWilling_eq_true {N : List NeighborTuple} {addr : Ipv4Address} :
    isWilling N addr = true ↔ ∃ neigh,
      N.find? (fun neigh => neigh.neighborMainAddr = addr) = some neigh ∧
        neigh.willingness ≠ OLSR_WILL_NEVER := by
  unfold isWilling
  cases N.find? fun neigh => neigh.neighborMainAddr = addr with
  | none => simp
  | some neigh => simp

/-- A neighbor that always forwards is willing. -/
theorem IsAlways.isWilling {addr : Ipv4Address} (h : IsAlways s addr) : IsWilling s addr := by
  obtain ⟨neighbor, hmem, hsym, haddr, halways⟩ := h
  refine ⟨neighbor, hmem, hsym, haddr, ?_⟩
  rw [halways]
  decide

/-- A neighbor that is seen is willing. -/
theorem IsSeen.isWilling {addr : Ipv4Address} (h : IsSeen s addr) : IsWilling s addr := by
  obtain hfirst | halways := h
  · obtain ⟨neigh, hfind, hwilling⟩ := isWilling_eq_true.mp hfirst
    have hmem := mem_symNeighbors.mp (mem_of_find?_eq_some hfind)
    have haddr : neigh.neighborMainAddr = addr := by simpa using List.find?_some hfind
    exact ⟨neigh, hmem.1, hmem.2, haddr, hwilling⟩
  · exact halways.isWilling

/-- The strict two-hop neighbors the computation starts from. -/
theorem mem_strictTwoHopNeighbors {tuple : TwoHopNeighborTuple} :
    tuple ∈ strictTwoHopNeighbors m_mainAddress (symNeighbors s.m_neighborSet)
        s.m_twoHopNeighborSet ↔
      tuple ∈ s.m_twoHopNeighborSet ∧ IsStrict m_mainAddress s tuple.twoHopNeighborAddr ∧
        isWilling (symNeighbors s.m_neighborSet) tuple.neighborMainAddr = true := by
  have hsym : (∀ neigh ∈ symNeighbors s.m_neighborSet,
      neigh.neighborMainAddr ≠ tuple.twoHopNeighborAddr) ↔
      ¬ IsSymmetric s tuple.twoHopNeighborAddr := by
    unfold IsSymmetric
    simp only [mem_symNeighbors]
    push Not
    exact ⟨fun h neigh hmem hstatus => h neigh ⟨hmem, hstatus⟩,
      fun h neigh hmem => h neigh hmem.1 hmem.2⟩
  rw [strictTwoHopNeighbors, mem_filter, decide_eq_true_eq, hsym, IsStrict]
  tauto

/-! ### The steps -/

/-- What every step keeps; `all` are the tuples of `N2` at first. -/
structure Kept (s : Repositories) (all : List TwoHopNeighborTuple) (selection : Selection) :
    Prop where
  covering : Covering TwoHopNeighborTuple.neighborMainAddr TwoHopNeighborTuple.twoHopNeighborAddr
    all selection.N2 selection.mprSet
  seen : ∀ addr ∈ selection.mprSet, IsSeen s addr
  length_le : selection.N2.length ≤ all.length

variable {all : List TwoHopNeighborTuple} {selection : Selection}

/-- Selecting a neighbor that is seen keeps the selection. -/
theorem Kept.select (h : Kept s all selection) {addr : Ipv4Address} (hseen : IsSeen s addr) :
    Kept s all (selection.select addr) where
  covering := h.covering.choose addr
  seen a ha := by
    obtain rfl | hmem := Finset.mem_insert.mp ha
    · exact hseen
    · exact h.seen a hmem
  length_le := (length_filter_le _ _).trans h.length_le

/-- Selecting the neighbors that always forward keeps the selection. -/
theorem Kept.selectAlways (h : Kept s all selection) {N : List NeighborTuple}
    (hN : ∀ neighbor ∈ N, neighbor ∈ symNeighbors s.m_neighborSet) :
    Kept s all (selectAlways selection N) ∧ selection.mprSet ⊆ (selectAlways selection N).mprSet ∧
      ∀ neighbor ∈ N, neighbor.willingness = OLSR_WILL_ALWAYS →
        neighbor.neighborMainAddr ∈ (selectAlways selection N).mprSet := by
  induction N generalizing selection with
  | nil => exact ⟨h, Finset.Subset.refl _, fun _ hmem => absurd hmem not_mem_nil⟩
  | cons neighbor N ih =>
    have hrest : ∀ n ∈ N, n ∈ symNeighbors s.m_neighborSet := fun n hn =>
      hN n (mem_cons_of_mem _ hn)
    by_cases halways : neighbor.willingness = OLSR_WILL_ALWAYS
    · -- The neighbor is selected, and stays so.
      have hstep : MprComputation.selectAlways selection (neighbor :: N) =
          MprComputation.selectAlways (selection.select neighbor.neighborMainAddr) N := by
        simp [MprComputation.selectAlways, halways]
      obtain ⟨hmem, hsym⟩ := mem_symNeighbors.mp (hN neighbor mem_cons_self)
      obtain ⟨hkept, hsub, hin⟩ :=
        ih (h.select (.inr ⟨neighbor, hmem, hsym, rfl, halways⟩)) hrest
      rw [hstep]
      refine ⟨hkept, (Finset.subset_insert _ _).trans hsub, fun n hn hwill => ?_⟩
      obtain rfl | hn := mem_cons.mp hn
      · exact hsub (Finset.mem_insert_self _ _)
      · exact hin n hn hwill
    · have hstep : MprComputation.selectAlways selection (neighbor :: N) =
          MprComputation.selectAlways selection N := by
        simp [MprComputation.selectAlways, halways]
      obtain ⟨hkept, hsub, hin⟩ := ih h hrest
      rw [hstep]
      refine ⟨hkept, hsub, fun n hn hwill => ?_⟩
      obtain rfl | hn := mem_cons.mp hn
      · exact absurd hwill halways
      · exact hin n hn hwill

/-- What the loop of step 3 keeps of the MPRs and of what they cover, over a part of `N2`. -/
structure Selected (N2 : List TwoHopNeighborTuple) (mprSet : Finset Ipv4Address)
    (selected : Finset Ipv4Address × List Ipv4Address) : Prop where
  sub : mprSet ⊆ selected.1
  from_N2 : ∀ addr ∈ selected.1, addr ∈ mprSet ∨ ∃ x ∈ N2, x.neighborMainAddr = addr
  covered : ∀ addr ∈ selected.2, ∃ x ∈ N2, x.twoHopNeighborAddr = addr ∧
    x.neighborMainAddr ∈ selected.1

/-- The necessary neighbors selected are those that reach some node alone. -/
theorem selected_selectOnly (N2 : List TwoHopNeighborTuple) (mprSet : Finset Ipv4Address) :
    Selected N2 mprSet (selectOnly N2 mprSet) := by
  unfold selectOnly
  refine foldlRecOn N2 _ ⟨Finset.Subset.refl _, fun _ h => .inl h, nofun⟩ ?_
  rintro ⟨chosen, covered⟩ h x hx
  split_ifs
  · refine ⟨h.sub.trans (Finset.subset_insert _ _), fun addr haddr => ?_, fun addr haddr => ?_⟩
    · obtain rfl | haddr := Finset.mem_insert.mp haddr
      · exact .inr ⟨x, hx, rfl⟩
      · exact h.from_N2 addr haddr
    · obtain haddr | haddr := mem_append.mp haddr
      · obtain ⟨y, hy, htwoHop, hmem⟩ := h.covered addr haddr
        exact ⟨y, hy, htwoHop, Finset.mem_insert_of_mem hmem⟩
      · -- It is reached by the neighbor that is selected now.
        obtain ⟨y, hy, rfl⟩ := mem_map.mp haddr
        obtain ⟨hy, hvia⟩ := mem_filter.mp hy
        rw [decide_eq_true_eq] at hvia
        exact ⟨y, hy, rfl, hvia ▸ Finset.mem_insert_self _ _⟩
  · exact h

/-- Selecting the necessary neighbors keeps the selection. -/
theorem Kept.selectNecessary (h : Kept s all selection)
    (hall : ∀ x ∈ all, IsSeen s x.neighborMainAddr) :
    Kept s all (selectNecessary selection) ∧
      selection.mprSet ⊆ (selectNecessary selection).mprSet := by
  have hselected := selected_selectOnly selection.N2 selection.mprSet
  refine ⟨⟨h.covering.remove hselected.sub (fun x hx => (mem_filter.mp hx).1) ?_, ?_,
    (length_filter_le _ _).trans h.length_le⟩, hselected.sub⟩
  · intro x hx hnot
    have hmem : x.twoHopNeighborAddr ∈ (selectOnly selection.N2 selection.mprSet).2 := by
      by_contra hcovered
      exact hnot (mem_filter.mpr ⟨hx, decide_eq_true hcovered⟩)
    obtain ⟨y, hy, htwoHop, hvia⟩ := hselected.covered _ hmem
    exact ⟨y, h.covering.sub y hy, htwoHop, hvia⟩
  · intro addr haddr
    obtain haddr | ⟨x, hx, rfl⟩ := hselected.from_N2 addr haddr
    · exact h.seen addr haddr
    · exact hall x (h.covering.sub x hx)

/-! ### Step 4 -/

/-- The neighbors with their reachability. -/
theorem mem_byReachability {N : List NeighborTuple} {N2 : List TwoHopNeighborTuple}
    {max : ℕ × NeighborTuple} :
    max ∈ byReachability N N2 ↔ max.2 ∈ N ∧ reachabilityOf N2 max.2 = max.1 := by
  obtain ⟨r, neighbor⟩ := max
  simp only [byReachability, mem_flatMap, mem_map, mem_filter, decide_eq_true_eq,
    mem_insertionSort, mem_dedup, Prod.mk.injEq]
  constructor
  · rintro ⟨r', _, n, ⟨hn, hr⟩, rfl, rfl⟩
    exact ⟨hn, hr⟩
  · rintro ⟨hn, hr⟩
    exact ⟨r, ⟨neighbor, hn, hr⟩, neighbor, ⟨hn, hr⟩, rfl, rfl⟩

/-- What step 4.2 selects is a neighbor that reaches something. -/
theorem mem_of_selectMax {l : List (ℕ × NeighborTuple)} {max : Option (ℕ × NeighborTuple)}
    {m : ℕ × NeighborTuple} (h : selectMax s max l = some m) :
    max = some m ∨ (m ∈ l ∧ m.1 ≠ 0) := by
  induction l generalizing max with
  | nil => exact .inl h
  | cons x l ih =>
    have hlater : m ∈ l ∧ m.1 ≠ 0 → m ∈ x :: l ∧ m.1 ≠ 0 := fun hm => ⟨mem_cons_of_mem _ hm.1, hm.2⟩
    unfold selectMax at h
    by_cases hzero : x.1 = 0
    · rw [if_pos hzero] at h
      exact (ih h).imp_right hlater
    rw [if_neg hzero] at h
    cases max with
    | none =>
      obtain hx | hm := ih h
      · cases hx
        exact .inr ⟨mem_cons_self, hzero⟩
      · exact .inr (hlater hm)
    | some max =>
      obtain hx | hm := ih h
      · split_ifs at hx
        · cases hx
          exact .inr ⟨mem_cons_self, hzero⟩
        · exact .inl hx
      · exact .inr (hlater hm)

/-- If a neighbor reaches something, one is selected. -/
theorem selectMax_isSome {l : List (ℕ × NeighborTuple)} {max : Option (ℕ × NeighborTuple)}
    (h : max.isSome = true ∨ ∃ x ∈ l, x.1 ≠ 0) : (selectMax s max l).isSome = true := by
  induction l generalizing max with
  | nil =>
    obtain h | ⟨x, hx, _⟩ := h
    · exact h
    · cases hx
  | cons x l ih =>
    unfold selectMax
    by_cases hzero : x.1 = 0
    · rw [if_pos hzero]
      refine ih (h.imp_right ?_)
      rintro ⟨y, hy, hne⟩
      obtain rfl | hy := mem_cons.mp hy
      · exact absurd hzero hne
      · exact ⟨y, hy, hne⟩
    · rw [if_neg hzero]
      cases max with
      | none => exact ih (.inl rfl)
      | some max => exact ih (.inl rfl)

/-- Each round takes a two-hop neighbor away, so that the loop ends; nothing is left then. -/
theorem Kept.selectRest (h : Kept s all selection)
    (hall : ∀ x ∈ all, isWilling (symNeighbors s.m_neighborSet) x.neighborMainAddr = true)
    {fuel : ℕ} (hfuel : selection.N2.length < fuel) :
    ∃ mprSet, selectRest s (symNeighbors s.m_neighborSet) fuel selection = .ok mprSet ∧
      selection.mprSet ⊆ mprSet ∧ Kept s all ⟨mprSet, []⟩ := by
  induction fuel generalizing selection with
  | zero => exact absurd hfuel (Nat.not_lt_zero _)
  | succ fuel ih =>
    obtain ⟨mprSet, N2⟩ := selection
    cases N2 with
    | nil => exact ⟨mprSet, rfl, Finset.Subset.refl _, h⟩
    | cons x N2 =>
      -- The neighbor through which the first of them is reached is one that may be selected.
      have hx : x ∈ all := h.covering.sub x mem_cons_self
      obtain ⟨neigh, hfind, _⟩ := isWilling_eq_true.mp (hall x hx)
      have hneigh := mem_of_find?_eq_some hfind
      have haddr : neigh.neighborMainAddr = x.neighborMainAddr := by
        simpa using List.find?_some hfind
      have hreach : reachabilityOf (x :: N2) neigh ≠ 0 := by
        have hpos : 0 < reachabilityOf (x :: N2) neigh :=
          countP_pos_iff.mpr ⟨x, mem_cons_self, decide_eq_true haddr⟩
        exact hpos.ne'
      have hcandidate : ∃ y ∈ byReachability (symNeighbors s.m_neighborSet) (x :: N2), y.1 ≠ 0 :=
        ⟨(reachabilityOf (x :: N2) neigh, neigh), mem_byReachability.mpr ⟨hneigh, rfl⟩, hreach⟩
      have hsome : (selectMax s none
          (byReachability (symNeighbors s.m_neighborSet) (x :: N2))).isSome = true :=
        selectMax_isSome (.inr hcandidate)
      obtain ⟨max, hmax⟩ := Option.isSome_iff_exists.mp hsome
      obtain hnone | ⟨hmem, hne⟩ := mem_of_selectMax hmax
      · cases hnone
      -- The one that is selected reaches one of those that are left.
      obtain ⟨hmemN, hr⟩ := mem_byReachability.mp hmem
      rw [← hr] at hne
      obtain ⟨y, hy, hvia⟩ := countP_pos_iff.mp (Nat.pos_of_ne_zero hne)
      have hvia := of_decide_eq_true hvia
      have hyall : y ∈ all := h.covering.sub y hy
      have hseen : IsSeen s max.2.neighborMainAddr := .inl (hvia ▸ hall y hyall)
      have hshorter : ((⟨mprSet, x :: N2⟩ : Selection).select max.2.neighborMainAddr).N2.length <
          fuel := by
        exact (length_cover_lt hy hvia.symm).trans_le (Nat.le_of_lt_succ hfuel)
      obtain ⟨mprSet', hrun, hsub, hkept⟩ := ih (h.select hseen) hshorter
      refine ⟨mprSet', ?_, (Finset.subset_insert _ _).trans hsub, hkept⟩
      rw [MprComputation.selectRest, hmax]
      exact hrun

/-! ### The computation -/

/-- The computation by its three stages. -/
theorem MprComputation_eq (m_mainAddress : Ipv4Address) (s : Repositories)
    {N2 : List TwoHopNeighborTuple}
    (hN2 : strictTwoHopNeighbors m_mainAddress (symNeighbors s.m_neighborSet)
      s.m_twoHopNeighborSet = N2) :
    MprComputation m_mainAddress s = selectRest s (symNeighbors s.m_neighborSet) (N2.length + 1)
      (selectNecessary (selectAlways ⟨∅, N2⟩ (symNeighbors s.m_neighborSet))) := by
  rw [← hN2]
  rfl

/-- `MprComputation` ends; its set covers all of the first `N2`. -/
theorem exists_mprSet (m_mainAddress : Ipv4Address) (s : Repositories) :
    ∃ mprSet, MprComputation m_mainAddress s = .ok mprSet ∧
      Kept s (strictTwoHopNeighbors m_mainAddress (symNeighbors s.m_neighborSet)
        s.m_twoHopNeighborSet) ⟨mprSet, []⟩ ∧
      ∀ addr, IsAlways s addr → addr ∈ mprSet := by
  generalize hN2 : strictTwoHopNeighbors m_mainAddress (symNeighbors s.m_neighborSet)
    s.m_twoHopNeighborSet = N2
  rw [MprComputation_eq m_mainAddress s hN2]
  have hall : ∀ x ∈ N2, isWilling (symNeighbors s.m_neighborSet) x.neighborMainAddr = true := by
    intro x hx
    rw [← hN2] at hx
    exact (mem_strictTwoHopNeighbors.mp hx).2.2
  have hstart : Kept s N2 ⟨∅, N2⟩ :=
    ⟨.start N2, fun _ h => absurd h (Finset.notMem_empty _), le_rfl⟩
  obtain ⟨hkept, _, halways⟩ := hstart.selectAlways fun _ h => h
  obtain ⟨hkept, hsub⟩ := hkept.selectNecessary fun x hx => .inl (hall x hx)
  obtain ⟨mprSet, hrun, hsub', hkept⟩ :=
    hkept.selectRest hall (Nat.lt_succ_of_le hkept.length_le)
  refine ⟨mprSet, hrun, hkept, ?_⟩
  rintro addr ⟨neighbor, hmem, hsym, rfl, hwill⟩
  exact hsub' (hsub (halways neighbor (mem_symNeighbors.mpr ⟨hmem, hsym⟩) hwill))

/-- An MPR that covers is one that was seen to be willing. -/
theorem Computes.reached (h : Computes m_mainAddress s) : Reached m_mainAddress s := by
  obtain ⟨mprSet, hrun, hkept, _⟩ := exists_mprSet m_mainAddress s
  obtain ⟨mprSet', hrun', hcorrect⟩ := h
  obtain rfl := Except.ok.inj (hrun.symm.trans hrun')
  intro tuple htuple hstrict hwilling
  obtain ⟨other, hother, haddr, _, hmem⟩ := hcorrect.covers tuple htuple hstrict hwilling
  exact ⟨other, hother, haddr, hkept.seen _ hmem⟩

/-- Where every two-hop neighbor is reached the computation covers all. -/
theorem Reached.computes (h : Reached m_mainAddress s) : Computes m_mainAddress s := by
  obtain ⟨mprSet, hrun, hkept, halways⟩ := exists_mprSet m_mainAddress s
  refine ⟨mprSet, hrun, fun addr haddr => (hkept.seen addr haddr).isWilling, halways, ?_⟩
  intro tuple htuple hstrict hwilling
  obtain ⟨other, hother, haddr, hseen⟩ := h tuple htuple hstrict hwilling
  obtain hfirst | hother_always := hseen
  · -- The tuple is one of the first `N2`, whose targets are all covered.
    have hin := mem_strictTwoHopNeighbors.mpr ⟨hother, haddr ▸ hstrict, hfirst⟩
    obtain ⟨y, hy, htwoHop, hvia⟩ := hkept.covering.covers hin
    exact ⟨y, (mem_strictTwoHopNeighbors.mp hy).1, htwoHop.trans haddr,
      (hkept.seen _ hvia).isWilling, hvia⟩
  · exact ⟨other, hother, haddr, hother_always.isWilling, halways _ hother_always⟩

/-- The computation covers all if and only if every two-hop neighbor is reached. -/
theorem computes_iff (m_mainAddress : Ipv4Address) (s : Repositories) :
    Computes m_mainAddress s ↔ Reached m_mainAddress s :=
  ⟨Computes.reached, Reached.computes⟩

/-- Neighbor 2 is in the set twice, at first unwilling and then willing, and reaches 3. -/
def twiceNeighbor : Repositories where
  m_linkSet := []
  m_neighborSet := [⟨2, .STATUS_SYM, 0, 0⟩, ⟨2, .STATUS_SYM, 3, 0⟩]
  m_ifaceAssocSet := []
  m_twoHopNeighborSet := [⟨2, 3⟩]
  m_topologySet := []
  m_associationSet := []
  m_associations := []

/-- Two tuples of one neighbor, of which the first is unwilling. -/
theorem not_computes_twiceNeighbor : ¬ Computes 1 twiceNeighbor := by
  intro h
  have hstrict : IsStrict 1 twiceNeighbor 3 := by
    refine ⟨by decide, ?_⟩
    rintro ⟨neighbor, hmem, _, haddr⟩
    have hall : ∀ n ∈ twiceNeighbor.m_neighborSet, n.neighborMainAddr ≠ 3 := by decide
    exact hall neighbor hmem haddr
  have hwilling : IsWilling twiceNeighbor 2 :=
    ⟨⟨2, .STATUS_SYM, 3, 0⟩, by decide, rfl, rfl, by decide⟩
  obtain ⟨other, hother, _, hseen⟩ := h.reached ⟨2, 3⟩ (by decide) hstrict hwilling
  obtain rfl := mem_singleton.mp hother
  obtain hfirst | ⟨neighbor, hmem, _, _, halways⟩ := hseen
  · exact absurd hfirst (by decide)
  · have hall : ∀ n ∈ twiceNeighbor.m_neighborSet, n.willingness ≠ OLSR_WILL_ALWAYS := by decide
    exact hall neighbor hmem halways

end MprComputation
end Ns3Joined.Olsr
