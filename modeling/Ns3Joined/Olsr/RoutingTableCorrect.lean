import Mathlib.Data.List.Induction
import Ns3Joined.Library.ExceptFold
import Ns3Joined.Library.Levels
import Ns3Joined.Olsr.RoutingTable

/-!
# What the routing table says

* `Usable`: a next hop is an interface of a symmetric neighbor, over a link that has not expired.
* `level_spec`: one level of the loop over the topology set; `topologyLoop_spec`: all of them, by
  `Levels.Labelled`.
* `HnaCorrect`: the routes to other networks, each through the nearest gateway.
* `routingTableComputation_correct`: the tables that are made.
-/

namespace Ns3Joined.Olsr

open ExceptFold List KeyedTable

variable {table table' : List RoutingTableEntry} {dest : Ipv4Address}

/-- A lookup after an entry was added. -/
theorem lookup_addEntry (table : List RoutingTableEntry) (dest next address : Ipv4Address)
    (interface distance : ℕ) :
    Lookup (AddEntry table dest next interface distance) address =
      if dest = address then some ⟨dest, next, interface, distance⟩ else Lookup table address :=
  find_insert _ table

/-- The entries of a table are those of another one, and others for what it had none for. -/
def Extends (table table' : List RoutingTableEntry) : Prop :=
  ∀ dest entry, Lookup table dest = some entry → Lookup table' dest = some entry

/-- Adding an entry for a new destination extends the table. -/
theorem Extends.addEntry (h : Extends table table') (hnone : Lookup table' dest = none)
    (next : Ipv4Address) (interface distance : ℕ) :
    Extends table (AddEntry table' dest next interface distance) := by
  intro address entry hentry
  have hentry' := h address entry hentry
  rw [lookup_addEntry, if_neg, hentry']
  rintro rfl
  cases hnone.symm.trans hentry'

variable {interface : ℕ} {link : LinkTuple} {nb : NeighborTuple} {tuple : AssociationTuple}

namespace Node

variable {n : Node}

/-! ### Next hops -/

/-- The next hop is an interface of a symmetric neighbor, over a link that has not expired. -/
def Usable (n : Node) (next : Ipv4Address) (interface : ℕ) : Prop :=
  ∃ link ∈ n.m_state.m_linkSet, ∃ nb ∈ n.m_state.m_neighborSet, nb.status = .STATUS_SYM ∧
    n.m_state.GetMainAddress link.neighborIfaceAddr = nb.neighborMainAddr ∧ n.now ≤ link.time ∧
    next = link.neighborIfaceAddr ∧ n.interfaceOf link.localIfaceAddr = some interface

/-- Each entry of the table has such a next hop, and is no farther away than so many hops. -/
def Within (n : Node) (bound : ℕ) (table : List RoutingTableEntry) : Prop :=
  ∀ dest entry, Lookup table dest = some entry →
    n.Usable entry.nextAddr entry.interface ∧ entry.distance ≤ bound

variable {bound : ℕ}

/-- The empty table is within any bound. -/
theorem within_nil : n.Within bound [] := fun _ _ h => by cases h

/-- A greater bound holds as well. -/
theorem Within.mono (h : n.Within bound table) {bound' : ℕ} (hle : bound ≤ bound') :
    n.Within bound' table := fun dest entry hentry =>
  ⟨(h dest entry hentry).1, (h dest entry hentry).2.trans hle⟩

/-- Adding an entry within the bound keeps the bound. -/
theorem Within.addEntry (h : n.Within bound table) (dest : Ipv4Address) {next : Ipv4Address}
    {distance : ℕ} (hnext : n.Usable next interface) (hle : distance ≤ bound) :
    n.Within bound (Olsr.AddEntry table dest next interface distance) := by
  intro address entry hentry
  rw [lookup_addEntry] at hentry
  split_ifs at hentry
  · cases hentry
    exact ⟨hnext, hle⟩
  · exact h address entry hentry

/-- A link's local address is one of the node's interfaces. -/
theorem exists_interface (h : link ∈ n.m_state.m_linkSet) :
    ∃ interface, n.interfaceOf link.localIfaceAddr = some interface := by
  obtain ⟨addresses, haddresses, hmem⟩ := n.isLocal link h
  rw [interfaceOf, ← Option.isSome_iff_exists, List.findIdx?_isSome, any_eq_true]
  exact ⟨addresses, haddresses, contains_iff_mem.mpr hmem⟩

/-- A matching link of a symmetric neighbor is usable. -/
theorem usable_of_matches (hnb : nb ∈ n.m_state.m_neighborSet) (hsym : nb.status = .STATUS_SYM)
    (hlink : link ∈ n.m_state.m_linkSet) (hmatches : n.linkMatches nb link = true)
    (hinterface : n.interfaceOf link.localIfaceAddr = some interface) :
    n.Usable link.neighborIfaceAddr interface := by
  rw [linkMatches, Bool.and_eq_true, beq_iff_eq, decide_eq_true_eq] at hmatches
  exact ⟨link, hlink, nb, hnb, hsym, hmatches.1, hmatches.2, rfl, hinterface⟩

/-- An entry over a link of the neighbor. -/
theorem Within.addEntry_link (h : n.Within 1 table) (hnb : nb ∈ n.m_state.m_neighborSet)
    (hsym : nb.status = .STATUS_SYM) (hlink : link ∈ n.m_state.m_linkSet)
    (hmatches : n.linkMatches nb link = true) (dest : Ipv4Address) :
    ∃ table', n.AddEntry table dest link.neighborIfaceAddr link.localIfaceAddr 1 = .ok table' ∧
      n.Within 1 table' := by
  obtain ⟨interface, hinterface⟩ := n.exists_interface hlink
  refine ⟨_, by rw [Node.AddEntry, hinterface], ?_⟩
  exact h.addEntry dest (usable_of_matches hnb hsym hlink hmatches hinterface) (Nat.le_refl 1)

/-- The links of a neighbor are added with distance one. -/
theorem addLinks_spec (hnb : nb ∈ n.m_state.m_neighborSet) (hsym : nb.status = .STATUS_SYM)
    {links : List LinkTuple} (hlinks : ∀ link ∈ links, link ∈ n.m_state.m_linkSet)
    (h : n.Within 1 table) (main : Bool) (lt : Option LinkTuple)
    (hlt : ∀ link ∈ lt, link ∈ n.m_state.m_linkSet ∧ n.linkMatches nb link = true) :
    ∃ table' main' lt', n.addLinks nb table main lt links = .ok (table', main', lt') ∧
      n.Within 1 table' ∧
      ∀ link ∈ lt', link ∈ n.m_state.m_linkSet ∧ n.linkMatches nb link = true := by
  induction links generalizing table main lt with
  | nil => exact ⟨table, main, lt, rfl, h, hlt⟩
  | cons link links ih =>
    have hrest : ∀ link ∈ links, link ∈ n.m_state.m_linkSet := fun l hl =>
      hlinks l (mem_cons_of_mem link hl)
    rw [addLinks]
    by_cases hmatches : n.linkMatches nb link = true
    · have hlink := hlinks link mem_cons_self
      obtain ⟨table₁, hok, h₁⟩ := h.addEntry_link hnb hsym hlink hmatches link.neighborIfaceAddr
      rw [if_pos hmatches, hok, ok_bind]
      exact ih hrest h₁ _ _ fun l hl => (Option.mem_some_iff.mp hl) ▸ ⟨hlink, hmatches⟩
    · rw [if_neg hmatches]
      exact ih hrest h main lt hlt

/-- Adding a neighbor succeeds and keeps distance one. -/
theorem Within.addNeighbor (h : n.Within 1 table) (hnb : nb ∈ n.m_state.m_neighborSet) :
    ∃ table', n.addNeighbor table nb = .ok table' ∧ n.Within 1 table' := by
  rw [Node.addNeighbor]
  by_cases hsym : nb.status = .STATUS_SYM
  · obtain ⟨table', main, lt, hok, h', hlt⟩ := addLinks_spec hnb hsym
      (fun link hlink => hlink) h false none nofun
    rw [if_pos hsym, hok, ok_bind]
    cases lt with
    | none => exact ⟨table', rfl, h'⟩
    | some link =>
      cases main with
      | true => exact ⟨table', rfl, h'⟩
      | false =>
        obtain ⟨hlink, hmatches⟩ := hlt link rfl
        exact h'.addEntry_link hnb hsym hlink hmatches nb.neighborMainAddr
  · exact ⟨table, if_neg hsym, h⟩

/-- Adding the neighbors succeeds and keeps distance one. -/
theorem Within.addNeighbors (h : n.Within 1 table) {neighbors : List NeighborTuple}
    (hnb : ∀ nb ∈ neighbors, nb ∈ n.m_state.m_neighborSet) :
    ∃ table', neighbors.foldlM n.addNeighbor table = .ok table' ∧ n.Within 1 table' := by
  induction neighbors generalizing table with
  | nil => exact ⟨table, rfl, h⟩
  | cons nb neighbors ih =>
    obtain ⟨table₁, hok, h₁⟩ := h.addNeighbor (hnb nb mem_cons_self)
    rw [foldlM_cons, hok, ok_bind]
    exact ih h₁ fun nb' hnb' => hnb nb' (mem_cons_of_mem nb hnb')

/-- Adding a two-hop neighbor keeps distance two. -/
theorem Within.addTwoHopNeighbor (h : n.Within 2 table) (tuple : TwoHopNeighborTuple) :
    n.Within 2 (n.addTwoHopNeighbor table tuple) := by
  rw [Node.addTwoHopNeighbor]
  split
  · split
    · rename_i entry hentry
      exact h.addEntry _ (h _ entry hentry).1 (Nat.le_refl 2)
    · exact h
  · exact h

/-- The entries of the neighborhood are computed and have distance at most two. -/
theorem neighborEntries_spec (n : Node) :
    ∃ table, n.neighborEntries = .ok table ∧ n.Within 2 table := by
  have hnil : n.Within 1 [] := within_nil
  obtain ⟨table, hok, h⟩ := hnil.addNeighbors fun nb hnb => hnb
  refine ⟨_, by rw [neighborEntries, hok, ok_bind], ?_⟩
  have h2 : n.Within 2 table := h.mono (by decide)
  clear hok h
  induction n.m_state.m_twoHopNeighborSet generalizing table with
  | nil => exact h2
  | cons tuple tuples ih => exact ih _ (h2.addTwoHopNeighbor tuple)

/-! ### Topology -/

/-- The distances of a table. -/
def distances (table : List RoutingTableEntry) (dest : Ipv4Address) : Option ℕ :=
  (Lookup table dest).map RoutingTableEntry.distance

/-- The distance to a destination is that of its entry. -/
theorem distances_eq_some {k : ℕ} :
    distances table dest = some k ↔ ∃ entry, Lookup table dest = some entry ∧ entry.distance = k :=
  Option.map_eq_some_iff

/-- There is no distance without an entry. -/
theorem distances_eq_none : distances table dest = none ↔ Lookup table dest = none :=
  Option.map_eq_none_iff

/-- There is a topology tuple with this last address and this destination. -/
def TopologyArc (n : Node) (last dest : Ipv4Address) : Prop :=
  ∃ tuple ∈ n.m_state.m_topologySet, tuple.lastAddr = last ∧ tuple.destAddr = dest

/-- What some topology tuples have made of a table at the level `h`. -/
structure Level (n : Node) (h : ℕ) (table : List RoutingTableEntry)
    (processed : List TopologyTuple) (state : List RoutingTableEntry × Bool) : Prop where
  keeps : Extends table state.1
  new : ∀ dest entry, Lookup state.1 dest = some entry → Lookup table dest = some entry ∨
    Lookup table dest = none ∧ entry.distance = h + 1 ∧ state.2 = true ∧
      ∃ tuple ∈ processed, tuple.destAddr = dest ∧ ∃ last, Lookup table tuple.lastAddr = some last ∧
        last.distance = h ∧ entry.nextAddr = last.nextAddr ∧ entry.interface = last.interface
  reached : ∀ tuple ∈ processed, ∀ last, Lookup table tuple.lastAddr = some last →
    last.distance = h → ∃ entry, Lookup state.1 tuple.destAddr = some entry
  added : state.2 = true → ∃ tuple ∈ processed, Lookup table tuple.destAddr = none ∧
    ∃ entry, Lookup state.1 tuple.destAddr = some entry

/-- A level before its first tuple. -/
theorem level_nil (n : Node) (h : ℕ) (table : List RoutingTableEntry) :
    n.Level h table [] (table, false) where
  keeps := fun _ _ hentry => hentry
  new := fun _ _ hentry => .inl hentry
  reached := nofun
  added := nofun

variable {h : ℕ} {processed : List TopologyTuple} {state : List RoutingTableEntry × Bool}

/-- A tuple that adds nothing. -/
theorem Level.skip (hl : n.Level h table processed state) {tuple : TopologyTuple}
    (hskip : ∀ last, Lookup table tuple.lastAddr = some last → last.distance = h →
      ∃ entry, Lookup state.1 tuple.destAddr = some entry) :
    n.Level h table (processed ++ [tuple]) state where
  keeps := hl.keeps
  new := fun dest entry hentry => (hl.new dest entry hentry).imp_right
    fun ⟨hnone, hdistance, hadded, tuple', htuple', hrest⟩ =>
      ⟨hnone, hdistance, hadded, tuple', mem_append_left _ htuple', hrest⟩
  reached := by
    intro tuple' htuple' last hlast hdistance
    obtain htuple' | htuple' := mem_append.mp htuple'
    · exact hl.reached tuple' htuple' last hlast hdistance
    · cases mem_singleton.mp htuple'
      exact hskip last hlast hdistance
  added := fun hadded =>
    have ⟨tuple', htuple', hrest⟩ := hl.added hadded
    ⟨tuple', mem_append_left _ htuple', hrest⟩

/-- **One topology tuple.** -/
theorem Level.addTopology (hl : n.Level h table processed state) (tuple : TopologyTuple) :
    n.Level h table (processed ++ [tuple]) (Node.addTopology h state tuple) := by
  rw [Node.addTopology]
  -- what the table says now of the last address of the tuple it said at the start of the level
  have hold : ∀ last, Lookup state.1 tuple.lastAddr = some last → last.distance = h →
      Lookup table tuple.lastAddr = some last := by
    intro last hlast hdistance
    obtain hlast | ⟨-, hdistance', -⟩ := hl.new _ last hlast
    · exact hlast
    · omega
  split
  · rename_i last hnone hlast
    split
    · rename_i hdistance
      have hlast' := hold last hlast hdistance
      have hnone' : Lookup table tuple.destAddr = none := by
        cases hentry : Lookup table tuple.destAddr with
        | none => rfl
        | some entry => cases hnone.symm.trans (hl.keeps _ entry hentry)
      refine ⟨hl.keeps.addEntry hnone _ _ _, ?_, ?_, ?_⟩
      · intro dest entry hentry
        rw [lookup_addEntry] at hentry
        split_ifs at hentry with hdest
        · cases hentry
          subst hdest
          exact .inr ⟨hnone', rfl, rfl, tuple, mem_append_right _ (mem_singleton.mpr rfl),
            rfl, last, hlast', hdistance, rfl, rfl⟩
        · refine (hl.new dest entry hentry).imp_right
            fun ⟨hnone, hdistance, _, tuple', htuple', hrest⟩ => ?_
          exact ⟨hnone, hdistance, rfl, tuple', mem_append_left _ htuple', hrest⟩
      · intro tuple' htuple' last' hlast' hdistance'
        rw [lookup_addEntry]
        split_ifs with hdest
        · exact ⟨_, rfl⟩
        · obtain htuple' | htuple' := mem_append.mp htuple'
          · exact hl.reached tuple' htuple' last' hlast' hdistance'
          · cases mem_singleton.mp htuple'
            exact absurd rfl hdest
      · intro _
        refine ⟨tuple, mem_append_right _ (mem_singleton.mpr rfl), hnone', ?_⟩
        rw [lookup_addEntry, if_pos rfl]
        exact ⟨_, rfl⟩
    · rename_i hdistance
      refine hl.skip fun last' hlast' hdistance' => ?_
      cases hlast.symm.trans (hl.keeps _ last' hlast')
      exact absurd hdistance' hdistance
  · rename_i hnot
    refine hl.skip fun last hlast _ => ?_
    cases hdest : Lookup state.1 tuple.destAddr with
    | none => exact absurd (hl.keeps _ last hlast) (hnot last hdest)
    | some entry => exact ⟨entry, rfl⟩

/-- One pass over the topology adds the next level. -/
theorem level_spec (n : Node) (h : ℕ) (table : List RoutingTableEntry)
    (tuples : List TopologyTuple) :
    n.Level h table tuples (tuples.foldl (Node.addTopology h) (table, false)) := by
  induction tuples using List.reverseRecOn with
  | nil => exact n.level_nil h table
  | append_singleton tuples tuple ih =>
    rw [foldl_append]
    exact ih.addTopology tuple

/-- One pass grows the distances by a level. -/
theorem Level.grows (hl : n.Level h table n.m_state.m_topologySet state) :
    Levels.Grows n.TopologyArc h (distances table) (distances state.1) where
  keeps := by
    intro dest k hk
    obtain ⟨entry, hentry, hdistance⟩ := distances_eq_some.mp hk
    exact distances_eq_some.mpr ⟨entry, hl.keeps dest entry hentry, hdistance⟩
  new := by
    intro dest k hk
    obtain ⟨entry, hentry, rfl⟩ := distances_eq_some.mp hk
    obtain hold | ⟨hnone, hdistance, -, tuple, htuple, hdest, last, hlast, hlevel, -⟩ :=
      hl.new dest entry hentry
    · exact .inl (distances_eq_some.mpr ⟨entry, hold, rfl⟩)
    · exact .inr ⟨distances_eq_none.mpr hnone, hdistance, tuple.lastAddr,
        distances_eq_some.mpr ⟨last, hlast, hlevel⟩, tuple, htuple, rfl, hdest⟩
  reached := by
    rintro last dest hlast ⟨tuple, htuple, rfl, rfl⟩
    obtain ⟨entry, hentry, hdistance⟩ := distances_eq_some.mp hlast
    obtain ⟨entry', hentry'⟩ := hl.reached tuple htuple entry hentry hdistance
    exact ⟨_, distances_eq_some.mpr ⟨entry', hentry', rfl⟩⟩

/-- One pass keeps the entries within the next distance. -/
theorem Level.within (hl : n.Level h table n.m_state.m_topologySet state)
    (hw : n.Within h table) : n.Within (h + 1) state.1 := by
  intro dest entry hentry
  obtain hold | ⟨-, hdistance, -, tuple, -, -, last, hlast, -, hnext, hinterface⟩ :=
    hl.new dest entry hentry
  · exact hw.mono (Nat.le_succ h) dest entry hold
  · rw [hnext, hinterface, hdistance]
    exact ⟨(hw _ last hlast).1, Nat.le_refl _⟩

/-- A pass that adds nothing leaves the table. -/
theorem Level.eq_of_not_added (hl : n.Level h table processed state) (hadded : state.2 = false) :
    Lookup state.1 = Lookup table := by
  funext dest
  cases hentry : Lookup state.1 dest with
  | some entry =>
    obtain hold | ⟨-, -, hadded', -⟩ := hl.new dest entry hentry
    · exact hold.symm
    · cases hadded.symm.trans hadded'
  | none =>
    cases hentry' : Lookup table dest with
    | none => rfl
    | some entry => cases hentry.symm.trans (hl.keeps dest entry hentry')

/-- How many topology tuples have a destination without an entry. -/
def missing (n : Node) (table : List RoutingTableEntry) : ℕ :=
  n.m_state.m_topologySet.countP fun tuple => (Lookup table tuple.destAddr).isNone

/-- Where one test passes more often than another it counts more. -/
theorem countP_lt_countP {α : Type*} {p q : α → Bool} {l : List α}
    (hpq : ∀ x ∈ l, p x = true → q x = true) (hx : ∃ x ∈ l, q x = true ∧ p x = false) :
    l.countP p < l.countP q := by
  induction l with
  | nil =>
    obtain ⟨x, hx, -⟩ := hx
    cases hx
  | cons y l ih =>
    have hrest : ∀ x ∈ l, p x = true → q x = true := fun x hx => hpq x (mem_cons_of_mem y hx)
    have hle : l.countP p ≤ l.countP q := countP_mono_left hrest
    rw [countP_cons, countP_cons]
    obtain ⟨x, hx, hqx, hpx⟩ := hx
    obtain rfl | hx := mem_cons.mp hx
    · rw [hqx, hpx, if_pos rfl, if_neg Bool.false_ne_true]
      omega
    · have hlt := ih hrest ⟨x, hx, hqx, hpx⟩
      have hy := hpq y mem_cons_self
      split_ifs with hp hq
      · omega
      · exact absurd (hy hp) hq
      · omega
      · omega

/-- A pass that adds something leaves fewer destinations missing. -/
theorem Level.missing_lt (hl : n.Level h table n.m_state.m_topologySet state)
    (hadded : state.2 = true) : n.missing state.1 < n.missing table := by
  refine countP_lt_countP (fun tuple _ hnone => ?_) ?_
  · rw [Option.isNone_iff_eq_none] at hnone ⊢
    cases hentry : Lookup table tuple.destAddr with
    | none => rfl
    | some entry => cases hnone.symm.trans (hl.keeps _ entry hentry)
  · obtain ⟨tuple, htuple, hnone, entry, hentry⟩ := hl.added hadded
    exact ⟨tuple, htuple, by rw [hnone]; rfl, by rw [hentry]; rfl⟩

/-- Within the bound no distance exceeds it. -/
theorem Within.distances_le (hw : n.Within bound table) :
    ∀ dest k, distances table dest = some k → k ≤ bound := by
  intro dest k hk
  obtain ⟨entry, hentry, rfl⟩ := distances_eq_some.mp hk
  exact (hw dest entry hentry).2

/-- **The loop over the levels** comes to an end, and then each destination that it has reached is
at the least distance. -/
theorem topologyLoop_spec {base : List RoutingTableEntry} (hbase : n.Within 2 base) {rounds : ℕ}
    (hrounds : n.missing table < rounds) (hle : 2 ≤ h) (hw : n.Within h table)
    (hl : Levels.Labelled (distances base) n.TopologyArc 2 (distances table) h) :
    ∃ table' h', n.topologyLoop rounds h table = .ok table' ∧ n.Within h' table' ∧
      ∀ dest, Lookup base dest = none → ∀ k, distances table' dest = some k ↔
        Levels.Hops (distances base) n.TopologyArc 2 dest k ∧
          ∀ j, Levels.Hops (distances base) n.TopologyArc 2 dest j → k ≤ j := by
  induction rounds generalizing h table with
  | zero => exact absurd hrounds (Nat.not_lt_zero _)
  | succ rounds ih =>
    have hlevel := n.level_spec h table n.m_state.m_topologySet
    rw [topologyLoop]
    generalize n.m_state.m_topologySet.foldl (Node.addTopology h) (table, false) = state at hlevel ⊢
    obtain ⟨table', added⟩ := state
    cases added with
    | true =>
      have hlt : n.missing table' < n.missing table := hlevel.missing_lt rfl
      exact ih (by omega) (by omega) (hlevel.within hw)
        (hl.grow hbase.distances_le hle hlevel.grows)
    | false =>
      have hsame : distances table' = distances table := by
        funext dest
        rw [distances, hlevel.eq_of_not_added rfl, distances]
      refine ⟨table', h, rfl, fun dest entry hentry => ?_, fun dest hdest k => ?_⟩
      · exact hw dest entry (congrFun (hlevel.eq_of_not_added rfl) dest ▸ hentry)
      · rw [hsame]
        refine hl.least hbase.distances_le hle (fun last dest hlast harc => ?_)
          (distances_eq_none.mpr hdest)
        rw [← hsame]
        exact hlevel.grows.reached last dest hlast harc

/-! ### Further interfaces -/

/-- Adding an interface extends the table. -/
theorem addInterface_extends (table : List RoutingTableEntry) (tuple : IfaceAssocTuple) :
    Extends table (addInterface table tuple) := by
  rw [addInterface]
  split
  · rename_i hnone
    exact Extends.addEntry (fun _ _ hentry => hentry) hnone _ _ _
  · exact fun _ _ hentry => hentry

/-- Adding an interface keeps the bound. -/
theorem Within.addInterface (h : n.Within bound table) (tuple : IfaceAssocTuple) :
    n.Within bound (Node.addInterface table tuple) := by
  rw [Node.addInterface]
  split
  · rename_i entry hentry _
    exact h.addEntry _ (h _ entry hentry).1 (h _ entry hentry).2
  · exact h

/-- Adding the interfaces extends the table and keeps the bound. -/
theorem addInterfaces_spec (h : n.Within bound table) (tuples : List IfaceAssocTuple) :
    Extends table (tuples.foldl Node.addInterface table) ∧
      n.Within bound (tuples.foldl Node.addInterface table) := by
  induction tuples generalizing table with
  | nil => exact ⟨fun _ _ hentry => hentry, h⟩
  | cons tuple tuples ih =>
    obtain ⟨hextends, hw⟩ := ih (h.addInterface tuple)
    refine ⟨fun dest entry hentry => ?_, hw⟩
    exact hextends dest entry (addInterface_extends table tuple dest entry hentry)

/-! ### Other networks -/

/-- The loop that clears the table removes only the first half of the routes. -/
theorem clearLoop_eq (i : ℕ) (routes : List HnaRoute) :
    clearLoop i routes = routes.drop ((routes.length - i + 1) / 2) := by
  induction routes generalizing i with
  | nil => rw [clearLoop, drop_nil]
  | cons route routes ih =>
    rw [clearLoop, length_cons]
    by_cases hlt : i < routes.length + 1
    · have hhalf : (routes.length + 1 - i + 1) / 2 = (routes.length - (i + 1) + 1) / 2 + 1 := by
        omega
      rw [if_pos hlt, ih, hhalf, drop_succ_cons]
    · have hzero : (routes.length + 1 - i + 1) / 2 = 0 := by omega
      rw [if_neg hlt, hzero, drop_zero]

/-- The loop that clears the HNA routes leaves none only where there was at most one. -/
theorem clearLoop_eq_nil_iff (routes : List HnaRoute) :
    clearLoop 0 routes = [] ↔ routes.length ≤ 1 := by
  rw [clearLoop_eq, drop_eq_nil_iff]
  omega

/-- The routes to the networks of some associations: one to each that the node does not announce
itself and of which a gateway is reachable, through the nearest one. -/
structure HnaRoutes (n : Node) (table : List RoutingTableEntry)
    (processed : List AssociationTuple) (routes : List HnaRoute) : Prop where
  distinct : KeyedTable.Distinct HnaRoute.network routes
  nearest : ∀ route ∈ routes, ∃ tuple ∈ processed, n.announces tuple = false ∧
    ∃ gateway, Lookup table tuple.gatewayAddr = some gateway ∧ route = hnaRoute tuple gateway ∧
      ∀ tuple' ∈ processed, tuple'.network = tuple.network →
        ∀ gateway', Lookup table tuple'.gatewayAddr = some gateway' →
          gateway.distance ≤ gateway'.distance
  complete : ∀ tuple ∈ processed, n.announces tuple = false →
    ∀ gateway, Lookup table tuple.gatewayAddr = some gateway →
      ∃ route ∈ routes, route.network = tuple.network

theorem hnaRoutes_nil (n : Node) (table : List RoutingTableEntry) : n.HnaRoutes table [] [] where
  distinct := List.Pairwise.nil
  nearest := nofun
  complete := nofun

/-- What is announced of an association depends on its network only. -/
theorem announces_congr {tuple' : AssociationTuple} (h : tuple'.network = tuple.network) :
    n.announces tuple' = n.announces tuple := by
  obtain ⟨haddr, hmask⟩ := Prod.mk.inj h
  rw [announces, announces, haddr, hmask]

variable {associations : List AssociationTuple} {routes : List HnaRoute}

/-- An association that adds no route. -/
theorem HnaRoutes.skip (hr : n.HnaRoutes table associations routes)
    (hskip : n.announces tuple = false → ∀ gateway, Lookup table tuple.gatewayAddr = some gateway →
      ∃ route ∈ routes, route.network = tuple.network ∧ route.metric ≤ gateway.distance) :
    n.HnaRoutes table (associations ++ [tuple]) routes where
  distinct := hr.distinct
  nearest := by
    intro route hroute
    obtain ⟨tuple₀, htuple₀, hnot, gateway, hgateway, rfl, hleast⟩ := hr.nearest route hroute
    refine ⟨tuple₀, mem_append_left _ htuple₀, hnot, gateway, hgateway, rfl,
      fun tuple' htuple' hsame gateway' hgateway' => ?_⟩
    obtain htuple' | htuple' := mem_append.mp htuple'
    · exact hleast tuple' htuple' hsame gateway' hgateway'
    · cases mem_singleton.mp htuple'
      obtain ⟨route', hroute', hnetwork, hle⟩ :=
        hskip ((announces_congr hsame).trans hnot) gateway' hgateway'
      cases hr.distinct.eq_of_key hroute hroute' (hsame.symm.trans hnetwork.symm)
      exact hle
  complete := by
    intro tuple' htuple' hnot gateway hgateway
    obtain htuple' | htuple' := mem_append.mp htuple'
    · exact hr.complete tuple' htuple' hnot gateway hgateway
    · cases mem_singleton.mp htuple'
      obtain ⟨route, hroute, hnetwork, -⟩ := hskip hnot gateway hgateway
      exact ⟨route, hroute, hnetwork⟩

/-- A new route, where there is none to the network any more and there was none that is as good. -/
theorem HnaRoutes.insert (hr : n.HnaRoutes table associations routes)
    (hnot : n.announces tuple = false) {gateway : RoutingTableEntry}
    (hgateway : Lookup table tuple.gatewayAddr = some gateway)
    (hless : ∀ route ∈ routes, route.network = tuple.network → gateway.distance < route.metric)
    {routes' : List HnaRoute} (hdistinct : KeyedTable.Distinct HnaRoute.network routes')
    (hmem : ∀ route, route ∈ routes' ↔ route ∈ routes ∧ route.network ≠ tuple.network) :
    n.HnaRoutes table (associations ++ [tuple]) (routes' ++ [hnaRoute tuple gateway]) where
  distinct := by
    refine pairwise_append.mpr ⟨hdistinct, pairwise_singleton .., ?_⟩
    intro route hroute route' hroute'
    rw [mem_singleton.mp hroute']
    exact ((hmem route).mp hroute).2
  nearest := by
    intro route hroute
    obtain hroute | hroute := mem_append.mp hroute
    · obtain ⟨hroute, hne⟩ := (hmem route).mp hroute
      obtain ⟨tuple₀, htuple₀, hnot₀, gateway₀, hgateway₀, rfl, hleast⟩ := hr.nearest route hroute
      refine ⟨tuple₀, mem_append_left _ htuple₀, hnot₀, gateway₀, hgateway₀, rfl,
        fun tuple' htuple' hsame gateway' hgateway' => ?_⟩
      obtain htuple' | htuple' := mem_append.mp htuple'
      · exact hleast tuple' htuple' hsame gateway' hgateway'
      · cases mem_singleton.mp htuple'
        exact absurd hsame.symm hne
    · rw [mem_singleton.mp hroute]
      refine ⟨tuple, mem_append_right _ (mem_singleton.mpr rfl), hnot, gateway, hgateway,
        rfl, fun tuple' htuple' hsame gateway' hgateway' => ?_⟩
      obtain htuple' | htuple' := mem_append.mp htuple'
      · -- there was a route for the other one, and the new gateway is nearer than that
        obtain ⟨route₀, hroute₀, hnetwork⟩ :=
          hr.complete tuple' htuple' ((announces_congr hsame).trans hnot) gateway' hgateway'
        have hlt := hless route₀ hroute₀ (hnetwork.trans hsame)
        obtain ⟨tuple₀, -, -, gateway₀, -, rfl, hleast⟩ := hr.nearest route₀ hroute₀
        have hle := hleast tuple' htuple' hnetwork.symm gateway' hgateway'
        exact Nat.le_of_lt (Nat.lt_of_lt_of_le hlt hle)
      · cases mem_singleton.mp htuple'
        cases hgateway.symm.trans hgateway'
        exact Nat.le_refl _
  complete := by
    intro tuple' htuple' hnot' gateway' hgateway'
    by_cases hsame : tuple'.network = tuple.network
    · exact ⟨hnaRoute tuple gateway, mem_append_right _ (mem_singleton.mpr rfl),
        hsame.symm⟩
    · obtain htuple' | htuple' := mem_append.mp htuple'
      · obtain ⟨route, hroute, hnetwork⟩ := hr.complete tuple' htuple' hnot' gateway' hgateway'
        have hkept := (hmem route).mpr ⟨hroute, hnetwork ▸ hsame⟩
        exact ⟨route, mem_append_left _ hkept, hnetwork⟩
      · cases mem_singleton.mp htuple'
        exact absurd rfl hsame

/-- **One association.** -/
theorem HnaRoutes.addAssociation (hr : n.HnaRoutes table associations routes)
    (tuple : AssociationTuple) :
    n.HnaRoutes table (associations ++ [tuple]) (n.addAssociation table routes tuple) := by
  rw [Node.addAssociation]
  by_cases hannounces : n.announces tuple = true
  · rw [if_pos hannounces]
    exact hr.skip fun hnot => by cases hannounces.symm.trans hnot
  · have hnot : n.announces tuple = false := Bool.eq_false_iff.mpr hannounces
    rw [if_neg hannounces]
    split
    · rename_i gateway hfind hgateway
      have hnone := find_eq_none.mp hfind
      refine hr.insert hnot hgateway (fun route hroute hsame => absurd hsame (hnone route hroute))
        hr.distinct fun route => ?_
      exact ⟨fun hroute => ⟨hroute, hnone route hroute⟩, And.left⟩
    · rename_i route gateway hfind hgateway
      obtain ⟨hroute, hnetwork⟩ := mem_of_find hfind
      split
      · rename_i hlt
        refine hr.insert hnot hgateway (fun route' hroute' hsame => ?_) hr.distinct.erase
          fun route' => hr.distinct.erase_mem route'
        cases hr.distinct.eq_of_key hroute' hroute (hsame.trans hnetwork.symm)
        exact hlt
      · rename_i hle
        refine hr.skip fun _ gateway' hgateway' => ?_
        cases hgateway.symm.trans hgateway'
        exact ⟨route, hroute, hnetwork, Nat.le_of_not_lt hle⟩
    · rename_i hgateway
      exact hr.skip fun _ gateway' hgateway' => by cases hgateway.symm.trans hgateway'

/-- The HNA routes are the announced associations. -/
theorem addAssociations_spec (n : Node) (table : List RoutingTableEntry)
    (tuples : List AssociationTuple) :
    n.HnaRoutes table tuples (tuples.foldl (n.addAssociation table) []) := by
  induction tuples using List.reverseRecOn with
  | nil => exact n.hnaRoutes_nil table
  | append_singleton tuples tuple ih =>
    rw [foldl_append]
    exact ih.addAssociation tuple

/-! ### The tables -/

/-- A destination that is no neighbor and no two-hop neighbor, but that topology tuples reach from
a two-hop neighbor over others of the kind, has an entry with the least number of hops so. -/
def FewestHops (n : Node) (table : List RoutingTableEntry) : Prop :=
  ∀ neighbors, n.neighborEntries = .ok neighbors → ∀ dest, Lookup neighbors dest = none →
    (∃ k, Levels.Hops (distances neighbors) n.TopologyArc 2 dest k) →
      ∃ entry, Lookup table dest = some entry ∧
        Levels.Hops (distances neighbors) n.TopologyArc 2 dest entry.distance ∧
          ∀ j, Levels.Hops (distances neighbors) n.TopologyArc 2 dest j → entry.distance ≤ j

/-- **What `RoutingTableComputation` makes**: a routing table that depends on the repositories
only, with next hops that can be used and the fewest hops; and, where there was no more than one
route to another network before, the routes to the other networks. -/
theorem routingTableComputation_correct (n : Node) :
    ∃ table routes,
      (∀ tables, ∃ routes', n.RoutingTableComputation tables = .ok ⟨table, routes'⟩ ∧
        (tables.m_hnaRoutingTable.length ≤ 1 → routes' = routes)) ∧
      (∀ dest entry, Lookup table dest = some entry →
        n.Usable entry.nextAddr entry.interface) ∧
      n.FewestHops table ∧ n.HnaRoutes table n.m_state.m_associationSet routes := by
  obtain ⟨neighbors, hneighbors, hbase⟩ := n.neighborEntries_spec
  have hmissing : n.missing neighbors < n.m_state.m_topologySet.length + 1 :=
    Nat.lt_succ_of_le countP_le_length
  obtain ⟨reached, h, hloop, hw, hleast⟩ :=
    topologyLoop_spec hbase hmissing (Nat.le_refl 2) hbase Levels.labelled_base
  obtain ⟨hextends, hwithin⟩ := addInterfaces_spec hw n.m_state.m_ifaceAssocSet
  refine ⟨n.m_state.m_ifaceAssocSet.foldl addInterface reached, _, fun tables => ?_,
    fun dest entry hentry => (hwithin dest entry hentry).1, ?_,
    n.addAssociations_spec _ n.m_state.m_associationSet⟩
  · refine ⟨_, by rw [RoutingTableComputation, hneighbors, ok_bind, hloop, ok_bind], fun hfew => ?_⟩
    rw [(clearLoop_eq_nil_iff _).mpr hfew]
  · intro neighbors' hneighbors' dest hdest hhops
    cases hneighbors.symm.trans hneighbors'
    classical
    have hk := Nat.find_spec hhops
    have hmin : ∀ j, Levels.Hops (distances neighbors) n.TopologyArc 2 dest j →
        Nat.find hhops ≤ j := fun j hj => Nat.find_min' hhops hj
    obtain ⟨entry, hentry, hdistance⟩ :=
      distances_eq_some.mp ((hleast dest hdest _).mpr ⟨hk, hmin⟩)
    rw [← hdistance] at hk hmin
    exact ⟨entry, hextends dest entry hentry, hk, hmin⟩

/-! ### Topology tuples of neighbors -/

/-- The destination can be reached with so many hops by what is in the repositories. -/
inductive Obtainable (n : Node) : Ipv4Address → ℕ → Prop
  | neighbor {nb : NeighborTuple} {link : LinkTuple} (hnb : nb ∈ n.m_state.m_neighborSet)
      (hsym : nb.status = .STATUS_SYM) (hlink : link ∈ n.m_state.m_linkSet)
      (hmatches : n.linkMatches nb link = true) : Obtainable n nb.neighborMainAddr 1
  | twoHopNeighbor {tuple : TwoHopNeighborTuple} (htuple : tuple ∈ n.m_state.m_twoHopNeighborSet)
      (hok : n.isTwoHopNeighbor tuple = true) (hneighbor : Obtainable n tuple.neighborMainAddr 1) :
      Obtainable n tuple.twoHopNeighborAddr 2
  | topology {last dest : Ipv4Address} {h : ℕ} (hlast : Obtainable n last h)
      (harc : n.TopologyArc last dest) : Obtainable n dest (h + 1)

/-- The neighbor 20, the two-hop neighbor 30, and 40, to which there is a topology tuple from each
of the two. -/
def topologyOfNeighbor : Node where
  m_mainAddress := 10
  m_ipv4 := [[10]]
  m_state :=
    { m_linkSet := [⟨10, 20, 100, 100, 100⟩]
      m_neighborSet := [⟨20, .STATUS_SYM, 3, 0⟩]
      m_ifaceAssocSet := []
      m_twoHopNeighborSet := [⟨20, 30⟩]
      m_topologySet := [⟨40, 20⟩, ⟨40, 30⟩]
      m_associationSet := []
      m_associations := [] }
  now := 0
  isLocal := by decide

/-- 40 gets an entry with 3 hops, though it can be reached with 2: the loop over the topology set
starts with the two-hop neighbors. -/
theorem not_minimum_topologyOfNeighbor :
    ∃ tables entry, topologyOfNeighbor.RoutingTableComputation ⟨[], []⟩ = .ok tables ∧
      Lookup tables.m_table 40 = some entry ∧ ∃ k, topologyOfNeighbor.Obtainable 40 k ∧
        k < entry.distance := by
  have hmatches : topologyOfNeighbor.linkMatches ⟨20, .STATUS_SYM, 3, 0⟩
      ⟨10, 20, 100, 100, 100⟩ = true := by decide
  have hneighbor : topologyOfNeighbor.Obtainable 20 1 :=
    .neighbor (mem_singleton.mpr rfl) rfl (mem_singleton.mpr rfl) hmatches
  exact ⟨_, _, rfl, rfl, 2, .topology hneighbor ⟨⟨40, 20⟩, mem_cons_self .., rfl, rfl⟩,
    by decide⟩

end Node
end Ns3Joined.Olsr
