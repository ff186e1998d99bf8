import Mathlib
import Ns3Joined.Fault
import Ns3Joined.Library.ExceptFold
import Ns3Joined.Library.TracedRun

/-!
# The path cache of DSR

`DsrRouteCache` (`dsr-rcache.cc`) as a path cache: for each destination a list of routes, those
that expire last first.

* `AddRoute`, `LookupRoute`, `UpdateRouteEntry`, `DeleteRoute`, `DeleteAllRoutesIncludeLink`.
* `CacheRight`: every stored route is one to its destination, there are not too many, what is
  looked up is a route to the node, and no stored route uses a link that was just reported.
* `Sound`: the calls that keep it so.
* `throughout_cacheRight`: over any calls.
* `lookupRoute_live`: what is looked up has not expired.
-/

namespace Ns3Joined.Dsr

open List (forall_mem_cons mem_cons mem_cons_of_mem mem_cons_self mem_filter mem_map
  mem_singleton)

abbrev Ipv4Address := UInt32

/-- A route: its expire time is that of the simulator. -/
structure DsrRouteCacheEntry where
  m_dst : Ipv4Address
  m_path : List Ipv4Address
  m_expire : ℤ
deriving DecidableEq

/-- The routes of each destination, as the map runs through them. -/
abbrev Routes := List (Ipv4Address × List DsrRouteCacheEntry)

structure DsrRouteCache where
  m_sortedRoutes : Routes
  m_maxEntriesEachDst : ℕ
  m_subRoute : Bool
  RouteCacheTimeout : ℤ
deriving DecidableEq

/-! ### The map -/

/-- The routes of a destination are put in the place of those there were. -/
def Routes.put (dst : Ipv4Address) (rtVector : List DsrRouteCacheEntry) : Routes → Routes
  | [] => [(dst, rtVector)]
  | (d, routes) :: rest =>
    -- the map is in the order of the destinations
    if d < dst then (d, routes) :: put dst rtVector rest
    else if d = dst then (dst, rtVector) :: rest
    else (dst, rtVector) :: (d, routes) :: rest

def Routes.find (dst : Ipv4Address) (routes : Routes) : Option (List DsrRouteCacheEntry) :=
  (routes.find? fun slot => slot.1 == dst).map Prod.snd

/-- `sort (CompareRoutesExpire)`, which keeps the order of those that expire together. -/
def sortExpire (rtVector : List DsrRouteCacheEntry) : List DsrRouteCacheEntry :=
  rtVector.insertionSort fun a b => ¬ b.m_expire > a.m_expire

namespace DsrRouteCache

/-! ### The operations -/

/-- `Purge`: expired routes go, and destinations without routes. -/
def Purge (s : DsrRouteCache) (now : ℤ) : DsrRouteCache :=
  let live := fun rt : DsrRouteCacheEntry => !decide (rt.m_expire - now ≤ 0)
  let slots := s.m_sortedRoutes.map fun slot => (slot.1, slot.2.filter live)
  { s with m_sortedRoutes := slots.filter fun slot => !slot.2.isEmpty }

/-- `FindSameRoute`: the list with the expire time of the same route brought up to date. -/
def FindSameRoute (rt : DsrRouteCacheEntry) :
    List DsrRouteCacheEntry → Option (List DsrRouteCacheEntry)
  | [] => none
  | i :: rest =>
    if i.m_path = rt.m_path then
      -- a route that is there keeps the later expire time
      some ((if rt.m_expire > i.m_expire then { i with m_expire := rt.m_expire } else i) :: rest)
    else
      (FindSameRoute rt rest).map (i :: ·)

/-- `AddRoute`. -/
def AddRoute (s : DsrRouteCache) (now : ℤ) (rt : DsrRouteCacheEntry) : DsrRouteCache :=
  let s := s.Purge now
  match s.m_sortedRoutes.find rt.m_dst with
  | none => { s with m_sortedRoutes := s.m_sortedRoutes.put rt.m_dst [rt] }
  | some routes =>
    -- the one that expires first is dropped
    let rtVector := if routes.length ≥ s.m_maxEntriesEachDst then routes.dropLast else routes
    match FindSameRoute rt rtVector with
    | some rtVector =>
      { s with m_sortedRoutes := s.m_sortedRoutes.put rt.m_dst (sortExpire rtVector) }
    | none =>
      if rt.m_expire - now > 0 then
        { s with m_sortedRoutes := s.m_sortedRoutes.put rt.m_dst (sortExpire (rtVector ++ [rt])) }
      else s

/-- `changeVector`: the path as far as the node. -/
def upTo (id : Ipv4Address) : List Ipv4Address → List Ipv4Address
  | [] => []
  | x :: path => if x ≠ id then x :: upTo id path else [x]

/-- The sub-route to a node that a route has, if it is a longer one. -/
def subRoute (id : Ipv4Address) (rt : DsrRouteCacheEntry) : Option DsrRouteCacheEntry :=
  let changeVector := upTo id rt.m_path
  if changeVector.length < rt.m_path.length ∧ changeVector.length > 1 then
    some ⟨id, changeVector, rt.m_expire⟩
  else none

/-- `LookupRoute`. A sub-route is stored while the map is run through; visited in its turn, it has
no shorter one. -/
def LookupRoute (s : DsrRouteCache) (now : ℤ) (id : Ipv4Address) :
    DsrRouteCache × Option DsrRouteCacheEntry :=
  let s := s.Purge now
  let s' :=
    match s.m_sortedRoutes.find id with
    | some _ => s
    | none =>
      let subRoutes := (s.m_sortedRoutes.flatMap Prod.snd).filterMap (subRoute id)
      let stored := subRoutes.foldl (fun routes changeEntry => routes.put id [changeEntry])
        s.m_sortedRoutes
      { s with m_sortedRoutes := stored }
  -- the first entry in the route vector
  (s', (s'.m_sortedRoutes.find id).bind List.head?)

/-- `UpdateRouteEntry`. -/
def UpdateRouteEntry (s : DsrRouteCache) (now : ℤ) (dst : Ipv4Address) :
    Except Fault DsrRouteCache :=
  match s.m_sortedRoutes.find dst with
  | none => .ok s
  | some [] => .error .undefined
  | some (front :: rest) =>
    let successEntry := { front with m_expire := s.RouteCacheTimeout + now }
    .ok { s with m_sortedRoutes := s.m_sortedRoutes.put dst (sortExpire (rest ++ [successEntry])) }

/-- `DeleteRoute`. -/
def DeleteRoute (s : DsrRouteCache) (now : ℤ) (dst : Ipv4Address) : DsrRouteCache :=
  let s := s.Purge now
  { s with m_sortedRoutes := s.m_sortedRoutes.filter fun slot => slot.1 != dst }

/-- `changeVector`: the path as far as the link. The node after `errorSrc` is read without a look
at the end of the vector. -/
def cutPath (errorSrc unreachNode : Ipv4Address) :
    List Ipv4Address → Except Fault (List Ipv4Address)
  | [] => .ok []
  | x :: path =>
    if x ≠ errorSrc then
      (cutPath errorSrc unreachNode path).map (x :: ·)
    else
      match path with
      | [] => .error .outOfRange
      | y :: _ =>
        if y = unreachNode then .ok [x] else (cutPath errorSrc unreachNode path).map (x :: ·)

/-- The loop over the routes of a destination, with those that were kept: a route that is cut is
erased, and what is left of it goes to the end of the list, where the loop comes to it unless the
route was the last. -/
def cutLoop (subRoute : Bool) (errorSrc unreachNode : Ipv4Address) :
    ℕ → List DsrRouteCacheEntry → List DsrRouteCacheEntry → Except Fault (List DsrRouteCacheEntry)
  | _, kept, [] => .ok kept
  | 0, _, _ :: _ => .error .diverges
  | rounds + 1, kept, k :: rest => do
    let changeVector ← cutPath errorSrc unreachNode k.m_path
    -- the link is not on this route
    if changeVector.length = k.m_path.length then
      cutLoop subRoute errorSrc unreachNode rounds (kept ++ [k]) rest
    else if changeVector.length < k.m_path.length ∧ changeVector.length > 1 ∧ subRoute then
      let changeEntry := ⟨changeVector.getLastD 0, changeVector, k.m_expire⟩
      match rest with
      -- `erase` gave the end of the list, and there it stays when something is pushed back
      | [] => .ok (kept ++ [changeEntry])
      | next :: rest =>
        cutLoop subRoute errorSrc unreachNode rounds kept (next :: rest ++ [changeEntry])
    else
      cutLoop subRoute errorSrc unreachNode rounds kept rest

/-- Each route is visited once for every node it has, at most. -/
def rounds (rtVector : List DsrRouteCacheEntry) : ℕ :=
  (rtVector.map fun rt => rt.m_path.length + 1).sum

/-- `DeleteAllRoutesIncludeLink`. -/
def DeleteAllRoutesIncludeLink (s : DsrRouteCache) (now : ℤ)
    (errorSrc unreachNode : Ipv4Address) : Except Fault DsrRouteCache := do
  let s := s.Purge now
  let slots ← s.m_sortedRoutes.mapM fun slot => do
    let rtVector ← cutLoop s.m_subRoute errorSrc unreachNode (rounds slot.2) [] slot.2
    return (slot.1, sortExpire rtVector)
  return { s with m_sortedRoutes := slots.filter fun slot => !slot.2.isEmpty }

/-- What is called on the cache, and when; the link cache only asks who reports a link. -/
inductive Call
  | addRoute (rt : DsrRouteCacheEntry)
  | lookupRoute (id : Ipv4Address)
  | updateRouteEntry (dst : Ipv4Address)
  | deleteRoute (dst : Ipv4Address)
  | deleteAllRoutesIncludeLink (errorSrc unreachNode : Ipv4Address)

/-- What came of a call: a route was looked up, a link was reported, or something else. -/
inductive Event
  | found (id : Ipv4Address) (rt : Option DsrRouteCacheEntry)
  | reported (errorSrc unreachNode : Ipv4Address)
  | changed
deriving DecidableEq

/-- One call at a time. -/
def step (s : DsrRouteCache) : ℤ × Call → Except Fault (DsrRouteCache × List Event)
  | (now, .addRoute rt) => .ok (s.AddRoute now rt, [.changed])
  | (now, .lookupRoute id) =>
    .ok ((s.LookupRoute now id).1, [.found id (s.LookupRoute now id).2])
  | (now, .updateRouteEntry dst) => (s.UpdateRouteEntry now dst).map fun s' => (s', [.changed])
  | (now, .deleteRoute dst) => .ok (s.DeleteRoute now dst, [.changed])
  | (now, .deleteAllRoutesIncludeLink errorSrc unreachNode) =>
    (s.DeleteAllRoutesIncludeLink now errorSrc unreachNode).map fun s' =>
      (s', [.reported errorSrc unreachNode])

/-! ### What is kept -/

/-- A route to the node: it has a link, and ends there. -/
def IsRoute (dst : Ipv4Address) (rt : DsrRouteCacheEntry) : Prop :=
  2 ≤ rt.m_path.length ∧ rt.m_path.getLast? = some dst

/-- The routes that are stored lead where they are filed and are not too many; the route last
looked up is one; and a link just reported is used by none. -/
structure CacheRight (s : DsrRouteCache) (h : List Event) : Prop where
  isRoute : ∀ slot ∈ s.m_sortedRoutes, ∀ rt ∈ slot.2, IsRoute slot.1 rt
  bounded : ∀ slot ∈ s.m_sortedRoutes, slot.2.length ≤ s.m_maxEntriesEachDst
  found : ∀ id rt, h.getLast? = some (.found id (some rt)) → IsRoute id rt
  reported : ∀ a b, h.getLast? = some (.reported a b) →
    ∀ slot ∈ s.m_sortedRoutes, ∀ rt ∈ slot.2, ¬ [a, b] <:+: rt.m_path

/-- The routes that are added end at their destination and visit no node twice. -/
def Allowed : Call → Prop
  | .addRoute rt => rt.m_path.getLast? = some rt.m_dst ∧ rt.m_path.Nodup
  | _ => True

/-- The calls that keep the cache right: an added route has a link, or has expired where there are
others; and when a link is reported no route ends where it starts, and where what is left of a
route is kept, that is nothing, since the route starts with the link. -/
def Sound (s : DsrRouteCache) (now : ℤ) : Call → Prop
  | .addRoute rt => 2 ≤ rt.m_path.length ∨
    rt.m_expire ≤ now ∧ ((s.Purge now).m_sortedRoutes.find rt.m_dst).isSome
  | .deleteAllRoutesIncludeLink a b =>
    ∀ slot ∈ (s.Purge now).m_sortedRoutes, ∀ rt ∈ slot.2, rt.m_path.getLast? ≠ some a ∧
      (s.m_subRoute = true → [a, b] <:+: rt.m_path → [a, b] <+: rt.m_path)
  | _ => True

instance (call : Call) : Decidable (Allowed call) :=
  match call with
  | .addRoute _ => inferInstanceAs (Decidable (_ ∧ _))
  | .lookupRoute _ | .updateRouteEntry _ | .deleteRoute _ | .deleteAllRoutesIncludeLink _ _ =>
    inferInstanceAs (Decidable True)

instance (s : DsrRouteCache) (now : ℤ) (call : Call) : Decidable (s.Sound now call) :=
  match call with
  | .addRoute _ => inferInstanceAs (Decidable (_ ∨ _ ∧ _))
  | .deleteAllRoutesIncludeLink _ _ =>
    inferInstanceAs (Decidable (∀ _ ∈ _, ∀ _ ∈ Prod.snd _, _ ∧ (_ → _ → _)))
  | .lookupRoute _ | .updateRouteEntry _ | .deleteRoute _ => inferInstanceAs (Decidable True)

variable {s s' : DsrRouteCache} {now : ℤ} {dst id a b : Ipv4Address} {routes t : Routes}
  {slot : Ipv4Address × List DsrRouteCacheEntry} {rt e : DsrRouteCacheEntry}
  {rtVector kept : List DsrRouteCacheEntry} {path : List Ipv4Address}

/-! ### The map -/

/-- A slot after `put` is the new one or was there. -/
theorem mem_put (h : slot ∈ t.put dst rtVector) : slot = (dst, rtVector) ∨ slot ∈ t := by
  induction t with
  | nil => exact .inl (mem_singleton.mp h)
  | cons first rest ih =>
    rw [Routes.put] at h
    split_ifs at h
    · rcases mem_cons.mp h with rfl | h
      · exact .inr mem_cons_self
      · exact (ih h).imp_right (mem_cons_of_mem _)
    · exact (mem_cons.mp h).imp_right (mem_cons_of_mem _)
    · exact mem_cons.mp h

theorem mem_of_find (h : t.find dst = some rtVector) : (dst, rtVector) ∈ t := by
  obtain ⟨⟨d, routes⟩, hfind, rfl⟩ := Option.map_eq_some_iff.mp h
  have hd : d = dst := by simpa using List.find?_some hfind
  rw [← hd]
  exact List.mem_of_find?_eq_some hfind

@[simp] theorem mem_sortExpire : rt ∈ sortExpire rtVector ↔ rt ∈ rtVector :=
    List.mem_insertionSort _

@[simp] theorem length_sortExpire : (sortExpire rtVector).length = rtVector.length :=
  List.length_insertionSort _ _

/-! ### Paths -/

/-- What is shorter ends at the node. -/
theorem getLast?_upTo (h : (upTo id path).length < path.length) :
    (upTo id path).getLast? = some id := by
  induction path with
  | nil => cases h
  | cons x path ih =>
    rw [upTo] at h ⊢
    split_ifs at h ⊢ with hx
    · have hlt : (upTo id path).length < path.length := Nat.lt_of_succ_lt_succ h
      rw [List.getLast?_cons, ih hlt]
      rfl
    · rw [not_not.mp hx]
      rfl

theorem isRoute_of_subRoute (h : subRoute id rt = some e) : IsRoute id e := by
  unfold subRoute at h
  dsimp only at h
  split_ifs at h with hlong
  cases h
  exact ⟨hlong.2, getLast?_upTo hlong.1⟩

/-- A path that starts with the link is cut behind its first node. -/
theorem cutPath_of_first (h : [a, b] <+: path) : cutPath a b path = .ok [a] := by
  obtain ⟨rest, rfl⟩ := h
  simp [cutPath]

/-- A path that does not end in the first node of the link is shortened if it has the link. -/
theorem cutPath_spec (hlast : path.getLast? ≠ some a) :
    ∃ changeVector, cutPath a b path = .ok changeVector ∧ changeVector.length ≤ path.length ∧
      (changeVector.length = path.length ↔ ¬ [a, b] <:+: path) := by
  induction path with
  | nil => exact ⟨[], rfl, Nat.le_refl 0, by simp⟩
  | cons x path ih =>
    cases path with
    | nil =>
      -- a single node is no `errorSrc`, behind which the vector would be left
      have hx : x ≠ a := by
        rintro rfl
        exact hlast rfl
      rw [cutPath, if_pos hx]
      exact ⟨[x], rfl, Nat.le_refl 1, by simp [List.infix_cons_iff]⟩
    | cons y path =>
      obtain ⟨changeVector, hcut, hle, hiff⟩ := ih (List.getLast?_cons_cons ▸ hlast)
      have hstart : [a, b] <+: x :: y :: path ↔ x = a ∧ y = b := by
        simp [List.cons_prefix_cons, eq_comm]
      rw [cutPath, hcut, List.infix_cons_iff, hstart]
      -- not at `errorSrc`, at the link, or at `errorSrc` before another node
      split_ifs with hx hy
      · refine ⟨x :: changeVector, rfl, Nat.succ_le_succ hle, ?_⟩
        simpa [hx] using hiff
      · exact ⟨[x], rfl, by simp, by simp [not_not.mp hx, hy]⟩
      · refine ⟨x :: changeVector, rfl, Nat.succ_le_succ hle, ?_⟩
        simpa [hy] using hiff

/-- Where no route ends in the first node of the link, and a route that is cut leaves nothing to
keep, the loop erases the routes with the link. -/
theorem cutLoop_eq {keep : Bool} {todo : List DsrRouteCacheEntry}
    (h : ∀ rt ∈ todo, rt.m_path.getLast? ≠ some a ∧
      (keep = true → [a, b] <:+: rt.m_path → [a, b] <+: rt.m_path))
    {n : ℕ} (hn : todo.length ≤ n) :
    cutLoop keep a b n kept todo =
      .ok (kept ++ todo.filter fun rt => decide (¬ [a, b] <:+: rt.m_path)) := by
  induction todo generalizing n kept with
  | nil =>
    rw [List.filter_nil, List.append_nil]
    cases n <;> rfl
  | cons k todo ih =>
    obtain ⟨n, rfl⟩ : ∃ m, n = m + 1 := Nat.exists_eq_succ_of_ne_zero (by
      rintro rfl
      exact absurd hn (Nat.not_succ_le_zero _))
    obtain ⟨⟨hlast, hkeep⟩, hrest⟩ := forall_mem_cons.mp h
    have hn' : todo.length ≤ n := Nat.le_of_succ_le_succ hn
    obtain ⟨changeVector, hcut, -, hiff⟩ := cutPath_spec (b := b) hlast
    -- each route takes one of the rounds
    by_cases hin : [a, b] <:+: k.m_path
    · have hshort : ¬ (changeVector.length < k.m_path.length ∧ changeVector.length > 1 ∧
          keep = true) := by
        rintro ⟨-, hlong, htrue⟩
        rw [cutPath_of_first (hkeep htrue hin)] at hcut
        cases hcut
        exact Nat.lt_irrefl 1 hlong
      rw [cutLoop, hcut, List.filter_cons_of_neg (by simpa using hin)]
      dsimp only [bind, Except.bind]
      rw [if_neg fun heq => hiff.mp heq hin, if_neg hshort]
      exact ih hrest hn'
    · rw [cutLoop, hcut, List.filter_cons_of_pos (by simpa using hin)]
      dsimp only [bind, Except.bind]
      rw [if_pos (hiff.mpr hin), ih hrest hn', List.append_assoc]
      rfl

/-! ### What the operations keep -/

/-- What is stored for a destination, of as many routes as there may be. -/
structure Held (max : ℕ) (slot : Ipv4Address × List DsrRouteCacheEntry) : Prop where
  ne_nil : slot.2 ≠ []
  length_le : slot.2.length ≤ max
  isRoute : ∀ rt ∈ slot.2, IsRoute slot.1 rt

/-- All that is stored, in a cache with room for a route. -/
structure Kept (s : DsrRouteCache) : Prop where
  room : 1 ≤ s.m_maxEntriesEachDst
  held : ∀ slot ∈ s.m_sortedRoutes, Held s.m_maxEntriesEachDst slot

variable {max : ℕ}

/-- A part of the routes to a destination can be held. -/
theorem Held.of_sublist (h : Held max (dst, rtVector)) (hsub : kept.Sublist rtVector)
    (hne : kept ≠ []) : Held max (dst, kept) where
  ne_nil := hne
  length_le := hsub.length_le.trans h.length_le
  isRoute := fun rt hrt => h.isRoute rt (hsub.subset hrt)

/-- As many routes, each with the path of one that is held. -/
theorem Held.of_paths (h : Held max (dst, rtVector)) (hlength : kept.length = rtVector.length)
    (hpaths : ∀ rt ∈ kept, ∃ rt' ∈ rtVector, rt.m_path = rt'.m_path) : Held max (dst, kept) where
  ne_nil := by
    intro hnil
    have hkept : kept = [] := hnil
    rw [hkept] at hlength
    exact h.ne_nil (List.eq_nil_of_length_eq_zero hlength.symm)
  length_le := hlength.trans_le h.length_le
  isRoute := by
    intro rt hrt
    obtain ⟨rt', hrt', hpath⟩ := hpaths rt hrt
    have hroute : IsRoute dst rt' := h.isRoute rt' hrt'
    unfold IsRoute at hroute ⊢
    rw [hpath]
    exact hroute

/-- The routes can be put in the order of their expiration. -/
theorem Held.sortExpire (h : Held max (dst, rtVector)) : Held max (dst, sortExpire rtVector) := by
  refine h.of_paths length_sortExpire fun rt hrt => ?_
  exact ⟨rt, mem_sortExpire.mp hrt, rfl⟩

theorem Held.singleton (hroom : 1 ≤ max) (h : IsRoute dst rt) : Held max (dst, [rt]) where
  ne_nil := List.cons_ne_nil rt []
  length_le := hroom
  isRoute := List.forall_mem_singleton.mpr h

/-- Routes that can be held are put in the cache. -/
theorem Kept.put (hk : Kept s) (h : Held s.m_maxEntriesEachDst (dst, rtVector)) :
    Kept { s with m_sortedRoutes := s.m_sortedRoutes.put dst rtVector } where
  room := hk.room
  held := by
    intro slot hslot
    rcases mem_put hslot with rfl | hslot
    · exact h
    · exact hk.held slot hslot

/-- `Purge` keeps the cache. -/
theorem Kept.purge (hk : Kept s) (now : ℤ) : Kept (s.Purge now) where
  room := hk.room
  held := by
    intro slot hslot
    obtain ⟨hslot, hne⟩ := mem_filter.mp hslot
    obtain ⟨⟨dst, rtVector⟩, hmem, rfl⟩ := mem_map.mp hslot
    refine (hk.held _ hmem).of_sublist List.filter_sublist fun hnil => ?_
    dsimp only at hnil hne
    rw [hnil] at hne
    cases hne

/-- `FindSameRoute` changes expirations only. -/
theorem FindSameRoute_spec (h : FindSameRoute rt rtVector = some kept) :
    kept.length = rtVector.length ∧
      ∀ rt' ∈ kept, ∃ rt'' ∈ rtVector, rt'.m_path = rt''.m_path := by
  induction rtVector generalizing kept with
  | nil => cases h
  | cons i rest ih =>
    rw [FindSameRoute] at h
    by_cases hsame : i.m_path = rt.m_path
    · rw [if_pos hsame] at h
      cases h
      refine ⟨rfl, forall_mem_cons.mpr ⟨⟨i, mem_cons_self, ?_⟩, fun rt' hrt' => ?_⟩⟩
      · split_ifs <;> rfl
      · exact ⟨rt', mem_cons_of_mem i hrt', rfl⟩
    · rw [if_neg hsame] at h
      obtain ⟨kept', hkept', rfl⟩ := Option.map_eq_some_iff.mp h
      obtain ⟨hlength, hpaths⟩ := ih hkept'
      refine ⟨congrArg (· + 1) hlength, forall_mem_cons.mpr
        ⟨⟨i, mem_cons_self, rfl⟩, fun rt' hrt' => ?_⟩⟩
      obtain ⟨rt'', hrt'', hpath⟩ := hpaths rt' hrt'
      exact ⟨rt'', mem_cons_of_mem i hrt'', hpath⟩

/-- `AddRoute` keeps the cache. -/
theorem Kept.addRoute (hk : Kept s) (hlast : rt.m_path.getLast? = some rt.m_dst)
    (hsound : s.Sound now (.addRoute rt)) : Kept (s.AddRoute now rt) := by
  have hp := hk.purge now
  unfold AddRoute
  dsimp only
  cases hfind : (s.Purge now).m_sortedRoutes.find rt.m_dst with
  | none =>
    -- the first to its destination is stored even if it has expired
    have hlong : 2 ≤ rt.m_path.length := by
      refine hsound.resolve_right fun hexpired => ?_
      rw [hfind] at hexpired
      exact Bool.false_ne_true hexpired.2
    exact hp.put (Held.singleton hp.room ⟨hlong, hlast⟩)
  | some routes =>
    have hheld := hp.held _ (mem_of_find hfind)
    have hpos : 0 < routes.length := List.length_pos_of_ne_nil hheld.ne_nil
    have hle : routes.length ≤ (s.Purge now).m_maxEntriesEachDst := hheld.length_le
    dsimp only
    -- of as many as there may be, one is dropped
    generalize hdrop : (if routes.length ≥ (s.Purge now).m_maxEntriesEachDst then routes.dropLast
      else routes) = rtVector
    have hsub : rtVector.Sublist routes := by
      rw [← hdrop]
      split_ifs
      · exact List.dropLast_sublist routes
      · exact List.Sublist.refl routes
    have hlength : rtVector.length + 1 ≤ (s.Purge now).m_maxEntriesEachDst := by
      rw [← hdrop]
      split_ifs with hfull
      · rw [List.length_dropLast]
        omega
      · omega
    cases hsame : FindSameRoute rt rtVector with
    | some kept =>
      obtain ⟨hkept, hpaths⟩ := FindSameRoute_spec hsame
      -- the same route was there
      have hne : rtVector ≠ [] := by
        rintro rfl
        cases hsame
      exact hp.put ((hheld.of_sublist hsub hne).of_paths hkept hpaths).sortExpire
    | none =>
      dsimp only
      -- a new one is stored unless it has expired
      split_ifs with hlive
      · have hlong : 2 ≤ rt.m_path.length := by
          refine hsound.resolve_right fun hexpired => ?_
          have := hexpired.1
          omega
        refine hp.put (Held.sortExpire ⟨by simp, by simpa using hlength, fun rt' hrt' => ?_⟩)
        rcases List.mem_append.mp hrt' with hrt' | hrt'
        · exact hheld.isRoute rt' (hsub.subset hrt')
        · rw [mem_singleton.mp hrt']
          exact ⟨hlong, hlast⟩
      · exact hp

/-- The sub-routes to a node are stored one after the other, the last one in the place of all. -/
theorem Kept.foldl_put (hk : Kept s) {subRoutes : List DsrRouteCacheEntry}
    (h : ∀ e ∈ subRoutes, IsRoute id e) :
    Kept { s with m_sortedRoutes :=
      subRoutes.foldl (fun routes changeEntry =>
        routes.put id [changeEntry]) s.m_sortedRoutes } := by
  induction subRoutes generalizing s with
  | nil => exact hk
  | cons e subRoutes ih =>
    obtain ⟨he, hrest⟩ := forall_mem_cons.mp h
    exact ih (hk.put (Held.singleton hk.room he)) hrest

/-- `LookupRoute` keeps the cache. -/
theorem Kept.lookupRoute (hk : Kept s) (now : ℤ) (id : Ipv4Address) :
    Kept (s.LookupRoute now id).1 := by
  have hp := hk.purge now
  unfold LookupRoute
  dsimp only
  split
  · exact hp
  · refine hp.foldl_put fun e he => ?_
    obtain ⟨rt, -, hsub⟩ := List.mem_filterMap.mp he
    exact isRoute_of_subRoute hsub

/-- What is looked up is stored under the node. -/
theorem Kept.isRoute_lookupRoute (hk : Kept s) (h : (s.LookupRoute now id).2 = some rt) :
    IsRoute id rt := by
  obtain ⟨rtVector, hfind, hhead⟩ := Option.bind_eq_some_iff.mp h
  have hheld := (hk.lookupRoute now id).held _ (mem_of_find hfind)
  exact hheld.isRoute rt (List.mem_of_head? hhead)

/-- `UpdateRouteEntry` keeps the cache. -/
theorem Kept.updateRouteEntry (hk : Kept s) (now : ℤ) (dst : Ipv4Address) :
    ∃ s', s.UpdateRouteEntry now dst = .ok s' ∧ Kept s' := by
  unfold UpdateRouteEntry
  cases hfind : s.m_sortedRoutes.find dst with
  | none => exact ⟨s, rfl, hk⟩
  | some routes =>
    have hheld := hk.held _ (mem_of_find hfind)
    cases routes with
    | nil => exact absurd rfl hheld.ne_nil
    | cons front rest =>
      refine ⟨_, rfl, hk.put (hheld.of_paths (by simp) fun rt hrt => ?_).sortExpire⟩
      rcases List.mem_append.mp hrt with hrt | hrt
      · exact ⟨rt, mem_cons_of_mem front hrt, rfl⟩
      · rw [mem_singleton.mp hrt]
        exact ⟨front, mem_cons_self, rfl⟩

/-- `DeleteRoute` keeps the cache. -/
theorem Kept.deleteRoute (hk : Kept s) (now : ℤ) (dst : Ipv4Address) :
    Kept (s.DeleteRoute now dst) where
  room := hk.room
  held := fun slot hslot => (hk.purge now).held slot (List.mem_of_mem_filter hslot)

/-- What is left of the routes of a destination when a link is reported. -/
def without (a b : Ipv4Address) (slot : Ipv4Address × List DsrRouteCacheEntry) :
    Ipv4Address × List DsrRouteCacheEntry :=
  (slot.1, sortExpire (slot.2.filter fun rt => decide (¬ [a, b] <:+: rt.m_path)))

theorem length_le_rounds (rtVector : List DsrRouteCacheEntry) :
    rtVector.length ≤ rounds rtVector := by
  rw [rounds, ← List.length_map (fun rt : DsrRouteCacheEntry => rt.m_path.length + 1)]
  refine List.length_le_sum_of_one_le _ fun n hn => ?_
  obtain ⟨rt, -, rfl⟩ := mem_map.mp hn
  exact Nat.succ_le_succ (Nat.zero_le _)

/-- All routes over the link are cut before it. -/
theorem deleteAll_eq (h : s.Sound now (.deleteAllRoutesIncludeLink a b)) :
    s.DeleteAllRoutesIncludeLink now a b =
      .ok { s.Purge now with m_sortedRoutes :=
        ((s.Purge now).m_sortedRoutes.map (without a b)).filter fun slot => !slot.2.isEmpty } := by
  have hslots : (s.Purge now).m_sortedRoutes.mapM (fun slot => do
      let rtVector ← cutLoop (s.Purge now).m_subRoute a b (rounds slot.2) [] slot.2
      return (slot.1, sortExpire rtVector)) =
        .ok ((s.Purge now).m_sortedRoutes.map (without a b)) := by
    refine ExceptFold.mapM_eq_ok_iff.mpr (List.forall₂_map_right_iff.mpr
      (List.forall₂_same.mpr fun slot hslot => ?_))
    have hkept : cutLoop (s.Purge now).m_subRoute a b (rounds slot.2) [] slot.2 = .ok ([] ++ _) :=
      cutLoop_eq (h slot hslot) (length_le_rounds slot.2)
    rw [hkept]
    rfl
  unfold DeleteAllRoutesIncludeLink
  dsimp only
  rw [hslots]
  rfl

/-- `DeleteAllRoutesIncludeLink` leaves no route over the link. -/
theorem Kept.deleteAll (hk : Kept s) (h : s.Sound now (.deleteAllRoutesIncludeLink a b)) :
    ∃ s', s.DeleteAllRoutesIncludeLink now a b = .ok s' ∧ Kept s' ∧
      ∀ slot ∈ s'.m_sortedRoutes, ∀ rt ∈ slot.2, ¬ [a, b] <:+: rt.m_path := by
  have hp := hk.purge now
  refine ⟨_, deleteAll_eq h, ⟨hp.room, fun slot hslot => ?_⟩, fun slot hslot rt hrt => ?_⟩
  · obtain ⟨hslot, hne⟩ := mem_filter.mp hslot
    obtain ⟨⟨dst, rtVector⟩, hmem, rfl⟩ := mem_map.mp hslot
    refine Held.sortExpire ((hp.held _ hmem).of_sublist List.filter_sublist fun hnil => ?_)
    dsimp only at hnil
    dsimp only [without] at hne
    rw [hnil] at hne
    cases hne
  · obtain ⟨hslot, -⟩ := mem_filter.mp hslot
    obtain ⟨slot, -, rfl⟩ := mem_map.mp hslot
    exact of_decide_eq_true (mem_filter.mp (mem_sortExpire.mp hrt)).2

/-! ### Runs -/

/-- What is kept makes the cache right, when what just happened is right. -/
theorem Kept.cacheRight (hk : Kept s) {h : List Event} {e : Event}
    (hfound : ∀ id rt, e = .found id (some rt) → IsRoute id rt)
    (hreported : ∀ a b, e = .reported a b →
      ∀ slot ∈ s.m_sortedRoutes, ∀ rt ∈ slot.2, ¬ [a, b] <:+: rt.m_path) :
    CacheRight s (h ++ [e]) where
  isRoute := fun slot hslot => (hk.held slot hslot).isRoute
  bounded := fun slot hslot => (hk.held slot hslot).length_le
  found := by
    intro id rt hlast
    rw [List.getLast?_concat] at hlast
    exact hfound id rt (Option.some.inj hlast)
  reported := by
    intro a b hlast
    rw [List.getLast?_concat] at hlast
    exact hreported a b (Option.some.inj hlast)

/-- **One call** keeps the cache. -/
theorem Kept.step (hk : Kept s) (h : List Event) {call : ℤ × Call} (hallowed : Allowed call.2)
    (hsound : s.Sound call.1 call.2) :
    ∃ s' actions, s.step call = .ok (s', actions) ∧ Kept s' ∧ CacheRight s' (h ++ actions) := by
  obtain ⟨now, call⟩ := call
  cases call with
  | addRoute rt =>
    have hk' := hk.addRoute hallowed.1 hsound
    exact ⟨_, _, rfl, hk', hk'.cacheRight nofun nofun⟩
  | lookupRoute id =>
    have hk' := hk.lookupRoute now id
    refine ⟨_, _, rfl, hk', hk'.cacheRight (fun id' rt hfound => ?_) nofun⟩
    obtain ⟨rfl, hrt⟩ := Event.found.inj hfound
    exact hk.isRoute_lookupRoute hrt
  | updateRouteEntry dst =>
    obtain ⟨s', hok, hk'⟩ := hk.updateRouteEntry now dst
    refine ⟨s', [.changed], ?_, hk', hk'.cacheRight nofun nofun⟩
    rw [DsrRouteCache.step, hok]
    rfl
  | deleteRoute dst =>
    have hk' := hk.deleteRoute now dst
    exact ⟨_, _, rfl, hk', hk'.cacheRight nofun nofun⟩
  | deleteAllRoutesIncludeLink a b =>
    obtain ⟨s', hok, hk', hgone⟩ := hk.deleteAll hsound
    refine ⟨s', [.reported a b], ?_, hk', hk'.cacheRight nofun fun a' b' hreported => ?_⟩
    · rw [DsrRouteCache.step, hok]
      rfl
    · obtain ⟨rfl, rfl⟩ := Event.reported.inj hreported
      exact hgone

/-- Calls made with `Sound` on a cache with room, which is empty at first, keep it right. -/
theorem throughout_cacheRight (calls : List (ℤ × Call)) (hempty : s.m_sortedRoutes = [])
    (hroom : 1 ≤ s.m_maxEntriesEachDst)
    (hmeets : TracedRun.Meets step (fun s _ call => Allowed call.2 ∧ s.Sound call.1 call.2) s []
      calls) : TracedRun.Throughout step CacheRight s [] calls := by
  -- `Kept` carries the induction, since a lookup stores routes of its own
  refine TracedRun.throughout_of_meets (fun s h call hJ hP => hJ.1.step h hP.1 hP.2)
    (J := fun s h => Kept s ∧ CacheRight s h) (fun s h hJ => hJ.2) ⟨⟨hroom, ?_⟩, ?_⟩ hmeets
  · rw [hempty]
    exact nofun
  · constructor
    · rw [hempty]
      exact nofun
    · rw [hempty]
      exact nofun
    · exact nofun
    · exact nofun

/-- An empty cache as it is by default, where what is left of a route is kept. -/
def small : DsrRouteCache := ⟨[], 20, true, 300⟩

theorem throughout_cacheRight_small :
    TracedRun.Throughout step CacheRight small [] [(0, .addRoute ⟨4, [1, 2, 3, 4], 9⟩),
      (1, .lookupRoute 3), (2, .deleteAllRoutesIncludeLink 1 2)] :=
  throughout_cacheRight _ rfl (by decide) (by decide +kernel)

/-- The route to 4 is cut behind 2 and stays filed under 4. -/
theorem not_throughout_cacheRight :
    ¬ ∀ calls : List (ℤ × Call),
      TracedRun.Meets step (fun _ _ call => Allowed call.2) small [] calls →
        TracedRun.Throughout step CacheRight small [] calls := by
  intro h
  obtain ⟨s', actions, hok, -, s'', actions', hcut, hright, -⟩ :=
    h [(0, .addRoute ⟨4, [1, 2, 3, 4], 9⟩), (1, .deleteAllRoutesIncludeLink 2 3)]
      (by decide +kernel)
  cases hok
  have hleft : (small.AddRoute 0 ⟨4, [1, 2, 3, 4], 9⟩).step (1, .deleteAllRoutesIncludeLink 2 3) =
      .ok ({ small with m_sortedRoutes := [(4, [⟨2, [1, 2], 9⟩])] }, [.reported 2 3]) := by
    decide +kernel
  rw [hleft] at hcut
  cases hcut
  have hroute : IsRoute 4 ⟨2, [1, 2], 9⟩ :=
    hright.isRoute _ mem_cons_self _ mem_cons_self
  exact absurd hroute.2 (by decide)

/-! ### Routes that are looked up -/

/-- A route up to a node begins as the route does. -/
theorem prefix_upTo (id : Ipv4Address) (path : List Ipv4Address) : upTo id path <+: path := by
  induction path with
  | nil => exact List.prefix_refl []
  | cons x path ih =>
    rw [upTo]
    split_ifs <;> simp [ih]

/-- The route has not expired, and is the beginning of one that is stored. -/
def Live (s : DsrRouteCache) (now : ℤ) (rt : DsrRouteCacheEntry) : Prop :=
  now < rt.m_expire ∧ ∃ slot ∈ s.m_sortedRoutes, ∃ rt' ∈ slot.2,
    rt.m_path <+: rt'.m_path ∧ rt.m_expire = rt'.m_expire

/-- What `Purge` leaves is live. -/
theorem live_of_purge (hslot : slot ∈ (s.Purge now).m_sortedRoutes) (hrt : rt ∈ slot.2) :
    s.Live now rt := by
  obtain ⟨slot', hslot', rfl⟩ := mem_map.mp (List.mem_of_mem_filter hslot)
  obtain ⟨hstored, hlive⟩ := mem_filter.mp hrt
  refine ⟨?_, slot', hslot', rt, hstored, List.prefix_refl _, rfl⟩
  have hlive' : ¬ rt.m_expire - now ≤ 0 := by simpa using hlive
  omega

/-- All routes that are put in have what those put in and those there have. -/
theorem forall_mem_foldl_put {P : DsrRouteCacheEntry → Prop} {subRoutes : List DsrRouteCacheEntry}
    (hsub : ∀ e ∈ subRoutes, P e) (h : ∀ slot ∈ t, ∀ rt ∈ slot.2, P rt) :
    ∀ slot ∈ subRoutes.foldl (fun routes changeEntry => routes.put id [changeEntry]) t,
      ∀ rt ∈ slot.2, P rt := by
  induction subRoutes generalizing t with
  | nil => exact h
  | cons e subRoutes ih =>
    obtain ⟨he, hrest⟩ := forall_mem_cons.mp hsub
    refine ih hrest fun slot hslot rt hrt => ?_
    rcases mem_put hslot with rfl | hslot
    · rw [mem_singleton.mp hrt]
      exact he
    · exact h slot hslot rt hrt

/-- **What is looked up** has not expired, whatever the cache holds, and is a stored route or the
beginning of one. -/
theorem lookupRoute_live (h : (s.LookupRoute now id).2 = some rt) : s.Live now rt := by
  obtain ⟨rtVector, hfind, hhead⟩ := Option.bind_eq_some_iff.mp h
  have hmem := mem_of_find hfind
  have hrt : rt ∈ rtVector := List.mem_of_head? hhead
  cases hstored : (s.Purge now).m_sortedRoutes.find id with
  | some found =>
    rw [hstored] at hmem
    exact live_of_purge hmem hrt
  | none =>
    rw [hstored] at hmem
    -- a sub-route expires with its route
    have hsub : ∀ e ∈ ((s.Purge now).m_sortedRoutes.flatMap Prod.snd).filterMap (subRoute id),
        s.Live now e := by
      intro e he
      obtain ⟨rt', hrt', hsub⟩ := List.mem_filterMap.mp he
      obtain ⟨slot, hslot, hin⟩ := List.mem_flatMap.mp hrt'
      obtain ⟨hexpire, slot', hslot', rt'', hrt'', hprefix, heq⟩ := live_of_purge hslot hin
      unfold subRoute at hsub
      dsimp only at hsub
      split_ifs at hsub
      cases hsub
      exact ⟨hexpire, slot', hslot', rt'', hrt'', (prefix_upTo id _).trans hprefix, heq⟩
    exact forall_mem_foldl_put hsub (fun _ hslot _ hrt => live_of_purge hslot hrt) _ hmem rt hrt

/-- The route to 3 on the way to 4. -/
theorem lookupRoute_live_small :
    (small.AddRoute 0 ⟨4, [1, 2, 3, 4], 9⟩).Live 1 ⟨3, [1, 2, 3], 9⟩ :=
  @lookupRoute_live _ 1 3 _ (by decide)

end DsrRouteCache
end Ns3Joined.Dsr
