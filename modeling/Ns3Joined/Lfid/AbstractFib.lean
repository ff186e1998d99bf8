import Mathlib.Data.Int.Notation
import Mathlib.Data.List.Basic
import Mathlib.Data.List.Pairwise
import Ns3Joined.Fault
import Ns3Joined.Library.ExceptFold

/-!
# The abstract FIB of LFID routing

`FibNextHop` and `AbstractFib` (`helper/lfid/fib-nexthop.hpp`,
`helper/lfid/abstract-fib.cpp`), with the calls that change a FIB.

A `std::set<FibNextHop>` is the strictly increasing list of its elements, ordered
by `(costDelta, cost, nexthopId)`; the constructor's range checks are fields of
`FibNextHop`, and what `AbstractFib::insert` checks of every hop is a field of
`AbstractFib`, so no operation can build a FIB without them.

`AbstractFib::erase` reads `*fibNh` after `fib.erase(fibNh)` has freed the set
node. `erase` takes what that read yields as a parameter `freed`: the hop found
in the freed memory, or `none` when the read traps. No assumption is made about
it, and the two tables `perDstFib` and `upwardPerDstFib` stay in step only when
the read yields the erased hop (`AbstractFib.erase_upwardConsistent`).

The counters `upwardCounter` and `totalNhCounter` are written and never read, and
`nodeName`, `nodeDegree` and `ownRouter` play no part in these calls; they are
left out.
-/

namespace Ns3Joined.Lfid

open List

/-! ### Next hops -/

inductive NextHopType
  | downward
  | upward
  | disabled
deriving DecidableEq, Repr

def MAX_COST : ℕ := 1000 * 1000

def NODE_ID_LIMIT : ℕ := 1000

/-- A next hop of a FIB entry. The range checks are those of its constructor. -/
structure FibNextHop where
  cost : ℕ
  nexthopId : ℕ
  costDelta : ℤ
  type : NextHopType
  cost_pos : 0 < cost
  cost_le : cost ≤ MAX_COST
  nexthopId_le : nexthopId ≤ NODE_ID_LIMIT
deriving DecidableEq

variable {x own other : FibNextHop} {l l' : List FibNextHop}

namespace FibNextHop

/-- `operator<`: by cost difference, then cost, then id. The type takes no part. -/
def lt (own other : FibNextHop) : Prop :=
  own.costDelta < other.costDelta ∨ own.costDelta = other.costDelta ∧
    (own.cost < other.cost ∨ own.cost = other.cost ∧ own.nexthopId < other.nexthopId)

instance : LT FibNextHop := ⟨lt⟩

/-- The order of next hops, written out. -/
theorem lt_def (own other : FibNextHop) : own < other ↔
    own.costDelta < other.costDelta ∨ own.costDelta = other.costDelta ∧
      (own.cost < other.cost ∨ own.cost = other.cost ∧ own.nexthopId < other.nexthopId) :=
  Iff.rfl

instance decidableLT (own other : FibNextHop) : Decidable (own < other) :=
  decidable_of_iff _ (lt_def own other).symm

/-- Equivalence of two set elements: neither is less than the other. -/
def equiv (own other : FibNextHop) : Prop := ¬ own < other ∧ ¬ other < own

instance (own other : FibNextHop) : Decidable (own.equiv other) :=
  inferInstanceAs (Decidable (_ ∧ _))

/-- A next hop ranks with itself. -/
theorem equiv_refl (nh : FibNextHop) : nh.equiv nh := by
  constructor <;> · rw [lt_def]; omega

/-- What ranks before does not rank equal. -/
theorem not_equiv_of_lt (h : own < other) : ¬ own.equiv other :=
  fun he => he.1 h

/-- What ranks behind does not rank equal. -/
theorem not_equiv_of_gt (h : other < own) : ¬ own.equiv other :=
  fun he => he.2 h

end FibNextHop

/-! ### `std::set<FibNextHop>` -/

/-- `set::insert`, or `none` when an equivalent element is there already. -/
def setInsert (nh : FibNextHop) : List FibNextHop → Option (List FibNextHop)
  | [] => some [nh]
  | x :: xs =>
    if nh < x then some (nh :: x :: xs)
    else if x < nh then (setInsert nh xs).map (x :: ·)
    else none

/-- `set::erase(key)`. -/
def setErase (nh : FibNextHop) (l : List FibNextHop) : List FibNextHop :=
  l.filter fun x => decide (¬ x.equiv nh)

/-- After an insertion the list has the next hop and what it had. -/
theorem mem_setInsert {nh : FibNextHop} (h : setInsert nh l = some l') :
    x ∈ l' ↔ x = nh ∨ x ∈ l := by
  induction l generalizing l' with
  | nil => cases h; simp
  | cons y ys ih =>
    rw [setInsert] at h
    split at h
    · cases h; simp
    · split at h
      · obtain ⟨zs, hzs, rfl⟩ := Option.map_eq_some_iff.mp h
        simp only [mem_cons, ih hzs]
        tauto
      · cases h

/-- Insertion keeps the list in order. -/
theorem setInsert_sorted {nh : FibNextHop} (hl : l.Pairwise (· < ·))
    (h : setInsert nh l = some l') :
    l'.Pairwise (· < ·) := by
  induction l generalizing l' with
  | nil => cases h; exact pairwise_singleton _ _
  | cons y ys ih =>
    rw [pairwise_cons] at hl
    rw [setInsert] at h
    split at h
    · next hlt =>
      cases h
      refine pairwise_cons.mpr ⟨fun z hz => ?_, pairwise_cons.mpr hl⟩
      rcases mem_cons.mp hz with rfl | hz
      · exact hlt
      · have hyz := hl.1 z hz
        rw [FibNextHop.lt_def] at hlt hyz ⊢
        omega
    · split at h
      · next hgt =>
        obtain ⟨zs, hzs, rfl⟩ := Option.map_eq_some_iff.mp h
        refine pairwise_cons.mpr ⟨fun z hz => ?_, ih hl.2 hzs⟩
        rcases (mem_setInsert hzs).mp hz with rfl | hz
        · exact hgt
        · exact hl.1 z hz
      · cases h

/-- Erasing keeps the list in order. -/
theorem setErase_sorted (hl : l.Pairwise (· < ·)) (nh : FibNextHop) :
    (setErase nh l).Pairwise (· < ·) := hl.filter _

/-- In an ordered list entries that rank equal are the same. -/
theorem eq_of_equiv (hl : l.Pairwise (· < ·)) {y : FibNextHop} (hx : x ∈ l) (hy : y ∈ l)
    (h : x.equiv y) : x = y := by
  have hpair : l.Pairwise fun a b => a.equiv b → a = b :=
    hl.imp fun hab he => absurd he (FibNextHop.not_equiv_of_lt hab)
  have hflip : l.Pairwise (flip fun a b => a.equiv b → a = b) :=
    hl.imp fun hab he => absurd he (FibNextHop.not_equiv_of_gt hab)
  exact List.Pairwise.forall_of_forall_of_flip (fun _ _ _ => rfl) hpair hflip hx hy h

/-- Erasing takes away exactly the next hop given. -/
theorem mem_setErase (hl : l.Pairwise (· < ·)) {nh : FibNextHop} (hnh : nh ∈ l) :
    x ∈ setErase nh l ↔ x ∈ l ∧ x ≠ nh := by
  simp only [setErase, mem_filter, decide_eq_true_eq]
  constructor
  · rintro ⟨hx, hne⟩
    exact ⟨hx, fun heq => hne (heq ▸ FibNextHop.equiv_refl _)⟩
  · rintro ⟨hx, hne⟩
    exact ⟨hx, fun heq => hne (eq_of_equiv hl hx hnh heq)⟩

/-! ### The FIB of one node -/

/-- The FIB of node `nodeId`: for each destination the next hops, and again those
of type `UPWARD`. What `insert` checks of a hop holds of every hop. -/
structure AbstractFib where
  nodeId : ℕ
  numberOfNodes : ℕ
  perDstFib : ℕ → List FibNextHop
  upwardPerDstFib : ℕ → List FibNextHop
  perDst_sorted : ∀ d, (perDstFib d).Pairwise (· < ·)
  upward_sorted : ∀ d, (upwardPerDstFib d).Pairwise (· < ·)
  enabled : ∀ d, ∀ nh ∈ perDstFib d, nh.type = .downward ∨ nh.type = .upward
  nexthopId_ne : ∀ d, ∀ nh ∈ perDstFib d, nh.nexthopId ≠ nodeId

variable {fib' : AbstractFib}

namespace AbstractFib

/-- `createEmptyFib`: an empty set for every other node. -/
def createEmptyFib (nodeId numberOfNodes : ℕ) : AbstractFib where
  nodeId := nodeId
  numberOfNodes := numberOfNodes
  perDstFib := fun _ => []
  upwardPerDstFib := fun _ => []
  perDst_sorted := fun _ => List.Pairwise.nil
  upward_sorted := fun _ => List.Pairwise.nil
  enabled := fun _ _ h => absurd h not_mem_nil
  nexthopId_ne := fun _ _ h => absurd h not_mem_nil

/-- The two maps have a key for every node but the own one. -/
def contains (fib : AbstractFib) (dstId : ℕ) : Bool :=
  decide (dstId < fib.numberOfNodes ∧ dstId ≠ fib.nodeId)

/-- The FIB with the two sets of one destination replaced. -/
def setDst (fib : AbstractFib) (dstId : ℕ) (nhs uws : List FibNextHop)
    (h_nhs : nhs.Pairwise (· < ·)) (h_uws : uws.Pairwise (· < ·))
    (h_type : ∀ nh ∈ nhs, nh.type = .downward ∨ nh.type = .upward)
    (h_ne : ∀ nh ∈ nhs, nh.nexthopId ≠ fib.nodeId) : AbstractFib where
  nodeId := fib.nodeId
  numberOfNodes := fib.numberOfNodes
  perDstFib := fun d => if d = dstId then nhs else fib.perDstFib d
  upwardPerDstFib := fun d => if d = dstId then uws else fib.upwardPerDstFib d
  perDst_sorted := fun d => by
    split
    · exact h_nhs
    · exact fib.perDst_sorted d
  upward_sorted := fun d => by
    split
    · exact h_uws
    · exact fib.upward_sorted d
  enabled := fun d nh h => by
    split at h
    · exact h_type nh h
    · exact fib.enabled d nh h
  nexthopId_ne := fun d nh h => by
    split at h
    · exact h_ne nh h
    · exact fib.nexthopId_ne d nh h

/-- `insert`. An element that is there already fails the `BOOST_VERIFY`. -/
def insert (fib : AbstractFib) (dstId : ℕ) (nh : FibNextHop) : Except Fault AbstractFib :=
  if h_type : nh.type = .downward ∨ nh.type = .upward then
    if h_ne : nh.nexthopId ≠ fib.nodeId then
      if fib.contains dstId then
        match h_nhs : setInsert nh (fib.perDstFib dstId) with
        | none => .error .abort
        | some nhs =>
          have h_sorted := setInsert_sorted (fib.perDst_sorted dstId) h_nhs
          have h_type' : ∀ x ∈ nhs, x.type = .downward ∨ x.type = .upward := fun x hx => by
            rcases (mem_setInsert h_nhs).mp hx with rfl | hx
            · exact h_type
            · exact fib.enabled dstId x hx
          have h_ne' : ∀ x ∈ nhs, x.nexthopId ≠ fib.nodeId := fun x hx => by
            rcases (mem_setInsert h_nhs).mp hx with rfl | hx
            · exact h_ne
            · exact fib.nexthopId_ne dstId x hx
          if nh.type = .upward then
            match h_uws : setInsert nh (fib.upwardPerDstFib dstId) with
            | none => .error .abort
            | some uws =>
              .ok (fib.setDst dstId nhs uws h_sorted
                (setInsert_sorted (fib.upward_sorted dstId) h_uws) h_type' h_ne')
          else
            .ok (fib.setDst dstId nhs (fib.upwardPerDstFib dstId) h_sorted
              (fib.upward_sorted dstId) h_type' h_ne')
      else .error .outOfRange
    else .error .abort
  else .error .abort

/-- The FIB after both erasures of `erase`. -/
def eraseBoth (fib : AbstractFib) (dstId : ℕ) (nh uw : FibNextHop) : AbstractFib :=
  fib.setDst dstId (setErase nh (fib.perDstFib dstId)) (setErase uw (fib.upwardPerDstFib dstId))
    (setErase_sorted (fib.perDst_sorted dstId) nh) (setErase_sorted (fib.upward_sorted dstId) uw)
    (fun x hx => fib.enabled dstId x (mem_of_mem_filter hx))
    (fun x hx => fib.nexthopId_ne dstId x (mem_of_mem_filter hx))

/-- `erase`: the hop to `nhId`, if there is one, leaves `perDstFib`; what the read
through its freed set node yields leaves `upwardPerDstFib`, which must lose
exactly one element. -/
def erase (freed : FibNextHop → Option FibNextHop) (fib : AbstractFib) (dstId nhId : ℕ) :
    Except Fault AbstractFib :=
  if fib.contains dstId then
    match (fib.perDstFib dstId).find? fun item => item.nexthopId == nhId with
    | none => .ok fib
    | some fibNh =>
      if fibNh.type = .upward then
        match freed fibNh with
        | none => .error .undefined
        | some uw =>
          if ∃ x ∈ fib.upwardPerDstFib dstId, x.equiv uw then .ok (fib.eraseBoth dstId fibNh uw)
          else .error .abort
      else .error .abort
  else .error .outOfRange

/-- The upward table is the `UPWARD` part of the main one. -/
def UpwardConsistent (fib : AbstractFib) : Prop :=
  ∀ d, ∀ nh, nh ∈ fib.upwardPerDstFib d ↔ nh ∈ fib.perDstFib d ∧ nh.type = .upward

/-- An empty FIB is consistent. -/
theorem createEmptyFib_upwardConsistent (nodeId numberOfNodes : ℕ) :
    (createEmptyFib nodeId numberOfNodes).UpwardConsistent := by
  intro d nh
  simp [createEmptyFib]

section SetDst

variable (fib : AbstractFib) (dstId : ℕ) (nh uw : FibNextHop)

/-- Erasing from both lists, at the destination. -/
theorem eraseBoth_perDstFib_self :
    (fib.eraseBoth dstId nh uw).perDstFib dstId = setErase nh (fib.perDstFib dstId) :=
  if_pos rfl

/-- Erasing from both lists, at the destination, upwards. -/
theorem eraseBoth_upwardPerDstFib_self :
    (fib.eraseBoth dstId nh uw).upwardPerDstFib dstId = setErase uw (fib.upwardPerDstFib dstId) :=
  if_pos rfl

theorem eraseBoth_perDstFib_of_ne {d : ℕ} (hd : d ≠ dstId) :
    (fib.eraseBoth dstId nh uw).perDstFib d = fib.perDstFib d := if_neg hd

theorem eraseBoth_upwardPerDstFib_of_ne {d : ℕ} (hd : d ≠ dstId) :
    (fib.eraseBoth dstId nh uw).upwardPerDstFib d = fib.upwardPerDstFib d := if_neg hd

end SetDst

/-- `insert` keeps the two tables in step. -/
theorem insert_upwardConsistent {fib : AbstractFib} {dstId : ℕ} {nh : FibNextHop}
    (hfib : fib.UpwardConsistent) (h : fib.insert dstId nh = .ok fib') : fib'.UpwardConsistent := by
  unfold insert at h
  split at h
  · split at h
    · split at h
      · split at h
        · cases h
        · next nhs h_nhs =>
          split at h
          · next h_up =>
            split at h
            · cases h
            · next uws h_uws =>
              obtain rfl := Except.ok.inj h
              intro d x
              by_cases hd : d = dstId
              · subst hd
                simp only [setDst, if_pos, mem_setInsert h_nhs, mem_setInsert h_uws, hfib d x]
                constructor
                · rintro (rfl | hx)
                  · exact ⟨Or.inl rfl, h_up⟩
                  · exact ⟨Or.inr hx.1, hx.2⟩
                · rintro ⟨rfl | hx, hup⟩
                  · exact Or.inl rfl
                  · exact Or.inr ⟨hx, hup⟩
              · simp only [setDst, if_neg hd, hfib d x]
          · next h_up =>
            obtain rfl := Except.ok.inj h
            intro d x
            by_cases hd : d = dstId
            · subst hd
              simp only [setDst, if_pos, mem_setInsert h_nhs, hfib d x]
              constructor
              · exact fun hx => ⟨Or.inr hx.1, hx.2⟩
              · rintro ⟨rfl | hx, hup⟩
                · exact absurd hup h_up
                · exact ⟨hx, hup⟩
            · simp only [setDst, if_neg hd, hfib d x]
      · cases h
    · cases h
  · cases h

/-- `erase` keeps the two tables in step when the freed set node still reads as the
hop it held. -/
theorem erase_upwardConsistent {freed : FibNextHop → Option FibNextHop}
    (hfreed : ∀ nh, freed nh = some nh) {fib : AbstractFib} {dstId nhId : ℕ}
    (hfib : fib.UpwardConsistent) (h : fib.erase freed dstId nhId = .ok fib') :
    fib'.UpwardConsistent := by
  unfold erase at h
  split at h
  · split at h
    · obtain rfl := Except.ok.inj h; exact hfib
    · next fibNh hfind =>
      have hmem : fibNh ∈ fib.perDstFib dstId := mem_of_find?_eq_some hfind
      rw [hfreed fibNh] at h
      split at h
      · next h_up =>
        dsimp only at h
        split at h
        · obtain rfl := Except.ok.inj h
          intro d x
          by_cases hd : d = dstId
          · subst hd
            have hmem' : fibNh ∈ fib.upwardPerDstFib d := (hfib d fibNh).mpr ⟨hmem, h_up⟩
            rw [eraseBoth_perDstFib_self, eraseBoth_upwardPerDstFib_self,
              mem_setErase (fib.upward_sorted d) hmem', mem_setErase (fib.perDst_sorted d) hmem,
              hfib d x]
            tauto
          · rw [eraseBoth_perDstFib_of_ne _ _ _ _ hd, eraseBoth_upwardPerDstFib_of_ne _ _ _ _ hd]
            exact hfib d x
        · cases h
      · cases h
  · cases h

/-- A call that changes a FIB. -/
inductive Call
  | insert (dstId : ℕ) (nh : FibNextHop)
  | erase (dstId nhId : ℕ)

def call (freed : FibNextHop → Option FibNextHop) (fib : AbstractFib) :
    Call → Except Fault AbstractFib
  | .insert dstId nh => fib.insert dstId nh
  | .erase dstId nhId => fib.erase freed dstId nhId

/-- **The upward table** is the `UPWARD` part of the main one after any calls, if a freed set
node still reads as the hop it held. -/
theorem calls_upwardConsistent {freed : FibNextHop → Option FibNextHop}
    (hfreed : ∀ nh, freed nh = some nh) (nodeId numberOfNodes : ℕ) (calls : List Call)
    (h : calls.foldlM (call freed) (createEmptyFib nodeId numberOfNodes) = .ok fib') :
    fib'.UpwardConsistent := by
  refine ExceptFold.foldlM_invariant UpwardConsistent ?_
    (createEmptyFib_upwardConsistent nodeId numberOfNodes) h
  intro fib c fib'' hfib hcall
  cases c with
  | insert dstId nh => exact insert_upwardConsistent hfib hcall
  | erase dstId nhId => exact erase_upwardConsistent hfreed hfib hcall

/-- A `DOWNWARD` and an `UPWARD` hop, of which the second one goes again. -/
def exampleCalls : List Call :=
  [.insert 2 ⟨11, 4, 0, .downward, by decide, by decide, by decide⟩,
    .insert 2 ⟨13, 6, 2, .upward, by decide, by decide, by decide⟩, .erase 2 6]

/-- A run with calls that insert and erase, from an empty FIB of eight nodes. -/
theorem calls_upwardConsistent_example :
    ∃ fib', exampleCalls.foldlM (call some) (createEmptyFib 0 8) = .ok fib' ∧
      fib'.UpwardConsistent :=
  ⟨_, rfl, calls_upwardConsistent (fun _ => rfl) 0 8 exampleCalls rfl⟩

end AbstractFib

end Ns3Joined.Lfid
