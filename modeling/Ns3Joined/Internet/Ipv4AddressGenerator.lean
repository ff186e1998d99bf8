import Mathlib.Order.Nat
import Ns3Joined.Internet.Rip
import Ns3Joined.Library.ExceptFold
import Ns3Joined.Library.Ranges
import Ns3Joined.Library.TracedRun

/-!
# Addresses for devices

`Ipv4AddressGeneratorImpl` (`model/ipv4-address-generator.cc`): for each length of a network mask
the network and the address that are given next, and the addresses that were allocated, as ranges.

* `AddAllocated`: one more address.
* `IsAddressAllocated`, `IsNetworkAllocated`: both return false if there is an allocated address.
* `Call`, `step`: the operations, with the addresses that were added.
-/

namespace Ns3Joined.Internet

namespace Ipv4AddressGenerator

/-- `Ipv4AddressGeneratorImpl::NetworkState`. -/
structure NetworkState where
  mask : UInt32
  shift : UInt32
  network : UInt32
  addr : UInt32
  addrMax : UInt32
deriving DecidableEq

/-- `Ipv4AddressGeneratorImpl::Entry`. -/
structure Entry where
  addrLow : UInt32
  addrHigh : UInt32
deriving DecidableEq

end Ipv4AddressGenerator

/-- `Ipv4AddressGeneratorImpl`. -/
structure Ipv4AddressGenerator where
  m_netTable : List Ipv4AddressGenerator.NetworkState
  m_entries : List Ipv4AddressGenerator.Entry
  m_test : Bool
deriving DecidableEq

namespace Ipv4AddressGenerator

def N_BITS : ℕ := 32

def MOST_SIGNIFICANT_BIT : UInt32 := 0x80000000

/-- The loop of `Reset`, for the last entries of `m_netTable`. -/
def netTable : ℕ → UInt32 → List NetworkState
  | 0, _ => []
  | n + 1, mask =>
    { mask := mask
      shift := UInt32.ofNat (n + 1)
      network := 1
      addr := 1
      addrMax := ~~~mask } :: netTable n (mask >>> 1 ||| MOST_SIGNIFICANT_BIT)

def Reset : Ipv4AddressGenerator where
  m_netTable := netTable N_BITS 0
  m_entries := []
  m_test := false

def TestMode (g : Ipv4AddressGenerator) : Ipv4AddressGenerator := { g with m_test := true }

/-- The loop of `MaskToIndex`, with the number of bits that are left. -/
def maskToIndexFrom (maskBits : UInt32) : ℕ → Except Fault ℕ
  | 0 => .error .abort
  | n + 1 =>
    if maskBits &&& 1 ≠ 0 then
      if n + 1 > 0 ∧ n + 1 < N_BITS then .ok (n + 1) else .error .abort
    else maskToIndexFrom (maskBits >>> 1) n

def MaskToIndex (mask : Ipv4Mask) : Except Fault ℕ := maskToIndexFrom mask N_BITS

/-- The index of a mask, and the entry of `m_netTable`. -/
def entryFor (mask : Ipv4Mask) (g : Ipv4AddressGenerator) : Except Fault (ℕ × NetworkState) :=
  match MaskToIndex mask with
  | .error e => .error e
  | .ok index =>
    match g.m_netTable[index]? with
    | none => .error .undefined
    | some state => .ok (index, state)

/-- An entry of `m_netTable` is changed. -/
def setState (index : ℕ) (state : NetworkState) (g : Ipv4AddressGenerator) :
    Ipv4AddressGenerator := { g with m_netTable := g.m_netTable.set index state }

def Init (net : Ipv4Address) (mask : Ipv4Mask) (addr : Ipv4Address) (g : Ipv4AddressGenerator) :
    Except Fault Ipv4AddressGenerator :=
  if net &&& ~~~mask = 0 then
    if addr &&& mask = 0 then
      match g.entryFor mask with
      | .error e => .error e
      | .ok (index, state) =>
        if addr ≤ state.addrMax then
          .ok (g.setState index { state with network := net >>> state.shift, addr := addr })
        else .error .abort
    else .error .abort
  else .error .abort

def NextNetwork (mask : Ipv4Mask) (g : Ipv4AddressGenerator) :
    Except Fault (Ipv4AddressGenerator × Ipv4Address) :=
  (g.entryFor mask).map fun r =>
    let state := { r.2 with network := r.2.network + 1 }
    (g.setState r.1 state, state.network <<< state.shift)

def InitAddress (addr : Ipv4Address) (mask : Ipv4Mask) (g : Ipv4AddressGenerator) :
    Except Fault Ipv4AddressGenerator :=
  match g.entryFor mask with
  | .error e => .error e
  | .ok (index, state) =>
    if addr ≤ state.addrMax then
      .ok (g.setState index { state with addr := addr })
    else .error .abort

/-- An address that was allocated already. -/
def collision (test : Bool) (entries : List Entry) : Except Fault (List Entry × Bool) :=
  if !test then .error .abort else .ok (entries, false)

/-- The loop of `AddAllocated`, and the insertion where it ends. -/
def addTo (test : Bool) (addr : UInt32) : List Entry → Except Fault (List Entry × Bool)
  | [] => .ok ([⟨addr, addr⟩], true)
  | i :: rest =>
    if addr ≥ i.addrLow ∧ addr ≤ i.addrHigh then collision test (i :: rest)
    else if addr < i.addrLow - 1 then .ok (⟨addr, addr⟩ :: i :: rest, true)
    else if addr = i.addrHigh + 1 then
      if rest.head?.any fun j => addr = j.addrLow then collision test (i :: rest)
      else .ok ({ i with addrHigh := addr } :: rest, true)
    else if addr = i.addrLow - 1 then .ok ({ i with addrLow := addr } :: rest, true)
    else (addTo test addr rest).map fun r => (i :: r.1, r.2)

def AddAllocated (address : Ipv4Address) (g : Ipv4AddressGenerator) :
    Except Fault (Ipv4AddressGenerator × Bool) :=
  if address = 0 then .error .abort
  else (addTo g.m_test address g.m_entries).map fun r => ({ g with m_entries := r.1 }, r.2)

/-- `NextAddress`, with what `AddAllocated` returned. -/
def NextAddress (mask : Ipv4Mask) (g : Ipv4AddressGenerator) :
    Except Fault (Ipv4AddressGenerator × Ipv4Address × Bool) :=
  match g.entryFor mask with
  | .error e => .error e
  | .ok (index, state) =>
    if state.addr ≤ state.addrMax then
      let addr := state.network <<< state.shift ||| state.addr
      ((g.setState index { state with addr := state.addr + 1 }).AddAllocated addr).map fun r =>
        (r.1, addr, r.2)
    else .error .abort

def IsAddressAllocated (address : Ipv4Address) (g : Ipv4AddressGenerator) : Except Fault Bool :=
  if address = 0 then .error .abort
  else .ok (!(g.m_entries.any fun i => address ≥ i.addrLow && address ≤ i.addrHigh))

def IsNetworkAllocated (address : Ipv4Address) (mask : Ipv4Mask) (g : Ipv4AddressGenerator) :
    Except Fault Bool :=
  if address = address.CombineMask mask then
    .ok (!(g.m_entries.any fun i =>
      address == Ipv4Address.CombineMask i.addrLow mask ||
        address == Ipv4Address.CombineMask i.addrHigh mask))
  else .error .abort

/-! ### Calls -/

inductive Call
  | Init (net : Ipv4Address) (mask : Ipv4Mask) (addr : Ipv4Address)
  | NextNetwork (mask : Ipv4Mask)
  | InitAddress (addr : Ipv4Address) (mask : Ipv4Mask)
  | NextAddress (mask : Ipv4Mask)
  | AddAllocated (address : Ipv4Address)

/-- `AddAllocated` was called, and what it returned. -/
structure Added where
  address : Ipv4Address
  success : Bool
deriving DecidableEq

/-- A call of an operation. -/
def step (g : Ipv4AddressGenerator) : Call → Except Fault (Ipv4AddressGenerator × List Added)
  | .Init net mask addr => (g.Init net mask addr).map fun g => (g, [])
  | .NextNetwork mask => (g.NextNetwork mask).map fun r => (r.1, [])
  | .InitAddress addr mask => (g.InitAddress addr mask).map fun g => (g, [])
  | .NextAddress mask => (g.NextAddress mask).map fun r => (r.1, [⟨r.2.1, r.2.2⟩])
  | .AddAllocated address => (g.AddAllocated address).map fun r => (r.1, [⟨address, r.2⟩])

end Ipv4AddressGenerator
end Ns3Joined.Internet

/-!
## The allocated addresses

* `addTo_spec`: the loop of `AddAllocated` adds an address to the ranges, if it is not in one.
* `Holds`: the ranges are sorted and disjoint, and have the addresses that were added.
* `Hidden`: `IsNetworkAllocated` looks at the ends of the ranges only, so that it misses a network
  that lies within one.
* `hidden_iff`: for a mask of leading ones, some range begins before the network and ends after it.
* `always_right`: what this says of a run in test mode.
-/

namespace Ns3Joined.Internet.Ipv4AddressGenerator

open Ranges List ExceptFold UInt32

/-- The ends of a range. -/
def low (i : Entry) : ℕ := i.addrLow.toNat

def high (i : Entry) : ℕ := i.addrHigh.toNat

variable {g g' : Ipv4AddressGenerator} {h : List Added} {i : Entry} {entries rest : List Entry}
  {addr : UInt32} {a : ℕ}

/-! ### The loop -/

/-- The comparisons of the code in an entry's range, as membership in the library's range. -/
theorem has_iff : Has low high i addr.toNat ↔ addr ≥ i.addrLow ∧ addr ≤ i.addrHigh := by
  unfold Has low high
  rw [ge_iff_le, le_iff_toNat_le, le_iff_toNat_le]

/-- A range of one address holds that address only. -/
theorem has_single : Has low high ⟨addr, addr⟩ a ↔ a = addr.toNat := by
  unfold Has low high
  exact ⟨fun ⟨hle, hge⟩ => Nat.le_antisymm hge hle, fun heq => ⟨heq.ge, heq.le⟩⟩

/-- An address below every covered one may stand in front as a range of its own. -/
theorem ordered_single (hentries : Ordered low high entries)
    (hbefore : ∀ a, Covers low high entries a → addr.toNat < a) :
    Ordered low high (⟨addr, addr⟩ :: entries) :=
  (ordered_cons_iff hentries).mpr ⟨le_rfl, hbefore⟩

/-- The first range gets one more address after it. -/
theorem ordered_extend (hentries : Ordered low high (i :: rest))
    (haddr : addr.toNat = high i + 1) (hnext : ∀ j ∈ rest.head?, addr ≠ j.addrLow) :
    Ordered low high ({ i with addrHigh := addr } :: rest) := by
  obtain ⟨hle, hbefore, hrest⟩ := hentries
  refine ⟨?_, fun r hr => ?_, hrest⟩
  · change low i ≤ addr.toNat
    omega
  · change addr.toNat < low r
    cases rest with
    | nil => cases hr
    | cons j rest =>
      have hj := hbefore j mem_cons_self
      have hne : addr.toNat ≠ low j := fun heq => hnext j rfl (UInt32.toNat_inj.mp heq)
      obtain rfl | hr := mem_cons.mp hr
      · omega
      · have hjr := hrest.2.1 r hr
        have hjle := hrest.1
        omega

/-- What the loop does with an address. -/
structure AddedTo (addr : UInt32) (entries entries' : List Entry) (success : Bool) : Prop where
  ordered : Ordered low high entries'
  positive : ∀ i ∈ entries', 0 < low i
  covers : ∀ a, Covers low high entries' a ↔ Covers low high entries a ∨ a = addr.toNat
  success : success = true ↔ ¬ Covers low high entries addr.toNat

/-- A collision. -/
theorem AddedTo.collision (hentries : Ordered low high entries) (hpos : ∀ i ∈ entries, 0 < low i)
    (hcovers : Covers low high entries addr.toNat) : AddedTo addr entries entries false where
  ordered := hentries
  positive := hpos
  covers := fun _ => ⟨.inl, fun ha => ha.elim id fun heq => heq ▸ hcovers⟩
  success := ⟨fun hfalse => absurd hfalse Bool.false_ne_true, fun hnot => absurd hcovers hnot⟩

/-- **The loop** of `AddAllocated`. -/
theorem addTo_spec (hentries : Ordered low high entries) (hpos : ∀ i ∈ entries, 0 < low i)
    (haddr : 0 < addr.toNat) :
    ∃ entries' success, addTo true addr entries = .ok (entries', success) ∧
      AddedTo addr entries entries' success := by
  induction entries with
  | nil =>
    refine ⟨_, _, rfl, ⟨le_rfl, fun r hr => absurd hr not_mem_nil, trivial⟩, ?_, fun a => ?_,
      fun _ => not_covers_nil, fun _ => rfl⟩
    · rw [forall_mem_singleton]
      exact haddr
    · rw [covers_cons, has_single, or_comm]
  | cons i rest ih =>
    obtain ⟨hi, hrestpos⟩ := forall_mem_cons.mp hpos
    have hle := hentries.1
    have hone : (1 : UInt32).toNat = 1 := rfl
    have hbelow : (i.addrLow - 1).toNat = low i - 1 :=
      UInt32.toNat_sub_of_le _ _ (le_iff_toNat_le.mpr hi)
    rw [addTo]
    -- the address is in the range
    by_cases hin : addr ≥ i.addrLow ∧ addr ≤ i.addrHigh
    · rw [if_pos hin]
      exact ⟨_, _, rfl, .collision hentries hpos (covers_cons.mpr (.inl (has_iff.mpr hin)))⟩
    have hout : ¬ Has low high i addr.toNat := fun hhas => hin (has_iff.mp hhas)
    have hout' : ¬ (low i ≤ addr.toNat ∧ addr.toNat ≤ high i) := hout
    rw [if_neg hin]
    by_cases hbefore : addr < i.addrLow - 1
    · -- a range of its own
      rw [if_pos hbefore]
      rw [lt_iff_toNat_lt, hbelow] at hbefore
      have hall : ∀ a, Covers low high (i :: rest) a → addr.toNat < a := by
        intro a ha
        obtain ha | ha := covers_cons.mp ha
        · have hge : low i ≤ a := ha.1
          omega
        · have hlt := hentries.high_lt ha
          omega
      refine ⟨_, _, rfl, ordered_single hentries hall, forall_mem_cons.mpr ⟨haddr, hpos⟩,
        fun a => ?_, fun _ hcovers => lt_irrefl _ (hall _ hcovers), fun _ => rfl⟩
      rw [covers_cons, has_single, or_comm]
    rw [if_neg hbefore]
    rw [lt_iff_toNat_lt, hbelow] at hbefore
    have hrestcovers : addr.toNat ≤ high i → ¬ Covers low high rest addr.toNat :=
      fun hle hcovers => absurd (hentries.high_lt hcovers) (Nat.not_lt.mpr hle)
    -- it comes behind the range
    by_cases hafter : addr = i.addrHigh + 1
    · rw [if_pos hafter]
      have haddr' : addr.toNat = high i + 1 := by
        have hlt := i.addrHigh.toNat_lt
        rw [hafter, UInt32.toNat_add, hone] at haddr ⊢
        change (high i + 1) % 2 ^ 32 = high i + 1
        change high i < 2 ^ 32 at hlt
        change 0 < (high i + 1) % 2 ^ 32 at haddr
        omega
      by_cases hnext : (rest.head?.any fun j => addr = j.addrLow) = true
      · -- the next range begins with it
        rw [if_pos hnext]
        obtain ⟨j, hj, heq⟩ := (Option.any_eq_true _ _).mp hnext
        obtain rfl : addr = j.addrLow := of_decide_eq_true heq
        have hjrest := mem_of_mem_head? hj
        have hjle := hentries.tail.low_le_high hjrest
        exact ⟨_, _, rfl, .collision hentries hpos
          (covers_cons.mpr (.inr ⟨j, hjrest, le_rfl, hjle⟩))⟩
      · -- the range ends with it
        rw [if_neg hnext]
        have hnext' : ∀ j ∈ rest.head?, addr ≠ j.addrLow := fun j hj heq =>
          hnext ((Option.any_eq_true _ _).mpr ⟨j, hj, decide_eq_true heq⟩)
        have hextended := ordered_extend hentries haddr' hnext'
        refine ⟨_, _, rfl, hextended, forall_mem_cons.mpr ⟨hi, hrestpos⟩, fun a => ?_,
          fun _ hcovers => ?_, fun _ => rfl⟩
        · rw [covers_cons, covers_cons]
          have hhas : Has low high { i with addrHigh := addr } a ↔
              Has low high i a ∨ a = addr.toNat := by
            change low i ≤ a ∧ a ≤ addr.toNat ↔ (low i ≤ a ∧ a ≤ high i) ∨ a = addr.toNat
            omega
          rw [hhas, or_right_comm]
        · obtain hcovers | hcovers := covers_cons.mp hcovers
          · exact hout hcovers
          · exact lt_irrefl _ (hextended.high_lt hcovers)
    · rw [if_neg hafter]
      by_cases hbelow' : addr = i.addrLow - 1
      · -- the range begins with it
        have haddr' : addr.toNat = low i - 1 := by rw [hbelow', hbelow]
        rw [if_pos hbelow']
        refine ⟨_, _, rfl, ⟨?_, hentries.2.1, hentries.tail⟩,
          forall_mem_cons.mpr ⟨haddr, hrestpos⟩, fun a => ?_, fun _ hcovers => ?_,
          fun _ => rfl⟩
        · change addr.toNat ≤ high i
          omega
        · rw [covers_cons, covers_cons]
          have hhas : Has low high { i with addrLow := addr } a ↔
              Has low high i a ∨ a = addr.toNat := by
            change addr.toNat ≤ a ∧ a ≤ high i ↔ (low i ≤ a ∧ a ≤ high i) ∨ a = addr.toNat
            omega
          rw [hhas, or_right_comm]
        · obtain hcovers | hcovers := covers_cons.mp hcovers
          · exact hout hcovers
          · exact hrestcovers (by omega) hcovers
      · -- the range is passed
        have hpast : high i < addr.toNat := by
          have hne : addr.toNat ≠ low i - 1 := fun heq =>
            hbelow' (UInt32.toNat_inj.mp (heq.trans hbelow.symm))
          omega
        obtain ⟨entries', success, hok, hadded⟩ := ih hentries.tail hrestpos
        rw [if_neg hbelow', hok]
        refine ⟨_, _, rfl, (ordered_cons_iff hadded.ordered).mpr ⟨hle, fun a ha => ?_⟩,
          forall_mem_cons.mpr ⟨hi, hadded.positive⟩, fun a => ?_, ?_⟩
        · obtain ha | rfl := (hadded.covers a).mp ha
          · exact hentries.high_lt ha
          · exact hpast
        · rw [covers_cons, covers_cons, hadded.covers, or_assoc]
        · rw [hadded.success, covers_cons, or_iff_right hout]

/-! ### Runs -/

/-- The addresses that were added. -/
def allocated (h : List Added) : List Ipv4Address := h.map Added.address

/-- `AddAllocated` returned true for an address just if it was not added before. -/
def AddsRight (h : List Added) : Prop :=
  ∀ h₁ added h₂, h = h₁ ++ added :: h₂ →
    (added.success = true ↔ added.address ∉ allocated h₁)

/-- One more report keeps the history right where the report itself is. -/
theorem addsRight_append {added : Added} (h' : AddsRight h)
    (hadded : added.success = true ↔ added.address ∉ allocated h) : AddsRight (h ++ [added]) := by
  intro h₁ event h₂ heq
  obtain rfl | ⟨h₂', last, rfl⟩ := eq_nil_or_concat h₂
  · obtain ⟨rfl, hlast⟩ := append_inj' heq rfl
    obtain rfl := (List.cons.inj hlast).1
    exact hadded
  · rw [concat_eq_append, ← cons_append, ← append_assoc] at heq
    obtain ⟨rfl, -⟩ := append_inj' heq rfl
    exact h' h₁ event h₂' rfl

/-- The ranges have the addresses that were added. -/
structure Holds (g : Ipv4AddressGenerator) (h : List Added) : Prop where
  test : g.m_test = true
  ordered : Ordered low high g.m_entries
  positive : ∀ i ∈ g.m_entries, 0 < low i
  covers : ∀ address : Ipv4Address,
    Covers low high g.m_entries address.toNat ↔ address ∈ allocated h
  adds : AddsRight h

/-- The generator after the test mode is set, before any call. -/
theorem holds_testMode : Holds Reset.TestMode [] where
  test := rfl
  ordered := trivial
  positive := fun _ hi => absurd hi not_mem_nil
  covers := fun _ => iff_of_false not_covers_nil not_mem_nil
  adds := fun _ _ _ heq => absurd heq.symm (append_ne_nil_of_right_ne_nil _
    (cons_ne_nil _ _))

/-- Only the test flag and the ranges matter to the invariant. -/
theorem Holds.same (hs : Holds g h) (htest : g'.m_test = g.m_test)
    (hentries : g'.m_entries = g.m_entries) : Holds g' (h ++ []) := by
  rw [append_nil]
  refine ⟨htest.trans hs.test, ?_, ?_, ?_, hs.adds⟩
  · rw [hentries]
    exact hs.ordered
  · rw [hentries]
    exact hs.positive
  · rw [hentries]
    exact hs.covers

/-- The state of a mask plays no part in the invariant. -/
theorem Holds.setState (hs : Holds g h) (index : ℕ) (state : NetworkState) :
    Holds (g.setState index state) h := ⟨hs.test, hs.ordered, hs.positive, hs.covers, hs.adds⟩

variable {address : Ipv4Address}

/-- **One address.** -/
theorem Holds.addAllocated (hs : Holds g h) {success : Bool}
    (hok : g.AddAllocated address = .ok (g', success)) : Holds g' (h ++ [⟨address, success⟩]) := by
  unfold AddAllocated at hok
  by_cases hzero : address = 0
  · rw [if_pos hzero] at hok
    cases hok
  have hpos : 0 < address.toNat :=
    Nat.pos_of_ne_zero fun heq => hzero (UInt32.toNat_inj.mp heq)
  obtain ⟨entries', success', hadd, hadded⟩ := addTo_spec hs.ordered hs.positive hpos
  rw [if_neg hzero, hs.test, hadd] at hok
  cases hok
  refine ⟨rfl, hadded.ordered, hadded.positive, fun address' => ?_,
    addsRight_append hs.adds (hadded.success.trans (not_congr (hs.covers address)))⟩
  rw [hadded.covers, hs.covers, UInt32.toNat_inj]
  unfold allocated
  rw [map_append, mem_append, map_singleton, mem_singleton]

/-- One call of the generator keeps the invariant, with what it added. -/
theorem Holds.step (hs : Holds g h) {call : Call} {added : List Added}
    (hok : g.step call = .ok (g', added)) : Holds g' (h ++ added) := by
  cases call with
  | Init net mask addr =>
    obtain ⟨g₁, hinit, heq⟩ := map_eq_ok_iff.mp hok
    cases heq
    unfold Init at hinit
    split_ifs at hinit
    split at hinit
    · cases hinit
    · split_ifs at hinit
      cases hinit
      exact hs.same rfl rfl
  | NextNetwork mask =>
    obtain ⟨r, hnext, heq⟩ := map_eq_ok_iff.mp hok
    cases heq
    obtain ⟨entry, -, heq⟩ := map_eq_ok_iff.mp hnext
    cases heq
    exact hs.same rfl rfl
  | InitAddress addr mask =>
    obtain ⟨g₁, hinit, heq⟩ := map_eq_ok_iff.mp hok
    cases heq
    unfold InitAddress at hinit
    split at hinit
    · cases hinit
    · split_ifs at hinit
      cases hinit
      exact hs.same rfl rfl
  | NextAddress mask =>
    obtain ⟨r, hnext, heq⟩ := map_eq_ok_iff.mp hok
    cases heq
    unfold NextAddress at hnext
    split at hnext
    · cases hnext
    · split_ifs at hnext
      obtain ⟨r, hadd, heq⟩ := map_eq_ok_iff.mp hnext
      cases heq
      exact (hs.setState _ _).addAllocated hadd
  | AddAllocated address =>
    obtain ⟨r, hadd, heq⟩ := map_eq_ok_iff.mp hok
    cases heq
    exact hs.addAllocated hadd

/-! ### What is reported -/

/-- Some range has an address of the network, but none begins or ends in it. -/
def Hidden (network : Ipv4Address) (mask : Ipv4Mask) (entries : List Entry) : Prop :=
  (∃ address : Ipv4Address, Covers low high entries address.toNat ∧
      address.CombineMask mask = network) ∧
    ∀ i ∈ entries, Ipv4Address.CombineMask i.addrLow mask ≠ network ∧
      Ipv4Address.CombineMask i.addrHigh mask ≠ network

variable {network : Ipv4Address} {mask : Ipv4Mask} {n : ℕ}

/-- What holds in test mode: both functions return false for what is allocated, and a network is
missed just if some range begins before it and ends after it; for a mask with gaps, just if it is
hidden. -/
structure Right (g : Ipv4AddressGenerator) (h : List Added) : Prop where
  ordered : Ordered low high g.m_entries
  adds : AddsRight h
  address : ∀ address ≠ 0, g.IsAddressAllocated address = .ok (!decide (address ∈ allocated h))
  network : ∀ network mask, network = Ipv4Address.CombineMask network mask →
    ∀ n ≤ 32, mask.toNat = 2 ^ 32 - 2 ^ n →
      ((g.IsNetworkAllocated network mask = .ok false ↔
        ∃ address ∈ allocated h, address.CombineMask mask = network) ↔
      ∀ i ∈ g.m_entries, ¬ (low i < network.toNat ∧ network.toNat + 2 ^ n ≤ high i))
  withGaps : ∀ network mask, network = Ipv4Address.CombineMask network mask →
    ((g.IsNetworkAllocated network mask = .ok false ↔
      ∃ address ∈ allocated h, address.CombineMask mask = network) ↔
    ¬ Hidden network mask g.m_entries)

/-- A mask of leading ones clears the bits behind them. -/
theorem and_leading {x : ℕ} (hx : x < 2 ^ 32) (hn : n ≤ 32) :
    x &&& (2 ^ 32 - 2 ^ n) = x / 2 ^ n * 2 ^ n := by
  have hones : 2 ^ 32 - 2 ^ n = (2 ^ (32 - n) - 1) <<< n := by
    rw [Nat.shiftLeft_eq, Nat.sub_mul, ← pow_add, Nat.sub_add_cancel hn, Nat.one_mul]
  rw [hones, ← Nat.shiftRight_eq_div_pow, ← Nat.shiftLeft_eq]
  refine Nat.eq_of_testBit_eq fun j => ?_
  simp only [Nat.testBit_and, Nat.testBit_shiftLeft, Nat.testBit_two_pow_sub_one,
    Nat.testBit_shiftRight]
  by_cases hj : n ≤ j
  · simp only [hj, decide_true, Bool.true_and, Nat.add_sub_cancel' hj]
    by_cases hlt : j < 32
    · simp [show j - n < 32 - n by omega]
    · have hbit : x.testBit j = false := Nat.testBit_lt_two_pow
        (hx.trans_le (Nat.pow_le_pow_right (by omega) (Nat.not_lt.mp hlt)))
      rw [hbit, Bool.false_and]
  · simp [hj]

/-- The addresses of a network with a mask of leading ones follow each other. -/
theorem combineMask_eq_iff (hnetwork : network = network.CombineMask mask) (hn : n ≤ 32)
    (hmask : mask.toNat = 2 ^ 32 - 2 ^ n) :
    address.CombineMask mask = network ↔
      network.toNat ≤ address.toNat ∧ address.toNat < network.toNat + 2 ^ n := by
  have hand : ∀ a : Ipv4Address, (a.CombineMask mask).toNat = a.toNat / 2 ^ n * 2 ^ n := by
    intro a
    unfold Ipv4Address.CombineMask
    rw [UInt32.toNat_and, hmask, and_leading a.toNat_lt hn]
  have hself : network.toNat = network.toNat / 2 ^ n * 2 ^ n := by
    rw [← hand, ← hnetwork]
  rw [← UInt32.toNat_inj, hand, hself]
  have hpos : 0 < 2 ^ n := Nat.two_pow_pos n
  rw [Nat.mul_left_inj hpos.ne', ← Nat.succ_mul, Nat.div_eq_iff hpos]
  generalize network.toNat / 2 ^ n = q at *
  rw [Nat.succ_mul]
  omega

/-- For a mask of leading ones, a network is hidden within a single range. -/
theorem hidden_iff (hentries : Ordered low high entries)
    (hnetwork : network = network.CombineMask mask) (hn : n ≤ 32)
    (hmask : mask.toNat = 2 ^ 32 - 2 ^ n) :
    Hidden network mask entries ↔
      ∃ i ∈ entries, low i < network.toNat ∧ network.toNat + 2 ^ n ≤ high i := by
  have hpos : 0 < 2 ^ n := Nat.two_pow_pos n
  unfold Hidden
  simp only [ne_eq, combineMask_eq_iff hnetwork hn hmask]
  constructor
  · rintro ⟨⟨address, ⟨i, hi, hlow, hhigh⟩, hin⟩, hends⟩
    obtain ⟨hbegin, hend⟩ := hends i hi
    change ¬ (network.toNat ≤ low i ∧ low i < network.toNat + 2 ^ n) at hbegin
    change ¬ (network.toNat ≤ high i ∧ high i < network.toNat + 2 ^ n) at hend
    exact ⟨i, hi, by omega, by omega⟩
  · rintro ⟨i, hi, hbefore, hafter⟩
    have hwhole : ∀ a, network.toNat ≤ a → a < network.toNat + 2 ^ n → Has low high i a :=
      fun a hle hlt => ⟨by omega, by omega⟩
    refine ⟨⟨network, ⟨i, hi, hwhole _ le_rfl (by omega)⟩, le_rfl, by omega⟩, fun j hj => ?_⟩
    have hjle : low j ≤ high j := hentries.low_le_high hj
    -- a range that began or ended in the network would be this one
    constructor
    · rintro ⟨hle, hlt⟩
      have hji : i = j := hentries.eq_of_has hi hj (hwhole _ hle hlt) ⟨le_rfl, hjle⟩
      subst hji
      exact absurd hbefore (Nat.not_lt.mpr hle)
    · rintro ⟨hle, hlt⟩
      have hji : i = j := hentries.eq_of_has hi hj (hwhole _ hle hlt) ⟨hjle, le_rfl⟩
      subst hji
      exact absurd hafter (Nat.not_le.mpr hlt)

/-- `IsAddressAllocated` answers the opposite of whether the address was allocated. -/
theorem Holds.isAddressAllocated (hs : Holds g h) (hne : address ≠ 0) :
    g.IsAddressAllocated address = .ok (!decide (address ∈ allocated h)) := by
  have hany : (g.m_entries.any fun i => address ≥ i.addrLow && address ≤ i.addrHigh) =
      decide (address ∈ allocated h) := by
    rw [Bool.eq_iff_iff, decide_eq_true_iff, ← hs.covers, any_eq_true]
    unfold Covers
    simp only [has_iff, Bool.and_eq_true, decide_eq_true_iff]
  unfold IsAddressAllocated
  rw [if_neg hne, hany]

theorem Holds.isNetworkAllocated (hs : Holds g h) {network : Ipv4Address} {mask : Ipv4Mask}
    (hnetwork : network = network.CombineMask mask) :
    (g.IsNetworkAllocated network mask = .ok false ↔
      ∃ address ∈ allocated h, address.CombineMask mask = network) ↔
    ¬ Hidden network mask g.m_entries := by
  have hreported : g.IsNetworkAllocated network mask = .ok false ↔
      ∃ i ∈ g.m_entries, Ipv4Address.CombineMask i.addrLow mask = network ∨
        Ipv4Address.CombineMask i.addrHigh mask = network := by
    unfold IsNetworkAllocated
    rw [if_pos hnetwork, Except.ok.injEq, Bool.not_eq_false', any_eq_true]
    simp only [Bool.or_eq_true, beq_iff_eq, eq_comm (a := network)]
  have hallocated : (∃ address ∈ allocated h, address.CombineMask mask = network) ↔
      ∃ address : Ipv4Address, Covers low high g.m_entries address.toNat ∧
        address.CombineMask mask = network := by
    simp only [hs.covers]
  -- the ends of a range are allocated
  have hends : (∃ i ∈ g.m_entries, Ipv4Address.CombineMask i.addrLow mask = network ∨
      Ipv4Address.CombineMask i.addrHigh mask = network) →
      ∃ address : Ipv4Address, Covers low high g.m_entries address.toNat ∧
        address.CombineMask mask = network := by
    rintro ⟨i, hi, heq | heq⟩
    · exact ⟨i.addrLow, ⟨i, hi, le_rfl, hs.ordered.low_le_high hi⟩, heq⟩
    · exact ⟨i.addrHigh, ⟨i, hi, hs.ordered.low_le_high hi, le_rfl⟩, heq⟩
  rw [hreported, hallocated]
  unfold Hidden
  constructor
  · rintro hiff ⟨hcovered, hnone⟩
    obtain ⟨i, hi, heq⟩ := hiff.mpr hcovered
    exact heq.elim (hnone i hi).1 (hnone i hi).2
  · intro hnot
    refine ⟨hends, fun hcovered => ?_⟩
    by_contra hnone
    refine hnot ⟨hcovered, fun i hi => ⟨fun heq => hnone ⟨i, hi, .inl heq⟩, fun heq =>
      hnone ⟨i, hi, .inr heq⟩⟩⟩

/-- What the invariant says of the ranges and of the answers, in the words of the claim. -/
theorem Holds.right (hs : Holds g h) : Right g h where
  ordered := hs.ordered
  adds := hs.adds
  address := fun _ hne => hs.isAddressAllocated hne
  network := by
    intro network mask hnetwork n hn hmask
    rw [hs.isNetworkAllocated hnetwork, hidden_iff hs.ordered hnetwork hn hmask]
    simp only [not_exists, not_and]
  withGaps := fun _ _ hnetwork => hs.isNetworkAllocated hnetwork

/-- **The allocated addresses**, after every call of a run in test mode. -/
theorem always_right (calls : List Call) :
    TracedRun.Always step Right Reset.TestMode [] calls :=
  TracedRun.always_of_meets (P := fun _ _ _ => True) (J := Holds)
    (fun _ _ _ _ _ hs _ hok => hs.step hok) (fun _ _ hs => hs.right) holds_testMode
    (TracedRun.meets_true calls)

/-- A range from 10.0.0.3 to 10.0.0.8, and the network 10.0.0.4 with the mask 255.255.255.252. -/
theorem not_reported_within :
    ¬ TracedRun.Always step (fun g h => ∀ network mask,
        network = Ipv4Address.CombineMask network mask →
        (g.IsNetworkAllocated network mask = .ok false ↔
          ∃ address ∈ allocated h, address.CombineMask mask = network)) Reset.TestMode []
      [.AddAllocated 0x0a000003, .AddAllocated 0x0a000004, .AddAllocated 0x0a000005,
        .AddAllocated 0x0a000006, .AddAllocated 0x0a000007, .AddAllocated 0x0a000008] := by
  intro halways
  have hrun : TracedRun.run step Reset.TestMode
      [.AddAllocated 0x0a000003, .AddAllocated 0x0a000004, .AddAllocated 0x0a000005,
        .AddAllocated 0x0a000006, .AddAllocated 0x0a000007, .AddAllocated 0x0a000008] =
      .ok ({ Reset.TestMode with m_entries := [⟨0x0a000003, 0x0a000008⟩] },
        [⟨0x0a000003, true⟩, ⟨0x0a000004, true⟩, ⟨0x0a000005, true⟩, ⟨0x0a000006, true⟩,
          ⟨0x0a000007, true⟩, ⟨0x0a000008, true⟩]) := by decide +kernel
  have hreported := (halways.of_run (cons_ne_nil _ _) hrun 0x0a000004 0xfffffffc
    (by decide)).mpr ⟨0x0a000004, by decide, by decide⟩
  exact absurd hreported (by decide)

end Ns3Joined.Internet.Ipv4AddressGenerator
