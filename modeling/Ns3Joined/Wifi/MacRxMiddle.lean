import Ns3Joined.Fault
import Ns3Joined.Library.Refinement
import Ns3Joined.Wifi.WifiMacHeader

/-!
# Defragmentation

`MacRxMiddle` (`mac-rx-middle.cc`): it filters duplicates and puts the fragments of an MSDU
together, with one `OriginatorRxStatus` for each originator, or for each originator and traffic
id.

* `OriginatorRxStatus`: what is kept of an originator.
* `Lookup`, `IsDuplicate`, `HandleFragments`, `Receive`: the operations of the source.
* `Msdu`, `Copy`: what originators send, and the copies of their frames that are received.
* `complete`: what the component is for, to deliver each MSDU when all its fragments have been
  received.
-/

namespace Ns3Joined.Wifi

/-- A packet, for its bytes. -/
abbrev Packet := List UInt8

/-- An `OriginatorRxStatus`. -/
structure OriginatorRxStatus where
  m_defragmenting : Bool
  m_lastSequenceControl : ℕ
  m_fragments : List Packet
deriving DecidableEq

namespace OriginatorRxStatus

/-- The constructor, with the magic value that it needs. -/
def new : OriginatorRxStatus := ⟨false, 0xffff, []⟩

def AccumulateFirstFragment (o : OriginatorRxStatus) (packet : Packet) :
    Except Fault OriginatorRxStatus :=
  if o.m_defragmenting then .error .abort
  else .ok { o with m_defragmenting := true, m_fragments := o.m_fragments ++ [packet] }

def AccumulateLastFragment (o : OriginatorRxStatus) (packet : Packet) :
    Except Fault (OriginatorRxStatus × Packet) :=
  if o.m_defragmenting then
    let full := (o.m_fragments ++ [packet]).flatten
    .ok ({ o with m_defragmenting := false, m_fragments := [] }, full)
  else
    .error .abort

def AccumulateFragment (o : OriginatorRxStatus) (packet : Packet) :
    Except Fault OriginatorRxStatus :=
  if o.m_defragmenting then .ok { o with m_fragments := o.m_fragments ++ [packet] }
  else .error .abort

def IsNextFragment (o : OriginatorRxStatus) (sequenceControl : ℕ) : Bool :=
  sequenceControl >>> 4 == o.m_lastSequenceControl >>> 4 &&
    sequenceControl &&& 0x0f == (o.m_lastSequenceControl &&& 0x0f) + 1

def SetSequenceControl (o : OriginatorRxStatus) (sequenceControl : ℕ) : OriginatorRxStatus :=
  { o with m_lastSequenceControl := sequenceControl }

end OriginatorRxStatus

/-- What `Lookup` finds a status by: the source and the traffic id of QoS data, else the
source. -/
inductive Originator
  | qos (source : Mac48Address) (tid : ℕ)
  | other (source : Mac48Address)
deriving DecidableEq

/-- The case distinction of `Lookup`. The address it asks about is the source's. -/
def WifiMacHeader.originator (hdr : WifiMacHeader) : Originator :=
  if hdr.IsQosData && !hdr.m_addr2.IsGroup then .qos hdr.m_addr2 hdr.m_qosTid
  else .other hdr.m_addr2

/-- A `MacRxMiddle`: `m_qosOriginatorStatus` and `m_originatorStatus`, with no status for the
keys that are not in the maps. -/
structure MacRxMiddle where
  m_qosOriginatorStatus : Mac48Address × ℕ → Option OriginatorRxStatus
  m_originatorStatus : Mac48Address → Option OriginatorRxStatus

namespace MacRxMiddle

/-- A `MacRxMiddle` that has received nothing. -/
def new : MacRxMiddle := ⟨fun _ => none, fun _ => none⟩

/-- The status in the map that the originator belongs to. -/
def find (m : MacRxMiddle) : Originator → Option OriginatorRxStatus
  | .qos source tid => m.m_qosOriginatorStatus (source, tid)
  | .other source => m.m_originatorStatus source

/-- The status written through the pointer that the map holds. -/
def store (m : MacRxMiddle) (o : OriginatorRxStatus) : Originator → MacRxMiddle
  | .qos source tid =>
    { m with
      m_qosOriginatorStatus := Function.update m.m_qosOriginatorStatus (source, tid) (some o) }
  | .other source =>
    { m with m_originatorStatus := Function.update m.m_originatorStatus source (some o) }

/-- `Lookup`: a status that is not there is created. -/
def Lookup (m : MacRxMiddle) (hdr : WifiMacHeader) : OriginatorRxStatus :=
  (m.find hdr.originator).getD .new

def IsDuplicate (hdr : WifiMacHeader) (originator : OriginatorRxStatus) : Bool :=
  hdr.IsRetry && originator.m_lastSequenceControl == hdr.GetSequenceControl

def HandleFragments (packet : Packet) (hdr : WifiMacHeader) (originator : OriginatorRxStatus) :
    Except Fault (OriginatorRxStatus × Option Packet) :=
  if originator.m_defragmenting then
    if hdr.IsMoreFragments then
      if originator.IsNextFragment hdr.GetSequenceControl then do
        let originator ← originator.AccumulateFragment packet
        .ok (originator.SetSequenceControl hdr.GetSequenceControl, none)
      else
        .ok (originator, none)
    else
      if originator.IsNextFragment hdr.GetSequenceControl then do
        let (originator, p) ← originator.AccumulateLastFragment packet
        .ok (originator.SetSequenceControl hdr.GetSequenceControl, some p)
      else
        .ok (originator, none)
  else
    if hdr.IsMoreFragments then do
      let originator ← originator.AccumulateFirstFragment packet
      .ok (originator.SetSequenceControl hdr.GetSequenceControl, none)
    else
      .ok (originator, some packet)

/-- `Receive`, with what it hands to `m_callback`. -/
def Receive (m : MacRxMiddle) (packet : Packet) (hdr : WifiMacHeader) :
    Except Fault (MacRxMiddle × Option (Packet × WifiMacHeader)) :=
  if hdr.IsData || hdr.IsMgt then
    let originator := m.Lookup hdr
    if IsDuplicate hdr originator then
      .ok (m.store originator hdr.originator, none)
    else do
      let (originator, aggregate) ← HandleFragments packet hdr originator
      match aggregate with
      | none => .ok (m.store originator hdr.originator, none)
      | some aggregate =>
        let originator := if !hdr.m_addr1.IsGroup then
            originator.SetSequenceControl hdr.GetSequenceControl
          else
            originator
        .ok (m.store originator hdr.originator, some (aggregate, hdr))
  else
    .error .abort

end MacRxMiddle

/-! ### What is sent, and what of it is received -/

/-- An MSDU as its originator sends it: its header but for what differs between its frames, and
its fragments. -/
structure Msdu where
  header : WifiMacHeader
  fragments : List Packet

namespace Msdu

/-- The MSDU is data or management, its sequence number has 12 bits, and the fragment numbers
4. -/
def WellFormed (m : Msdu) : Prop :=
  (m.header.IsData || m.header.IsMgt) = true ∧ m.header.m_seqSeq < SEQNO_SPACE_SIZE ∧
    m.fragments ≠ [] ∧ m.fragments.length ≤ 16

/-- The header of a fragment's frame. -/
def frameHeader (m : Msdu) (fragment : ℕ) (retry : Bool) : WifiMacHeader :=
  { m.header with
    m_seqFrag := fragment
    m_ctrlMoreFrag := decide (fragment + 1 < m.fragments.length)
    m_ctrlRetry := retry }

/-- The bytes of the MSDU. -/
def packet (m : Msdu) : Packet := m.fragments.flatten

end Msdu

/-- A received copy of a frame: which MSDU (counted in the order in which they are sent) and
fragment it is of, and its retry flag. -/
structure Copy where
  msdu : ℕ
  fragment : ℕ
  retry : Bool
deriving DecidableEq

section Reception

variable (sent : ℕ → Msdu)

/-- Whom an MSDU is from, as a receiver tells originators apart. -/
def originatorOf (i : ℕ) : Originator := (sent i).header.originator

/-- All fragments of the MSDU have been received. -/
def Complete (received : List (ℕ × ℕ)) (i : ℕ) : Prop :=
  ∀ j < (sent i).fragments.length, (i, j) ∈ received

instance (received : List (ℕ × ℕ)) (i : ℕ) : Decidable (Complete sent received i) :=
  inferInstanceAs (Decidable (∀ _ < _, _))

/-- The copy is the one that completes its MSDU. -/
def Completes (received : List (ℕ × ℕ)) (c : Copy) : Prop :=
  ¬ Complete sent received c.msdu ∧ Complete sent ((c.msdu, c.fragment) :: received) c.msdu

instance (received : List (ℕ × ℕ)) (c : Copy) : Decidable (Completes sent received c) :=
  inferInstanceAs (Decidable (_ ∧ _))

/-- In the order in which they are sent. -/
def NotAfter (x y : ℕ × ℕ) : Prop := x.1 < y.1 ∨ x.1 = y.1 ∧ x.2 ≤ y.2

instance (x y : ℕ × ℕ) : Decidable (NotAfter x y) := inferInstanceAs (Decidable (_ ∨ _))

/-- The frames of an originator are received in order, some of them not at all, and a further
copy of one that was received has the retry flag. -/
def InOrder (received : List (ℕ × ℕ)) (c : Copy) : Prop :=
  c.fragment < (sent c.msdu).fragments.length ∧
  (∀ x ∈ received, originatorOf sent x.1 = originatorOf sent c.msdu →
    NotAfter x (c.msdu, c.fragment)) ∧
  ((c.msdu, c.fragment) ∈ received → c.retry = true)

instance (received : List (ℕ × ℕ)) (c : Copy) : Decidable (InOrder sent received c) :=
  inferInstanceAs (Decidable (_ ∧ _))

/-- Each MSDU is delivered when all its fragments have been received. -/
def complete : Refinement.Spec (List (ℕ × ℕ)) Copy (Option (Packet × WifiMacHeader)) where
  Allowed := InOrder sent
  next := fun received c => (c.msdu, c.fragment) :: received
  answer := fun received c =>
    if Completes sent received c then
      some ((sent c.msdu).packet, (sent c.msdu).frameHeader c.fragment c.retry)
    else
      none

instance (received : List (ℕ × ℕ)) (c : Copy) : Decidable ((complete sent).Allowed received c) :=
  inferInstanceAs (Decidable (InOrder sent received c))

/-- The MSDUs that are delivered in a run. -/
def deliveries : List (ℕ × ℕ) → List Copy → List ℕ
  | _, [] => []
  | received, c :: copies =>
    let rest := deliveries ((c.msdu, c.fragment) :: received) copies
    if Completes sent received c then c.msdu :: rest else rest

namespace MacRxMiddle

/-- One frame is received. -/
def step (m : MacRxMiddle) (c : Copy) :
    Except Fault (MacRxMiddle × Option (Packet × WifiMacHeader)) :=
  m.Receive ((sent c.msdu).fragments.getD c.fragment [])
    ((sent c.msdu).frameHeader c.fragment c.retry)

/-- The frames that are handled as they are to be. One that was received before is not a whole
group addressed MSDU. A new one is not a retry with the last recorded sequence control, and is the
first of its MSDU; or, while an MSDU is being put together, the next of that. -/
def Fits (m : MacRxMiddle) (received : List (ℕ × ℕ)) (c : Copy) : Prop :=
  let hdr := (sent c.msdu).frameHeader c.fragment c.retry
  if received.contains (c.msdu, c.fragment) then
    ¬ (hdr.m_addr1.IsGroup = true ∧ (sent c.msdu).fragments.length = 1)
  else
    (c.retry = true → (m.Lookup hdr).m_lastSequenceControl ≠ hdr.GetSequenceControl) ∧
    if (m.Lookup hdr).m_defragmenting then
      0 < c.fragment ∧ received.contains (c.msdu, c.fragment - 1)
    else
      c.fragment = 0

instance (m : MacRxMiddle) (received : List (ℕ × ℕ)) (c : Copy) :
    Decidable (Fits sent m received c) := by
  unfold Fits
  infer_instance

end MacRxMiddle

end Reception

end Ns3Joined.Wifi

/-!
## Each MSDU is delivered when it is complete

The status of an originator tells which frame of it was received last (`Tracks`): none, one in
the middle of an MSDU of which all fragments so far are there, or the last one of an MSDU.

* `receive_eq`: a frame only changes its originator's status.
* `Tracks.duplicate`, `Tracks.next`, `Tracks.first`: the three kinds of frames that fit.
* `count_deliveries`: an MSDU is delivered once if all its fragments are received, else never.
* `complete_delivered`: over all runs.
* `abandoned_blocks`: an MSDU that was given up keeps all that come after it from being
  delivered.
-/

namespace Ns3Joined.Wifi

open List Bool

/-! ### Sequence control -/

/-- The sequence control of a fragment's frames. -/
def Msdu.control (m : Msdu) (fragment : ℕ) : ℕ := m.header.m_seqSeq <<< 4 ||| fragment

/-- The sequence control of a fragment. -/
theorem Msdu.control_eq (m : Msdu) {fragment : ℕ} (h : fragment < 16) :
    m.control fragment = 16 * m.header.m_seqSeq + fragment := by
  rw [control, ← Nat.shiftLeft_add_eq_or_of_lt (i := 4) h, Nat.shiftLeft_eq, Nat.mul_comm]

variable {o : OriginatorRxStatus} {j : ℕ} {x : ℕ × ℕ}

/-- The fragment behind the last one is the next. -/
theorem OriginatorRxStatus.isNextFragment_succ {m : Msdu}
    (ho : o.m_lastSequenceControl = m.control j) (hj : j + 1 < 16) :
    o.IsNextFragment (m.control (j + 1)) = true := by
  have hlow : ∀ a, a &&& 0x0f = a % 16 := fun a => Nat.and_two_pow_sub_one_eq_mod a 4
  unfold IsNextFragment
  rw [ho, m.control_eq hj, m.control_eq (by omega), hlow, hlow, Nat.shiftRight_eq_div_pow,
    Nat.shiftRight_eq_div_pow, and_eq_true, beq_iff_eq, beq_iff_eq]
  omega

/-! ### Deliveries -/

section Reception

variable {sent : ℕ → Msdu} {received : List (ℕ × ℕ)} {c : Copy} {i : ℕ}

/-- What is complete stays complete. -/
theorem Complete.mono (h : Complete sent received i) :
    Complete sent (x :: received) i := fun j hj => mem_cons_of_mem x (h j hj)

/-- A fragment that has come completes nothing. -/
theorem not_completes_of_mem (h : (c.msdu, c.fragment) ∈ received) :
    ¬ Completes sent received c := by
  rintro ⟨hnot, hcomplete⟩
  refine hnot fun j hj => ?_
  obtain heq | hmem := mem_cons.mp (hcomplete j hj)
  · exact heq ▸ h
  · exact hmem

/-- Completeness of one MSDU does not depend on fragments of others. -/
theorem complete_cons_iff_of_ne (h : x.1 ≠ i) :
    Complete sent (x :: received) i ↔ Complete sent received i := by
  refine ⟨fun hcomplete j hj => ?_, Complete.mono⟩
  obtain rfl | hmem := mem_cons.mp (hcomplete j hj)
  · exact absurd rfl h
  · exact hmem

/-- **Each MSDU is delivered once** if all its fragments come to be received, else never. -/
theorem count_deliveries (received : List (ℕ × ℕ)) (copies : List Copy) (i : ℕ) :
    (deliveries sent received copies).count i =
      if ¬ Complete sent received i ∧
        Complete sent ((copies.map fun c => (c.msdu, c.fragment)).reverse ++ received) i
      then 1 else 0 := by
  induction copies generalizing received with
  | nil =>
    refine (if_neg ?_).symm
    rintro ⟨hnot, hcomplete⟩
    exact hnot hcomplete
  | cons c copies ih =>
    have hlist : ((c :: copies).map fun c => (c.msdu, c.fragment)).reverse ++ received =
        (copies.map fun c => (c.msdu, c.fragment)).reverse ++ (c.msdu, c.fragment) :: received := by
      simp
    have hstays : Complete sent ((c.msdu, c.fragment) :: received) i →
        Complete sent ((copies.map fun c => (c.msdu, c.fragment)).reverse ++
          (c.msdu, c.fragment) :: received) i :=
      fun h j hj => mem_append_right _ (h j hj)
    have ih := ih ((c.msdu, c.fragment) :: received)
    rw [hlist, deliveries]
    by_cases hi : c.msdu = i
    · subst hi
      by_cases hcompletes : Completes sent received c
      · rw [if_pos hcompletes, count_cons_self, ih, if_neg (fun h => h.1 hcompletes.2),
          if_pos ⟨hcompletes.1, hstays hcompletes.2⟩]
      · rw [if_neg hcompletes, ih]
        refine if_congr ?_ rfl rfl
        refine and_congr_left fun _ => not_congr ?_
        exact ⟨fun h => by_contra fun hnot => hcompletes ⟨hnot, h⟩, Complete.mono⟩
    · have hcount : ∀ l : List ℕ, (c.msdu :: l).count i = l.count i :=
        fun l => count_cons_of_ne hi
      rw [apply_ite (List.count i), hcount, ite_self, ih]
      exact if_congr (and_congr_left fun _ => not_congr (complete_cons_iff_of_ne hi)) rfl rfl

/-! ### The order of the frames -/

/-- Of two fragments not after each other, both ways, there is one. -/
theorem NotAfter.antisymm {y : ℕ × ℕ} (h : NotAfter x y) (h' : NotAfter y x) : x = y := by
  obtain ⟨a, b⟩ := x
  obtain ⟨a', b'⟩ := y
  unfold NotAfter at h h'
  rw [Prod.mk.injEq]
  dsimp only at h h'
  omega

/-- The frame was received, and none of its originator after it in the order of sending. -/
structure IsLast (sent : ℕ → Msdu) (received : List (ℕ × ℕ)) (i j : ℕ) : Prop where
  mem : (i, j) ∈ received
  last : ∀ x ∈ received, originatorOf sent x.1 = originatorOf sent i → NotAfter x (i, j)

/-- A fragment that comes in order is the last one. -/
theorem InOrder.isLast (h : InOrder sent received c) :
    IsLast sent ((c.msdu, c.fragment) :: received) c.msdu c.fragment where
  mem := mem_cons_self ..
  last := by
    intro x hx hsame
    obtain rfl | hx := mem_cons.mp hx
    · exact .inr ⟨rfl, le_rfl⟩
    · exact h.2.1 x hx hsame

/-- The fragment behind the last one has not come. -/
theorem IsLast.succ_notMem (h : IsLast sent received i j) : (i, j + 1) ∉ received := by
  intro hmem
  have := h.last _ hmem rfl
  unfold NotAfter at this
  dsimp only at this
  omega

/-! ### The status of an originator -/

/-- What the status of an originator stands for. -/
inductive Tracks (sent : ℕ → Msdu) (received : List (ℕ × ℕ)) (k : Originator) :
    OriginatorRxStatus → Prop
  | nothing (hnone : ∀ x ∈ received, originatorOf sent x.1 ≠ k) : Tracks sent received k .new
  | within (i j : ℕ) (hlast : IsLast sent received i j) (hk : originatorOf sent i = k)
      (hmore : j + 1 < (sent i).fragments.length) (hall : ∀ j' ≤ j, (i, j') ∈ received) :
      Tracks sent received k ⟨true, (sent i).control j, (sent i).fragments.take (j + 1)⟩
  | done (i j control : ℕ) (hlast : IsLast sent received i j) (hk : originatorOf sent i = k)
      (hlength : j + 1 = (sent i).fragments.length)
      (hcontrol : ¬ ((sent i).header.m_addr1.IsGroup = true ∧ (sent i).fragments.length = 1) →
        control = (sent i).control j) :
      Tracks sent received k ⟨false, control, []⟩

/-- A frame of another originator leaves what is tracked. -/
theorem Tracks.other {k : Originator} (h : Tracks sent received k o)
    (hx : originatorOf sent x.1 ≠ k) : Tracks sent (x :: received) k o := by
  have hkeep : ∀ {i j : ℕ}, IsLast sent received i j → originatorOf sent i = k →
      IsLast sent (x :: received) i j := by
    intro i j hlast hk
    refine ⟨mem_cons_of_mem x hlast.mem, fun y hy hsame => ?_⟩
    obtain rfl | hy := mem_cons.mp hy
    · exact absurd (hsame.trans hk) hx
    · exact hlast.last y hy hsame
  cases h with
  | nothing hnone =>
    refine .nothing fun y hy => ?_
    obtain rfl | hy := mem_cons.mp hy
    · exact hx
    · exact hnone y hy
  | within i j hlast hk hmore hall =>
    exact .within i j (hkeep hlast hk) hk hmore fun j' hj' => mem_cons_of_mem x (hall j' hj')
  | done i j control hlast hk hlength hcontrol =>
    exact .done i j control (hkeep hlast hk) hk hlength hcontrol

namespace MacRxMiddle

variable {m : MacRxMiddle}

/-- What is found after storing. -/
theorem find_store (m : MacRxMiddle) (o : OriginatorRxStatus) (k k' : Originator) :
    (m.store o k).find k' = if k' = k then some o else m.find k' := by
  cases k <;> cases k' <;> simp [store, find, Function.update_apply]

/-- What a frame does to the status of its originator. -/
def receiveWith (originator : OriginatorRxStatus) (packet : Packet) (hdr : WifiMacHeader) :
    Except Fault (OriginatorRxStatus × Option (Packet × WifiMacHeader)) :=
  if IsDuplicate hdr originator then
    .ok (originator, none)
  else do
    let (originator, aggregate) ← HandleFragments packet hdr originator
    match aggregate with
    | none => .ok (originator, none)
    | some aggregate =>
      .ok (if !hdr.m_addr1.IsGroup then originator.SetSequenceControl hdr.GetSequenceControl
        else originator, some (aggregate, hdr))

/-- A data or management frame updates its originator's status. -/
theorem receive_eq {packet : Packet} (hdr : WifiMacHeader)
    (h : (hdr.IsData || hdr.IsMgt) = true)
    {o' : OriginatorRxStatus} {out : Option (Packet × WifiMacHeader)}
    (hok : receiveWith (m.Lookup hdr) packet hdr = .ok (o', out)) :
    m.Receive packet hdr = .ok (m.store o' hdr.originator, out) := by
  unfold receiveWith at hok
  refine (if_pos h).trans ?_
  dsimp only
  by_cases hdup : IsDuplicate hdr (m.Lookup hdr) = true
  · rw [if_pos hdup] at hok ⊢
    cases hok
    rfl
  · rw [if_neg hdup] at hok ⊢
    match hhandle : HandleFragments packet hdr (m.Lookup hdr) with
    | .error e =>
      rw [hhandle] at hok
      cases hok
    | .ok (o₁, none) =>
      rw [hhandle] at hok
      cases hok
      rfl
    | .ok (o₁, some aggregate) =>
      rw [hhandle] at hok
      cases hok
      rfl

/-- A frame that was received before is a duplicate of the last one. -/
theorem Tracks.duplicate (h : Tracks sent received (originatorOf sent c.msdu) o)
    (horder : InOrder sent received c) (hmem : (c.msdu, c.fragment) ∈ received)
    (hfits : ¬ ((sent c.msdu).header.m_addr1.IsGroup = true ∧
      (sent c.msdu).fragments.length = 1)) (packet : Packet) :
    receiveWith o packet ((sent c.msdu).frameHeader c.fragment c.retry) = .ok (o, none) ∧
      Tracks sent ((c.msdu, c.fragment) :: received) (originatorOf sent c.msdu) o := by
  -- the last frame is this one
  have heq : ∀ {i j}, IsLast sent received i j → originatorOf sent i = originatorOf sent c.msdu →
      i = c.msdu ∧ j = c.fragment := by
    intro i j hlast hk
    have h₁ := hlast.last _ hmem hk.symm
    have h₂ := horder.2.1 _ hlast.mem hk
    exact Prod.mk.inj (NotAfter.antisymm h₂ h₁)
  have hdup : o.m_lastSequenceControl = (sent c.msdu).control c.fragment →
      receiveWith o packet ((sent c.msdu).frameHeader c.fragment c.retry) = .ok (o, none) := by
    intro ho
    refine if_pos ?_
    change (c.retry && o.m_lastSequenceControl == (sent c.msdu).control c.fragment) = true
    rw [horder.2.2 hmem, ho, Bool.true_and, beq_iff_eq]
  cases h with
  | nothing hnone => exact absurd rfl (hnone _ hmem)
  | within i j hlast hk hmore hall =>
    obtain ⟨rfl, rfl⟩ := heq hlast hk
    exact ⟨hdup rfl, .within _ _ horder.isLast rfl hmore
      fun j' hj' => mem_cons_of_mem _ (hall j' hj')⟩
  | done i j control hlast hk hlength hcontrol =>
    obtain ⟨rfl, rfl⟩ := heq hlast hk
    exact ⟨hdup (hcontrol hfits), .done _ _ _ horder.isLast rfl hlength hcontrol⟩

/-- Without a retry that repeats the last control a frame is not taken for a duplicate. -/
theorem not_isDuplicate (hretry : c.retry = true →
    o.m_lastSequenceControl ≠ (sent c.msdu).control c.fragment) :
    ¬ IsDuplicate ((sent c.msdu).frameHeader c.fragment c.retry) o = true := by
  intro hdup
  change (c.retry && o.m_lastSequenceControl == (sent c.msdu).control c.fragment) = true at hdup
  rw [and_eq_true, beq_iff_eq] at hdup
  exact hretry hdup.1 hdup.2

/-- What a new frame brings about: its MSDU is delivered if it is the last one, and the status
is right again. -/
def Brings (sent : ℕ → Msdu) (received : List (ℕ × ℕ)) (c : Copy) (o : OriginatorRxStatus) :
    Prop :=
  ∃ o', receiveWith o ((sent c.msdu).fragments.getD c.fragment [])
      ((sent c.msdu).frameHeader c.fragment c.retry) =
      .ok (o', (complete sent).answer received c) ∧
    Tracks sent ((c.msdu, c.fragment) :: received) (originatorOf sent c.msdu) o'

/-- A fragment that is not the last completes nothing. -/
theorem answer_none (horder : InOrder sent received c)
    (hmore : c.fragment + 1 < (sent c.msdu).fragments.length) :
    (complete sent).answer received c = none :=
  if_neg fun h => horder.isLast.succ_notMem (h.2 _ hmore)

/-- The last fragment completes its MSDU where the others have come. -/
theorem answer_some (hnew : (c.msdu, c.fragment) ∉ received)
    (hlength : c.fragment + 1 = (sent c.msdu).fragments.length)
    (hall : ∀ j' < c.fragment, (c.msdu, j') ∈ received) :
    (complete sent).answer received c =
      some ((sent c.msdu).packet, (sent c.msdu).frameHeader c.fragment c.retry) := by
  refine if_pos ⟨fun h => hnew (h _ (by omega)), fun j' hj' => ?_⟩
  obtain rfl | hlt := Nat.eq_or_lt_of_le (Nat.le_of_lt_succ (hlength ▸ hj'))
  · exact mem_cons_self ..
  · exact mem_cons_of_mem _ (hall j' hlt)

/-- The fragments up to the next one. -/
theorem take_append_getD {fragments : List Packet} (h : j < fragments.length) :
    fragments.take j ++ [fragments.getD j []] = fragments.take (j + 1) := by
  rw [getD_eq_getElem?_getD, List.getElem?_eq_getElem h, take_succ_eq_append_getElem h]
  rfl

/-- A fragment after those that were put together so far. -/
theorem Tracks.next {i : ℕ} (hwell : (sent c.msdu).WellFormed) (horder : InOrder sent received c)
    (hnew : (c.msdu, c.fragment) ∉ received) (hc : c.msdu = i ∧ c.fragment = j + 1)
    (hall : ∀ j' ≤ j, (i, j') ∈ received)
    (hretry : c.retry = true → (sent i).control j ≠ (sent c.msdu).control c.fragment) :
    Brings sent received c ⟨true, (sent i).control j, (sent i).fragments.take (j + 1)⟩ := by
  obtain ⟨rfl, hj⟩ := hc
  obtain ⟨hfragment, -, -⟩ := id horder
  have hlength := hwell.2.2.2
  have hnext : OriginatorRxStatus.IsNextFragment
      ⟨true, (sent c.msdu).control j, (sent c.msdu).fragments.take (j + 1)⟩
      ((sent c.msdu).frameHeader c.fragment c.retry).GetSequenceControl = true := by
    change OriginatorRxStatus.IsNextFragment _ ((sent c.msdu).control c.fragment) = true
    rw [hj]
    exact OriginatorRxStatus.isNextFragment_succ rfl (by omega)
  have htake := take_append_getD hfragment
  have hdup := not_isDuplicate (o := ⟨true, (sent c.msdu).control j,
    (sent c.msdu).fragments.take (j + 1)⟩) hretry
  rw [hj] at htake
  by_cases hmore : c.fragment + 1 < (sent c.msdu).fragments.length
  · -- one more of them
    refine ⟨⟨true, (sent c.msdu).control c.fragment, (sent c.msdu).fragments.take (c.fragment + 1)⟩,
      ?_, .within _ _ horder.isLast rfl hmore ?_⟩
    · rw [answer_none horder hmore]
      refine (if_neg hdup).trans ?_
      have hflag : ((sent c.msdu).frameHeader c.fragment c.retry).IsMoreFragments = true :=
        decide_eq_true hmore
      simp only [HandleFragments, if_true, hflag, hnext, OriginatorRxStatus.AccumulateFragment,
        bind, Except.bind]
      rw [hj, htake]
      rfl
    · intro j' hj'
      obtain rfl | hlt := Nat.eq_or_lt_of_le hj'
      · exact mem_cons_self ..
      · exact mem_cons_of_mem _ (hall j' (by omega))
  · -- the last of them
    have hlast : c.fragment + 1 = (sent c.msdu).fragments.length := by omega
    refine ⟨⟨false, (sent c.msdu).control c.fragment, []⟩, ?_,
      .done _ _ _ horder.isLast rfl hlast fun _ => rfl⟩
    rw [answer_some hnew hlast fun j' hj' => hall j' (by omega)]
    refine (if_neg hdup).trans ?_
    have hflag : ((sent c.msdu).frameHeader c.fragment c.retry).IsMoreFragments = false :=
      decide_eq_false hmore
    have hfull : ((sent c.msdu).fragments.take (j + 1) ++
        [(sent c.msdu).fragments.getD c.fragment []]).flatten = (sent c.msdu).packet := by
      rw [hj, htake, ← hj, hlast, take_length]
      rfl
    simp only [HandleFragments, if_true, hflag, hnext, OriginatorRxStatus.AccumulateLastFragment,
      false_eq_true, if_false, bind, Except.bind, hfull]
    split_ifs <;> rfl

/-- The first fragment of an MSDU, while none is put together. -/
theorem Tracks.first {control : ℕ} (horder : InOrder sent received c)
    (hnew : (c.msdu, c.fragment) ∉ received) (hc : c.fragment = 0)
    (hretry : c.retry = true → control ≠ (sent c.msdu).control c.fragment) :
    Brings sent received c ⟨false, control, []⟩ := by
  obtain ⟨hfragment, -, -⟩ := id horder
  have htake := take_append_getD hfragment
  have hdup := not_isDuplicate (o := ⟨false, control, []⟩) hretry
  rw [hc] at htake
  by_cases hmore : c.fragment + 1 < (sent c.msdu).fragments.length
  · -- the MSDU is begun
    refine ⟨⟨true, (sent c.msdu).control c.fragment, (sent c.msdu).fragments.take (c.fragment + 1)⟩,
      ?_, .within _ _ horder.isLast rfl hmore ?_⟩
    · rw [answer_none horder hmore]
      refine (if_neg hdup).trans ?_
      have hflag : ((sent c.msdu).frameHeader c.fragment c.retry).IsMoreFragments = true :=
        decide_eq_true hmore
      simp only [HandleFragments, hflag, OriginatorRxStatus.AccumulateFirstFragment,
        false_eq_true, if_false, if_true, bind, Except.bind]
      rw [hc, ← htake]
      rfl
    · intro j' hj'
      obtain rfl : j' = c.fragment := by omega
      exact mem_cons_self ..
  · -- and is all there is
    have hlast : c.fragment + 1 = (sent c.msdu).fragments.length := by omega
    have hpacket : (sent c.msdu).fragments.getD c.fragment [] = (sent c.msdu).packet := by
      have hone : (sent c.msdu).fragments = [(sent c.msdu).fragments.getD c.fragment []] := by
        rw [hc] at hlast ⊢
        rw [hlast, take_length] at htake
        exact htake.symm
      unfold Msdu.packet
      conv_rhs => rw [hone]
      simp
    have hflag : ((sent c.msdu).frameHeader c.fragment c.retry).IsMoreFragments = false :=
      decide_eq_false hmore
    refine ⟨⟨false, if !(sent c.msdu).header.m_addr1.IsGroup then
      (sent c.msdu).control c.fragment else control, []⟩, ?_,
      .done _ _ _ horder.isLast rfl hlast fun hsingle => if_pos ?_⟩
    · rw [answer_some hnew hlast fun j' hj' => absurd hj' (by omega)]
      refine (if_neg hdup).trans ?_
      simp only [HandleFragments, hflag, hpacket, false_eq_true, if_false, bind, Except.bind]
      change Except.ok (if !(sent c.msdu).header.m_addr1.IsGroup then _ else _, _) = _
      split_ifs <;> rfl
    · have hgroup : (sent c.msdu).header.m_addr1.IsGroup ≠ true :=
        fun h => hsingle ⟨h, by omega⟩
      simpa using hgroup

/-! ### Runs -/

/-- The statuses of all originators. -/
def TracksAll (sent : ℕ → Msdu) (m : MacRxMiddle) (received : List (ℕ × ℕ)) : Prop :=
  ∀ k, Tracks sent received k ((m.find k).getD .new)

/-- Every arrival in order refines the specification, where it fits. -/
theorem step_refines (hsent : ∀ i, (sent i).WellFormed) (h : TracksAll sent m received)
    (horder : InOrder sent received c) (hfits : Fits sent m received c) :
    Refinement.StepRefines (step sent) (complete sent) (TracksAll sent) m received c := by
  have hwell := hsent c.msdu
  have htracks := h (originatorOf sent c.msdu)
  have hlookup : m.Lookup ((sent c.msdu).frameHeader c.fragment c.retry) =
      (m.find (originatorOf sent c.msdu)).getD .new := rfl
  -- it is enough to know what becomes of the status of its originator
  suffices hbrings : Brings sent received c ((m.find (originatorOf sent c.msdu)).getD .new) by
    obtain ⟨o', hok, htracks'⟩ := hbrings
    refine ⟨m.store o' (originatorOf sent c.msdu), ?_, fun k => ?_⟩
    · exact receive_eq ((sent c.msdu).frameHeader c.fragment c.retry) hwell.1 (hlookup ▸ hok)
    · rw [find_store]
      split_ifs with hk
      · exact hk ▸ htracks'
      · exact (h k).other (Ne.symm hk)
  unfold Fits at hfits
  dsimp only at hfits
  rw [hlookup] at hfits
  generalize (m.find (originatorOf sent c.msdu)).getD .new = o at htracks hfits
  by_cases hmem : (c.msdu, c.fragment) ∈ received
  · rw [if_pos (contains_iff_mem.mpr hmem)] at hfits
    obtain ⟨hok, htracks'⟩ := Tracks.duplicate htracks horder hmem hfits
      ((sent c.msdu).fragments.getD c.fragment [])
    refine ⟨o, ?_, htracks'⟩
    rw [hok]
    exact congrArg (fun out => Except.ok (o, out)) (if_neg (not_completes_of_mem hmem)).symm
  · rw [if_neg fun h => hmem (contains_iff_mem.mp h), contains_iff_mem] at hfits
    obtain ⟨hretry, hplace⟩ := hfits
    cases htracks with
    | nothing hnone => exact Tracks.first horder hmem hplace hretry
    | within i j hlast hk hmore hall =>
      -- the frame before it is the last one that was received
      obtain ⟨hpos, hbefore⟩ := hplace
      refine Tracks.next hwell horder hmem ?_ hall hretry
      have h₁ := hlast.last _ hbefore hk.symm
      have h₂ := horder.2.1 _ hlast.mem hk
      have hne : ¬ (i = c.msdu ∧ j = c.fragment) := by
        rintro ⟨rfl, rfl⟩
        exact hmem hlast.mem
      unfold NotAfter at h₁ h₂
      dsimp only at h₁ h₂
      omega
    | done i j control hlast hk hlength hcontrol => exact Tracks.first horder hmem hplace hretry

/-- **Each MSDU is delivered when it is complete**, once, and nothing else is: in every run whose
frames all fit. -/
theorem complete_delivered (sent : ℕ → Msdu) (hsent : ∀ i, (sent i).WellFormed)
    (copies : List Copy)
    (hfits : Refinement.Before (step sent) (complete sent) (Fits sent) new [] copies) :
    Refinement.Refines (step sent) (complete sent) (TracksAll sent) new [] copies ∧
    ∀ i, (deliveries sent [] copies).count i =
      if Complete sent ((copies.map fun c => (c.msdu, c.fragment)).reverse) i then 1 else 0 := by
  constructor
  · refine Refinement.refines_of_before (fun _ _ _ h horder hfits =>
      step_refines hsent h horder hfits) (fun k => ?_) hfits
    cases k <;> exact .nothing nofun
  · intro i
    rw [count_deliveries, append_nil]
    refine if_congr (and_iff_right fun h => ?_) rfl rfl
    exact not_mem_nil (h 0 (length_pos_of_ne_nil (hsent i).2.2.1))

/-- The MSDUs of a station, every other of them in two fragments. -/
def sample (i : ℕ) : Msdu where
  header :=
    { m_ctrlType := WifiMacHeader.TYPE_DATA
      m_ctrlSubtype := 8
      m_ctrlMoreFrag := false
      m_ctrlRetry := false
      m_addr1 := ⟨fun _ => 2⟩
      m_addr2 := ⟨fun _ => 4⟩
      m_seqFrag := 0
      m_seqSeq := i % 4096
      m_qosTid := 0 }
  fragments := if i % 2 = 1 then [[1, 2], [3]] else [[4, 5]]

/-- The frames of the example are well formed. -/
theorem sample_wellFormed (i : ℕ) : (sample i).WellFormed := by
  have hseq : i % 4096 < 4096 := Nat.mod_lt _ (by decide)
  unfold sample Msdu.WellFormed
  split_ifs
  · exact ⟨rfl, hseq, cons_ne_nil _ _, Nat.le_of_ble_eq_true rfl⟩
  · exact ⟨rfl, hseq, cons_ne_nil _ _, Nat.le_of_ble_eq_true rfl⟩

/-- Retries of a whole MSDU and of a fragment, and an MSDU that is not received. -/
theorem complete_delivered_retries :
    Refinement.Refines (step sample) (complete sample) (TracksAll sample) new []
      [⟨0, 0, true⟩, ⟨0, 0, true⟩, ⟨1, 0, false⟩, ⟨1, 0, true⟩, ⟨1, 1, true⟩, ⟨4, 0, false⟩] ∧
    ∀ i, (deliveries sample [] [⟨0, 0, true⟩, ⟨0, 0, true⟩, ⟨1, 0, false⟩, ⟨1, 0, true⟩,
      ⟨1, 1, true⟩, ⟨4, 0, false⟩]).count i =
      if Complete sample (([⟨0, 0, true⟩, ⟨0, 0, true⟩, ⟨1, 0, false⟩, ⟨1, 0, true⟩, ⟨1, 1, true⟩,
        ⟨4, 0, false⟩] : List Copy).map fun c => (c.msdu, c.fragment)).reverse i then 1 else 0 :=
  complete_delivered sample sample_wellFormed _ (by decide +kernel)

/-- The sender gives up on the second fragment of MSDU 1: the MSDUs after it are received, but
not delivered. -/
theorem abandoned_blocks :
    (complete sample).AllAllowed [] [⟨1, 0, false⟩, ⟨2, 0, false⟩, ⟨4, 0, false⟩] ∧
    Refinement.answers (step sample) new [⟨1, 0, false⟩, ⟨2, 0, false⟩, ⟨4, 0, false⟩] =
      .ok [none, none, none] ∧
    (complete sample).answers [] [⟨1, 0, false⟩, ⟨2, 0, false⟩, ⟨4, 0, false⟩] =
      [none, some ([4, 5], (sample 2).frameHeader 0 false),
        some ([4, 5], (sample 4).frameHeader 0 false)] := by
  refine ⟨by decide +kernel, rfl, by decide +kernel⟩

end MacRxMiddle
end Reception
end Ns3Joined.Wifi
