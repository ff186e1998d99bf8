import Ns3Joined.Library.ExceptFold
import Ns3Joined.Library.Slots
import Ns3Joined.Library.TracedRun
import Ns3Joined.Lte.RlcAm

/-!
# The window and the buffers of the transmitting side

The PDUs of the sequence numbers from VT(A) up to VT(S) that are not acknowledged are each in one
of the two buffers of 1024 slots, all other slots are empty, and the sizes that are counted are
those of the buffers modulo `2^32`.

Sequence numbers are not reduced here: the number of a PDU is its place among all that were sent.

* `Keeps`: the invariant, for the number `first` that VT(A) stands for.
* `Slot`: what is to be in the slots of a number. One operation changes those of one number only,
  and the other numbers of the window have other slots (`slot_ne`).
* `statusLoop_keeps`: from one number to the next, the loop over a STATUS PDU settles it.
-/

namespace Ns3Joined.Lte.LteRlcAm

open SequenceNumber10 Slots ExceptFold List Function Bool

/-! ### Histories -/

/-- The data PDUs that were sent, in the order of their sequence numbers. -/
def sent (h : List Action) : List AmPdu :=
  h.filterMap fun
    | .transmitted pdu => some pdu
    | _ => none

/-- It is a STATUS PDU by which the number `n` is acknowledged. -/
def acks : Action → ℕ → Bool
  | .status ackSn nacks, n => decide (n < ackSn) && !nacks.contains n
  | _, _ => false

def Acked (h : List Action) (n : ℕ) : Prop := ∃ a ∈ h, acks a n = true

/-- What a peer may send: ACK_SN is the next number that it has not received and does not report
missing, and what it reports missing it has not received. -/
def Conforming (_ : LteRlcAm) (h : List Action) : Call → Prop
  | .statusPdu ackSn nacks =>
    ackSn ≤ (sent h).length ∧ ¬ Acked h ackSn ∧ ∀ n ∈ nacks, n < ackSn ∧ ¬ Acked h n
  | _ => True

instance (r : LteRlcAm) (h : List Action) : (call : Call) → Decidable (Conforming r h call)
  | .transmitPdcpPdu _ => .isTrue trivial
  | .notifyTxOpportunity _ _ => .isTrue trivial
  | .pollRetransmitTimerExpires => .isTrue trivial
  | .statusPdu ackSn nacks =>
    inferInstanceAs (Decidable (ackSn ≤ (sent h).length ∧ ¬ (∃ a ∈ h, acks a ackSn = true) ∧
      ∀ n ∈ nacks, n < ackSn ∧ ¬ (∃ a ∈ h, acks a n = true)))

/-- The PDUs sent in a longer history. -/
theorem sent_append (h h' : List Action) : sent (h ++ h') = sent h ++ sent h' :=
  filterMap_append

/-- What is acknowledged in a longer history. -/
theorem acked_append (h h' : List Action) (n : ℕ) :
    Acked (h ++ h') n ↔ Acked h n ∨ Acked h' n := by
  constructor
  · rintro ⟨a, ha, hn⟩
    obtain ha | ha := mem_append.mp ha
    · exact .inl ⟨a, ha, hn⟩
    · exact .inr ⟨a, ha, hn⟩
  · rintro (⟨a, ha, hn⟩ | ⟨a, ha, hn⟩)
    · exact ⟨a, mem_append_left _ ha, hn⟩
    · exact ⟨a, mem_append_right _ ha, hn⟩

/-- What one STATUS PDU acknowledges. -/
theorem acked_status (ackSn : ℕ) (nacks : List ℕ) (n : ℕ) :
    Acked [.status ackSn nacks] n ↔ n < ackSn ∧ n ∉ nacks := by
  simp [Acked, acks]

/-! ### What is to hold -/

/-- The slots of the number `n`. -/
def slot (n : ℕ) : Fin 1024 := (SequenceNumber10.new n).m_value

/-- One of the two slots holds the PDU, and the other is empty. -/
inductive KeptOnce (r : LteRlcAm) (pdu : AmPdu) (i : Fin 1024) : Prop
  | txed (count : ℕ) (htxed : r.m_txedBuffer i = some ⟨pdu, count⟩)
      (hretx : r.m_retxBuffer i = none)
  | retx (count : ℕ) (htxed : r.m_txedBuffer i = none)
      (hretx : r.m_retxBuffer i = some ⟨pdu, count⟩)

/-- The window from `first` on: VT(A) is `first`, up to which all is acknowledged. -/
structure Window (r : LteRlcAm) (h : List Action) (first : ℕ) : Prop where
  vtA : r.m_vtA.m_value = slot first
  vtS : r.m_vtS.m_value = slot (sent h).length
  first_le : first ≤ (sent h).length
  length_le : (sent h).length ≤ first + windowSize
  before : ∀ n < first, Acked h n
  kept : ∀ n pdu, first ≤ n → (sent h)[n]? = some pdu → ¬ Acked h n → KeptOnce r pdu (slot n)
  empty : ∀ i, (∀ n, first ≤ n → n < (sent h).length → ¬ Acked h n → slot n ≠ i) →
    r.m_txedBuffer i = none ∧ r.m_retxBuffer i = none

/-- The bytes in a transmission buffer. -/
def bytesOf : List TxPdu → ℕ
  | [] => 0
  | first :: rest => first.m_pdu.length + bytesOf rest

/-- What is to hold after each step, where `counts` says how a size stands for a number of
bytes. -/
structure Right (counts : UInt32 → ℕ → Prop) (r : LteRlcAm) (h : List Action) : Prop where
  window : ∃ first, Window r h first
  width : (r.m_vtS.m_value - r.m_vtA.m_value).val ≤ windowSize
  txed : counts r.m_txedBufferSize (total RetxPdu.size r.m_txedBuffer)
  retx : counts r.m_retxBufferSize (total RetxPdu.size r.m_retxBuffer)
  txon : counts r.m_txonBufferSize (bytesOf r.m_txonBuffer)

/-- The size is the number of bytes, as far as 32 bits can hold it. -/
def CountsMod (size : UInt32) (bytes : ℕ) : Prop := size = UInt32.ofNat bytes

/-- The size is the number of bytes. -/
def CountsExactly (size : UInt32) (bytes : ℕ) : Prop := size.toNat = bytes

/-! ### The invariant -/

/-- What is to be in the slots of the number `n`, where `pdus` have been sent. -/
inductive Slot (r : LteRlcAm) (pdus : List AmPdu) (acked : ℕ → Prop) (n : ℕ) : Prop
  | settled (hn : acked n ∨ pdus[n]? = none) (htxed : r.m_txedBuffer (slot n) = none)
      (hretx : r.m_retxBuffer (slot n) = none)
  | kept (pdu : AmPdu) (hn : ¬ acked n) (hpdu : pdus[n]? = some pdu)
      (hkept : KeptOnce r pdu (slot n))

/-- The base of all sequence numbers is VT(A). -/
structure Keeps (r : LteRlcAm) (pdus : List AmPdu) (acked : ℕ → Prop) (first : ℕ) : Prop where
  vtA : r.m_vtA = num first first
  vtS : r.m_vtS = num pdus.length first
  vtMs : r.m_vtMs = num (first + 512) first
  first_le : first ≤ pdus.length
  length_le : pdus.length ≤ first + 512
  before : ∀ n < first, acked n
  acked_lt : ∀ n, acked n → n < pdus.length
  slots : ∀ n, first ≤ n → n < first + 1024 → Slot r pdus acked n
  txed : CountsMod r.m_txedBufferSize (total RetxPdu.size r.m_txedBuffer)
  retx : CountsMod r.m_retxBufferSize (total RetxPdu.size r.m_retxBuffer)
  txon : CountsMod r.m_txonBufferSize (bytesOf r.m_txonBuffer)

variable {i : Fin 1024} {pdu : RetxPdu} {r r' : LteRlcAm} {sn : SequenceNumber10} {first rounds : ℕ}
  {size : UInt32} {rest : List TxPdu} {h : List Action}

section Slot

variable {pdus pdus' : List AmPdu} {acked acked' : ℕ → Prop} {n m : ℕ}

/-- Within a window different numbers have different slots. -/
theorem slot_ne (hm : first ≤ m) (hm' : m < first + 1024) (hn : first ≤ n)
    (hn' : n < first + 1024) (hne : m ≠ n) : slot m ≠ slot n := fun h =>
  hne ((ofNat_inj hm hm' hn hn').mp h)

/-- Every slot is that of a number of the window. -/
theorem exists_slot (first : ℕ) (i : Fin 1024) :
    ∃ n, first ≤ n ∧ n < first + 1024 ∧ slot n = i := by
  refine ⟨first + (i.val + 1024 - first % 1024) % 1024, Nat.le_add_right _ _, ?_, ?_⟩
  · have := Nat.mod_lt (i.val + 1024 - first % 1024) (show 0 < 1024 by decide)
    omega
  · refine Fin.ext ?_
    show (first + (i.val + 1024 - first % 1024) % 1024) % 1024 = i.val
    have := i.isLt
    omega

/-- Being kept once reads one slot of the two buffers. -/
theorem KeptOnce.congr {pdu : AmPdu} (hkept : KeptOnce r pdu i)
    (htxed : r'.m_txedBuffer i = r.m_txedBuffer i) (hretx : r'.m_retxBuffer i = r.m_retxBuffer i) :
    KeptOnce r' pdu i := by
  cases hkept with
  | txed count h h' => exact .txed count (htxed.trans h) (hretx.trans h')
  | retx count h h' => exact .retx count (htxed.trans h) (hretx.trans h')

/-- The state of a slot reads that slot of the two buffers. -/
theorem Slot.congr (hslot : Slot r pdus acked n)
    (htxed : r'.m_txedBuffer (slot n) = r.m_txedBuffer (slot n))
    (hretx : r'.m_retxBuffer (slot n) = r.m_retxBuffer (slot n))
    (hpdus : pdus'[n]? = pdus[n]?) (hacked : acked' n ↔ acked n) : Slot r' pdus' acked' n := by
  cases hslot with
  | settled hn h h' =>
    exact .settled (hn.imp hacked.mpr hpdus.trans) (htxed.trans h) (hretx.trans h')
  | kept pdu hn hpdu hkept =>
    exact .kept pdu (fun h => hn (hacked.mp h)) (hpdus.trans hpdu) (hkept.congr htxed hretx)

/-- Nothing that the invariant is about has changed. -/
theorem Keeps.frame (hr : Keeps r pdus acked first)
    (hnumbers : (r'.m_vtA, r'.m_vtS, r'.m_vtMs) = (r.m_vtA, r.m_vtS, r.m_vtMs))
    (htxed : (r'.m_txedBuffer, r'.m_txedBufferSize) = (r.m_txedBuffer, r.m_txedBufferSize))
    (hretx : (r'.m_retxBuffer, r'.m_retxBufferSize) = (r.m_retxBuffer, r.m_retxBufferSize))
    (htxon : (r'.m_txonBuffer, r'.m_txonBufferSize) = (r.m_txonBuffer, r.m_txonBufferSize)) :
    Keeps r' pdus acked first := by
  simp only [Prod.mk.injEq] at hnumbers htxed hretx htxon
  obtain ⟨hvtA, hvtS, hvtMs⟩ := hnumbers
  obtain ⟨htxed, htxedSize⟩ := htxed
  obtain ⟨hretx, hretxSize⟩ := hretx
  obtain ⟨htxon, htxonSize⟩ := htxon
  exact {
    vtA := hvtA.trans hr.vtA
    vtS := hvtS.trans hr.vtS
    vtMs := hvtMs.trans hr.vtMs
    __ := hr
    slots := fun n hn hn' =>
      (hr.slots n hn hn').congr (congrFun htxed _) (congrFun hretx _) rfl Iff.rfl
    txed := by rw [htxedSize, htxed]; exact hr.txed
    retx := by rw [hretxSize, hretx]; exact hr.retx
    txon := by rw [htxonSize, htxon]; exact hr.txon }

/-- The slots of one number change. -/
theorem Keeps.slots_of (hr : Keeps r pdus acked first) (hn : first ≤ n) (hn' : n < first + 1024)
    (hslot : Slot r' pdus' acked' n)
    (htxed : ∀ i, i ≠ slot n → r'.m_txedBuffer i = r.m_txedBuffer i)
    (hretx : ∀ i, i ≠ slot n → r'.m_retxBuffer i = r.m_retxBuffer i)
    (hpdus : ∀ m, m ≠ n → pdus'[m]? = pdus[m]?) (hacked : ∀ m, m ≠ n → (acked' m ↔ acked m)) :
    ∀ m, first ≤ m → m < first + 1024 → Slot r' pdus' acked' m := by
  intro m hm hm'
  by_cases hne : m = n
  · rw [hne]
    exact hslot
  · have hslotne := slot_ne hm hm' hn hn' hne
    exact (hr.slots m hm hm').congr (htxed _ hslotne) (hretx _ hslotne) (hpdus m hne)
      (hacked m hne)

/-- The invariant reads the acknowledgements as a set. -/
theorem Keeps.congr (hr : Keeps r pdus acked first) (hacked : ∀ m, acked' m ↔ acked m) :
    Keeps r pdus acked' first := by
  have heq : acked' = acked := funext fun m => propext (hacked m)
  rw [heq]
  exact hr

end Slot

/-! ### The sizes -/

section Sizes

variable {slots : Fin 1024 → Option RetxPdu}

/-- Storing a PDU in an empty slot counts its size. -/
theorem CountsMod.store (hsize : CountsMod size (total RetxPdu.size slots))
    (hslot : slots i = none) (pdu : RetxPdu) :
    CountsMod (size + UInt32.ofNat pdu.size)
      (total RetxPdu.size (Function.update slots i (some pdu))) := by
  rw [CountsMod, total_store hslot, UInt32.ofNat_add, hsize]

/-- Clearing a slot takes the size of its PDU away. -/
theorem CountsMod.clear (hsize : CountsMod size (total RetxPdu.size slots))
    (hslot : slots i = some pdu) :
    CountsMod (size - UInt32.ofNat pdu.size)
      (total RetxPdu.size (Function.update slots i none)) := by
  rw [CountsMod, hsize, ← total_clear hslot, UInt32.ofNat_add, UInt32.add_sub_cancel]

end Sizes

/-! ### The operations on one slot -/

section Operations

variable {pdus : List AmPdu} {acked : ℕ → Prop} {n : ℕ}

/-- A PDU that waits for retransmission is one of the window. -/
theorem Keeps.slot_eq (hr : Keeps r pdus acked first) (hretx : r.m_retxBuffer i = some pdu) :
    ∃ n, first ≤ n ∧ n < pdus.length ∧ slot n = i := by
  obtain ⟨n, hn, hn', rfl⟩ := exists_slot first i
  cases hr.slots n hn hn' with
  | settled _ _ h =>
    rw [h] at hretx
    cases hretx
  | kept _ _ hpdu _ =>
    obtain ⟨hlt, -⟩ := List.getElem?_eq_some_iff.mp hpdu
    exact ⟨n, hn, hlt, rfl⟩

section

variable (hr : Keeps r pdus acked first) (hn : first ≤ n)

include hr hn

/-- Moving a PDU to the retransmission buffer keeps the invariant. -/
theorem Keeps.moveToRetx (hn' : n < first + 1024) :
    Keeps (r.moveToRetx (slot n)) pdus acked first := by
  unfold LteRlcAm.moveToRetx
  split
  case h_2 => exact hr
  case h_1 pdu hpdu =>
    cases hr.slots n hn hn' with
    | settled _ h _ =>
      rw [h] at hpdu
      cases hpdu
    | kept sent hnot hsent hkept =>
      cases hkept with
      | retx count h _ =>
        rw [h] at hpdu
        cases hpdu
      | txed count h hretx =>
        rw [h] at hpdu
        cases hpdu
        have hempty : Function.update r.m_txedBuffer (slot n) none (slot n) = none :=
          update_self ..
        have hmoved : Function.update r.m_retxBuffer (slot n) (some ⟨sent, count⟩) (slot n) =
            some ⟨sent, count⟩ := update_self ..
        exact { hr with
          slots := hr.slots_of hn hn' (.kept sent hnot hsent (.retx count hempty hmoved))
            (fun i hi => update_of_ne hi ..) (fun i hi => update_of_ne hi ..)
            (fun _ _ => rfl) (fun _ _ => Iff.rfl)
          txed := hr.txed.clear h
          retx := hr.retx.store hretx _ }

/-- A PDU not acknowledged waits for retransmission after it was moved. -/
theorem Keeps.isSome_moveToRetx (hlt : n < pdus.length) (hnot : ¬ acked n) :
    ((r.moveToRetx (slot n)).m_retxBuffer (slot n)).isSome = true := by
  have hwindow := hr.length_le
  have hnone : pdus[n]? ≠ none := fun h => Nat.not_le.mpr hlt (List.getElem?_eq_none_iff.mp h)
  unfold LteRlcAm.moveToRetx
  cases hr.slots n hn (by omega) with
  | settled h _ _ => exact absurd h (not_or.mpr ⟨hnot, hnone⟩)
  | kept sent _ _ hkept =>
    cases hkept with
    | txed count h _ =>
      rw [h]
      show (Function.update r.m_retxBuffer (slot n) _ (slot n)).isSome = true
      rw [update_self]
      rfl
    | retx count h hretx =>
      rw [h]
      exact congrArg Option.isSome hretx

/-- A negative acknowledgement succeeds and keeps the invariant. -/
theorem Keeps.negative (hlt : n < pdus.length) (hnot : ¬ acked n) :
    ∃ r', r.negative (slot n) = .ok r' ∧ Keeps r' pdus acked first := by
  have hwindow := hr.length_le
  exact ⟨_, if_pos (hr.isSome_moveToRetx hn hlt hnot), hr.moveToRetx hn (by omega)⟩

/-- Moving a PDU back to the transmitted ones keeps the invariant. -/
theorem Keeps.moveToTxed (hn' : n < first + 1024) (hpdu : r.m_retxBuffer (slot n) = some pdu) :
    Keeps (r.moveToTxed (slot n) pdu) pdus acked first := by
  cases hr.slots n hn hn' with
  | settled _ _ h =>
    rw [h] at hpdu
    cases hpdu
  | kept sent hnot hsent hkept =>
    cases hkept with
    | txed count _ h =>
      rw [h] at hpdu
      cases hpdu
    | retx count htxed h =>
      have heq := Option.some.inj (hpdu.symm.trans h)
      subst heq
      have hempty : Function.update r.m_retxBuffer (slot n) none (slot n) = none :=
        update_self ..
      have hmoved : Function.update r.m_txedBuffer (slot n) (some ⟨sent, count + 1⟩) (slot n) =
          some ⟨sent, count + 1⟩ := update_self ..
      exact { hr with
        slots := hr.slots_of hn hn' (.kept sent hnot hsent (.txed (count + 1) hmoved hempty))
          (fun i hi => update_of_ne hi ..) (fun i hi => update_of_ne hi ..)
          (fun _ _ => rfl) (fun _ _ => Iff.rfl)
        txed := hr.txed.store htxed ⟨sent, count + 1⟩
        retx := hr.retx.clear h }

/-- A positive acknowledgement succeeds and keeps the invariant. -/
theorem Keeps.positive (hlt : n < pdus.length) :
    ∃ r', r.positive (slot n) = .ok r' ∧
      Keeps r' pdus (fun m => acked m ∨ m = n) first := by
  have hwindow := hr.length_le
  have hn' : n < first + 1024 := by omega
  have hacked : ∀ m, m ≠ n → ((acked m ∨ m = n) ↔ acked m) := fun m hne =>
    or_iff_left hne
  have hacked_lt : ∀ m, acked m ∨ m = n → m < pdus.length := by
    rintro m (hm | rfl)
    · exact hr.acked_lt m hm
    · exact hlt
  unfold LteRlcAm.positive
  -- The PDU is acknowledged already, or is kept in one of the two buffers and leaves it.
  cases hr.slots n hn hn' with
  | settled _ htxed hretx =>
    rw [htxed]
    dsimp only
    rw [ok_bind, hretx]
    refine ⟨_, rfl, ?_⟩
    exact { hr with
      before := fun m hm => .inl (hr.before m hm)
      acked_lt := hacked_lt
      slots := hr.slots_of hn hn' (.settled (.inl (.inr rfl)) htxed hretx)
        (fun _ _ => rfl) (fun _ _ => rfl) (fun _ _ => rfl) hacked }
  | kept sent _ _ hkept =>
    cases hkept with
    | txed count htxed hretx =>
      rw [htxed]
      dsimp only
      rw [if_neg (by rw [hretx]; exact false_ne_true), ok_bind]
      dsimp only
      rw [hretx]
      have hempty : Function.update r.m_txedBuffer (slot n) none (slot n) = none :=
        update_self ..
      have hsize := hr.txed.clear htxed
      refine ⟨_, rfl, ?_⟩
      exact { hr with
        before := fun m hm => .inl (hr.before m hm)
        acked_lt := hacked_lt
        slots := hr.slots_of hn hn' (.settled (.inl (.inr rfl)) hempty hretx)
          (fun i hi => update_of_ne hi none r.m_txedBuffer) (fun _ _ => rfl)
          (fun _ _ => rfl) hacked
        txed := hsize }
    | retx count htxed hretx =>
      rw [htxed]
      dsimp only
      rw [ok_bind, hretx]
      have hempty : Function.update r.m_retxBuffer (slot n) none (slot n) = none :=
        update_self ..
      have hsize := hr.retx.clear hretx
      refine ⟨_, rfl, ?_⟩
      exact { hr with
        before := fun m hm => .inl (hr.before m hm)
        acked_lt := hacked_lt
        slots := hr.slots_of hn hn' (.settled (.inl (.inr rfl)) htxed hempty)
          (fun _ _ => rfl) (fun i hi => update_of_ne hi none r.m_retxBuffer)
          (fun _ _ => rfl) hacked
        retx := hsize }

end

/-- One more PDU leaves the others their numbers. -/
theorem getElem?_append_ne (pdus : List AmPdu) (pdu : AmPdu) {m : ℕ} (hne : m ≠ pdus.length) :
    (pdus ++ [pdu])[m]? = pdus[m]? := by
  obtain hlt | hgt := Nat.lt_or_gt_of_ne hne
  · exact List.getElem?_append_left hlt
  · rw [List.getElem?_eq_none_iff.mpr (Nat.le_of_lt hgt), List.getElem?_eq_none_iff,
      length_append]
    exact hgt

/-- A new PDU takes the next number, whose slots are empty as long as the window has room. -/
theorem Keeps.send (hr : Keeps r pdus acked first) (hroom : pdus.length < first + 512) (pdu : AmPdu)
    (hpdu : pdu.header.m_sequenceNumber = slot pdus.length)
    (hnumbers : (r'.m_vtA, r'.m_vtS, r'.m_vtMs) = (r.m_vtA, r.m_vtS.next, r.m_vtMs))
    (htxed : (r'.m_txedBuffer, r'.m_txedBufferSize) = (r.m_txedBuffer, r.m_txedBufferSize))
    (hretx : (r'.m_retxBuffer, r'.m_retxBufferSize) = (r.m_retxBuffer, r.m_retxBufferSize))
    (htxon : CountsMod r'.m_txonBufferSize (bytesOf r'.m_txonBuffer)) :
    Keeps (r'.storeTxed pdu) (pdus ++ [pdu]) acked first := by
  simp only [Prod.mk.injEq] at hnumbers htxed hretx
  obtain ⟨hvtA, hvtS, hvtMs⟩ := hnumbers
  obtain ⟨htxed, htxedSize⟩ := htxed
  obtain ⟨hretx, hretxSize⟩ := hretx
  have hlength : (pdus ++ [pdu]).length = pdus.length + 1 := length_append
  have hnot : ¬ acked pdus.length := fun h => Nat.lt_irrefl _ (hr.acked_lt _ h)
  have hn' : pdus.length < first + 1024 := by omega
  -- The slot of the new number is free: its last PDU is acknowledged.
  obtain ⟨htxedNone, hretxNone⟩ :
      r.m_txedBuffer (slot pdus.length) = none ∧ r.m_retxBuffer (slot pdus.length) = none := by
    cases hr.slots _ hr.first_le hn' with
    | settled _ h h' => exact ⟨h, h'⟩
    | kept _ _ h _ =>
      rw [List.getElem?_eq_none_iff.mpr (Nat.le_refl _)] at h
      cases h
  have hlast : (pdus ++ [pdu])[pdus.length]? = some pdu := by
    rw [List.getElem?_append_right (Nat.le_refl _), Nat.sub_self]
    rfl
  have hbuffer : (r'.storeTxed pdu).m_txedBuffer =
      Function.update r.m_txedBuffer (slot pdus.length) (some ⟨pdu, 0⟩) := by
    rw [← htxed, ← hpdu]
    rfl
  have hstored : (r'.storeTxed pdu).m_txedBuffer (slot pdus.length) = some ⟨pdu, 0⟩ := by
    rw [hbuffer]
    exact update_self ..
  have hsize : CountsMod (r.m_txedBufferSize + UInt32.ofNat pdu.size)
      (total RetxPdu.size (Function.update r.m_txedBuffer (slot pdus.length) (some ⟨pdu, 0⟩))) :=
    hr.txed.store htxedNone ⟨pdu, 0⟩
  exact {
    vtA := hvtA.trans hr.vtA
    vtS := by
      show r'.m_vtS = _
      rw [hvtS, hr.vtS, next_num, hlength]
    vtMs := hvtMs.trans hr.vtMs
    first_le := by
      have := hr.first_le
      omega
    length_le := by omega
    before := hr.before
    acked_lt := fun n hn => by
      have := hr.acked_lt n hn
      omega
    slots := hr.slots_of hr.first_le hn'
      (.kept pdu hnot hlast (.txed 0 hstored ((congrFun hretx _).trans hretxNone)))
      (fun i hi => by
        rw [hbuffer]
        exact update_of_ne hi ..)
      (fun i _ => congrFun hretx i) (fun m hne => getElem?_append_ne pdus pdu hne)
      (fun _ _ => Iff.rfl)
    txed := by
      rw [hbuffer]
      show CountsMod (r'.m_txedBufferSize + UInt32.ofNat pdu.size) _
      rw [htxedSize]
      exact hsize
    retx := by
      show CountsMod r'.m_retxBufferSize (total RetxPdu.size r'.m_retxBuffer)
      rw [hretxSize, hretx]
      exact hr.retx
    txon := htxon }

/-- The window moves on. Its new last number has the slots that were those of its first. -/
theorem Keeps.incrementVtA (hr : Keeps r pdus acked first) (hacked : acked first) :
    Keeps r.incrementVtA pdus acked (first + 1) := by
  have hlt := hr.acked_lt first hacked
  have hlength := hr.length_le
  exact { hr with
    vtA := by
      show r.m_vtA.next.SetModulusBase r.m_vtA.next = _
      rw [hr.vtA, next_num, setModulusBase_num]
    vtS := by
      show r.m_vtS.SetModulusBase r.m_vtA.next = _
      rw [hr.vtA, hr.vtS, next_num, setModulusBase_num]
    vtMs := by
      show (r.m_vtA.next.add windowSize).SetModulusBase r.m_vtA.next = _
      rw [hr.vtA, next_num, add_num, setModulusBase_num]
      rfl
    first_le := hlt
    length_le := by omega
    before := fun n hn => by
      obtain rfl | hne := eq_or_ne n first
      · exact hacked
      · exact hr.before n (by omega)
    slots := fun n hn hn' => by
      by_cases hlast : n < first + 1024
      · exact (hr.slots n (by omega) hlast).congr rfl rfl rfl Iff.rfl
      have hn : n = first + 1024 := by omega
      have hslot : slot n = slot first := by
        rw [hn]
        exact ofNat_eq_iff.mpr (by omega)
      have hnone : pdus[n]? = none := List.getElem?_eq_none_iff.mpr (by omega)
      cases hr.slots first (Nat.le_refl _) (by omega) with
      | settled _ htxed hretx =>
        rw [← hslot] at htxed hretx
        exact .settled (.inr hnone) htxed hretx
      | kept _ hnot _ _ => exact absurd hacked hnot }

/-! ### The loops -/

/-- The first PDU to retransmit is the one in its slot. -/
theorem firstRetx_spec (h : r.firstRetx rounds sn = .ok (some (i, pdu))) :
    r.m_retxBuffer i = some pdu := by
  induction rounds generalizing sn with
  | zero => cases h
  | succ rounds ih =>
    obtain ⟨more, -, h⟩ := bind_eq_ok_iff.mp h
    split at h
    · split at h
      · cases h
        assumption
      · exact ih h
    · cases h

/-- The timer may expire at any time. -/
theorem Keeps.moveAllToRetx (hr : Keeps r pdus acked first) (hn : first ≤ n) (hn' : n ≤ pdus.length)
    (hsn : sn = num n first) (h : moveAllToRetx rounds r sn = .ok r') :
    Keeps r' pdus acked first := by
  have hlength := hr.length_le
  induction rounds generalizing r n sn with
  | zero => cases h
  | succ rounds ih =>
    rw [LteRlcAm.moveAllToRetx, hsn, hr.vtS,
      lt_num hn (by omega) hr.first_le (by omega), ok_bind] at h
    split at h
    case isFalse =>
      cases h
      exact hr
    case isTrue hlt =>
      rw [next_num] at h
      have hlt := of_decide_eq_true hlt
      exact ih (hr.moveToRetx hn (by omega)) (by omega) hlt rfl h

end Operations

/-! ### STATUS PDUs -/

section Status

variable {pdus : List AmPdu} {acked : ℕ → Prop} {n ackSn : ℕ} {nacks : List ℕ}

/-- What is acknowledged when the loop has come to the number `n`. -/
def Settled (acked : ℕ → Prop) (nacks : List ℕ) (n m : ℕ) : Prop := acked m ∨ m < n ∧ m ∉ nacks

/-- In a window of fewer than 1024 numbers, these are told apart when they are cut to 10 bits. -/
theorem contains_map_mod (first : ℕ) (hn : first ≤ n) (hn' : n < first + 1024)
    (hnacks : ∀ k ∈ nacks, first ≤ k ∧ k < first + 1024) :
    (nacks.map (· % 1024)).contains (slot n).val = true ↔ n ∈ nacks := by
  rw [contains_iff_mem, mem_map]
  constructor
  · rintro ⟨k, hk, hmod⟩
    obtain ⟨hlow, hhigh⟩ := hnacks k hk
    have heq : k = n := (ofNat_inj hlow hhigh hn hn').mp (Fin.ext hmod)
    rwa [heq] at hk
  · exact fun h => ⟨n, h, rfl⟩

/-- Cancelling a timer changes no PDU. -/
theorem Keeps.cancelTimer (hr : Keeps r pdus acked first) (i : Fin 1024) :
    Keeps (r.cancelTimer i) pdus acked first := by
  unfold LteRlcAm.cancelTimer
  split
  · exact hr.frame rfl rfl rfl rfl
  · exact hr

/-- One round: the number is put down for retransmission or settled. -/
theorem Keeps.report (hr : Keeps r pdus (Settled acked nacks n) first) (hn : first ≤ n)
    (hlt : n < pdus.length) (hnacks : ∀ k ∈ nacks, ¬ acked k) :
    ∃ r', r.report (decide (n ∈ nacks)) (slot n) = .ok r' ∧
      Keeps r' pdus (Settled acked nacks (n + 1)) first := by
  unfold LteRlcAm.report
  by_cases hnacked : n ∈ nacks
  · have hnot : ¬ Settled acked nacks n n := by
      rintro (h | ⟨h, -⟩)
      · exact hnacks n hnacked h
      · exact Nat.lt_irrefl n h
    obtain ⟨r', hok, hr'⟩ := hr.negative hn hlt hnot
    rw [if_pos (decide_eq_true hnacked)]
    refine ⟨r', hok, hr'.congr fun m => ?_⟩
    refine or_congr_right (and_congr_left fun hm => ?_)
    have hne : m ≠ n := fun h => hm (h ▸ hnacked)
    omega
  · obtain ⟨r', hok, hr'⟩ := hr.positive hn hlt
    rw [if_neg (by rw [decide_eq_true_eq]; exact hnacked)]
    refine ⟨r', hok, hr'.congr fun m => ?_⟩
    constructor
    · rintro (h | ⟨hlt, hm⟩)
      · exact .inl (.inl h)
      · obtain rfl | hne := eq_or_ne m n
        · exact .inr rfl
        · exact .inl (.inr ⟨by omega, hm⟩)
    · rintro ((h | ⟨hlt, hm⟩) | rfl)
      · exact .inl h
      · exact .inr ⟨by omega, hm⟩
      · exact .inr ⟨by omega, hnacked⟩

/-- The loop has come to the number `n`. As long as nothing was reported missing, VT(A) and the
base of all numbers go with it. -/
theorem statusLoop_keeps {low : ℕ} (rounds : ℕ) (increment : Bool)
    (hr : Keeps r pdus (Settled acked nacks n) first) (hfirst : low ≤ first) (hn : first ≤ n)
    (hack : n ≤ ackSn) (hackSn : ackSn ≤ pdus.length) (hwindow : pdus.length ≤ low + 512)
    (hnacks : ∀ k ∈ nacks, low ≤ k ∧ k < ackSn ∧ ¬ acked k)
    (hincrement : increment = true → first = n) (hrounds : ackSn < n + rounds) :
    ∃ r' first', statusLoop (nacks.map (· % 1024)) rounds r (num n first) (num ackSn first)
        increment = .ok r' ∧ Keeps r' pdus (Settled acked nacks ackSn) first' := by
  induction rounds generalizing r n first increment with
  | zero => omega
  | succ rounds ih =>
    rw [statusLoop, lt_num hn (by omega) (by omega) (by omega), ok_bind]
    by_cases hlt : n < ackSn
    case neg =>
      have heq : n = ackSn := by omega
      rw [decide_eq_false hlt, ← heq]
      exact ⟨r, first, rfl, hr⟩
    have hbelow : (num n first).lt r.m_vtS = .ok true := by
      rw [hr.vtS, lt_num hn (by omega) hr.first_le (by omega)]
      exact congrArg Except.ok (decide_eq_true (by omega))
    have hnacked : (nacks.map (· % 1024)).contains (num n first).m_value.val =
        decide (n ∈ nacks) := by
      rw [Bool.eq_iff_iff, decide_eq_true_eq]
      refine contains_map_mod low (by omega) (by omega) fun k hk => ?_
      have := hnacks k hk
      omega
    obtain ⟨r₁, hok, hr₁⟩ := (hr.cancelTimer (slot n)).report hn (by omega)
      fun k hk => (hnacks k hk).2.2
    rw [if_pos (decide_eq_true hlt), hbelow]
    dsimp only
    rw [ok_bind, if_pos rfl, hnacked]
    change ∃ r' first', ((r.cancelTimer (slot n)).report (decide (n ∈ nacks)) (slot n) >>= _) =
      _ ∧ _
    rw [hok, ok_bind]
    by_cases hgo : (increment && !decide (n ∈ nacks)) = true
    · -- VT(A) goes on
      obtain ⟨hinc, hnot⟩ := and_eq_true_iff.mp hgo
      rw [not_eq_true', decide_eq_false_iff_not] at hnot
      have hfirst_eq := hincrement hinc
      subst hfirst_eq
      have hnext := hr₁.incrementVtA (.inr ⟨Nat.lt_succ_self _, hnot⟩)
      rw [if_pos hgo, hnext.vtA, setModulusBase_num, setModulusBase_num, next_num]
      exact ih _ hnext (by omega) (Nat.le_refl _) hlt (fun _ => rfl) (by omega)
    · rw [if_neg hgo, next_num]
      exact ih _ hr₁ hfirst (by omega) hlt (fun h => absurd h hgo) (by omega)

/-- A STATUS PDU of a peer that conforms is taken in. -/
theorem Keeps.receiveStatus (hr : Keeps r pdus acked first) (hackSn : ackSn ≤ pdus.length)
    (hnot : ¬ acked ackSn) (hnacks : ∀ k ∈ nacks, k < ackSn ∧ ¬ acked k) :
    ∃ r' first', r.receiveStatus (.new ackSn) (nacks.map (· % 1024)) = .ok r' ∧
      Keeps r' pdus (Settled acked nacks ackSn) first' := by
  have hle : ∀ k, ¬ acked k → first ≤ k := fun k hk => by
    by_contra hlt
    exact hk (hr.before k (Nat.not_le.mp hlt))
  have hlength := hr.length_le
  have hframe : Keeps { r with
      m_vtA := r.m_vtA.SetModulusBase r.m_vtA
      m_vtS := r.m_vtS.SetModulusBase r.m_vtA
      m_vtMs := r.m_vtMs.SetModulusBase r.m_vtA } pdus acked first := by
    refine hr.frame ?_ rfl rfl rfl
    rw [hr.vtA, hr.vtS, hr.vtMs]
    rfl
  have hbase : Keeps _ pdus (Settled acked nacks first) first :=
    hframe.congr fun m => or_iff_left_of_imp fun hm => hr.before m hm.1
  have hloop := statusLoop_keeps 1024 true hbase (Nat.le_refl _)
    (Nat.le_refl _) (hle ackSn hnot) hackSn hlength
    (fun k hk => ⟨hle k (hnacks k hk).2, hnacks k hk⟩) (fun _ => rfl) (by omega)
  rw [hr.vtA] at hloop
  unfold LteRlcAm.receiveStatus
  rw [hr.vtA]
  exact hloop

end Status

/-! ### The calls -/

section Calls

variable {pdus : List AmPdu} {acked : ℕ → Prop} {bytes : ℕ} {actions : List Action}

/-- The bytes that wait, with one more SDU. -/
theorem bytesOf_append (txonBuffer : List TxPdu) (sdu : TxPdu) :
    bytesOf (txonBuffer ++ [sdu]) = bytesOf txonBuffer + sdu.m_pdu.length := by
  induction txonBuffer with
  | nil => exact Nat.add_comm ..
  | cons first rest ih =>
    show first.m_pdu.length + bytesOf (rest ++ [sdu]) = _
    rw [ih, ← Nat.add_assoc]
    rfl

/-- Appending an SDU counts its bytes. -/
theorem CountsMod.append {txonBuffer : List TxPdu} (hsize : CountsMod size (bytesOf txonBuffer))
    (sdu : TxPdu) :
    CountsMod (size + UInt32.ofNat sdu.m_pdu.length) (bytesOf (txonBuffer ++ [sdu])) := by
  rw [CountsMod, bytesOf_append, UInt32.ofNat_add, hsize]

/-- Taking the first SDU takes its bytes away. -/
theorem CountsMod.tail {sdu : TxPdu} (hsize : CountsMod size (bytesOf (sdu :: rest))) :
    CountsMod (size - UInt32.ofNat sdu.m_pdu.length) (bytesOf rest) := by
  rw [CountsMod, hsize, bytesOf, Nat.add_comm, UInt32.ofNat_add, UInt32.add_sub_cancel]

/-- What is taken out of the transmission buffer and put back is counted. -/
theorem CountsMod.fill {nextSegmentSize nextSegmentId : ℕ} {header : LteRlcAmHeader}
    {dataField : List TxPdu} {segment : TxPdu} (hsize : CountsMod size (bytesOf rest)) :
    CountsMod
      (fill nextSegmentSize nextSegmentId header dataField size segment rest).txonBufferSize
    (bytesOf (fill nextSegmentSize nextSegmentId header dataField size segment rest).txonBuffer)
    := by
  induction rest generalizing nextSegmentSize nextSegmentId header dataField size segment with
  | nil =>
    unfold LteRlcAm.fill
    dsimp only
    split_ifs with hdone hsegment hleft
    · exact hsize
    · show CountsMod (size + UInt32.ofNat _) (_ + bytesOf [])
      rw [Nat.add_comm, CountsMod, UInt32.ofNat_add, hsize]
    · exact hsize
    · exact hsize
  | cons next rest ih =>
    unfold LteRlcAm.fill
    dsimp only
    split_ifs with hdone hsegment hleft hlast
    · exact hsize
    · show CountsMod (size + UInt32.ofNat _) (_ + bytesOf (next :: rest))
      rw [Nat.add_comm, CountsMod, UInt32.ofNat_add, hsize]
    · exact hsize
    · exact hsize
    · exact ih hsize.tail
    · exact ih hsize.tail

/-- Requesting a status changes no PDU. -/
theorem Keeps.requestStatus (hr : Keeps r pdus acked first) (poll : Bool) :
    Keeps (if poll then r.requestStatus else r) pdus acked first := by
  split
  · exact hr.frame rfl rfl rfl rfl
  · exact hr

/-- A retransmission sends at most one PDU and keeps the invariant. -/
theorem Keeps.retransmit (hr : Keeps r pdus acked first)
    (h : r.retransmit bytes = .ok (r', actions)) :
    (actions = [] ∨ ∃ pdu, actions = [.retransmitted pdu]) ∧ Keeps r' pdus acked first := by
  obtain ⟨below, -, h⟩ := bind_eq_ok_iff.mp h
  split at h
  · cases h
  obtain ⟨found, hfound, h⟩ := bind_eq_ok_iff.mp h
  split at h
  · cases h
  rename_i i pdu
  have hretx := firstRetx_spec hfound
  obtain ⟨n, hn, hlt, rfl⟩ := hr.slot_eq hretx
  have hlength := hr.length_le
  split at h
  case isFalse =>
    cases h
    exact ⟨.inl rfl, hr⟩
  case isTrue =>
    obtain ⟨stalled, -, h⟩ := bind_eq_ok_iff.mp h
    cases h
    refine ⟨.inr ⟨_, rfl⟩, (hr.requestStatus _).moveToTxed hn (by omega) ?_⟩
    split
    · exact hretx
    · exact hretx

/-- A new PDU takes the next number and keeps the invariant. -/
theorem Keeps.newPdu (hr : Keeps r pdus acked first) (h : r.newPdu bytes = .ok (r', actions)) :
    (actions = [] ∧ Keeps r' pdus acked first) ∨
      ∃ pdu, actions = [.transmitted pdu] ∧ Keeps r' (pdus ++ [pdu]) acked first := by
  unfold LteRlcAm.newPdu at h
  split at h
  case h_1 =>
    cases h
    exact .inl ⟨rfl, hr⟩
  case h_2 segment txonBuffer hbuffer =>
    have htail : CountsMod _ (bytesOf txonBuffer) := (hbuffer ▸ hr.txon).tail
    dsimp only at h
    generalize hfilled : fill (bytes - 4) 1 .dataPdu []
      (r.m_txonBufferSize - UInt32.ofNat segment.m_pdu.length) segment txonBuffer = filled at h
    have hfill : CountsMod filled.txonBufferSize (bytesOf filled.txonBuffer) := by
      rw [← hfilled]
      exact htail.fill
    have hlength := hr.length_le
    have hle := hr.first_le
    obtain ⟨below, hbelow, h⟩ := bind_eq_ok_iff.mp h
    obtain ⟨above, -, h⟩ := bind_eq_ok_iff.mp h
    rw [hr.vtS, hr.vtMs, lt_num hle (by omega) (by omega) (by omega)] at hbelow
    split at h
    case isTrue => cases h
    case isFalse hroom =>
      rw [not_eq_true, not_eq_false', and_eq_true_iff] at hroom
      have hroom : pdus.length < first + 512 := by
        have hbelow := Except.ok.inj hbelow
        exact of_decide_eq_true (hbelow.trans hroom.1)
      split at h
      case h_2 => cases h
      case h_1 =>
        obtain ⟨stalled, -, h⟩ := bind_eq_ok_iff.mp h
        cases h
        refine .inr ⟨_, rfl, ?_⟩
        refine hr.send hroom _ ?_ ?_ ?_ ?_ ?_
        · show r.m_vtS.m_value = _
          rw [hr.vtS]
          rfl
        · split <;> rfl
        · split <;> rfl
        · split <;> rfl
        · split <;> exact hfill

/-- A transmission opportunity retransmits, transmits or does neither, and keeps the invariant. -/
theorem Keeps.DoNotifyTxOpportunity {statusPending : Bool} (hr : Keeps r pdus acked first)
    (h : r.DoNotifyTxOpportunity bytes statusPending = .ok (r', actions)) :
    ((actions = [] ∨ ∃ pdu, actions = [.retransmitted pdu]) ∧ Keeps r' pdus acked first) ∨
      ∃ pdu, actions = [.transmitted pdu] ∧ Keeps r' (pdus ++ [pdu]) acked first := by
  have hnothing : (r, []) = (r', actions) →
      (actions = [] ∨ ∃ pdu, actions = [.retransmitted pdu]) ∧ Keeps r' pdus acked first := by
    intro heq
    cases heq
    exact ⟨.inl rfl, hr⟩
  unfold LteRlcAm.DoNotifyTxOpportunity at h
  split at h
  · cases h
  split at h
  · exact .inl (hnothing (Except.ok.inj h))
  split at h
  · exact .inl (hr.retransmit h)
  split at h
  case isFalse => exact .inl (hnothing (Except.ok.inj h))
  split at h
  · cases h
  obtain ⟨within, -, h⟩ := bind_eq_ok_iff.mp h
  split at h
  · cases h
  split at h
  · exact .inl (hnothing (Except.ok.inj h))
  · exact (hr.newPdu h).imp_left fun ⟨hactions, hr'⟩ => ⟨.inl hactions, hr'⟩

/-- An SDU from above only waits. -/
theorem Keeps.DoTransmitPdcpPdu (hr : Keeps r pdus acked first) (p : Packet) :
    Keeps (r.DoTransmitPdcpPdu p) pdus acked first :=
  { hr with
    slots := fun n hn hn' => (hr.slots n hn hn').congr rfl rfl rfl Iff.rfl
    txon := hr.txon.append ⟨p, .FULL_SDU⟩ }

/-- The poll timer keeps the invariant. -/
theorem Keeps.ExpirePollRetransmitTimer (hr : Keeps r pdus acked first)
    (h : r.ExpirePollRetransmitTimer = .ok r') : Keeps r' pdus acked first := by
  obtain ⟨within, -, h⟩ := bind_eq_ok_iff.mp h
  have hframe : Keeps { r with
      m_pollRetransmitTimerJustExpired := true
      pollRetransmitTimerIsRunning := false } pdus acked first := hr.frame rfl rfl rfl rfl
  split at h
  · cases h
  split at h
  · exact hframe.moveAllToRetx (Nat.le_refl _) hr.first_le hr.vtA h
  · cases h
    exact hframe

end Calls

/-! ### Runs -/

/-- The invariant of a new entity. -/
theorem keeps_new (alwaysBigEnough : Bool) :
    Keeps (new alwaysBigEnough) (sent []) (Acked []) 0 where
  vtA := rfl
  vtS := rfl
  vtMs := rfl
  first_le := Nat.le_refl _
  length_le := Nat.zero_le _
  before := fun _ hn => absurd hn (Nat.not_lt_zero _)
  acked_lt := fun _ ⟨_, ha, _⟩ => absurd ha not_mem_nil
  slots := fun _ _ _ => .settled (.inr rfl) rfl rfl
  txed := congrArg UInt32.ofNat total_empty.symm
  retx := congrArg UInt32.ofNat total_empty.symm
  txon := rfl

/-- What one call keeps. -/
theorem step_keeps {actions : List Action} {call : Call} (hr : Keeps r (sent h) (Acked h) first)
    (hconforming : Conforming r h call) (hok : step r call = .ok (r', actions)) :
    ∃ first', Keeps r' (sent (h ++ actions)) (Acked (h ++ actions)) first' := by
  -- what was sent and acknowledged is the same after any other action
  have hsame : ∀ {actions r'}, sent actions = [] → (∀ n, ¬ Acked actions n) →
      Keeps r' (sent h) (Acked h) first →
      ∃ first', Keeps r' (sent (h ++ actions)) (Acked (h ++ actions)) first' := by
    intro actions r' hsent hacked hr'
    rw [sent_append, hsent, append_nil]
    exact ⟨first, hr'.congr fun n => by rw [acked_append, or_iff_left (hacked n)]⟩
  have hnil : ∀ n, ¬ Acked [] n := fun n ⟨_, ha, _⟩ => not_mem_nil ha
  cases call with
  | transmitPdcpPdu p =>
    cases hok
    exact hsame rfl hnil (hr.DoTransmitPdcpPdu p)
  | notifyTxOpportunity bytes statusPending =>
    obtain ⟨rfl | ⟨pdu, rfl⟩, hr'⟩ | ⟨pdu, rfl, hr'⟩ := hr.DoNotifyTxOpportunity hok
    · exact hsame rfl hnil hr'
    · exact hsame rfl (fun n => by simp [Acked, acks]) hr'
    · rw [sent_append]
      refine ⟨first, hr'.congr fun n => ?_⟩
      rw [acked_append]
      exact or_iff_left (by simp [Acked, acks])
  | statusPdu ackSn nacks =>
    obtain ⟨hackSn, hnot, hnacks⟩ := hconforming
    obtain ⟨r₁, first', hok₁, hr₁⟩ := hr.receiveStatus hackSn hnot hnacks
    obtain ⟨r₂, hok₂, h⟩ := bind_eq_ok_iff.mp hok
    rw [hok₁] at hok₂
    cases hok₂
    cases h
    rw [sent_append]
    refine ⟨first', ?_⟩
    have hnone : sent h ++ sent [.status ackSn nacks] = sent h := append_nil _
    rw [hnone]
    exact hr₁.congr fun n => by rw [acked_append, acked_status]; rfl
  | pollRetransmitTimerExpires =>
    obtain ⟨r₁, hok₁, h⟩ := bind_eq_ok_iff.mp hok
    cases h
    exact hsame rfl hnil (hr.ExpirePollRetransmitTimer hok₁)

/-- What a kept entity promises. -/
theorem Keeps.right (hr : Keeps r (sent h) (Acked h) first) : Right CountsMod r h where
  window := ⟨first, {
    vtA := by rw [hr.vtA]; rfl
    vtS := by rw [hr.vtS]; rfl
    __ := hr
    kept := fun n pdu hn hpdu hnot => by
      have hlength := hr.length_le
      obtain ⟨hlt, -⟩ := List.getElem?_eq_some_iff.mp hpdu
      cases hr.slots n hn (by omega) with
      | settled hsettled _ _ =>
        rw [hpdu] at hsettled
        exact absurd hsettled (not_or.mpr ⟨hnot, Option.some_ne_none _⟩)
      | kept pdu' _ hpdu' hkept =>
        cases hpdu.symm.trans hpdu'
        exact hkept
    empty := fun i hi => by
      obtain ⟨n, hn, hn', rfl⟩ := exists_slot first i
      cases hr.slots n hn hn' with
      | settled _ htxed hretx => exact ⟨htxed, hretx⟩
      | kept pdu hnot hpdu _ =>
        obtain ⟨hlt, -⟩ := List.getElem?_eq_some_iff.mp hpdu
        exact absurd rfl (hi n hn hlt hnot) }⟩
  width := by
    have hfirst := hr.first_le
    have hlength := hr.length_le
    have hdiff : (slot (sent h).length - slot first).val = (sent h).length - first := by
      show (1024 - first % 1024 + (sent h).length % 1024) % 1024 = _
      omega
    have hvalue : (r.m_vtS.m_value - r.m_vtA.m_value).val = (sent h).length - first := by
      rw [hr.vtA, hr.vtS]
      exact hdiff
    rw [hvalue]
    exact Nat.sub_le_of_le_add (Nat.add_comm .. ▸ hlength)
  __ := hr

/-- Every reachable state: all that was sent and is not acknowledged is kept once, nothing else is
kept, and the sizes are right modulo `2^32`. -/
theorem transmittingSide_correct (alwaysBigEnough : Bool) (calls : List Call)
    (hconforming : TracedRun.Meets step Conforming (new alwaysBigEnough) [] calls) :
    Right CountsMod (new alwaysBigEnough) [] ∧
      TracedRun.Always step (Right CountsMod) (new alwaysBigEnough) [] calls := by
  refine ⟨(keeps_new alwaysBigEnough).right, ?_⟩
  refine TracedRun.always_of_meets
    (J := fun r h => ∃ first, Keeps r (sent h) (Acked h) first) ?_ ?_ ⟨0, keeps_new _⟩ hconforming
  · intro r h call r' actions hr hcall hok
    obtain ⟨first, hr⟩ := hr
    exact step_keeps hr hcall hok
  · intro r h hr
    obtain ⟨first, hr⟩ := hr
    exact hr.right


/-- Two SDUs are sent, the first is reported missing and sent again. -/
theorem transmittingSide_correct_retransmission :
    Right CountsMod (new false) [] ∧ TracedRun.Always step (Right CountsMod) (new false) []
      [.transmitPdcpPdu [1, 2, 3], .notifyTxOpportunity 7 false, .transmitPdcpPdu [4],
        .notifyTxOpportunity 100 false, .statusPdu 2 [0], .notifyTxOpportunity 100 false,
        .pollRetransmitTimerExpires, .statusPdu 2 []] :=
  transmittingSide_correct false _ (by decide +kernel)

/-- Two SDUs are counted exactly only while their sum fits the machine word. -/
theorem lt_of_right_twoSdus {p : Packet}
    (hright : Right CountsExactly (((new false).DoTransmitPdcpPdu p).DoTransmitPdcpPdu p) h) :
    p.length + p.length < 4294967296 := by
  have hexact : (0 + UInt32.ofNat p.length + UInt32.ofNat p.length).toNat =
      p.length + (p.length + 0) := hright.txon
  have hlt := UInt32.toNat_lt (0 + UInt32.ofNat p.length + UInt32.ofNat p.length)
  omega

/-- After two SDUs of `2^31` bytes the size of the transmission buffer is 0. -/
theorem not_exact_twoLargeSdus :
    ¬ ∀ (alwaysBigEnough : Bool) (calls : List Call),
      TracedRun.Meets step Conforming (new alwaysBigEnough) [] calls →
        Right CountsExactly (new alwaysBigEnough) [] ∧
          TracedRun.Always step (Right CountsExactly) (new alwaysBigEnough) [] calls := by
  intro hall
  have hlength (n : ℕ) : (List.replicate n (0 : UInt8)).length = n := length_replicate
  obtain ⟨p, hp⟩ : ∃ p : Packet, p.length = 2147483648 := ⟨_, hlength _⟩
  have hmeets : TracedRun.Meets step Conforming (new false) []
      [.transmitPdcpPdu p, .transmitPdcpPdu p] :=
    ⟨trivial, fun _ _ _ => ⟨trivial, fun _ _ _ => trivial⟩⟩
  obtain ⟨-, halways⟩ := hall false _ hmeets
  obtain ⟨-, hrest⟩ := halways _ _ rfl
  obtain ⟨hright, -⟩ := hrest _ _ rfl
  have hlt := lt_of_right_twoSdus hright
  omega

end Ns3Joined.Lte.LteRlcAm
