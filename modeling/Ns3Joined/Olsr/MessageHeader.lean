import Mathlib
import Ns3Joined.Network.BufferIterator

/-!
# OLSR messages

`MessageHeader::Deserialize` (`olsr-header.cc`) and the parsers of the four bodies.

The size that a message declares is that of its header and its body. The body of a HELLO is a
sequence of link messages, each with a size of its own: `helloSizeLeft` is what is left of the
body, and the addresses of a link message are counted by an `int` that runs down to zero.
-/

namespace Ns3Joined.Olsr.MessageHeader

open TrackedRead Tracked Network.BufferIterator

inductive MessageType
  | HELLO_MESSAGE
  | TC_MESSAGE
  | MID_MESSAGE
  | HNA_MESSAGE
deriving DecidableEq, Repr

/-- The types between `HELLO_MESSAGE` and `HNA_MESSAGE`. -/
def MessageType.ofOctet : UInt8 → Option MessageType
  | 1 => some HELLO_MESSAGE
  | 2 => some TC_MESSAGE
  | 3 => some MID_MESSAGE
  | 4 => some HNA_MESSAGE
  | _ => none

def OLSR_MSG_HEADER_SIZE : UInt32 := 12
def IPV4_ADDRESS_SIZE : UInt32 := 4

/-! ### MID, TC and HNA -/

structure Mid where
  interfaceAddresses : List UInt32
deriving DecidableEq, Repr

def Mid.GetSerializedSize (m : Mid) : UInt32 :=
  UInt32.ofNat m.interfaceAddresses.length * IPV4_ADDRESS_SIZE

def Mid.Deserialize (b : Buffer) (start : ℕ) (messageSize : UInt32) : Reading (Mid × UInt32) := do
  guard (messageSize % IPV4_ADDRESS_SIZE = 0) .abort
  let addresses ← readWords b (messageSize / IPV4_ADDRESS_SIZE).toNat start
  let mid : Mid := ⟨addresses.1⟩
  return (mid, mid.GetSerializedSize)

structure Tc where
  neighborAddresses : List UInt32
  ansn : UInt16
deriving DecidableEq, Repr

def Tc.Deserialize (b : Buffer) (start : ℕ) (messageSize : UInt32) : Reading (Tc × UInt32) := do
  guard (4 ≤ messageSize.toNat) .abort
  let ansn ← ReadNtohU16 b start
  let reserved ← ReadNtohU16 b ansn.2
  guard ((messageSize - 4) % IPV4_ADDRESS_SIZE = 0) .abort
  let addresses ← readWords b ((messageSize - 4) / IPV4_ADDRESS_SIZE).toNat reserved.2
  return (⟨addresses.1, ansn.1⟩, messageSize)

structure Association where
  address : UInt32
  mask : UInt32
deriving DecidableEq, Repr

structure Hna where
  associations : List Association
deriving DecidableEq, Repr

def Hna.Deserialize (b : Buffer) (start : ℕ) (messageSize : UInt32) : Reading (Hna × UInt32) := do
  guard (messageSize % (IPV4_ADDRESS_SIZE * 2) = 0) .abort
  let associations ← readPairs b (messageSize / IPV4_ADDRESS_SIZE / 2).toNat start
  return (⟨associations.1.map fun (address, mask) => ⟨address, mask⟩⟩, messageSize)

/-! ### HELLO -/

structure LinkMessage where
  linkCode : UInt8
  neighborInterfaceAddresses : List UInt32
deriving DecidableEq, Repr

structure Hello where
  hTime : UInt8
  willingness : UInt8
  linkMessages : List LinkMessage
deriving DecidableEq, Repr

/-- The loop over the addresses of a link message, which ends where `n` is zero. If it starts
below zero, it runs on to the least `int`, which has none before it. -/
def readNeighbors (b : Buffer) : ℤ → ℕ → Reading (List UInt32 × ℕ)
  | .ofNat n, i => readWords b n i
  | .negSucc n, i => do
    let _ ← readWords b (2 ^ 31 - n) i
    throw .undefined

/-- The loop over the link messages. -/
def readLinkMessages (b : Buffer) : ℕ → ℕ → UInt16 → Reading (List LinkMessage)
  | 0, _, _ => throw .diverges
  | fuel + 1, i, helloSizeLeft =>
    if helloSizeLeft = 0 then pure []
    else do
      guard (4 ≤ helloSizeLeft.toNat) .abort
      let linkCode ← ReadU8 b i
      let reserved ← ReadU8 b linkCode.2
      let lmSize ← ReadNtohU16 b reserved.2
      let addressesSize : ℤ := lmSize.1.toNat - 4
      guard (addressesSize.tmod 4 = 0) .abort
      let addresses ← readNeighbors b (addressesSize.tdiv 4) lmSize.2
      let linkMessages ← readLinkMessages b fuel addresses.2 (helloSizeLeft - lmSize.1)
      return ⟨linkCode.1, addresses.1⟩ :: linkMessages

/-- There are no more link messages than octets. -/
def Hello.Deserialize (b : Buffer) (start : ℕ) (messageSize : UInt32) :
    Reading (Hello × UInt32) := do
  guard (4 ≤ messageSize.toNat) .abort
  let reserved ← ReadNtohU16 b start
  let hTime ← ReadU8 b reserved.2
  let willingness ← ReadU8 b hTime.2
  let linkMessages ← readLinkMessages b (b.size + 1) willingness.2 (messageSize.toUInt16 - 4)
  return (⟨hTime.1, willingness.1, linkMessages⟩, messageSize)

/-! ### Messages -/

inductive Message
  | mid (mid : Mid)
  | hello (hello : Hello)
  | tc (tc : Tc)
  | hna (hna : Hna)
deriving Repr

structure Header where
  m_messageType : MessageType
  m_vTime : UInt8
  m_messageSize : UInt16
  m_originatorAddress : UInt32
  m_timeToLive : UInt8
  m_hopCount : UInt8
  m_messageSequenceNumber : UInt16
  m_message : Message
deriving Repr

/-- The `switch` of `Deserialize`. -/
def readMessage (b : Buffer) (i : ℕ) (size : UInt32) : MessageType → Reading (Message × UInt32)
  | .MID_MESSAGE => do
    let mid ← Mid.Deserialize b i size
    return (.mid mid.1, mid.2)
  | .HELLO_MESSAGE => do
    let hello ← Hello.Deserialize b i size
    return (.hello hello.1, hello.2)
  | .TC_MESSAGE => do
    let tc ← Tc.Deserialize b i size
    return (.tc tc.1, tc.2)
  | .HNA_MESSAGE => do
    let hna ← Hna.Deserialize b i size
    return (.hna hna.1, hna.2)

/-- `Deserialize`: the message and its size. -/
def Deserialize (b : Buffer) (start : ℕ) : Reading (Header × UInt32) := do
  let octet ← ReadU8 b start
  match MessageType.ofOctet octet.1 with
  | none => throw .abort
  | some m_messageType => do
    let vTime ← ReadU8 b octet.2
    let messageSize ← ReadNtohU16 b vTime.2
    let originatorAddress ← ReadNtohU32 b messageSize.2
    let timeToLive ← ReadU8 b originatorAddress.2
    let hopCount ← ReadU8 b timeToLive.2
    let messageSequenceNumber ← ReadNtohU16 b hopCount.2
    let message ← readMessage b messageSequenceNumber.2
      (messageSize.1.toUInt32 - OLSR_MSG_HEADER_SIZE) m_messageType
    return (⟨m_messageType, vTime.1, messageSize.1, originatorAddress.1, timeToLive.1, hopCount.1,
      messageSequenceNumber.1, message.1⟩, OLSR_MSG_HEADER_SIZE + message.2)

end Ns3Joined.Olsr.MessageHeader

/-!
## Which octets of an OLSR message are read

* `ReadsInside`: a message is rejected by an assertion, or it was read within the size that it
  declares; the link messages of a HELLO are read within that size in both cases.
* `LinkMessagesFit`, `BodyFits`, `Fits`: the sizes in the message for which that is so.
* `wp_readLinkMessages`: the loop over the link messages; a round takes one link message.
* `readsInside_iff`.
-/

namespace Ns3Joined.Olsr.MessageHeader

open TrackedRead Tracked Network.BufferIterator

variable {b : Buffer}

/-- The size that the message declares. -/
def declaredSize (b : Buffer) : ℕ := b.word 2 2

/-- Where the link messages of a HELLO start. -/
def helloStart : ℕ := 16

/-- The message is rejected by an assertion, or only octets inside of the declared size were read.
In a HELLO, no octet behind the declared size is read for a link message. -/
def ReadsInside (b : Buffer) : Prop :=
  (Deserialize b 0).wp (fun _ reach => reach ≤ declaredSize b)
    (fun fault reach => fault = .abort ∧
      (MessageType.ofOctet (b.octet 0) = some .HELLO_MESSAGE →
        reach ≤ max helloStart (declaredSize b))) 0

instance : Decidable (ReadsInside b) := inferInstanceAs (Decidable (Tracked.wp _ _ _ _))

/-! ### The sizes -/

/-- The number of addresses that are read for a link message. -/
def addressCount (lmSize : ℕ) : ℕ := if lmSize = 0 then 2 ^ 31 else (lmSize - 4) / 4

/-- The link messages in the `left` octets from `i`. Where the parser comes to a size that it does
not reject, the size is that of the four octets in front of the addresses at least, and what is
left at most; or the buffer ends inside of what is left, and the parser asserts that it does not. -/
def LinkMessagesFit (b : Buffer) (i left : ℕ) : Prop :=
  4 ≤ left → b.Holds i 2 → b.Checked (i + 2) 2 ∧ (b.Holds (i + 2) 2 → 4 ∣ b.word 2 (i + 2) →
    b.WordsChecked (i + 4) (addressCount (b.word 2 (i + 2))) ∧
    (¬ b.Holds (i + 4) (4 * addressCount (b.word 2 (i + 2))) → b.size ≤ i + left) ∧
    (b.Holds (i + 4) (4 * addressCount (b.word 2 (i + 2))) →
      if _h : 4 ≤ b.word 2 (i + 2) ∧ b.word 2 (i + 2) ≤ left then
        LinkMessagesFit b (i + b.word 2 (i + 2)) (left - b.word 2 (i + 2))
      else False))
termination_by left

/-- The size that is passed to the parsers of the bodies. -/
def bodySize (b : Buffer) : UInt32 := (UInt16.ofNat (b.word 2 2)).toUInt32 - OLSR_MSG_HEADER_SIZE

/-- The addresses are there, or it is asserted that they are; if the message declares less than
its header, they are not. -/
def AddressesFit (b : Buffer) (i n : ℕ) : Prop :=
  b.WordsChecked i n ∧ (b.Holds i (4 * n) → 12 ≤ declaredSize b)

def BodyFits (b : Buffer) : MessageType → Prop
  | .MID_MESSAGE => 4 ∣ (bodySize b).toNat → AddressesFit b 12 ((bodySize b).toNat / 4)
  | .HNA_MESSAGE => 8 ∣ (bodySize b).toNat → AddressesFit b 12 ((bodySize b).toNat / 4)
  | .TC_MESSAGE => 4 ≤ (bodySize b).toNat → b.Checked 12 2 ∧ (b.Holds 12 2 → b.Checked 14 2 ∧
      (b.Holds 12 4 → 4 ∣ (bodySize b).toNat → AddressesFit b 16 (((bodySize b).toNat - 4) / 4)))
  | .HELLO_MESSAGE => 4 ≤ (bodySize b).toNat → b.Checked 12 2 ∧ (b.Holds 12 4 →
      if declaredSize b < 12 then b.size ≤ helloStart
      else LinkMessagesFit b helloStart (declaredSize b - helloStart))

/-- Up to where the parser asserts that the message goes on, it does. -/
def Fits (b : Buffer) : Prop :=
  b.Holds 0 2 → ∀ type, MessageType.ofOctet (b.octet 0) = some type →
    b.Checked 2 2 ∧ (b.Holds 2 2 → b.Checked 4 4 ∧ (b.Holds 4 6 → b.Checked 10 2 ∧
      (b.Holds 10 2 → BodyFits b type)))

/-! ### The loop over the link messages -/

/-- A word of two octets fits its type. -/
theorem toNat_word (b : Buffer) (i : ℕ) : (UInt16.ofNat (b.word 2 i)).toNat = b.word 2 i := by
  have h0 := (b.octet i).toNat_lt
  have h1 := (b.octet (i + 1)).toNat_lt
  rw [UInt16.toNat_ofNat']
  apply Nat.mod_eq_of_lt
  simp only [Buffer.word, Nat.zero_mul, Nat.zero_add, Nat.add_zero]
  omega

/-- The remainder of the code's integers is zero for multiples of four only. -/
theorem addressesSize_tmod_eq_zero {lmSize : ℕ} : ((lmSize : ℤ) - 4).tmod 4 = 0 ↔ 4 ∣ lmSize := by
  rw [← Int.dvd_iff_tmod_eq_zero, ← Int.natCast_dvd_natCast]
  omega

/-- The addresses of a link message. A size of zero gives a count below zero, which ends only
where it is rejected. -/
theorem wp_readNeighbors {lmSize j r : ℕ} {Q : List UInt32 × ℕ → ℕ → Prop}
    {E : Fault → ℕ → Prop} (hE : ∀ r, ¬ E .undefined r) (hj : j ≤ b.size) (hr : j ≤ r)
    (hdvd : 4 ∣ lmSize) :
    (readNeighbors b (((lmSize : ℤ) - 4).tdiv 4) j).wp Q E r ↔
      b.WordsChecked j (addressCount lmSize) ∧
      (¬ b.Holds j (4 * addressCount lmSize) → E .abort (max r b.size)) ∧
      (b.Holds j (4 * addressCount lmSize) → 4 ≤ lmSize ∧
        Q (b.words (addressCount lmSize) j, j + (lmSize - 4)) (max r (j + (lmSize - 4)))) := by
  obtain rfl | hpos := Nat.eq_zero_or_pos lmSize
  · -- The count starts at minus one.
    have hcount : (((0 : ℕ) : ℤ) - 4).tdiv 4 = Int.negSucc 0 := rfl
    rw [hcount, readNeighbors, wp_bind, wp_readWords hE hj hr]
    simp only [wp_throw, hE, addressCount, if_true, Nat.sub_zero]
    simp [and_comm]
  · have h4 : 4 ≤ lmSize := Nat.le_of_dvd hpos hdvd
    have hsize : 4 * ((lmSize - 4) / 4) = lmSize - 4 := by omega
    have hcount : ((lmSize : ℤ) - 4).tdiv 4 = Int.ofNat ((lmSize - 4) / 4) := by
      have hcast : (lmSize : ℤ) - 4 = ((lmSize - 4 : ℕ) : ℤ) := by omega
      rw [hcast]
      rfl
    rw [hcount, readNeighbors, wp_readWords hE hj hr, addressCount, if_neg hpos.ne', hsize]
    simp [h4, and_comm]

/-- A round takes one link message: if its size is one that fits, the loop goes on with what is
left; if it is not, octets behind the body have been read by then. -/
theorem wp_readLinkMessages {fuel i : ℕ} {left : UInt16} (hfuel : b.size < i + fuel)
    (hi : i ≤ b.size) :
    (readLinkMessages b fuel i left).wp (fun _ reach => reach ≤ i + left.toNat)
        (fun fault reach => fault = .abort ∧ reach ≤ i + left.toNat) i ↔
      LinkMessagesFit b i left.toNat := by
  induction fuel generalizing i left with
  | zero => omega
  | succ fuel ih =>
    have hE : ∀ r, ¬ (Fault.undefined = .abort ∧ r ≤ i + left.toNat) := fun r h => by cases h.1
    unfold LinkMessagesFit
    by_cases hleft : left = 0
    · -- The body has been read.
      have hzero : left.toNat = 0 := by rw [hleft]; rfl
      simp [readLinkMessages, hleft]
    rw [readLinkMessages, if_neg hleft]
    simp only [wp_bind, wp_guard, wp_ReadU8]
    by_cases h4 : 4 ≤ left.toNat
    swap
    · simp [h4]
    by_cases h2 : b.Holds i 2
    swap
    · -- One of the first two octets is missing.
      have h2' : ¬ b.Holds (i + 1) 1 := fun h => h2 ((Buffer.holds_add (n := 1)).mpr h)
      simp [h4, h2, h2']
      omega
    have h1 : b.Holds i 1 := h2.mono (by omega)
    have h1' : b.Holds (i + 1) 1 := Buffer.holds_add.mp h2
    have hreach : max (max i (i + 1)) (i + 1 + 1) = i + 2 := by omega
    rw [hreach]
    simp only [h4, h2, h1, h1', true_implies, not_true_eq_false, false_implies, and_true]
    rw [wp_ReadNtohU16 hE (by omega)]
    refine and_congr_right fun _ => ?_
    by_cases hsize : b.Holds (i + 2) 2
    swap
    · -- The size is not there, and that is noticed inside of what is left.
      have hbuffer : max (i + 2) b.size ≤ i + left.toNat := by
        unfold Buffer.Holds at hsize
        omega
      simp [hsize, hbuffer]
    have hreach : max (i + 2) (i + 2 + 2) = i + 4 := by omega
    have hi4 : i + 4 ≤ b.size := hsize
    rw [hreach]
    simp only [hsize, true_implies, not_true_eq_false, false_implies, and_true, toNat_word,
      addressesSize_tmod_eq_zero]
    generalize hlm : b.word 2 (i + 2) = lmSize
    by_cases hdvd : 4 ∣ lmSize
    swap
    · simp only [hdvd, false_implies, not_false_eq_true, true_implies, true_and, iff_true]
      omega
    simp only [hdvd, true_implies, not_true_eq_false, false_implies, and_true]
    rw [wp_readNeighbors hE hi4 le_rfl hdvd]
    refine and_congr_right fun _ => and_congr ?_ ?_
    · refine imp_congr_right fun _ => ?_
      simp only [true_and]
      omega
    refine imp_congr_right fun hholds => ?_
    by_cases hfour : 4 ≤ lmSize
    swap
    · simp [hfour]
    have hplace : i + 4 + (lmSize - 4) = i + lmSize := by omega
    have hreach' : max (i + 4) (i + lmSize) = i + lmSize := by omega
    have hend : i + lmSize ≤ b.size := by
      rw [addressCount, if_neg (by omega)] at hholds
      unfold Buffer.Holds at hholds
      omega
    simp only [hfour, true_and, hplace, hreach', wp_pure]
    split_ifs with hle
    · -- The link message is inside of what is left.
      have hleft' : (left - UInt16.ofNat lmSize).toNat = left.toNat - lmSize := by
        rw [← hlm] at hle ⊢
        rw [UInt16.toNat_sub_of_le, toNat_word]
        rw [UInt16.le_iff_toNat_le, toNat_word]
        exact hle
      have hsame : i + left.toNat = i + lmSize + (left.toNat - lmSize) := by omega
      rw [hsame, ← hleft']
      exact ih (by omega) hend
    · -- Octets behind the body have been read.
      rw [iff_false]
      refine not_wp_of_forall_le (fun _ r' hr' => ?_) fun _ r' hr' => ?_
      · omega
      · exact fun h => absurd h.2 (by omega)

/-! ### The bodies -/

/-- The size of a body as the code computes it, with wrap-around. -/
theorem bodySize_toNat (b : Buffer) :
    (bodySize b).toNat = (2 ^ 32 - 12 + declaredSize b) % 2 ^ 32 := by
  unfold bodySize declaredSize
  rw [UInt32.toNat_sub, UInt16.toNat_toUInt32, toNat_word]
  rfl

/-- The declared size has two octets. -/
theorem declaredSize_lt (b : Buffer) : declaredSize b < 2 ^ 16 := by
  unfold declaredSize
  rw [← toNat_word]
  exact UInt16.toNat_lt _

/-- A remainder of words is zero if and only if one divides the other. -/
theorem mod_eq_zero_iff {a m : UInt32} : a % m = 0 ↔ m.toNat ∣ a.toNat := by
  rw [← UInt32.toNat_inj, UInt32.toNat_mod, Nat.dvd_iff_mod_eq_zero]
  rfl

/-- What `readMessage` is to do behind the header. -/
def BodyInside (b : Buffer) (type : MessageType) : Prop :=
  (readMessage b 12 (bodySize b) type).wp (fun _ reach => reach ≤ declaredSize b)
    (fun fault reach => fault = .abort ∧
      (some type = some .HELLO_MESSAGE → reach ≤ max helloStart (declaredSize b))) 12

/-- The addresses at the end of a body. -/
theorem addressesFit_iff {i n : ℕ} {P : Prop} (hi : 12 ≤ i)
    (hend : 12 ≤ declaredSize b → i + 4 * n ≤ declaredSize b) (hP : P) :
    (b.WordsChecked i n ∧ (b.Holds i (4 * n) → max i (i + 4 * n) ≤ declaredSize b) ∧
      (¬ b.Holds i (4 * n) → P)) ↔ AddressesFit b i n := by
  unfold AddressesFit
  refine and_congr_right fun _ => ?_
  constructor
  · rintro ⟨h, _⟩ hholds
    have := h hholds
    omega
  · intro h
    refine ⟨fun hholds => ?_, fun _ => hP⟩
    have := hend (h hholds)
    omega

/-- The body of a MID is read inside if and only if it fits. -/
theorem bodyInside_mid (h12 : 12 ≤ b.size) :
    BodyInside b .MID_MESSAGE ↔ BodyFits b .MID_MESSAGE := by
  have hsize := bodySize_toNat b
  have hlt := declaredSize_lt b
  unfold BodyInside BodyFits
  simp only [readMessage, Mid.Deserialize, wp_bind, wp_guard, wp_pure, mod_eq_zero_iff,
    UInt32.toNat_div]
  rw [wp_readWords (fun r h => by cases h.1) h12 le_rfl]
  have hfour : IPV4_ADDRESS_SIZE.toNat = 4 := rfl
  rw [hfour]
  by_cases hdvd : 4 ∣ (bodySize b).toNat
  swap
  · simp [hdvd]
  simp only [hdvd, true_implies, not_true_eq_false, false_implies, and_true]
  exact addressesFit_iff le_rfl (by omega) ⟨trivial, by rintro ⟨⟩⟩

/-- The body of an HNA is read inside if and only if it fits. -/
theorem bodyInside_hna (h12 : 12 ≤ b.size) :
    BodyInside b .HNA_MESSAGE ↔ BodyFits b .HNA_MESSAGE := by
  have hsize := bodySize_toNat b
  have hlt := declaredSize_lt b
  unfold BodyInside BodyFits
  simp only [readMessage, Hna.Deserialize, wp_bind, wp_guard, wp_pure, mod_eq_zero_iff,
    UInt32.toNat_div]
  rw [wp_readPairs (fun r h => by cases h.1) h12 le_rfl]
  have hfour : IPV4_ADDRESS_SIZE.toNat = 4 := rfl
  have height : (IPV4_ADDRESS_SIZE * 2).toNat = 8 := rfl
  rw [hfour, height]
  by_cases hdvd : 8 ∣ (bodySize b).toNat
  swap
  · simp [hdvd]
  have hcount : 2 * ((bodySize b).toNat / 4 / UInt32.toNat 2) = (bodySize b).toNat / 4 := by
    have htwo : UInt32.toNat 2 = 2 := rfl
    rw [htwo]
    omega
  simp only [hdvd, true_implies, not_true_eq_false, false_implies, and_true, hcount]
  exact addressesFit_iff le_rfl (by omega) ⟨trivial, by rintro ⟨⟩⟩

/-- The body of a TC is read inside if and only if it fits. -/
theorem bodyInside_tc : BodyInside b .TC_MESSAGE ↔ BodyFits b .TC_MESSAGE := by
  have hsize := bodySize_toNat b
  have hlt := declaredSize_lt b
  unfold BodyInside BodyFits
  simp only [readMessage, Tc.Deserialize, wp_bind, wp_guard, wp_pure, mod_eq_zero_iff,
    UInt32.toNat_div]
  by_cases h4 : 4 ≤ (bodySize b).toNat
  swap
  · simp [h4]
  simp only [h4, true_implies, not_true_eq_false, false_implies, and_true]
  rw [wp_ReadNtohU16 (fun r h => by cases h.1) le_rfl]
  refine and_congr_right fun _ => ?_
  by_cases h2 : b.Holds 12 2
  swap
  · simp [h2]
  simp only [h2, true_implies, not_true_eq_false, false_implies, and_true]
  rw [wp_ReadNtohU16 (fun r h => by cases h.1) (by omega)]
  refine and_congr_right fun _ => ?_
  have hholds : b.Holds 12 4 ↔ b.Holds 14 2 := Buffer.holds_add (n := 2) (k := 2)
  rw [hholds]
  by_cases h2' : b.Holds 14 2
  swap
  · simp [h2']
  have hfour : IPV4_ADDRESS_SIZE.toNat = 4 := rfl
  have hsub : (bodySize b - 4).toNat = (bodySize b).toNat - 4 := by
    rw [UInt32.toNat_sub_of_le]
    · rfl
    · rw [UInt32.le_iff_toNat_le]
      exact h4
  have hdvd_iff : 4 ∣ (bodySize b).toNat - 4 ↔ 4 ∣ (bodySize b).toNat := by omega
  simp only [h2', true_implies, not_true_eq_false, false_implies, and_true, hfour, hsub, hdvd_iff]
  by_cases hdvd : 4 ∣ (bodySize b).toNat
  swap
  · simp [hdvd]
  simp only [hdvd, true_implies, not_true_eq_false, false_implies, and_true]
  have h16 : 16 ≤ b.size := h2'
  rw [wp_readWords (fun r h => by cases h.1) h16 (by omega)]
  exact addressesFit_iff (by omega) (by omega) ⟨rfl, by rintro ⟨⟩⟩

/-- Where the declared size ends before the link messages, none of their octets may be there. -/
theorem wp_readLinkMessages_of_lt {fuel i bound : ℕ} {left : UInt16} (hleft : 4 ≤ left.toNat)
    (hi : i ≤ b.size) (hbound : bound ≤ i) :
    (readLinkMessages b (fuel + 1) i left).wp (fun _ reach => reach ≤ bound)
        (fun fault reach => fault = .abort ∧ reach ≤ i) i ↔ b.size ≤ i := by
  have hzero : left ≠ 0 := by
    rintro rfl
    exact absurd hleft (by decide)
  rw [readLinkMessages, if_neg hzero, wp_bind, wp_guard, wp_bind, wp_ReadU8]
  simp only [hleft, true_implies, not_true_eq_false, false_implies, and_true]
  by_cases h1 : b.Holds i 1
  · have hlt : ¬ b.size ≤ i := by
      unfold Buffer.Holds at h1
      omega
    simp only [h1, hlt, true_implies, not_true_eq_false, false_implies, and_true, iff_false]
    have hread : i < max i (i + 1) := lt_max_of_lt_right (Nat.lt_succ_self i)
    refine not_wp_of_forall_le (fun _ r' hr' h => ?_) fun _ r' hr' h => ?_
    · exact absurd (hread.trans_le (hr'.trans (h.trans hbound))) (lt_irrefl i)
    · exact absurd (hread.trans_le (hr'.trans h.2)) (lt_irrefl i)
  · have hle : b.size ≤ i := by
      unfold Buffer.Holds at h1
      omega
    simp [h1, hle]

/-- The body of a HELLO is read inside if and only if it fits. -/
theorem bodyInside_hello : BodyInside b .HELLO_MESSAGE ↔ BodyFits b .HELLO_MESSAGE := by
  have hsize := bodySize_toNat b
  have hlt := declaredSize_lt b
  unfold BodyInside BodyFits helloStart
  simp only [readMessage, Hello.Deserialize, wp_bind, wp_guard, wp_pure, wp_ReadU8]
  by_cases h4 : 4 ≤ (bodySize b).toNat
  swap
  · simp [h4]
  simp only [h4, true_implies, not_true_eq_false, false_implies, and_true]
  rw [wp_ReadNtohU16 (fun r h => by cases h.1) le_rfl]
  refine and_congr_right fun _ => ?_
  by_cases hfour : b.Holds 12 4
  swap
  · -- One of the four octets is missing.
    have hle : b.size ≤ 16 := by
      unfold Buffer.Holds at hfour
      omega
    have h15 : ¬ b.Holds 15 1 := fun h => hfour h
    simp [hfour, h15]
    omega
  have h2 : b.Holds 12 2 := hfour.mono (by omega)
  have h14 : b.Holds 14 1 := Buffer.holds_add.mp (hfour.mono (show 2 + 1 ≤ 4 by omega))
  have h15 : b.Holds 15 1 := Buffer.holds_add (n := 3).mp hfour
  have h16 : 16 ≤ b.size := hfour
  have hreach : max (max (max 12 (12 + 2)) (12 + 2 + 1)) (12 + 2 + 1 + 1) = 16 := rfl
  simp only [hfour, h2, h14, h15, true_implies, not_true_eq_false, false_implies, and_true, hreach]
  have hleft : ((bodySize b).toUInt16 - 4).toNat =
      (2 ^ 16 - 4 + (bodySize b).toNat % 2 ^ 16) % 2 ^ 16 := by
    rw [UInt16.toNat_sub, UInt32.toNat_toUInt16]
    rfl
  by_cases h12' : declaredSize b < 12
  · rw [if_pos h12']
    have hmax : max 16 (declaredSize b) = 16 := by omega
    rw [hmax]
    exact wp_readLinkMessages_of_lt (by omega) h16 (by omega)
  · rw [if_neg h12']
    have hleft' : ((bodySize b).toUInt16 - 4).toNat = declaredSize b - 16 := by omega
    have hend : declaredSize b = 16 + ((bodySize b).toUInt16 - 4).toNat := by omega
    have hmax : max 16 (declaredSize b) = declaredSize b := by omega
    rw [hmax, ← hleft', hend]
    exact wp_readLinkMessages (by omega) h16

/-- A body is read inside if and only if it fits, whatever its type. -/
theorem bodyInside_iff (h12 : 12 ≤ b.size) (type : MessageType) :
    BodyInside b type ↔ BodyFits b type :=
  match type with
  | .HELLO_MESSAGE => bodyInside_hello
  | .TC_MESSAGE => bodyInside_tc
  | .MID_MESSAGE => bodyInside_mid h12
  | .HNA_MESSAGE => bodyInside_hna h12

/-! ### The message -/

/-- A message is read inside if and only if it fits. -/
theorem readsInside_iff (b : Buffer) : ReadsInside b ↔ Fits b := by
  unfold ReadsInside Fits Deserialize
  rw [wp_bind, wp_ReadU8]
  by_cases h1 : b.Holds 0 1
  swap
  · have h2 : ¬ b.Holds 0 2 := fun h => h1 (h.mono (by omega))
    simp [h1, h2]
  simp only [h1, true_implies, not_true_eq_false, false_implies, and_true]
  cases htype : MessageType.ofOctet (b.octet 0) with
  | none => simp
  | some type =>
    simp only [wp_bind, wp_ReadU8, wp_pure]
    by_cases h2 : b.Holds 0 2
    swap
    · have h2' : ¬ b.Holds 1 1 := fun h => h2 h
      simp [h2, h2', helloStart]
    have h2' : b.Holds (0 + 1) 1 := h2
    simp only [h2, h2', true_implies, not_true_eq_false, false_implies, and_true,
      Option.some.injEq, forall_eq']
    have hreach : max (max 0 (0 + 1)) (0 + 1 + 1) = 2 := rfl
    rw [hreach, wp_ReadNtohU16 (fun r h => by cases h.1) le_rfl]
    simp only [Nat.reduceAdd]
    refine and_congr_right fun _ => ?_
    by_cases h4 : b.Holds 2 2
    swap
    · have hle : max 2 b.size ≤ max helloStart (declaredSize b) := by
        unfold Buffer.Holds at h4
        unfold helloStart
        omega
      simp [h4, hle]
    simp only [h4, true_implies, not_true_eq_false, false_implies, and_true]
    have hreach : max 2 4 = 4 := rfl
    rw [hreach, wp_ReadNtohU32 (fun r h => by cases h.1) le_rfl]
    refine and_congr_right fun _ => ?_
    by_cases h10 : b.Holds 4 6
    swap
    · -- One of the six octets is missing.
      have h9 : ¬ b.Holds 9 1 := fun h => h10 h
      have hle : max 9 b.size ≤ max helloStart (declaredSize b) := by
        unfold Buffer.Holds at h10
        unfold helloStart
        omega
      have h8 : max 4 b.size ≤ max helloStart (declaredSize b) := by omega
      have h9' : 9 ≤ max helloStart (declaredSize b) := by omega
      have h8' : 8 ≤ max helloStart (declaredSize b) := by omega
      simp [h10, h9, h8, h8', h9']
    have h8 : b.Holds 4 4 := h10.mono (by omega)
    have h9 : b.Holds 8 1 := Buffer.holds_add.mp (h10.mono (show 4 + 1 ≤ 6 by omega))
    have h9' : b.Holds 9 1 := Buffer.holds_add (n := 5).mp h10
    simp only [h8, h9, h9', h10, true_implies, not_true_eq_false, false_implies, and_true,
      Nat.reduceAdd]
    have hreach : max (max (max 4 8) 9) 10 = 10 := rfl
    rw [hreach, wp_ReadNtohU16 (fun r h => by cases h.1) le_rfl]
    refine and_congr_right fun _ => ?_
    by_cases h12 : b.Holds 10 2
    swap
    · have hle : max 10 b.size ≤ max helloStart (declaredSize b) := by
        unfold Buffer.Holds at h12
        unfold helloStart
        omega
      simp only [h12, hle, false_implies, not_false_eq_true, implies_true, and_self]
    simp only [h12, true_implies, not_true_eq_false, false_implies, and_true, Nat.reduceAdd]
    rw [← bodyInside_iff h12 type]
    unfold BodyInside
    simp only [Option.some.injEq]
    exact Iff.rfl

/-- A HELLO of twenty octets. The size of its only link message, of which the declared size has
four octets, is eight: the address is read from behind the message. -/
def overrunningHello : Buffer where
  front := [1, 0, 0, 20, 10, 0, 0, 1, 1, 0, 0, 1, 0, 0, 0, 3, 6, 0, 0, 8, 10, 0, 0, 2]
  zeros := 0
  back := []

/-- A HELLO whose declared size passes the end of the buffer. -/
theorem not_readsInside_overrunningHello : ¬ ReadsInside overrunningHello := by
  decide +kernel

end Ns3Joined.Olsr.MessageHeader
