import Mathlib
import Ns3Joined.Fault
import Ns3Joined.Library.TracedRun

/-!
# The queue of a WiMAX connection

`WimaxMacQueue` (`wimax-mac-queue.cc`) holds data packets and bandwidth requests, takes the first
of a type out of the middle, and gives it out in fragments where the schedulers have no room for
all of it.

* `Enqueue`, `Dequeue`, `DequeueFragment`: the operations; `Admits`: what the schedulers check.
* `receive`: what fragments are put together to.
* `Handled`: what is given out of a type are the packets that came in, in order, whole or in
  fragments; `QueueRight`: and the count of bytes is that of the queue.
* `throughout_queueRight`: over any calls made with `Sound`, and with `SizeSound`.
-/

namespace Ns3Joined.Wimax

inductive HeaderType
  | HEADER_TYPE_GENERIC
  | HEADER_TYPE_BANDWIDTH
deriving DecidableEq

open HeaderType

structure GenericMacHeader where
  m_type : UInt8
  m_len : UInt16
deriving DecidableEq

structure FragmentationSubheader where
  m_fc : UInt8
  m_fsn : UInt8
deriving DecidableEq

/-- What is given out: the payload behind the headers that were added. -/
structure Pdu where
  hdrType : HeaderType
  hdr : Option GenericMacHeader
  fragmentSubhdr : Option FragmentationSubheader
  payload : List UInt8
deriving DecidableEq

structure QueueElement where
  m_packet : List UInt8
  m_hdrType : HeaderType
  m_hdr : GenericMacHeader
  m_fragmentation : Bool
  m_fragmentNumber : ℕ
  m_fragmentOffset : ℕ
deriving DecidableEq

/-- The generic header has 6 bytes and the header type none; a request has no generic header. -/
def QueueElement.hdrSize (element : QueueElement) : ℕ :=
  if element.m_hdrType = HEADER_TYPE_GENERIC then 6 else 0

def QueueElement.GetSize (element : QueueElement) : ℕ :=
  element.m_packet.length + element.hdrSize

/-- The generic header of a fragment. -/
def QueueElement.fragmentHdr (element : QueueElement) (fragmentSize : ℕ) :
    Option GenericMacHeader :=
  if element.m_hdrType = HEADER_TYPE_GENERIC then
    some ⟨element.m_hdr.m_type ||| 4, UInt16.ofNat (fragmentSize + 6 + 2)⟩
  else none

/-- Subtraction of words of 32 bits. -/
def sub32 (a b : ℕ) : ℕ := (a + 2 ^ 32 - b % 2 ^ 32) % 2 ^ 32

structure WimaxMacQueue where
  m_queue : List QueueElement
  m_maxSize : ℕ
  m_bytes : ℕ
  m_nrDataPackets : ℕ
  m_nrRequestPackets : ℕ
deriving DecidableEq

namespace WimaxMacQueue

/-! ### The operations -/

/-- `QueueElement ()`. -/
def noElement : QueueElement := ⟨[], HEADER_TYPE_GENERIC, ⟨0, 0⟩, false, 0, 0⟩

/-- `Front`: the first of the type, or the last of all. -/
def Front (s : WimaxMacQueue) (packetType : HeaderType) : QueueElement :=
  (s.m_queue.find? fun element => element.m_hdrType = packetType).getD
    (s.m_queue.getLastD noElement)

/-- The queue after `Pop`. -/
def Pop (s : WimaxMacQueue) (packetType : HeaderType) : List QueueElement :=
  s.m_queue.eraseP fun element => element.m_hdrType = packetType

/-- A loop of `SetFragmentation`, `SetFragmentNumber` or `SetFragmentOffset`. -/
def setFirst (packetType : HeaderType) (set : QueueElement → QueueElement) :
    List QueueElement → List QueueElement
  | [] => []
  | element :: rest =>
    if element.m_hdrType = packetType then set element :: rest
    else element :: setFirst packetType set rest

def IsEmpty (s : WimaxMacQueue) : HeaderType → Bool
  | HEADER_TYPE_GENERIC => s.m_nrDataPackets == 0
  | HEADER_TYPE_BANDWIDTH => s.m_nrRequestPackets == 0

def GetFirstPacketHdrSize (s : WimaxMacQueue) (packetType : HeaderType) : ℕ :=
  (s.Front packetType).hdrSize + if (s.Front packetType).m_fragmentation then 2 else 0

def GetFirstPacketPayloadSize (s : WimaxMacQueue) (packetType : HeaderType) : ℕ :=
  if (s.Front packetType).m_fragmentation then
    (s.Front packetType).m_packet.length - (s.Front packetType).m_fragmentOffset
  else (s.Front packetType).m_packet.length

def GetFirstPacketRequiredByte (s : WimaxMacQueue) (packetType : HeaderType) : ℕ :=
  s.GetFirstPacketPayloadSize packetType + s.GetFirstPacketHdrSize packetType

/-- What came of a call. -/
inductive Event
  | enqueued (packetType : HeaderType) (packet : List UInt8)
  | dropped
  | nothing
  | dequeued (packetType : HeaderType) (availableByte : Option ℕ) (pdu : Pdu)
deriving DecidableEq

def Enqueue (s : WimaxMacQueue) (packet : List UInt8) (hdrType : HeaderType)
    (hdr : GenericMacHeader) : WimaxMacQueue × List Event :=
  if s.m_queue.length = s.m_maxSize then (s, [.dropped])
  else
    let element : QueueElement := ⟨packet, hdrType, hdr, false, 0, 0⟩
    let isData := if hdrType = HEADER_TYPE_GENERIC then 1 else 0
    ({ s with
        m_queue := s.m_queue ++ [element]
        m_nrDataPackets := s.m_nrDataPackets + isData
        m_nrRequestPackets := s.m_nrRequestPackets + (1 - isData)
        m_bytes := (s.m_bytes + element.GetSize) % 2 ^ 32 }, [.enqueued hdrType packet])

/-- `Dequeue`. -/
def Dequeue (s : WimaxMacQueue) (packetType : HeaderType) :
    Except Fault (WimaxMacQueue × List Event) :=
  if s.m_queue = [] then .ok (s, [.nothing])
  else
    let element := s.Front packetType
    if s.IsEmpty element.m_hdrType then .error .abort
    else
      let isData := if element.m_hdrType = HEADER_TYPE_GENERIC then 1 else 0
      let s' := { s with
        m_queue := s.Pop packetType
        m_nrDataPackets := s.m_nrDataPackets - isData
        m_nrRequestPackets := s.m_nrRequestPackets - (1 - isData) }
      if element.m_fragmentation = false then
        let hdr := if element.m_hdrType = HEADER_TYPE_GENERIC then some element.m_hdr else none
        .ok ({ s' with m_bytes := sub32 s.m_bytes element.GetSize },
          [.dequeued packetType none ⟨element.m_hdrType, hdr, none, element.m_packet⟩])
      else
        -- the latest fragment
        let fragmentSize := element.m_packet.length - element.m_fragmentOffset
        let fragmentSubhdr := ⟨2, UInt8.ofNat element.m_fragmentNumber⟩
        .ok ({ s' with m_bytes := sub32 s.m_bytes fragmentSize },
          [.dequeued packetType none ⟨element.m_hdrType, element.fragmentHdr fragmentSize,
            some fragmentSubhdr, element.m_packet.drop element.m_fragmentOffset⟩])

/-- `Dequeue` with a number of bytes. -/
def DequeueFragment (s : WimaxMacQueue) (packetType : HeaderType) (availableByte : ℕ) :
    Except Fault (WimaxMacQueue × List Event) :=
  if s.m_queue = [] then .ok (s, [.nothing])
  else
    let element := s.Front packetType
    -- the generic header is counted for a request, too
    let headerSize := 2 + 6 + 0
    let maxFragmentSize := sub32 availableByte headerSize
    -- `CreateFragment`
    if element.m_fragmentOffset + maxFragmentSize > element.m_packet.length then .error .outOfRange
    else
      let fragment := (element.m_packet.drop element.m_fragmentOffset).take maxFragmentSize
      let fc := if element.m_fragmentation then 3 else 1
      let set := fun element : QueueElement =>
        { element with
          m_fragmentation := true
          m_fragmentNumber := element.m_fragmentNumber + 1
          m_fragmentOffset := element.m_fragmentOffset + maxFragmentSize }
      .ok ({ s with
          m_queue := setFirst packetType set s.m_queue
          m_bytes := sub32 s.m_bytes maxFragmentSize },
        [.dequeued packetType (some availableByte)
          ⟨element.m_hdrType, element.fragmentHdr maxFragmentSize,
            some ⟨fc, UInt8.ofNat element.m_fragmentNumber⟩, fragment⟩])

inductive Scheduler
  | BS
  | SS
deriving DecidableEq

/-- When a scheduler asks for a fragment: there is a packet, and room for more than its headers. The
subscriber's station has not room for all of the packet. The base station holds data only, and looks
at the header without the subheader that is to come; what room there is for the packet it compares
in symbols, and bytes may be enough where symbols are not. -/
def Admits (s : WimaxMacQueue) (scheduler : Scheduler) (packetType : HeaderType)
    (availableByte : ℕ) : Prop :=
  s.IsEmpty packetType = false ∧
    match scheduler with
    | .BS => packetType = HEADER_TYPE_GENERIC ∧ s.GetFirstPacketHdrSize packetType < availableByte
    | .SS => availableByte < s.GetFirstPacketRequiredByte packetType ∧
        s.GetFirstPacketHdrSize packetType +
          (if (s.Front packetType).m_fragmentation then 0 else 2) < availableByte

inductive Call
  | enqueue (packet : List UInt8) (hdrType : HeaderType) (hdr : GenericMacHeader)
  | dequeue (packetType : HeaderType)
  | dequeueFragment (scheduler : Scheduler) (packetType : HeaderType) (availableByte : ℕ)

def step (s : WimaxMacQueue) : Call → Except Fault (WimaxMacQueue × List Event)
  | .enqueue packet hdrType hdr => .ok (s.Enqueue packet hdrType hdr)
  | .dequeue packetType => s.Dequeue packetType
  | .dequeueFragment _ packetType availableByte => s.DequeueFragment packetType availableByte

/-! ### What the queue is for -/

/-- What was put together: packets, and what has come of one in fragments. -/
structure Received where
  packets : List (List UInt8)
  begun : Option (List UInt8)

/-- The fragments come first, middle ones, last, and nothing else in between. -/
def receive (r : Received) (pdu : Pdu) : Option Received :=
  match pdu.fragmentSubhdr.map FragmentationSubheader.m_fc, r.begun with
  | none, none => some ⟨r.packets ++ [pdu.payload], none⟩
  | some 1, none => some ⟨r.packets, some pdu.payload⟩
  | some 3, some begun => some ⟨r.packets, some (begun ++ pdu.payload)⟩
  | some 2, some begun => some ⟨r.packets ++ [begun ++ pdu.payload], none⟩
  | _, _ => none

def Event.enqueuedOf (packetType : HeaderType) : Event → Option (List UInt8)
  | .enqueued hdrType packet => if hdrType = packetType then some packet else none
  | _ => none

def Event.dequeuedOf (packetType : HeaderType) : Event → Option Pdu
  | .dequeued hdrType _ pdu => if hdrType = packetType then some pdu else none
  | _ => none

def ofType (packetType : HeaderType) (queue : List QueueElement) : List QueueElement :=
  queue.filter fun element => element.m_hdrType = packetType

/-- What has been sent of the first packet. -/
def begun : List QueueElement → Option (List UInt8)
  | [] => none
  | element :: _ =>
    if element.m_fragmentation then some (element.m_packet.take element.m_fragmentOffset) else none

/-- What is given out of a type makes the packets of the type that came in, in order, up to those
in the queue; and the type and the size of a fragment are as they were asked for. -/
structure Handled (s : WimaxMacQueue) (h : List Event) : Prop where
  received : ∀ packetType, ∃ packets,
    (h.filterMap (Event.dequeuedOf packetType)).foldlM receive ⟨[], none⟩ =
        some ⟨packets, begun (ofType packetType s.m_queue)⟩ ∧
      packets ++ (ofType packetType s.m_queue).map QueueElement.m_packet =
        h.filterMap (Event.enqueuedOf packetType)
  typed : ∀ packetType availableByte pdu, .dequeued packetType availableByte pdu ∈ h →
    pdu.hdrType = packetType
  fits : ∀ packetType availableByte pdu, .dequeued packetType (some availableByte) pdu ∈ h →
    pdu.payload.length + (2 + 6) = availableByte

/-- `GetNBytes` is the size of the queue without what has been sent of it. -/
def BytesRight (s : WimaxMacQueue) : Prop :=
  s.m_bytes + (s.m_queue.map QueueElement.m_fragmentOffset).sum =
    (s.m_queue.map QueueElement.GetSize).sum

def QueueRight (s : WimaxMacQueue) (h : List Event) : Prop := Handled s h ∧ BytesRight s

/-- The calls that may be made. -/
def Allowed (s : WimaxMacQueue) : Call → Prop
  | .dequeueFragment scheduler packetType availableByte =>
    availableByte < 2 ^ 32 ∧ s.Admits scheduler packetType availableByte
  | _ => True

/-- There is a packet of the type; and room for all headers of a fragment, but for no more payload
than what is left of the packet. -/
def Sound (s : WimaxMacQueue) : Call → Prop
  | .dequeue packetType =>
    s.m_queue = [] ∨ ∃ element ∈ s.m_queue, element.m_hdrType = packetType
  | .dequeueFragment _ packetType availableByte =>
    2 + 6 ≤ availableByte ∧ availableByte ≤ s.GetFirstPacketPayloadSize packetType + (2 + 6)
  | _ => True

/-- The bytes can be counted, and no data packet is finished that was sent in fragments: its
headers would go on being counted. -/
def SizeSound (s : WimaxMacQueue) : Call → Prop
  | .enqueue packet hdrType hdr => s.m_queue.length = s.m_maxSize ∨
    s.m_bytes + (QueueElement.mk packet hdrType hdr false 0 0).GetSize < 2 ^ 32
  | .dequeue HEADER_TYPE_GENERIC =>
    ∀ element ∈ ofType HEADER_TYPE_GENERIC s.m_queue, element.m_fragmentation = false
  | _ => True

instance (s : WimaxMacQueue) (scheduler : Scheduler) (packetType : HeaderType)
    (availableByte : ℕ) : Decidable (s.Admits scheduler packetType availableByte) :=
  match scheduler with
  | .BS | .SS => inferInstanceAs (Decidable (_ ∧ _ ∧ _))

instance (s : WimaxMacQueue) (call : Call) : Decidable (s.Allowed call) :=
  match call with
  | .dequeueFragment _ _ _ => inferInstanceAs (Decidable (_ ∧ _))
  | .enqueue _ _ _ | .dequeue _ => inferInstanceAs (Decidable True)

instance (s : WimaxMacQueue) (call : Call) : Decidable (s.Sound call) :=
  match call with
  | .dequeue _ => inferInstanceAs (Decidable (_ ∨ ∃ _ ∈ _, _))
  | .dequeueFragment _ _ _ => inferInstanceAs (Decidable (_ ∧ _))
  | .enqueue _ _ _ => inferInstanceAs (Decidable True)

instance (s : WimaxMacQueue) (call : Call) : Decidable (s.SizeSound call) :=
  match call with
  | .enqueue _ _ _ => inferInstanceAs (Decidable (_ ∨ _))
  | .dequeue HEADER_TYPE_GENERIC => inferInstanceAs (Decidable (∀ _ ∈ _, _))
  | .dequeue HEADER_TYPE_BANDWIDTH | .dequeueFragment _ _ _ => inferInstanceAs (Decidable True)

variable {s s' : WimaxMacQueue} {h : List Event} {t t' : HeaderType} {e : QueueElement}
  {l l₁ l₂ : List QueueElement} {pdu : Pdu} {availableByte : ℕ}

/-! ### The first of a type -/

/-- The queue is split at the first element of a type. -/
structure IsFirst (t : HeaderType) (l₁ : List QueueElement) (e : QueueElement) : Prop where
  type_eq : e.m_hdrType = t
  not_before : ∀ e' ∈ l₁, ¬ e'.m_hdrType = t

/-- Where there is an element of a type there is a first one. -/
theorem exists_isFirst (h : ∃ e ∈ l, e.m_hdrType = t) :
    ∃ l₁ e l₂, l = l₁ ++ e :: l₂ ∧ IsFirst t l₁ e := by
  obtain ⟨e, he, ht⟩ := h
  obtain ⟨e, l₁, l₂, hnot, hfirst, hl, -⟩ := List.exists_of_eraseP
    (p := fun e : QueueElement => decide (e.m_hdrType = t)) he (decide_eq_true ht)
  exact ⟨l₁, e, l₂, hl, of_decide_eq_true hfirst, fun e' he' => of_decide_eq_false
    (Bool.eq_false_iff.mpr (hnot e' he'))⟩

/-- The front of a type is its first element. -/
theorem IsFirst.front (hf : IsFirst t l₁ e) (hq : s.m_queue = l₁ ++ e :: l₂) : s.Front t = e := by
  have hnone : l₁.find? (fun element => element.m_hdrType = t) = none := by
    simpa using hf.not_before
  have hfirst : (e :: l₂).find? (fun element => element.m_hdrType = t) = some e := by
    simp [hf.type_eq]
  rw [Front, hq, List.find?_append, hnone, hfirst]
  rfl

/-- Popping takes the first element of the type away. -/
theorem IsFirst.pop (hf : IsFirst t l₁ e) (hq : s.m_queue = l₁ ++ e :: l₂) :
    s.Pop t = l₁ ++ l₂ := by
  have hfirst : (e :: l₂).eraseP (fun element => element.m_hdrType = t) = l₂ := by
    simp [hf.type_eq]
  rw [Pop, hq, List.eraseP_append_right _ (by simpa using hf.not_before), hfirst]

/-- Setting changes the first element of the type. -/
theorem IsFirst.setFirst (hf : IsFirst t l₁ e) (set : QueueElement → QueueElement) :
    setFirst t set (l₁ ++ e :: l₂) = l₁ ++ set e :: l₂ := by
  obtain ⟨ht, hnot⟩ := hf
  induction l₁ with
  | nil => exact if_pos ht
  | cons e' l₁ ih =>
    obtain ⟨he', hrest⟩ := List.forall_mem_cons.mp hnot
    rw [List.cons_append, WimaxMacQueue.setFirst, if_neg he', ih hrest]
    rfl

theorem ofType_append (l₁ l₂ : List QueueElement) :
    ofType t (l₁ ++ l₂) = ofType t l₁ ++ ofType t l₂ := List.filter_append _ _

/-- The elements of a type with one in front. -/
theorem ofType_cons_self (ht : e.m_hdrType = t) : ofType t (e :: l) = e :: ofType t l :=
  List.filter_cons_of_pos (decide_eq_true ht)

/-- An element of another type in front does not count. -/
theorem ofType_cons_of_ne (ht : ¬ e.m_hdrType = t) : ofType t (e :: l) = ofType t l :=
  List.filter_cons_of_neg (by simpa using ht)

/-- The elements of a type around the first of them. -/
theorem IsFirst.ofType_eq (hf : IsFirst t l₁ e) : ofType t (l₁ ++ l₂) = ofType t l₂ := by
  have hnone : ofType t l₁ = [] := List.filter_eq_nil_iff.mpr (by simpa using hf.not_before)
  rw [ofType_append, hnone, List.nil_append]

/-- Popping leaves the other types. -/
theorem IsFirst.ofType_of_ne (hf : IsFirst t l₁ e) (hne : t' ≠ t) :
    ofType t' (l₁ ++ e :: l₂) = ofType t' (l₁ ++ l₂) := by
  have he : ¬ e.m_hdrType = t' := fun he => hne (he.symm.trans hf.type_eq)
  rw [ofType_append, ofType_append, ofType_cons_of_ne he]

/-- Popping takes the first of its type. -/
theorem IsFirst.ofType_self (hf : IsFirst t l₁ e) :
    ofType t (l₁ ++ e :: l₂) = e :: ofType t (l₁ ++ l₂) := by
  rw [hf.ofType_eq, hf.ofType_eq, ofType_cons_self hf.type_eq]

/-- An element of the type goes to its end. -/
theorem ofType_concat_self (ht : e.m_hdrType = t) : ofType t (l ++ [e]) = ofType t l ++ [e] := by
  rw [ofType_append, ofType_cons_self ht]
  rfl

/-- An element of another type leaves it. -/
theorem ofType_concat_of_ne (ht : ¬ e.m_hdrType = t) : ofType t (l ++ [e]) = ofType t l := by
  rw [ofType_append, ofType_cons_of_ne ht]
  exact List.append_nil _

/-! ### What is kept -/

/-- Only the first of each type is in fragments, and the packets of each type are counted. -/
structure Kept (s : WimaxMacQueue) : Prop where
  offset_le : ∀ e ∈ s.m_queue, e.m_fragmentOffset ≤ e.m_packet.length
  offset_eq_zero : ∀ e ∈ s.m_queue, e.m_fragmentation = false → e.m_fragmentOffset = 0
  whole : ∀ t, ∀ e ∈ (ofType t s.m_queue).tail, e.m_fragmentation = false
  data : s.m_nrDataPackets = (ofType HEADER_TYPE_GENERIC s.m_queue).length
  requests : s.m_nrRequestPackets = (ofType HEADER_TYPE_BANDWIDTH s.m_queue).length

/-- There is something of a type if and only if the code's test says so. -/
theorem Kept.isEmpty_eq_false_iff (hk : Kept s) :
    s.IsEmpty t = false ↔ ∃ e ∈ s.m_queue, e.m_hdrType = t := by
  have hlength : s.IsEmpty t = ((ofType t s.m_queue).length == 0) := by
    cases t with
    | HEADER_TYPE_GENERIC => rw [IsEmpty, hk.data]
    | HEADER_TYPE_BANDWIDTH => rw [IsEmpty, hk.requests]
  simp [hlength, ofType]

/-- What was sent of elements is at most their size. -/
theorem sum_offset_le (h : ∀ e ∈ l, e.m_fragmentOffset ≤ e.m_packet.length) :
    (l.map QueueElement.m_fragmentOffset).sum ≤ (l.map QueueElement.GetSize).sum := by
  induction l with
  | nil => exact Nat.le_refl 0
  | cons e l ih =>
    obtain ⟨he, hl⟩ := List.forall_mem_cons.mp h
    rw [List.map_cons, List.map_cons, List.sum_cons, List.sum_cons]
    exact Nat.add_le_add (he.trans (Nat.le_add_right _ _)) (ih hl)

/-- A difference that is not negative is computed without wrap-around. -/
theorem sub32_eq {a b : ℕ} (hle : b ≤ a) (hlt : a < 2 ^ 32) : sub32 a b = a - b := by
  unfold sub32
  omega

/-! ### What is received -/

/-- Where a packet of a type is given out, whole or not, that is what is received of the type. -/
theorem Handled.dequeued (hh : Handled s h) {available : Option ℕ} (htype : pdu.hdrType = t)
    (hother : ∀ t', t' ≠ t → ofType t' s'.m_queue = ofType t' s.m_queue)
    (hfits : ∀ n, available = some n → pdu.payload.length + (2 + 6) = n)
    (hreceive : ∀ packets, ∃ packets',
      receive ⟨packets, begun (ofType t s.m_queue)⟩ pdu =
          some ⟨packets', begun (ofType t s'.m_queue)⟩ ∧
        packets' ++ (ofType t s'.m_queue).map QueueElement.m_packet =
          packets ++ (ofType t s.m_queue).map QueueElement.m_packet) :
    Handled s' (h ++ [.dequeued t available pdu]) where
  received := by
    intro t'
    obtain ⟨packets, hfold, heq⟩ := hh.received t'
    by_cases ht : t' = t
    · subst ht
      obtain ⟨packets', hreceive, heq'⟩ := hreceive packets
      refine ⟨packets', ?_, ?_⟩
      · simp [List.filterMap_append, Event.dequeuedOf, List.foldlM_append, hfold, hreceive]
      · simp [List.filterMap_append, Event.enqueuedOf, heq', heq]
    -- of another type nothing is given out
    · refine ⟨packets, ?_, ?_⟩
      · simp [List.filterMap_append, Event.dequeuedOf, Ne.symm ht, hother t' ht, hfold]
      · simp [List.filterMap_append, Event.enqueuedOf, hother t' ht, heq]
  typed := by
    intro t' available' pdu' hmem
    rcases List.mem_append.mp hmem with hmem | hmem
    · exact hh.typed t' available' pdu' hmem
    · cases List.mem_singleton.mp hmem
      exact htype
  fits := by
    intro t' n pdu' hmem
    rcases List.mem_append.mp hmem with hmem | hmem
    · exact hh.fits t' n pdu' hmem
    · cases List.mem_singleton.mp hmem
      exact hfits n rfl

/-- Where nothing is given out and nothing comes in. -/
theorem Handled.idle (hh : Handled s h) {ev : Event} (hev : ev = .nothing ∨ ev = .dropped) :
    Handled s (h ++ [ev]) where
  received := by
    intro t
    obtain ⟨packets, hfold, heq⟩ := hh.received t
    have hout : [ev].filterMap (Event.dequeuedOf t) = [] := by rcases hev with rfl | rfl <;> rfl
    have hin : [ev].filterMap (Event.enqueuedOf t) = [] := by rcases hev with rfl | rfl <;> rfl
    rw [List.filterMap_append, List.filterMap_append, hout, hin, List.append_nil, List.append_nil]
    exact ⟨packets, hfold, heq⟩
  typed := by
    intro t available pdu hmem
    refine hh.typed t available pdu ((List.mem_append.mp hmem).resolve_right fun hmem => ?_)
    rcases hev with rfl | rfl <;> cases List.mem_singleton.mp hmem
  fits := by
    intro t n pdu hmem
    refine hh.fits t n pdu ((List.mem_append.mp hmem).resolve_right fun hmem => ?_)
    rcases hev with rfl | rfl <;> cases List.mem_singleton.mp hmem

/-- A new element is not begun. -/
theorem begun_append (he : e.m_fragmentation = false) : begun (l ++ [e]) = begun l := by
  cases l with
  | nil => simp [begun, he]
  | cons e' l => rfl

/-! ### The operations keep it -/

/-- The count of bytes goes on being right. -/
def Counts (s s' : WimaxMacQueue) : Prop :=
  BytesRight s → s.m_bytes < 2 ^ 32 → BytesRight s' ∧ s'.m_bytes < 2 ^ 32

theorem Counts.refl (s : WimaxMacQueue) : Counts s s := fun hb hlt => ⟨hb, hlt⟩

/-- A whole packet is put behind all others. -/
theorem Kept.concat (hk : Kept s) (htype : e.m_hdrType = t) (hfrag : e.m_fragmentation = false)
    (hoffset : e.m_fragmentOffset = 0) (bytes : ℕ) :
    Kept { s with
      m_queue := s.m_queue ++ [e]
      m_nrDataPackets := s.m_nrDataPackets + if t = HEADER_TYPE_GENERIC then 1 else 0
      m_nrRequestPackets := s.m_nrRequestPackets + (1 - if t = HEADER_TYPE_GENERIC then 1 else 0)
      m_bytes := bytes } := by
  have hself : ofType t (s.m_queue ++ [e]) = ofType t s.m_queue ++ [e] := ofType_concat_self htype
  have hother (t' : HeaderType) (hne : t' ≠ t) :
      ofType t' (s.m_queue ++ [e]) = ofType t' s.m_queue :=
    ofType_concat_of_ne (by rw [htype]; exact hne.symm)
  refine ⟨?_, ?_, ?_, ?_, ?_⟩
  · intro e' he'
    rcases List.mem_append.mp he' with he' | he'
    · exact hk.offset_le e' he'
    · rw [List.mem_singleton.mp he', hoffset]
      exact Nat.zero_le _
  · intro e' he' hwhole
    rcases List.mem_append.mp he' with he' | he'
    · exact hk.offset_eq_zero e' he' hwhole
    · rw [List.mem_singleton.mp he', hoffset]
  · intro t' e' he'
    have hwhole := hk.whole t'
    dsimp only at he'
    by_cases hne : t' = t
    · subst hne
      rw [hself] at he'
      -- the packet is behind the first of its type, or is the first itself
      cases hl : ofType t' s.m_queue with
      | nil =>
        rw [hl] at he'
        cases he'
      | cons e₁ l =>
        rw [hl] at he' hwhole
        rcases List.mem_append.mp he' with he' | he'
        · exact hwhole e' he'
        · rw [List.mem_singleton.mp he']
          exact hfrag
    · rw [hother t' hne] at he'
      exact hwhole e' he'
  · dsimp only
    rw [hk.data]
    cases t with
    | HEADER_TYPE_GENERIC => rw [hself, List.length_append]; rfl
    | HEADER_TYPE_BANDWIDTH => rw [hother HEADER_TYPE_GENERIC (by decide)]; rfl
  · dsimp only
    rw [hk.requests]
    cases t with
    | HEADER_TYPE_GENERIC => rw [hother HEADER_TYPE_BANDWIDTH (by decide)]; rfl
    | HEADER_TYPE_BANDWIDTH => rw [hself, List.length_append]; rfl

/-- What comes in is the last of its type. -/
theorem Handled.enqueued (hh : Handled s h) (hq : s'.m_queue = s.m_queue ++ [e])
    (htype : e.m_hdrType = t) (hfrag : e.m_fragmentation = false) :
    Handled s' (h ++ [.enqueued t e.m_packet]) where
  received := by
    intro t'
    obtain ⟨packets, hfold, heq⟩ := hh.received t'
    have hout : [Event.enqueued t e.m_packet].filterMap (Event.dequeuedOf t') = [] := rfl
    rw [hq, List.filterMap_append, hout, List.append_nil, hfold]
    refine ⟨packets, ?_, ?_⟩
    · by_cases hne : e.m_hdrType = t'
      · rw [ofType_concat_self hne, begun_append hfrag]
      · rw [ofType_concat_of_ne hne]
    · by_cases hne : e.m_hdrType = t'
      · subst hne
        rw [ofType_concat_self rfl, List.filterMap_append, ← heq]
        simp [Event.enqueuedOf, htype]
      · rw [ofType_concat_of_ne hne]
        rw [htype] at hne
        simp [List.filterMap_append, Event.enqueuedOf, hne, heq]
  typed := by
    intro t' available pdu hmem
    exact hh.typed t' available pdu ((List.mem_append.mp hmem).resolve_right
      fun hmem => by cases List.mem_singleton.mp hmem)
  fits := by
    intro t' n pdu hmem
    exact hh.fits t' n pdu ((List.mem_append.mp hmem).resolve_right
      fun hmem => by cases List.mem_singleton.mp hmem)

/-- Enqueueing keeps the queue, the history and the sizes. -/
theorem Kept.enqueue (hk : Kept s) (hh : Handled s h) (packet : List UInt8) (t : HeaderType)
    (hdr : GenericMacHeader) :
    Kept (s.Enqueue packet t hdr).1 ∧
      Handled (s.Enqueue packet t hdr).1 (h ++ (s.Enqueue packet t hdr).2) ∧
      (s.SizeSound (.enqueue packet t hdr) → Counts s (s.Enqueue packet t hdr).1) := by
  unfold Enqueue
  by_cases hfull : s.m_queue.length = s.m_maxSize
  · rw [if_pos hfull]
    exact ⟨hk, hh.idle (.inr rfl), fun _ => Counts.refl s⟩
  rw [if_neg hfull]
  refine ⟨hk.concat rfl rfl rfl _,
    hh.enqueued (e := ⟨packet, t, hdr, false, 0, 0⟩) rfl rfl rfl, fun hsize hb hlt => ?_⟩
  have hroom := hsize.resolve_left hfull
  unfold BytesRight at hb ⊢
  simp only [List.map_append, List.sum_append, List.map_cons, List.map_nil, List.sum_cons,
    List.sum_nil]
  rw [Nat.mod_eq_of_lt hroom]
  exact ⟨by omega, hroom⟩

/-- The first of a type is taken out. -/
theorem Kept.remove (hk : Kept s) (hf : IsFirst t l₁ e) (hq : s.m_queue = l₁ ++ e :: l₂)
    (bytes : ℕ) :
    Kept { s with
      m_queue := l₁ ++ l₂
      m_nrDataPackets := s.m_nrDataPackets - if t = HEADER_TYPE_GENERIC then 1 else 0
      m_nrRequestPackets := s.m_nrRequestPackets - (1 - if t = HEADER_TYPE_GENERIC then 1 else 0)
      m_bytes := bytes } := by
  have hsub (e' : QueueElement) (he' : e' ∈ l₁ ++ l₂) : e' ∈ s.m_queue := by
    rw [hq]
    exact (List.mem_append.mp he').elim (List.mem_append_left _)
      fun h => List.mem_append_right l₁ (List.mem_cons_of_mem e h)
  have hself : ofType t s.m_queue = e :: ofType t (l₁ ++ l₂) := by
    rw [hq, hf.ofType_self]
  have hother (t' : HeaderType) (hne : t' ≠ t) : ofType t' s.m_queue = ofType t' (l₁ ++ l₂) := by
    rw [hq, hf.ofType_of_ne hne]
  refine ⟨fun e' he' => hk.offset_le e' (hsub e' he'),
    fun e' he' => hk.offset_eq_zero e' (hsub e' he'), ?_, ?_, ?_⟩
  · intro t' e' he'
    by_cases hne : t' = t
    · subst hne
      have hwhole := hk.whole t' e'
      rw [hself] at hwhole
      exact hwhole (List.mem_of_mem_tail he')
    · have hwhole := hk.whole t' e'
      rw [hother t' hne] at hwhole
      exact hwhole he'
  · dsimp only
    rw [hk.data]
    cases t with
    | HEADER_TYPE_GENERIC => rw [hself]; rfl
    | HEADER_TYPE_BANDWIDTH => rw [hother HEADER_TYPE_GENERIC (by decide)]; rfl
  · dsimp only
    rw [hk.requests]
    cases t with
    | HEADER_TYPE_GENERIC => rw [hother HEADER_TYPE_BANDWIDTH (by decide)]; rfl
    | HEADER_TYPE_BANDWIDTH => rw [hself]; rfl

/-- Dequeueing keeps the queue, the history and the sizes. -/
theorem Kept.dequeue (hk : Kept s) (hh : Handled s h) (hsound : s.Sound (.dequeue t)) :
    ∃ s' actions, s.Dequeue t = .ok (s', actions) ∧ Kept s' ∧ Handled s' (h ++ actions) ∧
      (s.SizeSound (.dequeue t) → Counts s s') := by
  by_cases hnil : s.m_queue = []
  · exact ⟨s, [.nothing], if_pos hnil, hk, hh.idle (.inl rfl), fun _ => Counts.refl s⟩
  have hpresent := hsound.resolve_left hnil
  have hcounted : s.IsEmpty t = false := hk.isEmpty_eq_false_iff.mpr hpresent
  obtain ⟨l₁, e, l₂, hq, hf⟩ := exists_isFirst hpresent
  have hmem : e ∈ s.m_queue := by simp [hq]
  have hoffset := hk.offset_le e hmem
  have hself : ofType t s.m_queue = e :: ofType t (l₁ ++ l₂) := by
    rw [hq, hf.ofType_self]
  have hother (t' : HeaderType) (hne : t' ≠ t) : ofType t' (l₁ ++ l₂) = ofType t' s.m_queue := by
    rw [hq, hf.ofType_of_ne hne]
  -- what comes behind the first of a type is whole
  have hrest : begun (ofType t (l₁ ++ l₂)) = none := by
    have hwhole := hk.whole t
    rw [hself, List.tail_cons] at hwhole
    cases hl : ofType t (l₁ ++ l₂) with
    | nil => rfl
    | cons e' l =>
      have he' := hwhole e' (by rw [hl]; exact List.mem_cons_self)
      simp [begun, he']
  have hoffset₁ := sum_offset_le fun e' (he' : e' ∈ l₁) => hk.offset_le e' (by simp [hq, he'])
  have hoffset₂ := sum_offset_le fun e' (he' : e' ∈ l₂) => hk.offset_le e' (by simp [hq, he'])
  have hbytes : BytesRight s ↔ s.m_bytes + ((l₁.map QueueElement.m_fragmentOffset).sum +
      (e.m_fragmentOffset + (l₂.map QueueElement.m_fragmentOffset).sum)) =
      (l₁.map QueueElement.GetSize).sum + (e.GetSize + (l₂.map QueueElement.GetSize).sum) := by
    unfold BytesRight
    rw [hq]
    simp only [List.map_append, List.sum_append, List.map_cons, List.sum_cons]
  have hsize : e.GetSize = e.m_packet.length + e.hdrSize := rfl
  unfold Dequeue
  rw [if_neg hnil, hf.front hq, hf.pop hq]
  dsimp only
  rw [hf.type_eq, hcounted, if_neg Bool.false_ne_true]
  by_cases hfrag : e.m_fragmentation = false
  -- a packet that was not in fragments goes as a whole
  · have hzero := hk.offset_eq_zero e hmem hfrag
    rw [if_pos hfrag]
    refine ⟨_, _, rfl, hk.remove hf hq _, hh.dequeued rfl hother nofun fun packets => ?_, ?_⟩
    · refine ⟨packets ++ [e.m_packet], ?_, by simp [hself]⟩
      dsimp only
      rw [hself, hrest]
      simp [receive, begun, hfrag]
    · intro _ hb hlt
      have hb' := hbytes.mp hb
      unfold BytesRight
      dsimp only
      rw [sub32_eq (by omega) hlt]
      simp only [List.map_append, List.sum_append]
      omega
  · have hfrag' : e.m_fragmentation = true := Bool.not_eq_false _ ▸ hfrag
    rw [if_neg hfrag]
    refine ⟨_, _, rfl, hk.remove hf hq _, hh.dequeued rfl hother nofun fun packets => ?_, ?_⟩
    · refine ⟨packets ++ [e.m_packet], ?_, by simp [hself]⟩
      dsimp only
      rw [hself, hrest]
      simp [receive, begun, hfrag']
    · intro hsound hb hlt
      have hb' := hbytes.mp hb
      -- it is a request: a data packet would leave its header
      have hhdr : e.hdrSize = 0 := by
        cases t with
        | HEADER_TYPE_GENERIC =>
          have hwhole : e.m_fragmentation = false := hsound e (by rw [hself]; simp)
          exact absurd hwhole hfrag
        | HEADER_TYPE_BANDWIDTH =>
          unfold QueueElement.hdrSize
          rw [hf.type_eq]
          rfl
      unfold BytesRight
      dsimp only
      rw [sub32_eq (by omega) hlt]
      simp only [List.map_append, List.sum_append]
      omega

/-- What is sent of the first of a type is more. -/
theorem Kept.replace (hk : Kept s) (hf : IsFirst t l₁ e) (hq : s.m_queue = l₁ ++ e :: l₂)
    {e' : QueueElement} (htype : e'.m_hdrType = t) (hfrag : e'.m_fragmentation = true)
    (hle : e'.m_fragmentOffset ≤ e'.m_packet.length) (bytes : ℕ) :
    Kept { s with m_queue := l₁ ++ e' :: l₂, m_bytes := bytes } := by
  have hf' : IsFirst t l₁ e' := ⟨htype, hf.not_before⟩
  have hmem (a : QueueElement) (ha : a ∈ l₁ ++ e' :: l₂) : a = e' ∨ a ∈ s.m_queue := by
    rw [hq]
    simp only [List.mem_append, List.mem_cons] at ha ⊢
    tauto
  -- the rest of each type is what it was
  have htail (t' : HeaderType) :
      (ofType t' (l₁ ++ e' :: l₂)).tail = (ofType t' s.m_queue).tail ∧
        (ofType t' (l₁ ++ e' :: l₂)).length = (ofType t' s.m_queue).length := by
    rw [hq]
    by_cases hne : t' = t
    · subst hne
      rw [hf.ofType_self, hf'.ofType_self]
      exact ⟨rfl, rfl⟩
    · rw [hf.ofType_of_ne hne, hf'.ofType_of_ne hne]
      exact ⟨rfl, rfl⟩
  refine ⟨?_, ?_, fun t' a ha => ?_, hk.data.trans (htail _).2.symm,
    hk.requests.trans (htail _).2.symm⟩
  · intro a ha
    rcases hmem a ha with rfl | ha
    · exact hle
    · exact hk.offset_le a ha
  · intro a ha hwhole
    rcases hmem a ha with rfl | ha
    · exact absurd (hfrag.symm.trans hwhole) (by decide)
    · exact hk.offset_eq_zero a ha hwhole
  · rw [(htail t').1] at ha
    exact hk.whole t' a ha

/-- Dequeueing a fragment keeps the queue, the history and the sizes. -/
theorem Kept.dequeueFragment (hk : Kept s) (hh : Handled s h) {scheduler : Scheduler}
    (hallowed : s.Allowed (.dequeueFragment scheduler t availableByte))
    (hsound : s.Sound (.dequeueFragment scheduler t availableByte)) :
    ∃ s' actions, s.DequeueFragment t availableByte = .ok (s', actions) ∧ Kept s' ∧
      Handled s' (h ++ actions) ∧ Counts s s' := by
  obtain ⟨hlt, hpresent, -⟩ := hallowed
  obtain ⟨hroom, hpayload⟩ := hsound
  obtain ⟨l₁, e, l₂, hq, hf⟩ := exists_isFirst (hk.isEmpty_eq_false_iff.mp hpresent)
  have hmem : e ∈ s.m_queue := by simp [hq]
  have hnil : ¬ s.m_queue = [] := List.ne_nil_of_mem hmem
  have hoffset := hk.offset_le e hmem
  have hzero := hk.offset_eq_zero e hmem
  have hhdr : e.hdrSize ≤ 6 := by
    unfold QueueElement.hdrSize
    split_ifs <;> omega
  have hsub : sub32 availableByte (2 + 6 + 0) = availableByte - 8 := sub32_eq hroom hlt
  -- no more than what is left
  have hleft : e.m_fragmentOffset + (availableByte - 8) ≤ e.m_packet.length := by
    unfold GetFirstPacketPayloadSize at hpayload
    rw [hf.front hq] at hpayload
    cases hfrag : e.m_fragmentation with
    | false =>
      rw [hfrag, if_neg Bool.false_ne_true] at hpayload
      rw [hzero hfrag]
      omega
    | true =>
      rw [hfrag, if_pos rfl] at hpayload
      omega
  have hoffset₁ := sum_offset_le fun e' (he' : e' ∈ l₁) => hk.offset_le e' (by simp [hq, he'])
  have hoffset₂ := sum_offset_le fun e' (he' : e' ∈ l₂) => hk.offset_le e' (by simp [hq, he'])
  unfold DequeueFragment
  rw [if_neg hnil, hf.front hq]
  dsimp only
  rw [hsub, if_neg (Nat.not_lt.mpr hleft)]
  generalize he' : QueueElement.mk e.m_packet e.m_hdrType e.m_hdr true (e.m_fragmentNumber + 1)
    (e.m_fragmentOffset + (availableByte - 8)) = e'
  have hset : setFirst t (fun element : QueueElement => { element with
      m_fragmentation := true
      m_fragmentNumber := element.m_fragmentNumber + 1
      m_fragmentOffset := element.m_fragmentOffset + (availableByte - 8) }) s.m_queue =
        l₁ ++ e' :: l₂ := by
    rw [hq, hf.setFirst, ← he']
  have htype : e'.m_hdrType = t := by rw [← he', ← hf.type_eq]
  have hf' : IsFirst t l₁ e' := ⟨htype, hf.not_before⟩
  rw [hset]
  refine ⟨_, _, rfl, hk.replace hf hq htype (by rw [← he']) (by rw [← he']; exact hleft) _,
    hh.dequeued hf.type_eq (fun t' hne => ?_) (fun n hn => ?_) fun packets =>
      ⟨packets, ?_, ?_⟩, fun hb hlt => ?_⟩
  · dsimp only
    rw [hq, hf.ofType_of_ne hne, hf'.ofType_of_ne hne]
  · cases hn
    simp only [List.length_take, List.length_drop]
    omega
  · dsimp only
    rw [hq, hf.ofType_self, hf'.ofType_self, ← he']
    -- a first fragment begins a packet, a middle one goes on with it
    cases hfrag : e.m_fragmentation with
    | false => simp [receive, begun, hfrag, hzero hfrag]
    | true => simp [receive, begun, hfrag, List.take_add]
  · dsimp only
    rw [hq, hf.ofType_self, hf'.ofType_self, ← he']
    rfl
  · have hsize : e'.GetSize = e.m_packet.length + e.hdrSize := by
      rw [← he']
      rfl
    have hoffset' : e'.m_fragmentOffset = e.m_fragmentOffset + (availableByte - 8) := by
      rw [← he']
    have hsize' : e.GetSize = e.m_packet.length + e.hdrSize := rfl
    unfold BytesRight at hb ⊢
    rw [hq] at hb
    simp only [List.map_append, List.sum_append, List.map_cons, List.sum_cons] at hb ⊢
    rw [sub32_eq (by omega) hlt]
    omega

/-! ### Runs -/

/-- Every allowed and sound call succeeds and keeps the queue. -/
theorem Kept.step (hk : Kept s) (hh : Handled s h) (call : Call) (hallowed : s.Allowed call)
    (hsound : s.Sound call) :
    ∃ s' actions, s.step call = .ok (s', actions) ∧ Kept s' ∧ Handled s' (h ++ actions) ∧
      (s.SizeSound call → Counts s s') := by
  -- only the count of bytes asks for more than `Sound`
  cases call with
  | enqueue packet hdrType hdr =>
    obtain ⟨hk', hh', hsize⟩ := hk.enqueue hh packet hdrType hdr
    exact ⟨_, _, rfl, hk', hh', hsize⟩
  | dequeue packetType => exact hk.dequeue hh hsound
  | dequeueFragment scheduler packetType availableByte =>
    obtain ⟨s', actions, hok, hk', hh', hsize⟩ := hk.dequeueFragment hh hallowed hsound
    exact ⟨s', actions, hok, hk', hh', fun _ => hsize⟩

/-- A queue without elements. -/
def empty (maxSize : ℕ) : WimaxMacQueue := ⟨[], maxSize, 0, 0, 0⟩

/-- The empty queue. -/
theorem kept_empty (maxSize : ℕ) : Kept (empty maxSize) :=
  ⟨nofun, nofun, fun _ => nofun, rfl, rfl⟩

/-- Nothing has happened to the empty queue. -/
theorem handled_empty (maxSize : ℕ) : Handled (empty maxSize) [] :=
  ⟨fun _ => ⟨[], rfl, rfl⟩, nofun, nofun⟩

/-- Calls made with `Sound` give out what came in, in order; those that are made with `SizeSound`,
too, keep the count of bytes. -/
theorem throughout_queueRight (maxSize : ℕ) (calls : List Call)
    (hmeets : TracedRun.Meets step (fun s _ call => s.Allowed call ∧ s.Sound call)
      (empty maxSize) [] calls) :
    TracedRun.Throughout step Handled (empty maxSize) [] calls ∧
      (TracedRun.Meets step (fun s _ call => s.Allowed call ∧ s.Sound call ∧ s.SizeSound call)
        (empty maxSize) [] calls →
      TracedRun.Throughout step QueueRight (empty maxSize) [] calls) := by
  refine ⟨?_, fun hsize => ?_⟩
  -- the packets, whatever the count of bytes is
  · refine TracedRun.throughout_of_meets (J := fun s h => Kept s ∧ Handled s h)
      (fun s h call hJ hP => ?_) (fun _ _ hJ => hJ.2) ⟨kept_empty maxSize, handled_empty maxSize⟩
      hmeets
    obtain ⟨s', actions, hok, hk', hh', -⟩ := hJ.1.step hJ.2 call hP.1 hP.2
    exact ⟨s', actions, hok, hk', hh'⟩
  · refine TracedRun.throughout_of_meets
      (J := fun s h => Kept s ∧ QueueRight s h ∧ s.m_bytes < 2 ^ 32)
      (fun s h call hJ hP => ?_) (fun _ _ hJ => hJ.2.1)
      ⟨kept_empty maxSize, ⟨handled_empty maxSize, rfl⟩, Nat.two_pow_pos 32⟩ hsize
    obtain ⟨hk, ⟨hh, hb⟩, hlt⟩ := hJ
    obtain ⟨s', actions, hok, hk', hh', hcounts⟩ := hk.step hh call hP.1 hP.2.1
    obtain ⟨hb', hlt'⟩ := hcounts hP.2.2 hb hlt
    exact ⟨s', actions, hok, hk', ⟨hh', hb'⟩, hlt'⟩

/-- A subscriber's queue with a data packet of 20 bytes and a request. -/
def twoPackets : List Call :=
  [.enqueue (List.replicate 20 7) HEADER_TYPE_GENERIC ⟨0, 26⟩,
    .enqueue (List.replicate 6 1) HEADER_TYPE_BANDWIDTH ⟨0, 0⟩,
    .dequeueFragment .SS HEADER_TYPE_GENERIC 15, .dequeueFragment .SS HEADER_TYPE_GENERIC 12,
    .dequeue HEADER_TYPE_BANDWIDTH]

/-- Two packets, the first sent in fragments. -/
theorem throughout_queueRight_twoPackets :
    TracedRun.Throughout step Handled (empty 1024) [] twoPackets ∧
      TracedRun.Throughout step QueueRight (empty 1024) [] twoPackets :=
  (throughout_queueRight 1024 twoPackets (by decide +kernel)).imp_right
    fun h => h (by decide +kernel)

/-- After the last fragment the header of 6 bytes is still counted in the empty queue. -/
theorem not_throughout_queueRight :
    ¬ ∀ calls : List Call, TracedRun.Meets step (fun s _ call => s.Allowed call) (empty 1024) []
      calls → TracedRun.Throughout step QueueRight (empty 1024) [] calls := by
  intro h
  have hright := h [.enqueue (List.replicate 20 7) HEADER_TYPE_GENERIC ⟨0, 26⟩,
    .dequeueFragment .SS HEADER_TYPE_GENERIC 15, .dequeue HEADER_TYPE_GENERIC] (by decide +kernel)
  obtain ⟨s', actions, hrun, hqueue⟩ := hright.exists_run (by decide)
  have hcounted : (TracedRun.run step (empty 1024)
      [.enqueue (List.replicate 20 7) HEADER_TYPE_GENERIC ⟨0, 26⟩,
        .dequeueFragment .SS HEADER_TYPE_GENERIC 15, .dequeue HEADER_TYPE_GENERIC]).map
      (fun r => (r.1.m_bytes, r.1.m_queue)) = .ok (6, []) := by decide +kernel
  rw [hrun] at hcounted
  obtain ⟨hbytes, hempty⟩ := Prod.mk.inj (Except.ok.inj hcounted)
  have hb := hqueue.2
  unfold BytesRight at hb
  rw [hbytes, hempty] at hb
  exact absurd hb (by decide)

end WimaxMacQueue
end Ns3Joined.Wimax
