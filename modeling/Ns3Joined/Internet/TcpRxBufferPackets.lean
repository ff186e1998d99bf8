import Ns3Joined.Internet.TcpRxBufferContents

/-!
# The receive buffer of TCP with packets as they are kept

`Extract` puts packets together with `Packet::AddAtEnd`, which matters if some of their bytes are in
the zero areas of their buffers. The packets are lists of `Octet`s here.

* `Arrival`, `stepPackets`: the calls, with segments whose bytes are kept anywhere.
* `Readable`: no packet that is held when `Extract` is called begins with a zero area that has bytes
  behind it.
* `step_values`: such a call does with the packets what it does with the values that are meant.
* `receives`: **in every run whose calls are so, what is extracted put together is the beginning
  of the stream.**
* `not_receives_behind_zeros`: otherwise it need not be.
-/

namespace Ns3Joined.Internet.TcpRxBuffer

open SequenceNumber ExceptFold Refinement

/-- A call, with the packet of a segment that starts at a place in the stream. -/
inductive Arrival
  | add (start : ℕ) (p : Segment)
  | extract (maxSize : UInt32)
  | setFinSequence
  | finished
  | maxRxSequence
deriving DecidableEq

/-- What the call is if only places count. -/
def Arrival.call : Arrival → Call
  | add start p => .add start p.bytes.length
  | extract maxSize => .extract maxSize
  | setFinSequence => .setFinSequence
  | finished => .finished
  | maxRxSequence => .maxRxSequence

/-- The bytes of the packet are those of the stream. -/
def Arrival.IsOf (stream : List UInt8) : Arrival → Prop
  | add start p => (stream.drop start).take p.bytes.length = p.bytes
  | extract _ | setFinSequence | finished | maxRxSequence => True

instance (stream : List UInt8) : (arrival : Arrival) → Decidable (arrival.IsOf stream)
  | .add _ _ => inferInstanceAs (Decidable (_ = _))
  | .extract _ | .setFinSequence | .finished | .maxRxSequence => .isTrue trivial

section Stream

variable (stream : List UInt8) (isn : SequenceNumber32) (maxBuffer : UInt32)

/-- One call. A packet that is extracted is answered with the values that are read from it. -/
def stepPackets (b : TcpRxBuffer Octet) : Arrival → Except Fault (TcpRxBuffer Octet × Answer)
  | .add start p => do
    let (b, added) ← b.Add p.octets (seq isn start)
    .ok (b, .flag added)
  | .extract maxSize => do
    let (b, p) ← b.Extract maxSize
    .ok (b, .packet (p.map (·.map Octet.value)))
  | .setFinSequence => .ok (b.SetFinSequence (seq isn stream.length), .done)
  | .finished => .ok (b, .flag b.Finished)
  | .maxRxSequence => .ok (b, .number b.MaxRxSequence)

/-- A receiver is to do the same wherever the bytes are kept. -/
def arriving : Spec Received Arrival Answer where
  Allowed := fun t arrival =>
    (received stream isn maxBuffer).Allowed t arrival.call ∧ arrival.IsOf stream
  next := fun t arrival => (received stream isn maxBuffer).next t arrival.call
  answer := fun t arrival => (received stream isn maxBuffer).answer t arrival.call

instance (t : Received) (arrival : Arrival) :
    Decidable ((arriving stream isn maxBuffer).Allowed t arrival) :=
  have := decidableAllowed stream isn maxBuffer t arrival.call
  inferInstanceAs (Decidable (_ ∧ _))

end Stream

/-- What a call has to meet: when `Extract` is called, no packet that is held begins with a zero
area that has bytes behind it. -/
def Readable (b : TcpRxBuffer Octet) : Arrival → Prop
  | .extract _ => ∀ i ∈ b.m_data, Octet.Even i.2
  | .add _ _ | .setFinSequence | .finished | .maxRxSequence => True

instance (b : TcpRxBuffer Octet) : (arrival : Arrival) → Decidable (b.Readable arrival)
  | .extract _ => inferInstanceAs (Decidable (∀ i ∈ b.m_data, Octet.Even i.2))
  | .add _ _ | .setFinSequence | .finished | .maxRxSequence => .isTrue trivial

/-- The buffer with the values that are read. -/
def values (b : TcpRxBuffer Octet) : TcpRxBuffer := b.mapBytes Octet.value

variable {stream : List UInt8} {isn : SequenceNumber32} {maxBuffer : UInt32}
  {b : TcpRxBuffer Octet} {t : Received} {arrival : Arrival}

/-- A readable buffer's segments commute with taking the values. -/
theorem commutes_of_readable {maxSize : UInt32} (h : b.Readable (.extract maxSize)) :
    Commutes Octet.value b.m_data :=
  fun i hi n out => Octet.value_AddAtEnd out ((h i hi).take n)

/-- `MaxRxSequence` does not look at the octets. -/
theorem MaxRxSequence_values (b : TcpRxBuffer Octet) :
    b.values.MaxRxSequence = b.MaxRxSequence := by
  unfold MaxRxSequence values mapBytes
  cases b.m_data <;> rfl

/-- **A call** does the same to the packets and to the values that are meant. -/
theorem step_values (hof : arrival.IsOf stream) (hreadable : b.Readable arrival) :
    step stream isn b.values arrival.call =
      (stepPackets stream isn b arrival).map fun r => (r.1.values, r.2) := by
  cases arrival with
  | add start p =>
    have hbytes : (stream.drop start).take p.bytes.length = p.octets.map Octet.value :=
      Eq.trans hof p.value_octets.symm
    rw [Arrival.call, step, hbytes, values, Add_map, stepPackets]
    cases b.Add p.octets (seq isn start) <;> rfl
  | extract maxSize =>
    rw [Arrival.call, step, values, Extract_map maxSize (commutes_of_readable hreadable),
      stepPackets]
    cases b.Extract maxSize <;> rfl
  | setFinSequence => rfl
  | finished => rfl
  | maxRxSequence =>
    rw [Arrival.call, step, MaxRxSequence_values]
    rfl

/-- One call on packets simulates one call on the stream, where the packets are readable. -/
theorem stepPackets_refines (h : Represents stream isn maxBuffer b.values t)
    (hallowed : (arriving stream isn maxBuffer).Allowed t arrival)
    (hreadable : b.Readable arrival) :
    StepRefines (stepPackets stream isn) (arriving stream isn maxBuffer)
      (fun b t => Represents stream isn maxBuffer b.values t) b t arrival := by
  obtain ⟨s, hok, hs⟩ := step_refines arrival.call h hallowed.1
  rw [step_values hallowed.2 hreadable] at hok
  obtain ⟨⟨b', answer⟩, hstep, heq⟩ := map_eq_ok_iff.mp hok
  cases heq
  exact ⟨b', hstep, hs⟩

/-- The answers for packets are those for their octets. -/
theorem answers_arriving (t : Received) (calls : List Arrival) :
    (arriving stream isn maxBuffer).answers t calls =
      (received stream isn maxBuffer).answers t (calls.map Arrival.call) := by
  induction calls generalizing t with
  | nil => rfl
  | cons call calls ih => exact congrArg (_ :: ·) (ih _)

/-- In every run with segments of a stream, whatever their order and overlaps, in which packets can
be put together when they are extracted, the buffer keeps to what was received, and what the
application gets is what the stream starts with. -/
theorem receives (stream : List UInt8) (isn : SequenceNumber32) (maxBuffer : UInt32)
    (calls : List Arrival)
    (hreadable : Before (stepPackets stream isn) (arriving stream isn maxBuffer)
      (fun b _ arrival => b.Readable arrival) (new isn maxBuffer) ⟨∅, 0, false⟩ calls) :
    Refines (stepPackets stream isn) (arriving stream isn maxBuffer)
      (fun b t => Represents stream isn maxBuffer b.values t) (new isn maxBuffer) ⟨∅, 0, false⟩
      calls ∧
    ((arriving stream isn maxBuffer).AllAllowed ⟨∅, 0, false⟩ calls →
      ∃ answers, Refinement.answers (stepPackets stream isn) (new isn maxBuffer) calls =
        .ok answers ∧ extracted answers <+: stream) := by
  have hrefines := refines_of_before (R := fun b t => Represents stream isn maxBuffer b.values t)
    (fun b t call h hallowed hcall => stepPackets_refines h hallowed hcall)
    (represents_new stream isn maxBuffer) hreadable
  refine ⟨hrefines, fun hall => ⟨_, hrefines.answers hall, ?_⟩⟩
  obtain ⟨n, hn⟩ := extracted_eq stream isn maxBuffer (calls.map Arrival.call)
    (t := ⟨∅, 0, false⟩) (Nat.zero_le _)
  rw [answers_arriving, hn]
  exact List.take_prefix n stream

/-- Segments that arrive in the wrong order and overlap, one of them with zeros that are in its zero
area, and sequence numbers that wrap. -/
theorem receives_overlaps : ∃ answers,
    Refinement.answers (stepPackets [1, 0, 0, 4, 5] 0xfffffffe) (new 0xfffffffe 100)
        [.add 3 ⟨[4, 5], 0, []⟩, .add 0 ⟨[1, 0], 0, []⟩, .add 1 ⟨[], 2, []⟩, .extract 10] =
      .ok answers ∧ extracted answers <+: [1, 0, 0, 4, 5] := by
  refine (receives [1, 0, 0, 4, 5] 0xfffffffe 100
    [.add 3 ⟨[4, 5], 0, []⟩, .add 0 ⟨[1, 0], 0, []⟩, .add 1 ⟨[], 2, []⟩, .extract 10]
    fun _ => ⟨trivial, fun b answer hok => ?_⟩).2 (by decide +kernel)
  have hadd : (new 0xfffffffe 100 : TcpRxBuffer Octet).Add [.written 4, .written 5]
      (seq 0xfffffffe 3) = .ok (⟨0xfffffffe, 0, false, 2, 100, 0,
        [(1, [.written 4, .written 5])], [(1, 3)]⟩, true) := by
    simp [Add, new, fitWindow, trim, contains, assign, advance, UpdateSackList, mergeBlocks, seq,
      GetSize, ge, gt, lt, bind, Except.bind, halfMaxValue]
  obtain ⟨⟨b', added⟩, hok', heq⟩ := bind_eq_ok_iff.mp hok
  obtain ⟨rfl, rfl⟩ := Prod.mk.inj (Except.ok.inj (hok'.symm.trans hadd))
  cases heq
  decide +kernel

/-- A segment with a zero area and two bytes behind it, and it alone is extracted. -/
theorem not_receives_behind_zeros :
    (arriving [0, 1, 2] 0 100).AllAllowed ⟨∅, 0, false⟩
      [.add 0 ⟨[], 1, [1, 2]⟩, .extract 3] ∧
    ¬ ∃ answers, Refinement.answers (stepPackets [0, 1, 2] 0) (new 0 100)
        [.add 0 ⟨[], 1, [1, 2]⟩, .extract 3] = .ok answers ∧
      extracted answers <+: [0, 1, 2] := by
  refine ⟨by decide +kernel, ?_⟩
  rintro ⟨answers, hok, hprefix⟩
  have hanswers : Refinement.answers (stepPackets [0, 1, 2] 0) (new 0 100)
      [.add 0 ⟨[], 1, [1, 2]⟩, .extract 3] = .ok [.flag true, .packet (some [0, 0, 1])] := by
    decide +kernel
  rw [hanswers] at hok
  cases hok
  exact absurd hprefix (by decide)

end Ns3Joined.Internet.TcpRxBuffer
