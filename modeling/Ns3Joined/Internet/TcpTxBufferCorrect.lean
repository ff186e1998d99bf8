import Ns3Joined.Internet.TcpTxBufferKeeps
import Ns3Joined.Library.TracedRun

/-!
# The transmit buffer over whole runs

* `Fits`: what a call has to meet, for the state before it.
* `Mergeable`: what a packet from the application has to meet, for those before it.
* `throughout_consistent`: in a run whose calls all fit, no assertion fails, and the counts and the
  list say the same after every call.
* `throughout_copiesRight`: in such a run every copy has the bytes of the application from its place
  on.

`Fits` leaves out the calls that reach one of the following. Bytes of segments that are marked
differently are merged, or a request that wraps is given no segment. A segment that was
retransmitted or marked goes back to the unsent ones with its marks. A segment that is lost is
sacked by a guess. A block covers the first segment.

`Mergeable` leaves out the packets for which `MergeItems` would have to do more than append: bytes
behind a zero area go to the wrong place in memory, and an assertion of `Iterator::Write` fails for
packets that are in one block, such as one that is sent twice. The theorems that say something of
the bytes, or of all assertions, ask for it; the counts and marks are the same without it.
-/

namespace Ns3Joined.Internet.TcpTxBuffer

open SequenceNumber Tiles TcpTxItem
open List hiding length

variable {b b' : TcpTxBuffer} {call : Call} {h h' : List Event}

/-- What a call has to meet. -/
def Fits (b : TcpTxBuffer) : Call → Prop
  | .Add p _ => GetSize p.bytes ≤ b.Available → b.contents.length + p.bytes.length < 2 ^ 31
  | .CopyFromSequence _ numBytes s =>
    (s - b.m_firstByteSeq).toNat ≤ total length b.m_sentList ∧
      b.Sendable numBytes.toNat (s - b.m_firstByteSeq).toNat
  | .Update list => Updatable b.m_firstByteSeq (b.m_firstByteSeq + b.m_sentSize) false
      b.m_highestSack.1.isSome b.m_sentList list
  | .AddRenoSack => RenoSackable b.m_sentList
  | .ResetLastSegmentSent =>
    (b.m_sentList.getLast?.all fun x => !x.m_sacked && !x.m_lost && !x.m_retrans) = true
  | .DiscardUpTo _ s => Discardable (b.acknowledged s) b.m_sentList
  | .ResetRenoSack | .MarkHeadAsLost | .SetSentListLost _ | .DeleteRetransmittedFlagFromHead
  | .ResetSentList => True

instance (b : TcpTxBuffer) (call : Call) : Decidable (b.Fits call) :=
  match call with
  | .Add _ _ => inferInstanceAs (Decidable (_ → _))
  | .CopyFromSequence _ _ _ => inferInstanceAs (Decidable (_ ∧ _))
  | .Update list => decidableUpdatable _ _ _ _ _ list
  | .AddRenoSack => inferInstanceAs (Decidable (RenoSackable _))
  | .ResetLastSegmentSent => inferInstanceAs (Decidable (_ = _))
  | .DiscardUpTo _ _ => inferInstanceAs (Decidable (Discardable _ _))
  | .ResetRenoSack | .MarkHeadAsLost | .SetSentListLost _ | .DeleteRetransmittedFlagFromHead
  | .ResetSentList => .isTrue trivial

/-- The block that a packet from the application is in. -/
def Event.block : Event → Option ℕ
  | .accepted _ block => some block
  | .copied _ _ _ | .acknowledged _ => none

/-- What a packet from the application has to meet: it has no bytes behind its zero area, and is in
another block than those that were accepted before. -/
def Mergeable (h : List Event) : Call → Prop
  | .Add p block => (p.zeroSize = 0 ∨ p.rest = []) ∧ some block ∉ h.map Event.block
  | .CopyFromSequence _ _ _ | .Update _ | .AddRenoSack | .ResetRenoSack | .MarkHeadAsLost
  | .SetSentListLost _ | .DeleteRetransmittedFlagFromHead | .ResetLastSegmentSent
  | .ResetSentList | .DiscardUpTo _ _ => True

instance (h : List Event) (call : Call) : Decidable (Mergeable h call) :=
  match call with
  | .Add _ _ => inferInstanceAs (Decidable (_ ∧ _))
  | .CopyFromSequence _ _ _ | .Update _ | .AddRenoSack | .ResetRenoSack | .MarkHeadAsLost
  | .SetSentListLost _ | .DeleteRetransmittedFlagFromHead | .ResetLastSegmentSent
  | .ResetSentList | .DiscardUpTo _ _ => .isTrue trivial

/-! ### Bytes -/

/-- All bytes of the application. -/
def stream (h : List Event) : List UInt8 :=
  h.flatMap fun
    | .accepted p _ => p
    | _ => []

/-- The number of bytes that were acknowledged. -/
def gone (h : List Event) : ℕ :=
  total (fun
    | .acknowledged n => n
    | _ => 0) h

/-- Every copy was one of the bytes that were held then. -/
def CopiesRight (h : List Event) : Prop :=
  ∀ h₁ numBytes k p h₂, h = h₁ ++ .copied numBytes k p :: h₂ →
    CopyOf ((stream h₁).drop (gone h₁)) numBytes k p

/-- One more event keeps the copies right where it is right itself. -/
theorem copiesRight_append {event : Event} (h : CopiesRight h')
    (hevent : ∀ numBytes k p, event = .copied numBytes k p →
      CopyOf ((stream h').drop (gone h')) numBytes k p) : CopiesRight (h' ++ [event]) := by
  intro h₁ numBytes k p h₂ heq
  obtain rfl | ⟨h₂', last, rfl⟩ := eq_nil_or_concat h₂
  · obtain ⟨rfl, hlast⟩ := append_inj' heq rfl
    exact hevent numBytes k p (List.cons.inj hlast).1
  · rw [concat_eq_append, ← cons_append, ← append_assoc] at heq
    obtain ⟨rfl, -⟩ := append_inj' heq rfl
    exact h h₁ numBytes k p h₂' rfl

/-- What the history says of the state. -/
structure Holds (b : TcpTxBuffer) (h : List Event) : Prop extends Inv b where
  held : b.contents = (stream h).drop (gone h)
  le : gone h ≤ (stream h).length
  copies : CopiesRight h

/-- The stream of a longer history. -/
theorem stream_append (h h' : List Event) : stream (h ++ h') = stream h ++ stream h' :=
  flatMap_append

/-- The bytes acknowledged by a longer history. -/
theorem gone_append (h h' : List Event) : gone (h ++ h') = gone h + gone h' := total_append

/-- A call that changes no byte keeps the history's stream. -/
theorem Holds.same (hs : Holds b h) (hinv : Inv b') (hcontents : b'.contents = b.contents) :
    Holds b' (h ++ []) := by
  rw [append_nil]
  exact ⟨hinv, hcontents.trans hs.held, hs.le, hs.copies⟩

variable {p : List UInt8}

/-- `Add` appends the packet's bytes to the stream. -/
theorem Holds.add (hs : Holds b h) (block : ℕ)
    (hfits : GetSize p ≤ b.Available → b.contents.length + p.length < 2 ^ 31) :
    Holds (b.Add p).1 (h ++ if (b.Add p).2 then [.accepted p block] else []) := by
  obtain ⟨hinv, -, hcontents⟩ := hs.toInv.add hfits
  cases haccepted : (b.Add p).2 with
  | false =>
    rw [haccepted] at hcontents
    exact hs.same hinv hcontents
  | true =>
    rw [haccepted, if_pos rfl] at hcontents
    have hstream : stream (h ++ [.accepted p block]) = stream h ++ p := by
      rw [stream_append]
      exact congrArg (stream h ++ ·) (append_nil p)
    have hgone : gone (h ++ [.accepted p block]) = gone h := by
      rw [gone_append]
      rfl
    refine ⟨hinv, ?_, ?_, copiesRight_append hs.copies fun _ _ _ heq => by cases heq⟩
    · rw [if_pos rfl, hcontents, hs.held, hstream, hgone, drop_append_of_le_length hs.le]
    · rw [if_pos rfl, hstream, hgone, length_append]
      exact hs.le.trans (Nat.le_add_right _ _)

/-- Copying out changes no byte and hands out the right ones. -/
theorem Holds.copied (hs : Holds b h) {numBytes k : ℕ} (hcopied : Copied b numBytes k b' p) :
    Holds b' (h ++ [.copied numBytes k p]) := by
  have hstream : stream (h ++ [.copied numBytes k p]) = stream h := by
    rw [stream_append]
    exact append_nil _
  have hgone : gone (h ++ [.copied numBytes k p]) = gone h := by
    rw [gone_append]
    rfl
  refine ⟨hcopied.inv, ?_, ?_, copiesRight_append hs.copies fun _ _ _ heq => ?_⟩
  · rw [hcopied.contents, hs.held, hstream, hgone]
  · rw [hstream, hgone]
    exact hs.le
  · cases heq
    rw [← hs.held]
    exact hcopied.copy

/-- The size field is the number of bytes held, without wrap-around. -/
theorem Inv.toNat_size (hb : Inv b) : b.m_size.toNat = b.contents.length := by
  have hbound := hb.bound
  rw [hb.size, toNat_ofNat_of_lt hbound, length_contents]

/-- An acknowledgement drops the bytes it reports. -/
theorem Holds.acknowledged (hs : Holds b h) (hinv : Inv b') {n : ℕ}
    (hcontents : b'.contents = b.contents.drop n) :
    Holds b' (h ++ [.acknowledged (b.m_size - b'.m_size).toNat]) := by
  have hle : b'.contents.length ≤ b.contents.length := by
    rw [hcontents, length_drop]
    exact Nat.sub_le _ _
  have hn : (b.m_size - b'.m_size).toNat = min n b.contents.length := by
    rw [UInt32.toNat_sub_of_le _ _ (UInt32.le_iff_toNat_le.mpr (by
      rw [hinv.toNat_size, hs.toInv.toNat_size]
      exact hle)), hinv.toNat_size, hs.toInv.toNat_size, hcontents, length_drop]
    omega
  have hheld := congrArg List.length hs.held
  rw [length_drop] at hheld
  have hstream : stream (h ++ [.acknowledged (b.m_size - b'.m_size).toNat]) = stream h := by
    rw [stream_append]
    exact append_nil _
  have hgone : gone (h ++ [.acknowledged (b.m_size - b'.m_size).toNat]) =
      gone h + min n b.contents.length := by
    rw [gone_append, hn]
    rfl
  have hle' := hs.le
  refine ⟨hinv, ?_, ?_, copiesRight_append hs.copies fun _ _ _ heq => by cases heq⟩
  · rw [hstream, hgone, ← drop_drop, ← hs.held, hcontents]
    by_cases hshort : n ≤ b.contents.length
    · rw [Nat.min_eq_left hshort]
    · rw [Nat.min_eq_right (Nat.le_of_not_le hshort), drop_length,
        drop_eq_nil_of_le (Nat.le_of_not_le hshort)]
  · rw [hstream, hgone]
    omega

/-! ### Runs -/

/-- **One call.** -/
theorem Holds.step (hs : Holds b h) (hfits : b.Fits call) :
    ∃ b' events, b.step call = .ok (b', events) ∧ Holds b' (h ++ events) := by
  cases call with
  | Add p block => exact ⟨_, _, rfl, hs.add block hfits⟩
  | CopyFromSequence now numBytes s =>
    obtain ⟨b', p, hok, hcopied⟩ := hs.toInv.copyFromSequence now numBytes hfits.1 hfits.2
    rw [seq_toNat_sub] at hok
    exact ⟨b', _, congrArg (Except.map _) hok, hs.copied hcopied⟩
  | Update list =>
    obtain ⟨b', modified, hok, hinv, hsame⟩ := hs.toInv.update hfits
    exact ⟨b', _, congrArg (Except.map _) hok, hs.same hinv hsame.contents⟩
  | AddRenoSack =>
    obtain ⟨b', hok, hinv, hsame⟩ := hs.toInv.addRenoSack hfits
    exact ⟨b', _, congrArg (Except.map _) hok, hs.same hinv hsame.contents⟩
  | ResetRenoSack =>
    obtain ⟨hinv, hsame⟩ := hs.toInv.resetRenoSack
    exact ⟨_, _, rfl, hs.same hinv hsame.contents⟩
  | MarkHeadAsLost =>
    obtain ⟨hinv, hsame⟩ := hs.toInv.markHeadAsLost
    exact ⟨_, _, rfl, hs.same hinv hsame.contents⟩
  | SetSentListLost resetSack =>
    obtain ⟨b', hok, hinv, hsame⟩ := hs.toInv.setSentListLost resetSack
    exact ⟨b', _, congrArg (Except.map _) hok, hs.same hinv hsame.contents⟩
  | DeleteRetransmittedFlagFromHead =>
    obtain ⟨b', hok, hinv, hsame⟩ := hs.toInv.deleteRetransmittedFlagFromHead
    exact ⟨b', _, congrArg (Except.map _) hok, hs.same hinv hsame.contents⟩
  | ResetLastSegmentSent =>
    have hlast : ∀ x ∈ b.m_sentList.getLast?,
        x.m_sacked = false ∧ x.m_lost = false ∧ x.m_retrans = false := by
      intro x hx
      have hall : (b.m_sentList.getLast?.all fun x =>
          !x.m_sacked && !x.m_lost && !x.m_retrans) = true := hfits
      rw [show b.m_sentList.getLast? = some x from hx] at hall
      simpa [and_assoc] using hall
    obtain ⟨hinv, hcontents, -⟩ := hs.toInv.resetLastSegmentSent hlast
    exact ⟨_, _, rfl, hs.same hinv hcontents⟩
  | ResetSentList =>
    obtain ⟨hinv, hcontents, -⟩ := hs.toInv.resetSentList
    exact ⟨_, _, rfl, hs.same hinv hcontents⟩
  | DiscardUpTo now s =>
    obtain ⟨b', hok, hinv, hcontents⟩ := hs.toInv.discardUpTo now hfits
    exact ⟨b', _, congrArg (Except.map _) hok, hs.acknowledged hinv hcontents⟩

/-- A new buffer holds an empty stream. -/
theorem holds_new (n : SequenceNumber32) (maxBuffer dupAckThresh : UInt32) :
    Holds (new n maxBuffer dupAckThresh) [] where
  contiguous := trivial
  sentSize := rfl
  size := rfl
  bound := Nat.two_pow_pos 31
  sentPos := fun x hx => absurd hx not_mem_nil
  appPos := fun x hx => absurd hx not_mem_nil
  clean := fun x hx => absurd hx not_mem_nil
  sackedOut := rfl
  lostOut := rfl
  retrans := rfl
  disjoint := fun x hx => absurd hx not_mem_nil
  head := fun x hx => by cases hx
  highest := fun node hnode => by cases hnode
  held := rfl
  le := le_rfl
  copies := fun h₁ numBytes k p h₂ heq => absurd heq (append_ne_nil_of_right_ne_nil _
    (cons_ne_nil _ _)).symm

variable (n : SequenceNumber32) (maxBuffer dupAckThresh : UInt32) (calls : List Call)

/-- Every run of fitting calls keeps the stream. -/
theorem throughout_holds
    (hfits : TracedRun.Meets step (fun b _ call => b.Fits call) (new n maxBuffer dupAckThresh) []
      calls) :
    TracedRun.Throughout step Holds (new n maxBuffer dupAckThresh) [] calls :=
  TracedRun.throughout_of_meets (P := fun b _ call => b.Fits call) (J := Holds)
    (fun _ _ _ hs hcall => hs.step hcall) (fun _ _ hs => hs)
    (holds_new n maxBuffer dupAckThresh) hfits

/-- The counts and the list say the same. -/
structure Consistent (b : TcpTxBuffer) : Prop where
  sackedOut : b.m_sackedOut.toNat = total (weight TcpTxItem.m_sacked) b.m_sentList
  lostOut : b.m_lostOut.toNat = total (weight TcpTxItem.m_lost) b.m_sentList
  retrans : b.m_retrans.toNat = total (weight TcpTxItem.m_retrans) b.m_sentList
  sentSize : b.m_sentSize.toNat = total length b.m_sentList
  size : b.m_size.toNat = total length b.m_sentList + total length b.m_appList
  disjoint : ∀ x ∈ b.m_sentList, ¬ (x.m_sacked = true ∧ x.m_lost = true)
  sum : b.m_sackedOut.toNat + b.m_lostOut.toNat ≤ b.m_sentSize.toNat
  contiguous : Contiguous b.m_firstByteSeq b.m_sentList

/-- The invariant has the fields agree as the claim wants it. -/
theorem Inv.consistent (hb : Inv b) : Consistent b := by
  have hbound := hb.bound
  have hcount : ∀ flag, (UInt32.ofNat (total (weight flag) b.m_sentList)).toNat =
      total (weight flag) b.m_sentList := fun flag =>
    toNat_ofNat_of_lt (by have := weight_le flag b.m_sentList; omega)
  have hsackedOut : b.m_sackedOut.toNat = total (weight TcpTxItem.m_sacked) b.m_sentList := by
    rw [hb.sackedOut, hcount]
  have hlostOut : b.m_lostOut.toNat = total (weight TcpTxItem.m_lost) b.m_sentList := by
    rw [hb.lostOut, hcount]
  have hsentSize : b.m_sentSize.toNat = total length b.m_sentList := by
    rw [hb.sentSize, toNat_ofNat_of_lt (by omega)]
  refine ⟨hsackedOut, hlostOut, ?_, hsentSize, ?_, fun x hx hboth => ?_, ?_, hb.contiguous⟩
  · rw [hb.retrans, hcount]
  · rw [hb.size, toNat_ofNat_of_lt hbound]
  · exact Bool.false_ne_true ((hb.disjoint x hx hboth.1).symm.trans hboth.2)
  · have hsum := UInt32.le_iff_toNat_le.mp (hb.toCounted.sacked_add_lost hb.disjoint)
    rw [UInt32.toNat_add, Nat.mod_eq_of_lt] at hsum
    · exact hsum
    · have hle := weight_le TcpTxItem.m_sacked b.m_sentList
      have hle' := weight_le TcpTxItem.m_lost b.m_sentList
      omega

/-- **The counts**, throughout a run whose calls fit and whose packets can be merged; no call
fails. -/
theorem throughout_consistent
    (hfits : TracedRun.Meets step (fun b h call => b.Fits call ∧ Mergeable h call)
      (new n maxBuffer dupAckThresh) [] calls) :
    TracedRun.Throughout step (fun b _ => Consistent b) (new n maxBuffer dupAckThresh) [] calls :=
  (throughout_holds n maxBuffer dupAckThresh calls (hfits.mono fun _ _ _ => And.left)).mono
    fun _ _ hs => hs.toInv.consistent

/-- A segment before a sequence number wraps and one after it, of which the second is sacked, the
first is sent again after a timeout, and both are then acknowledged. -/
theorem throughout_consistent_wrapping :
    TracedRun.Throughout step (fun b _ => Consistent b) (new 0xFFFFFFF8 1000 3) []
      [.Add ⟨List.replicate 10 7, 0, []⟩ 0, .CopyFromSequence 1 4 0xFFFFFFF8,
        .CopyFromSequence 2 6 0xFFFFFFFC, .Update [(0xFFFFFFFC, 2)], .SetSentListLost false,
        .CopyFromSequence 3 4 0xFFFFFFF8, .DiscardUpTo 4 2] :=
  throughout_consistent _ _ _ _ (by decide +kernel)

/-- A segment that goes back to the unsent ones after a timeout is counted as lost. -/
theorem lostOut_resetLastSegmentSent :
    ¬ TracedRun.Throughout step (fun b _ => Consistent b) (new 100 1000 3) []
      [.Add ⟨List.replicate 10 7, 0, []⟩ 0, .CopyFromSequence 1 10 100, .SetSentListLost true,
        .ResetLastSegmentSent] := by
  intro hthroughout
  obtain ⟨b, events, hrun, hconsistent⟩ := hthroughout.exists_run (cons_ne_nil _ _)
  have hlost : ∀ r ∈ (TracedRun.run step (new 100 1000 3)
      [.Add ⟨List.replicate 10 7, 0, []⟩ 0, .CopyFromSequence 1 10 100, .SetSentListLost true,
        .ResetLastSegmentSent]).toOption,
      r.1.m_lostOut.toNat ≠ total (weight TcpTxItem.m_lost) r.1.m_sentList := by decide +kernel
  rw [hrun] at hlost
  exact hlost _ rfl hconsistent.lostOut

/-- **The copies**, throughout a run whose calls fit and whose packets can be merged. -/
theorem throughout_copiesRight
    (hfits : TracedRun.Meets step (fun b h call => b.Fits call ∧ Mergeable h call)
      (new n maxBuffer dupAckThresh) [] calls) :
    TracedRun.Throughout step (fun _ h => CopiesRight h) (new n maxBuffer dupAckThresh) [] calls :=
  (throughout_holds n maxBuffer dupAckThresh calls (hfits.mono fun _ _ _ => And.left)).mono
    fun _ _ hs => hs.copies

/-- New data on both sides of the sequence number that wraps, and the first of it again; some of the
zeros are in zero areas. -/
theorem throughout_copiesRight_wrapping :
    TracedRun.Throughout step (fun _ h => CopiesRight h) (new 0xFFFFFFF8 1000 3) []
      [.Add ⟨[], 3, []⟩ 0, .Add ⟨[3, 4, 5, 6], 3, []⟩ 1, .CopyFromSequence 1 6 0xFFFFFFF8,
        .CopyFromSequence 2 4 0xFFFFFFFE, .CopyFromSequence 3 4 0xFFFFFFF8,
        .DiscardUpTo 4 0xFFFFFFFC] :=
  throughout_copiesRight _ _ _ _ (by decide +kernel)

/-- A request from sent data on, for more than was sent, that wraps. -/
theorem not_copiesRight_wrapping :
    ¬ TracedRun.Throughout step (fun _ h => CopiesRight h) (new 0xFFFFFFF0 1000 3) []
      [.Add ⟨List.replicate 40 7, 0, []⟩ 0, .CopyFromSequence 1 10 0xFFFFFFF0,
        .CopyFromSequence 2 30 0xFFFFFFF0] := by
  intro hthroughout
  obtain ⟨b, events, hrun, -⟩ := hthroughout.exists_run (cons_ne_nil _ _)
  have hfails : (TracedRun.run step (new 0xFFFFFFF0 1000 3)
      [.Add ⟨List.replicate 40 7, 0, []⟩ 0, .CopyFromSequence 1 10 0xFFFFFFF0,
        .CopyFromSequence 2 30 0xFFFFFFF0]).toOption = none := by decide +kernel
  rw [hrun] at hfails
  cases hfails

end Ns3Joined.Internet.TcpTxBuffer
