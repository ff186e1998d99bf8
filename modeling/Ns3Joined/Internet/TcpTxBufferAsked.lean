import Ns3Joined.Internet.TcpTxBufferCorrect

/-!
# What the socket asks the transmit buffer

* `throughout_bytesInFlight`: `BytesInFlight` is the pipe of RFC 6675, as the segments are marked,
  exactly as long as every segment that was retransmitted is marked as lost.
* `throughout_nextSeg`: when `NextSeg` follows the rules, and when `IsLost` gives the mark of the
  segment at a sequence number.
-/

namespace Ns3Joined.Internet.TcpTxBuffer

open SequenceNumber Tiles TcpTxItem UInt32 Option
open List hiding length

variable {b : TcpTxBuffer} {items : List TcpTxItem} {item : TcpTxItem} {start : SequenceNumber32}

/-! ### Bytes in flight -/

/-- The bytes of a segment that are in the network: none if it is sacked, or if it is lost and was
not retransmitted. -/
def inFlight (item : TcpTxItem) : ℕ :=
  if item.m_sacked || item.m_lost && !item.m_retrans then 0 else item.length

/-- The pipe. -/
def pipe (items : List TcpTxItem) : ℕ := total inFlight items

/-- A segment that was retransmitted, and is sacked or not taken for lost any more. -/
def countedTwice (item : TcpTxItem) : Bool := item.m_retrans && !item.m_lost

/-- One item's bytes in flight, balanced against its marks. -/
theorem inFlight_add (hdisjoint : item.m_sacked = true → item.m_lost = false) :
    inFlight item + (weight TcpTxItem.m_sacked item + weight TcpTxItem.m_lost item) +
      weight countedTwice item = item.length + weight TcpTxItem.m_retrans item := by
  unfold inFlight weight countedTwice
  cases hsacked : item.m_sacked with
  | true =>
    rw [hdisjoint hsacked]
    cases item.m_retrans <;> simp
  | false => cases item.m_lost <;> cases item.m_retrans <;> simp

/-- The bytes in flight of a list, balanced against the marks. -/
theorem pipe_add (hdisjoint : ∀ x ∈ items, x.m_sacked = true → x.m_lost = false) :
    pipe items + (total (weight TcpTxItem.m_sacked) items + total (weight TcpTxItem.m_lost) items) +
      total (weight countedTwice) items =
    total length items + total (weight TcpTxItem.m_retrans) items := by
  unfold pipe
  rw [← total_add, ← total_add, ← total_add, ← total_add]
  exact total_congr fun x hx => inFlight_add (hdisjoint x hx)

/-- No more is in flight than the list holds. -/
theorem pipe_le (items : List TcpTxItem) : pipe items ≤ total length items := by
  refine total_le_total fun item _ => ?_
  unfold inFlight
  split_ifs
  · exact Nat.zero_le _
  · exact le_rfl

/-- A total of marks that is zero marks nothing. -/
theorem total_weight_pos (hpos : ∀ x ∈ items, 0 < x.length) {flag : TcpTxItem → Bool}
    (hzero : total (weight flag) items = 0) : ∀ x ∈ items, flag x = false := by
  induction items with
  | nil => exact fun x hx => absurd hx not_mem_nil
  | cons item items ih =>
    obtain ⟨hitem, hitems⟩ := forall_mem_cons.mp hpos
    rw [total_cons, Nat.add_eq_zero_iff] at hzero
    refine forall_mem_cons.mpr ⟨?_, ih hitems hzero.2⟩
    by_contra hflag
    have hweight := hzero.1
    rw [weight, if_pos (by simpa using hflag)] at hweight
    omega

/-- `BytesInFlight` does not fail, and counts some segments twice. -/
theorem Inv.bytesInFlight (h : Inv b) : ∃ n, b.BytesInFlight = .ok n ∧
    n.toNat = pipe b.m_sentList + total (weight countedTwice) b.m_sentList := by
  have hbound := h.bound
  have hsum := pipe_add h.disjoint
  have hsacked := sacked_add_lost_le h.disjoint
  have hretrans := weight_le TcpTxItem.m_retrans b.m_sentList
  have hle := h.toCounted.sacked_add_lost h.disjoint
  refine ⟨_, if_pos hle, ?_⟩
  rw [UInt32.toNat_add, UInt32.toNat_sub_of_le _ _ hle, h.sentSize, h.sackedOut, h.lostOut,
    h.retrans, ← ofNat_add, toNat_ofNat_of_lt (by omega), toNat_ofNat_of_lt (by omega),
    toNat_ofNat_of_lt (by omega)]
  omega

/-- What `BytesInFlight` is for. -/
def FlightRight (b : TcpTxBuffer) : Prop :=
  ∃ n, b.BytesInFlight = .ok n ∧ n.toNat = pipe b.m_sentList ∧ n ≤ b.m_sentSize

/-- The code's count of the bytes in flight is right if and only if whatever is retransmitted is
lost. -/
theorem Inv.flightRight_iff (h : Inv b) :
    b.FlightRight ↔ ∀ x ∈ b.m_sentList, x.m_retrans = true → x.m_lost = true := by
  obtain ⟨n, hok, hn⟩ := h.bytesInFlight
  constructor
  · rintro ⟨n', hok', hn', -⟩ x hx hretrans
    rw [hok] at hok'
    cases hok'
    -- nothing is counted twice
    have hzero : total (weight countedTwice) b.m_sentList = 0 := by omega
    have hnone := total_weight_pos h.sentPos hzero x hx
    unfold countedTwice at hnone
    rw [hretrans, Bool.true_and] at hnone
    simpa using hnone
  · intro hlost
    have hnone : total (weight countedTwice) b.m_sentList = 0 := by
      refine total_weight_eq_zero fun x hx => ?_
      unfold countedTwice
      cases hretrans : x.m_retrans with
      | false => rfl
      | true =>
        rw [hlost x hx hretrans]
        rfl
    have hbound := h.bound
    have hle := pipe_le b.m_sentList
    refine ⟨n, hok, by omega, ?_⟩
    rw [le_iff_toNat_le, h.sentSize, toNat_ofNat_of_lt (by omega)]
    omega

/-! ### The next segment -/

/-- A segment that may be retransmitted. -/
def candidate (item : TcpTxItem) : Bool := !item.m_retrans && !item.m_sacked

/-- What the rules of RFC 6675 give. -/
def nextSegPerRules (isRecovery : Bool) (b : TcpTxBuffer) : Option SequenceNumber32 :=
  match b.m_sentList.find? fun x => candidate x && x.m_lost with
  | some x => some x.m_startSeq
  | none =>
    if b.m_appList ≠ [] then some (seq b.m_firstByteSeq (total length b.m_sentList))
    else if isRecovery then (b.m_sentList.find? candidate).map TcpTxItem.m_startSeq
    else none

/-- What is saved for rule 3, after candidates that begin at the given numbers. -/
def savedFrom (seqPerRule3 : SequenceNumber32) (starts : List SequenceNumber32) :
    SequenceNumber32 :=
  if seqPerRule3 = 0 then (starts.find? (· ≠ 0)).getD 0 else seqPerRule3

/-- The loop, if rule 1 gives nothing. -/
theorem nextSegFrom_none (isRecovery : Bool) (seqPerRule3 : SequenceNumber32) (valid : Bool)
    (hcontiguous : Contiguous start items)
    (hnone : (items.find? fun x => candidate x && x.m_lost) = none) :
    nextSegFrom isRecovery seqPerRule3 valid start items = (none,
      if isRecovery then
        savedFrom seqPerRule3 ((items.filter candidate).map TcpTxItem.m_startSeq)
      else seqPerRule3,
      valid || (isRecovery && decide (seqPerRule3 = 0) && !(items.filter candidate).isEmpty)) := by
  induction items generalizing start seqPerRule3 valid with
  | nil =>
    unfold nextSegFrom savedFrom
    cases isRecovery
    · simp
    · by_cases hzero : seqPerRule3 = 0
      · simp [hzero]
      · simp [hzero]
  | cons item items ih =>
    obtain ⟨hstart, hrest⟩ : item.m_startSeq = start ∧ Contiguous (start + item.size) items :=
      hcontiguous
    rw [List.find?_cons] at hnone
    cases hcandidate : candidate item with
    | false =>
      rw [hcandidate] at hnone
      unfold nextSegFrom
      unfold candidate at hcandidate
      rw [hcandidate, if_neg Bool.false_ne_true, filter_cons_of_neg (by
        unfold candidate
        rw [hcandidate]
        exact Bool.false_ne_true)]
      exact ih seqPerRule3 valid hrest hnone
    | true =>
      rw [hcandidate, Bool.true_and] at hnone
      cases hlost : item.m_lost with
      | true =>
        rw [hlost] at hnone
        cases hnone
      | false =>
        rw [hlost] at hnone
        unfold nextSegFrom
        have hfilter : (item :: items).filter candidate = item :: items.filter candidate :=
          filter_cons_of_pos hcandidate
        unfold candidate at hcandidate
        rw [hcandidate, if_pos rfl, hlost, if_neg Bool.false_ne_true, hfilter]
        -- The first candidate is saved, unless its number is zero and looks like none saved.
        by_cases hsave : seqPerRule3 = 0 ∧ isRecovery = true
        · obtain ⟨rfl, rfl⟩ := hsave
          rw [if_pos ⟨rfl, rfl⟩, ih start true hrest hnone, map_cons, hstart]
          simp only [Bool.true_or, if_true, decide_true, Bool.true_and, isEmpty_cons,
            Bool.not_false, Bool.or_true, savedFrom]
          by_cases hzero : start = 0
          · rw [hzero, if_pos rfl, List.find?_cons_of_neg (by simp)]
          · rw [if_neg hzero, List.find?_cons_of_pos (by simpa using hzero), getD_some]
        · rw [if_neg hsave, ih seqPerRule3 valid hrest hnone]
          cases isRecovery with
          | false => simp
          | true =>
            have hzero : seqPerRule3 ≠ 0 := fun hzero => hsave ⟨hzero, rfl⟩
            simp [hzero, savedFrom]

/-- The loop, if rule 1 gives something. -/
theorem nextSegFrom_some (isRecovery : Bool) (seqPerRule3 : SequenceNumber32) (valid : Bool)
    (hcontiguous : Contiguous start items)
    (hsome : (items.find? fun x => candidate x && x.m_lost) = some item) :
    (nextSegFrom isRecovery seqPerRule3 valid start items).1 = some item.m_startSeq := by
  induction items generalizing start seqPerRule3 valid with
  | nil => cases hsome
  | cons first items ih =>
    obtain ⟨hstart, hrest⟩ : first.m_startSeq = start ∧ Contiguous (start + first.size) items :=
      hcontiguous
    rw [List.find?_cons] at hsome
    unfold nextSegFrom
    cases hcandidate : candidate first with
    | false =>
      rw [hcandidate] at hsome
      unfold candidate at hcandidate
      rw [hcandidate, if_neg Bool.false_ne_true]
      exact ih seqPerRule3 valid hrest hsome
    | true =>
      rw [hcandidate, Bool.true_and] at hsome
      unfold candidate at hcandidate
      rw [hcandidate, if_pos rfl]
      cases hlost : first.m_lost with
      | true =>
        rw [hlost] at hsome
        cases hsome
        rw [if_pos rfl, hstart]
      | false =>
        rw [hlost] at hsome
        rw [if_neg Bool.false_ne_true]
        split_ifs
        · exact ih start true hrest hsome
        · exact ih seqPerRule3 valid hrest hsome

/-- Rule 3 is to give the segment that begins at 0, which is not told from none, and there is
another one. -/
def SkipsZero (isRecovery : Bool) (b : TcpTxBuffer) : Prop :=
  isRecovery = true ∧ (b.m_sentList.find? fun x => candidate x && x.m_lost) = none ∧
    b.m_appList = [] ∧ 1 < (b.m_sentList.filter candidate).length ∧
    (b.m_sentList.find? candidate).map TcpTxItem.m_startSeq = some 0

/-- Items of positive length start at different numbers. -/
theorem starts_distinct (hcontiguous : Contiguous start items) (hpos : ∀ x ∈ items, 0 < x.length)
    (hbound : total length items < 2 ^ 31) : (items.map TcpTxItem.m_startSeq).Nodup := by
  induction items generalizing start with
  | nil => exact nodup_nil
  | cons item items ih =>
    obtain ⟨hitem, hitems⟩ := forall_mem_cons.mp hpos
    rw [contiguous_cons] at hcontiguous
    obtain ⟨hstart, hrest⟩ := hcontiguous
    rw [total_cons] at hbound
    rw [map_cons, nodup_cons]
    refine ⟨fun hmem => ?_, ih hrest hitems (by omega)⟩
    obtain ⟨x, hx, heq⟩ := mem_map.mp hmem
    obtain ⟨n, hn, hxstart⟩ := hrest.exists_start hx
    have hxpos := hitems x hx
    rw [hxstart, hstart, seq_seq] at heq
    rw [← seq_zero start, seq_seq, seq_inj (by omega) (by omega)] at heq
    omega

/-- Whether the first candidate is what was saved. -/
theorem saved_eq_iff {first : SequenceNumber32} {starts : List SequenceNumber32}
    (hdistinct : (first :: starts).Nodup) :
    savedFrom 0 (first :: starts) = first ↔ ¬ (starts ≠ [] ∧ first = 0) := by
  unfold savedFrom
  rw [if_pos rfl]
  by_cases hfirst : first = 0
  · rw [hfirst, List.find?_cons_of_neg (by simp)]
    cases starts with
    | nil => simp
    | cons second starts =>
      have hsecond : second ≠ 0 := fun heq => by
        rw [nodup_cons, hfirst, heq] at hdistinct
        exact hdistinct.1 mem_cons_self
      rw [List.find?_cons_of_pos (by simpa using hsecond), getD_some]
      simp [hsecond]
  · rw [List.find?_cons_of_pos (by simpa using hfirst), getD_some]
    simp [hfirst]

/-- Something is unsent if and only if the second list is not empty. -/
theorem Laid.unsent_iff (h : b.Laid) :
    b.SizeFromSequence (b.m_firstByteSeq + b.m_sentSize) > 0 ↔ b.m_appList ≠ [] := by
  have hbound := h.bound
  rw [h.sentEnd, h.sizeFromSequence (by omega), gt_iff_lt, lt_iff_toNat_lt,
    toNat_ofNat_of_lt (by omega), Nat.add_sub_cancel_left]
  constructor
  · rintro hpos hnil
    rw [hnil] at hpos
    exact Nat.lt_irrefl _ hpos
  · intro hne
    refine Nat.pos_of_ne_zero fun hzero => hne (eq_nil_of_total h.appPos hzero)

/-- `NextSeg` follows its rules if and only if it does not skip the number zero. -/
theorem Laid.nextSeg_iff (h : b.Laid) (isRecovery : Bool) :
    b.NextSeg isRecovery = b.nextSegPerRules isRecovery ↔ ¬ b.SkipsZero isRecovery := by
  unfold NextSeg nextSegPerRules SkipsZero
  cases hfind : b.m_sentList.find? fun x => candidate x && x.m_lost with
  | some x =>
    have hfound := nextSegFrom_some isRecovery 0 false h.contiguous hfind
    generalize nextSegFrom isRecovery 0 false b.m_firstByteSeq b.m_sentList = r at hfound ⊢
    obtain ⟨r, s, v⟩ := r
    obtain rfl : r = some x.m_startSeq := hfound
    simp
  | none =>
    rw [nextSegFrom_none isRecovery 0 false h.contiguous hfind]
    dsimp only
    by_cases happ : b.m_appList = []
    · rw [if_neg fun hpos => h.unsent_iff.mp hpos happ, if_neg (not_not.mpr happ)]
      cases isRecovery with
      | false => simp
      | true =>
        have hbound := h.bound
        have hdistinct := starts_distinct h.contiguous h.sentPos (by omega)
        have hsub : ((b.m_sentList.filter candidate).map TcpTxItem.m_startSeq).Nodup :=
          (filter_sublist.map _).nodup hdistinct
        rw [← List.head?_filter]
        cases hcandidates : b.m_sentList.filter candidate with
        | nil => simp
        | cons x rest =>
          rw [hcandidates, map_cons] at hsub
          have hiff := saved_eq_iff hsub
          rw [map_cons]
          simp only [if_true, Bool.true_and, decide_true, isEmpty_cons, Bool.not_false,
            Bool.false_or, List.head?_cons, map_some, Option.some.injEq, true_and,
            length_cons, happ]
          rw [hiff]
          simp [length_pos_iff]
    · rw [if_pos (h.unsent_iff.mpr happ), if_pos happ, h.sentEnd]
      simp [happ]

/-! ### Losses -/

/-- The segment that begins at a sequence number is not sacked, and is marked as lost. -/
def lostAt (s : SequenceNumber32) (b : TcpTxBuffer) : Bool :=
  b.m_sentList.any fun x => x.m_startSeq == s && !x.m_sacked && x.m_lost

/-- The first segment from a sequence number on that has one of the marks. -/
def firstMarked (s : SequenceNumber32) (items : List TcpTxItem) : Option TcpTxItem :=
  items.find? fun x => ge x.m_startSeq s && (x.m_lost || x.m_sacked)

/-- A segment that is lost is asked for below `m_highestSack`; and where there is none, either
nothing is looked for, or the first segment with a mark from there on is sacked. -/
def MarkReached (s : SequenceNumber32) (b : TcpTxBuffer) : Prop :=
  if b.lostAt s then ge s b.m_highestSack.2 = false
  else ge s b.m_highestSack.2 = true ∨ ((firstMarked s b.m_sentList).all (!·.m_lost)) = true

/-- The scan for a lost item is a question to the first marked item. -/
theorem isLostFrom_eq (s : SequenceNumber32) (hcontiguous : Contiguous start items) :
    isLostFrom s start items = (firstMarked s items).any TcpTxItem.m_lost := by
  induction items generalizing start with
  | nil => rfl
  | cons item items ih =>
    obtain ⟨hstart, hrest⟩ : item.m_startSeq = start ∧ Contiguous (start + item.size) items :=
      hcontiguous
    have hrest := ih hrest
    rw [isLostFrom, firstMarked, List.find?_cons, hstart]
    cases ge start s with
    | false => exact hrest
    | true =>
      rw [Bool.true_and, Bool.true_and, Bool.true_and]
      cases hlost : item.m_lost with
      | true => exact hlost.symm
      | false =>
        cases item.m_sacked with
        | true => exact hlost.symm
        | false => exact hrest

/-- Where the number lies in a lost item, the first marked item behind it is lost. -/
theorem firstMarked_of_lostAt (h : b.Laid) {s : SequenceNumber32} (hlost : b.lostAt s = true) :
    (firstMarked s b.m_sentList).any TcpTxItem.m_lost = true := by
  obtain ⟨x, hx, hmarks⟩ := any_eq_true.mp hlost
  rw [Bool.and_eq_true, Bool.and_eq_true, beq_iff_eq] at hmarks
  obtain ⟨⟨rfl, -⟩, hxlost⟩ := hmarks
  obtain ⟨before, after, hsent⟩ := append_of_mem hx
  have hcontiguous := h.contiguous
  have hbound := h.bound
  have hpos := h.sentPos
  rw [hsent] at hcontiguous hbound hpos
  rw [contiguous_append, contiguous_cons] at hcontiguous
  rw [total_append, total_cons] at hbound
  have hbefore : before.find? (fun y => ge y.m_startSeq x.m_startSeq && (y.m_lost || y.m_sacked)) =
      none := by
    refine List.find?_eq_none.mpr fun y hy => ?_
    obtain ⟨n, hn, hstart⟩ := hcontiguous.1.exists_start hy
    have hy := hpos y (mem_append_left _ hy)
    have hge : ge (seq b.m_firstByteSeq n) (seq b.m_firstByteSeq (total length before)) =
        decide (total length before ≤ n) := ge_seq (by omega) (by omega)
    rw [hstart, hcontiguous.2.1, hge, decide_eq_false (by omega)]
    exact Bool.false_ne_true
  have hself : ge x.m_startSeq x.m_startSeq = true := ge_self _
  rw [firstMarked, hsent, List.find?_append, hbefore, none_or,
    List.find?_cons_of_pos (by rw [hself, hxlost]; rfl)]
  exact hxlost

/-- `IsLost` is right if and only if the mark is reached. -/
theorem Laid.isLost_iff (h : b.Laid) (s : SequenceNumber32) :
    b.IsLost s = b.lostAt s ↔ b.MarkReached s := by
  have hmarked := firstMarked_of_lostAt h (s := s)
  unfold IsLost MarkReached
  rw [isLostFrom_eq s h.contiguous]
  cases hlost : b.lostAt s with
  | true =>
    rw [hmarked hlost, if_pos rfl]
    cases ge s b.m_highestSack.2 <;> simp
  | false =>
    rw [if_neg Bool.false_ne_true]
    cases ge s b.m_highestSack.2 with
    | true => simp
    | false =>
      rw [if_neg Bool.false_ne_true]
      cases firstMarked s b.m_sentList <;> simp

/-! ### Runs -/

variable (n : SequenceNumber32) (maxBuffer dupAckThresh : UInt32) (calls : List Call)

/-- **Bytes in flight**, throughout a run whose calls fit. -/
theorem throughout_bytesInFlight
    (hfits : TracedRun.Meets step (fun b _ call => b.Fits call) (new n maxBuffer dupAckThresh) []
      calls) :
    TracedRun.Throughout step (fun b _ => b.FlightRight ↔
        ∀ x ∈ b.m_sentList, x.m_retrans = true → x.m_lost = true)
      (new n maxBuffer dupAckThresh) [] calls :=
  (throughout_holds n maxBuffer dupAckThresh calls hfits).mono
    fun _ _ hs => hs.toInv.flightRight_iff

/-- The first of two segments is sent again after a timeout. -/
theorem throughout_bytesInFlight_timeout :
    TracedRun.Throughout step (fun b _ => b.FlightRight ↔
        ∀ x ∈ b.m_sentList, x.m_retrans = true → x.m_lost = true) (new 0xFFFFFFF8 1000 3) []
      [.Add ⟨List.replicate 10 7, 0, []⟩ 0, .CopyFromSequence 1 4 0xFFFFFFF8,
        .CopyFromSequence 2 6 0xFFFFFFFC, .SetSentListLost true,
        .CopyFromSequence 3 4 0xFFFFFFF8] :=
  throughout_bytesInFlight _ _ _ _ (by decide +kernel)

/-- A segment is sent again that is not lost. -/
theorem not_flightRight_resent :
    ¬ TracedRun.Throughout step (fun b _ => b.FlightRight) (new 100 1000 3) []
      [.Add ⟨List.replicate 10 7, 0, []⟩ 0, .CopyFromSequence 1 10 100,
        .CopyFromSequence 2 10 100] := by
  intro hthroughout
  obtain ⟨b, events, hrun, n, hok, hpipe, -⟩ := hthroughout.exists_run (cons_ne_nil _ _)
  have hflight : (TracedRun.run step (new 100 1000 3)
      [.Add ⟨List.replicate 10 7, 0, []⟩ 0, .CopyFromSequence 1 10 100,
        .CopyFromSequence 2 10 100]).toOption.bind (fun r => r.1.BytesInFlight.toOption) =
      some 20 := by decide +kernel
  have htwice : (TracedRun.run step (new 100 1000 3)
      [.Add ⟨List.replicate 10 7, 0, []⟩ 0, .CopyFromSequence 1 10 100,
        .CopyFromSequence 2 10 100]).toOption.map (fun r => pipe r.1.m_sentList) =
      some 10 := by decide +kernel
  rw [hrun] at hflight htwice
  have hbytes : b.BytesInFlight.toOption = some 20 := hflight
  rw [hok] at hbytes
  cases hbytes
  have hten : pipe b.m_sentList = 10 := Option.some.inj htwice
  rw [hten] at hpipe
  exact absurd hpipe (by decide)

/-- **What is next, and what is lost**, throughout a run whose calls fit. -/
theorem throughout_nextSeg
    (hfits : TracedRun.Meets step (fun b _ call => b.Fits call) (new n maxBuffer dupAckThresh) []
      calls) :
    TracedRun.Throughout step (fun b _ =>
        (∀ isRecovery, b.NextSeg isRecovery = b.nextSegPerRules isRecovery ↔
          ¬ b.SkipsZero isRecovery) ∧
        ∀ s, b.IsLost s = b.lostAt s ↔ b.MarkReached s)
      (new n maxBuffer dupAckThresh) [] calls :=
  (throughout_holds n maxBuffer dupAckThresh calls hfits).mono fun _ _ hs =>
    ⟨hs.toInv.toLaid.nextSeg_iff, hs.toInv.toLaid.isLost_iff⟩

/-- Two segments before and after the sequence number that wraps. -/
theorem throughout_nextSeg_wrapping :
    TracedRun.Throughout step (fun b _ =>
        (∀ isRecovery, b.NextSeg isRecovery = b.nextSegPerRules isRecovery ↔
          ¬ b.SkipsZero isRecovery) ∧
        ∀ s, b.IsLost s = b.lostAt s ↔ b.MarkReached s) (new 0xFFFFFFF8 1000 3) []
      [.Add ⟨List.replicate 20 7, 0, []⟩ 0, .CopyFromSequence 1 8 0xFFFFFFF8,
        .CopyFromSequence 2 6 0, .CopyFromSequence 3 6 6] :=
  throughout_nextSeg _ _ _ _ (by decide +kernel)

/-- The first of two segments begins at 0, and the second one is given in recovery. -/
theorem not_nextSegPerRules_zero :
    ¬ TracedRun.Throughout step (fun b _ =>
        (∀ isRecovery, b.NextSeg isRecovery = b.nextSegPerRules isRecovery) ∧
        ∀ s, b.IsLost s = b.lostAt s) (new 0 1000 3) []
      [.Add ⟨List.replicate 20 7, 0, []⟩ 0, .CopyFromSequence 1 10 0,
        .CopyFromSequence 2 10 10] := by
  intro hthroughout
  obtain ⟨b, events, hrun, hnext, -⟩ := hthroughout.exists_run (cons_ne_nil _ _)
  have hsecond : ∀ r ∈ (TracedRun.run step (new 0 1000 3)
      [.Add ⟨List.replicate 20 7, 0, []⟩ 0, .CopyFromSequence 1 10 0,
        .CopyFromSequence 2 10 10]).toOption,
      r.1.NextSeg true ≠ r.1.nextSegPerRules true := by decide +kernel
  rw [hrun] at hsecond
  exact hsecond _ rfl (hnext true)

end Ns3Joined.Internet.TcpTxBuffer
