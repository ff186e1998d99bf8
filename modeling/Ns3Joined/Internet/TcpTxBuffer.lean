import Ns3Joined.Internet.TcpRxBuffer

/-!
# The transmit buffer of TCP

`TcpTxBuffer` (`tcp-tx-buffer.cc`): what the application wants to send, as segments that are not
sent yet (`m_appList`) and segments that are sent and not acknowledged yet (`m_sentList`), with
what is known of each of them, and how many bytes are lost, sacked and retransmitted.

* `GetPacketFromList`: the segment with given bytes, for which others are split or merged.
* `CopyFromSequence`: what is sent at a sequence number.
* `Update`, `UpdateLostCount`: the blocks that the receiver reports.
* `AddRenoSack`, `MarkHeadAsLost`, …: what is done without such reports.
* `DiscardUpTo`: the acknowledgements.
* `NextSeg`, `IsLost`, `BytesInFlight`: what the socket asks.
* `Call`, `step`: the operations, with what they do with the bytes.
-/

namespace Ns3Joined.Internet

open SequenceNumber

/-- A `TcpTxItem`, and the node of the list that it is in. -/
structure TcpTxItem where
  m_startSeq : SequenceNumber32
  m_packet : List UInt8
  m_lost : Bool
  m_retrans : Bool
  m_lastSent : ℤ
  m_sacked : Bool
  node : ℕ
deriving DecidableEq

/-- A `TcpTxBuffer`. `nodes` is the number of nodes that were made for its lists, and an iterator
that is not at the end is the node that it is at. -/
structure TcpTxBuffer where
  m_appList : List TcpTxItem
  m_sentList : List TcpTxItem
  m_maxBuffer : UInt32
  m_size : UInt32
  m_sentSize : UInt32
  m_firstByteSeq : SequenceNumber32
  m_highestSack : Option ℕ × SequenceNumber32
  m_lostOut : UInt32
  m_sackedOut : UInt32
  m_retrans : UInt32
  m_dupAckThresh : UInt32
  nodes : ℕ
deriving DecidableEq

namespace TcpTxItem

/-- `m_packet->GetSize ()`. -/
def size (item : TcpTxItem) : UInt32 := GetSize item.m_packet

/-- `new TcpTxItem ()`, with a packet; `Time::Min ()` is in nanoseconds. -/
def new (p : List UInt8) (node : ℕ) : TcpTxItem where
  m_startSeq := 0
  m_packet := p
  m_lost := false
  m_retrans := false
  m_lastSent := -2 ^ 63
  m_sacked := false
  node := node

end TcpTxItem

namespace TcpTxBuffer

/-- A new buffer, for bytes from the given sequence number on. -/
def new (n : SequenceNumber32) (maxBuffer dupAckThresh : UInt32) : TcpTxBuffer where
  m_appList := []
  m_sentList := []
  m_maxBuffer := maxBuffer
  m_size := 0
  m_sentSize := 0
  m_firstByteSeq := n
  m_highestSack := (none, 0)
  m_lostOut := 0
  m_sackedOut := 0
  m_retrans := 0
  m_dupAckThresh := dupAckThresh
  nodes := 0

def TailSequence (b : TcpTxBuffer) : SequenceNumber32 := b.m_firstByteSeq + b.m_size

def Available (b : TcpTxBuffer) : UInt32 := b.m_maxBuffer - b.m_size

def Add (p : List UInt8) (b : TcpTxBuffer) : TcpTxBuffer × Bool :=
  if GetSize p ≤ b.Available then
    if GetSize p > 0 then
      ({ b with
          m_appList := b.m_appList ++ [TcpTxItem.new p b.nodes]
          m_size := b.m_size + GetSize p
          nodes := b.nodes + 1 }, true)
    else (b, true)
  else (b, false)

def SizeFromSequence (seq : SequenceNumber32) (b : TcpTxBuffer) : UInt32 :=
  if ge b.TailSequence seq then b.TailSequence - seq else 0

/-! ### Splitting and merging -/

/-- `SplitItems`: what becomes of `t1`, in a new node, and of `t2`. -/
def SplitItems (t2 : TcpTxItem) (size : UInt32) (node : ℕ) : TcpTxItem × TcpTxItem :=
  ({ t2 with m_packet := t2.m_packet.take size.toNat, node := node },
    { t2 with m_packet := t2.m_packet.drop size.toNat, m_startSeq := t2.m_startSeq + size })

/-- `MergeItems`: `m_retrans` of the buffer, and what becomes of `t1`. Its packet is put together
with that of `t2` by `Packet::AddAtEnd`, which appends the bytes if the packets from the application
are as in `Mergeable`.

No item then has bytes behind its zero area: what comes behind a zero area is zeros that are added
to it, or all is copied. And only parts of one packet are in one block. Of these `t1` ends before
`t2` does, so that `AddAtEnd` either copies the zero area of `t1` to a new block, or finds that the
block is in use behind `t1` and moves; `Iterator::Write` then copies from another block. -/
def MergeItems (retrans : UInt32) (t1 t2 : TcpTxItem) : Except Fault (UInt32 × TcpTxItem) :=
  if t1.m_sacked = t2.m_sacked then
    if t1.m_lost = t2.m_lost then
      let r :=
        if t1.m_retrans = t2.m_retrans then (retrans, t1)
        else if t1.m_retrans then (retrans - t1.size, { t1 with m_retrans := false })
        else (retrans - t2.size, t1)
      .ok (r.1,
        { r.2 with
          m_lastSent := if t1.m_lastSent < t2.m_lastSent then t2.m_lastSent else t1.m_lastSent
          m_packet := t1.m_packet ++ t2.m_packet })
    else .error .abort
  else .error .abort

/-- An item of a list, with the items before and after it. -/
structure Located where
  before : List TcpTxItem
  item : TcpTxItem
  after : List TcpTxItem

/-- The list of a located item. -/
def Located.list (l : Located) : List TcpTxItem := l.before ++ l.item :: l.after

/-- The walk of `GetPacketFromList` to the item with `seq`, and where that item begins. The items
of `m_sentList` are asserted not to be before `m_firstByteSeq`. -/
def walk (firstByteSeq : Option SequenceNumber32) (seq beginOfCurrentPacket : SequenceNumber32) :
    List TcpTxItem → Except Fault (SequenceNumber32 × Located)
  | [] => .error .abort
  | currentItem :: rest =>
    if firstByteSeq.any fun first => !ge currentItem.m_startSeq first then .error .abort
    else if lt seq (beginOfCurrentPacket + currentItem.size) then
      .ok (beginOfCurrentPacket, ⟨[], currentItem, rest⟩)
    else
      match walk firstByteSeq seq (beginOfCurrentPacket + currentItem.size) rest with
      | .error e => .error e
      | .ok (start, l) => .ok (start, { l with before := currentItem :: l.before })

/-- `GetPacketFromList`, with `m_retrans` of the buffer and the number of nodes. The item that
begins at `seq` is the one that the walk stops at, so that an end in it is never to be merged with
the items before. -/
def GetPacketFromList (firstByteSeq : Option SequenceNumber32) (listStartFrom : SequenceNumber32)
    (numBytes : UInt32) (seq : SequenceNumber32) :
    ℕ → UInt32 → ℕ → List TcpTxItem → Except Fault (UInt32 × ℕ × Located)
  | 0, _, _, _ => .error .diverges
  | rounds + 1, retrans, nodes, list =>
    match walk firstByteSeq seq listStartFrom list with
    | .error e => .error e
    | .ok (start, ⟨before, currentItem, after⟩) =>
      if seq = start then
        if le (seq + numBytes) (start + currentItem.size) then
          if numBytes = currentItem.size then .ok (retrans, nodes, ⟨before, currentItem, after⟩)
          else if numBytes < currentItem.size then
            let parts := SplitItems currentItem numBytes nodes
            .ok (retrans, nodes + 1, ⟨before, parts.1, parts.2 :: after⟩)
          else .error .diverges -- the loop goes on with the same item
        else
          match after with
          | [] => .ok (retrans, nodes, ⟨before, currentItem, []⟩)
          | next :: after =>
            match MergeItems retrans currentItem next with
            | .error e => .error e
            | .ok (retrans, merged) =>
              GetPacketFromList firstByteSeq listStartFrom numBytes seq rounds retrans nodes
                (before ++ merged :: after)
      else if gt seq start then
        let parts := SplitItems currentItem (seq - start) nodes
        GetPacketFromList firstByteSeq listStartFrom numBytes seq rounds retrans (nodes + 1)
          (before ++ parts.1 :: parts.2 :: after)
      else .error .abort

/-! ### Sending -/

/-- `GetNewSegment`: the item is then the last of `m_sentList`. -/
def GetNewSegment (numBytes : UInt32) (b : TcpTxBuffer) : Except Fault (TcpTxBuffer × Located) :=
  let startOfAppList := b.m_firstByteSeq + b.m_sentSize
  match GetPacketFromList none startOfAppList numBytes startOfAppList (b.m_appList.length + 2)
    b.m_retrans b.nodes b.m_appList with
  | .error e => .error e
  | .ok (retrans, nodes, l) =>
    let item := { l.item with m_startSeq := startOfAppList, node := nodes }
    .ok ({ b with
        m_appList := l.before ++ l.after
        m_sentList := b.m_sentList ++ [item]
        m_sentSize := b.m_sentSize + item.size
        m_retrans := retrans
        nodes := nodes + 1 },
      ⟨b.m_sentList, item, []⟩)

/-- The first loop of `GetTransmittedSegment`: how many bytes are taken, so that at most the next
item is merged, and that only if it is not sacked. -/
def mergeLimit (numBytes : UInt32) (seq : SequenceNumber32) : List TcpTxItem → UInt32
  | [] => numBytes
  | item :: rest =>
    if item.m_startSeq = seq then
      match rest with
      | next :: _ =>
        if !next.m_sacked then min numBytes (item.size + next.size) else min numBytes item.size
      | [] => min numBytes item.size
    else mergeLimit numBytes seq rest

/-- `GetTransmittedSegment`: the item is one of `m_sentList`. -/
def GetTransmittedSegment (numBytes : UInt32) (seq : SequenceNumber32) (b : TcpTxBuffer) :
    Except Fault (TcpTxBuffer × Located) :=
  if ge seq b.m_firstByteSeq ∧ numBytes ≤ b.m_sentSize ∧ b.m_sentList ≠ [] then
    match GetPacketFromList (some b.m_firstByteSeq) b.m_firstByteSeq
      (mergeLimit numBytes seq b.m_sentList) seq (b.m_sentList.length + 2) b.m_retrans b.nodes
      b.m_sentList with
    | .error e => .error e
    | .ok (retrans, nodes, l) =>
      let l' := { l with item := { l.item with m_retrans := true } }
      .ok ({ b with
          m_sentList := l'.list
          m_retrans := if l.item.m_retrans then retrans else retrans + l.item.size
          nodes := nodes }, l')
  else .error .abort

/-- The end of `CopyFromSequence`, for a segment of `m_sentList`. -/
def send (now : ℤ) (s : UInt32) (b : TcpTxBuffer) (l : Located) :
    Except Fault (TcpTxBuffer × List UInt8) :=
  if l.item.size ≤ s ∧ ge l.item.m_startSeq b.m_firstByteSeq then
    .ok ({ b with m_sentList := { l with item := { l.item with m_lastSent := now } }.list },
      l.item.m_packet)
  else .error .abort

/-- `CopyFromSequence`, with the number of times that it may call itself. -/
def copyFromSequence (now : ℤ) (seq : SequenceNumber32) (b : TcpTxBuffer) :
    ℕ → UInt32 → Except Fault (TcpTxBuffer × List UInt8)
  | 0, _ => .error .diverges
  | rounds + 1, numBytes =>
    if gt b.m_firstByteSeq seq then .error .abort
    else
      let s := min numBytes (b.SizeFromSequence seq)
      let sentEnd := b.m_firstByteSeq + b.m_sentSize
      if s = 0 then .ok (b, [])
      else if ge sentEnd (seq + s) then
        match b.GetTransmittedSegment s seq with
        | .error e => .error e
        | .ok (b, l) => if l.item.m_sacked then .error .abort else b.send now s l
      else if le sentEnd seq then
        if sentEnd = seq then
          match b.GetNewSegment s with
          | .error e => .error e
          | .ok (b, l) => if l.item.m_retrans then .error .abort else b.send now s l
        else .error .abort
      else if sentEnd > seq ∧ sentEnd < seq + s then
        copyFromSequence now seq b rounds (sentEnd - seq)
      else .error .undefined -- there is no item

/-- `CopyFromSequence`. It calls itself for bytes that are sent already, and so once. -/
def CopyFromSequence (now : ℤ) (numBytes : UInt32) (seq : SequenceNumber32) (b : TcpTxBuffer) :
    Except Fault (TcpTxBuffer × List UInt8) :=
  b.copyFromSequence now seq 2 numBytes

/-! ### Reno -/

/-- The walk of `AddRenoSack`: the first item that is not sacked, if there is one, is sacked. -/
def sackFirst : List TcpTxItem → Option Located
  | [] => none
  | item :: rest =>
    if item.m_sacked then
      (sackFirst rest).map fun l => { l with before := item :: l.before }
    else some ⟨[], { item with m_sacked := true }, rest⟩

def AddRenoSack (b : TcpTxBuffer) : Except Fault TcpTxBuffer :=
  match b.m_sentList with
  | head :: second :: rest =>
    match sackFirst (second :: rest) with
    | some l =>
      .ok { b with
        m_sentList := head :: l.list
        m_sackedOut := b.m_sackedOut + l.item.size
        m_highestSack := (some l.item.node, l.item.m_startSeq) }
    | none => .ok b
  | _ => .error .abort

def MarkHeadAsLost (b : TcpTxBuffer) : TcpTxBuffer :=
  match b.m_sentList with
  | [] => b
  | head :: rest =>
    { b with
      m_sentList := { head with m_sacked := false, m_retrans := false, m_lost := true } :: rest
      m_sackedOut := if head.m_sacked then b.m_sackedOut - head.size else b.m_sackedOut
      m_retrans := if head.m_retrans then b.m_retrans - head.size else b.m_retrans
      m_lostOut := if head.m_lost then b.m_lostOut else b.m_lostOut + head.size }

def ResetRenoSack (b : TcpTxBuffer) : TcpTxBuffer :=
  { b with
    m_sackedOut := 0
    m_sentList := b.m_sentList.map fun item => { item with m_sacked := false }
    m_highestSack := (none, 0) }

/-! ### Resets -/

def ResetSentList (b : TcpTxBuffer) : TcpTxBuffer :=
  { b with
    m_appList := b.m_sentList.map (fun item =>
      { item with m_retrans := false, m_sacked := false, m_lost := false }) ++ b.m_appList
    m_sentList := []
    m_sentSize := 0
    m_lostOut := 0
    m_retrans := 0
    m_sackedOut := 0
    m_highestSack := (none, 0) }

def ResetLastSegmentSent (b : TcpTxBuffer) : TcpTxBuffer :=
  match b.m_sentList.getLast? with
  | none => b
  | some item =>
    { b with
      m_sentList := b.m_sentList.dropLast
      m_sentSize := b.m_sentSize - item.size
      m_retrans := if item.m_retrans then b.m_retrans - item.size else b.m_retrans
      m_appList := { item with node := b.nodes } :: b.m_appList
      nodes := b.nodes + 1 }

/-- The loop of `SetSentListLost`, with `m_lostOut`. -/
def setLost (resetSack : Bool) (lostOut : UInt32) : List TcpTxItem → UInt32 × List TcpTxItem
  | [] => (lostOut, [])
  | item :: rest =>
    if resetSack then
      let r := setLost resetSack lostOut rest
      (r.1, { item with m_sacked := false, m_lost := true, m_retrans := false } :: r.2)
    else if item.m_lost then
      let r := setLost resetSack (lostOut + item.size) rest
      (r.1, { item with m_retrans := false } :: r.2)
    else if !item.m_sacked then
      let r := setLost resetSack (lostOut + item.size) rest
      (r.1, { item with m_lost := true, m_retrans := false } :: r.2)
    else
      let r := setLost resetSack lostOut rest
      (r.1, { item with m_retrans := false } :: r.2)

def SetSentListLost (resetSack : Bool) (b : TcpTxBuffer) : Except Fault TcpTxBuffer :=
  let r := setLost resetSack (if resetSack then b.m_sentSize else 0) b.m_sentList
  let b' := { b with
    m_sentList := r.2
    m_retrans := 0
    m_sackedOut := if resetSack then 0 else b.m_sackedOut
    m_lostOut := r.1
    m_highestSack := if resetSack then (none, 0) else b.m_highestSack }
  if b'.m_sentSize ≥ b'.m_sackedOut + b'.m_lostOut then .ok b' else .error .abort

def DeleteRetransmittedFlagFromHead (b : TcpTxBuffer) : Except Fault TcpTxBuffer :=
  if b.m_sentSize = 0 then .ok b
  else
    match b.m_sentList with
    | [] => .error .undefined
    | head :: rest =>
      if head.m_retrans then
        .ok { b with
          m_sentList := { head with m_retrans := false } :: rest
          m_retrans := b.m_retrans - head.size }
      else .ok b

/-! ### Reported blocks -/

/-- What `Update` keeps while it walks `m_sentList`. -/
structure Scoreboard where
  m_lostOut : UInt32
  m_sackedOut : UInt32
  m_highestSack : Option ℕ × SequenceNumber32
  modified : Bool

/-- An item lies in a reported block. -/
def covered (option : SequenceNumber32 × SequenceNumber32) (start : SequenceNumber32)
    (item : TcpTxItem) : Bool :=
  ge start option.1 && le (start + item.size) option.2

/-- The item of `m_sentList` that begins at `start` is sacked, if it was not already. -/
def sackItem (start : SequenceNumber32) (sb : Scoreboard) (item : TcpTxItem) :
    Except Fault (Scoreboard × TcpTxItem) :=
  if item.m_sacked then
    if item.m_lost then .error .abort else .ok ({ sb with modified := true }, item)
  else
    .ok ({ m_lostOut := if item.m_lost then sb.m_lostOut - item.size else sb.m_lostOut
           m_sackedOut := sb.m_sackedOut + item.size
           m_highestSack :=
             if sb.m_highestSack.1 = none ∨ le sb.m_highestSack.2 (start + item.size) then
               (some item.node, start)
             else sb.m_highestSack
           modified := true },
      { item with m_lost := false, m_sacked := true })

/-- The inner loop of `Update`. -/
def sackItems (option : SequenceNumber32 × SequenceNumber32) (start : SequenceNumber32)
    (sb : Scoreboard) : List TcpTxItem → Except Fault (Scoreboard × List TcpTxItem)
  | [] => .ok (sb, [])
  | item :: rest =>
    if covered option start item then
      match sackItem start sb item with
      | .error e => .error e
      | .ok (sb, item') =>
        match sackItems option (start + item.size) sb rest with
        | .error e => .error e
        | .ok (sb, rest) => .ok (sb, item' :: rest)
    else if gt (start + item.size) option.2 then .ok (sb, item :: rest)
    else
      match sackItems option (start + item.size) sb rest with
      | .error e => .error e
      | .ok (sb, rest) => .ok (sb, item :: rest)

/-- The loop of `UpdateLostCount`, over the items from the highest sacked one down to the second,
with the number of sacked items and `m_lostOut`. -/
def loseItems (dupAckThresh sacked lostOut : UInt32) :
    List TcpTxItem → UInt32 × UInt32 × List TcpTxItem
  | [] => (sacked, lostOut, [])
  | item :: items =>
    let sacked := if item.m_sacked then sacked + 1 else sacked
    if sacked ≥ dupAckThresh ∧ !item.m_sacked ∧ !item.m_lost then
      let r := loseItems dupAckThresh sacked (lostOut + item.size) items
      (r.1, r.2.1, { item with m_lost := true } :: r.2.2)
    else
      let r := loseItems dupAckThresh sacked lostOut items
      (r.1, r.2.1, item :: r.2.2)

/-- The items before a node, and the one that is in it. -/
def atNode (node : ℕ) : List TcpTxItem → Option Located
  | [] => none
  | item :: rest =>
    if item.node = node then some ⟨[], item, rest⟩
    else (atNode node rest).map fun l => { l with before := item :: l.before }

/-- `UpdateLostCount`, with the node that `m_highestSack` is at. -/
def UpdateLostCount (node : ℕ) (b : TcpTxBuffer) : Except Fault TcpTxBuffer :=
  match b.m_sentList with
  | [] => .error .undefined
  | head :: rest =>
    let r :=
      if head.node = node then some (0, b.m_lostOut, rest)
      else (atNode node rest).map fun l =>
        let r := loseItems b.m_dupAckThresh 0 b.m_lostOut (l.before ++ [l.item]).reverse
        (r.1, r.2.1, r.2.2.reverse ++ l.after)
    match r with
    | none => .error .undefined
    | some (sacked, lostOut, rest) =>
      if sacked ≥ b.m_dupAckThresh ∧ !head.m_lost then
        .ok { b with
          m_sentList := { head with m_lost := true } :: rest
          m_lostOut := lostOut + head.size }
      else .ok { b with m_sentList := head :: rest, m_lostOut := lostOut }

/-- What `Update` does if something was sacked. -/
def updateLost (modified : Bool) (b : TcpTxBuffer) : Except Fault TcpTxBuffer :=
  if modified then
    match b.m_highestSack.1 with
    | none => .error .abort
    | some node => b.UpdateLostCount node
  else .ok b

/-- The end of `Update`, after all blocks. -/
def finishUpdate (modified : Bool) (b : TcpTxBuffer) : Except Fault (TcpTxBuffer × Bool) :=
  match b.updateLost modified with
  | .error e => .error e
  | .ok b =>
    match b.m_sentList with
    | [] => .error .undefined
    | head :: _ =>
      if !head.m_sacked ∧ b.m_sentSize ≥ b.m_sackedOut + b.m_lostOut then .ok (b, modified)
      else .error .abort

/-- `Update`, from a block on. -/
def updateFrom (modified : Bool) (b : TcpTxBuffer) :
    List (SequenceNumber32 × SequenceNumber32) → Except Fault (TcpTxBuffer × Bool)
  | [] => b.finishUpdate modified
  | option :: options =>
    if lt (b.m_firstByteSeq + b.m_sentSize) option.1 ∧ !modified then .ok (b, false)
    else
      match sackItems option b.m_firstByteSeq
        ⟨b.m_lostOut, b.m_sackedOut, b.m_highestSack, modified⟩ b.m_sentList with
      | .error e => .error e
      | .ok (sb, sentList) =>
        updateFrom sb.modified
          { b with
            m_sentList := sentList
            m_lostOut := sb.m_lostOut
            m_sackedOut := sb.m_sackedOut
            m_highestSack := sb.m_highestSack } options

def Update (list : List (SequenceNumber32 × SequenceNumber32)) (b : TcpTxBuffer) :
    Except Fault (TcpTxBuffer × Bool) :=
  b.updateFrom false list

/-! ### Acknowledgements -/

def RemoveFromCounts (item : TcpTxItem) (size : UInt32) (b : TcpTxBuffer) :
    Except Fault TcpTxBuffer :=
  if (item.m_sacked → b.m_sackedOut ≥ size) ∧ (item.m_retrans → b.m_retrans ≥ size) ∧
      (item.m_lost → b.m_lostOut ≥ size) then
    .ok { b with
      m_sackedOut := if item.m_sacked then b.m_sackedOut - size else b.m_sackedOut
      m_retrans := if item.m_retrans then b.m_retrans - size else b.m_retrans
      m_lostOut := if item.m_lost then b.m_lostOut - size else b.m_lostOut }
  else .error .abort

/-- The first `size` bytes of the segment at the head are removed, or all of it. -/
def discardBytes (size : UInt32) (sentList : List TcpTxItem) (b : TcpTxBuffer) : TcpTxBuffer :=
  { b with
    m_sentList := sentList
    m_size := b.m_size - size
    m_sentSize := b.m_sentSize - size
    m_firstByteSeq := b.m_firstByteSeq + size }

/-- Data that is not sent yet is moved to `m_sentList` if that is empty. -/
def refill (now : ℤ) (offset : UInt32) (b : TcpTxBuffer) : Except Fault TcpTxBuffer :=
  if b.m_sentList = [] then (b.CopyFromSequence now offset b.m_firstByteSeq).map Prod.fst
  else .ok b

/-- The loop of `DiscardUpTo`. Each round takes away a segment, or what is left of `offset`. -/
def discard (now : ℤ) : ℕ → UInt32 → TcpTxBuffer → Except Fault TcpTxBuffer
  | 0, offset, b => if b.m_size > 0 ∧ offset > 0 then .error .diverges else .ok b
  | rounds + 1, offset, b =>
    if b.m_size > 0 ∧ offset > 0 then
      match b.refill now offset with
      | .error e => .error e
      | .ok b =>
        match b.m_sentList with
        | [] => .error .abort
        | item :: rest =>
          if item.m_startSeq = b.m_firstByteSeq then
            if offset ≥ item.size then
              match (b.discardBytes item.size rest).RemoveFromCounts item item.size with
              | .error e => .error e
              | .ok b => discard now rounds (offset - item.size) b
            else
              let item' := { item with
                m_packet := item.m_packet.drop offset.toNat
                m_startSeq := item.m_startSeq + offset }
              (b.discardBytes offset (item' :: rest)).RemoveFromCounts item' offset
          else .error .abort
    else .ok b

/-- The segment at the head is not to be sacked. -/
def unsackHead (head : TcpTxItem) (rest : List TcpTxItem) (b : TcpTxBuffer) :
    Except Fault TcpTxBuffer :=
  if head.m_sacked then
    if head.m_lost then .error .abort
    else
      { b with
        m_sentList := { head with m_sacked := false } :: rest
        m_sackedOut := b.m_sackedOut - head.size }.AddRenoSack.map MarkHeadAsLost
  else .ok b

/-- What `DiscardUpTo` does with the segment that is then at the head. -/
def checkHead (seq : SequenceNumber32) (b : TcpTxBuffer) : Except Fault TcpTxBuffer :=
  match b.m_sentList with
  | [] => .ok b
  | head :: rest =>
    match b.unsackHead head rest with
    | .error e => .error e
    | .ok b => if head.m_startSeq = seq then .ok b else .error .abort

def DiscardUpTo (now : ℤ) (seq : SequenceNumber32) (b : TcpTxBuffer) : Except Fault TcpTxBuffer :=
  if ge b.m_firstByteSeq seq then .ok b
  else
    match discard now (b.m_sentList.length + b.m_size.toNat) (seq - b.m_firstByteSeq) b with
    | .error e => .error e
    | .ok b =>
      let b := if b.m_size = 0 then { b with m_firstByteSeq := seq } else b
      match b.checkHead seq with
      | .error e => .error e
      | .ok b =>
        let b :=
          if le b.m_highestSack.2 b.m_firstByteSeq then { b with m_highestSack := (none, 0) } else b
        if ge b.m_firstByteSeq seq ∧ b.m_sentSize ≥ b.m_sackedOut + b.m_lostOut then .ok b
        else .error .abort

/-! ### What there is to send -/

/-- The loop of `IsLost`. -/
def isLostFrom (seq beginOfCurrentPacket : SequenceNumber32) : List TcpTxItem → Bool
  | [] => false
  | item :: rest =>
    if ge beginOfCurrentPacket seq && item.m_lost then true
    else if ge beginOfCurrentPacket seq && item.m_sacked then false
    else isLostFrom seq (beginOfCurrentPacket + item.size) rest

def IsLost (seq : SequenceNumber32) (b : TcpTxBuffer) : Bool :=
  if ge seq b.m_highestSack.2 then false else isLostFrom seq b.m_firstByteSeq b.m_sentList

/-- The loop of `NextSeg`: the segment that rule 1 gives, or else what was saved for rule 3. -/
def nextSegFrom (isRecovery : Bool) (seqPerRule3 : SequenceNumber32) (isSeqPerRule3Valid : Bool)
    (beginOfCurrentPkt : SequenceNumber32) :
    List TcpTxItem → Option SequenceNumber32 × SequenceNumber32 × Bool
  | [] => (none, seqPerRule3, isSeqPerRule3Valid)
  | item :: rest =>
    if !item.m_retrans && !item.m_sacked then
      if item.m_lost then (some beginOfCurrentPkt, seqPerRule3, isSeqPerRule3Valid)
      else if seqPerRule3 = 0 ∧ isRecovery then
        nextSegFrom isRecovery beginOfCurrentPkt true (beginOfCurrentPkt + item.size) rest
      else
        nextSegFrom isRecovery seqPerRule3 isSeqPerRule3Valid (beginOfCurrentPkt + item.size) rest
    else nextSegFrom isRecovery seqPerRule3 isSeqPerRule3Valid (beginOfCurrentPkt + item.size) rest

/-- `NextSeg`, with what is written to `seq` if it returns true. -/
def NextSeg (isRecovery : Bool) (b : TcpTxBuffer) : Option SequenceNumber32 :=
  match nextSegFrom isRecovery 0 false b.m_firstByteSeq b.m_sentList with
  | (some seq, _, _) => some seq
  | (none, seqPerRule3, isSeqPerRule3Valid) =>
    if b.SizeFromSequence (b.m_firstByteSeq + b.m_sentSize) > 0 then
      some (b.m_firstByteSeq + b.m_sentSize)
    else if isSeqPerRule3Valid then some seqPerRule3
    else none

def BytesInFlight (b : TcpTxBuffer) : Except Fault UInt32 :=
  if b.m_sackedOut + b.m_lostOut ≤ b.m_sentSize then
    .ok (b.m_sentSize - (b.m_sackedOut + b.m_lostOut) + b.m_retrans)
  else .error .abort

/-! ### Calls -/

/-- The operations. The packet of `Add` comes with the block that its `Buffer` is in. -/
inductive Call
  | Add (p : Segment) (block : ℕ)
  | CopyFromSequence (now : ℤ) (numBytes : UInt32) (seq : SequenceNumber32)
  | Update (list : List (SequenceNumber32 × SequenceNumber32))
  | AddRenoSack
  | ResetRenoSack
  | MarkHeadAsLost
  | SetSentListLost (resetSack : Bool)
  | DeleteRetransmittedFlagFromHead
  | ResetLastSegmentSent
  | ResetSentList
  | DiscardUpTo (now : ℤ) (seq : SequenceNumber32)

/-- What an operation does with the bytes: data from the application is accepted, what is sent is
copied from the bytes that are held, and some of these are acknowledged. -/
inductive Event
  | accepted (p : List UInt8) (block : ℕ)
  | copied (numBytes k : ℕ) (p : List UInt8)
  | acknowledged (n : ℕ)
deriving DecidableEq

/-- A call of an operation. -/
def step (b : TcpTxBuffer) : Call → Except Fault (TcpTxBuffer × List Event)
  | .Add p block =>
    .ok ((b.Add p.bytes).1, if (b.Add p.bytes).2 then [.accepted p.bytes block] else [])
  | .CopyFromSequence now numBytes seq =>
    (b.CopyFromSequence now numBytes seq).map fun r =>
      (r.1, [.copied numBytes.toNat (seq - b.m_firstByteSeq).toNat r.2])
  | .Update list => (b.Update list).map fun r => (r.1, [])
  | .AddRenoSack => b.AddRenoSack.map fun b => (b, [])
  | .ResetRenoSack => .ok (b.ResetRenoSack, [])
  | .MarkHeadAsLost => .ok (b.MarkHeadAsLost, [])
  | .SetSentListLost resetSack => (b.SetSentListLost resetSack).map fun b => (b, [])
  | .DeleteRetransmittedFlagFromHead => b.DeleteRetransmittedFlagFromHead.map fun b => (b, [])
  | .ResetLastSegmentSent => .ok (b.ResetLastSegmentSent, [])
  | .ResetSentList => .ok (b.ResetSentList, [])
  | .DiscardUpTo now seq =>
    (b.DiscardUpTo now seq).map fun b' => (b', [.acknowledged (b.m_size - b'.m_size).toNat])

end TcpTxBuffer
end Ns3Joined.Internet
