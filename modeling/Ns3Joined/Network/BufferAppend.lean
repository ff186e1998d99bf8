import Ns3Joined.Network.Buffer

/-!
# A buffer behind another one

`AddAtEnd (const Buffer &)` (`network/model/buffer.cc`), with the full copy that it makes and the
`Write` between two iterators. Where the first buffer ends with zeros and the second one starts
with zeros, it makes one zero area of both and copies only the bytes behind it.

The offset of an iterator is virtual: `Write` takes the zero area of its source into account, but
not the one of the buffer it writes to.
-/

namespace Ns3Joined.Network.Buffer

/-! ### Iterators -/

/-- `memcpy` between blocks. Of no bytes, it does not look at its offsets. -/
def memcpy (m : Heap) (dest : ℕ) (destOff : UInt32) (source : ℕ) (off n : UInt32) :
    Except Fault Heap := do
  if n = 0 then return m
  let data ← deref m source
  let bytes ← readBlock data off n
  writeBlock m dest destOff bytes

/-- `memset` to zeros. -/
def memset (m : Heap) (dest : ℕ) (destOff n : UInt32) : Except Fault Heap :=
  if n = 0 then .ok m else writeBlock m dest destOff (List.replicate n.toNat 0)

/-- `Buffer::Iterator::WriteU8` of some zeros, at the offset `current`. -/
def WriteZeros (m : Heap) (b : Handle) (current len : UInt32) : Except Fault Heap :=
  if ¬ CheckNoZero b current.toNat (current + len).toNat then .error .abort
  else if current ≤ b.m_zeroAreaStart then memset m b.m_data current len
  else memset m b.m_data (current - (b.m_zeroAreaEnd - b.m_zeroAreaStart)) len

/-- What `Write` changes: `m_current`, `start.m_current` and `size`. -/
structure Transfer where
  heap : Heap
  current : UInt32
  start : UInt32
  size : UInt32

/-- The bytes before the zero area. -/
def writeFirst (b o : Handle) (t : Transfer) : Except Fault Transfer :=
  if t.start ≤ o.m_zeroAreaStart then
    let toCopy := min t.size (o.m_zeroAreaStart - t.start)
    (memcpy t.heap b.m_data t.current o.m_data t.start toCopy).map fun m =>
      ⟨m, t.current + toCopy, t.start + toCopy, t.size - toCopy⟩
  else .ok t

/-- The zeros. -/
def writeZeroArea (b o : Handle) (t : Transfer) : Except Fault Transfer :=
  if t.start ≤ o.m_zeroAreaEnd then
    let toCopy := min t.size (o.m_zeroAreaEnd - t.start)
    (memset t.heap b.m_data t.current toCopy).map fun m =>
      ⟨m, t.current + toCopy, t.start + toCopy, t.size - toCopy⟩
  else .ok t

/-- The bytes behind the zero area. -/
def writeLast (b o : Handle) (t : Transfer) : Except Fault Heap :=
  memcpy t.heap b.m_data t.current o.m_data (t.start - (o.m_zeroAreaEnd - o.m_zeroAreaStart))
    (min t.size (o.m_end - t.start))

/-- `Buffer::Iterator::Write` from the offset `start` of another buffer to `stop`. -/
def WriteFrom (m : Heap) (b : Handle) (current : UInt32) (o : Handle) (start stop : UInt32) :
    Except Fault Heap :=
  let size := stop - start
  if ¬ start ≤ stop then .error .abort
  else if b.m_data = o.m_data then .error .abort
  else if ¬ CheckNoZero b current.toNat (current + size).toNat then .error .abort
  else do
    let t ← writeFirst b o ⟨m, current, start, size⟩
    let t ← writeZeroArea b o t
    writeLast b o t

/-- `Buffer::Iterator::Prev`. -/
def Prev (current delta : UInt32) : Except Fault UInt32 :=
  if current < delta then .error .abort else .ok (current - delta)

/-! ### Buffers -/

def CreateFullCopy (m : Heap) (b : Handle) : Except Fault (Heap × Handle) :=
  if b.m_zeroAreaEnd - b.m_zeroAreaStart ≠ 0 then do
    let (m, tmp) ← Initialize m 0
    let (m, tmp) ← AddAtStart m tmp (b.m_zeroAreaEnd - b.m_zeroAreaStart)
    let m ← WriteZeros m tmp tmp.m_start (b.m_zeroAreaEnd - b.m_zeroAreaStart)
    let dataStart := b.m_zeroAreaStart - b.m_start
    let (m, tmp) ← AddAtStart m tmp dataStart
    let bytes ← readBlock (← deref m b.m_data) b.m_start dataStart
    let m ← Write m tmp tmp.m_start bytes
    let dataEnd := b.m_end - b.m_zeroAreaEnd
    let (m, tmp) ← AddAtEnd m tmp dataEnd
    let i ← Prev tmp.m_end dataEnd
    let bytes ← readBlock (← deref m b.m_data) b.m_zeroAreaStart dataEnd
    let m ← Write m tmp i bytes
    return (m, tmp)
  else copy m b

/-- The zero area of the buffer is followed by the one of the other. -/
def MeetsZeros (d : Data) (b o : Handle) : Prop :=
  d.m_count = 1 ∧ b.m_end = b.m_zeroAreaEnd ∧ b.m_end = d.m_dirtyEnd ∧
    o.m_start = o.m_zeroAreaStart ∧ 0 < o.m_zeroAreaEnd - o.m_zeroAreaStart

instance (d : Data) (b o : Handle) : Decidable (MeetsZeros d b o) :=
  inferInstanceAs (Decidable (_ ∧ _ ∧ _ ∧ _ ∧ _))

/-- The buffer with both zero areas. -/
def mergeZeros (b o : Handle) : Handle :=
  let zeroSize := o.m_zeroAreaEnd - o.m_zeroAreaStart
  { b with m_zeroAreaEnd := b.m_zeroAreaEnd + zeroSize, m_end := b.m_zeroAreaEnd + zeroSize }

/-- `AddAtEnd` of another buffer. -/
def AddAtEndBuffer (m : Heap) (b o : Handle) : Except Fault (Heap × Handle) := do
  let data ← deref m b.m_data
  if MeetsZeros data b o then
    let b := mergeZeros b o
    let m := m.set b.m_data { data with m_dirtyEnd := b.m_zeroAreaEnd }
    let endData := o.m_end - o.m_zeroAreaEnd
    let (m, b) ← AddAtEnd m b endData
    let dst ← Prev b.m_end endData
    let src ← Prev o.m_end endData
    let m ← WriteFrom m b dst o src o.m_end
    return (m, b)
  else
    let (m, tmp) ← CreateFullCopy m b
    let (m, b) ← assign m b tmp
    let m ← destroy m tmp
    let (m, b) ← AddAtEnd m b (GetSize o)
    let destStart ← Prev b.m_end (GetSize o)
    let m ← WriteFrom m b destStart o o.m_start o.m_end
    return (m, b)

end Ns3Joined.Network.Buffer
