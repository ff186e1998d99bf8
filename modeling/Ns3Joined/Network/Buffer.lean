import Mathlib.Data.UInt
import Ns3Joined.Fault
import Ns3Joined.Library.Area

/-!
# Buffers

`Buffer` (`network/model/buffer.cc`): bytes that buffers share until one of them is changed. A
buffer refers to a counted block of bytes and holds offsets into it, which are virtual: between
`m_zeroAreaStart` and `m_zeroAreaEnd` are zeros that are not in the block. A buffer may grow in
place when the bytes it takes are outside of the dirty area of the block.

Blocks are known by their addresses. Reading or writing outside of a block, or one that was
freed, is undefined; what is in a new block is arbitrary (`junk`). Blocks that are no longer
used go to a free list and are taken from it again.
-/

namespace Ns3Joined.Network.Buffer

open Function

/-- `Buffer::Data`. -/
structure Data where
  m_count : UInt32
  m_size : UInt32
  m_dirtyStart : UInt32
  m_dirtyEnd : UInt32
  m_data : ℕ → UInt8

/-- The blocks and the static variables of the class. -/
structure Heap where
  data : ℕ → Option Data
  fresh : ℕ
  junk : ℕ → ℕ → UInt8
  g_freeList : List ℕ
  g_maxSize : UInt32
  g_recommendedStart : UInt32

/-- A `Buffer`. -/
structure Handle where
  m_data : ℕ
  m_maxZeroAreaStart : UInt32
  m_zeroAreaStart : UInt32
  m_zeroAreaEnd : UInt32
  m_start : UInt32
  m_end : UInt32
deriving DecidableEq, Repr

/-! ### Blocks -/

def deref (m : Heap) (address : ℕ) : Except Fault Data :=
  match m.data address with
  | none => .error .undefined
  | some data => .ok data

def Heap.set (m : Heap) (address : ℕ) (data : Data) : Heap :=
  { m with data := update m.data address (some data) }

def Deallocate (m : Heap) (address : ℕ) : Heap :=
  { m with data := update m.data address none }

/-- `sizeof (struct Buffer::Data)`. -/
def sizeofData : ℕ := 20

/-- The size of the memory is a `uint32_t` as well: where it comes around, there is less memory
than `m_size` says. -/
def Allocate (m : Heap) (reqSize : UInt32) : Except Fault (Heap × ℕ) :=
  let reqSize := if reqSize = 0 then 1 else reqSize
  if reqSize.toNat - 1 + sizeofData < 2 ^ 32 then
    .ok ({ m with
      data := update m.data m.fresh (some ⟨1, reqSize, 0, 0, m.junk m.fresh⟩)
      fresh := m.fresh + 1 }, m.fresh)
  else .error .undefined

def Recycle (m : Heap) (address : ℕ) (data : Data) : Heap :=
  let m := { m with g_maxSize := max m.g_maxSize data.m_size }
  if data.m_size < m.g_maxSize ∨ 1000 < m.g_freeList.length then Deallocate m address
  else { m with g_freeList := address :: m.g_freeList }

/-- The loop of `Create`, over the free list from its back. -/
def createFrom (m : Heap) (dataSize : UInt32) : List ℕ → Except Fault (Heap × ℕ)
  | [] => Allocate { m with g_freeList := [] } dataSize
  | address :: freeList => do
    let data ← deref m address
    if dataSize ≤ data.m_size then
      let m := { m with g_freeList := freeList }
      return (m.set address { data with m_count := 1 }, address)
    else createFrom (Deallocate m address) dataSize freeList

def Create (m : Heap) (dataSize : UInt32) : Except Fault (Heap × ℕ) :=
  createFrom m dataSize m.g_freeList

/-- A reference less. -/
def release (m : Heap) (address : ℕ) : Except Fault Heap := do
  let data ← deref m address
  let data := { data with m_count := data.m_count - 1 }
  let m := m.set address data
  return if data.m_count = 0 then Recycle m address data else m

/-- `memcpy` from a block. -/
def readBlock (data : Data) (off n : UInt32) : Except Fault (List UInt8) :=
  if off.toNat + n.toNat ≤ data.m_size.toNat then
    .ok (Area.read data.m_data off.toNat n.toNat)
  else .error .undefined

/-- `memcpy` to a block. -/
def writeBlock (m : Heap) (address : ℕ) (off : UInt32) (bytes : List UInt8) :
    Except Fault Heap := do
  let data ← deref m address
  if off.toNat + bytes.length ≤ data.m_size.toNat then
    return m.set address { data with m_data := Area.write data.m_data off.toNat bytes }
  else throw .undefined

/-! ### Buffers -/

def GetSize (b : Handle) : UInt32 := b.m_end - b.m_start

def GetInternalSize (b : Handle) : UInt32 :=
  b.m_zeroAreaStart - b.m_start + b.m_end - b.m_zeroAreaEnd

def GetInternalEnd (b : Handle) : UInt32 := b.m_end - (b.m_zeroAreaEnd - b.m_zeroAreaStart)

def Initialize (m : Heap) (zeroSize : UInt32) : Except Fault (Heap × Handle) := do
  let (m, address) ← Create m 0
  let data ← deref m address
  let start := min data.m_size m.g_recommendedStart
  let b : Handle := ⟨address, start, start, start + zeroSize, start, start + zeroSize⟩
  return (m.set address { data with m_dirtyStart := b.m_start, m_dirtyEnd := b.m_end }, b)

/-- The copy constructor. -/
def copy (m : Heap) (o : Handle) : Except Fault (Heap × Handle) := do
  let data ← deref m o.m_data
  return (m.set o.m_data { data with m_count := data.m_count + 1 },
    { o with m_maxZeroAreaStart := o.m_zeroAreaStart })

/-- `operator =`. -/
def assign (m : Heap) (b o : Handle) : Except Fault (Heap × Handle) := do
  let m ←
    if b.m_data = o.m_data then pure m
    else do
      let m ← release m b.m_data
      let data ← deref m o.m_data
      pure (m.set o.m_data { data with m_count := data.m_count + 1 })
  return ({ m with g_recommendedStart := max m.g_recommendedStart b.m_maxZeroAreaStart }, o)

/-- The destructor. -/
def destroy (m : Heap) (b : Handle) : Except Fault Heap :=
  release { m with g_recommendedStart := max m.g_recommendedStart b.m_maxZeroAreaStart } b.m_data

/-- The buffer in another block, its bytes from the offset `start` on. -/
def relocate (b : Handle) (address : ℕ) (start : UInt32) : Handle :=
  let delta := start - b.m_start
  { b with
    m_data := address
    m_zeroAreaStart := b.m_zeroAreaStart + delta
    m_zeroAreaEnd := b.m_zeroAreaEnd + delta
    m_start := b.m_start + delta
    m_end := b.m_end + delta }

/-- What `AddAtStart` and `AddAtEnd` have in common: a block with room for `grow` more bytes,
with the bytes there are from the offset `start` on. -/
def moveToNew (m : Heap) (b : Handle) (start grow : UInt32) : Except Fault (Heap × Handle) := do
  let (m, address) ← Create m (GetInternalSize b + grow)
  let data ← deref m b.m_data
  let bytes ← readBlock data b.m_start (GetInternalSize b)
  let m ← writeBlock m address start bytes
  let m ← release m b.m_data
  return (m, relocate b address start)

def updateDirty (m : Heap) (b : Handle) : Except Fault Heap := do
  let data ← deref m b.m_data
  return m.set b.m_data { data with m_dirtyStart := b.m_start, m_dirtyEnd := b.m_end }

def updateMaxZeroAreaStart (b : Handle) : Handle :=
  { b with m_maxZeroAreaStart := max b.m_maxZeroAreaStart b.m_zeroAreaStart }

def AddAtStart (m : Heap) (b : Handle) (start : UInt32) : Except Fault (Heap × Handle) := do
  let data ← deref m b.m_data
  let isDirty := 1 < data.m_count ∧ data.m_dirtyStart < b.m_start
  if start ≤ b.m_start ∧ ¬ isDirty then
    if ¬ (data.m_count = 1 ∨ b.m_start = data.m_dirtyStart) then throw .abort
    let b := { b with m_start := b.m_start - start }
    let m := m.set b.m_data { data with m_dirtyStart := b.m_start }
    return (m, updateMaxZeroAreaStart b)
  else
    let (m, b) ← moveToNew m b start start
    let b := { b with m_start := b.m_start - start }
    let m ← updateDirty m b
    return (m, updateMaxZeroAreaStart b)

def AddAtEnd (m : Heap) (b : Handle) (grow : UInt32) : Except Fault (Heap × Handle) := do
  let data ← deref m b.m_data
  let isDirty := 1 < data.m_count ∧ b.m_end < data.m_dirtyEnd
  if GetInternalEnd b + grow ≤ data.m_size ∧ ¬ isDirty then
    if ¬ (data.m_count = 1 ∨ b.m_end = data.m_dirtyEnd) then throw .abort
    let b := { b with m_end := b.m_end + grow }
    let m := m.set b.m_data { data with m_dirtyEnd := b.m_end }
    return (m, updateMaxZeroAreaStart b)
  else
    let (m, b) ← moveToNew m b 0 grow
    let b := { b with m_end := b.m_end + grow }
    let m ← updateDirty m b
    return (m, updateMaxZeroAreaStart b)

def RemoveAtStart (b : Handle) (start : UInt32) : Handle :=
  let newStart := b.m_start + start
  updateMaxZeroAreaStart <|
    if newStart ≤ b.m_zeroAreaStart then { b with m_start := newStart }
    else if newStart ≤ b.m_zeroAreaEnd then
      let delta := newStart - b.m_zeroAreaStart
      { b with
        m_start := b.m_zeroAreaStart
        m_zeroAreaEnd := b.m_zeroAreaEnd - delta
        m_end := b.m_end - delta }
    else if newStart ≤ b.m_end then
      let zeroSize := b.m_zeroAreaEnd - b.m_zeroAreaStart
      { b with
        m_start := newStart - zeroSize
        m_end := b.m_end - zeroSize
        m_zeroAreaStart := newStart - zeroSize
        m_zeroAreaEnd := newStart - zeroSize }
    else
      let last := b.m_end - (b.m_zeroAreaEnd - b.m_zeroAreaStart)
      { b with
        m_end := last
        m_start := last
        m_zeroAreaEnd := last
        m_zeroAreaStart := last }

def RemoveAtEnd (b : Handle) (remove : UInt32) : Handle :=
  let newEnd := b.m_end - min remove (b.m_end - b.m_start)
  updateMaxZeroAreaStart <|
    if b.m_zeroAreaEnd < newEnd then { b with m_end := newEnd }
    else if b.m_zeroAreaStart < newEnd then { b with m_end := newEnd, m_zeroAreaEnd := newEnd }
    else if b.m_start < newEnd then
      { b with
        m_end := newEnd
        m_zeroAreaEnd := newEnd
        m_zeroAreaStart := newEnd }
    else
      { b with
        m_end := b.m_start
        m_zeroAreaEnd := b.m_start
        m_zeroAreaStart := b.m_start }

def CreateFragment (m : Heap) (b : Handle) (start length : UInt32) :
    Except Fault (Heap × Handle) := do
  let (m, tmp) ← copy m b
  let tmp := RemoveAtStart tmp start
  return (m, RemoveAtEnd tmp (GetSize b - (start + length)))

/-! ### Iterators -/

/-- `Buffer::Iterator::Check`. -/
def Check (b : Handle) (i : ℕ) : Bool :=
  b.m_start.toNat ≤ i && !(b.m_zeroAreaStart.toNat ≤ i && i < b.m_zeroAreaEnd.toNat) &&
    i ≤ b.m_end.toNat

/-- `Buffer::Iterator::CheckNoZero`. -/
def CheckNoZero (b : Handle) (start stop : ℕ) : Bool :=
  (List.range (stop - start)).all fun k => Check b (start + k)

/-- `Buffer::Iterator::Write` at the offset `current`. The assertion gives the size where
`CheckNoZero` expects an offset. -/
def Write (m : Heap) (b : Handle) (current : UInt32) (bytes : List UInt8) :
    Except Fault Heap :=
  if ¬ CheckNoZero b current.toNat bytes.length then .error .abort
  else if current ≤ b.m_zeroAreaStart then writeBlock m b.m_data current bytes
  else writeBlock m b.m_data (current - (b.m_zeroAreaEnd - b.m_zeroAreaStart)) bytes

/-- `CopyData` to memory. -/
def CopyData (m : Heap) (b : Handle) (size : UInt32) : Except Fault (List UInt8) := do
  let data ← deref m b.m_data
  let first := min (b.m_zeroAreaStart - b.m_start) size
  let bytes ← readBlock data b.m_start first
  let size := size - first
  let zeros := min (b.m_zeroAreaEnd - b.m_zeroAreaStart) size
  let size := size - zeros
  let last := min (b.m_end - b.m_zeroAreaEnd) size
  let rest ← readBlock data b.m_zeroAreaStart last
  return bytes ++ List.replicate zeros.toNat 0 ++ rest

/-! ### Calls -/

/-- The buffers of a program, which are numbered as they are made. -/
structure Buffers where
  heap : Heap
  buffers : List Handle

/-- A call on one of the buffers. Bytes that are added are written at once. -/
inductive Call
  | construct (dataSize : UInt32)
  | copy (o : ℕ)
  | assign (i o : ℕ)
  | destroy (i : ℕ)
  | addAtStart (i : ℕ) (bytes : List UInt8)
  | addAtEnd (i : ℕ) (bytes : List UInt8)
  | removeAtStart (i : ℕ) (start : UInt32)
  | removeAtEnd (i : ℕ) (remove : UInt32)
  | createFragment (i : ℕ) (start length : UInt32)
  | copyData (i : ℕ) (size : UInt32)
deriving DecidableEq, Repr

/-- The buffer with the number `i`. -/
def get (s : Buffers) (i : ℕ) : Except Fault Handle :=
  match s.buffers[i]? with
  | none => .error .undefined
  | some b => .ok b

def size (bytes : List UInt8) : UInt32 := UInt32.ofNat bytes.length

def step (s : Buffers) : Call → Except Fault (Buffers × Option (List UInt8))
  | .construct dataSize => do
    let (m, b) ← Initialize s.heap dataSize
    return (⟨m, s.buffers ++ [b]⟩, none)
  | .copy o => do
    let (m, b) ← copy s.heap (← get s o)
    return (⟨m, s.buffers ++ [b]⟩, none)
  | .assign i o => do
    let (m, b) ← assign s.heap (← get s i) (← get s o)
    return (⟨m, s.buffers.set i b⟩, none)
  | .destroy i => do
    let m ← destroy s.heap (← get s i)
    return (⟨m, s.buffers.eraseIdx i⟩, none)
  | .addAtStart i bytes => do
    let (m, b) ← AddAtStart s.heap (← get s i) (size bytes)
    let m ← Write m b b.m_start bytes
    return (⟨m, s.buffers.set i b⟩, none)
  | .addAtEnd i bytes => do
    let (m, b) ← AddAtEnd s.heap (← get s i) (size bytes)
    -- the assertion of `Prev`
    if b.m_end < size bytes then throw .abort
    let m ← Write m b (b.m_end - size bytes) bytes
    return (⟨m, s.buffers.set i b⟩, none)
  | .removeAtStart i start => do
    return (⟨s.heap, s.buffers.set i (RemoveAtStart (← get s i) start)⟩, none)
  | .removeAtEnd i remove => do
    return (⟨s.heap, s.buffers.set i (RemoveAtEnd (← get s i) remove)⟩, none)
  | .createFragment i start length => do
    let (m, b) ← CreateFragment s.heap (← get s i) start length
    return (⟨m, s.buffers ++ [b]⟩, none)
  | .copyData i size => do
    return (s, some (← CopyData s.heap (← get s i) size))

/-- No buffers yet. -/
def initial (junk : ℕ → ℕ → UInt8) : Buffers := ⟨⟨fun _ => none, 0, junk, [], 0, 0⟩, []⟩

end Ns3Joined.Network.Buffer
