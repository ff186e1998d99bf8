import Mathlib.Data.UInt
import Ns3Joined.Core.Scheduler

/-!
# The calendar scheduler

`CalendarScheduler` (`core/model/calendar-scheduler.cc`): a calendar queue. Time is cut into
days of `width` ticks, and the days are dealt to the buckets in turn. The search for the next
event starts at the bucket of the last one removed and goes once around; `bucketTop` is the
end of the day it is looking at. The number of buckets and the width follow the number of
events.

Numbers of 64 bits wrap. `wrapped` is not in the source: it notes that the computation of a
bucket top did. Where the source would divide by zero the result is an error.
-/

namespace Ns3Joined.Core

structure CalendarScheduler where
  buckets : Array (List Event)
  nBuckets : ℕ
  width : UInt64
  lastPrio : UInt64
  lastBucket : ℕ
  bucketTop : UInt64
  qSize : UInt32
  wrapped : Bool

namespace CalendarScheduler

/-- The end of the day of a time stamp, before it is cut to 64 bits. -/
def dayEnd (width ts : UInt64) : ℕ := (ts.toNat / width.toNat + 1) * width.toNat

def Hash (s : CalendarScheduler) (ts : UInt64) : ℕ := (ts / s.width).toNat % s.nBuckets

/-- `Init`. The number of events stays. -/
def Init (s : CalendarScheduler) (nBuckets : ℕ) (width startPrio : UInt64) : CalendarScheduler :=
  { s with
    buckets := Array.replicate nBuckets []
    nBuckets := nBuckets
    width := width
    lastPrio := startPrio
    lastBucket := (startPrio / width).toNat % nBuckets
    bucketTop := (startPrio / width + 1) * width
    wrapped := s.wrapped || decide (2 ^ 64 ≤ dayEnd width startPrio) }

/-- `CalendarScheduler()`. -/
def create : CalendarScheduler :=
  Init ⟨#[], 0, 0, 0, 0, 0, 0, false⟩ 2 1 0

/-- The loop of `DoInsert`: before the first event that comes later. -/
def insertInBucket (ev : Event) : List Event → List Event
  | [] => [ev]
  | first :: bucket =>
    if ev.rank < first.rank then ev :: first :: bucket
    else first :: insertInBucket ev bucket

def DoInsert (s : CalendarScheduler) (ev : Event) : CalendarScheduler :=
  let bucket := s.Hash ev.key.ts
  { s with buckets := s.buckets.setIfInBounds bucket (insertInBucket ev s.buckets[bucket]!) }

def IsEmpty (s : CalendarScheduler) : Bool := s.qSize == 0

/-! ### The search around the buckets -/

/-- What the loops of `PeekNext` and `DoRemoveNext` hold: the bucket, the end of its day, and
the earliest of the first events seen so far, with its bucket. -/
structure Scan where
  i : ℕ
  bucketTop : UInt64
  min : Event
  minBucket : Option ℕ
  wrapped : Bool

/-- On to the next bucket and the next day. -/
def Scan.advance (s : CalendarScheduler) (scan : Scan) : Scan :=
  { scan with
    i := (scan.i + 1) % s.nBuckets
    bucketTop := scan.bucketTop + s.width
    wrapped := scan.wrapped || decide (2 ^ 64 ≤ scan.bucketTop.toNat + s.width.toNat) }

/-- The first event of a bucket, when it is not due, against the earliest one so far. -/
def Scan.see (scan : Scan) (next : Event) : Scan :=
  if next.rank < scan.min.rank then { scan with min := next, minBucket := some scan.i } else scan

/-- The loop, for a number of buckets: where it ends, and the event that is due there. -/
def search (s : CalendarScheduler) : ℕ → Scan → Scan × Option Event
  | 0, scan => (scan, none)
  | rounds + 1, scan =>
    match s.buckets[scan.i]!.head? with
    | none => search s rounds (scan.advance s)
    | some next =>
      if next.key.ts < scan.bucketTop then (scan, some next)
      else search s rounds ((scan.see next).advance s)

/-- The loop of either function, from the last bucket once around. -/
def searchAll (s : CalendarScheduler) (sentinel : Event) : Scan × Option Event :=
  s.search s.nBuckets ⟨s.lastBucket, s.bucketTop, sentinel, none, s.wrapped⟩

/-- `minEvent` of `PeekNext`. -/
def peekSentinel : Event := ⟨0, ⟨2 ^ 64 - 1, 2 ^ 32 - 1, 0⟩⟩

/-- `minKey` of `DoRemoveNext`. -/
def removeSentinel : Event := ⟨0, ⟨2 ^ 64 - 1, 0, 2 ^ 32 - 1⟩⟩

def PeekNext (s : CalendarScheduler) : Except Fault (CalendarScheduler × Event) :=
  if s.IsEmpty then .error .abort
  else
    match s.searchAll peekSentinel with
    | (scan, some next) => .ok ({ s with wrapped := scan.wrapped }, next)
    | (scan, none) => .ok ({ s with wrapped := scan.wrapped }, scan.min)

/-- `m_buckets[bucket].pop_front()`. -/
def popFront (s : CalendarScheduler) (bucket : ℕ) : CalendarScheduler :=
  { s with buckets := s.buckets.setIfInBounds bucket s.buckets[bucket]!.tail }

/-- When no bucket has a first event before the sentinel, `minBucket` is still `-1`. -/
def DoRemoveNext (s : CalendarScheduler) : Except Fault (CalendarScheduler × Event) :=
  if s.IsEmpty then .error .abort
  else
    match s.searchAll removeSentinel with
    | (scan, some next) =>
      .ok (popFront
        { s with
          lastBucket := scan.i
          lastPrio := next.key.ts
          bucketTop := scan.bucketTop
          wrapped := scan.wrapped } scan.i, next)
    | (scan, none) =>
      match scan.minBucket with
      | none => .error .undefined
      | some minBucket =>
        .ok (popFront
          { s with
            lastPrio := scan.min.key.ts
            lastBucket := s.Hash scan.min.key.ts
            bucketTop := (scan.min.key.ts / s.width + 1) * s.width
            wrapped := scan.wrapped || decide (2 ^ 64 ≤ dayEnd s.width scan.min.key.ts) }
          minBucket, s.buckets[minBucket]!.headI)

/-! ### Resizing -/

/-- `nSamples`. -/
def numSamples (qSize : ℕ) : ℕ := min (if qSize ≤ 5 then qSize else 5 + qSize / 10) 25

/-- The differences between neighbours. -/
def separations : List UInt64 → List UInt64
  | cur :: next :: samples => (next - cur) :: separations (next :: samples)
  | _ => []

/-- The width for the time stamps of the samples: three times the sum of the separations
that are not larger than twice the average. -/
def newWidth (samples : List UInt64) : UInt64 :=
  let diffs := separations samples
  let twiceAvg := diffs.sum / UInt64.ofNat (samples.length - 1) * 2
  max ((diffs.filter (· ≤ twiceAvg)).sum * 3) 1

/-- The first loop of `CalculateNewWidth`. -/
def gather : ℕ → CalendarScheduler → Except Fault (CalendarScheduler × List Event)
  | 0, s => .ok (s, [])
  | n + 1, s => do
    let (s, ev) ← s.DoRemoveNext
    let (s, samples) ← gather n s
    return (s, ev :: samples)

def CalculateNewWidth (s : CalendarScheduler) : Except Fault (CalendarScheduler × UInt64) :=
  if s.qSize < 2 then .ok (s, 1)
  else do
    let (s', samples) ← gather (numSamples s.qSize.toNat) s
    let s' := samples.foldl DoInsert s'
    let s' :=
      { s' with lastBucket := s.lastBucket, bucketTop := s.bucketTop, lastPrio := s.lastPrio }
    if samples.length - 1 = 0 then .error .undefined
    else return (s', newWidth (samples.map fun ev => ev.key.ts))

/-- `DoResize`: the events go to new buckets, one old bucket after the other. -/
def DoResize (s : CalendarScheduler) (newSize : ℕ) (newWidth : UInt64) : CalendarScheduler :=
  s.buckets.toList.flatten.foldl DoInsert (s.Init newSize newWidth s.lastPrio)

def Resize (s : CalendarScheduler) (newSize : ℕ) : Except Fault CalendarScheduler := do
  let (s, newWidth) ← s.CalculateNewWidth
  if newSize = 0 ∨ newWidth = 0 then .error .undefined
  else return s.DoResize newSize newWidth

def ResizeUp (s : CalendarScheduler) : Except Fault CalendarScheduler :=
  if s.nBuckets * 2 < s.qSize.toNat ∧ s.nBuckets < 32768 then s.Resize (s.nBuckets * 2) else .ok s

def ResizeDown (s : CalendarScheduler) : Except Fault CalendarScheduler :=
  if s.qSize.toNat < s.nBuckets / 2 then s.Resize (s.nBuckets / 2) else .ok s

/-! ### Calls -/

def Insert (s : CalendarScheduler) (ev : Event) : Except Fault CalendarScheduler :=
  let s := s.DoInsert ev
  ResizeUp { s with qSize := s.qSize + 1 }

def RemoveNext (s : CalendarScheduler) : Except Fault (CalendarScheduler × Event) := do
  let (s, ev) ← s.DoRemoveNext
  let s ← ResizeDown { s with qSize := s.qSize - 1 }
  return (s, ev)

/-- `Remove`: the first event of the bucket with the uid. -/
def Remove (s : CalendarScheduler) (ev : Event) : Except Fault CalendarScheduler :=
  let bucket := s.Hash ev.key.ts
  if s.IsEmpty then .error .abort
  else
    match s.buckets[bucket]!.find? fun ev' => ev'.key.uid == ev.key.uid with
    | none => .error .abort
    | some ev' =>
      if ev'.impl = ev.impl then
        ResizeDown
          { s with
            buckets := s.buckets.setIfInBounds bucket (s.buckets[bucket]!.erase ev')
            qSize := s.qSize - 1 }
      else .error .abort

def step (s : CalendarScheduler) : SchedulerCall →
    Except Fault (CalendarScheduler × Option Event)
  | .insert ev => (s.Insert ev).map (·, none)
  | .peekNext => s.PeekNext.map fun r => (r.1, some r.2)
  | .removeNext => s.RemoveNext.map fun r => (r.1, some r.2)
  | .remove ev => (s.Remove ev).map (·, none)

end CalendarScheduler
end Ns3Joined.Core
