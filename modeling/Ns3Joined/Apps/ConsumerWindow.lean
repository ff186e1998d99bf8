import Mathlib.Data.UInt
import Ns3Joined.Fault
import Ns3Joined.Library.SortedList
import Ns3Joined.Library.TracedRun

/-!
# The window-based consumer

`Consumer` and `ConsumerWindow` (`ndnSIM/apps/ndn-consumer.cpp`, `ndn-consumer-window.cpp`): an
application that keeps as many Interests in flight as its window allows. A Data widens the
window, a timeout sets it back.

The forwarder answers through scheduled events, so sends, Data, Nacks and timeouts are calls
that come one after the other, in any order. `m_sendEvent` is a flag, the event is scheduled
or it is not: when it runs is up to the run. The tables of delays and retransmissions and the
estimator of round trips feed traces, and the timeout, which comes with the call.
-/

namespace Ns3Joined.Apps

structure SeqTimeout where
  seq : UInt32
  time : ℤ
deriving DecidableEq, Repr

/-- The state. `m_window` is a `double` that holds a whole number. -/
structure ConsumerWindow where
  active : Bool
  seq : UInt32
  seqMax : UInt32
  sendEvent : Bool
  retxSeqs : List UInt32
  seqTimeouts : List SeqTimeout
  initialWindow : UInt32
  setInitialWindowOnTimeout : Bool
  window : ℕ
  inFlight : UInt32

/-- What happens in a call: an Interest is sent, answered or timed out, the window changes. -/
inductive Action
  | sent (seq : UInt32)
  | answered (seq : UInt32)
  | timedOut (seq : UInt32)
  | window (w : ℕ)
deriving DecidableEq, Repr

namespace ConsumerWindow

def create (initialWindow : UInt32) (setInitialWindowOnTimeout : Bool) (seq seqMax : UInt32) :
    ConsumerWindow :=
  ⟨false, seq, seqMax, false, [], [], initialWindow, setInitialWindowOnTimeout,
    initialWindow.toNat, 0⟩

/-- `m_seqTimeouts.insert`: numbers are unique, the entries in the order of their times. -/
def insertTimeout (entry : SeqTimeout) (seqTimeouts : List SeqTimeout) : List SeqTimeout :=
  if entry.seq ∈ seqTimeouts.map SeqTimeout.seq then seqTimeouts
  else seqTimeouts.orderedInsert (fun a b => a.time < b.time) entry

/-- One more, as a `double`: from 2^53 on there is no next whole number. -/
def addOne (window : ℕ) : ℕ := if window < 2 ^ 53 then window + 1 else window

def ScheduleNextPacket (s : ConsumerWindow) : ConsumerWindow :=
  if s.window = 0 then { s with sendEvent := true }
  else if s.window ≤ s.inFlight.toNat then s
  else { s with sendEvent := true }

def WillSendOutInterest (s : ConsumerWindow) (sequenceNumber : UInt32) (now : ℤ) :
    ConsumerWindow :=
  { s with
    inFlight := s.inFlight + 1
    seqTimeouts := insertTimeout ⟨sequenceNumber, now⟩ s.seqTimeouts }

/-- The end of `SendPacket`, once it is clear what is sent. -/
def send (s : ConsumerWindow) (seq : UInt32) (now : ℤ) : ConsumerWindow × List Action :=
  ((s.WillSendOutInterest seq now).ScheduleNextPacket, [.sent seq])

/-- What `SendPacket` sends when there is nothing to retransmit. -/
def sendNext (s : ConsumerWindow) (now : ℤ) : ConsumerWindow × List Action :=
  if s.seqMax ≠ 0xffffffff ∧ s.seqMax ≤ s.seq then (s, [])
  else send { s with seq := s.seq + 1 } s.seq now

def SendPacket (s : ConsumerWindow) (now : ℤ) : ConsumerWindow × List Action :=
  if s.active = false then (s, [])
  else
    match s.retxSeqs with
    | [] => s.sendNext now
    | seq :: retxSeqs =>
      -- the largest number stands for none
      if seq = 0xffffffff then sendNext { s with retxSeqs := retxSeqs } now
      else send { s with retxSeqs := retxSeqs } seq now

/-- The scheduled event, if there is one. -/
def runSendEvent (s : ConsumerWindow) (now : ℤ) : ConsumerWindow × List Action :=
  if s.sendEvent then SendPacket { s with sendEvent := false } now else (s, [])

/-- `Consumer::OnData`. -/
def forget (s : ConsumerWindow) (seq : UInt32) : ConsumerWindow :=
  if s.active then
    { s with
      seqTimeouts := s.seqTimeouts.filter fun entry => entry.seq ≠ seq
      retxSeqs := s.retxSeqs.filter fun seq' => seq' ≠ seq }
  else s

def decrement (inFlight : UInt32) : UInt32 := if 0 < inFlight then inFlight - 1 else inFlight

def OnData (s : ConsumerWindow) (sequenceNumber : UInt64) : ConsumerWindow × List Action :=
  let seq := sequenceNumber.toUInt32
  let s := s.forget seq
  let s := { s with window := addOne s.window, inFlight := decrement s.inFlight }
  (s.ScheduleNextPacket, [.answered seq, .window s.window])

def OnTimeout (s : ConsumerWindow) (sequenceNumber : UInt32) : ConsumerWindow × List Action :=
  let s :=
    { s with
      inFlight := decrement s.inFlight
      window := if s.setInitialWindowOnTimeout then s.initialWindow.toNat else s.window
      retxSeqs := (SortedList.emplace UInt32.toNat sequenceNumber s.retxSeqs).1 }
  (s.ScheduleNextPacket, [.timedOut sequenceNumber, .window s.window])

/-- The loop of `CheckRetxTimeout`. Each turn erases an entry. -/
def checkTimeouts (now rto : ℤ) : ℕ → ConsumerWindow → ConsumerWindow × List Action
  | 0, s => (s, [])
  | fuel + 1, s =>
    match s.seqTimeouts with
    | [] => (s, [])
    | entry :: seqTimeouts =>
      if entry.time + rto ≤ now then
        let (s, actions) := OnTimeout { s with seqTimeouts := seqTimeouts } entry.seq
        let (s, actions') := checkTimeouts now rto fuel s
        (s, actions ++ actions')
      else (s, [])

def CheckRetxTimeout (s : ConsumerWindow) (now rto : ℤ) : ConsumerWindow × List Action :=
  checkTimeouts now rto s.seqTimeouts.length s

def StartApplication (s : ConsumerWindow) : Except Fault ConsumerWindow :=
  if s.active then .error .abort else .ok (ScheduleNextPacket { s with active := true })

def StopApplication (s : ConsumerWindow) : ConsumerWindow :=
  { s with sendEvent := false, active := false }

/-! ### Calls -/

/-- A Nack is only traced. -/
inductive Call
  | startApplication
  | stopApplication
  | sendEvent (now : ℤ)
  | onData (sequenceNumber : UInt64)
  | onNack
  | checkRetxTimeout (now rto : ℤ)
deriving DecidableEq, Repr

def step (s : ConsumerWindow) : Call → Except Fault (ConsumerWindow × List Action)
  | .startApplication => s.StartApplication.map (·, [])
  | .stopApplication => .ok (s.StopApplication, [])
  | .sendEvent now => .ok (s.runSendEvent now)
  | .onData sequenceNumber => .ok (s.OnData sequenceNumber)
  | .onNack => .ok (s, [])
  | .checkRetxTimeout now rto => .ok (s.CheckRetxTimeout now rto)

end ConsumerWindow
end Ns3Joined.Apps
