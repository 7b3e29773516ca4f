import Ctxmux.Machine
import Ctxmux.MapTotals

/-!
# Daemon diagnostics

The diagnostic sink of the daemon: any number of threads record, one writer owns the
descriptor, and an unbounded channel lies between them. Every atomic operation of a
record call and of the writer is a step of its own, so calls, writer turns, shutdown
and the retirement of the receiver interleave freely. What a formatter produces and
how much a write accepts are choices of the environment.
-/

namespace Ctxmux
namespace Diagnostic

structure DiagnosticLimits where
  queueBytes : ℕ
  recordBytes : ℕ
  envelopeBytes : ℕ
  deriving DecidableEq, Repr

def u64Max : ℕ := 2^64-1

inductive Counter where
  | admitted | written | writtenBytes | noticeBytes | beforeEncoding | encodedDrops
  | discardedBytes | oversized | formatFailed | writeFailed | partialRecords
  deriving DecidableEq, Repr

structure Counters where
  value : Counter → ℕ
  saturated : Bool

namespace Counters

def initial : Counters := ⟨fun _ => 0,false⟩

/-- A saturating add; a sum that does not fit is marked. -/
def add (c : Counters) (counter : Counter) (amount : ℕ) : Counters where
  value := Function.update c.value counter (min (c.value counter+amount) u64Max)
  saturated := c.saturated || decide (u64Max < c.value counter+amount)

end Counters

/-- How a record call ends. -/
inductive Class where
  | droppedBeforeEncoding | oversized | formatFailed | droppedEncoded | written | partiallyWritten
  deriving DecidableEq, Repr

def Class.counter : Class → Counter
  | .droppedBeforeEncoding => .beforeEncoding
  | .oversized => .oversized
  | .formatFailed => .formatFailed
  | .droppedEncoded => .encodedDrops
  | .written => .written
  | .partiallyWritten => .partialRecords

/-- An encoded record with the bytes that its reservation holds. -/
structure Record where
  call : ℕ
  length : ℕ
  funding : ℕ
  deriving DecidableEq, Repr

inductive Message where
  | record (record : Record)
  | shutdown
  deriving DecidableEq, Repr

/-- Where a record call stands; each phase is the state before its next atomic step. -/
inductive Phase where
  | entered
  | checkingSink
  | reserving
  | reserved
  | formatting
  | encoded (length capacity : ℕ)
  | retained (length funding : ℕ)
  | unguarded (length funding : ℕ)
  | sending (length funding : ℕ)
  | accepted
  | returned (length funding : ℕ)
  | abandoned
  | releasing
  deriving DecidableEq, Repr

inductive SinkState where
  | starting | idle | writing | failed | stopped
  deriving DecidableEq, Repr

structure Losses where
  unformatted : ℕ
  encoded : ℕ
  discardedBytes : ℕ
  oversized : ℕ
  formatFailed : ℕ
  writeFailed : ℕ
  deriving DecidableEq, Repr

def Losses.default : Losses := ⟨0,0,0,0,0,0⟩

inductive WriterPhase where
  | starting
  | waiting
  | received (record : Record)
  | active (record : Record)
  | noticing (record : Record) (current : Losses)
  | writing (record : Record) (confirmed : ℕ)
  | settled (record : Record) (stop : Bool)
  | draining
  | retired
  deriving DecidableEq, Repr

/-- The shared state, the calls in flight, the channel and the writer. `settlements`
records the class of each call when it is counted, `enqueued` the calls whose record
entered the channel and `written` those whose record was written whole. -/
structure State where
  funded : ℕ
  formatting : ℕ
  queued : ℕ
  activeBytes : ℕ
  writerAlive : Bool
  shutdown : Bool
  sink : SinkState
  lastErrno : ℕ
  counters : Counters
  calls : ℕ
  producers : AList fun _ : ℕ => Phase
  channel : List Message
  receiverAlive : Bool
  writer : WriterPhase
  reported : Losses
  settlements : List (ℕ × Class)
  enqueued : List ℕ
  written : List ℕ

def State.initial : State where
  funded := 0
  formatting := 0
  queued := 0
  activeBytes := 0
  writerAlive := false
  shutdown := false
  sink := .starting
  lastErrno := 0
  counters := .initial
  calls := 0
  producers := ∅
  channel := []
  receiverAlive := true
  writer := .starting
  reported := .default
  settlements := []
  enqueued := []
  written := []

/-- What the arguments of a record call format to. A panic unwinds through the guard of
the formatter, which counts it as a failure. -/
inductive Format where
  | encoded (length capacity : ℕ)
  | oversized (length : ℕ)
  | failed (length : ℕ)
  | panicked (length : ℕ)
  deriving DecidableEq, Repr

inductive Turn where
  | proceed
  | sendersGone
  | noticeWrote (count : ℕ)
  | noticeFailed (errno : ℕ)
  | wrote (count : ℕ)
  | writeFailed (errno : ℕ)
  | retire
  deriving DecidableEq, Repr

inductive Event where
  | call
  | producer (call : ℕ) (format : Format)
  | shutdown
  | writer (turn : Turn)
  deriving DecidableEq, Repr

namespace State

def required (l : DiagnosticLimits) : ℕ := l.recordBytes+l.envelopeBytes

def count (s : State) (counter : Counter) (amount : ℕ) : State :=
  { s with counters := s.counters.add counter amount }

/-- The call is counted in its class. -/
def settle (s : State) (call : ℕ) (outcome : Class) : State :=
  { s.count outcome.counter 1 with settlements := s.settlements ++ [(call,outcome)] }

def moveTo (s : State) (call : ℕ) (phase : Phase) : State :=
  { s with producers := s.producers.insert call phase }

def finish (s : State) (call : ℕ) : State := { s with producers := s.producers.erase call }

/-- `Record::discard` of a record that is not settled. -/
def discard (s : State) (record : Record) : State :=
  (s.settle record.call .droppedEncoded).count .discardedBytes record.length

/-- A record that leaves the channel without being written: `received`, `discard` and the
release of its reservation. -/
def dropRecord (s : State) (record : Record) : State :=
  let s := { s with queued := s.queued-1 }.discard record
  { s with funded := s.funded-record.funding }

/-- A formatter that did not produce a record: its guard and reservation are dropped
after it is counted. -/
def abandon (s : State) (call : ℕ) (outcome : Class) (length : ℕ) : State :=
  ((s.count .discardedBytes length).settle call outcome).moveTo call .abandoned

def retainActual (l : DiagnosticLimits) (s : State) (call length capacity : ℕ) : State :=
  let bytes := capacity+l.envelopeBytes
  if bytes ≤ required l then
    { s with funded := s.funded-(required l-bytes) }.moveTo call (.retained length bytes)
  else if s.funded+(bytes-required l) ≤ l.queueBytes then
    { s with funded := s.funded+(bytes-required l) }.moveTo call (.retained length bytes)
  else s.abandon call .droppedEncoded length

/-- One atomic step of a record call. -/
def producer (l : DiagnosticLimits) (s : State) (call : ℕ) (format : Format) : State :=
  match s.producers.lookup call with
  | none => s
  | some .entered =>
    if s.shutdown then (s.settle call .droppedBeforeEncoding).finish call
    else s.moveTo call .checkingSink
  | some .checkingSink =>
    if s.sink = .failed then (s.settle call .droppedBeforeEncoding).finish call
    else s.moveTo call .reserving
  | some .reserving =>
    if s.funded+required l ≤ l.queueBytes then
      { s with funded := s.funded+required l }.moveTo call .reserved
    else (s.settle call .droppedBeforeEncoding).finish call
  | some .reserved => { s with formatting := s.formatting+1 }.moveTo call .formatting
  | some .formatting =>
    match format with
    | .encoded length capacity => s.moveTo call (.encoded length capacity)
    | .oversized length => s.abandon call .oversized length
    | .failed length | .panicked length => s.abandon call .formatFailed length
  | some (.encoded length capacity) => retainActual l s call length capacity
  | some (.retained length funding) =>
    { s with formatting := s.formatting-1 }.moveTo call (.unguarded length funding)
  | some (.unguarded length funding) =>
    { s with queued := s.queued+1 }.moveTo call (.sending length funding)
  | some (.sending length funding) =>
    if s.receiverAlive then
      { s with
        channel := s.channel ++ [Message.record ⟨call,length,funding⟩]
        enqueued := s.enqueued ++ [call] }.moveTo call .accepted
    else s.moveTo call (.returned length funding)
  | some .accepted => (s.count .admitted 1).finish call
  | some (.returned length funding) => (s.dropRecord ⟨call,length,funding⟩).finish call
  | some .abandoned => { s with formatting := s.formatting-1 }.moveTo call .releasing
  | some .releasing => { s with funded := s.funded-required l }.finish call

def shutdownRequest (s : State) : State :=
  if s.shutdown then s
  else
    { s with
      shutdown := true
      channel := if s.receiverAlive then s.channel ++ [.shutdown] else s.channel }

def losses (s : State) : Losses where
  unformatted := s.counters.value .beforeEncoding
  encoded := s.counters.value .encodedDrops
  discardedBytes := s.counters.value .discardedBytes
  oversized := s.counters.value .oversized
  formatFailed := s.counters.value .formatFailed
  writeFailed := s.counters.value .writeFailed

def sinkFailed (s : State) (errno : ℕ) : State :=
  { s.count .writeFailed 1 with lastErrno := errno, sink := .failed }

/-- The writer takes the first message of the channel and drops it. -/
def drainOne (s : State) : State :=
  match s.channel with
  | [] => s
  | .record record::channel => { s with channel := channel }.dropRecord record
  | .shutdown::channel => { s with channel := channel }

def drainAll : ℕ → State → State
  | 0, s => s
  | n+1, s => drainAll n s.drainOne

/-- Dropping the receiver drops what is still in the channel and fails later sends. -/
def retire (s : State) : State :=
  { drainAll s.channel.length s with
    receiverAlive := false
    activeBytes := 0
    sink := if s.sink = .failed then .failed else .stopped
    writerAlive := false
    writer := .retired }

/-- One atomic step of the writer thread. -/
def writerTurn (s : State) (turn : Turn) : State :=
  match s.writer, turn with
  | .starting, .proceed => { s with writerAlive := true, sink := .idle, writer := .waiting }
  | .waiting, .proceed =>
    match s.channel with
    | [] => s
    | .record record::channel =>
      { s with channel := channel, queued := s.queued-1, writer := .received record }
    | .shutdown::channel => { s with channel := channel, writer := .draining }
  | .waiting, .sendersGone => if s.channel = [] then { s with writer := .draining } else s
  | .received record, .proceed =>
    if s.shutdown then { s.discard record with writer := .settled record false }
    else { s with activeBytes := record.length, sink := .writing, writer := .active record }
  | .active record, .proceed =>
    if s.losses = s.reported then { s with writer := .writing record 0 }
    else { s with writer := .noticing record s.losses }
  | .noticing _ _, .noticeWrote count => (s.count .writtenBytes count).count .noticeBytes count
  | .noticing record _, .noticeFailed errno =>
    { (s.discard record).sinkFailed errno with writer := .settled record true }
  | .noticing record current, .proceed =>
    { s with reported := current, writer := .writing record 0 }
  | .writing record confirmed, .wrote count =>
    if 0 < count ∧ confirmed+count ≤ record.length then
      { s.count .writtenBytes count with writer := .writing record (confirmed+count) }
    else s
  | .writing record confirmed, .writeFailed errno =>
    if confirmed < record.length then
      { ((s.settle record.call (if confirmed = 0 then .droppedEncoded else .partiallyWritten)).count
          .discardedBytes (record.length-confirmed)).sinkFailed errno with
        writer := .settled record true }
    else s
  | .writing record confirmed, .proceed =>
    if confirmed = record.length then
      { s.settle record.call .written with
        written := s.written ++ [record.call]
        activeBytes := 0
        sink := .idle
        writer := .settled record false }
    else s
  | .settled record stop, .proceed =>
    { s with
      funded := s.funded-record.funding
      writer := if stop then .draining else .waiting }
  | .draining, .proceed => s.drainOne
  | .draining, .retire => s.retire
  | _, _ => s

def step (l : DiagnosticLimits) (s : State) : Event → State
  | .call => { s with calls := s.calls+1, producers := s.producers.insert s.calls .entered }
  | .producer call format => s.producer l call format
  | .shutdown => s.shutdownRequest
  | .writer turn => s.writerTurn turn

def run (l : DiagnosticLimits) (s : State) (es : List Event) : State := Machine.run (step l) s es

end State
end Diagnostic
end Ctxmux
