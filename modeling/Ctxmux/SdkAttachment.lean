import Ctxmux.ArrayQueue
import Ctxmux.DurableTables
import Ctxmux.RunEvents

/-!
# The event view of an SDK attachment

The reader of an attachment offers events, the caller takes them one at a time. Payload and
envelope bytes of what is retained have a budget each. Output that does not fit becomes
part of a pending gap; an event that cannot become one ends the observation.
-/

namespace Ctxmux
namespace SdkView

open Attachment (OutputGapCauses)
open Durable (Byte OutputChunk)

/-- An event of the daemon other than a gap, with the body that the view hands on. -/
inductive PlainEvent (Body : Type) where
  | output (chunk : OutputChunk)
  | exited (body : Body)
  | interrupted (body : Body)
  | observationDiscontinuity
  | sessionRenamed (name : List Byte)
  | other (body : Body)
deriving DecidableEq,Repr

inductive RunEvent (Body : Type) where
  | plain (event : PlainEvent Body)
  | gap (latestOutputBytes : ℕ) (causes : OutputGapCauses)
deriving DecidableEq,Repr

structure AttachmentGapLocalPressure where
  payloadLimitHit : Bool
  envelopeLimitHit : Bool
  attemptedPayloadBytes : ℕ
  attemptedEnvelopeBytes : ℕ
  droppedOutputBytes : Option ℕ
  countersSaturated : Bool
deriving DecidableEq,Repr

structure AttachmentGapQueue where
  payloadBudgetBytes : ℕ
  envelopeBudgetBytes : ℕ
  retainedPayloadBytes : ℤ
  retainedEnvelopeBytes : ℤ
  payloadHighWaterBytes : ℤ
  envelopeHighWaterBytes : ℤ
deriving DecidableEq,Repr

structure AttachmentGapOrigins where
  daemon : Bool
  client : Bool
deriving DecidableEq,Repr

structure AttachmentGapObservation where
  origins : AttachmentGapOrigins
  firstObservedAtUnixMs : ℕ
  lastObservedAtUnixMs : ℕ
  deliveredAtUnixMs : Option ℕ
  receivedOutputHeadByte : Option ℕ
  deliveredThroughByte : Option ℕ
  requestedAfterByte : ℕ
  recoveryAfterByte : ℕ
  missingOutputBytes : Option ℕ
  queue : AttachmentGapQueue
  localPressure : Option AttachmentGapLocalPressure
deriving DecidableEq,Repr

structure AttachmentGapEvent where
  latestOutputBytes : ℕ
  causes : OutputGapCauses
  observation : AttachmentGapObservation
deriving DecidableEq,Repr

/-- What the caller receives. -/
inductive AttachmentEvent (Body : Type) where
  | plain (event : PlainEvent Body)
  | gap (event : AttachmentGapEvent)
deriving DecidableEq,Repr

variable {Body : Type}

namespace PlainEvent

def isTerminal : PlainEvent Body → Bool
  | .exited _ | .interrupted _ => true
  | _ => false

/-- `eventBytes`; a gap has none. -/
def eventBytes : PlainEvent Body → ℕ
  | .output chunk => chunk.data.length
  | .sessionRenamed name => name.length
  | _ => 0

end PlainEvent

namespace RunEvent

def isTerminal : RunEvent Body → Bool
  | .plain event => event.isTerminal
  | .gap _ _ => false

def isDiscontinuity : RunEvent Body → Bool
  | .plain .observationDiscontinuity => true
  | _ => false

end RunEvent

namespace AttachmentEvent

def isTerminal : AttachmentEvent Body → Bool
  | .plain event => event.isTerminal
  | .gap _ => false

def isGap : AttachmentEvent Body → Bool
  | .plain _ => false
  | .gap _ => true

end AttachmentEvent

/-- The two budgets, and the bytes of an event in UTF-8 JSON without its payload. -/
structure ViewResources (Body : Type) where
  payloadBytes : ℕ
  envelopeBytes : ℕ
  eventEnvelopeBytes : AttachmentEvent Body → ℕ

structure QueuedEvent (Body : Type) where
  event : AttachmentEvent Body
  bytes : ℕ
  envelopeBytes : ℕ
deriving DecidableEq,Repr

/-- A gap that waits for the next event; it has no payload. -/
structure QueuedGap where
  event : AttachmentGapEvent
  envelopeBytes : ℕ
deriving DecidableEq,Repr

def QueuedGap.queued (gap : QueuedGap) : QueuedEvent Body := ⟨.gap gap.event,0,gap.envelopeBytes⟩

inductive Resource where
  | envelopeBytes | payloadBytes
deriving DecidableEq,Repr

/-- `Number.MAX_SAFE_INTEGER`. -/
def maxSafeInteger : ℕ := 2^53-1

structure ObservationUnavailable where
  resource : Resource
  retainedPayloadBytes : ℤ
  retainedEnvelopeBytes : ℤ
  lostEvents : ℕ
  lostOutputBytes : ℕ
  lossCountersSaturated : Bool
deriving DecidableEq,Repr

/-- Discarded decoded bytes are counted; saturation stays explicit. -/
def ObservationUnavailable.recordDrop (error : ObservationUnavailable) (event : RunEvent Body) :
    ObservationUnavailable :=
  let n := match event with
    | .plain (.output chunk) => chunk.data.length
    | _ => 0
  { error with
    lossCountersSaturated := error.lossCountersSaturated ||
      error.lostEvents = maxSafeInteger || maxSafeInteger < error.lostOutputBytes+n
    lostEvents := min maxSafeInteger (error.lostEvents+1)
    lostOutputBytes := min maxSafeInteger (error.lostOutputBytes+n) }

inductive StreamError where
  | invalidFrame (path message : String)
  | unavailable (error : ObservationUnavailable)
deriving DecidableEq,Repr

/-- What a call of `nextEvent` comes to. -/
inductive Answer (Body : Type) where
  | delivered (event : AttachmentEvent Body)
  | ended
  | failed (error : StreamError)
  | busy
deriving DecidableEq,Repr

/-- The fields of an attachment that its events go through. -/
structure View (Body : Type) where
  events : ArrayQueue (QueuedEvent Body)
  pendingOutputGap : Option QueuedGap
  terminalEvent : Option (QueuedEvent Body)
  queuedEventBytes : ℤ
  queuedEnvelopeBytes : ℤ
  payloadHighWaterBytes : ℤ
  envelopeHighWaterBytes : ℤ
  receivedOutputHeadByte : Option ℕ
  deliveredThroughByte : Option ℕ
  requestedAfterByte : ℕ
  recoveryAfterByte : ℕ
  continuityLost : Bool
  eventWaiter : Bool
  terminalSeen : Bool
  observationDiscontinuitySeen : Bool
  eventStreamEnded : Bool
  viewError : Option ObservationUnavailable
  eventError : Option StreamError
  closed : Bool

/-- The constructor of an attachment, given the chunks of its snapshot. -/
def View.new (chunks : List OutputChunk) (requestedAfterByte : ℕ) : View Body :=
  let replayHead := chunks.getLast?.map OutputChunk.endByte
  { events := .empty
    pendingOutputGap := none
    terminalEvent := none
    queuedEventBytes := 0
    queuedEnvelopeBytes := 0
    payloadHighWaterBytes := 0
    envelopeHighWaterBytes := 0
    receivedOutputHeadByte := replayHead
    deliveredThroughByte := replayHead
    requestedAfterByte := requestedAfterByte
    recoveryAfterByte := replayHead.getD requestedAfterByte
    continuityLost := false
    eventWaiter := false
    terminalSeen := false
    observationDiscontinuitySeen := false
    eventStreamEnded := false
    viewError := none
    eventError := none
    closed := false }

/-- What a gap is made of. -/
inductive Dropped where
  | gap (latestOutputBytes : ℕ) (causes : OutputGapCauses)
  | output (chunk : OutputChunk)
deriving DecidableEq,Repr

namespace Dropped

def latest : Dropped → ℕ
  | .gap latestOutputBytes _ => latestOutputBytes
  | .output chunk => chunk.endByte

def causes : Dropped → OutputGapCauses
  | .gap _ causes => causes
  | .output _ => { OutputGapCauses.none with clientViewPressure := true }

def event : Dropped → RunEvent Body
  | .gap latestOutputBytes causes => .gap latestOutputBytes causes
  | .output chunk => .plain (.output chunk)

end Dropped

namespace View

variable (p : ViewResources Body) (v : View Body)

def releaseEvent (queued : QueuedEvent Body) : View Body :=
  { v with
    queuedEventBytes := v.queuedEventBytes-queued.bytes
    queuedEnvelopeBytes := v.queuedEnvelopeBytes-queued.envelopeBytes }

def chargeEvent (queued : QueuedEvent Body) : View Body :=
  { v with
    queuedEventBytes := v.queuedEventBytes+queued.bytes
    queuedEnvelopeBytes := v.queuedEnvelopeBytes+queued.envelopeBytes
    payloadHighWaterBytes := max v.payloadHighWaterBytes (v.queuedEventBytes+queued.bytes)
    envelopeHighWaterBytes :=
      max v.envelopeHighWaterBytes (v.queuedEnvelopeBytes+queued.envelopeBytes) }

def eventCapacity (queued : QueuedEvent Body) : Bool :=
  decide (queued.bytes ≤ p.payloadBytes-v.queuedEventBytes) &&
    decide (queued.envelopeBytes ≤ p.envelopeBytes-v.queuedEnvelopeBytes)

/-- `localPressure` of a gap that output is dropped into. -/
def dropOutput (chunk : OutputChunk) (prior : Option AttachmentGapLocalPressure) :
    AttachmentGapLocalPressure :=
  let attemptedPayloadBytes := chunk.data.length
  let attemptedEnvelopeBytes := p.eventEnvelopeBytes (.plain (.output chunk))
  let oldBytes := (prior.bind AttachmentGapLocalPressure.droppedOutputBytes).getD 0
  let saturated := prior.any AttachmentGapLocalPressure.countersSaturated ||
    decide (maxSafeInteger < oldBytes+attemptedPayloadBytes)
  { payloadLimitHit := prior.any AttachmentGapLocalPressure.payloadLimitHit ||
      decide (p.payloadBytes-v.queuedEventBytes < attemptedPayloadBytes)
    envelopeLimitHit := prior.any AttachmentGapLocalPressure.envelopeLimitHit ||
      decide (p.envelopeBytes-v.queuedEnvelopeBytes < attemptedEnvelopeBytes)
    attemptedPayloadBytes := attemptedPayloadBytes
    attemptedEnvelopeBytes := attemptedEnvelopeBytes
    droppedOutputBytes := if saturated then none else some (oldBytes+attemptedPayloadBytes)
    countersSaturated := saturated }

def gapEvent (now : ℕ) (dropped : Dropped) (previous : Option AttachmentGapEvent) :
    AttachmentGapEvent :=
  let prior := previous.map AttachmentGapEvent.observation
  let pressure := prior.bind AttachmentGapObservation.localPressure
  let localPressure := match dropped with
    | .gap _ _ => pressure
    | .output chunk => some (v.dropOutput p chunk pressure)
  let daemon := match dropped with
    | .gap _ _ => true
    | .output _ => false
  let origins : AttachmentGapOrigins :=
    { daemon := prior.any (fun prior => prior.origins.daemon) || daemon
      client := prior.any (fun prior => prior.origins.client) || !daemon }
  { latestOutputBytes := max (previous.elim 0 AttachmentGapEvent.latestOutputBytes) dropped.latest
    causes := (previous.elim .none AttachmentGapEvent.causes).union dropped.causes
    observation :=
      { origins := origins
        firstObservedAtUnixMs := prior.elim now AttachmentGapObservation.firstObservedAtUnixMs
        lastObservedAtUnixMs := now
        deliveredAtUnixMs := none
        receivedOutputHeadByte := v.receivedOutputHeadByte
        deliveredThroughByte := v.deliveredThroughByte
        requestedAfterByte := v.requestedAfterByte
        recoveryAfterByte := v.recoveryAfterByte
        missingOutputBytes := if origins.daemon then none
          else localPressure.bind AttachmentGapLocalPressure.droppedOutputBytes
        queue :=
          { payloadBudgetBytes := p.payloadBytes
            envelopeBudgetBytes := p.envelopeBytes
            retainedPayloadBytes := v.queuedEventBytes
            retainedEnvelopeBytes := v.queuedEnvelopeBytes
            payloadHighWaterBytes := v.payloadHighWaterBytes
            envelopeHighWaterBytes := v.envelopeHighWaterBytes }
        localPressure := localPressure } }

/-- The cursors after an event that is delivered. -/
def advanceCursors (event : AttachmentEvent Body) : View Body :=
  match event with
  | .plain (.output chunk) =>
    if v.continuityLost then v
    else if v.recoveryAfterByte < chunk.startByte then { v with continuityLost := true }
    else
      { v with
        deliveredThroughByte := some (max (v.deliveredThroughByte.getD 0) chunk.endByte)
        recoveryAfterByte := max v.recoveryAfterByte chunk.endByte }
  | .plain _ => v
  | .gap _ => { v with continuityLost := true }

/-- The event as the caller sees it. -/
def presented (now : ℕ) (event : AttachmentEvent Body) : AttachmentEvent Body :=
  match event with
  | .plain event => .plain event
  | .gap event => .gap
      { event with
        observation := { event.observation with
          receivedOutputHeadByte := v.receivedOutputHeadByte
          deliveredAtUnixMs := some now
          deliveredThroughByte := v.deliveredThroughByte
          recoveryAfterByte := v.recoveryAfterByte } }

def deliverEvent (now : ℕ) (event : AttachmentEvent Body) : AttachmentEvent Body×View Body :=
  let v := v.advanceCursors event
  (v.presented now event,v)

def queueEmpty : Bool := v.events.isEmpty

/-- `finishEvents`: a waiting call is answered. -/
def finishEvents : View Body×Option (Answer Body) :=
  let error := v.eventError.or (v.viewError.map .unavailable)
  let waited := v.queueEmpty && v.pendingOutputGap.isNone && v.terminalEvent.isNone && v.eventWaiter
  let answer := if waited then some (error.elim .ended .failed) else none
  ({ v with
      eventWaiter := v.eventWaiter && !waited
      eventStreamEnded := v.eventStreamEnded || error.isNone },answer)

def loseObservation (event : RunEvent Body) (resource : Resource) : View Body×Option (Answer Body) :=
  let error := v.viewError.getD
    { resource := resource
      retainedPayloadBytes := v.queuedEventBytes
      retainedEnvelopeBytes := v.queuedEnvelopeBytes
      lostEvents := 0
      lostOutputBytes := 0
      lossCountersSaturated := false }
  finishEvents { v with viewError := some (error.recordDrop event) }

/-- `terminate` with an invalid frame. -/
def protocolViolation (message path : String) : View Body×Option (Answer Body) :=
  if v.closed then (v,none)
  else finishEvents { v with closed := true, eventError := some (.invalidFrame path message) }

def extendPendingOutputGap (now : ℕ) (dropped : Dropped) : View Body×Option (Answer Body) :=
  let previous := v.pendingOutputGap
  let event := v.gapEvent p now dropped (previous.map QueuedGap.event)
  let envelopeBytes := p.eventEnvelopeBytes (.gap event)
  let additional : ℤ := envelopeBytes-previous.elim 0 QueuedGap.envelopeBytes
  if p.envelopeBytes-v.queuedEnvelopeBytes < additional then
    v.loseObservation dropped.event .envelopeBytes
  else
    ({ v with
        queuedEnvelopeBytes := v.queuedEnvelopeBytes+additional
        envelopeHighWaterBytes := max v.envelopeHighWaterBytes (v.queuedEnvelopeBytes+additional)
        pendingOutputGap := some ⟨event,envelopeBytes⟩ },none)

/-- The two ways in which an event breaks the order of the stream. -/
def eventOrder (event : RunEvent Body) : Option String :=
  if v.terminalSeen then some "attachment delivered an event after terminal state"
  else if !event.isTerminal && v.observationDiscontinuitySeen then
    some "attachment delivered a non-terminal event after observation discontinuity"
  else none

/-- What is remembered of an event whether or not the view shows it. -/
def noteEvent (event : RunEvent Body) : View Body :=
  { v with
    terminalSeen := v.terminalSeen || event.isTerminal
    observationDiscontinuitySeen := v.observationDiscontinuitySeen || event.isDiscontinuity
    receivedOutputHeadByte := match event with
      | .plain (.output chunk) => some (max (v.receivedOutputHeadByte.getD 0) chunk.endByte)
      | _ => v.receivedOutputHeadByte }

/-- An event is handed over to a call that waits. -/
def handsOver : Bool := v.queueEmpty && v.pendingOutputGap.isNone && v.eventWaiter

/-- `#deliverEvent` into the call that waits. -/
def handOver (now : ℕ) (event : RunEvent Body) : View Body×Option (Answer Body) :=
  let v := { v with
    eventWaiter := false
    eventStreamEnded := v.eventStreamEnded || event.isTerminal }
  let (delivered,v) := v.deliverEvent now (match event with
    | .plain event => .plain event
    | .gap latestOutputBytes causes => .gap (v.gapEvent p now (.gap latestOutputBytes causes) none))
  (v,some (.delivered delivered))

def retainEvent (event : PlainEvent Body) : QueuedEvent Body :=
  ⟨.plain event,event.eventBytes,p.eventEnvelopeBytes (.plain event)⟩

/-- A plain event that no call waits for. -/
def offerPlain (now : ℕ) (event : PlainEvent Body) : View Body×Option (Answer Body) :=
  let retained := retainEvent p event
  if !v.eventCapacity p retained then
    match event with
    | .output chunk => v.extendPendingOutputGap p now (.output chunk)
    | event => v.loseObservation (.plain event)
        (if p.payloadBytes-v.queuedEventBytes < (retained.bytes : ℤ) then .payloadBytes
          else .envelopeBytes)
  else if event.isTerminal then
    (chargeEvent { v with terminalEvent := some retained } retained,none)
  else
    let events := v.pendingOutputGap.elim v.events fun gap => v.events.push gap.queued
    (chargeEvent { v with events := events.push retained, pendingOutputGap := none } retained,none)

/-- `offerEvent`, with the answer of a call that waited. -/
def offerEvent (now : ℕ) (event : RunEvent Body) : View Body×Option (Answer Body) :=
  match v.eventOrder event with
  | some message => v.protocolViolation message "$frame.event"
  | none =>
    let v := v.noteEvent event
    match v.viewError with
    | some error => ({ v with viewError := some (error.recordDrop event) },none)
    | none =>
      if v.handsOver then v.handOver p now event
      else
        match event with
        | .gap latestOutputBytes causes =>
          v.extendPendingOutputGap p now (.gap latestOutputBytes causes)
        | .plain event => v.offerPlain p now event

/-- `nextEvent`, with its answer unless it waits. -/
def nextEvent (now : ℕ) : View Body×Option (Answer Body) :=
  match v.events.shift? with
  | some (queued,events) =>
    let (delivered,v) := (releaseEvent { v with events := events } queued).deliverEvent now queued.event
    (v,some (.delivered delivered))
  | none =>
    match v.pendingOutputGap with
    | some gap =>
      let (delivered,v) := (releaseEvent { v with pendingOutputGap := none } gap.queued).deliverEvent
        now (.gap gap.event)
      (v,some (.delivered delivered))
    | none =>
      match v.terminalEvent with
      | some terminal =>
        let v := { v with terminalEvent := none, eventStreamEnded := true }
        let (delivered,v) := (v.releaseEvent terminal).deliverEvent now terminal.event
        (v,some (.delivered delivered))
      | none =>
        match v.eventError with
        | some error => (v,some (.failed error))
        | none =>
          match v.viewError with
          | some error => (v,some (.failed (.unavailable error)))
          | none =>
            if v.eventStreamEnded || v.closed then (v,some .ended)
            else if v.eventWaiter then (v,some .busy)
            else ({ v with eventWaiter := true },none)

end View
end SdkView
end Ctxmux
