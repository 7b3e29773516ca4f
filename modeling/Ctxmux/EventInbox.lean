import Ctxmux.ServiceSnapshot

/-!
# The event inbox of an attachment

The queue between the reader of an attachment and its one consumer. Payload and
envelope bytes have a limit each. Output that does not fit becomes part of a pending
gap, an unread advance of the input progress is replaced in place, and any other
event that does not fit ends the observation.
-/

namespace Ctxmux
namespace Client

open Attachment (TerminalSize OutputGapCauses)
open Service (NativeServiceSnapshot)

/-- A byte vector with the capacity of its allocation. -/
structure Buffer where
  data : List UInt8
  capacity : ℕ
  fits : data.length ≤ capacity
  deriving DecidableEq, Repr

structure OutputChunk where
  startByte : ℕ
  endByte : ℕ
  data : Buffer
  deriving DecidableEq, Repr

inductive InterruptionReason where
  | daemonRestart | tmuxServerUnavailable | tmuxProtocolError | tmuxTargetChanged
  deriving DecidableEq, Repr

inductive RunState where
  | running
  | exited (code : ℕ) (signal : Option Buffer)
  | interrupted (reason : InterruptionReason)
  deriving DecidableEq, Repr

inductive TmuxRunEvent where
  | sessionRenamed (name : Buffer)
  | paused
  | continued
  deriving DecidableEq, Repr

inductive RunEvent where
  | output (chunk : OutputChunk)
  | serviceChanged (service : NativeServiceSnapshot)
  | resized (size : TerminalSize) (throughByte resizeRevision : ℕ)
  | exited (state : RunState)
  | interrupted (reason : InterruptionReason)
  | tmux (event : TmuxRunEvent)
  | observationDiscontinuity
  | gap (latestOutputBytes : ℕ) (causes : OutputGapCauses)
  deriving DecidableEq, Repr

namespace RunEvent

def isTerminal : RunEvent → Bool
  | .exited _ | .interrupted _ => true
  | _ => false

def isGap : RunEvent → Bool
  | .gap _ _ => true
  | _ => false

def isDiscontinuity : RunEvent → Bool
  | .observationDiscontinuity => true
  | _ => false

end RunEvent

def eventEnvelopePayloadBytes : RunEvent → ℕ
  | .output chunk => chunk.data.capacity-chunk.data.data.length
  | .tmux (.sessionRenamed name) => name.capacity-name.data.length
  | .exited (.exited _ (some signal)) => signal.capacity
  | _ => 0

def eventBytes : RunEvent → ℕ
  | .output chunk => chunk.data.data.length
  | .tmux (.sessionRenamed name) => name.data.length
  | _ => 0

/-- The limits of a view with the sizes that the inbox and one queue slot take; the
envelope limit covers at least the inbox itself. -/
structure AttachmentEventLimits where
  payloadBytes : ℕ
  envelopeBytes : ℕ
  inboxSize : ℕ
  eventSize : ℕ
  eventSize_pos : 0 < eventSize
  inbox_funded : inboxSize ≤ envelopeBytes

inductive LocalObservationState where
  | available | lostMarkerPending | lostMarkerDelivered
  deriving DecidableEq, Repr

inductive InboxError where
  | attachmentObservationUnavailable (payloadBytes envelopeBytes : ℕ)
  | closedWith (message : String)
  deriving DecidableEq, Repr

structure EventInboxState where
  queue : List RunEvent
  capacity : ℕ
  queuedBytes : ℕ
  envelopePayloadBytes : ℕ
  pendingGap : Option (ℕ × OutputGapCauses)
  localObservation : LocalObservationState
  terminal : Option RunEvent
  sawTerminal : Bool
  sawObservationDiscontinuity : Bool
  closed : Bool
  error : Option InboxError
  observationUnavailable : Bool

def EventInboxState.initial : EventInboxState where
  queue := []
  capacity := 0
  queuedBytes := 0
  envelopePayloadBytes := 0
  pendingGap := none
  localObservation := .available
  terminal := none
  sawTerminal := false
  sawObservationDiscontinuity := false
  closed := false
  error := none
  observationUnavailable := false

namespace EventInboxState

def lossError (l : AttachmentEventLimits) : InboxError :=
  .attachmentObservationUnavailable l.payloadBytes l.envelopeBytes

def markObservationLoss (l : AttachmentEventLimits) (s : EventInboxState) : EventInboxState :=
  { s with
    localObservation := .lostMarkerPending
    closed := true
    error := some (lossError l)
    observationUnavailable := true }

/-- Room for more slots and more envelope payload. A growing queue asks for twice its
capacity where the envelope limit allows it and gets exactly what it asks for, unless
the allocation fails. -/
def reserveSlots (l : AttachmentEventLimits) (allocates : Bool) (s : EventInboxState)
    (additional payload : ℕ) : Option EventInboxState :=
  let required := s.queue.length+additional
  let extra := s.envelopePayloadBytes+payload
  if l.envelopeBytes < l.inboxSize+extra then none
  else
    let maximum := (l.envelopeBytes-l.inboxSize-extra)/l.eventSize
    if required > maximum ∨ s.capacity > maximum then none
    else if required > s.capacity then
      if allocates then some { s with capacity := min (max (s.capacity*2) required) maximum }
      else none
    else some s

/-- The newer snapshot differs only in the confirmed prefix of the pending command. -/
def ProgressOnly (previous next : NativeServiceSnapshot) : Prop :=
  previous.revision < next.revision ∧ next.owner = previous.owner ∧
    next.output = previous.output ∧ next.terminalFault = previous.terminalFault ∧
    next.input.phase = previous.input.phase ∧ next.input.unsettledCommands ≠ 0 ∧
    next.input.unsettledCommands = previous.input.unsettledCommands ∧
    next.input.unsettledRequestBytes = previous.input.unsettledRequestBytes ∧
    next.input.writeBlocked = previous.input.writeBlocked ∧
    next.input.completedInputBytes = previous.input.completedInputBytes ∧
    next.input.currentSize = previous.input.currentSize ∧
    previous.input.activeConfirmedBytes < next.input.activeConfirmedBytes

instance (previous next : NativeServiceSnapshot) : Decidable (ProgressOnly previous next) := by
  unfold ProgressOnly
  infer_instance

def replaceInputProgress (s : EventInboxState) (event : RunEvent) : Option EventInboxState :=
  if s.pendingGap.isSome then none
  else match event, s.queue.getLast? with
  | .serviceChanged next, some (.serviceChanged previous) =>
    if ProgressOnly previous next then
      some { s with queue := s.queue.dropLast ++ [.serviceChanged next] }
    else none
  | _, _ => none

def gapEvents (s : EventInboxState) : List RunEvent :=
  match s.pendingGap with
  | none => []
  | some (latestOutputBytes,causes) => [.gap latestOutputBytes causes]

def retainPendingGap (s : EventInboxState) : EventInboxState :=
  { s with queue := s.queue ++ s.gapEvents, pendingGap := none }

def mergeGap (s : EventInboxState) (latestOutputBytes : ℕ) (causes : OutputGapCauses) :
    EventInboxState :=
  let (head,previous) := s.pendingGap.getD (0,.none)
  { s with pendingGap := some (max head latestOutputBytes,previous.union causes) }

/-- The state with a slot for the event and for the pending gap before it. -/
def roomFor (l : AttachmentEventLimits) (allocates : Bool) (s : EventInboxState)
    (event : RunEvent) : Option EventInboxState :=
  if s.queuedBytes+eventBytes event > l.payloadBytes then none
  else reserveSlots l allocates s (1+(if s.pendingGap.isSome then 1 else 0))
    (eventEnvelopePayloadBytes event)

def enqueue (s : EventInboxState) (event : RunEvent) : EventInboxState :=
  let s := s.retainPendingGap
  { s with
    queuedBytes := s.queuedBytes+eventBytes event
    envelopePayloadBytes := s.envelopePayloadBytes+eventEnvelopePayloadBytes event
    queue := s.queue ++ [event] }

def clientViewPressure : OutputGapCauses := { OutputGapCauses.none with clientViewPressure := true }

/-- The terminal event takes a slot, or a place of its own behind the pending gap. -/
def retainTerminal (l : AttachmentEventLimits) (allocates : Bool) (s : EventInboxState)
    (terminal : RunEvent) : EventInboxState :=
  let s := { s with sawTerminal := true }
  let envelope := eventEnvelopePayloadBytes terminal
  let slot :=
    if s.pendingGap = none ∧ s.terminal = none then reserveSlots l allocates s 1 envelope
    else none
  match slot with
  | some s =>
    { s with
      envelopePayloadBytes := s.envelopePayloadBytes+envelope
      queue := s.queue ++ [terminal] }
  | none =>
    if l.inboxSize+s.capacity*l.eventSize+s.envelopePayloadBytes+envelope ≤ l.envelopeBytes then
      { s with
        envelopePayloadBytes := s.envelopePayloadBytes+envelope
        terminal := some terminal }
    else s.markObservationLoss l

/-- The part of `push` that depends on the kind of the event. -/
def accept (l : AttachmentEventLimits) (allocates : Bool) (s : EventInboxState)
    (event : RunEvent) : EventInboxState :=
  match event with
  | .output chunk =>
    match s.roomFor l allocates (.output chunk) with
    | some s => s.enqueue (.output chunk)
    | none => s.mergeGap chunk.endByte clientViewPressure
  | .gap latestOutputBytes causes => s.mergeGap latestOutputBytes causes
  | .exited state => s.retainTerminal l allocates (.exited state)
  | .interrupted reason => s.retainTerminal l allocates (.interrupted reason)
  | event =>
    let s :=
      { s with sawObservationDiscontinuity := s.sawObservationDiscontinuity || event.isDiscontinuity }
    match s.roomFor l allocates event with
    | some s => s.enqueue event
    | none => s.markObservationLoss l

def push (l : AttachmentEventLimits) (allocates : Bool) (s : EventInboxState)
    (event : RunEvent) : Except String EventInboxState :=
  if s.closed ∧ s.localObservation = .available then
    .error "daemon sent an event after attachment termination"
  else if s.sawTerminal then .error "daemon sent an event after terminal lifecycle"
  else if s.sawObservationDiscontinuity ∧ event.isTerminal = false then
    .error "daemon sent a non-terminal event after observation discontinuity"
  else if s.localObservation ≠ .available then
    .ok { s with
      sawTerminal := s.sawTerminal || event.isTerminal
      sawObservationDiscontinuity := s.sawObservationDiscontinuity || event.isDiscontinuity }
  else match s.replaceInputProgress event with
  | some s => .ok s
  | none => .ok (s.accept l allocates event)

def close (s : EventInboxState) (error : Option InboxError) : EventInboxState :=
  if s.closed then s else { s with closed := true, error := error }

end EventInboxState

inductive NextResult where
  | event (event : RunEvent)
  | error (error : InboxError)
  | ended
  deriving DecidableEq, Repr

namespace EventInboxState

/-- One pass of `next` under the lock; without a result the consumer goes on waiting. -/
def next (s : EventInboxState) : Option NextResult × EventInboxState :=
  match s.queue with
  | event::queue =>
    (some (.event event),
      { s with
        queue := queue
        queuedBytes := s.queuedBytes-eventBytes event
        envelopePayloadBytes := s.envelopePayloadBytes-eventEnvelopePayloadBytes event })
  | [] =>
    match s.pendingGap with
    | some (latestOutputBytes,causes) =>
      (some (.event (.gap latestOutputBytes causes)),{ s with pendingGap := none })
    | none =>
      if s.localObservation = .lostMarkerPending then
        (some (.event .observationDiscontinuity),
          { s with localObservation := .lostMarkerDelivered })
      else match s.terminal with
      | some event =>
        (some (.event event),
          { s with
            terminal := none
            envelopePayloadBytes := s.envelopePayloadBytes-eventEnvelopePayloadBytes event })
      | none =>
        match s.error with
        | some error => (some (.error error),{ s with error := none })
        | none => if s.closed then (some .ended,s) else (none,s)

end EventInboxState

end Client
end Ctxmux
