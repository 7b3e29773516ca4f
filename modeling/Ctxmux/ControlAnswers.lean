import Ctxmux.CommandMultiplex
import Ctxmux.LaneFailures

/-!
# What the daemon answers to a control request

The short requests and the attachment commands, from the request handler through the
control owner to the outcome that goes on the wire. The Run lookup, the state lock, the
budgets, the PTY and the later steps of the lane are choices of the environment.
-/

namespace Ctxmux
namespace Answers

open NativeControl (Owner InputOperationKey Byte InputResult AppliedInputRange)
open Client (ControlOutcome ControlReceipt ProtocolError RunSignal StopDisposition)
open Attachment (TerminalSize)

def wireCode : NativeControl.ErrorCode → Client.ErrorCode
  | .invalidRequest => .invalidRequest
  | .invalidRunState => .invalidRunState
  | .io => .io
  | .backendUnavailable => .backendUnavailable
  | .inputOperationConflict => .inputOperationConflict
  | .inputCursorMismatch => .inputCursorMismatch
  | .controlBackpressure => .controlBackpressure
  | .internal => .internal

def wireFailure (failure : NativeControl.ControlFailure) : Client.ControlFailure :=
  ⟨⟨wireCode failure.error.code,failure.error.message⟩,
    match failure.disposition with
    | .notApplied => .notApplied
    | .unknown => .unknown,
    failure.confirmedInputBytes⟩

/-- What waiting for the state lock ends with. -/
inductive Waited where
  | acquired (o : Owner)
  | ownerStopped

inductive Lock where
  | free (o : Owner)
  | busy (after : Waited)

def Lock.owner? : Lock → Option Owner
  | .free o | .busy (.acquired o) => some o
  | .busy .ownerStopped => none

/-- What the lane does after an admission, until the reply is sent and the Run is read for
the response. -/
structure Later where
  loss : Option NativeControl.NativeServiceFailure
  events : List NativeControl.Event

def Later.after (later : Later) (o : Owner) : Owner :=
  Machine.run NativeControl.step (NativeControl.release later.loss o) later.events

/-- The incarnation control of a Run. -/
inductive RunControl where
  | native | tmux | historical
  deriving DecidableEq, Repr

/-- One request in the daemon: the Run that it names, and what its owners do meanwhile. -/
structure Access where
  runId : String
  instanceMatches : Bool
  runError : Option ProtocolError
  control : RunControl
  stopped : Bool
  lock : Lock
  funded : Bool
  waitingFunded : Bool
  later : Option Later

/-- Why `native_control` gives no control owner. -/
def Access.controlError (access : Access) : Option ProtocolError :=
  match access.control with
  | .native => none
  | .tmux =>
    some ⟨.unsupportedCapability,s!"Run {access.runId} backend does not support native control"⟩
  | .historical => some ⟨.invalidRunState,s!"cannot control historical Run {access.runId}"⟩

def waitAdmissionState (access : Access) (recoverable : Bool) :
    Except NativeControl.ControlFailure Owner :=
  if !recoverable && access.stopped then
    .error (NativeControl.notApplied
      ⟨.backendUnavailable,"Native owner stopped before command admission"⟩)
  else
    match access.lock with
    | .free o | .busy (.acquired o) => .ok o
    | .busy .ownerStopped =>
      let error : NativeControl.ProtocolError :=
        ⟨.backendUnavailable,"Native owner stopped while control admission was waiting"⟩
      .error (if recoverable then NativeControl.unknownFailure error
        else NativeControl.notApplied error)

/-- A command that the lane admitted: the control after it, and its channel. -/
def enterInput (o : Owner) (data : List Byte) (funded : Bool) :
    Except NativeControl.ControlFailure (Owner × ℕ) :=
  match NativeControl.beginInputLocked o data funded with
  | (o,.ok channel) => .ok (o,channel)
  | (_,.error failure) => .error failure

def beginInputAsync (access : Access) (data : List Byte) :
    Except NativeControl.ControlFailure (Owner × ℕ) :=
  if access.stopped then
    .error (NativeControl.notApplied
      ⟨.backendUnavailable,"Native owner stopped before command admission"⟩)
  else
    match access.lock with
    | .free o => enterInput o data access.funded
    | .busy _ =>
      if !access.waitingFunded then
        .error (NativeControl.notApplied
          ⟨.controlBackpressure,"daemon input waiting-payload byte budget is full"⟩)
      else do
        let o ← waitAdmissionState access false
        enterInput o data true

/-- The attachment has funded the payload before it waits. -/
def beginInputAsyncFunded (access : Access) (data : List Byte) :
    Except NativeControl.ControlFailure (Owner × ℕ) := do
  let o ← waitAdmissionState access false
  enterInput o data true

def beginRecoverableInputAsync (access : Access) (key : InputOperationKey) (expectedByte : ℕ)
    (data : List Byte) :
    Except NativeControl.ControlFailure (Owner × NativeControl.PendingRecoverableInput) := do
  let request ← NativeControl.inputRequest key expectedByte data
  let locked := fun (o : Owner) (funded : Bool) =>
    match NativeControl.beginRecoverableInputLocked o key request funded with
    | (o,.ok pending) => Except.ok (o,pending)
    | (_,.error failure) => Except.error failure
  match access.lock with
  | .free o => locked o access.funded
  | .busy _ =>
    if !access.waitingFunded then
      .error (NativeControl.unknownFailure ⟨.controlBackpressure,
        "Native result ledger is busy and waiting-payload budget is full; application status is unknown"⟩)
    else do
      let o ← waitAdmissionState access true
      locked o true

/-- The answer of the lane to the command of a channel; none if its sender is dropped. -/
def laneReply (o : Owner) (channel : ℕ) (later : Option Later) : Option InputResult :=
  later.bind fun later =>
    ((later.after o).settled.find? fun s => s.1.reply.channel = channel).map (·.2)

def inputOwnerEnded (runId : String) : NativeControl.ControlFailure :=
  NativeControl.unknownFailure
    ⟨.internal,s!"Run {runId} PTY input owner ended without a receipt"⟩

def recoverableOwnerEnded (runId : String) : NativeControl.ControlFailure :=
  NativeControl.unknownFailure
    ⟨.internal,s!"Run {runId} recoverable Input owner ended without a result"⟩

/-- A legacy reply maps the range to the number of its bytes. -/
def inputOutcome : InputResult → ControlOutcome
  | .ok range => .accepted (.input (range.endByte-range.startByte))
  | .error failure => .rejected (wireFailure failure)

def controlled (access : Access) (owner : ControlOutcome) : ControlOutcome :=
  match access.controlError with
  | some error => .rejected (Mux.controlNotApplied error)
  | none => owner

def resolveInput (access : Access)
    (begun : Except NativeControl.ControlFailure (Owner × ℕ)) : ControlOutcome :=
  match begun with
  | .error failure => .rejected (wireFailure failure)
  | .ok (o,channel) =>
    inputOutcome ((laneReply o channel access.later).getD (.error (inputOwnerEnded o.runId)))

/-- The range comes with the control that admitted or retained the operation. -/
def recoverableInput (access : Access) (key : InputOperationKey) (expectedByte : ℕ)
    (data : List Byte) : Except Client.ControlFailure (Owner × AppliedInputRange) :=
  match access.controlError with
  | some error => .error (Mux.controlNotApplied error)
  | none =>
    let result : Except NativeControl.ControlFailure (Owner × AppliedInputRange) :=
      match beginRecoverableInputAsync access key expectedByte data with
      | .error failure => .error failure
      | .ok (o,.ready result) => result.map (o,·)
      | .ok (o,.pending channel) =>
        ((laneReply o channel access.later).getD (.error (recoverableOwnerEnded o.runId))).map (o,·)
    result.mapError wireFailure

/-- What the clients check of the Run in a response. -/
structure RunInfo where
  id : String
  appliedInputBytes : Option ℕ
  deriving DecidableEq, Repr

/-- The Run as the response reads it: the cursor is the one that its control has published,
which every critical section that moves it does before it answers. -/
def Access.info (access : Access) (o : Owner) : RunInfo :=
  ⟨access.runId,some (access.later.elim o (·.after o)).state.appliedInputBytes⟩

/-- The PTY under a resize: no descriptor, a failing ioctl or read-back, or the size that
it reports. -/
inductive PtyResize where
  | closed
  | resizeFailed (error : String)
  | readFailed (error : String)
  | reported (applied : TerminalSize)

def resizeLocked (o : Owner) : PtyResize → ControlOutcome
  | pty =>
    if o.ownerFailure.isSome then
      .rejected (Mux.controlNotApplied
        ⟨.backendUnavailable,"daemon-wide Native owner stopped before control admission"⟩)
    else if o.state.phase ≠ .opened then
      .rejected (wireFailure (NativeControl.notApplied
        (NativeControl.invalidPhaseError o.runId o.state.phase "resize")))
    else
      match pty with
      | .closed =>
        .rejected (Mux.controlUnknown
          ⟨.internal,s!"Run {o.runId} PTY control descriptor is closed"⟩)
      | .resizeFailed error =>
        .rejected (Mux.controlUnknown ⟨.io,s!"failed to resize Run {o.runId} PTY: {error}"⟩)
      | .readFailed error =>
        .rejected (Mux.controlUnknown
          ⟨.io,s!"failed to read back Run {o.runId} PTY size after resize: {error}"⟩)
      | .reported applied =>
        if applied.cols ≠ 0 ∧ applied.rows ≠ 0 then .accepted (.resize applied)
        else .rejected (Mux.controlUnknown
          ⟨.io,s!"Run {o.runId} PTY returned an invalid zero applied size"⟩)

/-- The loop of `resize_async`: it ends with a stopped owner, or with both locks. -/
def resizeAsync (access : Access) (size : TerminalSize) (pty : PtyResize) : ControlOutcome :=
  if size.cols = 0 ∨ size.rows = 0 then
    .rejected (Mux.controlNotApplied ⟨.invalidRequest,"terminal rows and columns must be greater than zero"⟩)
  else controlled access <|
    match access.lock.owner? with
    | some o =>
      if access.stopped then
        .rejected (Mux.controlNotApplied
          ⟨.backendUnavailable,"Native owner stopped before resize admission"⟩)
      else resizeLocked o pty
    | none =>
      .rejected (Mux.controlNotApplied
        ⟨.backendUnavailable,"Native owner stopped before resize admission"⟩)

def signalAsync (access : Access) (signal : RunSignal) (foregroundGroup : Option ℕ)
    (reply : Option (Except String Unit)) : ControlOutcome :=
  controlled access <|
    match waitAdmissionState access false with
    | .error failure => .rejected (wireFailure failure)
    | .ok o =>
      match NativeControl.beginSignalLocked o foregroundGroup with
      | (_,.error failure) => .rejected (wireFailure failure)
      | (o,.ok ()) =>
        match reply with
        | some (.ok ()) => .accepted (.signal signal)
        | some (.error error) => .rejected (Mux.controlUnknown ⟨.io,error⟩)
        | none =>
          .rejected (Mux.controlUnknown
            ⟨.invalidRunState,s!"Run {o.runId} native owner ended before acknowledging signal"⟩)

/-- How a Stop ends for the settlement that waits for it; every rejection of the owner is
not-applied. -/
inductive StopReply where
  | accepted (disposition : StopDisposition)
  | rejected (error : ProtocolError)
  | unknown (error : String)
  | dropped
  | timedOut
  | settlementEnded

def stopSettlement (access : Access) (reply : StopReply) : ControlOutcome :=
  controlled access <|
    match waitAdmissionState access false with
    | .error failure => .rejected (wireFailure failure)
    | .ok o =>
      match NativeControl.beginStopLocked o with
      | (_,.error failure) => .rejected (wireFailure failure)
      | (o,.ok ()) =>
        match reply with
        | .accepted disposition => .accepted (.stop disposition)
        | .rejected error => .rejected (Mux.controlNotApplied error)
        | .unknown error => .rejected (Mux.controlUnknown ⟨.io,error⟩)
        | .dropped =>
          .rejected (Mux.controlUnknown
            ⟨.invalidRunState,s!"Run {o.runId} child owner ended before acknowledging stop"⟩)
        | .timedOut =>
          .rejected (Mux.controlUnknown
            ⟨.internal,s!"timed out while stopping Run {o.runId}"⟩)
        | .settlementEnded =>
          .rejected (Mux.controlUnknown
            ⟨.internal,"recoverable native Stop settlement owner ended without a result"⟩)

/-- The registry refuses a Stop without an effect; a retained operation answers as its
settlement did, once its terminal publication is visible. -/
def recoverableStop (access : Access) (registryError : Option ProtocolError) (reply : StopReply)
    (visible : Bool) : ControlOutcome :=
  match registryError with
  | some error => .rejected (Mux.controlNotApplied error)
  | none =>
    match stopSettlement access reply with
    | .accepted receipt =>
      if visible then .accepted receipt
      else .rejected (Mux.controlUnknown
        ⟨.internal,"stopped but terminal publication or Native entry retirement is not yet complete"⟩)
    | .rejected failure => .rejected failure

/-- A control request with what the owners of its effect do. -/
inductive Request where
  | input (data : List Byte)
  | recoverableInput (key : InputOperationKey) (expectedByte : ℕ) (data : List Byte)
  | resize (size : TerminalSize) (pty : PtyResize)
  | signal (signal : RunSignal) (foregroundGroup : Option ℕ) (reply : Option (Except String Unit))
  | stop (operation : Mux.RecoverableStop) (registryError : Option ProtocolError)
      (reply : StopReply) (visible : Bool)

/-- A response carries an outcome, or the applied range of a recoverable Input. -/
inductive Answer where
  | outcome (outcome : ControlOutcome)
  | applied (run : RunInfo) (range : AppliedInputRange)

def pinned (access : Access) (answer : Answer) : Answer :=
  match access.runError with
  | some error => .outcome (.rejected (Mux.controlNotApplied error))
  | none => answer

/-- The short requests. The Run of a Stop is looked up by the registry itself. -/
def respond (access : Access) : Request → Answer
  | .input data =>
    pinned access (.outcome (controlled access (resolveInput access (beginInputAsync access data))))
  | .recoverableInput key expectedByte data =>
    if !access.instanceMatches then
      .outcome (.rejected (Mux.controlNotApplied ⟨.daemonInstanceMismatch,
        "recoverable native Input belongs to another daemon incarnation"⟩))
    else
      pinned access <|
        match recoverableInput access key expectedByte data with
        | .ok (o,range) => .applied (access.info o) range
        | .error failure => .outcome (.rejected failure)
  | .resize size pty => pinned access (.outcome (resizeAsync access size pty))
  | .signal signal foregroundGroup reply =>
    pinned access (.outcome (signalAsync access signal foregroundGroup reply))
  | .stop _ registryError reply visible =>
    if !access.instanceMatches then
      .outcome (.rejected (Mux.controlNotApplied ⟨.daemonInstanceMismatch,
        "recoverable native Stop belongs to another daemon incarnation"⟩))
    else .outcome (recoverableStop access registryError reply visible)

/-- The attachment command of a request; a recoverable Input has none. -/
def Request.command : Request → Option Mux.ControlCommand
  | .input data => some (.input data.length)
  | .recoverableInput _ _ _ => none
  | .resize size _ => some (.resize size)
  | .signal requested _ _ => some (.signal requested)
  | .stop operation _ _ _ => some (.stop operation)

/-- What the result future of an admitted attachment command gives. -/
def admittedOutcome (access : Access) : Request → ControlOutcome
  | .input data => resolveInput access (beginInputAsyncFunded access data)
  | .recoverableInput _ _ _ => .rejected (Mux.controlNotApplied Mux.upgradeRetryError)
  | .resize size pty => resizeAsync access size pty
  | .signal signal foregroundGroup reply => signalAsync access signal foregroundGroup reply
  | .stop _ registryError reply visible => recoverableStop access registryError reply visible

/-- The outcome of one command on an attachment; `cancelled` is an observation close before
its admission. A sealed upgrade gate ends the connection without one. -/
def attachmentOutcome (connection : Mux.Connection) (env : Mux.Connection.FrameEnv)
    (cancelled : Bool) (access : Access) (request : Request) (commandId : ℕ) :
    Option ControlOutcome :=
  match request.command with
  | none => none
  | some command =>
    let stop := Mux.Connection.ControlCommand.isStop command
    if connection.observationClosed then
      some (.rejected (Mux.observationClosedFailure stop))
    else
      match env.upgrade with
      | .sealed => none
      | .retry => some (.rejected (Mux.controlNotApplied Mux.upgradeRetryError))
      | .execute =>
        let env := { env with control := access.controlError }
        let admitted :=
          if cancelled then ControlOutcome.rejected (Mux.observationClosedFailure stop)
          else admittedOutcome access request
        match command with
        | .stop operation =>
          match connection.validateRecoverableStop operation with
          | .error failure => some (.rejected failure)
          | .ok () =>
            match connection.pushAdmission env ⟨commandId,true,command⟩ with
            | .ok _ => some admitted
            | .error failure => some (.rejected { failure with disposition := .unknown })
        | .input bytes =>
          match connection.queueInputAdmission env commandId bytes with
          | .ok _ => some admitted
          | .error failure => some (.rejected failure)
        | _ =>
          match connection.pushAdmission env ⟨commandId,false,command⟩ with
          | .ok _ => some admitted
          | .error failure => some (.rejected failure)

end Answers
end Ctxmux
