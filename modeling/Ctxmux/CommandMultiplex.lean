import Ctxmux.AttachmentLoop
import Ctxmux.ClientControl
import Ctxmux.Machine

/-!
# Command multiplexing on a daemon attachment

One connection carries a Run's events and the commands of its client. A command waits in
an ordered admission queue, of which only the front is polled, and moves to an unordered
set of results once the Run's control owner has it. A branch of the select loop is one
step; how many frames the socket still takes in a step is a choice of the environment, as
are the memory budgets, the upgrade gate and what the control owner answers.
-/

namespace Ctxmux
namespace Mux

open Attachment (RunEvent LiveRunEvent LiveEventCursor Fences Authoritative LagRecovery
  recoverLaggedDelivery retainedBoundary TerminalSize)
open Client (ControlOutcome ControlFailure ControlReceipt ProtocolError RunSignal)

abbrev CommandId := ℕ

structure RecoverableStop where
  daemonInstance : ℕ
  id : ℕ
  operationKey : ℕ
  deriving DecidableEq, Repr

inductive ControlCommand where
  | input (bytes : ℕ)
  | resize (size : TerminalSize)
  | signal (signal : RunSignal)
  | stop (operation : RecoverableStop)
  deriving DecidableEq, Repr

inductive ClientFrame where
  | command (commandId : CommandId) (command : ControlCommand)
  | detach
  | hello
  | request
  deriving DecidableEq, Repr

inductive ServerFrame where
  | event (event : RunEvent)
  | commandResult (commandId : CommandId) (outcome : ControlOutcome)
  | detached
  | error (error : ProtocolError)
  deriving DecidableEq, Repr

def controlNotApplied (error : ProtocolError) : ControlFailure := ⟨error,.notApplied,none⟩

def controlUnknown (error : ProtocolError) : ControlFailure := ⟨error,.unknown,none⟩

def upgradeRetryError : ProtocolError :=
  ⟨.backendUnavailable,
    "ctxmux daemon is draining for an exec-in-place upgrade; reconnect and retry"⟩

def observationClosedFailure (recoverable : Bool) : ControlFailure :=
  let failure := controlNotApplied
    ⟨.backendUnavailable,"attachment observation stream ended; reattach to resume observation"⟩
  if recoverable then { failure with disposition := .unknown } else failure

/-- Why the connection ended. `receiveFailed` is a frame that could not be read, and
`disconnected` the end of the stream or a failed write. -/
inductive End where
  | terminal | observation | detached | disconnected | receiveFailed | invalidCommandId | sealed
  | eventsClosed
  deriving DecidableEq, Repr

/-- The ends that the client or the upgrade gate brings about. -/
def End.isExternal : End → Bool
  | .detached | .disconnected | .receiveFailed | .invalidCommandId | .sealed => true
  | .terminal | .observation | .eventsClosed => false

structure PendingAdmission where
  commandId : CommandId
  isStop : Bool
  command : ControlCommand
  deriving DecidableEq, Repr

/-- What a result future waits for. -/
inductive Source where
  | ready (outcome : ControlOutcome)
  | input
  | signal (signal : RunSignal)
  | stop
  deriving DecidableEq, Repr

/-- `applied` says whether the command has had its effect so far. -/
structure PendingResult where
  commandId : CommandId
  isStop : Bool
  source : Source
  applied : Bool
  deriving DecidableEq, Repr

/-- What the owner of a command answers: `none` is a sender that was dropped. A Stop is
`visible` once its terminal publication is. -/
inductive Reply where
  | ready
  | input (reply : Option (Except ControlFailure ControlReceipt))
  | signal (reply : Option (Except String Unit))
  | stop (result : Except ControlFailure ControlReceipt) (visible : Bool)

def outcome : Except ControlFailure ControlReceipt → ControlOutcome
  | .ok receipt => .accepted receipt
  | .error failure => .rejected failure

/-- The resolve functions of the pending commands. -/
def Source.resolve (runId : String) : Source → Reply → Option ControlOutcome
  | .ready result, .ready => some result
  | .input, .input (some result) => some (Mux.outcome result)
  | .input, .input none =>
    some (.rejected (controlUnknown
      ⟨.internal,s!"Run {runId} PTY input owner ended without a receipt"⟩))
  | .signal requested, .signal (some (.ok ())) => some (.accepted (.signal requested))
  | .signal _, .signal (some (.error error)) => some (.rejected (controlUnknown ⟨.io,error⟩))
  | .signal _, .signal none =>
    some (.rejected (controlUnknown
      ⟨.invalidRunState,s!"Run {runId} native owner ended before acknowledging signal"⟩))
  | .stop, .stop (.ok receipt) visible =>
    if visible then some (.accepted receipt)
    else some (.rejected (controlUnknown
      ⟨.internal,
        s!"Run {runId} stopped but terminal publication or Native entry retirement is not yet complete"⟩))
  | .stop, .stop (.error failure) _ => some (.rejected failure)
  | _, _ => none

/-- The owner of a command answers not-applied only for a command without effect; for an
Input this is what the control lane proves of its answers. -/
def Truthful (applied : Bool) : ControlOutcome → Prop
  | .accepted _ => True
  | .rejected failure => failure.disposition = .notApplied → applied = false

instance (applied : Bool) (result : ControlOutcome) : Decidable (Truthful applied result) := by
  cases result with
  | accepted receipt => exact inferInstanceAs (Decidable True)
  | rejected failure => exact inferInstanceAs (Decidable (_ → _))

/-- How the poll that completes an admission leaves the command: with its owner, refused,
or, for a resize, carried out. -/
inductive Verdict where
  | entered
  | refused (failure : ControlFailure)
  | resized (result : Except ControlFailure ControlReceipt) (applied : Bool)

structure ControlState where
  lastCommandId : Option CommandId
  pendingStops : ℕ
  heldTerminal : Option RunEvent
  deriving DecidableEq, Repr

/-- The connection. `room` is the number of frames that the socket still takes in this
step. `passed`, `admitted`, `applied` and `observed` remember the command ids that passed
their check, the order of the admissions, the commands that had an effect and the terminal
event that a received envelope brought; `observed` is written from the events alone. -/
structure Connection where
  daemonInstance : ℕ
  runId : ℕ
  controls : ControlState
  admissions : List PendingAdmission
  results : List PendingResult
  liveCursor : LiveEventCursor
  sentFences : Fences
  receiverLagged : Bool
  observationClosed : Bool
  underflow : Bool
  room : Option ℕ
  sent : List ServerFrame
  ended : Option End
  passed : List CommandId
  admitted : List CommandId
  applied : List CommandId
  observed : Option RunEvent
  deriving DecidableEq, Repr

def Connection.start (daemonInstance runId : ℕ) (liveCursor : LiveEventCursor)
    (sentFences : Fences) : Connection where
  daemonInstance := daemonInstance
  runId := runId
  controls := ⟨none,0,none⟩
  admissions := []
  results := []
  liveCursor := liveCursor
  sentFences := sentFences
  receiverLagged := false
  observationClosed := false
  underflow := false
  room := none
  sent := []
  ended := none
  passed := []
  admitted := []
  applied := []
  observed := none

/-- A branch goes on, or the connection is lost in the middle of it. -/
abbrev Turn := Except Connection Connection

namespace Connection

def finish (a : Connection) (reason : End) : Connection := { a with ended := some reason }

def send (a : Connection) (frame : ServerFrame) : Turn :=
  match a.room with
  | some 0 => .error (a.finish .disconnected)
  | some (n+1) => .ok { a with room := some n, sent := a.sent ++ [frame] }
  | none => .ok { a with sent := a.sent ++ [frame] }

def sendEvents (a : Connection) : List RunEvent → Turn
  | [] => .ok a
  | event::events => do
    let a ← a.send (.event event)
    a.sendEvents events

def releaseStop (a : Connection) (isStop : Bool) : Connection :=
  if isStop then
    match a.controls.pendingStops with
    | 0 => { a with underflow := true }
    | n+1 => { a with controls := { a.controls with pendingStops := n } }
  else a

/-- No command is admitted or awaited. -/
def quiet (a : Connection) : Bool :=
  a.controls.pendingStops = 0 && a.admissions.isEmpty && a.results.isEmpty

/-- A terminal event ends the view, after the last command result. -/
def observeTerminal (a : Connection) (event : RunEvent) : Turn := do
  if a.quiet then
    let a ← a.send (.event event)
    return a.finish .terminal
  else return { a with controls := { a.controls with heldTerminal := some event } }

def sendHeld (a : Connection) : Turn :=
  if a.quiet then
    match a.controls.heldTerminal with
    | some event => do
      let a ← { a with controls := { a.controls with heldTerminal := none } }.send (.event event)
      return a.finish .terminal
    | none => .ok a
  else .ok a

def answerResult (a : Connection) (index : ℕ) (node : PendingResult) (result : ControlOutcome) :
    Turn := do
  let a ← { a with results := a.results.eraseIdx index }.send (.commandResult node.commandId result)
  (a.releaseStop node.isStop).sendHeld

/-- The result branch of the loop. -/
def resultBranch (a : Connection) (index : ℕ) (reply : Reply) : Turn :=
  match a.results[index]? with
  | some node =>
    match node.source.resolve (toString a.runId) reply with
    | some result => if Truthful node.applied result then a.answerResult index node result else .ok a
    | none => .ok a
  | none => .ok a

/-- The result future that a completed admission leaves. -/
def PendingAdmission.finished (admission : PendingAdmission) : Verdict → Option PendingResult
  | .entered =>
    match admission.command with
    | .input _ => some ⟨admission.commandId,admission.isStop,.input,false⟩
    | .signal signal => some ⟨admission.commandId,admission.isStop,.signal signal,false⟩
    | .stop _ => some ⟨admission.commandId,admission.isStop,.stop,false⟩
    | .resize _ => none
  | .refused failure =>
    match admission.command with
    | .resize _ => none
    | _ => some ⟨admission.commandId,admission.isStop,.ready (.rejected failure),false⟩
  | .resized result applied =>
    match admission.command with
    | .resize _ =>
      if Truthful applied (Mux.outcome result) then
        some ⟨admission.commandId,admission.isStop,.ready (Mux.outcome result),applied⟩
      else none
    | _ => none

/-- The admission branch: the front future completes, with its effect in that poll. -/
def admissionBranch (a : Connection) (verdict : Verdict) : Connection :=
  match a.admissions with
  | admission::admissions =>
    match PendingAdmission.finished admission verdict with
    | some node =>
      { a with
        admissions := admissions
        results := a.results ++ [node]
        admitted := a.admitted ++ [admission.commandId]
        applied := if node.applied then a.applied ++ [admission.commandId] else a.applied }
    | none => a
  | [] => a

/-- The owner of an admitted command gives it its effect. -/
def applyResult (a : Connection) (index : ℕ) : Connection :=
  match a.results[index]? with
  | some node =>
    match node.source with
    | .ready _ => a
    | _ =>
      { a with
        results := a.results.set index { node with applied := true }
        applied := a.applied ++ [node.commandId] }
  | none => a

def invalidCommandIdError : ProtocolError :=
  ⟨.invalidRequest,"attachment command ids must start at 1 and then increase strictly"⟩

/-- Ids start at one and increase. -/
def observeCommandId (a : Connection) (commandId : CommandId) : Option Connection :=
  let valid : Bool :=
    match a.controls.lastCommandId with
    | none => commandId = 1
    | some last => last < commandId
  if valid then
    some { a with
      controls := { a.controls with lastCommandId := some commandId }
      passed := a.passed ++ [commandId] }
  else none

def notDuringAttachment : ServerFrame :=
  .error ⟨.invalidRequest,"frame is not valid during attachment"⟩

def reject (a : Connection) (commandId : CommandId) (failure : ControlFailure) : Turn :=
  a.send (.commandResult commandId (.rejected failure))

/-- The answers of the upgrade gate and of the budgets to one frame; `control` is the error
of a Run without native control. -/
inductive UpgradeRequestAdmission where
  | execute | retry | sealed
  deriving DecidableEq, Repr

structure FrameEnv where
  upgrade : UpgradeRequestAdmission
  control : Option ProtocolError
  payloadFits : Bool
  memoryFits : Bool
  deriving DecidableEq, Repr

def pushAdmission (a : Connection) (env : FrameEnv) (admission : PendingAdmission) :
    Except ControlFailure Connection :=
  match env.control with
  | some error => .error (controlNotApplied error)
  | none =>
    if env.memoryFits then .ok { a with admissions := a.admissions ++ [admission] }
    else .error (controlNotApplied
      ⟨.controlBackpressure,"daemon attachment admission-memory budget is full"⟩)

def queueInputAdmission (a : Connection) (env : FrameEnv) (commandId : CommandId) (bytes : ℕ) :
    Except ControlFailure Connection :=
  match env.control with
  | some error => .error (controlNotApplied error)
  | none =>
    if env.payloadFits then a.pushAdmission env ⟨commandId,false,.input bytes⟩
    else .error (controlNotApplied
      ⟨.controlBackpressure,"daemon attachment waiting-payload budget is full"⟩)

def validateRecoverableStop (a : Connection) (operation : RecoverableStop) :
    Except ControlFailure Unit :=
  if operation.daemonInstance ≠ a.daemonInstance then
    .error (controlNotApplied
      ⟨.daemonInstanceMismatch,"recoverable native Stop belongs to another daemon incarnation"⟩)
  else if a.runId ≠ operation.id then
    .error (controlNotApplied
      ⟨.stopOperationConflict,"attachment Stop operation names another Run"⟩)
  else .ok ()

/-- The retained key of a Stop has not been inspected, so a refused admission proves
nothing about it. -/
def handleStopCommand (a : Connection) (env : FrameEnv) (commandId : CommandId)
    (operation : RecoverableStop) : Turn :=
  match a.validateRecoverableStop operation with
  | .error failure => a.reject commandId failure
  | .ok () =>
    match a.pushAdmission env ⟨commandId,true,.stop operation⟩ with
    | .ok a => .ok { a with controls := { a.controls with pendingStops := a.controls.pendingStops+1 } }
    | .error failure => a.reject commandId { failure with disposition := .unknown }

def executeCommand (a : Connection) (env : FrameEnv) (commandId : CommandId) :
    ControlCommand → Turn
  | .stop operation => a.handleStopCommand env commandId operation
  | .input bytes =>
    match a.queueInputAdmission env commandId bytes with
    | .ok a => .ok a
    | .error failure => a.reject commandId failure
  | command =>
    match a.pushAdmission env ⟨commandId,false,command⟩ with
    | .ok a => .ok a
    | .error failure => a.reject commandId failure

def handleCommand (a : Connection) (env : FrameEnv) (commandId : CommandId)
    (command : ControlCommand) : Turn :=
  match env.upgrade with
  | .execute => a.executeCommand env commandId command
  | .retry => a.reject commandId (controlNotApplied upgradeRetryError)
  | .sealed => .ok (a.finish .sealed)

def ControlCommand.isStop : ControlCommand → Bool
  | .stop _ => true
  | _ => false

/-- `handle_frame`, and `reject_after_observation_close` once the view has failed. -/
def receiveBranch (a : Connection) (frame : ClientFrame) (env : FrameEnv) : Turn :=
  match frame with
  | .detach => do
    let a ← a.send .detached
    return a.finish .detached
  | .hello | .request => a.send notDuringAttachment
  | .command commandId command =>
    match a.observeCommandId commandId with
    | none => do
      let a ← a.send (.error invalidCommandIdError)
      return a.finish .invalidCommandId
    | some a =>
      if a.observationClosed then
        a.reject commandId (observationClosedFailure (ControlCommand.isStop command))
      else a.handleCommand env commandId command

/-- The waiting admissions are answered and dropped without another poll. -/
def cancelUnadmitted (a : Connection) : List PendingAdmission → Turn
  | [] => .ok a
  | admission::admissions => do
    let a := { a with admissions := admissions }
    let a ← a.reject admission.commandId (observationClosedFailure admission.isStop)
    (a.releaseStop admission.isStop).cancelUnadmitted admissions

/-- Deliver one event unless the client has it already. -/
def deliver (a : Connection) (event : RunEvent) : Turn :=
  match event with
  | .output endByte =>
    if endByte ≤ a.sentFences.sentThroughByte then .ok a
    else { a with sentFences := { a.sentFences with sentThroughByte := endByte } }.send (.event event)
  | .resized _ _ resizeRevision =>
    if resizeRevision ≤ a.sentFences.sentResizeRevision then .ok a
    else
      { a with sentFences := { a.sentFences with sentResizeRevision := resizeRevision } }.send
        (.event event)
  | .serviceChanged revision =>
    if revision ≤ a.sentFences.sentServiceRevision then .ok a
    else
      { a with sentFences := { a.sentFences with sentServiceRevision := revision } }.send
        (.event event)
  | .exited | .interrupted => a.observeTerminal event
  | .tmux | .observationDiscontinuity | .gap _ _ => a.send (.event event)

def acceptEnvelope (a : Connection) (envelope : LiveRunEvent) : Turn :=
  let a := { a with liveCursor := envelope.after }
  match envelope.event with
  | none => .ok a
  | some event => a.deliver event

inductive Received where
  | envelope (envelope : LiveRunEvent) (authoritative : Authoritative)
  | lagged
  | closed
  deriving DecidableEq, Repr

def handleEnvelope (a : Connection) (envelope : LiveRunEvent) (authoritative : Authoritative) :
    Turn :=
  if a.receiverLagged || envelope.published = .snapshotNeeded then do
    let r := recoverLaggedDelivery authoritative a.liveCursor (retainedBoundary envelope) a.sentFences
    let a ← { a with receiverLagged := false, sentFences := r.2.1 }.sendEvents r.1
    match r.2.2 with
    | .proceed => a.acceptEnvelope envelope
    | .close => ({ a with observationClosed := true }).cancelUnadmitted a.admissions
    | .terminal event => a.observeTerminal event
  else a.acceptEnvelope envelope

/-- The event branch is disabled while a terminal event is held and after a close. -/
def eventBranch (a : Connection) (received : Received) : Turn :=
  if a.controls.heldTerminal.isNone && !a.observationClosed then
    match received with
    | .envelope envelope authoritative => a.handleEnvelope envelope authoritative
    | .lagged => .ok { a with receiverLagged := true }
    | .closed => .ok (a.finish .eventsClosed)
  else .ok a

/-- A failed view ends when no command is left. -/
def loopHead (a : Connection) : Connection :=
  if a.observationClosed && a.admissions.isEmpty && a.results.isEmpty && a.ended.isNone then
    a.finish .observation
  else a

inductive Event where
  | result (room : Option ℕ) (index : ℕ) (reply : Reply)
  | admission (verdict : Verdict)
  | effect (index : ℕ)
  | frame (room : Option ℕ) (frame : ClientFrame) (env : FrameEnv)
  | receiveFailed
  | eof
  | received (room : Option ℕ) (received : Received)

/-- The terminal event that an envelope brings: its own, or the one that a recovery from
lag reports in its place. -/
def Received.terminal (a : Connection) : Received → Option RunEvent
  | .envelope live authoritative =>
    if a.receiverLagged || live.published = .snapshotNeeded then
      match (recoverLaggedDelivery authoritative a.liveCursor (retainedBoundary live)
        a.sentFences).2.2 with
      | .proceed => live.event.filter RunEvent.isTerminal
      | .close => none
      | .terminal event => some event
    else live.event.filter RunEvent.isTerminal
  | .lagged | .closed => none

/-- What the connection has seen once the event is over. Behind a terminal event or a
failed view nothing is received. -/
def Event.observed (a : Connection) : Event → Option RunEvent
  | .received _ arrived =>
    if a.observed.isNone && !a.observationClosed then arrived.terminal a else a.observed
  | _ => a.observed

def branch (a : Connection) : Event → Turn
  | .result room index reply => { a with room := room }.resultBranch index reply
  | .admission verdict => .ok (a.admissionBranch verdict)
  | .effect index => .ok (a.applyResult index)
  | .frame room frame env => { a with room := room }.receiveBranch frame env
  | .receiveFailed => .ok (a.finish .receiveFailed)
  | .eof => .ok (a.finish .disconnected)
  | .received room received => { a with room := room }.eventBranch received

def step (a : Connection) (event : Event) : Connection :=
  if a.ended.isSome then a
  else
    match { a with observed := event.observed a }.branch event with
    | .ok a => a.loopHead
    | .error a => a

def run (a : Connection) (events : List Event) : Connection := Machine.run step a events

end Connection
end Mux
end Ctxmux
