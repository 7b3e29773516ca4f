import Ctxmux.ControlMachine
import Ctxmux.ServiceSnapshot

/-!
# The native service cell

One revisioned cell projects what the native owner, the control and the output of a Run
do. The owner thread writes it directly, the control writes it while its own lock is
held, and the output log adds its first terminal fault. The control guard is split into
the moments at which the cell or the owner-loss fence is touched, so that the owner can
stop between any two of them.
-/

namespace Ctxmux
namespace Service

open Attachment (TerminalSize)
open NativeControl (Owner WriteOutcome TurnOp InputOperationKey HandoffInputState ResourceLimits)

/-- The cell with every snapshot that it published after the first. -/
structure NativeService where
  snapshot : NativeServiceSnapshot
  published : List NativeServiceSnapshot
  deriving DecidableEq, Repr

def NativeServiceFailure.ownerLost : NativeServiceFailure → Bool
  | .ownerStopped | .ownerUnwound | .ownerIoFailed _ _ => true
  | _ => false

namespace NativeService

def firstSnapshot (historical : Bool) : NativeServiceSnapshot where
  revision := 0
  owner := if historical then .stopped .historical else .starting
  output := if historical then .closed else .pending
  input :=
    { phase := if historical then .closed else .opened
      unsettledCommands := 0
      unsettledRequestBytes := 0
      writeBlocked := false
      completedInputBytes := if historical then none else some 0
      currentSize := none
      activeConfirmedBytes := 0 }
  terminalFault := none

def new (historical : Bool) : NativeService := ⟨firstSnapshot historical,[]⟩

/-- A change is published under the next revision; an update that changes nothing is not. -/
def update (c : NativeService) (f : NativeServiceSnapshot → NativeServiceSnapshot) :
    NativeService :=
  if f c.snapshot = c.snapshot then c
  else
    let next := { f c.snapshot with revision := c.snapshot.revision+1 }
    ⟨next,c.published ++ [next]⟩

/-- An output that is not closed becomes unavailable with its owner. -/
def loseOutput (output : NativeOutputStatus) (reason : NativeServiceFailure) :
    NativeOutputStatus :=
  if output = .closed then .closed else .unavailable reason

def applyInput (input : NativeInputStatus) (s : NativeServiceSnapshot) : NativeServiceSnapshot :=
  match input.phase with
  | .unavailable reason =>
    if reason.ownerLost then
      { s with
        owner := .stopped reason, output := loseOutput s.output reason, input := input }
    else { s with input := input }
  | _ => { s with input := input }

def updateInput (c : NativeService) (input : NativeInputStatus) : NativeService :=
  c.update (applyInput input)

def updateOutput (c : NativeService) (output : NativeOutputStatus) : NativeService :=
  c.update fun s => { s with output := output }

def applyPressure (pressured : Bool) (s : NativeServiceSnapshot) : NativeServiceSnapshot :=
  if (s.output = .serving ∨ s.output = .backpressured) ∧
      (s.owner = .serving ∨ s.owner = .draining) then
    { s with output := if pressured then .backpressured else .serving }
  else s

def updateOutputPressure (c : NativeService) (pressured : Bool) : NativeService :=
  c.update (applyPressure pressured)

def ready (c : NativeService) : NativeService :=
  c.update fun s => { s with owner := .serving, output := .serving }

def draining (c : NativeService) : NativeService := c.update fun s => { s with owner := .draining }

def applyStopped (reason : NativeServiceFailure) (s : NativeServiceSnapshot) :
    NativeServiceSnapshot :=
  { s with
    owner := .stopped reason
    output := loseOutput s.output reason
    input := if s.input.phase = .closed then s.input
      else { s.input with phase := .unavailable reason, writeBlocked := false } }

def stopped (c : NativeService) (reason : NativeServiceFailure) : NativeService :=
  c.update (applyStopped reason)

def applyFault (fault : NativeTerminalFault) (s : NativeServiceSnapshot) : NativeServiceSnapshot :=
  if s.terminalFault = none then { s with terminalFault := some fault } else s

def terminalFault (c : NativeService) (fault : NativeTerminalFault) : NativeService :=
  c.update (applyFault fault)

end NativeService

/-- Where the owner thread stands with this Run: before its registration is drained,
polling its descriptors, after the descriptors were extracted for a handoff, between the
two halves of `complete_stopped_entry`, and after it. -/
inductive EntryStage where
  | unregistered
  | watching (reading : Bool)
  | extracted
  | announced (reason : NativeServiceFailure)
  | fenced
  deriving DecidableEq, Repr

/-- `ownerLoss` is the fence that the owner sets once, `settledLoss` the failure that the
control state records when a guard settles it. -/
structure System where
  historical : Bool
  cell : NativeService
  control : Owner
  confirmedSize : Option TerminalSize
  ownerLoss : Option NativeServiceFailure
  settledLoss : Option NativeServiceFailure
  controlBound : Bool
  held : Bool
  unpublished : Bool
  stage : EntryStage
  outputPressure : Bool
  logFault : Option NativeTerminalFault
  logBound : Bool

/-- What a holder of the control guard does with the state. The read-back of a resize is
absent when the descriptor, an ioctl or the size itself fails. -/
inductive Operation where
  | beginInput (data : List NativeControl.Byte) (funded : Bool)
  | beginRecoverableInput (key : InputOperationKey) (expectedByte : ℕ)
      (data : List NativeControl.Byte) (funded : Bool)
  | progressInput (maxCommands maxBytes commands bytes : ℕ) (w : WriteOutcome)
  | turn (op : TurnOp)
  | beginStop
  | beginSignal (foregroundGroup : Option ℕ)
  | cleanupUnpublished
  | markClosed
  | markWaitAuthorityLost (error : String)
  | resize (readback : Option TerminalSize)

inductive Event where
  | bindOutput
  | bindControl
  | acquire
  | operate (operation : Operation)
  | publish
  | release
  | register
  | pressure (pressured : Bool)
  | outputClosed (failed : Bool)
  | extract
  | announce (reason : NativeServiceFailure)
  | fence
  | fault (stage : NativeTerminalFaultStage) (throughByte : ℕ)

/-- The kind of a failure, as the control state keeps it. -/
def NativeServiceFailure.kind : NativeServiceFailure → NativeControl.NativeServiceFailure
  | .ownerStopped => .ownerStopped
  | .ownerUnwound => .ownerUnwound
  | .ownerIoFailed _ _ => .ownerIoFailed
  | .readFailed => .readFailed
  | .writeFailed => .writeFailed
  | .historical => .historical
  | .controlClosed => .controlClosed

namespace System

/-- A Run as its constructor leaves it: nothing is bound or registered. The output log may
already carry the fault of its recovery. -/
def initial (historical : Bool) (runId : String) (resources : ResourceLimits)
    (input : HandoffInputState) (closed : Bool) (size : Option TerminalSize)
    (logFault : Option NativeTerminalFault) : System where
  historical := historical
  cell := .new historical
  control := NativeControl.newWithComponents runId resources input closed
  confirmedSize := size
  ownerLoss := none
  settledLoss := none
  controlBound := false
  held := false
  unpublished := false
  stage := .unregistered
  outputPressure := false
  logFault := logFault
  logBound := false

def inputStatus (s : System) : NativeInputStatus where
  phase :=
    match s.settledLoss with
    | some reason => .unavailable reason
    | none =>
      if s.control.state.phase ≠ .opened then .closed
      else if s.control.state.inputFailure.isSome then .unavailable .writeFailed
      else .opened
  unsettledCommands := s.control.state.inputCommands
  unsettledRequestBytes := s.control.state.inputBytes
  writeBlocked := s.control.state.inputBlocked
  completedInputBytes := some s.control.state.appliedInputBytes
  currentSize := s.confirmedSize
  activeConfirmedBytes := (s.control.state.inputQueue.head?.map (·.confirmed)).getD 0

def publishInput (s : System) : System :=
  if s.controlBound then { s with cell := s.cell.updateInput s.inputStatus } else s

/-- The guard's drop settles an owner loss that was recorded while it was held. -/
def settleOwnerLoss (s : System) : System :=
  match s.ownerLoss, s.settledLoss with
  | some reason, none =>
    { s with
      control := NativeControl.settleOwnerLoss s.control
      settledLoss := some reason }.publishInput
  | _, _ => s

/-- Whether an admission enqueued its input, which is when it publishes. -/
def admits {α : Type} (o : Owner) (r : Owner × Except NativeControl.ControlFailure α) : Bool :=
  o.admitted.length < r.1.admitted.length

/-- One operation on the control under the guard, and whether `publish_input` follows. -/
def operate (s : System) : Operation → System × Bool
  | .beginInput data funded =>
    let r := NativeControl.beginInputLocked s.control data funded
    ({ s with control := r.1 },admits s.control r)
  | .beginRecoverableInput key expectedByte data funded =>
    let r := NativeControl.beginRecoverableInput s.control key expectedByte data funded
    ({ s with control := r.1 },admits s.control r)
  | .progressInput maxCommands maxBytes commands bytes w =>
    ({ s with
        control := NativeControl.progressInput s.control ⟨maxCommands,maxBytes,commands,bytes⟩ w },
      (NativeControl.laneRefusal s.control).isNone)
  | .turn op =>
    ({ s with control := NativeControl.turnOp s.control op },
      match op with
      | .drainChildCommands | .rejectPendingStop => false
      | .commitPendingStop => (NativeControl.commitPendingStop s.control).2.isOk
      | .fenceChildCommands => true)
  | .beginStop => ({ s with control := (NativeControl.beginStopLocked s.control).1 },false)
  | .beginSignal foregroundGroup =>
    ({ s with control := (NativeControl.beginSignalLocked s.control foregroundGroup).1 },false)
  | .cleanupUnpublished =>
    ({ s with control := NativeControl.cleanupUnpublished s.control },
      s.control.ownerFailure.isNone && s.control.state.phase = .opened &&
        s.control.state.childOpen)
  | .markClosed => ({ s with control := NativeControl.markClosed s.control },true)
  | .markWaitAuthorityLost error =>
    ({ s with control := NativeControl.markWaitAuthorityLost s.control error },true)
  | .resize readback =>
    if s.ownerLoss.isSome || s.control.state.phase ≠ .opened then (s,false)
    else match readback with
      | none => (s,false)
      | some size =>
        if size.rows = 0 ∨ size.cols = 0 then (s,false)
        else ({ s with confirmedSize := some size },true)

/-- `note_terminal_fault` keeps the first fault of the log. -/
def noteTerminalFault (s : System) (fault : NativeTerminalFault) : System :=
  match s.logFault with
  | some _ => s
  | none =>
    { s with
      cell := if s.logBound then s.cell.terminalFault fault else s.cell
      logFault := some fault }

def bindOutput (s : System) : System :=
  if s.logBound then s
  else
    match s.logFault with
    | some fault => { s with cell := s.cell.terminalFault fault, logBound := true }
    | none => { s with logBound := true }

/-- Only a live Run has a control, and it binds once. -/
def bindControl (s : System) : System :=
  if s.historical || s.controlBound || s.held then s
  else { s with controlBound := true }.publishInput.settleOwnerLoss

/-- A repeated observation is not published. -/
def outputPressured (s : System) (pressured : Bool) : System :=
  if s.outputPressure = pressured then s
  else { s with
    outputPressure := pressured, cell := s.cell.updateOutputPressure pressured }

def fenceOwnerLoss (s : System) (reason : NativeServiceFailure) : System :=
  let s :=
    { s with
      ownerLoss := s.ownerLoss <|> some reason
      control := { s.control with ownerFailure := s.control.ownerFailure <|> some reason.kind } }
  if s.held then s else s.settleOwnerLoss

/-- A Run is registered after its control is bound. -/
def step (s : System) : Event → System
  | .bindOutput => s.bindOutput
  | .bindControl => s.bindControl
  | .acquire => if s.historical || s.held then s else { s with held := true }
  | .operate operation =>
    if s.held && !s.unpublished then
      let r := s.operate operation
      { r.1 with unpublished := r.2 }
    else s
  | .publish =>
    if s.held && s.unpublished then { s.publishInput with unpublished := false } else s
  | .release =>
    if s.held && !s.unpublished then { s.settleOwnerLoss with held := false } else s
  | .register =>
    match s.stage with
    | .unregistered =>
      if s.controlBound then { s with cell := s.cell.ready, stage := .watching true } else s
    | _ => s
  | .pressure pressured =>
    match s.stage with
    | .watching true => s.outputPressured pressured
    | _ => s
  | .outputClosed failed =>
    match s.stage with
    | .watching true =>
      { s with
        cell := s.cell.updateOutput (if failed then .unavailable .readFailed else .closed)
        stage := .watching false }
    | _ => s
  | .extract =>
    match s.stage with
    | .watching _ => { s with cell := s.cell.draining, stage := .extracted }
    | _ => s
  | .announce reason =>
    match s.stage with
    | .unregistered | .watching _ | .extracted =>
      if s.controlBound && reason.ownerLost then
        { s with cell := s.cell.stopped reason, stage := .announced reason }
      else s
    | _ => s
  | .fence =>
    match s.stage with
    | .announced reason => { s.fenceOwnerLoss reason with stage := .fenced }
    | _ => s
  | .fault stage throughByte => s.noteTerminalFault ⟨stage,throughByte⟩

def run (s : System) (es : List Event) : System := Machine.run step s es

end System
end Service
end Ctxmux
