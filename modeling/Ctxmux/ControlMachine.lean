import Ctxmux.ControlState
import Ctxmux.Machine

/-!
# The native control machine

Every event below is one critical section of the control state lock, with the
choices of its environment: what the PTY write did, whether the memory budget
funded the request, whether the daemon-wide owner was lost while the lock was
held. One `progress_input` call of the owner is a sequence of `progress` events,
one per loop iteration, so that any other critical section may run in between.
-/

namespace Ctxmux
namespace NativeControl

/-- An admitted command: its payload, the expected cursor of a recoverable request
and the reply it was admitted with. -/
structure Admission where
  data : List Byte
  expectedByte : Option ℕ
  reply : InputReply
  deriving DecidableEq, Repr

/-- The counters of the owner's current `progress_input` call. -/
structure Turn where
  maxCommands : ℕ
  maxBytes : ℕ
  commands : ℕ
  bytes : ℕ
  deriving DecidableEq, Repr

/-- A control with the history that its environment saw: the commands admitted, the
results sent in settlement order, the slices that the PTY accepted with the channel
of their command, and the number of owner wakes for input. -/
structure Owner where
  runId : String
  resources : ResourceLimits
  state : ControlState
  ownerFailure : Option NativeServiceFailure
  writerOpen : Bool
  turn : Option Turn
  admitted : List Admission
  settled : List Settlement
  wire : List (ℕ × List Byte)
  inputWakes : ℕ

inductive HandoffInputOperation
  | completed (key : InputOperationKey) (expectedByte : ℕ) (data : List Byte)
      (range : AppliedInputRange)
  | unknown (key : InputOperationKey) (expectedByte : ℕ) (data : List Byte)
      (failure : ControlFailure)
  deriving DecidableEq, Repr

def HandoffInputOperation.key : HandoffInputOperation → InputOperationKey
  | .completed key _ _ _ => key
  | .unknown key _ _ _ => key

def HandoffInputOperation.entry : HandoffInputOperation → InputOperationEntry
  | .completed _ expectedByte data range => .completed ⟨expectedByte,data⟩ range
  | .unknown _ expectedByte data failure => .unknown ⟨expectedByte,data⟩ failure

structure HandoffInputState where
  appliedInputBytes : ℕ
  inputFailure : Option ProtocolError
  operations : List HandoffInputOperation
  deriving DecidableEq, Repr

def HandoffInputState.empty : HandoffInputState := ⟨0,none,[]⟩

def HandoffInputState.ledger (input : HandoffInputState) : InputOperations :=
  input.operations.foldl (fun ops operation => ops.insert operation.key operation.entry) ∅

def newWithComponents (runId : String) (resources : ResourceLimits) (input : HandoffInputState)
    (closed : Bool) : Owner where
  runId := runId
  resources := resources
  state :=
    { phase := if closed then .closed else .opened
      inputFailure := input.inputFailure
      inputQueue := []
      inputCommands := 0
      inputBytes := 0
      inputScheduled := false
      inputBlocked := false
      ownerFailure := none
      appliedInputBytes := input.appliedInputBytes
      inputOperations := input.ledger
      completedInputOperations :=
        (input.operations.filter fun operation => operation.entry.isCompleted).map (·.key)
      retainedInputRequestBytes :=
        (input.operations.map fun operation => operation.entry.request.data.length).sum
      childOpen := !closed
      stopPending := false
      childCommands := [] }
  ownerFailure := none
  writerOpen := !closed
  turn := none
  admitted := []
  settled := []
  wire := []
  inputWakes := 0

def ownerStoppedError : ProtocolError :=
  ⟨.backendUnavailable,"daemon-wide Native input owner stopped"⟩

def ownerStoppedControlError : ProtocolError :=
  ⟨.backendUnavailable,"daemon-wide Native owner stopped before control admission"⟩

def stoppingError (o : Owner) : ProtocolError :=
  ⟨.invalidRunState,s!"cannot write to stopping Run {o.runId}"⟩

/-- Replace the state, then settle everything queued with one error. -/
def rejectInputs (o : Owner) (st : ControlState) (error : ProtocolError) : Owner :=
  let r := rejectQueuedInputs st error
  { o with state := r.1, settled := o.settled ++ r.2 }

def settleOwnerLoss (o : Owner) : Owner :=
  match o.ownerFailure with
  | none => o
  | some reason =>
    if o.state.ownerFailure.isSome then o
    else rejectInputs o
      { o.state with ownerFailure := some reason, stopPending := false, childCommands := [] }
      ownerStoppedError

/-- The guard's drop. `loss` is an owner failure recorded while the lock was held. -/
def release (loss : Option NativeServiceFailure) (o : Owner) : Owner :=
  settleOwnerLoss { o with ownerFailure := o.ownerFailure <|> loss }

def enqueueInput (o : Owner) (data : List Byte) (expectedByte : Option ℕ) (reply : InputReply) :
    Owner :=
  { o with
    state := { o.state with
      inputCommands := o.state.inputCommands + 1
      inputBytes := o.state.inputBytes + data.length
      inputQueue := o.state.inputQueue ++ [⟨data,0,reply⟩]
      inputScheduled := true }
    admitted := o.admitted ++ [⟨data,expectedByte,reply⟩]
    inputWakes := if o.state.inputScheduled then o.inputWakes else o.inputWakes + 1 }

/-- Why no input, fresh or queued, may be admitted to this lane now. -/
def laneRefusal (o : Owner) : Option ProtocolError :=
  if o.state.phase ≠ .opened then some (invalidPhaseError o.runId o.state.phase "write to")
  else if o.ownerFailure.isSome then some ownerStoppedError
  else o.state.inputFailure

def queueFull (o : Owner) (bytes : ℕ) : Bool :=
  o.resources.inputQueueCommands ≤ o.state.inputCommands ||
    o.resources.inputQueueBytes - o.state.inputBytes < bytes

/-- Returns the channel on which the command will be answered. -/
def beginInputLocked (o : Owner) (data : List Byte) (funded : Bool) :
    Owner × Except ControlFailure ℕ :=
  match laneRefusal o with
  | some error => (o,.error (notApplied error))
  | none =>
    if queueFull o data.length then
      let commands := o.resources.inputQueueCommands
      let bytes := o.resources.inputQueueBytes
      (o,.error (notApplied ⟨.controlBackpressure,
        s!"Run {o.runId} PTY input queue exceeds its {commands}-command or {bytes}-byte budget"⟩))
    else if !funded then
      (o,.error (notApplied ⟨.controlBackpressure,"daemon input queue byte budget is full"⟩))
    else
      let channel := o.admitted.length
      (enqueueInput o data none (.legacy channel),.ok channel)

def maxInputOperationKeyBytes : ℕ := 128

def validateKey (key : InputOperationKey) : Except String Unit :=
  let actual := key.utf8ByteSize
  if actual = 0 then .error "native Input operation key must not be empty"
  else if maxInputOperationKeyBytes < actual then
    .error s!"native Input operation key is {actual} bytes; maximum is {maxInputOperationKeyBytes}"
  else .ok ()

def inputRequest (key : InputOperationKey) (expectedByte : ℕ) (data : List Byte) :
    Except ControlFailure InputOperationRequest :=
  match validateKey key with
  | .error message => .error (notApplied ⟨.invalidRequest,message⟩)
  | .ok () =>
    if data.isEmpty then
      .error (notApplied ⟨.invalidRequest,"recoverable native Input must not be empty"⟩)
    else .ok ⟨expectedByte,data⟩

def retainPendingInputOperation (st : ControlState) (key : InputOperationKey)
    (request : InputOperationRequest) (completion : ℕ) : ControlState :=
  { st with
    retainedInputRequestBytes := st.retainedInputRequestBytes + request.data.length
    inputOperations := st.inputOperations.insert key (.pending request completion) }

def beginRecoverableInputLocked (o : Owner) (key : InputOperationKey)
    (request : InputOperationRequest) (funded : Bool) :
    Owner × Except ControlFailure PendingRecoverableInput :=
  match retainedInputResult o.state key request o.runId with
  | .error failure => (o,.error failure)
  | .ok (some retained) => (o,.ok retained)
  | .ok none =>
    match laneRefusal o with
    | some error => (o,.error (notApplied error))
    | none =>
      let evicted :=
        { o with state := evictCompletedInputResults o.resources o.state request.data.length }
      if resultCapacityExceeded evicted.resources evicted.state request.data.length
          || queueFull evicted request.data.length then
        (evicted,.error (notApplied ⟨.controlBackpressure,
          s!"Run {o.runId} recoverable Input result or queue capacity is full"⟩))
      else if !funded then
        (evicted,.error (notApplied ⟨.controlBackpressure,
          "daemon control-state byte budget is full"⟩))
      else
        let channel := o.admitted.length
        let retained :=
          { evicted with state := retainPendingInputOperation evicted.state key request channel }
        (enqueueInput retained request.data (some request.expectedByte) (.recoverable key channel),
          .ok (.pending channel))

def beginRecoverableInput (o : Owner) (key : InputOperationKey) (expectedByte : ℕ)
    (data : List Byte) (funded : Bool) : Owner × Except ControlFailure PendingRecoverableInput :=
  match inputRequest key expectedByte data with
  | .error failure => (o,.error failure)
  | .ok request => beginRecoverableInputLocked o key request funded

inductive WriteOutcome
  | wrote (bytes : ℕ)
  | wouldBlock
  | interrupted
  | failed (detail : String)
  | unwound
  deriving DecidableEq, Repr

/-- One attempt on the PTY descriptor with a slice of the given length: an empty slice
is not attempted, and a detached descriptor fails. -/
def attempt (o : Owner) (length : ℕ) (w : WriteOutcome) : WriteOutcome :=
  if length = 0 then .wrote 0
  else if !o.writerOpen then .failed "PTY input descriptor is closed"
  else match w with
    | .wrote bytes => .wrote (min bytes length)
    | other => other

/-- The cursor that the front command expects. The ledger arm without an entry is the
source's `expect`: a queued recoverable input always has one. -/
def expectedCursor (st : ControlState) : InputReply → ℕ
  | .legacy _ => st.appliedInputBytes
  | .recoverable key _ =>
    match st.inputOperations.lookup key with
    | some entry => entry.request.expectedByte
    | none => st.appliedInputBytes

def u64Limit : ℕ := 2 ^ 64

def cursorRefused (st : ControlState) (command : InputCommand) : Bool :=
  expectedCursor st command.reply ≠ st.appliedInputBytes ||
    u64Limit ≤ st.appliedInputBytes + command.data.length

/-- The cursor-mismatch arm. It leaves the scheduled flag as it was. -/
def rejectCursor (o : Owner) (t : Turn) (command : InputCommand) (rest : List InputCommand) :
    Owner :=
  let applied := o.state.appliedInputBytes
  let expected := expectedCursor o.state command.reply
  let st := releaseInputCapacity { o.state with inputQueue := rest } command.data.length
  let failure := notApplied ⟨.inputCursorMismatch,
    s!"Run {o.runId} applied-input cursor is {applied}, not expected {expected}, or exhausted"⟩
  { o with
    state := removeReplyOperation st command.reply
    settled := o.settled ++ [(command,.error failure)]
    turn := some { t with commands := t.commands + 1 } }

/-- The bytes from the confirmed offset that this write accepted. -/
def acceptedSlice (command : InputCommand) (written : ℕ) : List Byte :=
  (command.data.drop command.confirmed).take written

/-- The success arm: an incomplete command stays at the front with its new offset, a
complete one advances the cursor and is answered. -/
def confirmWrite (o : Owner) (t : Turn) (command : InputCommand) (rest : List InputCommand)
    (written : ℕ) : Owner :=
  let command' := { command with confirmed := command.confirmed + written }
  let wire := o.wire ++ [(command.reply.channel,acceptedSlice command written)]
  let bytes := t.bytes + written
  if command'.confirmed ≠ command.data.length then
    { o with
      state := { o.state with inputBlocked := false, inputQueue := command'::rest }
      wire := wire
      turn := some { t with bytes := bytes } }
  else
    let range : AppliedInputRange :=
      ⟨o.state.appliedInputBytes,o.state.appliedInputBytes + command.data.length⟩
    let st := releaseInputCapacity
      { o.state with
        inputBlocked := false
        inputQueue := rest
        appliedInputBytes := range.endByte
        inputScheduled := !rest.isEmpty } command.data.length
    { o with
      state := retainCompletedInputOperation st command.reply range
      settled := o.settled ++ [(command',.ok range)]
      wire := wire
      turn := some { t with commands := t.commands + 1, bytes := bytes } }

/-- The failure arm: the front command is Unknown with its confirmed prefix, and the
lane is poisoned before the rest is rejected. -/
def failWrite (o : Owner) (command : InputCommand) (rest : List InputCommand) (code : ErrorCode)
    (detail : String) : Owner :=
  let st := releaseInputCapacity { o.state with inputQueue := rest } command.data.length
  let r := inputFailure st o.runId code detail
  let failure := { unknownFailure r.2 with confirmedInputBytes := some command.confirmed }
  let st := retainUnknownInputOperation r.1 command.reply failure
  rejectInputs { o with settled := o.settled ++ [(command,.error failure)], turn := none } st r.2

def writeFront (o : Owner) (t : Turn) (command : InputCommand) (rest : List InputCommand)
    (w : WriteOutcome) : Owner :=
  match attempt o (min (command.data.length - command.confirmed) (t.maxBytes - t.bytes)) w with
  | .wrote written =>
    if 0 < written || command.data.isEmpty then confirmWrite o t command rest written
    else failWrite o command rest .io "PTY input write returned zero"
  | .wouldBlock => { o with state := { o.state with inputBlocked := true }, turn := none }
  | .interrupted => { o with turn := none }
  | .failed detail => failWrite o command rest .io s!"PTY input I/O failure: {detail}"
  | .unwound =>
    failWrite o command rest .internal "PTY input writer unwound before confirming its attempt"

/-- One loop iteration of `progress_input`, under one acquisition of the lock. -/
def progressInput (o : Owner) (t : Turn) (w : WriteOutcome) : Owner :=
  if (laneRefusal o).isSome then { o with turn := none }
  else match o.state.inputQueue with
    | [] =>
      { o with
        state := { o.state with inputScheduled := false, inputBlocked := false }
        turn := none }
    | command::rest =>
      if cursorRefused o.state command then rejectCursor o t command rest
      else writeFront o t command rest w

inductive TurnOp
  | drainChildCommands
  | rejectPendingStop
  | commitPendingStop
  | fenceChildCommands
  deriving DecidableEq, Repr

def commitPendingStop (o : Owner) : Owner × Except ControlFailure Unit :=
  let st := { o.state with stopPending := false }
  if o.state.phase ≠ .opened || !o.state.stopPending || !o.state.childOpen then
    ({ o with state := st },.error (notApplied (invalidPhaseError o.runId o.state.phase "stop")))
  else (rejectInputs o { st with phase := .stopping } (stoppingError o),.ok ())

/-- Close every control that has not lost its wait authority. -/
def closedPhase : ControlPhase → ControlPhase
  | .failed => .failed
  | _ => .closed

def closeInputs (o : Owner) (phase : ControlPhase) (error : ProtocolError) : Owner :=
  rejectInputs o
    { o.state with phase := phase, childOpen := false, stopPending := false, childCommands := [] }
    error

def fenceChildCommands (o : Owner) : Owner :=
  let phase := closedPhase o.state.phase
  closeInputs o phase (invalidPhaseError o.runId phase "write to")

def markClosed (o : Owner) : Owner :=
  let phase := closedPhase o.state.phase
  closeInputs o phase (invalidPhaseError o.runId phase "write to")

def markWaitAuthorityLost (o : Owner) (error : String) : Owner :=
  closeInputs o .failed ⟨.backendUnavailable,error⟩

def turnOp (o : Owner) : TurnOp → Owner
  | .drainChildCommands => { o with state := { o.state with childCommands := [] } }
  | .rejectPendingStop => { o with state := { o.state with stopPending := false } }
  | .commitPendingStop => (commitPendingStop o).1
  | .fenceChildCommands => fenceChildCommands o

def pushChildCommand (st : ControlState) (command : ChildCommand) : ControlState :=
  { st with childCommands := st.childCommands ++ [command] }

def beginStopLocked (o : Owner) : Owner × Except ControlFailure Unit :=
  if o.ownerFailure.isSome then (o,.error (notApplied ownerStoppedControlError))
  else if o.state.phase ≠ .opened then
    (o,.error (notApplied (invalidPhaseError o.runId o.state.phase "stop")))
  else if !o.state.childOpen then
    ({ o with state := { o.state with phase := .closed } },
      .error (notApplied ⟨.invalidRunState,s!"cannot stop exited Run {o.runId}"⟩))
  else if o.state.stopPending then
    (o,.error (notApplied ⟨.controlBackpressure,
      s!"Run {o.runId} already has one pending Stop admission"⟩))
  else ({ o with state := pushChildCommand { o.state with stopPending := true } .stop },.ok ())

/-- The foreground group is what the PTY reports under the lock. -/
def beginSignalLocked (o : Owner) (foregroundGroup : Option ℕ) :
    Owner × Except ControlFailure Unit :=
  if o.ownerFailure.isSome then (o,.error (notApplied ownerStoppedControlError))
  else if o.state.phase ≠ .opened then
    (o,.error (notApplied (invalidPhaseError o.runId o.state.phase "signal")))
  else if !o.state.childOpen then
    (o,.error (notApplied ⟨.invalidRunState,s!"cannot signal exited Run {o.runId}"⟩))
  else match foregroundGroup with
    | none => (o,.error (notApplied ⟨.invalidRunState,
        s!"Run {o.runId} has no current foreground process group"⟩))
    | some group => ({ o with state := pushChildCommand o.state (.signal group) },.ok ())

/-- A control that already left the open phase only reports its reap state. -/
def cleanupUnpublished (o : Owner) : Owner :=
  if o.ownerFailure.isSome then o
  else if o.state.phase ≠ .opened then o
  else
    let st := { o.state with phase := .stopping }
    if !o.state.childOpen then { o with state := st }
    else rejectInputs o (pushChildCommand st .cleanupUnpublished) (stoppingError o)

/-- The refusal of `handoff_input_state` for a control that still crosses the PTY. -/
def handoffCrossing (o : Owner) : Option String :=
  if (o.state.phase ≠ .opened && o.state.phase ≠ .closed) || o.state.stopPending
      || !o.state.childCommands.isEmpty || o.state.inputScheduled || o.state.inputCommands ≠ 0
      || o.state.inputBytes ≠ 0 || !o.state.inputQueue.isEmpty then
    some s!"Run {o.runId} still has a crossing native control at handoff"
  else none

def closedQuiescenceResult (o : Owner) (reap : Except String Unit) (owners : ℕ) :
    Except String Unit :=
  match reap with
  | .error message => .error message
  | .ok () =>
    if o.state.phase ≠ .closed || o.state.childOpen || o.state.stopPending
        || !o.state.childCommands.isEmpty || o.state.inputScheduled || o.state.inputCommands ≠ 0
        || o.state.inputBytes ≠ 0 || !o.state.inputQueue.isEmpty then
      .error s!"Run {o.runId} native control cleanup is not quiescent"
    else if owners ≠ 1 then
      .error s!"Run {o.runId} native control cleanup retains {owners} owners"
    else .ok ()

def detachClosedDescriptors (o : Owner) (reap : Except String Unit) (owners : ℕ) : Owner :=
  match closedQuiescenceResult o reap owners with
  | .ok () => { o with writerOpen := false }
  | .error _ => o

inductive Event
  | beginInput (data : List Byte) (funded : Bool) (loss : Option NativeServiceFailure)
  | beginRecoverableInput (key : InputOperationKey) (expectedByte : ℕ) (data : List Byte)
      (funded : Bool) (loss : Option NativeServiceFailure)
  | beginTurn (maxCommands maxBytes : ℕ)
  | progress (w : WriteOutcome) (loss : Option NativeServiceFailure)
  | busy
  | controlTurn (ops : List TurnOp) (loss : Option NativeServiceFailure)
  | beginStop (loss : Option NativeServiceFailure)
  | beginSignal (foregroundGroup : Option ℕ) (loss : Option NativeServiceFailure)
  | cleanupUnpublished (loss : Option NativeServiceFailure)
  | markClosed (loss : Option NativeServiceFailure)
  | markWaitAuthorityLost (error : String) (loss : Option NativeServiceFailure)
  | fenceOwnerLoss (reason : NativeServiceFailure) (busy : Bool)
  | observe (loss : Option NativeServiceFailure)
  | detachClosedDescriptors (reap : Except String Unit) (owners : ℕ)
      (loss : Option NativeServiceFailure)

/-- An owner turn starts only when none is running; the iteration whose quantum is
spent, or which finds the lock busy, ends the turn without touching the state. -/
def step (o : Owner) : Event → Owner
  | .beginInput data funded loss => release loss (beginInputLocked o data funded).1
  | .beginRecoverableInput key expectedByte data funded loss =>
    release loss (beginRecoverableInput o key expectedByte data funded).1
  | .beginTurn maxCommands maxBytes =>
    if o.turn.isSome then o else { o with turn := some ⟨maxCommands,maxBytes,0,0⟩ }
  | .progress w loss =>
    match o.turn with
    | none => o
    | some t =>
      if t.commands < t.maxCommands ∧ t.bytes < t.maxBytes then release loss (progressInput o t w)
      else { o with turn := none }
  | .busy => { o with turn := none }
  | .controlTurn ops loss => release loss (ops.foldl turnOp o)
  | .beginStop loss => release loss (beginStopLocked o).1
  | .beginSignal foregroundGroup loss => release loss (beginSignalLocked o foregroundGroup).1
  | .cleanupUnpublished loss => release loss (cleanupUnpublished o)
  | .markClosed loss => release loss (markClosed o)
  | .markWaitAuthorityLost error loss => release loss (markWaitAuthorityLost o error)
  | .fenceOwnerLoss reason busy =>
    let o := { o with ownerFailure := o.ownerFailure <|> some reason }
    if busy then o else release none o
  | .observe loss => release loss o
  | .detachClosedDescriptors reap owners loss =>
    release loss (detachClosedDescriptors o reap owners)

end NativeControl
end Ctxmux
