import Mathlib.Data.List.AList
import Mathlib.Tactic

/-!
# The native control state and its ledger operations

One daemon-owned Run has one control state: a bounded queue of PTY inputs, the
ledger of recoverable input operations, and the Stop and close fences. This
module holds the data and the helpers that run under the state lock; the machine
that calls them is in `ControlMachine`.
-/

namespace Ctxmux
namespace NativeControl

abbrev Byte := UInt8
abbrev InputOperationKey := String

inductive ErrorCode
  | invalidRequest | invalidRunState | io | backendUnavailable | inputOperationConflict
  | inputCursorMismatch | controlBackpressure | internal
  deriving DecidableEq, Repr

structure ProtocolError where
  code : ErrorCode
  message : String
  deriving DecidableEq, Repr

inductive CommandDisposition
  | notApplied | unknown
  deriving DecidableEq, Repr

structure ControlFailure where
  error : ProtocolError
  disposition : CommandDisposition
  confirmedInputBytes : Option ℕ
  deriving DecidableEq, Repr

structure AppliedInputRange where
  startByte : ℕ
  endByte : ℕ
  deriving DecidableEq, Repr

/-- The result that settles one input command, before a legacy reply is mapped to
its written-bytes receipt. -/
abbrev InputResult := Except ControlFailure AppliedInputRange

/-- Why the daemon-wide native owner stopped. -/
inductive NativeServiceFailure
  | ownerStopped | ownerUnwound | ownerIoFailed | readFailed | writeFailed | historical
  | controlClosed
  deriving DecidableEq, Repr

inductive ControlPhase
  | opened | stopping | closed | failed
  deriving DecidableEq, Repr

/-- Reply channels are numbered in admission order. -/
inductive InputReply
  | legacy (reply : ℕ)
  | recoverable (key : InputOperationKey) (completion : ℕ)
  deriving DecidableEq, Repr

def InputReply.channel : InputReply → ℕ
  | .legacy reply => reply
  | .recoverable _ completion => completion

structure InputCommand where
  data : List Byte
  confirmed : ℕ
  reply : InputReply
  deriving DecidableEq, Repr

structure InputOperationRequest where
  expectedByte : ℕ
  data : List Byte
  deriving DecidableEq, Repr

inductive InputOperationEntry
  | pending (request : InputOperationRequest) (completion : ℕ)
  | completed (request : InputOperationRequest) (range : AppliedInputRange)
  | unknown (request : InputOperationRequest) (failure : ControlFailure)
  deriving DecidableEq, Repr

def InputOperationEntry.request : InputOperationEntry → InputOperationRequest
  | .pending request _ => request
  | .completed request _ => request
  | .unknown request _ => request

def InputOperationEntry.isCompleted : InputOperationEntry → Bool
  | .completed _ _ => true
  | _ => false

/-- The retained result of an input key: a settled answer, or the channel of the
operation that is still queued. -/
inductive PendingRecoverableInput
  | ready (result : InputResult)
  | pending (completion : ℕ)
  deriving DecidableEq

inductive ChildCommand
  | signal (foregroundGroup : ℕ)
  | stop
  | cleanupUnpublished
  deriving DecidableEq, Repr

structure ResourceLimits where
  inputQueueCommands : ℕ
  inputQueueBytes : ℕ
  inputResultEntries : ℕ
  inputResultBytes : ℕ
  deriving DecidableEq, Repr

abbrev InputOperations := AList fun _ : InputOperationKey => InputOperationEntry

structure ControlState where
  phase : ControlPhase
  inputFailure : Option ProtocolError
  inputQueue : List InputCommand
  inputCommands : ℕ
  inputBytes : ℕ
  inputScheduled : Bool
  inputBlocked : Bool
  ownerFailure : Option NativeServiceFailure
  appliedInputBytes : ℕ
  inputOperations : InputOperations
  completedInputOperations : List InputOperationKey
  retainedInputRequestBytes : ℕ
  childOpen : Bool
  stopPending : Bool
  childCommands : List ChildCommand

def notApplied (error : ProtocolError) : ControlFailure := ⟨error,.notApplied,none⟩

def unknownFailure (error : ProtocolError) : ControlFailure := ⟨error,.unknown,none⟩

/-- The `opened` arm is unreachable in the source: every caller has left that phase. -/
def invalidPhaseError (runId : String) (phase : ControlPhase) (operation : String) : ProtocolError :=
  match phase with
  | .opened => ⟨.internal,"open phase is valid"⟩
  | .stopping => ⟨.invalidRunState,s!"cannot {operation} stopping Run {runId}"⟩
  | .closed => ⟨.invalidRunState,s!"cannot {operation} exited Run {runId}"⟩
  | .failed => ⟨.backendUnavailable,
      s!"cannot {operation} Run {runId} after child wait authority was lost"⟩

def releaseInputCapacity (st : ControlState) (bytes : ℕ) : ControlState :=
  { st with inputCommands := st.inputCommands - 1, inputBytes := st.inputBytes - bytes }

def removeInputOperation (st : ControlState) (key : InputOperationKey) : ControlState :=
  match st.inputOperations.lookup key with
  | some entry =>
    { st with
      inputOperations := st.inputOperations.erase key
      retainedInputRequestBytes := st.retainedInputRequestBytes - entry.request.data.length }
  | none => st

/-- Drop the ledger entry of a recoverable command that crossed no byte. -/
def removeReplyOperation (st : ControlState) : InputReply → ControlState
  | .legacy _ => st
  | .recoverable key _ => removeInputOperation st key

def retainUnknownInputOperation (st : ControlState) (reply : InputReply)
    (failure : ControlFailure) : ControlState :=
  match reply with
  | .legacy _ => st
  | .recoverable key _ =>
    match st.inputOperations.lookup key with
    | some entry =>
      { st with inputOperations := st.inputOperations.insert key (.unknown entry.request failure) }
    | none => st

def retainCompletedInputOperation (st : ControlState) (reply : InputReply)
    (range : AppliedInputRange) : ControlState :=
  match reply with
  | .legacy _ => st
  | .recoverable key _ =>
    match st.inputOperations.lookup key with
    | some entry =>
      { st with
        inputOperations := st.inputOperations.insert key (.completed entry.request range)
        completedInputOperations := st.completedInputOperations ++ [key] }
    | none => st

def inputFailure (st : ControlState) (runId : String) (code : ErrorCode) (detail : String) :
    ControlState × ProtocolError :=
  let lane : ProtocolError := ⟨code,s!"Run {runId} PTY input lane is unavailable after {detail}"⟩
  let current : ProtocolError := ⟨code,s!"failed to write Run {runId} PTY input: {detail}"⟩
  ({ st with inputFailure := some lane },current)

/-- Settle one popped command of a fenced lane. A confirmed prefix is not a receipt
for the whole command, and it poisons the lane. -/
def rejectCommand (st : ControlState) (error : ProtocolError) (command : InputCommand) :
    ControlState × ControlFailure :=
  let st := releaseInputCapacity st command.data.length
  if command.confirmed = 0 then
    (removeReplyOperation st command.reply,notApplied error)
  else
    let failure := { unknownFailure error with confirmedInputBytes := some command.confirmed }
    (retainUnknownInputOperation { st with inputFailure := some error } command.reply failure,failure)

/-- A command that left the queue, as it was when it left, and the result sent to its
reply. -/
abbrev Settlement := InputCommand × InputResult

def rejectLoop (error : ProtocolError) : ControlState → List InputCommand →
    ControlState × List Settlement
  | st, [] => (st,[])
  | st, command::queue =>
    let r := rejectCommand st error command
    let s := rejectLoop error r.1 queue
    (s.1,(command,.error r.2)::s.2)

def rejectQueuedInputs (st : ControlState) (error : ProtocolError) :
    ControlState × List Settlement :=
  rejectLoop error
    { st with inputScheduled := false, inputBlocked := false, inputQueue := [] } st.inputQueue

def retainedInputResult (st : ControlState) (key : InputOperationKey)
    (request : InputOperationRequest) (runId : String) :
    Except ControlFailure (Option PendingRecoverableInput) :=
  match st.inputOperations.lookup key with
  | none => .ok none
  | some existing =>
    if existing.request ≠ request then
      .error (notApplied ⟨.inputOperationConflict,
        s!"native Input operation key is retained for another request on Run {runId}"⟩)
    else
      match existing with
      | .pending _ completion => .ok (some (.pending completion))
      | .completed _ range => .ok (some (.ready (.ok range)))
      | .unknown _ failure => .ok (some (.ready (.error failure)))

/-- The result ledger cannot take one more request of this size. -/
def resultCapacityExceeded (limits : ResourceLimits) (st : ControlState) (newBytes : ℕ) : Bool :=
  limits.inputResultEntries ≤ st.inputOperations.entries.length ||
    limits.inputResultBytes - st.retainedInputRequestBytes < newBytes

def evictLoop (limits : ResourceLimits) (newBytes : ℕ) :
    ControlState → List InputOperationKey → ControlState
  | st, [] => { st with completedInputOperations := [] }
  | st, key::keys =>
    if resultCapacityExceeded limits st newBytes then
      match st.inputOperations.lookup key with
      | some (.completed _ _) => evictLoop limits newBytes (removeInputOperation st key) keys
      | _ => evictLoop limits newBytes st keys
    else { st with completedInputOperations := key::keys }

def evictCompletedInputResults (limits : ResourceLimits) (st : ControlState) (newBytes : ℕ) :
    ControlState :=
  evictLoop limits newBytes st st.completedInputOperations

end NativeControl
end Ctxmux
