import Ctxmux.RunEvents

/-!
# Control results in the Rust client

The frames that answer a control command, the receipts the client hands to its
caller, and the checks that stand between them. A receipt is decoded against the
command that it answers; a failure is checked for the combinations of disposition,
code and confirmed prefix that no daemon may report.
-/

namespace Ctxmux
namespace Client

open Attachment (TerminalSize)

inductive ErrorCode where
  | versionMismatch | invalidRequest | runNotFound | invalidRunState | spawnFailed | io
  | persistence | backendUnavailable | unsupportedBackendVersion | unsupportedCapability
  | targetChanged | creationConflict | inputOperationConflict | stopOperationConflict
  | inputCursorMismatch | daemonInstanceMismatch | runCapacity | controlBackpressure
  | responseTooLarge | internal
  deriving DecidableEq, Repr

structure ProtocolError where
  code : ErrorCode
  message : String
  deriving DecidableEq, Repr

inductive CommandDisposition where
  | notApplied | unknown
  deriving DecidableEq, Repr

/-- One correlated control failure and its retry-safety boundary. -/
structure ControlFailure where
  error : ProtocolError
  disposition : CommandDisposition
  confirmedInputBytes : Option ℕ
  deriving DecidableEq, Repr

inductive RunSignal where
  | interrupt
  deriving DecidableEq, Repr

inductive StopDisposition where
  | graceful | forced
  deriving DecidableEq, Repr

inductive ControlReceipt where
  | input (writtenBytes : ℕ)
  | resize (appliedSize : TerminalSize)
  | signal (signal : RunSignal)
  | stop (disposition : StopDisposition)
  deriving DecidableEq, Repr

inductive ControlOutcome where
  | accepted (receipt : ControlReceipt)
  | rejected (failure : ControlFailure)
  deriving DecidableEq, Repr

structure InputReceipt where
  writtenBytes : ℕ
  deriving DecidableEq, Repr

structure ResizeReceipt where
  appliedSize : TerminalSize
  deriving DecidableEq, Repr

structure SignalReceipt where
  signal : RunSignal
  deriving DecidableEq, Repr

structure StopReceipt where
  disposition : StopDisposition
  deriving DecidableEq, Repr

def validateControlFailure (failure : ControlFailure) : Except String Unit :=
  if failure.disposition = .notApplied ∧ 0 < failure.confirmedInputBytes.getD 0 then
    .error "not_applied input cannot have a positive confirmed prefix"
  else if failure.error.code = .controlBackpressure ∧ failure.disposition ≠ .notApplied then
    .error "control_backpressure must have not_applied disposition"
  else .ok ()

def decodeInputReceipt (receipt : ControlReceipt) (expectedBytes : ℕ) :
    Except String InputReceipt :=
  match receipt with
  | .input writtenBytes =>
    if writtenBytes = expectedBytes then .ok ⟨writtenBytes⟩
    else .error "input receipt byte count differs from the command payload"
  | .resize _ | .signal _ | .stop _ => .error "input returned another receipt kind"

def decodeResizeReceipt : ControlReceipt → Except String ResizeReceipt
  | .resize appliedSize =>
    if appliedSize.cols ≠ 0 ∧ appliedSize.rows ≠ 0 then .ok ⟨appliedSize⟩
    else .error "resize receipt reported a zero applied dimension"
  | .input _ | .signal _ | .stop _ => .error "resize returned another receipt kind"

def decodeStopReceipt : ControlReceipt → Except String StopReceipt
  | .stop disposition => .ok ⟨disposition⟩
  | .input _ | .resize _ | .signal _ => .error "stop returned another receipt kind"

def decodeSignalReceipt (receipt : ControlReceipt) (expected : RunSignal) :
    Except String SignalReceipt :=
  match receipt with
  | .signal signal =>
    if signal = expected then .ok ⟨signal⟩
    else .error "signal receipt differs from the requested signal"
  | .input _ | .resize _ | .stop _ => .error "signal returned another receipt kind"

inductive PendingKind where
  | input (expectedBytes : ℕ)
  | resize
  | signal (signal : RunSignal)
  | stop
  deriving DecidableEq, Repr

inductive ValidatedReceipt where
  | input (receipt : InputReceipt)
  | resize (receipt : ResizeReceipt)
  | signal (receipt : SignalReceipt)
  | stop (receipt : StopReceipt)
  deriving DecidableEq, Repr

namespace PendingKind

def isInput : PendingKind → Bool
  | .input _ => true
  | .resize | .signal _ | .stop => false

def inputBytes : PendingKind → ℕ
  | .input expectedBytes => expectedBytes
  | .resize | .signal _ | .stop => 0

def validate (kind : PendingKind) (receipt : ControlReceipt) : Except String ValidatedReceipt :=
  match kind with
  | .input expectedBytes =>
    ((decodeInputReceipt receipt expectedBytes).map .input).mapError
      fun _ => "attachment input receipt does not match its command"
  | .resize =>
    ((decodeResizeReceipt receipt).map .resize).mapError
      fun _ => "attachment resize receipt does not match its command"
  | .signal requested =>
    ((decodeSignalReceipt receipt requested).map .signal).mapError
      fun _ => "attachment signal receipt does not match its command"
  | .stop =>
    ((decodeStopReceipt receipt).map .stop).mapError
      fun _ => "attachment stop receipt does not match its command"

end PendingKind

/-- Why an admitted command has no unique result. -/
inductive AttachmentUnknownReason where
  | transportTerminated | protocolViolation | closedLocally
  deriving DecidableEq, Repr

inductive AttachmentUnavailableReason where
  | observationUnavailable | detaching | closed | commandIdsExhausted
  deriving DecidableEq, Repr

inductive PendingResolution where
  | accepted (receipt : ValidatedReceipt)
  | rejected (failure : ControlFailure)
  | unknown (reason : AttachmentUnknownReason)
  deriving DecidableEq, Repr

/-- What a daemon outcome settles a pending command of this kind with. -/
def resolution (kind : PendingKind) : ControlOutcome → Except String PendingResolution
  | .accepted receipt => (kind.validate receipt).map .accepted
  | .rejected failure => do
    validateControlFailure failure
    match failure.confirmedInputBytes, kind with
    | none, _ => .ok (.rejected failure)
    | some confirmed, .input expectedBytes =>
      if confirmed ≤ expectedBytes then .ok (.rejected failure)
      else .error "confirmed input prefix exceeds its original input request"
    | some _, _ => .error "confirmed input prefix exceeds its original input request"

end Client
end Ctxmux
