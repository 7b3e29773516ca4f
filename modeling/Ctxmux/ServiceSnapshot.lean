import Ctxmux.RunEvents

/-!
# Native service facts

The snapshot that a Run's service cell publishes: what its native owner, its output
and its input lane can do, at one revision.
-/

namespace Ctxmux
namespace Service

open Attachment (TerminalSize)

inductive NativeOwnerIoStage where
  | poll | wakeDrain
  deriving DecidableEq, Repr

/-- Why one native service lane cannot serve. -/
inductive NativeServiceFailure where
  | ownerStopped
  | ownerUnwound
  | ownerIoFailed (stage : NativeOwnerIoStage) (osError : Option ℤ)
  | readFailed
  | writeFailed
  | historical
  | controlClosed
  deriving DecidableEq, Repr

inductive NativeOwnerStatus where
  | starting
  | serving
  | draining
  | stopped (reason : NativeServiceFailure)
  deriving DecidableEq, Repr

inductive NativeOutputStatus where
  | pending
  | serving
  | backpressured
  | closed
  | unavailable (reason : NativeServiceFailure)
  deriving DecidableEq, Repr

inductive NativeInputPhase where
  | opened
  | closed
  | unavailable (reason : NativeServiceFailure)
  deriving DecidableEq, Repr

structure NativeInputStatus where
  phase : NativeInputPhase
  unsettledCommands : ℕ
  unsettledRequestBytes : ℕ
  writeBlocked : Bool
  completedInputBytes : Option ℕ
  currentSize : Option TerminalSize
  activeConfirmedBytes : ℕ
  deriving DecidableEq, Repr

inductive NativeTerminalFaultStage where
  | process | resize | exporting | recovery
  deriving DecidableEq, Repr

structure NativeTerminalFault where
  stage : NativeTerminalFaultStage
  throughByte : ℕ
  deriving DecidableEq, Repr

structure NativeServiceSnapshot where
  revision : ℕ
  owner : NativeOwnerStatus
  output : NativeOutputStatus
  input : NativeInputStatus
  terminalFault : Option NativeTerminalFault
  deriving DecidableEq, Repr

end Service
end Ctxmux
