import Ctxmux.InputLedger

/-!
# Handing off the input state

An upgrade in place serializes the settled ledger of every control and rebuilds it in
the new image. The snapshot is validated on both sides by the same rules.
-/

namespace Ctxmux
namespace NativeControl

open MapTotals

/-- The limits that a handoff is validated with. `entryBytes` is the size of a ledger
entry, which the host decides. -/
structure HandoffLimits where
  resources : ResourceLimits
  controlStateBytes : ℕ
  entryBytes : ℕ
  fits : resources.inputResultBytes < u64Limit

def inputResultDiagnosticReserveBytes : ℕ := 4*1024

def saturatingAdd (a b : ℕ) : ℕ := min (a+b) (u64Limit-1)

def inputReceiptCharge (limits : HandoffLimits) (key : InputOperationKey) (data : List Byte) : ℕ :=
  data.length+key.utf8ByteSize*2+limits.entryBytes+inputResultDiagnosticReserveBytes

namespace HandoffInputOperation

def data : HandoffInputOperation → List Byte
  | .completed _ _ data _ => data
  | .unknown _ _ data _ => data

def isUnknown : HandoffInputOperation → Bool
  | .completed _ _ _ _ => false
  | .unknown _ _ _ _ => true

def diagnosticBytes : HandoffInputOperation → ℕ
  | .completed _ _ _ _ => 0
  | .unknown _ _ _ failure => failure.error.message.utf8ByteSize

end HandoffInputOperation

def validateHandoffUnknownPrefix (dataBytes : ℕ) (failure : ControlFailure) :
    Except String Unit :=
  if ∃ confirmed ∈ failure.confirmedInputBytes, dataBytes < confirmed then
    .error "handoff unknown native Input prefix exceeds its request bytes"
  else if failure.disposition ≠ .unknown then
    .error "handoff unknown native Input has a non-unknown disposition"
  else .ok ()

/-- What the validation loop carries from one operation to the next. -/
structure HandoffScan where
  retainedBytes : ℕ
  keys : List InputOperationKey
  completedEnd : ℕ
  unknownCount : ℕ

def HandoffScan.empty : HandoffScan := ⟨0,[],0,0⟩

namespace HandoffInputState

variable (input : HandoffInputState)

/-- The arm of an operation: its range or its fence is checked. -/
def validateOutcome (scan : HandoffScan) : HandoffInputOperation → Except String HandoffScan
  | .completed _ expectedByte data range =>
    if u64Limit ≤ expectedByte+data.length then .error "handoff native Input range overflows"
    else if range.startByte ≠ expectedByte ∨ range.endByte ≠ expectedByte+data.length ∨
        input.appliedInputBytes < range.endByte ∨ range.startByte < scan.completedEnd then
      .error "handoff completed native Input range is inconsistent"
    else .ok { scan with completedEnd := range.endByte }
  | .unknown _ expectedByte data failure =>
    match validateHandoffUnknownPrefix data.length failure with
    | .error message => .error message
    | .ok _ =>
      if expectedByte ≠ input.appliedInputBytes then
        .error "handoff unknown native Input does not fence the current cursor"
      else if input.inputFailure.map (·.code) ≠ some failure.error.code then
        .error "handoff unknown native Input has a different poisoned-lane failure code"
      else .ok { scan with unknownCount := scan.unknownCount+1 }

def validateOperation (scan : HandoffScan) (operation : HandoffInputOperation) :
    Except String HandoffScan :=
  match input.validateOutcome scan operation with
  | .error message => .error message
  | .ok scan =>
    match validateKey operation.key with
    | .error error => .error s!"invalid handoff native Input key: {error}"
    | .ok _ =>
      if operation.data.isEmpty then .error "handoff recoverable native Input payload is empty"
      else if operation.key ∈ scan.keys then
        .error "handoff native Input ledger contains a duplicate key"
      else if u64Limit ≤ scan.retainedBytes+operation.data.length then
        .error "handoff native Input retained-byte count overflows"
      else .ok { scan with
        keys := operation.key::scan.keys
        retainedBytes := scan.retainedBytes+operation.data.length }

def retainedDiagnosticBytes : ℕ :=
  input.operations.foldl (fun total operation => saturatingAdd total operation.diagnosticBytes)
    (input.inputFailure.elim 0 (·.message.utf8ByteSize))

def additionalDiagnosticMemoryBytes : ℕ :=
  input.retainedDiagnosticBytes-
    min (input.operations.countP (·.isUnknown)*inputResultDiagnosticReserveBytes) (u64Limit-1)

def controlMemoryBytes (limits : HandoffLimits) : ℕ :=
  input.operations.foldl
    (fun total operation => saturatingAdd total (inputReceiptCharge limits operation.key operation.data))
    input.additionalDiagnosticMemoryBytes

def fundingError : String := "handoff native Input state exceeds control owner funding"

def validateWithResources (limits : HandoffLimits) : Except String Unit :=
  let entries := input.operations.length
  let maxEntries := limits.resources.inputResultEntries
  let maxBytes := limits.resources.inputResultBytes
  if maxEntries < entries then
    .error s!"handoff native Input ledger has {entries} entries; maximum is {maxEntries}"
  else
    match input.operations.foldlM input.validateOperation HandoffScan.empty with
    | .error message => .error message
    | .ok scan =>
      let retained := scan.retainedBytes
      if maxBytes < retained then
        .error s!"handoff native Input ledger retains {retained} request bytes; maximum is {maxBytes}"
      else if 1 < scan.unknownCount then
        .error "handoff native Input ledger contains multiple unknown operations"
      else if limits.controlStateBytes < input.controlMemoryBytes limits then .error fundingError
      else .ok ()

end HandoffInputState

/-- The completed operations in their order; an entry of another kind is refused. -/
def completedOperations (o : Owner) : List InputOperationKey →
    Except String (List HandoffInputOperation)
  | [] => .ok []
  | key::keys =>
    match o.state.inputOperations.lookup key with
    | some (.completed request range) => do
      let operations ← completedOperations o keys
      .ok (.completed key request.expectedByte request.data range::operations)
    | _ => .error s!"Run {o.runId} completed native Input order is inconsistent"

def unknownOperation : (Sigma fun _ : InputOperationKey => InputOperationEntry) →
    Option HandoffInputOperation
  | ⟨key,.unknown request failure⟩ => some (.unknown key request.expectedByte request.data failure)
  | _ => none

def KeyBefore (a b : HandoffInputOperation) : Prop := a.key ≤ b.key

instance : DecidableRel KeyBefore := fun _ _ => inferInstanceAs (Decidable (_ ≤ _))

/-- The unknown operations, sorted by their keys. -/
def unknownOperations (o : Owner) : List HandoffInputOperation :=
  (o.state.inputOperations.entries.filterMap unknownOperation).insertionSort KeyBefore

def InputOperationEntry.isPending : InputOperationEntry → Bool
  | .pending _ _ => true
  | _ => false

def handoffInputState (limits : HandoffLimits) (o : Owner) : Except String HandoffInputState :=
  match handoffCrossing o with
  | some message => .error message
  | none =>
    match completedOperations o o.state.completedInputOperations with
    | .error message => .error message
    | .ok completed =>
      if o.state.inputOperations.entries.any (·.2.isPending) then
        .error s!"Run {o.runId} has a pending recoverable Input at handoff"
      else
        let operations := completed ++ unknownOperations o
        if operations.length ≠ o.state.inputOperations.entries.length then
          .error s!"Run {o.runId} native Input handoff ledger is incomplete"
        else
          let snapshot : HandoffInputState :=
            ⟨o.state.appliedInputBytes,o.state.inputFailure,operations⟩
          match snapshot.validateWithResources limits with
          | .error message => .error message
          | .ok _ => .ok snapshot

end NativeControl
end Ctxmux
