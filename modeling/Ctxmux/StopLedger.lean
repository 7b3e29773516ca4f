import Ctxmux.StopAdmissions

/-!
# The Stop ledger of a handoff

An upgrade in place carries the settled Stop operations of the registry to the next
image. The outgoing image takes a snapshot, and the incoming image restores it over the
Runs it recovered, charging every receipt to the control budget with its complete
diagnostic.
-/

namespace Ctxmux
namespace Registry

open Durable (RunId)

/-- A carried outcome: the receipt of the Stop, or a failure with its disposition. -/
inductive HandoffStopOutcome where
  | accepted (receipt : String)
  | unknown (error : ProtocolError) (disposition : CommandDisposition)
deriving DecidableEq,Repr

def HandoffStopOutcome.intoResult : HandoffStopOutcome → StopResult
  | .accepted receipt => .applied receipt
  | .unknown error disposition => .failed error disposition

structure HandoffStopOperation where
  runId : RunId
  operationKey : StopOperationKey
  outcome : HandoffStopOutcome
deriving DecidableEq,Repr

def resultDiagnosticReserveBytes : ℕ := 4*1024

namespace HandoffStopOperation

variable (operation : HandoffStopOperation)

def validate : Except String Unit :=
  match stopKeyError operation.operationKey with
  | some error => .error s!"invalid handoff native Stop key: {error.message}"
  | none =>
    match operation.outcome with
    | .unknown _ .notApplied =>
      .error "handoff native Stop failure has a non-unknown disposition"
    | _ => .ok ()

def diagnosticBytes : ℕ :=
  match operation.outcome with
  | .unknown error _ => error.message.utf8ByteSize
  | .accepted _ => 0

/-- What a restored receipt is charged. -/
def controlMemoryBytes (sizes : ℕ) : ℕ :=
  saturatingAdd (stopReceiptCharge sizes operation.operationKey)
    (operation.diagnosticBytes-resultDiagnosticReserveBytes)

end HandoffStopOperation

/-- The order of a snapshot. -/
def RunBefore (a b : HandoffStopOperation) : Prop := a.runId.text ≤ b.runId.text

instance : DecidableRel RunBefore := fun _ _ => inferInstanceAs (Decidable (_ ≤ _))

/-- A carried operation, once it passed its own check. -/
def carry (operation : HandoffStopOperation) : Except String (Option HandoffStopOperation) :=
  match operation.validate with
  | .error message => .error message
  | .ok _ => .ok (some operation)

/-- What one entry contributes to the snapshot. -/
def handoffStopOperation (results : AList fun _ : ℕ => StopResult) (id : RunId)
    (entry : RegistryEntry) : Except String (Option HandoffStopOperation) :=
  match entry.stopOperation with
  | none => .ok none
  | some record =>
    if entry.residency ≠ .retained then
      .error s!"Run {id} native Stop operation is crossing collection at handoff"
    else
      match results.lookup record.cell with
      | none => .error s!"Run {id} has a pending recoverable Stop at handoff"
      | some (.applied receipt) => carry ⟨id,record.key,.accepted receipt⟩
      | some (.failed error .unknown) => carry ⟨id,record.key,.unknown error .unknown⟩
      | some (.failed _ .notApplied) =>
        .error s!"Run {id} native Stop ledger retained a not-applied result"

/-- The contributions of the entries, in order, up to the first that fails. -/
def carriedOperations (results : AList fun _ : ℕ => StopResult) :
    List (Sigma fun _ : RunId => RegistryEntry) → Except String (List HandoffStopOperation)
  | [] => .ok []
  | entry::entries =>
    match handoffStopOperation results entry.1 entry.2 with
    | .error message => .error message
    | .ok carried =>
      match carriedOperations results entries with
      | .error message => .error message
      | .ok operations => .ok (carried.toList ++ operations)

/-- `handoff_stop_operations`: the settled operations, sorted by their Runs. -/
def System.handoffStopOperations (s : System) : Except String (List HandoffStopOperation) :=
  match carriedOperations s.results s.registry.runs.entries with
  | .error message => .error message
  | .ok operations => .ok (operations.insertionSort RunBefore)

def invalidLedger (message : String) : ProtocolError := ⟨.invalidRequest,message⟩

/-- The checks before anything is restored, against the Runs and keys already seen. -/
def checkLedger (s : RegistryState) : List RunId → List StopOperationKey →
    List HandoffStopOperation → Except ProtocolError Unit
  | _, _, [] => .ok ()
  | ids, keys, operation::operations =>
    match operation.validate with
    | .error message => .error (invalidLedger message)
    | .ok _ =>
      if operation.runId ∈ ids then
        .error (invalidLedger "handoff native Stop ledger contains a duplicate Run")
      else if operation.operationKey ∈ keys then
        .error (invalidLedger "handoff native Stop ledger contains a duplicate key")
      else
        match s.runs.lookup operation.runId with
        | none => .error (invalidLedger "handoff native Stop ledger names an unknown retained Run")
        | some entry =>
          if entry.stopOperation.isSome then
            .error (invalidLedger "handoff native Stop ledger duplicates a restored operation")
          else checkLedger s (operation.runId::ids) (operation.operationKey::keys) operations

/-- The system with one more settled Stop. -/
def System.withSettled (s : System) (entry : RegistryEntry) (operation : HandoffStopOperation)
    (charge : ℕ) : System :=
  { s with
    registry := { s.registry with
      runs := s.registry.runs.insert operation.runId
        { entry with stopOperation := some ⟨operation.operationKey,s.nextCell,charge⟩ }
      stopRuns := s.registry.stopRuns.insert operation.operationKey operation.runId
      stopBytes := s.registry.stopBytes+charge }
    results := s.results.insert s.nextCell operation.outcome.intoResult
    nextCell := s.nextCell+1 }

/-- Restore checked operations one by one; others hold `controlUsed` of the budget. -/
def restoreOperations (sizes controlUsed : ℕ) : System → List HandoffStopOperation → Outcome System
  | s, [] => .done s
  | s, operation::operations =>
    let charge := operation.controlMemoryBytes sizes
    if s.registry.controlLimit < controlUsed+s.registry.stopBytes+charge then
      .refused (invalidLedger "handed-off Stop control state exceeds preserved policy")
    else
      match s.registry.runs.lookup operation.runId with
      | none => .panicked "validated handed-off Stop Run remains retained"
      | some entry =>
        if s.registry.stopRuns.lookup operation.operationKey ≠ none then
          .panicked "a restored Stop key is unbound"
        else restoreOperations sizes controlUsed (s.withSettled entry operation charge) operations

/-- `conditions` has the allocation of the key index and the budget that others hold. -/
def restoreHandoffStopOperations (conditions : StopConditions) (s : System)
    (operations : List HandoffStopOperation) : Outcome System :=
  match checkLedger s.registry [] [] operations with
  | .error error => .refused error
  | .ok _ =>
    match conditions.allocation with
    | some error => .refused error
    | none => restoreOperations conditions.sizes conditions.controlUsed s operations

/-- The rows of the incoming image: ids and creation keys are unique, and no Stop is saved
with them. -/
structure SavedRuns where
  runs : List (RunId × CreateOperationKey × ℕ)
  ids : (runs.map (·.1)).Nodup
  keys : (runs.map (·.2.1)).Nodup

def SavedRuns.rows (saved : SavedRuns) : List RecoveredRun :=
  saved.runs.map fun run => ⟨run.1,run.2.1,run.2.2,none⟩

def SavedRuns.recovered (saved : SavedRuns) : RecoveredRuns where
  runs := saved.rows
  ids := by simpa [SavedRuns.rows,Function.comp_def] using saved.ids
  keys := by simpa [SavedRuns.rows,Function.comp_def] using saved.keys
  stops := by simp [SavedRuns.rows,List.filterMap_map]
  settled := by
    intro r hr stop hstop
    obtain ⟨run,-,rfl⟩ := List.mem_map.mp hr
    cases hstop

def System.recoveredWithHandoff (limits : Limits) (saved : SavedRuns)
    (operations : List HandoffStopOperation) (conditions : StopConditions) : Outcome System :=
  restoreHandoffStopOperations conditions (System.recovered limits saved.recovered) operations

end Registry
end Ctxmux
