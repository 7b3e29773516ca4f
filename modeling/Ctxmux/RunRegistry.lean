import Ctxmux.DurableTables
import Mathlib.Data.List.AList

/-!
# The Run registry

The registry owns the retained Runs of a daemon, the index of creation keys, the index
of Stop keys and the reservations of publications in flight. What it asks of a Run
(whether it runs, who else owns it, whether it can be collected) is read from a view.
A failed `expect` or assertion, debug assertions included, is a panic with its message.
-/

namespace Ctxmux
namespace Registry

open Durable (RunId)

abbrev CreateOperationKey := String
abbrev StopOperationKey := String
abbrev PublicationTicket := ℕ

def u64Max : ℕ := 2^64-1

def saturatingAdd (a b : ℕ) : ℕ := min (a+b) u64Max

inductive ErrorCode where
  | runCapacity | backendUnavailable | internal | runNotFound | invalidRunState | invalidRequest
  | stopOperationConflict | controlBackpressure | unsupportedCapability
deriving DecidableEq,Repr

structure ProtocolError where
  code : ErrorCode
  message : String
deriving DecidableEq,Repr

/-- How an operation of the registry ends. -/
inductive Outcome (α : Type) where
  | done (value : α)
  | refused (error : ProtocolError)
  | panicked (message : String)
deriving DecidableEq,Repr

def Outcome.map {α β : Type} (f : α → β) : Outcome α → Outcome β
  | .done value => .done (f value)
  | .refused error => .refused error
  | .panicked message => .panicked message

inductive CommandDisposition where
  | notApplied | unknown
deriving DecidableEq,Repr

/-- The result of a Stop: its receipt, or a failure with its disposition. -/
inductive StopResult where
  | applied (receipt : String)
  | failed (error : ProtocolError) (disposition : CommandDisposition)
deriving DecidableEq,Repr

/-- A result cell is named by the order in which the cells were made. -/
structure StopOperationRecord where
  key : StopOperationKey
  cell : ℕ
  memory : ℕ
deriving DecidableEq,Repr

inductive RegistryResidency where
  | retained
  | collecting (ticket : PublicationTicket)
  | removing
deriving DecidableEq,Repr

/-- `metadataBytes` says whether the entry has an accounting owner. -/
structure RegistryEntry where
  operationKey : Option CreateOperationKey
  stopOperation : Option StopOperationRecord
  metadataBytes : Bool
  metadataCharge : ℕ
  residency : RegistryResidency
deriving DecidableEq,Repr

structure RegistryReservation where
  newRunId : RunId
  operationKey : Option CreateOperationKey
  newMetadataBytes : Option ℕ
  candidates : List RunId
deriving DecidableEq,Repr

abbrev Runs := AList fun _ : RunId => RegistryEntry
abbrev Reservations := AList fun _ : PublicationTicket => RegistryReservation

/-- `stopBytes` is the part of the control budget that the Stop receipts hold. -/
structure RegistryState where
  runs : Runs
  creationRuns : AList fun _ : CreateOperationKey => RunId
  stopRuns : AList fun _ : StopOperationKey => RunId
  reservations : Reservations
  nextTicket : ℕ
  recordCapacity : ℕ
  liveCapacity : ℕ
  metadataCapacity : ℕ
  retainedMetadataBytes : ℕ
  controlLimit : ℕ
  stopBytes : ℕ

/-- What the registry reads of a Run. `owners` counts the owners of the Run besides the
registry, `detach` is what detaching its descriptors returns. -/
structure RunView where
  running : Bool
  owners : ℕ
  collectionOrdinal : Option ℕ
  detach : Except String Unit
  nativeControl : Except ProtocolError Unit

abbrev View := RunId → RunView

structure CandidateSelection where
  evaluated : ℕ
  result : Except ProtocolError (List RunId)

/-- The order in which terminal Runs are collected. -/
def CollectsFirst (x y : ℕ × RunId) : Prop := x.1 < y.1 ∨ (x.1 = y.1 ∧ x.2.text ≤ y.2.text)

instance : DecidableRel CollectsFirst := fun _ _ => inferInstanceAs (Decidable (_ ∨ _))

/-- Take candidates in order until a record is freed, if one is needed, and the metadata
is funded. -/
def takeCandidates (needsRecord : Bool) (toFund : ℕ) (charge : RunId → ℕ) :
    List RunId → List RunId → ℕ → List RunId × ℕ
  | [], taken, funded => (taken,funded)
  | id::ids, taken, funded =>
    if (needsRecord = false ∨ taken ≠ []) ∧ toFund ≤ funded then (taken,funded)
    else takeCandidates needsRecord toFund charge ids (taken ++ [id])
      (saturatingAdd funded (charge id))

namespace RegistryState

variable (s : RegistryState)

def metadataCharge (id : RunId) : ℕ := (s.runs.lookup id).elim 0 (·.metadataCharge)

/-- The reservations that will add a record without removing one. -/
def burden : ℕ := s.reservations.entries.countP fun r => r.2.candidates = []

def projectedMetadataBytes : ℕ :=
  saturatingAdd s.retainedMetadataBytes
    (s.reservations.entries.filterMap fun r =>
      r.2.newMetadataBytes.map (· - (r.2.candidates.map s.metadataCharge).sum)).sum

def needsRecord : Bool := s.recordCapacity ≤ s.runs.keys.length+s.burden

def metadataToFund (newMetadataBytes : Option ℕ) : ℕ :=
  newMetadataBytes.elim 0 fun new =>
    saturatingAdd s.projectedMetadataBytes new-s.metadataCapacity

/-- The Runs that a publication may replace, in the order of their terminal ordinals. -/
def orderedCandidates (view : View) (newMetadataBytes : Option ℕ) : List RunId :=
  ((s.runs.entries.filterMap fun entry =>
    if entry.2.residency ≠ .retained ∨ (view entry.1).owners ≠ 0 ∨
        (newMetadataBytes.isSome ∧ entry.2.metadataBytes = false) then none
    else (view entry.1).collectionOrdinal.map fun ordinal => (ordinal,entry.1)).insertionSort
      CollectsFirst).map (·.2)

def replacementReserved : Bool := s.reservations.entries.any fun r => 1 < r.2.candidates.length

/-- The selection that walks every record. -/
def scanCandidates (view : View) (newMetadataBytes : Option ℕ) : CandidateSelection where
  evaluated := s.runs.keys.length
  result :=
    let (candidates,funded) := takeCandidates s.needsRecord (s.metadataToFund newMetadataBytes)
      s.metadataCharge (s.orderedCandidates view newMetadataBytes) [] 0
    if (s.needsRecord ∧ candidates = []) ∨ funded < s.metadataToFund newMetadataBytes then
      .error ⟨.runCapacity,s!"retained Run capacity {s.recordCapacity} has no eligible exact replacement"⟩
    else if 1 < candidates.length ∧ s.replacementReserved then
      .error ⟨.backendUnavailable,"persistent metadata replacement is already reserved"⟩
    else .ok candidates

def selectPublicationCandidates (view : View) (newMetadataBytes : Option ℕ) : CandidateSelection :=
  if s.needsRecord = false ∧ s.metadataToFund newMetadataBytes = 0 then ⟨0,.ok []⟩
  else s.scanCandidates view newMetadataBytes

def setResidency (id : RunId) (entry : RegistryEntry) (residency : RegistryResidency) :
    RegistryState :=
  { s with runs := s.runs.insert id { entry with residency := residency } }

end RegistryState

def panicUnless (condition : Prop) [Decidable condition] (message : String) : Except String Unit :=
  if condition then .ok () else .error message

/-- Move one entry from a residency to another. -/
def moveResidency (missing wrong : String) (old new : RegistryResidency) (s : RegistryState)
    (id : RunId) : Except String RegistryState :=
  match s.runs.lookup id with
  | none => .error missing
  | some entry => do
    panicUnless (entry.residency = old) wrong
    .ok (s.setResidency id entry new)

/-- Fence one selected candidate under the ticket. -/
def fenceCandidate (ticket : PublicationTicket) : RegistryState → RunId → Except String RegistryState :=
  moveResidency "selected collection candidate remains retained" "candidate is Retained" .retained
    (.collecting ticket)

def restoreCandidate (ticket : PublicationTicket) :
    RegistryState → RunId → Except String RegistryState :=
  moveResidency "uncommitted candidate remains in the Registry"
    "candidate is Collecting under the ticket" (.collecting ticket) .retained

def restoreReservation (s : RegistryState) (ticket : PublicationTicket) :
    Except String RegistryState :=
  match s.reservations.lookup ticket with
  | none => .error "active publication ticket remains registered"
  | some reservation =>
    reservation.candidates.foldlM (restoreCandidate ticket)
      { s with reservations := s.reservations.erase ticket }

/-- `remove_registry_entry`: the entry leaves with both of its key mappings. -/
def removeRegistryEntry (s : RegistryState) (id : RunId) :
    Except String (RegistryState × RegistryEntry) :=
  match s.runs.lookup id with
  | none => .error "validated removal candidate remains Registry-owned"
  | some removed => do
    let s := { s with
      runs := s.runs.erase id
      retainedMetadataBytes := s.retainedMetadataBytes-removed.metadataCharge }
    let s ← match removed.operationKey with
      | none => .ok s
      | some key => do
        panicUnless (s.creationRuns.lookup key = some id) "creation key maps to the removed Run"
        .ok { s with creationRuns := s.creationRuns.erase key }
    let s ← match removed.stopOperation with
      | none => .ok s
      | some stop => do
        panicUnless (s.stopRuns.lookup stop.key = some id) "Stop key maps to the removed Run"
        .ok { s with stopRuns := s.stopRuns.erase stop.key, stopBytes := s.stopBytes-stop.memory }
    .ok (s,removed)

def consumeCandidate (ticket : PublicationTicket) (s : RegistryState) (id : RunId) :
    Except String RegistryState := do
  let (s,removed) ← removeRegistryEntry s id
  panicUnless (removed.residency = .collecting ticket) "removed candidate is Collecting"
  .ok s

def consumeReservation (s : RegistryState) (ticket : PublicationTicket) (newRunId : RunId)
    (operationKey : Option CreateOperationKey) :
    Except String (RegistryState × Option CreateOperationKey) :=
  match s.reservations.lookup ticket with
  | none => .error "publication ticket remains registered"
  | some reservation => do
    panicUnless (reservation.newRunId = newRunId) "reservation is for the published Run"
    panicUnless (reservation.operationKey = operationKey) "reservation is for the published key"
    let s ← reservation.candidates.foldlM (consumeCandidate ticket)
      { s with reservations := s.reservations.erase ticket }
    .ok (s,reservation.operationKey)

/-- What may stop a reservation outside the registry's own maps: the live resources when
they are first read and after closed owners are released, and a failed allocation. -/
structure ReserveConditions where
  live : ℕ
  liveAfterRelease : ℕ
  allocation : Option ProtocolError

/-- The descriptors of the candidates, detached in order. -/
def detachAll (view : View) : List RunId → Except String Unit
  | [] => .ok ()
  | id::ids => do
    (view id).detach
    detachAll view ids

def reservePublication (s : RegistryState) (view : View) (conditions : ReserveConditions)
    (newRunId : RunId) (operationKey : Option CreateOperationKey) (newMetadataBytes : Option ℕ) :
    RegistryState × Outcome PublicationTicket :=
  if s.runs.lookup newRunId ≠ none then (s,.panicked "new Run id is fresh")
  else if ∃ key ∈ operationKey, s.creationRuns.lookup key ≠ none then
    (s,.panicked "creation key is unbound")
  else if s.liveCapacity ≤ conditions.live ∧ s.liveCapacity ≤ conditions.liveAfterRelease then
    (s,.refused ⟨.runCapacity,s!"physical live Run resources exhausted at {s.liveCapacity} slots"⟩)
  else
    match (s.selectPublicationCandidates view newMetadataBytes).result,conditions.allocation with
    | .error error,_ => (s,.refused error)
    | .ok _,some error => (s,.refused error)
    | .ok candidates,none =>
      if u64Max ≤ s.nextTicket then
        (s,.panicked "Registry publication ticket does not overflow")
      else
        let ticket := s.nextTicket+1
        match candidates.foldlM (fenceCandidate ticket) { s with nextTicket := ticket } with
        | .error message => (s,.panicked message)
        | .ok fenced =>
          let reserved := { fenced with
            reservations := fenced.reservations.insert ticket
              ⟨newRunId,operationKey,newMetadataBytes,candidates⟩ }
          match detachAll view candidates with
          | .ok _ => (reserved,.done ticket)
          | .error error =>
            match restoreReservation reserved ticket with
            | .ok restored => (restored,.refused
                ⟨.internal,s!"failed to fence retained Run replacement: {error}"⟩)
            | .error message => (reserved,.panicked message)

/-- `charge` is what the entry is charged for its metadata. -/
def publishCreation (s : RegistryState) (ticket : PublicationTicket) (id : RunId)
    (operationKey : CreateOperationKey) (charge : ℕ) : Except String RegistryState := do
  panicUnless (s.creationRuns.lookup operationKey = none) "creation key is unbound"
  panicUnless (s.runs.lookup id = none) "published Run id is fresh"
  let (s,entryKey) ← consumeReservation s ticket id (some operationKey)
  .ok { s with
    retainedMetadataBytes := s.retainedMetadataBytes+charge
    runs := s.runs.insert id ⟨entryKey,none,true,charge,.retained⟩
    creationRuns := s.creationRuns.insert operationKey id }

def publishUnkeyed (s : RegistryState) (ticket : PublicationTicket) (id : RunId) (charge : ℕ) :
    Except String RegistryState := do
  let (s,entryKey) ← consumeReservation s ticket id none
  panicUnless (entryKey = none) "an unkeyed publication has no key"
  panicUnless (s.runs.lookup id = none) "published Run id is fresh"
  .ok { s with
    retainedMetadataBytes := s.retainedMetadataBytes+charge
    runs := s.runs.insert id ⟨none,none,true,charge,.retained⟩ }

/-- Byte-exact durable identity of a candidate; `load` reads the accounting owners. -/
structure PersistentCollectionCandidate where
  id : RunId
  operationKey : CreateOperationKey
  metadataBytes : ℕ
deriving DecidableEq,Repr

def persistentCandidate (s : RegistryState) (load : RunId → ℕ) (id : RunId) :
    Except String PersistentCollectionCandidate :=
  match s.runs.lookup id with
  | none => .error "persistent candidate remains Registry-owned"
  | some entry =>
    match entry.operationKey with
    | none => .error "persistent native Run has an exact creation key"
    | some key =>
      if entry.metadataBytes then .ok ⟨id,key,load id⟩
      else .error "persistent candidate has metadata accounting"

def persistentCandidates (s : RegistryState) (load : RunId → ℕ) (ticket : PublicationTicket) :
    Except String (List PersistentCollectionCandidate) :=
  match s.reservations.lookup ticket with
  | none => .error "active publication ticket remains registered"
  | some reservation => do
    panicUnless reservation.newMetadataBytes.isSome "a persistent reservation has metadata"
    reservation.candidates.mapM (persistentCandidate s load)

/-- Why an entry cannot be removed now. -/
def removalError (id : RunId) (entry : RegistryEntry) (view : RunView) : Option ProtocolError :=
  if entry.residency ≠ .retained then
    some ⟨.backendUnavailable,s!"Run {id} is already being replaced or removed"⟩
  else if view.running then
    some ⟨.invalidRunState,s!"Run {id} is still running; stop it before removing"⟩
  else if view.owners ≠ 0 then
    some ⟨.backendUnavailable,s!"Run {id} is attached or in use and cannot be removed"⟩
  else if view.collectionOrdinal = none then
    some ⟨.backendUnavailable,s!"Run {id} has not reached collectable quiescence"⟩
  else none

def validateRemovableEntry (s : RegistryState) (view : View) (id : RunId) :
    Except ProtocolError RegistryEntry :=
  match s.runs.lookup id with
  | none => .error ⟨.runNotFound,s!"Run {id} does not exist"⟩
  | some entry =>
    match removalError id entry (view id) with
    | some error => .error error
    | none => .ok entry

def removeMemory (s : RegistryState) (view : View) (id : RunId) : RegistryState × Outcome Unit :=
  match validateRemovableEntry s view id with
  | .error error => (s,.refused error)
  | .ok _ =>
    match (view id).detach with
    | .error error => (s,.refused
        ⟨.internal,s!"failed to detach Run {id} descriptors for removal: {error}"⟩)
    | .ok _ =>
      match removeRegistryEntry s id with
      | .ok (s',_) => (s',.done ())
      | .error message => (s,.panicked message)

def beginPersistentRemoval (s : RegistryState) (view : View) (load : RunId → ℕ) (id : RunId) :
    RegistryState × Outcome PersistentCollectionCandidate :=
  match validateRemovableEntry s view id with
  | .error error => (s,.refused error)
  | .ok entry =>
    match entry.operationKey with
    | none => (s,.refused
        ⟨.internal,s!"persistent Run {id} has no exact creation key to remove"⟩)
    | some key =>
      if entry.metadataBytes = false then (s,.refused
        ⟨.internal,s!"persistent Run {id} has no durable metadata accounting"⟩)
      else
        match (view id).detach with
        | .error error => (s,.refused
            ⟨.internal,s!"failed to fence Run {id} for removal: {error}"⟩)
        | .ok _ => (s.setResidency id entry .removing,.done ⟨id,key,load id⟩)

def commitRemoval (s : RegistryState) (id : RunId) : Except String RegistryState := do
  panicUnless (((s.runs.lookup id).map (·.residency)) = some .removing) "the fenced entry is Removing"
  let (s,_) ← removeRegistryEntry s id
  .ok s

def dropRemoval (s : RegistryState) (id : RunId) : Except String RegistryState :=
  match s.runs.lookup id with
  | none => .ok s
  | some entry => do
    panicUnless (entry.residency = .removing) "the fenced entry is Removing"
    .ok (s.setResidency id entry .retained)

def maxStopOperationKeyBytes : ℕ := 128

/-- `StopOperationKey::validate`. -/
def stopKeyError (key : StopOperationKey) : Option ProtocolError :=
  if key.utf8ByteSize = 0 then
    some ⟨.invalidRequest,"native Stop operation key must not be empty"⟩
  else if maxStopOperationKeyBytes < key.utf8ByteSize then
    some ⟨.invalidRequest,s!"native Stop operation key is {key.utf8ByteSize} bytes; maximum is {maxStopOperationKeyBytes}"⟩
  else none

/-- `sizes` is the size of a record and its cell, which the host decides. -/
def stopReceiptCharge (sizes : ℕ) (key : StopOperationKey) : ℕ :=
  key.utf8ByteSize*2+sizes+4*1024

/-- What an admission hands out: the cell of the operation. -/
inductive StopAdmission where
  | owner (cell : ℕ)
  | retry (cell : ℕ)
deriving DecidableEq,Repr

/-- What may stop an admission outside the maps: a failed allocation, and the part of the
control budget that others hold. -/
structure StopConditions where
  allocation : Option ProtocolError
  controlUsed : ℕ
  sizes : ℕ

def beingCollected (id : RunId) : ProtocolError :=
  ⟨.backendUnavailable,s!"Run {id} is being collected"⟩

/-- The answer to a request whose key is already bound. -/
def retryStop (s : RegistryState) (id bound : RunId) (key : StopOperationKey) :
    Outcome StopAdmission :=
  if bound ≠ id then
    .refused ⟨.stopOperationConflict,"native Stop operation key is already bound to another Run"⟩
  else
    match s.runs.lookup id with
    | none => .refused ⟨.internal,"native Stop key index lost its retained Run"⟩
    | some entry =>
      if entry.residency ≠ .retained then .refused (beingCollected id)
      else
        match entry.stopOperation with
        | none => .refused ⟨.internal,"native Stop key index lost its per-Run operation"⟩
        | some record =>
          if record.key ≠ key then
            .refused ⟨.internal,"native Stop key index disagrees with its per-Run operation"⟩
          else .done (.retry record.cell)

/-- `cell` names the cell that an owner admission makes. -/
def beginRecoverableStop (s : RegistryState) (view : View) (conditions : StopConditions) (id : RunId)
    (key : StopOperationKey) (cell : ℕ) : RegistryState × Outcome StopAdmission :=
  match stopKeyError key with
  | some error => (s,.refused error)
  | none =>
    match s.stopRuns.lookup key with
    | some bound => (s,retryStop s id bound key)
    | none =>
      match s.runs.lookup id with
      | none => (s,.refused ⟨.runNotFound,s!"Run {id} does not exist"⟩)
      | some entry =>
        if entry.residency ≠ .retained then (s,.refused (beingCollected id))
        else if entry.stopOperation.isSome then
          (s,.refused
            ⟨.stopOperationConflict,"Run already belongs to another native Stop operation"⟩)
        else
          match conditions.allocation with
          | some error => (s,.refused error)
          | none =>
            let charge := stopReceiptCharge conditions.sizes key
            if s.controlLimit < conditions.controlUsed+s.stopBytes+charge then
              (s,.refused ⟨.controlBackpressure,
                "daemon control_state_bytes cannot fund a Stop receipt before its side effect"⟩)
            else
              match (view id).nativeControl with
              | .error error => (s,.refused error)
              | .ok _ =>
                ({ s with
                  runs := s.runs.insert id { entry with stopOperation := some ⟨key,cell,charge⟩ }
                  stopRuns := s.stopRuns.insert key id
                  stopBytes := s.stopBytes+charge },.done (.owner cell))

/-- A settlement as the daemon owns it. -/
structure StopSettlement where
  id : RunId
  key : StopOperationKey
  cell : ℕ
deriving DecidableEq,Repr

def StopResult.removes : StopResult → Bool
  | .failed _ .notApplied => true
  | _ => false

def settleRecoverableStop (s : RegistryState) (settlement : StopSettlement) (result : StopResult) :
    Except String RegistryState :=
  match s.runs.lookup settlement.id with
  | none => .error "in-flight Stop operation pins its retained Run"
  | some entry =>
    match entry.stopOperation with
    | none => .error "in-flight Stop operation keeps its per-Run record"
    | some record => do
      panicUnless (record.key = settlement.key) "Stop settlement retains its exact key"
      panicUnless (record.cell = settlement.cell) "Stop settlement retains its exact result cell"
      if result.removes then do
        panicUnless (s.stopRuns.lookup settlement.key = some settlement.id)
          "Stop key maps to the settled Run"
        .ok { s with
          runs := s.runs.insert settlement.id { entry with stopOperation := none }
          stopRuns := s.stopRuns.erase settlement.key
          stopBytes := s.stopBytes-record.memory }
      else .ok s

end Registry
end Ctxmux
