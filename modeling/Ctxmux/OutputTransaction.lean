import Ctxmux.DurableStore

/-!
# The output transaction

One transaction appends the replays of a batch, evicts what the limits no longer
allow and settles at most one terminal Run. Every step that asks SQLite or the
filesystem has an outcome of its own: a COMMIT may report an error and be durable
or not, and a check may fail after the COMMIT. What the transaction leaves behind
decides whether the tail of the payload file is cut back, now or when its record
is reconciled.
-/

namespace Ctxmux
namespace Durable

/-- Merge the replays of one Run: the chunks of the later follow those of the earlier
and its bounds replace theirs. -/
def mergeReplay (id : RunId) (replay : OutputReplay) :
    List (RunId × OutputReplay) → List (RunId × OutputReplay)
  | [] => [(id,replay)]
  | item::merged =>
    if item.1 = id then (id,{ replay with chunks := item.2.chunks ++ replay.chunks })::merged
    else item::mergeReplay id replay merged

def coalesceBatch (batch : List (RunId × OutputReplay)) : List (RunId × OutputReplay) :=
  batch.foldl (fun merged item => mergeReplay item.1 item.2 merged) []

def replayPayload (replay : OutputReplay) : ℕ := (replay.chunks.map (·.data.length)).sum

/-- The limits that one output transaction runs under. -/
structure OutputLimits where
  durableRunOutputBytes : ℕ
  durableReplayBytes : ℕ
  rowFunding : ℕ
  walCheckpointBytes : ℕ
  walBytes : ℕ
deriving DecidableEq,Repr

/-- One Run's append inside the transaction, with the head that it reads back. -/
def stageAppend (limits : OutputLimits) (s : Store) (item : RunId × OutputReplay) :
    Except PersistenceError Store := do
  let (s,_) ← appendReplayWithStorage s s.db.replayFile item.1 item.2 limits.durableRunOutputBytes
  let _ ← s.db.selectRun item.1
  .ok s

def stageTerminal (codec : Codec) (db : Database) :
    Option TerminalSettlement → Except PersistenceError Database
  | none => .ok db
  | some terminal => settleTerminal codec db terminal

/-- The row changes and the payload of the transaction. The flag is false when the row
funding does not reach the limit, and the transaction is then rolled back. -/
def stageOutput (codec : Codec) (limits : OutputLimits) (s : Store)
    (batch : List (RunId × OutputReplay)) (terminal : Option TerminalSettlement) :
    Except PersistenceError (Bool × Store) := do
  let s ← (coalesceBatch batch).foldlM (stageAppend limits) s
  let (fits,db) ← pruneGlobalReplayWithRowFunding limits.durableReplayBytes limits.rowFunding s.db
  if fits then do
    let db ← stageTerminal codec db terminal
    .ok (true,⟨db,s.files⟩)
  else .ok (false,⟨db,s.files⟩)

/-- The columns of a Run that a witness reads, with its two timestamps. -/
structure WitnessRow where
  creationKey : String
  stateKind : StateKind
  stateJson : String
  pid : Option ℕ
  durableFirstAvailableByte : ℕ
  durableOutputBytes : ℕ
  replayBytes : ℕ
  replayTruncated : Bool
  metadataBytes : ℕ
  updatedAtMs : ℕ
  terminalAtMs : Option ℕ
deriving DecidableEq,Repr

/-- `updated_at_ms` and `terminal_at_ms` of every Run. -/
abbrev Stamps := RunId → ℕ × Option ℕ

def WitnessRow.read (stamps : Stamps) (row : RunRow) : WitnessRow where
  creationKey := row.creationKey
  stateKind := row.stateKind
  stateJson := row.stateJson
  pid := row.pid
  durableFirstAvailableByte := row.durableFirstAvailableByte
  durableOutputBytes := row.durableOutputBytes
  replayBytes := row.replayBytes
  replayTruncated := row.replayTruncated
  metadataBytes := row.metadataBytes
  updatedAtMs := (stamps row.id).1
  terminalAtMs := (stamps row.id).2

abbrev Witness := List (RunId × Option WitnessRow)

/-- `MaintenanceWitness::Runs`. -/
def readWitness (ids : List RunId) (db : Database) (stamps : Stamps) : Witness :=
  ids.map fun id => (id,(db.run? id).map (WitnessRow.read stamps))

inductive CommitAttempt where
  | notIssued | unconfirmed | confirmed
deriving DecidableEq,Repr

/-- The record of a transaction whose outcome is not settled. `before` is the length
of the payload file that an `Output` settlement would cut it back to. -/
structure UnresolvedMaintenance where
  witness : List RunId
  old : Option Witness
  new : Option Witness
  commit : CommitAttempt
  baseline : ℕ
  charge : Option ℕ
  cacheSpill : Bool
  checkFiles : Bool
  before : Option ℕ
deriving DecidableEq,Repr

/-- The durable tables with their timestamps, the payload files, whether a transaction is
still open on the connection, whether the output transaction is durably applied, and the
record of it. -/
structure OutputState where
  db : Database
  stamps : Stamps
  files : Files
  active : Bool
  applied : Bool
  unresolved : Option UnresolvedMaintenance

/-- What ROLLBACK reports, and whether the connection is back in autocommit. -/
structure RollbackOutcome where
  failure : Option PersistenceError
  ended : Bool
deriving DecidableEq,Repr

/-- A COMMIT that reports an error. The transaction is still open, or it has ended and is
durable or not; `probe` is a failure of the witness read that follows. -/
structure CommitFailure where
  error : PersistenceError
  ended : Bool
  durable : Bool
  rollback : RollbackOutcome
  probe : Option PersistenceError
deriving DecidableEq,Repr

/-- The outcome of every step of `append_transaction_once` that asks SQLite or the
filesystem; `none` is success. A failed `apply` leaves `residue` at the end of the
payload file and may have ended the transaction itself. -/
structure StepOutcomes where
  prepare : Option PersistenceError
  admission : Option PersistenceError
  baseline : ℕ
  begun : Option PersistenceError
  oldProbe : Option PersistenceError
  apply : Option PersistenceError
  residue : List Byte
  aborted : Bool
  newProbe : Option PersistenceError
  rollback : RollbackOutcome
  charge : Option ℕ
  stamps : Stamps
  commit : Option CommitFailure
  walLen : Except PersistenceError ℕ
  validate : Option PersistenceError
  restore : Option PersistenceError
  truncate : Option PersistenceError

/-- `rollback_maintenance_error`: the error that leaves the transaction, and whether the
transaction is still open. -/
def rollbackMaintenanceError (active : Bool) (rollback : RollbackOutcome)
    (error : PersistenceError) : PersistenceError × Bool :=
  if active = false then (error,false)
  else
    match rollback.failure with
    | none =>
      if rollback.ended then (error,false)
      else (.uncertain "maintenance rollback left a transaction active" error,true)
    | some _ => (.uncertain "maintenance rollback failed" error,!rollback.ended)

/-- A record of a transaction that was never committed. -/
def notIssued (witness : List RunId) (old new : Option Witness) (o : StepOutcomes)
    (charge : Option ℕ) : UnresolvedMaintenance where
  witness := witness
  old := old
  new := new
  commit := .notIssued
  baseline := o.baseline
  charge := charge
  cacheSpill := false
  checkFiles := true
  before := none

/-- The proof of a transaction failed before COMMIT: roll it back. -/
def failProof (t : OutputState) (o : StepOutcomes) (witness : List RunId) (old : Option Witness)
    (error : PersistenceError) : OutputState × Except PersistenceError Bool :=
  let rolled := rollbackMaintenanceError t.active o.rollback error
  ({ t with
      active := rolled.2
      unresolved := if rolled.2 then some (notIssued witness old none o none) else t.unresolved },
    .error rolled.1)

/-- `classify_maintenance_commit_error`: the classified error, and whether the transaction
is still open. -/
def classifyMaintenanceCommitError (f : CommitFailure) (old new actual : Witness) :
    PersistenceError × Bool :=
  let unknown := PersistenceError.uncertain "maintenance COMMIT outcome requires recovery" f.error
  if f.ended = false then
    if f.rollback.failure = none ∧ f.rollback.ended = true ∧ f.error.isTransientStorage = true then
      (f.error,false)
    else (unknown,!f.rollback.ended)
  else if f.error.isTransientStorage = true ∧ old ≠ new ∧ f.probe = none ∧ actual = old then
    (f.error,false)
  else (unknown,false)

/-- What follows a COMMIT that reported success: the WAL is measured against the admitted
charge, and the files of the store are validated. -/
def finishCommitted (o : StepOutcomes) (charge : ℕ) : Except PersistenceError Bool :=
  match o.walLen with
  | .error error =>
    .error (.operation "maintenance post-COMMIT WAL inspection requires recovery: " .maintenance
      .committed error)
  | .ok actual =>
    if charge < actual-o.baseline then
      .error (.mutation s!"maintenance WAL exceeded its admitted page charge: {actual} bytes")
    else
      match o.validate with
      | some error => .error (error.atStage .maintenance .committed)
      | none => .ok true

/-- COMMIT of an admitted transaction whose row changes are `staged`. -/
def commitAdmitted (t : OutputState) (o : StepOutcomes) (witness : List RunId)
    (old new : Witness) (charge : ℕ) (staged : Database) :
    OutputState × Except PersistenceError Bool :=
  let record : UnresolvedMaintenance :=
    { notIssued witness (some old) (some new) o (some charge) with commit := .unconfirmed }
  match o.commit with
  | none =>
    ({ t with
        db := staged
        stamps := o.stamps
        active := false
        applied := true
        unresolved := some { record with commit := .confirmed } },
      finishCommitted o charge)
  | some f =>
    let t : OutputState :=
      if f.ended ∧ f.durable then { t with db := staged, stamps := o.stamps, applied := true } else t
    let error := classifyMaintenanceCommitError f old new (readWitness witness t.db t.stamps)
    ({ t with
        active := error.2
        unresolved := if error.1.requiresReconciliation then some record else none },
      .error error.1)

/-- `commit_maintenance_batch_without_spill` around the row changes of an output. -/
def commitMaintenanceBatchWithoutSpill (codec : Codec) (limits : OutputLimits) (t : OutputState)
    (o : StepOutcomes) (witness : List RunId) (batch : List (RunId × OutputReplay))
    (terminal : Option TerminalSettlement) : OutputState × Except PersistenceError Bool :=
  let old := readWitness witness t.db t.stamps
  let leave (bytes : List Byte) : OutputState :=
    { t with
      active := !o.aborted
      files := t.files.write t.db.replayFile ((t.files t.db.replayFile).getD [] ++ bytes) }
  match o.begun, o.oldProbe, o.apply, stageOutput codec limits ⟨t.db,t.files⟩ batch terminal with
  | some error, _, _, _ => (t,.error error)
  | none, some error, _, _ => failProof { t with active := !o.aborted } o witness none error
  | none, none, some error, _ => failProof (leave o.residue) o witness (some old) error
  | none, none, none, .error error => failProof (leave o.residue) o witness (some old) error
  | none, none, none, .ok (applied,staged) =>
    let t : OutputState := { t with files := staged.files, active := true }
    let new := readWitness witness staged.db o.stamps
    match o.newProbe, if applied then o.charge else none with
    | some error, _ => failProof { t with active := !o.aborted } o witness (some old) error
    | none, none => rollBack t o witness old new none
    | none, some charge =>
      if limits.walCheckpointBytes < charge ∨ limits.walBytes < o.baseline+charge then
        rollBack t o witness old new (some charge)
      else commitAdmitted t o witness old new charge staged.db
where
  /-- The admission of a proven transaction failed. -/
  rollBack (t : OutputState) (o : StepOutcomes) (witness : List RunId) (old new : Witness)
      (charge : Option ℕ) : OutputState × Except PersistenceError Bool :=
    match o.rollback.failure with
    | none => ({ t with active := !o.rollback.ended },.ok false)
    | some error =>
      ({ t with
          active := !o.rollback.ended
          unresolved := some (notIssued witness (some old) (some new) o charge) },
        .error (.uncertain "maintenance admission rollback failed" error))

/-- The cache-spill setting is restored whatever the transaction did. -/
def restoreCacheSpill (o : StepOutcomes) (result : OutputState × Except PersistenceError Bool) :
    OutputState × Except PersistenceError Bool :=
  match o.restore with
  | none =>
    match result.2 with
    | .ok flag => ({ result.1 with unresolved := none },.ok flag)
    | .error error => (result.1,.error error)
  | some error =>
    ({ result.1 with
        unresolved := some { result.1.unresolved.getD (notIssued [] (some []) none o none) with
          cacheSpill := true } },
      .error (.uncertain "maintenance cache state could not be restored" error))

def commitMaintenanceBatchWithAdmission (codec : Codec) (limits : OutputLimits) (t : OutputState)
    (o : StepOutcomes) (witness : List RunId) (batch : List (RunId × OutputReplay))
    (terminal : Option TerminalSettlement) : OutputState × Except PersistenceError Bool :=
  match o.admission with
  | some error => (t,.error error)
  | none =>
    restoreCacheSpill o (commitMaintenanceBatchWithoutSpill codec limits t o witness batch terminal)

/-- `truncate_replay_tail`. -/
def cutTail (t : OutputState) (before : ℕ) : OutputState :=
  { t with
    files := t.files.write t.db.replayFile (((t.files t.db.replayFile).getD []).take before) }

/-- The disposition of the tail after the transaction: cut after a proven rollback, kept
behind a record of what is not settled. -/
def settleOutput (o : StepOutcomes) (before : ℕ)
    (result : OutputState × Except PersistenceError Bool) :
    OutputState × Except PersistenceError Bool :=
  match result.2 with
  | .ok true => result
  | .ok false =>
    match o.truncate with
    | none => (cutTail result.1 before,.ok false)
    | some error => (result.1,.error error)
  | .error error =>
    let t : OutputState :=
      { result.1 with
        unresolved := result.1.unresolved.map fun u => { u with before := some before } }
    if error.requiresReconciliation then (t,.error error)
    else
      match o.truncate with
      | none => (cutTail t before,.error error)
      | some truncation => (t,.error truncation)

/-- The Runs whose rows witness the transaction. -/
def witnessRuns (batch : List (RunId × OutputReplay)) (terminal : Option TerminalSettlement) :
    List RunId :=
  let ids := batch.map (·.1)
  match terminal with
  | none => ids
  | some terminal => if terminal.id ∈ ids then ids else ids ++ [terminal.id]

def appendTransactionOnce (codec : Codec) (limits : OutputLimits) (t : OutputState)
    (o : StepOutcomes) (batch : List (RunId × OutputReplay))
    (terminal : Option TerminalSettlement) : OutputState × Except PersistenceError Bool :=
  let payload := (batch.map fun item => replayPayload item.2).sum
  if maxTransactionPayloadBytes < payload then
    (t,.error (.mutation
      s!"output transaction payload {payload} exceeds the 1 MiB admission ceiling"))
  else
    match o.prepare with
    | some error => (t,.error error)
    | none =>
      settleOutput o (t.files.len t.db.replayFile)
        (commitMaintenanceBatchWithAdmission codec limits t o (witnessRuns batch terminal) batch
          terminal)

/-- The outcomes of one call of `reconcile_maintenance`. -/
structure ReconcileOutcomes where
  identity : Option PersistenceError
  rollback : RollbackOutcome
  probe : Option PersistenceError
  walLen : Except PersistenceError ℕ
  restore : Option PersistenceError
  validate : Option PersistenceError
  pathIdentity : Option PersistenceError
  truncate : Option PersistenceError

/-- What the record and the witness prove: committed, rolled back, or nothing yet. -/
def reconciledOutcome (u : UnresolvedMaintenance) (actual : Option Witness) :
    Except PersistenceError (Option Bool) :=
  match u.commit with
  | .confirmed =>
    if actual ≠ u.new then .error (.corrupt "confirmed transaction witness changed")
    else .ok (some true)
  | .notIssued => .ok (some false)
  | .unconfirmed =>
    if u.old = u.new then .ok none
    else if actual = u.old then .ok (some false)
    else if actual = u.new then .ok (some true)
    else .error
      (.corrupt "unresolved transaction has neither exact Old nor exact New witness")

/-- The WAL of a committed transaction stays inside its admitted charge. -/
def checkReconciledWal (u : UnresolvedMaintenance) (o : ReconcileOutcomes) (committed : Bool) :
    Except PersistenceError Unit :=
  if committed then do
    let actual ← o.walLen
    if u.charge.getD 0 < actual-u.baseline then
      .error (.corrupt "reconciled WAL exceeds the original admitted charge")
    else .ok ()
  else .ok ()

def failWith : Option PersistenceError → Except PersistenceError Unit
  | none => .ok ()
  | some error => .error error

/-- The checks between the proof of an outcome and its settlement. -/
def checkReconciled (u : UnresolvedMaintenance) (o : ReconcileOutcomes) (committed : Bool) :
    Except PersistenceError Unit := do
  checkReconciledWal u o committed
  if u.cacheSpill then failWith o.restore else .ok ()
  if u.checkFiles then failWith o.validate else .ok ()

/-- The settlement of an output transaction; a record without one has no tail to cut. -/
def settleReconciled (t : OutputState) (u : UnresolvedMaintenance) (o : ReconcileOutcomes)
    (committed : Bool) : Except PersistenceError OutputState :=
  match u.before with
  | none => .ok { t with unresolved := none }
  | some before => do
    failWith o.pathIdentity
    if committed then .ok { t with unresolved := none }
    else do
      failWith o.truncate
      .ok { cutTail t before with unresolved := none }

def reconcileRecord (t : OutputState) (u : UnresolvedMaintenance) (o : ReconcileOutcomes) :
    Except PersistenceError OutputState := do
  failWith o.probe
  let outcome ← reconciledOutcome u (some (readWitness u.witness t.db t.stamps))
  match outcome with
  | none => .ok t
  | some committed => do
    checkReconciled u o committed
    settleReconciled t u o committed

/-- One call of `reconcile_maintenance`; an error leaves the record for the next call. -/
def reconcileMaintenance (t : OutputState) (o : ReconcileOutcomes) : OutputState :=
  match o.identity, t.unresolved with
  | some _, _ => t
  | none, none => t
  | none, some u =>
    let rolled : OutputState := if t.active then { t with active := !o.rollback.ended } else t
    if t.active ∧ o.rollback.failure ≠ none ∨ rolled.active then rolled
    else
      match reconcileRecord rolled u o with
      | .ok t' => t'
      | .error _ => rolled

end Durable
end Ctxmux
