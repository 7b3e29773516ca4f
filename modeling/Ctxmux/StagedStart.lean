import Ctxmux.StartUnit

/-!
# Driving a staged start

The receipt of a start, the connection with its open transaction, and the functions
that stage a start, wait for the decision of its owner, commit or roll it back and
later reconcile what stayed unknown. Every SQL statement, check of a file and read
of a row has an outcome of its own; a COMMIT that reports an error may be durable
or not, a ROLLBACK may fail and leave its transaction open.
-/

namespace Ctxmux
namespace Durable

/-- Monotonic durable disposition of one staged Run start. -/
inductive StartDisposition where
  | pending | notCommitted | committed | commitUnknown
deriving DecidableEq,Repr

structure StartReceipt where
  disposition : StartDisposition
  commitAuthorized : Bool
  cacheSpill : Option ℤ
deriving DecidableEq,Repr

namespace StartReceipt

def pending : StartReceipt where
  disposition := .pending
  commitAuthorized := false
  cacheSpill := none

def decide (receipt : StartReceipt) (disposition : StartDisposition) : StartReceipt :=
  if receipt.disposition ≠ .pending then receipt else { receipt with disposition := disposition }

def resolve (receipt : StartReceipt) (disposition : StartDisposition) : StartReceipt :=
  if receipt.disposition = .commitUnknown then { receipt with disposition := disposition }
  else receipt

def unknownIfPending (receipt : StartReceipt) : StartReceipt := receipt.decide .commitUnknown

end StartReceipt

inductive StageCompletion where
  | notCommitted (failure : StageFailure)
  | committed (postCommitError : Option PersistenceError)
  | commitUnknown (error : PersistenceError)
deriving DecidableEq,Repr

inductive StageDriveResult where
  | readyFailed (failure : StageFailure)
  | completed (completion : StageCompletion)
deriving DecidableEq,Repr

def combineErrors (ctx : StartContext) (primary secondary : PersistenceError) : PersistenceError :=
  .mutation s!"{ctx.text primary}; additionally: {ctx.text secondary}"

def StageDriveResult.withRestoreFailure (ctx : StartContext) (restoreError : PersistenceError) :
    StageDriveResult → StageDriveResult
  | .readyFailed failure =>
    .readyFailed ⟨combineErrors ctx failure.error restoreError,true,false⟩
  | .completed (.notCommitted failure) =>
    .completed (.notCommitted ⟨combineErrors ctx failure.error restoreError,true,false⟩)
  | .completed (.committed postCommitError) =>
    .completed (.committed (some (match postCommitError with
      | some error => combineErrors ctx error restoreError
      | none => restoreError)))
  | .completed (.commitUnknown error) =>
    .completed (.commitUnknown (combineErrors ctx error restoreError))

/-- The committed tables, what the open transaction of the connection holds, and whether
the record of another transaction waits to be reconciled. -/
structure StartStore where
  durable : Database
  staged : Option Database
  unresolved : Bool
deriving DecidableEq,Repr

/-- A ROLLBACK that reports success has ended its transaction. -/
inductive Rollback where
  | done
  | failed (error : PersistenceError) (ended : Bool)
deriving DecidableEq,Repr

/-- What a COMMIT that reports an error has done. -/
inductive CommitFate where
  | applied | undone | active
deriving DecidableEq,Repr

/-- A COMMIT that reports success is durable. -/
inductive CommitReport where
  | ok
  | failed (error : PersistenceError) (fate : CommitFate)
deriving DecidableEq,Repr

/-- Maintenance on the way of a start: what it committed, and when it failed the
transaction that it left open and whether it left a record. -/
inductive UpkeepOutcome where
  | done (works : List Upkeep) (progress : Bool)
  | failed (works : List Upkeep) (error : PersistenceError) (left : Option Database)
      (recorded : Bool)
deriving DecidableEq,Repr

namespace StartStore

def autocommit (s : StartStore) : Bool := s.staged.isNone

/-- The rows that a query on the connection reads. -/
def view (s : StartStore) : Database := s.staged.getD s.durable

def rollback (s : StartStore) : Rollback → StartStore × Option PersistenceError
  | .done => ({ s with staged := none },none)
  | .failed error ended => ({ s with staged := if ended then none else s.staged },some error)

/-- ROLLBACK of the transaction that is open, if one is. -/
def rollbackActive (s : StartStore) (o : Rollback) : StartStore × Option PersistenceError :=
  if s.autocommit then (s,none) else s.rollback o

def commit (s : StartStore) : CommitReport → StartStore
  | .ok | .failed _ .applied => { s with durable := s.view, staged := none }
  | .failed _ .undone => { s with staged := none }
  | .failed _ .active => s

def upkeep (s : StartStore) : UpkeepOutcome → StartStore × Except PersistenceError Bool
  | .done works progress =>
    ({ s with durable := works.foldl Upkeep.apply s.durable },.ok progress)
  | .failed works error left recorded =>
    ({ s with
        durable := works.foldl Upkeep.apply s.durable
        staged := left
        unresolved := s.unresolved || recorded },
      .error error)

/-- `reclaim_database_pages` runs only outside a transaction. -/
def reclaimPages (s : StartStore) (o : UpkeepOutcome) : StartStore × Except PersistenceError Bool :=
  if s.autocommit then s.upkeep o else (s,.ok false)

end StartStore

/-- The store and the receipt that a start is driven with. -/
structure Drive where
  store : StartStore
  receipt : StartReceipt
deriving DecidableEq,Repr

def Drive.decide (d : Drive) (disposition : StartDisposition) : Drive :=
  { d with receipt := d.receipt.decide disposition }

/-- Where a part of the drive ends: the thread is gone, the start has its result, or the
drive goes on. -/
inductive Progress (α : Type) where
  | lost (store : StartStore)
  | finished (d : Drive) (result : StageDriveResult)
  | next (d : Drive) (value : α)

def Progress.andThen {α β : Type} : Progress α → (Drive → α → Progress β) → Progress β
  | .lost store, _ => .lost store
  | .finished d result, _ => .finished d result
  | .next d value, f => f d value

/-- The outcomes of what precedes the staging transaction. -/
structure PreflightOutcomes where
  prepare : UpkeepOutcome
  fold : Except PersistenceError ℕ
  releaseMemory : Option PersistenceError
  disableSpill : Except StageFailure ℤ

def notCommitted {α : Type} (d : Drive) (failure : StageFailure) : Progress α :=
  .finished (d.decide .notCommitted) (.readyFailed failure)

/-- `drive_staged_start_with_shutdown` up to its transaction: the WAL baseline and the
cache-spill setting to restore. `stoppable` says whether a shutdown may end the fold. -/
def preflight (ctx : StartContext) (request : StartRequest) (stoppable : Bool) (d : Drive)
    (o : PreflightOutcomes) : Progress (ℕ × ℤ) :=
  match validatePreparedStart ctx.codec ctx.epoch request.prepared with
  | .error error => notCommitted d ⟨error,true,false⟩
  | .ok () =>
    if ctx.metadataBytes < request.prepared.metadataBytes then
      notCommitted d (admissionFailure
        s!"one Run metadata record exceeds the {ctx.metadataBytes} byte budget")
    else
      let prepared := d.store.upkeep o.prepare
      let d : Drive := { d with store := prepared.1 }
      match prepared.2 with
      | .error error => notCommitted d ⟨error,!error.isAdmissionFailure,error.isCapacityDebt⟩
      | .ok _ =>
        match o.fold with
        | .error error =>
          if stoppable = true ∧ error = .actorStopped then .lost d.store
          else notCommitted d (admissionFailure
            s!"persistent WAL admission could not reach its baseline: {ctx.text error}")
        | .ok baseline =>
          match o.releaseMemory, o.disableSpill with
          | some error, _ => notCommitted d (admissionFailure
              s!"persistent WAL admission could not release the connection cache: {ctx.text error}")
          | none, .error failure => notCommitted d failure
          | none, .ok previous => .next d (baseline,previous)

def rollbackBeforeReady (ctx : StartContext) (d : Drive) (o : Rollback) (failure : StageFailure) :
    Drive × StageDriveResult :=
  let rolled := d.store.rollbackActive o
  let d : Drive := { d with store := rolled.1 }
  match rolled.2 with
  | none => (d.decide .notCommitted,.readyFailed failure)
  | some rollbackError =>
    (d.decide .commitUnknown,.readyFailed (fatalStageFailure
      s!"{ctx.text failure.error}; staged rollback failed: {ctx.text rollbackError}"))

/-- One turn of the staging loop. An SQL error inside the replacement leaves the
transaction open with some of its rows, or SQLite has ended it. -/
structure StagingAttempt where
  resetCounters : Option PersistenceError
  begun : Option PersistenceError
  walLen : Except PersistenceError ℕ
  sql : Option (PersistenceError × Option Database)
  rollback : Rollback
  reclaim : UpkeepOutcome
  fold : Except PersistenceError ℕ
  lastRollback : Rollback

/-- The replacement staged in the open transaction, or why it was not. -/
def stageInto (ctx : StartContext) (request : StartRequest) (s : StartStore)
    (sql : Option (PersistenceError × Option Database)) :
    StartStore × Option StageFailure :=
  match sql with
  | some (error,residue) => ({ s with staged := residue },some (.ofError error))
  | none =>
    match stageExactReplacement ctx s.view request with
    | .error failure => (s,some failure)
    | .ok staged => ({ s with staged := some staged },none)

/-- What a reclaim of pages makes of the failure that asked for it: the loop goes on, or
the staging fails with it or with the error of the reclaim. -/
def reclaimFailure (failure : StageFailure) : Except PersistenceError Bool → Option StageFailure
  | .ok true => none
  | .ok false => some failure
  | .error error => some ⟨error,!error.isAdmissionFailure,error.isCapacityDebt⟩

def finishedBy {α : Type} (result : Drive × StageDriveResult) : Progress α :=
  .finished result.1 result.2

/-- The loop of `drive_staged_start_with_spill_disabled`; it ends with the WAL baseline of
the transaction that holds the replacement. With no turn left the thread is gone. -/
def stageLoop (ctx : StartContext) (request : StartRequest) :
    ℕ → List StagingAttempt → Drive → Progress ℕ
  | _, [], d => .lost d.store
  | baseline, o::attempts, d =>
    match o.resetCounters with
    | some error => notCommitted d (admissionFailure
        s!"persistent WAL admission could not reset cache counters: {ctx.text error}")
    | none =>
      match o.begun, d.store.autocommit with
      | some error, _ => notCommitted d ⟨error,false,false⟩
      | none, false => notCommitted d
          ⟨.database "cannot start a transaction within a transaction" none (some 1) none,false,
            false⟩
      | none, true =>
        let d : Drive := { d with store := { d.store with staged := some d.store.durable } }
        match o.walLen with
        | .error error => finishedBy (rollbackBeforeReady ctx d o.rollback (admissionFailure
            s!"persistent WAL baseline could not be inspected: {ctx.text error}"))
        | .ok bytes =>
          if bytes ≠ baseline then
            finishedBy (rollbackBeforeReady ctx d o.rollback
              (admissionFailure "persistent WAL changed before exact staging"))
          else
            let staging := stageInto ctx request d.store o.sql
            let d : Drive := { d with store := staging.1 }
            match staging.2 with
            | none => .next d baseline
            | some failure =>
              if failure.error.isDiskFull then
                let rolled := d.store.rollbackActive o.rollback
                let d : Drive := { d with store := rolled.1 }
                match rolled.2 with
                | some error =>
                  .finished (d.decide .commitUnknown) (.readyFailed (fatalStageFailure
                    s!"{ctx.text failure.error}; staged rollback failed: {ctx.text error}"))
                | none =>
                  let reclaimed := d.store.reclaimPages o.reclaim
                  let d : Drive := { d with store := reclaimed.1 }
                  match reclaimFailure failure reclaimed.2, o.fold with
                  | none, .ok baseline => stageLoop ctx request baseline attempts d
                  | none, .error error => notCommitted d ⟨error,!error.isAdmissionFailure,false⟩
                  | some failure, _ =>
                    finishedBy (rollbackBeforeReady ctx d o.lastRollback failure)
              else finishedBy (rollbackBeforeReady ctx d o.rollback failure)

structure CacheAdmissionSnapshot where
  usedBytes : ℕ
  writes : ℕ
  spills : ℕ
deriving DecidableEq,Repr

structure AdmissionOutcomes where
  snapshot : Except PersistenceError CacheAdmissionSnapshot
  walLen : Except PersistenceError ℕ
  rollback : Rollback

def pageSizeBytes : ℕ := 4096
def walHeaderBytes : ℕ := 32
def walFrameBytes : ℕ := pageSizeBytes+24

def walChargeForCache (usedBytes : ℕ) : ℕ :=
  walHeaderBytes+(usedBytes+pageSizeBytes-1)/pageSizeBytes*walFrameBytes

/-- The staged transaction is admitted against its WAL charge. -/
def admitStaged (ctx : StartContext) (baseline : ℕ) (d : Drive) (o : AdmissionOutcomes) :
    Progress Unit :=
  match o.snapshot, o.walLen with
  | .error error, _ => finishedBy (rollbackBeforeReady ctx d o.rollback (admissionFailure
      s!"persistent WAL admission could not observe cache status: {ctx.text error}"))
  | .ok _, .error error => finishedBy (rollbackBeforeReady ctx d o.rollback (admissionFailure
      s!"persistent WAL admission could not inspect its baseline: {ctx.text error}"))
  | .ok snapshot, .ok walBytes =>
    let charge := walChargeForCache snapshot.usedBytes
    if walBytes ≠ baseline ∨ snapshot.writes ≠ 0 ∨ snapshot.spills ≠ 0 ∨
        ctx.walCheckpointBytes < charge ∨ ctx.walBytes < baseline+charge then
      finishedBy (rollbackBeforeReady ctx d o.rollback (admissionFailure
        (s!"persistent exact replacement exceeds or cannot prove its configured WAL charge: " ++
          s!"cache={snapshot.usedBytes} bytes, writes={snapshot.writes}, " ++
          s!"spills={snapshot.spills}, wal={walBytes} bytes, baseline={baseline} bytes")))
    else .next d ()

/-- The drive with cache spill disabled, up to the point where its owner decides. -/
def stageUntilReady (ctx : StartContext) (request : StartRequest) (baseline : ℕ) (d : Drive)
    (attempts : List StagingAttempt) (admission : AdmissionOutcomes) : Progress Unit :=
  (stageLoop ctx request baseline attempts d).andThen fun d baseline =>
    admitStaged ctx baseline d admission

/-- The staged transaction is rolled back for its owner: `undone` is the failure that a
proven rollback reports, `unknown` the error of one that is not proven. -/
def rollBackStaged (d : Drive) (o : Rollback) (undone : StageFailure)
    (unknown : PersistenceError → PersistenceError) : Drive × StageDriveResult :=
  let rolled := d.store.rollback o
  let d : Drive := { d with store := rolled.1 }
  match rolled.2 with
  | none => (d.decide .notCommitted,.completed (.notCommitted undone))
  | some error => (d.decide .commitUnknown,.completed (.commitUnknown (unknown error)))

def rollbackAfterReadyLoss (ctx : StartContext) (d : Drive) (o : Rollback) :
    Drive × StageDriveResult :=
  rollBackStaged d o ⟨.actorStopped,false,false⟩ fun error =>
    .mutation s!"staged reply owner disappeared and rollback failed: {ctx.text error}"

def abortStagedStart (ctx : StartContext) (d : Drive) (o : Rollback) : Drive × StageDriveResult :=
  rollBackStaged d o ⟨.mutation "persistent Run start was aborted",false,false⟩ fun error =>
    .mutation s!"persistent Run start abort could not prove rollback: {ctx.text error}"

/-- The outcomes of what follows a COMMIT. -/
structure ClassifyOutcomes where
  validate : Option PersistenceError
  rollback : Rollback
  probe : Option PersistenceError
deriving DecidableEq,Repr

def classifyFailedCommit (ctx : StartContext) (request : StartRequest) (d : Drive)
    (commitError : PersistenceError) (o : ClassifyOutcomes) : Drive × StageDriveResult :=
  let rolled := d.store.rollbackActive o.rollback
  let d : Drive := { d with store := rolled.1 }
  match rolled.2, o.probe with
  | some rollbackError, _ =>
    (d.decide .commitUnknown,.completed (.commitUnknown (.uncertain
      s!"persistent COMMIT rollback failed ({ctx.text rollbackError})" commitError)))
  | none, some probeError =>
    (d.decide .commitUnknown,.completed (.commitUnknown (.uncertain
      s!"persistent COMMIT exact probe failed: {ctx.text probeError}" commitError)))
  | none, none =>
    match probeExactReplacement ctx.codec d.store.view request with
    | .oldUnit =>
      (d.decide .notCommitted,.completed (.notCommitted
        ⟨commitError.atStage .start .notCommitted,false,false⟩))
    | .newUnit =>
      (d.decide .committed,.completed (.committed (some (commitError.atStage .start .committed))))
    | .hybrid =>
      (d.decide .commitUnknown,.completed (.commitUnknown
        (.uncertain "persistent COMMIT durable rows are hybrid" commitError)))

/-- The first part of `commit_staged_start`: the decision is recorded and COMMIT issued. -/
def issueCommit (d : Drive) (report : CommitReport) : Drive where
  store := d.store.commit report
  receipt := { d.receipt with commitAuthorized := true }

/-- The rest of `commit_staged_start`. -/
def concludeCommit (ctx : StartContext) (request : StartRequest) (d : Drive)
    (report : CommitReport) (o : ClassifyOutcomes) : Drive × StageDriveResult :=
  match report with
  | .ok =>
    (d.decide .committed,.completed (.committed
      (o.validate.map fun error => error.atStage .start .committed)))
  | .failed commitError _ => classifyFailedCommit ctx request d commitError o

/-- The cache-spill setting is restored after the drive; a setting that could not be is
kept in the receipt. -/
def restoreSpill (ctx : StartContext) (previous : ℤ) (restore : Option PersistenceError)
    (result : Drive × StageDriveResult) : Drive × StageDriveResult :=
  match restore with
  | none => result
  | some error =>
    ({ result.1 with receipt := { result.1.receipt with cacheSpill := some previous } },
      result.2.withRestoreFailure ctx error)

/-- The outcomes of a drive that commits without asking its owner again. -/
structure DriveOutcomes where
  preflight : PreflightOutcomes
  attempts : List StagingAttempt
  admission : AdmissionOutcomes
  report : CommitReport
  classify : ClassifyOutcomes
  restore : Option PersistenceError

/-- The drive whose decision is `StageDecisionOwner::OriginalCommit`. -/
def driveOriginalCommit (ctx : StartContext) (request : StartRequest) (d : Drive)
    (o : DriveOutcomes) : Progress Empty :=
  (preflight ctx request false d o.preflight).andThen fun d admitted =>
    match stageUntilReady ctx request admitted.1 d o.attempts o.admission with
    | .lost store => .lost store
    | .finished d result => finishedBy (restoreSpill ctx admitted.2 o.restore (d,result))
    | .next d () =>
      finishedBy (restoreSpill ctx admitted.2 o.restore
        (concludeCommit ctx request (issueCommit d o.report) o.report o.classify))

/-- The outcomes of one call of `reconcile_start`. -/
structure StartReconcileOutcomes where
  identity : Option PersistenceError
  rollback : Rollback
  restore : Option PersistenceError
  probe : Option PersistenceError
  validate : Option PersistenceError
  drive : DriveOutcomes

/-- The answer of `reconcile_start`, unless the thread is gone in the middle of it. -/
inductive Reconciliation where
  | lost (store : StartStore)
  | answered (d : Drive) (result : Except PersistenceError Bool)

/-- What the fresh attempt of an authorized start means for its original receipt. -/
def concludeAttempt (receipt : StartReceipt) : Progress Empty → Reconciliation
  | .lost store => .lost store
  | .next _ value => value.elim
  | .finished attempt (.completed (.committed none)) =>
    .answered ⟨attempt.store,receipt.resolve .committed⟩ (.ok true)
  | .finished attempt (.readyFailed failure)
  | .finished attempt (.completed (.notCommitted failure)) =>
    .answered ⟨attempt.store,receipt⟩
      (if failure.error.isAdmissionFailure then .ok false else .error failure.error)
  | .finished attempt (.completed (.committed (some _)))
  | .finished attempt (.completed (.commitUnknown _)) =>
    .answered ⟨attempt.store,{ receipt with
      cacheSpill := attempt.receipt.cacheSpill.or receipt.cacheSpill }⟩ (.ok false)

/-- What the probe of the rows means for the receipt. -/
def settleProbe (ctx : StartContext) (request : StartRequest) (d : Drive)
    (o : StartReconcileOutcomes) : CommitProbe → Reconciliation
  | .hybrid => .answered d (.error (.corrupt "original creation has hybrid durable rows"))
  | .newUnit =>
    match o.validate with
    | some error => .answered d (.error error)
    | none => .answered { d with receipt := d.receipt.resolve .committed } (.ok true)
  | .oldUnit =>
    if d.receipt.disposition = .committed then
      .answered d (.error
        (.corrupt "confirmed creation changed back to its old durable unit"))
    else if d.receipt.commitAuthorized = false then
      .answered { d with receipt := d.receipt.resolve .notCommitted } (.ok true)
    else concludeAttempt d.receipt (driveOriginalCommit ctx request ⟨d.store,.pending⟩ o.drive)

def reconcileStart (ctx : StartContext) (request : StartRequest) (d : Drive)
    (o : StartReconcileOutcomes) : Reconciliation :=
  match o.identity with
  | some error => .answered d (.error error)
  | none =>
    let rolled := d.store.rollbackActive o.rollback
    let d : Drive := { d with store := rolled.1 }
    match rolled.2, d.store.autocommit with
    | some error, _ => .answered d (.error error)
    | none, false => .answered d (.ok false)
    | none, true =>
      match (if d.receipt.cacheSpill.isSome then o.restore else none), o.probe with
      | some error, _ => .answered d (.error error)
      | none, some error => .answered d (.error error)
      | none, none =>
        settleProbe ctx request d o (probeExactReplacement ctx.codec d.store.view request)

end Durable
end Ctxmux
