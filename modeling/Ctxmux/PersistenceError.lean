import Mathlib.Tactic

/-!
# Errors of the durable store

The error values of the persistence owner and the questions its callers ask of
them: which stage and outcome a failure proves, whether the failed work may be
retried, and whether the original transaction still has to be reconciled.
-/

namespace Ctxmux
namespace Durable

inductive StorageFailureStage where
  | opening | read | start | append | finalize | maintenance | checkpoint
deriving DecidableEq,Repr

/-- Proven database transaction outcome. -/
inductive StorageTransactionOutcome where
  | notStarted | notCommitted | committed | unknown
deriving DecidableEq,Repr

structure StorageFailure where
  stage : Option StorageFailureStage
  sqlitePrimaryCode : Option Int
  sqliteExtendedCode : Option Int
  systemErrno : Option Int
  transactionOutcome : StorageTransactionOutcome
deriving DecidableEq,Repr

/-- The kinds of an operating-system error that the store tells apart. -/
inductive ErrorKind where
  | notFound | storageFull | fileTooLarge | other
deriving DecidableEq,Repr

structure OsError where
  kind : ErrorKind
  rawOsError : Option Int
deriving DecidableEq,Repr

/-- The primary SQLite codes that the store tells apart. -/
inductive ErrorCode where
  | diskFull | cannotOpen | systemIoFailure | databaseBusy | constraintViolation | other
deriving DecidableEq,Repr

inductive PersistenceError where
  | invalidDirectory (path message : String)
  | stateInUse (path : String)
  | unsupportedSchema (found expected : Int)
  | corrupt (message : String)
  | resourcePressure (message : String)
  | pendingPressure (message : String)
  | databaseCapacity (pages freePages pageLimit : ℕ)
  | io (path : String) (source : OsError)
  | database (message : String) (code : Option ErrorCode) (extendedCode systemErrno : Option Int)
  | filesystemCapacity (available : Option ℕ) (required : ℕ) (detail : String)
  | storageUnavailable (available : Option ℕ) (error : PersistenceError)
  | operation (context : String) (stage : StorageFailureStage)
      (outcome : StorageTransactionOutcome) (error : PersistenceError)
  | uncertain (message : String) (error : PersistenceError)
  | retainedFailure (message : String) (detail : Option StorageFailure)
  | actorStopped
  | walCheckpointBusy (attempts : ℕ) (detail : String)
  | actorStart (message : String)
  | mutation (message : String)
deriving DecidableEq,Repr

/-- The errno values of a full or over-quota filesystem, and of a path, permission
or descriptor condition that may change while the same owner waits. -/
def removableErrno (errno : Int) : Bool :=
  errno ∈ ([28,122,13,1,2,24,23] : List Int)

namespace PersistenceError

def noFacts : StorageFailure :=
  { stage := none, sqlitePrimaryCode := none, sqliteExtendedCode := none,
    systemErrno := none, transactionOutcome := .unknown }

def storageFailure : PersistenceError → Option StorageFailure
  | .database _ _ extendedCode systemErrno =>
    some { noFacts with
      sqliteExtendedCode := extendedCode
      sqlitePrimaryCode := extendedCode.map (· % 256)
      systemErrno := systemErrno }
  | .io _ source => some { noFacts with systemErrno := source.rawOsError }
  | .operation _ stage outcome error =>
    some { (error.storageFailure.getD noFacts) with
      stage := some stage
      transactionOutcome := outcome }
  | .storageUnavailable _ error => error.storageFailure
  | .retainedFailure _ detail => detail
  | .uncertain _ error =>
    some { (error.storageFailure.getD noFacts) with transactionOutcome := .unknown }
  | .mutation _ | .corrupt _ | .filesystemCapacity .. | .databaseCapacity ..
  | .pendingPressure _ | .walCheckpointBusy .. => some noFacts
  | _ => none

def isProvenOld : StorageTransactionOutcome → Bool
  | .notStarted | .notCommitted => true
  | .committed | .unknown => false

def isDiskFull : PersistenceError → Bool
  | .operation _ _ outcome error => isProvenOld outcome && error.isDiskFull
  | .database _ code _ _ => code = some .diskFull
  | _ => false

/-- A write-side `SQLITE_IOERR` (write, fsync, directory fsync, truncate) whose
retained errno, if any, names a removable condition. -/
def isStoragePressureIoFailure : PersistenceError → Bool
  | .database _ (some .systemIoFailure) (some extended) systemErrno =>
    systemErrno.all removableErrno && extended ∈ ([778,1034,1290,1546] : List Int)
  | _ => false

def isCapacityDebt : PersistenceError → Bool
  | .operation _ _ outcome error => isProvenOld outcome && error.isCapacityDebt
  | .databaseCapacity .. | .filesystemCapacity .. | .pendingPressure _
  | .storageUnavailable .. => true
  | _ => false

def isOpenRetry : PersistenceError → Bool
  | .operation _ _ outcome error => isProvenOld outcome && error.isOpenRetry
  | .database _ (some .cannotOpen) _ (some errno) => removableErrno errno
  | .io _ source => source.rawOsError.any removableErrno
  | _ => false

def isTransientStorage : PersistenceError → Bool
  | .operation _ _ outcome error => isProvenOld outcome && error.isTransientStorage
  | .walCheckpointBusy .. => true
  | .io path source => isOpenRetry (.io path source) || source.kind = .storageFull
  | error => error.isOpenRetry || error.isDiskFull || error.isStoragePressureIoFailure

def isAdmissionFailure (error : PersistenceError) : Bool :=
  error.isCapacityDebt || error.isTransientStorage ||
    match error with
    | .resourcePressure _ | .actorStopped => true
    | _ => false

def requiresReconciliation : PersistenceError → Bool
  | .operation _ _ outcome error => !isProvenOld outcome || error.requiresReconciliation
  | .mutation _ | .retainedFailure .. | .uncertain .. => true
  | _ => false

/-- Attach the stage and the outcome that the caller has proved. Errors that carry
their own outcome, name a capacity debt or hold no storage facts stay as they are. -/
def atStage (error : PersistenceError) (stage : StorageFailureStage)
    (outcome : StorageTransactionOutcome) : PersistenceError :=
  match error with
  | .operation .. | .databaseCapacity .. | .filesystemCapacity .. | .pendingPressure _ => error
  | _ =>
    if error.storageFailure.isNone then error
    else
      .operation "" stage
        (if error.requiresReconciliation ∧ outcome = .notCommitted then .unknown else outcome)
        error

end PersistenceError
end Durable
end Ctxmux
