import Ctxmux.StartConcluded
import Ctxmux.Machine

/-!
# The protocol of a staged start

The thread that owns a start and the persistence actor meet at rendezvous channels:
the actor reports that the transaction is staged, the owner decides, the actor
reports what became of it. Either may be gone at any point. A start that stays
unknown remains with the actor, which fences every other writer until a later
reconciliation has settled it.
-/

namespace Ctxmux
namespace Durable

inductive StageDecision where
  | commit | abort
deriving DecidableEq,Repr

/-- The error of a start and the disposition it reports; `recovery` says whether the
receipt is kept for a later settlement. -/
structure PersistentStartFailure where
  disposition : StartDisposition
  capacity : Bool
  error : PersistenceError
  recovery : Bool
deriving DecidableEq,Repr

namespace PersistentStartFailure

def new (disposition : StartDisposition) (error : PersistenceError) : PersistentStartFailure where
  disposition := disposition
  capacity := false
  error := error
  recovery := false

def fromStage (disposition : StartDisposition) (failure : StageFailure) :
    PersistentStartFailure where
  disposition := disposition
  capacity := failure.capacity
  error := failure.error
  recovery := false

end PersistentStartFailure

inductive PersistentStartCompletion where
  | notCommitted (failure : PersistentStartFailure)
  | committed (postCommitError : Option PersistenceError)
  | commitUnknown (failure : PersistentStartFailure)
deriving DecidableEq,Repr

def completionFromFailure (failure : PersistentStartFailure) : PersistentStartCompletion :=
  match failure.disposition with
  | .committed => .committed (some failure.error)
  | .notCommitted => .notCommitted failure
  | .pending | .commitUnknown => .commitUnknown failure

/-- The failure of an owner whose channel to the actor is gone. -/
def actorGone (receipt : StartReceipt) : StartReceipt × PersistentStartFailure :=
  let receipt := receipt.unknownIfPending
  (receipt,.new receipt.disposition .actorStopped)

/-- `StagedPersistentStart::commit` once its decision was taken; without a message the
actor is gone, before or after it took the decision. -/
def commitCompletion (receipt : StartReceipt) :
    Option StageCompletion → StartReceipt × PersistentStartCompletion
  | some (.notCommitted failure) => (receipt,.notCommitted (.fromStage .notCommitted failure))
  | some (.committed postCommitError) => (receipt,.committed postCommitError)
  | some (.commitUnknown error) => (receipt,.commitUnknown (.new .commitUnknown error))
  | none =>
    let gone := actorGone receipt
    (gone.1,completionFromFailure gone.2)

/-- `StagedPersistentStart::abort` once its decision was taken. -/
def abortCompletion (receipt : StartReceipt) :
    Option StageCompletion → StartReceipt × Except PersistentStartFailure Unit
  | some (.notCommitted failure) =>
    (receipt,if failure.fatal then .error (.new .notCommitted failure.error) else .ok ())
  | some (.committed postCommitError) =>
    (receipt,.error (.new .committed (postCommitError.getD
      (.mutation "persistent start committed after an abort decision"))))
  | some (.commitUnknown error) =>
    (receipt,.error { PersistentStartFailure.new .commitUnknown error with recovery := true })
  | none =>
    let gone := actorGone receipt
    (gone.1,.error gone.2)

/-- What the owner of a start is told: that it was not staged, or the answer to its
decision. -/
inductive StartReport where
  | unstaged (failure : PersistentStartFailure)
  | commit (completion : PersistentStartCompletion)
  | abort (result : Except PersistentStartFailure Unit)

def answerDecision (receipt : StartReceipt) (message : Option StageCompletion) :
    StageDecision → StartReceipt × StartReport
  | .commit =>
    let answer := commitCompletion receipt message
    (answer.1,.commit answer.2)
  | .abort =>
    let answer := abortCompletion receipt message
    (answer.1,.abort answer.2)

inductive ActorPhase where
  | waiting
  | queued
  | offering (previous : ℤ)
  | awaiting (previous : ℤ)
  | deciding (decision : StageDecision) (previous : ℤ)
  | issued (report : CommitReport) (previous : ℤ)
  | replying (result : StageDriveResult)
  | idle
  | lost

inductive OwnerPhase where
  | fresh
  | waiting
  | refused (failure : StageFailure)
  | holding
  | deciding (decision : StageDecision)
  | answered (report : StartReport)
  | gone

/-- One start between its owner and the actor. `failure` is the latch that fences the
store, `base` the tables as the other commands left them for the start to find. -/
structure StartSystem where
  drive : Drive
  failure : Option String
  actor : ActorPhase
  unresolvedStart : Bool
  owner : OwnerPhase
  base : Database

/-- The outcomes of the drive up to the decision of the owner. -/
structure TakeOutcomes where
  preflight : PreflightOutcomes
  attempts : List StagingAttempt
  admission : AdmissionOutcomes
  restore : Option PersistenceError

/-- The outcomes of the drive after the decision. -/
structure ConcludeOutcomes where
  rollback : Rollback
  classify : ClassifyOutcomes
  restore : Option PersistenceError

inductive StartEvent where
  | stage (delivered : Bool)
  | other (store : StartStore) (latched : Option String)
  | take (o : TakeOutcomes)
  | ready
  | loseReady (rollback : Rollback) (restore : Option PersistenceError)
  | decide (decision : StageDecision)
  | abandon
  | issue (report : CommitReport)
  | conclude (o : ConcludeOutcomes)
  | reply
  | reconcile (o : StartReconcileOutcomes) (lost : Bool)
  | reconcileOther
  | stop (latched : Option String)
  | leave
  | notice

namespace StartSystem

/-- The actor thread is gone, and its connection with it. -/
def lose (s : StartSystem) (store : StartStore) (latched : Option String) : StartSystem :=
  { s with
    drive := { s.drive with store := { store with staged := none } }
    failure := s.failure.or latched
    actor := .lost
    unresolvedStart := false }

def answer (s : StartSystem) (result : Drive × StageDriveResult) : StartSystem :=
  { s with drive := result.1, actor := .replying result.2 }

/-- `stage_start` up to its wait for the staged transaction. -/
def stage (s : StartSystem) (delivered : Bool) : StartSystem :=
  match s.owner, s.failure with
  | .fresh, some message =>
    { s with owner := .answered (.unstaged (.new .notCommitted (.retainedFailure message none))) }
  | .fresh, none =>
    match s.actor, delivered with
    | .waiting, true => { s with owner := .waiting, actor := .queued }
    | _, _ =>
      { s with
        drive := s.drive.decide .notCommitted
        owner := .answered (.unstaged (.new .notCommitted .actorStopped)) }
  | _, _ => s

/-- Another command of the actor. It changes tables only while no failure is latched, and
until the start is taken no other writer uses the new identity of its Run. -/
def other (request : StartRequest) (s : StartSystem) (store : StartStore)
    (latched : Option String) : StartSystem :=
  match s.actor, s.failure with
  | .waiting, none | .queued, none =>
    if FreshRequest request store.durable then
      { s with
        drive := { s.drive with store := store }
        failure := latched
        base := store.durable }
    else s
  | .idle, none => { s with drive := { s.drive with store := store }, failure := latched }
  | _, _ => s

/-- The `StageStart` command of the actor up to the decision of the owner. -/
def take (ctx : StartContext) (request : StartRequest) (s : StartSystem) (o : TakeOutcomes) :
    StartSystem :=
  match s.actor with
  | .queued =>
    match s.failure with
    | some message =>
      s.answer (s.drive.decide .notCommitted,
        .readyFailed ⟨.retainedFailure message none,true,false⟩)
    | none =>
      match preflight ctx request true s.drive o.preflight with
      | .lost store => s.lose store none
      | .finished d result => s.answer (d,result)
      | .next d admitted =>
        match stageUntilReady ctx request admitted.1 d o.attempts o.admission with
        | .lost store => s.lose store none
        | .finished d result => s.answer (restoreSpill ctx admitted.2 o.restore (d,result))
        | .next d () => { s with drive := d, actor := .offering admitted.2 }
  | _ => s

def ready (s : StartSystem) : StartSystem :=
  match s.actor, s.owner with
  | .offering previous, .waiting => { s with actor := .awaiting previous, owner := .holding }
  | _, _ => s

def loseReady (ctx : StartContext) (s : StartSystem) (rollback : Rollback)
    (restore : Option PersistenceError) : StartSystem :=
  match s.actor, s.owner with
  | .offering previous, .gone =>
    s.answer (restoreSpill ctx previous restore (rollbackAfterReadyLoss ctx s.drive rollback))
  | _, _ => s

/-- `commit` or `abort` of the owner up to the answer it waits for. -/
def decide (s : StartSystem) (decision : StageDecision) : StartSystem :=
  match s.owner, s.actor with
  | .holding, .awaiting previous =>
    { s with actor := .deciding decision previous, owner := .deciding decision }
  | .holding, .lost =>
    let answer := answerDecision s.drive.receipt none decision
    { s with drive := { s.drive with receipt := answer.1 }, owner := .answered answer.2 }
  | _, _ => s

/-- The owner dropped its staged start, which the actor takes for an abort. -/
def abandon (s : StartSystem) : StartSystem :=
  match s.actor, s.owner with
  | .awaiting previous, .gone => { s with actor := .deciding .abort previous }
  | _, _ => s

def issue (s : StartSystem) (report : CommitReport) : StartSystem :=
  match s.actor with
  | .deciding .commit previous =>
    { s with drive := issueCommit s.drive report, actor := .issued report previous }
  | _ => s

def conclude (ctx : StartContext) (request : StartRequest) (s : StartSystem)
    (o : ConcludeOutcomes) : StartSystem :=
  match s.actor with
  | .deciding .abort previous =>
    s.answer (restoreSpill ctx previous o.restore (abortStagedStart ctx s.drive o.rollback))
  | .issued report previous =>
    s.answer (restoreSpill ctx previous o.restore
      (concludeCommit ctx request s.drive report o.classify))
  | _ => s

/-- The text that `remember_failure` latches for a result. -/
def latchedText (ctx : StartContext) : StageDriveResult → String
  | .readyFailed failure => ctx.text failure.error
  | .completed (.notCommitted failure) => ctx.text failure.error
  | .completed (.committed postCommitError) => (postCommitError.map ctx.text).getD ""
  | .completed (.commitUnknown error) => ctx.text error

/-- The owner takes the message of the actor, if it still waits for it. -/
def receive (receipt : StartReceipt) (owner : OwnerPhase) (result : StageDriveResult) :
    OwnerPhase :=
  match owner, result with
  | .waiting, .readyFailed failure => .refused failure
  | .deciding decision, .completed completion =>
    .answered (answerDecision receipt (some completion) decision).2
  | owner, _ => owner

/-- `handle_staged_start_result` and the rest of the `StageStart` command. -/
def reply (ctx : StartContext) (s : StartSystem) : StartSystem :=
  match s.actor with
  | .replying result =>
    { s with
      failure := if result.latches then s.failure.or (some (latchedText ctx result)) else s.failure
      owner := receive s.drive.receipt s.owner result
      unresolvedStart := result.unresolved s.drive.receipt.disposition
      actor := .idle }
  | _ => s

/-- `reconcile_transaction` of this start. With `lost` the thread is gone before the
receipt is written. -/
def reconcile (ctx : StartContext) (request : StartRequest) (s : StartSystem)
    (o : StartReconcileOutcomes) (lost : Bool) : StartSystem :=
  match s.actor, s.unresolvedStart, s.drive.store.unresolved with
  | .idle, true, false =>
    match reconcileStart ctx request s.drive o with
    | .lost store => s.lose store none
    | .answered d result =>
      if lost then s.lose d.store none
      else
        match result with
        | .ok true => { s with drive := d, failure := none, unresolvedStart := false }
        | _ => { s with drive := d }
  | _, _, _ => s

/-- `reconcile_transaction` settles the record of another transaction; the latch is
released only when this start is not owed a settlement. -/
def reconcileOther (s : StartSystem) : StartSystem :=
  match s.actor, s.drive.store.unresolved with
  | .waiting, true | .queued, true | .idle, true =>
    { s with
      drive := { s.drive with store := { s.drive.store with staged := none, unresolved := false } }
      failure := if s.unresolvedStart then s.failure else none }
  | _, _ => s

def leave (s : StartSystem) : StartSystem :=
  match s.owner with
  | .answered _ => s
  | _ => { s with owner := .gone }

/-- The owner finds its channel closed, or reads the receipt of a start that was refused. -/
def notice (s : StartSystem) : StartSystem :=
  match s.owner, s.actor with
  | .waiting, .lost =>
    let gone := actorGone s.drive.receipt
    { s with drive := { s.drive with receipt := gone.1 }, owner := .answered (.unstaged gone.2) }
  | .deciding decision, .lost =>
    let answer := answerDecision s.drive.receipt none decision
    { s with drive := { s.drive with receipt := answer.1 }, owner := .answered answer.2 }
  | .refused failure, _ =>
    let disposition := s.drive.receipt.disposition
    { s with owner := .answered (.unstaged { PersistentStartFailure.fromStage disposition failure with
      recovery := disposition = .commitUnknown }) }
  | _, _ => s

def step (ctx : StartContext) (request : StartRequest) (s : StartSystem) : StartEvent → StartSystem
  | .stage delivered => s.stage delivered
  | .other store latched => s.other request store latched
  | .take o => s.take ctx request o
  | .ready => s.ready
  | .loseReady rollback restore => s.loseReady ctx rollback restore
  | .decide decision => s.decide decision
  | .abandon => s.abandon
  | .issue report => s.issue report
  | .conclude o => s.conclude ctx request o
  | .reply => s.reply ctx
  | .reconcile o lost => s.reconcile ctx request o lost
  | .reconcileOther => s.reconcileOther
  | .stop latched => s.lose s.drive.store latched
  | .leave => s.leave
  | .notice => s.notice

end StartSystem

/-- Tables in which the identity of the prepared Run is new. -/
structure StartOrigin (request : StartRequest) where
  db : Database
  fresh : FreshRequest request db

def StartOrigin.system {request : StartRequest} (origin : StartOrigin request) : StartSystem where
  drive := ⟨⟨origin.db,none,false⟩,.pending⟩
  failure := none
  actor := .waiting
  unresolvedStart := false
  owner := .fresh
  base := origin.db

end Durable
end Ctxmux
