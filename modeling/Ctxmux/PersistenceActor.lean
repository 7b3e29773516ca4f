import Ctxmux.ActorQueues
import Ctxmux.Machine

/-!
# The persistence actor

One thread owns the store. It takes lifecycle commands from their own bounded lane, where
every command holds an admission permit until it settles, and appends, barriers and
checkpoints from the append channel. A turn is one pass of its loop up to the point where
it waits; the collection of an append batch, in which it waits for more appends, is one
step per command. Storage results, deadlines and funding are choices of the environment.
-/

namespace Ctxmux
namespace Persist

def lifecycleQueueCapacity : ℕ := 8
def persistenceQueueCapacity : ℕ := 16
def maxTransactionPayloadBytes : ℕ := 1024*1024

/-- A retained transaction of unknown outcome. `terminal` is the Run whose terminal commit
was in fact applied, `start` an authorized start that was not. -/
structure Unresolved where
  retry : Bool
  terminal : Option RunId
  start : Option (RunId × List RunId)
  deriving DecidableEq, Repr

/-- The durable head of each Run that has a row, and the retained transaction. -/
structure Store where
  head : RunId → Option ℕ
  unresolved : Option Unresolved

namespace Store

def reconciliationPending (s : Store) : Bool := s.unresolved.any (·.retry)

def advance (s : Store) (id : RunId) (latest : ℕ) : Store :=
  { s with head := Function.update s.head id ((s.head id).map fun head => max head latest) }

def appendOne (s : Store) (q : Queued) : Store :=
  match q.command with
  | .append id latest _ => s.advance id latest
  | _ => s

def appendBatch (s : Store) (batch : List Queued) : Store := batch.foldl appendOne s

def remove (s : Store) (id : RunId) : Store := { s with head := Function.update s.head id none }

/-- The row of a start replaces the rows of its candidates. -/
def publish (s : Store) (id : RunId) (candidates : List RunId) : Store :=
  let s := candidates.foldl remove s
  { s with head := Function.update s.head id (some 0) }

end Store

/-- What happened, in order: a lifecycle command had a turn, a command was put back on the
pending queue, a Finalize was answered by the reconciled transaction of its Run, a barrier
was answered, a batch was presented to the store or settled, a terminal commit was applied. -/
inductive Entry where
  | carried (serial : ℕ) (finished : Bool)
  | putBack (serial : ℕ)
  | reconciled (serial : ℕ)
  | barrier (serial : ℕ) (ok : Bool)
  | presented (serials : List ℕ)
  | appended (serials : List ℕ)
  | finalized (serial : ℕ)
  deriving DecidableEq, Repr

/-- A batch of appends, and whether it holds the queue credits of a capacity debt. -/
structure Batch where
  held : Bool
  items : List Queued
  deriving DecidableEq, Repr

inductive Phase where
  | top
  | parked
  | collecting (batch : Batch)
  | writing (batch : Batch)
  deriving DecidableEq, Repr

structure Actor where
  slots : ℕ
  overflow : Bool
  waiting : List Command
  lifecycle : List Queued
  credited : ℕ
  appends : List Queued
  phase : Phase
  lifecyclePending : List Queued
  pendingLifecycle : Option Queued
  yielded : Bool
  pending : List Queued
  capacityBlocked : Bool
  capacityDebt : Bool
  capacityProgress : Bool
  failure : Bool
  recoveryRetry : Bool
  queueDepth : ℕ
  store : Store
  exited : Bool
  accepted : ℕ
  admitted : List (ℕ × Command)
  log : List Entry

/-- Eight waiting commands plus one actor turn. -/
def Actor.initial (head : RunId → Option ℕ) : Actor where
  slots := lifecycleQueueCapacity+1
  overflow := false
  waiting := []
  lifecycle := []
  credited := 0
  appends := []
  phase := .top
  lifecyclePending := []
  pendingLifecycle := none
  yielded := false
  pending := []
  capacityBlocked := false
  capacityDebt := false
  capacityProgress := false
  failure := false
  recoveryRetry := false
  queueDepth := 0
  store := ⟨head,none⟩
  exited := false
  accepted := 0
  admitted := []
  log := []

inductive ReconcileOutcome where
  | settled (startCommits : Bool)
  | unsettled
  | transient
  | fatal
  deriving DecidableEq, Repr

inductive IdentityOutcome where
  | valid | transient | fatal
  deriving DecidableEq, Repr

inductive StartOutcome where
  | committed
  | notCommitted (fatal : Bool)
  | unknown (applied : Bool)
  | stopped
  deriving DecidableEq, Repr

inductive RemovalOutcome where
  | removed
  | notRemoved
  | unknown (applied : Bool)
  | stopped
  deriving DecidableEq, Repr

/-- The result of an append or terminal transaction: `page` is one committed maintenance
page, `debt` a proven capacity shortage. -/
inductive WriteOutcome where
  | committed
  | page
  | debt (recheck : Bool)
  | failed
  | unknown (applied : Bool)
  | stopped
  deriving DecidableEq, Repr

inductive IdleOutcome where
  | quiet
  | compacted
  | debt (recheck : Bool)
  | transient (stopped : Bool)
  | failed
  | unknown
  deriving DecidableEq, Repr

/-- What the environment decides in one pass of the loop. -/
structure Env where
  due : Bool
  reconcile : ReconcileOutcome
  identity : IdentityOutcome
  fundingChanged : Bool
  headRead : Bool
  timeout : Bool
  idle : IdleOutcome
  start : StartOutcome
  removal : RemovalOutcome
  finalize : WriteOutcome
  deriving DecidableEq, Repr

structure WriteEnv where
  missingFailed : Bool
  append : WriteOutcome
  deriving DecidableEq, Repr

namespace Actor

def record (a : Actor) (entry : Entry) : Actor := { a with log := a.log ++ [entry] }

/-- A dropped permit returns its slot; a full slot channel refuses it. -/
def returnPermit (a : Actor) (permit : Bool) : Actor :=
  if permit then
    if a.slots < lifecycleQueueCapacity+1 then { a with slots := a.slots+1 }
    else { a with overflow := true }
  else a

def returnPermits (a : Actor) (queue : List Queued) : Actor :=
  queue.foldl (fun a q => a.returnPermit q.permit) a

/-- The actor returns: its queues are dropped with the permits they own. -/
def exit (a : Actor) (current : List Queued) : Actor :=
  let a := a.returnPermits
    (current ++ a.pendingLifecycle.toList ++ a.lifecyclePending ++ a.lifecycle ++ a.pending)
  { a with
    exited := true
    lifecycle := []
    appends := []
    lifecyclePending := []
    pendingLifecycle := none
    pending := []
    phase := .top }

/-- A lifecycle command settles: its caller is answered and its permit dropped. -/
def finish (a : Actor) (q : Queued) : Actor :=
  (a.record (.carried q.serial true)).returnPermit q.permit

/-- A command that keeps its permit is put back on the pending queue. -/
def putBackLast (a : Actor) (q : Queued) : Actor :=
  { a.record (.putBack q.serial) with pending := a.pending ++ [q] }

/-- A Finalize gives up its permit and waits with the debt of its Run. -/
def park (a : Actor) (q : Queued) : Actor :=
  (a.returnPermit q.permit).putBackLast { q with permit := false }

def armRetry (a : Actor) : Actor :=
  if a.store.reconciliationPending && !a.recoveryRetry then
    { a with recoveryRetry := true, capacityBlocked := true }
  else a

def settleQuiet (a : Actor) : Actor :=
  if a.pending.isEmpty && a.queueDepth = 0 && !a.capacityBlocked then
    { a with
      capacityDebt := false
      recoveryRetry := a.recoveryRetry && !a.capacityProgress
      capacityProgress := false }
  else a

def reclaimSlot (a : Actor) : Actor :=
  { a with
    lifecyclePending := a.pendingLifecycle.toList ++ a.lifecyclePending
    pendingLifecycle := none }

/-- The lane takes what the lifecycle channel holds, up to its capacity. -/
def fillLane (a : Actor) : Actor :=
  let room := lifecycleQueueCapacity-a.lifecyclePending.length
  { a with
    lifecyclePending := a.lifecyclePending ++ a.lifecycle.take room
    lifecycle := a.lifecycle.drop room }

/-- A blocked actor takes only what it can answer from its pending queue. -/
def takePending (a : Actor) : Option (Queued × Actor) :=
  if a.capacityBlocked then
    (takeFirst Command.isAnswerable a.pending).map fun r => (r.1,{ a with pending := r.2 })
  else
    match a.pending with
    | q::pending => some (q,{ a with pending := pending })
    | [] => none

def receive (a : Actor) : Option (Queued × Actor) :=
  match a.appends with
  | q::appends => some (q,{ a with appends := appends })
  | [] => none

def choose (a : Actor) : Option (Queued × Actor) :=
  match takeTurn a.lifecyclePending a.yielded with
  | some (q,pending) => some (q,{ a with lifecyclePending := pending })
  | none =>
    match a.takePending with
    | some r => some r
    | none => a.receive

def blockOn (a : Actor) (recheck : Bool) : Actor :=
  { a with
    recoveryRetry := a.recoveryRetry || recheck
    capacityProgress := false
    capacityBlocked := true }

/-- Nothing is queued: one compaction step may run, then the actor waits on its channel. -/
def idle (a : Actor) : IdleOutcome → Actor
  | .quiet => { a with phase := .parked }
  | .compacted => { a with capacityProgress := true }
  | .debt recheck => { a.blockOn recheck with phase := .parked }
  | .transient stopped => if stopped then a.exit [] else a
  | .failed => { a with failure := true, phase := .parked }
  | .unknown =>
    { a with
      failure := true
      store := { a.store with unresolved := some ⟨true,none,none⟩ }
      phase := .parked }

/-- Compaction is attempted only without a failure and without a blocked capacity. -/
def idleTurn (a : Actor) (outcome : IdleOutcome) : Actor :=
  if a.failure || a.capacityBlocked then { a with phase := .parked } else a.idle outcome

/-- The waiting actor is woken by its channel, or by its deadline while it is blocked. -/
def wakeUp (a : Actor) (timeout : Bool) : Option (Queued × Actor) :=
  match a.receive with
  | some r => some r
  | none =>
    if a.capacityBlocked && timeout then
      some (⟨a.accepted,.lifecycleWake,false,false⟩,{ a with accepted := a.accepted+1 })
    else none

/-- Either the pass is over (`continue`), or the command goes on. -/
inductive Pass where
  | ended (a : Actor)
  | goes (a : Actor)

def answerReconciled (a : Actor) (q : Queued) : Actor :=
  (a.record (.reconciled q.serial)).returnPermit q.permit

def settleFinalizes (a : Actor) (id : RunId) : Actor :=
  let settled := (a.pending ++ a.lifecyclePending).filter fun q => q.command.isFinalizeOf id
  let a := settled.foldl answerReconciled a
  { a with
    pending := settleOriginalFinalize a.pending id
    lifecyclePending := settleOriginalFinalize a.lifecyclePending id }

def applyReconciled (s : Store) (startCommits : Bool) : Store :=
  match s.unresolved with
  | some ⟨_,_,some (id,candidates)⟩ =>
    if startCommits then { s.publish id candidates with unresolved := none }
    else { s with unresolved := none }
  | _ => { s with unresolved := none }

/-- The original transaction is settled: its fence and any latched failure are lifted, and
the command of this pass is put back in front. -/
def reconciled (a : Actor) (q : Queued) (startCommits : Bool) : Actor :=
  let terminal := a.store.unresolved.bind (·.terminal)
  let a :=
    { a with
      failure := false
      recoveryRetry := false
      capacityBlocked := false
      capacityProgress := true
      store := applyReconciled a.store startCommits }
  match terminal with
  | some id =>
    let a := a.settleFinalizes id
    if q.command.isFinalizeOf id then a.answerReconciled q
    else { a.record (.putBack q.serial) with pending := q::a.pending }
  | none => { a.record (.putBack q.serial) with pending := q::a.pending }

def reconcileTurn (a : Actor) (env : Env) (q : Queued) : Pass :=
  if a.store.reconciliationPending && a.recoveryRetry && env.due then
    match env.reconcile with
    | .settled startCommits => .ended (a.reconciled q startCommits)
    | .unsettled | .transient => .goes a
    | .fatal =>
      .goes
        { a with
          store := { a.store with
            unresolved := a.store.unresolved.map fun u => { u with retry := false } }
          recoveryRetry := false }
  else .goes a

/-- A Finalize brings the accepted prefix of the append channel under the pending queue. -/
def gatherPrefix (a : Actor) (q : Queued) : Actor :=
  match q.command with
  | .finalize _ _ => { a with pending := a.pending ++ a.appends, appends := [] }
  | _ => a

def checkIdentity (a : Actor) (env : Env) (q : Queued) : Pass :=
  if !a.failure && a.recoveryRetry && env.due then
    match env.identity with
    | .valid => .ended ({ a with recoveryRetry := false, capacityBlocked := false }.putBackLast q)
    | .transient => .goes a
    | .fatal => .goes { a with failure := true, recoveryRetry := false }
  else .goes a

def checkFunding (a : Actor) (env : Env) (q : Queued) : Pass :=
  if !a.failure && !a.recoveryRetry && env.fundingChanged then
    .ended ({ a with capacityBlocked := false }.putBackLast q)
  else .goes a

/-- What must wait behind the debt: an append, and a Finalize whose Run has one queued. -/
def waitBehindDebt (a : Actor) (q : Queued) : Pass :=
  match q.command with
  | .append _ _ _ => .ended (a.putBackLast q)
  | .finalize id _ =>
    if (!a.failure || a.store.reconciliationPending) &&
        a.pending.any fun queued => queued.command.isAppendOf id then .ended (a.park q)
    else .goes a
  | _ => .goes a

def Pass.andThen (p : Pass) (f : Actor → Pass) : Pass :=
  match p with
  | .ended a => .ended a
  | .goes a => f a

def blockedTurn (a : Actor) (env : Env) (q : Queued) : Pass :=
  if a.capacityBlocked then
    ((a.gatherPrefix q).checkIdentity env q).andThen fun a =>
      (a.checkFunding env q).andThen fun a => a.waitBehindDebt q
  else .goes a

/-- The Run's durable head is read and lies before the end of the final replay. -/
def headBehind (a : Actor) (env : Env) (id : RunId) (latest : ℕ) : Bool :=
  env.headRead && (a.store.head id).any fun head => head < latest

/-- A Finalize is set aside for the first append of its Run that is still queued. -/
def requireAppend (a : Actor) (env : Env) (q : Queued) : Queued × Actor :=
  match q.command with
  | .finalize id latest =>
    if !a.capacityBlocked && !a.failure && a.headBehind env id latest then
      match takeRequiredAppend id a.pending a.appends with
      | (some append,pending,appends) =>
        (append,{ a with pending := pending, appends := appends, pendingLifecycle := some q })
      | (none,pending,appends) => (q,{ a with pending := pending, appends := appends })
    else (q,a)
  | _ => (q,a)

def latchUnknown (a : Actor) (unresolved : Unresolved) : Actor :=
  { a with failure := true, store := { a.store with unresolved := some unresolved } }

/-- A candidate that has lost its row may have made room. -/
def checkCandidates (a : Actor) (candidates : List RunId) : Actor :=
  if candidates.any fun candidate => (a.store.head candidate).isNone then
    { a with capacityBlocked := false, capacityProgress := true }
  else a

def stageStart (a : Actor) (q : Queued) (id : RunId) (candidates : List RunId) :
    StartOutcome → Actor
  | .stopped => a.exit [q]
  | .committed =>
    ({ a with store := a.store.publish id candidates }.checkCandidates candidates).finish q
  | .notCommitted fatal =>
    ({ a with failure := a.failure || fatal }.checkCandidates candidates).finish q
  | .unknown true =>
    ({ a with store := a.store.publish id candidates }.latchUnknown ⟨true,none,none⟩).finish q
  | .unknown false => (a.latchUnknown ⟨true,none,some (id,candidates)⟩).finish q

def removeTerminal (a : Actor) (q : Queued) (candidate : RunId) : RemovalOutcome → Actor
  | .stopped => a.exit [q]
  | .removed =>
    ({ a with
      store := a.store.remove candidate
      capacityBlocked := false
      capacityProgress := true }).finish q
  | .notRemoved => a.finish q
  | .unknown applied =>
    ({ a with store := if applied then a.store.remove candidate else a.store }.latchUnknown
      ⟨true,none,none⟩).finish q

/-- The failed terminal transaction goes back to its Run's debt. -/
def retainFailed (a : Actor) (q : Queued) : Actor :=
  { a.park q with capacityDebt := true, capacityBlocked := true, recoveryRetry := false }

/-- A permanent fault answers the caller and keeps the facts without a reply. -/
def retainAnswered (a : Actor) (q : Queued) : Actor :=
  (({ a with failure := true }).record (.carried q.serial true)).retainFailed
    { q with answered := true }

def finalizeTurn (a : Actor) (q : Queued) (id : RunId) (latest : ℕ) : WriteOutcome → Actor
  | .stopped => a.exit [q]
  | .committed =>
    (({ a with
      store := a.store.advance id latest
      capacityBlocked := false
      capacityProgress := true }).record (.finalized q.serial)).finish q
  | .page =>
    { a.record (.carried q.serial false) with
      yielded := true
      lifecyclePending := requeueLifecycleContinuation a.lifecyclePending q }
  | .debt recheck =>
    { ((a.record (.carried q.serial false)).blockOn recheck).park q with capacityDebt := true }
  | .failed => a.retainAnswered q
  | .unknown true =>
    (({ a with store := a.store.advance id latest }.latchUnknown ⟨true,some id,none⟩).record
      (.finalized q.serial)).record (.carried q.serial false) |>.retainFailed q
  | .unknown false =>
    ((a.latchUnknown ⟨true,none,none⟩).record (.carried q.serial false)).retainFailed q

def startBatch (a : Actor) (q : Queued) : Actor :=
  { a with
    queueDepth := if a.capacityDebt then a.queueDepth else a.queueDepth-1
    phase := .collecting ⟨a.capacityDebt,[q]⟩ }

def answerBarrier (a : Actor) (q : Queued) : Actor :=
  a.record (.barrier q.serial (!a.failure && !a.capacityBlocked))

def execute (a : Actor) (env : Env) (q : Queued) : Actor :=
  match q.command with
  | .readReplay _ => a.finish q
  | .lifecycleWake | .terminalCheckpoint _ => a
  | .stageStart id candidates =>
    if a.failure then a.finish q else a.stageStart q id candidates env.start
  | .removeTerminal candidate =>
    if a.failure then a.finish q else a.removeTerminal q candidate env.removal
  | .append _ _ _ => a.startBatch q
  | .finalize id latest =>
    if a.store.reconciliationPending then a.park q
    else if a.failure then a.retainAnswered q
    else a.finalizeTurn q id latest env.finalize
  | .barrier => a.answerBarrier q
  | .shutdown => a.exit [q]

/-- The pass of the loop from the chosen command on. -/
def pass (a : Actor) (env : Env) (q : Queued) : Actor :=
  let a := { a with yielded := false, phase := .top }
  match (a.reconcileTurn env q).andThen fun a => a.blockedTurn env q with
  | .ended a => a
  | .goes a =>
    let r := a.requireAppend env q
    r.2.execute env r.1

def turn (a : Actor) (env : Env) : Actor :=
  match a.phase with
  | .top =>
    let a := a.armRetry.settleQuiet.reclaimSlot.fillLane
    match a.choose with
    | some (q,a) => a.pass env q
    | none => a.idleTurn env.idle
  | .parked =>
    match a.wakeUp env.timeout with
    | some (q,a) => a.pass env q
    | none => a
  | _ => a

def payload (batch : List Queued) : ℕ :=
  (batch.map fun q => match q.command with | .append _ _ payload => payload | _ => 0).sum

/-- The next append joins the batch while it fits; anything else is put in front. -/
def joinBatch (a : Actor) (batch : Batch) (q : Queued) : Actor :=
  match q.command with
  | .append _ _ bytes =>
    if payload batch.items+bytes ≤ maxTransactionPayloadBytes then
      { a with
        queueDepth := if batch.held then a.queueDepth else a.queueDepth-1
        phase := .collecting { batch with items := batch.items ++ [q] } }
    else { a with pending := q::a.pending, phase := .writing batch }
  | _ => { a with pending := q::a.pending, phase := .writing batch }

/-- The append that a set-aside Finalize still needs, of the Run the batch began with. -/
def gatherRequired (a : Actor) (batch : Batch) (id : RunId) : Actor :=
  if (batch.items.head?.any fun q => q.command.isAppendOf id) then
    match takeRequiredAppend id a.pending a.appends with
    | (some q,pending,appends) => { a with pending := pending, appends := appends }.joinBatch batch q
    | (none,pending,appends) =>
      { a with pending := pending, appends := appends, phase := .writing batch }
  else { a with phase := .writing batch }

def gatherNext (a : Actor) (batch : Batch) (expired : Bool) : Actor :=
  if expired then { a with phase := .writing batch }
  else
    match a.pending with
    | q::pending => { a with pending := pending }.joinBatch batch q
    | [] =>
      match a.appends with
      | q::appends => { a with appends := appends }.joinBatch batch q
      | [] => a

/-- One iteration of the collection of a batch. -/
def collect (a : Actor) (expired : Bool) : Actor :=
  match a.phase with
  | .collecting batch =>
    if maxTransactionPayloadBytes ≤ payload batch.items || !a.lifecyclePending.isEmpty then
      { a with phase := .writing batch }
    else
      match a.pendingLifecycle, a.lifecycle with
      | none, q::lifecycle =>
        { a with pendingLifecycle := some q, lifecycle := lifecycle, phase := .writing batch }
      | some q, _ =>
        match q.command with
        | .finalize id _ => a.gatherRequired batch id
        | _ => { a with phase := .writing batch }
      | none, [] => a.gatherNext batch expired
  | _ => a

def serials (queue : List Queued) : List ℕ := queue.map (·.serial)

/-- The accepted bytes of a batch stay with the actor, in front and with their credits. -/
def retainBatch (a : Actor) (batch : Batch) : Actor :=
  { a with
    queueDepth := if batch.held then a.queueDepth else a.queueDepth+batch.items.length
    capacityDebt := true
    pending := batch.items ++ a.pending
    phase := .top }

def failBatch (a : Actor) (batch : Batch) : Actor :=
  { a.retainBatch batch with failure := true, capacityBlocked := true, recoveryRetry := false }

def settleBatch (a : Actor) (batch : Batch) : Actor :=
  { a.record (.appended (serials batch.items)) with
    store := a.store.appendBatch batch.items
    capacityProgress := true
    queueDepth := if batch.held then a.queueDepth-batch.items.length else a.queueDepth
    phase := .top }

def writeBatch (a : Actor) (batch : Batch) : WriteOutcome → Actor
  | .stopped => a.exit []
  | .committed => a.settleBatch batch
  | .page =>
    { a.retainBatch batch with yielded := a.pendingLifecycle.isSome }
  | .debt recheck => (a.blockOn recheck).retainBatch batch
  | .failed => a.failBatch batch
  | .unknown applied =>
    ({ a with store := if applied then a.store.appendBatch batch.items else a.store }.latchUnknown
      ⟨true,none,none⟩).failBatch batch

/-- The batch is presented to the store, unless a failure is latched. -/
def write (a : Actor) (env : WriteEnv) : Actor :=
  match a.phase with
  | .writing batch =>
    let a := { a with failure := a.failure || (a.capacityDebt && env.missingFailed) }
    if a.failure then a.failBatch batch
    else (a.record (.presented (serials batch.items))).writeBatch batch env.append
  | _ => a

inductive Event where
  | acquire (command : Command)
  | enter (index : ℕ)
  | abandon (index : ℕ)
  | wake
  | credit
  | append (id : RunId) (latest payload : ℕ)
  | refused
  | send (command : Command)
  | turn (env : Env)
  | collect (expired : Bool)
  | write (env : WriteEnv)

/-- A sender takes a slot before it may wait for room in the lifecycle channel. -/
def acquire (a : Actor) (command : Command) : Actor :=
  if command.isLifecycle && 0 < a.slots then
    { a with slots := a.slots-1, waiting := a.waiting ++ [command] }
  else a

def enter (a : Actor) (index : ℕ) : Actor :=
  match a.waiting[index]? with
  | some command =>
    if a.lifecycle.length < lifecycleQueueCapacity then
      { a with
        waiting := a.waiting.eraseIdx index
        lifecycle := a.lifecycle ++ [⟨a.accepted,command,true,false⟩]
        accepted := a.accepted+1
        admitted := a.admitted ++ [(a.accepted,command)] }
    else a
  | none => a

/-- A waiting sender gives up, and its permit with it. -/
def abandon (a : Actor) (index : ℕ) : Actor :=
  match a.waiting[index]? with
  | some _ => { a with waiting := a.waiting.eraseIdx index }.returnPermit true
  | none => a

/-- A command enters the append channel while there is room. -/
def enqueue (a : Actor) (command : Command) : Actor :=
  if a.appends.length < persistenceQueueCapacity then
    { a with
      appends := a.appends ++ [⟨a.accepted,command,false,false⟩]
      accepted := a.accepted+1 }
  else a

def credit (a : Actor) : Actor :=
  if !a.failure && a.queueDepth < persistenceQueueCapacity then
    { a with queueDepth := a.queueDepth+1, credited := a.credited+1 }
  else a

def appendSend (a : Actor) (command : Command) : Actor :=
  if 0 < a.credited && a.appends.length < persistenceQueueCapacity then
    { a with credited := a.credited-1 }.enqueue command
  else a

def refuse (a : Actor) : Actor :=
  if 0 < a.credited then { a with credited := a.credited-1, queueDepth := a.queueDepth-1 } else a

def step (a : Actor) : Event → Actor
  | .acquire command => if a.exited then a else a.acquire command
  | .enter index => if a.exited then a else a.enter index
  | .abandon index => a.abandon index
  | .wake => if a.exited then a else a.enqueue .lifecycleWake
  | .credit => if a.exited then a else a.credit
  | .append id latest bytes => if a.exited then a else a.appendSend (.append id latest bytes)
  | .refused => a.refuse
  | .send command =>
    if a.exited || command.isLifecycle || command.isAppend then a else a.enqueue command
  | .turn env => if a.exited then a else a.turn env
  | .collect expired => if a.exited then a else a.collect expired
  | .write env => if a.exited then a else a.write env

def run (a : Actor) (es : List Event) : Actor := Machine.run step a es

end Actor
end Persist
end Ctxmux
