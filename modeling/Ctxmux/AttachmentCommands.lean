import Ctxmux.ClientControl
import Ctxmux.Machine
import Ctxmux.MapTotals

/-!
# Attachment commands

The command table of a client attachment and the connection around it: the call
that holds the issue lock between registering a command and queueing it, the writer
queue, the reader, and the result channels. Every place where another task can run
is a step of its own, so a peer may answer a command that is not yet sent, and the
attachment may be terminated or detached while a call is issuing.
-/

namespace Ctxmux
namespace Client

open MapTotals

def maxPendingCommands : ℕ := 64
def maxPendingInputCommands : ℕ := 32
def maxPendingInputBytes : ℕ := 1024*1024
def u32Max : ℕ := 2^32-1

structure PendingCommand where
  kind : PendingKind
  resultTx : ℕ
  deriving DecidableEq, Repr

inductive AttachmentEnd where
  | detached | terminated
  deriving DecidableEq, Repr

structure AttachmentState where
  nextCommandId : ℕ
  fence : Option AttachmentUnavailableReason
  detaching : Bool
  ended : Option AttachmentEnd
  pending : AList fun _ : ℕ => PendingCommand
  pendingInputs : ℕ
  pendingInputBytes : ℕ

def AttachmentState.default : AttachmentState where
  nextCommandId := 1
  fence := none
  detaching := false
  ended := none
  pending := ∅
  pendingInputs := 0
  pendingInputBytes := 0

/-- Why a registered command was not handed to the writer. -/
inductive UnsentSource where
  | frame | closed
  deriving DecidableEq, Repr

inductive ClientError where
  | attachmentUnavailable (reason : AttachmentUnavailableReason)
  | attachmentBackpressure (limit : String)
  | controlNotApplied (source : UnsentSource)
  deriving DecidableEq, Repr

/-- Every check of `register_command` that a refused command can fail, in its order. -/
def AttachmentState.refusal (s : AttachmentState) (observationUnavailable : Bool)
    (kind : PendingKind) : Option ClientError :=
  if s.ended.isSome then some (.attachmentUnavailable .closed)
  else match s.fence with
  | some reason => some (.attachmentUnavailable reason)
  | none =>
    if observationUnavailable then some (.attachmentUnavailable .observationUnavailable)
    else if s.pending.entries.length = maxPendingCommands then
      some (.attachmentBackpressure "64 unresolved commands")
    else if kind.isInput ∧ s.pendingInputs = maxPendingInputCommands then
      some (.attachmentBackpressure "32 unresolved input commands")
    else if s.pendingInputBytes+kind.inputBytes > maxPendingInputBytes then
      some (.attachmentBackpressure "1 MiB unresolved input data")
    else none

/-- The table after a command took the next id. -/
def AttachmentState.registered (s : AttachmentState) (kind : PendingKind) (resultTx : ℕ) :
    AttachmentState :=
  { s with
    fence := if s.nextCommandId = u32Max then some .commandIdsExhausted else s.fence
    nextCommandId := if s.nextCommandId = u32Max then s.nextCommandId else s.nextCommandId+1
    pendingInputs := s.pendingInputs+(if kind.isInput then 1 else 0)
    pendingInputBytes := s.pendingInputBytes+kind.inputBytes
    pending := s.pending.insert s.nextCommandId ⟨kind,resultTx⟩ }

def registerCommand (s : AttachmentState) (observationUnavailable : Bool) (kind : PendingKind)
    (resultTx : ℕ) : Except ClientError (ℕ × AttachmentState) :=
  match s.refusal observationUnavailable kind with
  | some error => .error error
  | none => .ok (s.nextCommandId,s.registered kind resultTx)

def releasePendingCapacity (s : AttachmentState) (kind : PendingKind) : AttachmentState :=
  if kind.isInput then
    { s with
      pendingInputs := s.pendingInputs-1
      pendingInputBytes := s.pendingInputBytes-kind.inputBytes }
  else s

/-- The table without one command and with the capacity of that command back. -/
def AttachmentState.removed (s : AttachmentState) (id : ℕ) (pending : PendingCommand) :
    AttachmentState :=
  releasePendingCapacity { s with pending := s.pending.erase id } pending.kind

def resolveCommand (s : AttachmentState) (id : ℕ) (outcome : ControlOutcome) :
    Except String (AttachmentState × ℕ × PendingResolution) :=
  match s.pending.lookup id with
  | none => .error "command result names an unknown or completed ID"
  | some pending => do
    let resolution ← resolution pending.kind outcome
    .ok (s.removed id pending,pending.resultTx,resolution)

def cancelUnsentCommand (s : AttachmentState) (id : ℕ) : AttachmentState :=
  match s.pending.lookup id with
  | none => s
  | some pending =>
    let s := s.removed id pending
    if id = u32Max then
      { s with fence := if s.fence = some .commandIdsExhausted then none else s.fence }
    else { s with nextCommandId := id }

def beginDetach (s : AttachmentState) : Except ClientError AttachmentState :=
  if s.ended.isSome then .error (.attachmentUnavailable .closed)
  else .ok { s with fence := some .detaching, detaching := true }

def finishDetach (s : AttachmentState) : Except String AttachmentState :=
  if s.detaching = false then
    .error "daemon acknowledged a detach the client did not request"
  else if s.pending.entries ≠ [] then
    .error "daemon acknowledged detach while commands were unresolved"
  else .ok { s with ended := some .detached, fence := some .closed }

/-- The terminated table and the result channels that must learn of it. -/
def terminate (s : AttachmentState) : AttachmentState × List ℕ :=
  if s.ended.isSome then (s,[])
  else
    ({ s with
        ended := some .terminated
        fence := some .closed
        pendingInputs := 0
        pendingInputBytes := 0
        pending := ∅ },
      s.pending.entries.map fun entry => entry.2.resultTx)

/-- What the task that holds the issue lock has still to do. -/
inductive IssuePhase where
  | idle
  | registered (resultTx id : ℕ)
  | closing (resultTx : ℕ)
  deriving DecidableEq, Repr

/-- The reader stops after a frame it cannot accept, and terminates the attachment. -/
inductive ReaderPhase where
  | reading | violated | stopped
  deriving DecidableEq, Repr

inductive WriterCommand where
  | control (id resultTx : ℕ)
  | detach
  deriving DecidableEq, Repr

/-- The attachment with its tasks. `admitted` records the commands that entered the
writer queue, `resolutions` what was sent on the result channels and `refusals` what
`issue_command` itself returned. -/
structure Connection where
  state : AttachmentState
  observationUnavailable : Bool
  issue : IssuePhase
  calls : ℕ
  queue : List WriterCommand
  writerClosed : Bool
  wire : List WriterCommand
  reader : ReaderPhase
  admitted : List (ℕ × ℕ)
  resolutions : List (ℕ × PendingResolution)
  refusals : List (ℕ × ClientError)
  abandoned : List ℕ

def Connection.initial : Connection where
  state := .default
  observationUnavailable := false
  issue := .idle
  calls := 0
  queue := []
  writerClosed := false
  wire := []
  reader := .reading
  admitted := []
  resolutions := []
  refusals := []
  abandoned := []

inductive Event where
  | issue (kind : PendingKind)
  | encodeFailed
  | trySend
  | terminateClosed
  | abandon (resultTx : ℕ)
  | observationLost
  | commandResult (id : ℕ) (outcome : ControlOutcome)
  | detachedFrame
  | otherViolation
  | readerTerminates
  | beginDetach
  | queueDetach
  | write
  | writeFailed
  | writerGone
  | terminate (reason : AttachmentUnknownReason)
  deriving DecidableEq, Repr

namespace Connection

/-- `issue_command` up to the registration, with the issue lock just taken. -/
def issueCommand (c : Connection) (kind : PendingKind) : Connection :=
  match c.issue with
  | .registered _ _ | .closing _ => c
  | .idle =>
    let c' := { c with calls := c.calls+1 }
    match registerCommand c.state c.observationUnavailable kind c.calls with
    | .error error => { c' with refusals := c.refusals ++ [(c.calls,error)] }
    | .ok (id,state) => { c' with state := state, issue := .registered c.calls id }

/-- The issuing call gives its command up and returns the error. -/
def refuse (c : Connection) (resultTx id : ℕ) (error : ClientError) : Connection :=
  { c with
    state := cancelUnsentCommand c.state id
    issue := .idle
    refusals := c.refusals ++ [(resultTx,error)] }

def encodeFailed (c : Connection) : Connection :=
  match c.issue with
  | .registered resultTx id => c.refuse resultTx id (.controlNotApplied .frame)
  | .idle | .closing _ => c

/-- `try_send` on the writer channel and what `issue_command` does with its answer. -/
def trySend (c : Connection) : Connection :=
  match c.issue with
  | .idle | .closing _ => c
  | .registered resultTx id =>
    if c.writerClosed then
      { c with state := cancelUnsentCommand c.state id, issue := .closing resultTx }
    else if c.queue.length = maxPendingCommands then
      c.refuse resultTx id (.attachmentBackpressure "64 queued writer commands")
    else
      { c with
        queue := c.queue ++ [.control id resultTx]
        admitted := c.admitted ++ [(id,resultTx)]
        issue := .idle }

def terminateWith (c : Connection) (reason : AttachmentUnknownReason) : Connection :=
  { c with
    state := (terminate c.state).1
    resolutions :=
      c.resolutions ++ (terminate c.state).2.map fun resultTx => (resultTx,.unknown reason) }

def terminateClosed (c : Connection) : Connection :=
  match c.issue with
  | .closing resultTx =>
    { c.terminateWith .transportTerminated with
      issue := .idle
      refusals := c.refusals ++ [(resultTx,.controlNotApplied .closed)] }
  | .idle | .registered _ _ => c

/-- The caller stops waiting: a call is never dropped between its registration and
its answer from the writer channel, where it does not await. -/
def abandon (c : Connection) (resultTx : ℕ) : Connection :=
  match c.issue with
  | .registered issuing _ | .closing issuing =>
    if issuing = resultTx then c else { c with abandoned := c.abandoned ++ [resultTx] }
  | .idle => { c with abandoned := c.abandoned ++ [resultTx] }

def commandResult (c : Connection) (id : ℕ) (outcome : ControlOutcome) : Connection :=
  if c.reader ≠ .reading then c
  else match resolveCommand c.state id outcome with
  | .error _ => { c with reader := .violated }
  | .ok (state,resultTx,resolution) =>
    { c with state := state, resolutions := c.resolutions ++ [(resultTx,resolution)] }

def detachedFrame (c : Connection) : Connection :=
  if c.reader ≠ .reading then c
  else match finishDetach c.state with
  | .error _ => { c with reader := .violated }
  | .ok state => { c with state := state, reader := .stopped }

def readerTerminates (c : Connection) : Connection :=
  if c.reader = .violated then
    { c.terminateWith .protocolViolation with reader := .stopped }
  else c

/-- `detach` queues its frame after it saw an empty command table. -/
def queueDetach (c : Connection) : Connection :=
  if c.state.detaching ∧ c.state.pending.entries = [] ∧ c.writerClosed = false ∧
      c.queue.length ≠ maxPendingCommands then
    { c with queue := c.queue ++ [.detach] }
  else c

def write (c : Connection) : Connection :=
  match c.queue with
  | [] => c
  | command::queue => { c with queue := queue, wire := c.wire ++ [command] }

def writeFailed (c : Connection) : Connection :=
  match c.queue with
  | [] => c
  | _::queue => { c.terminateWith .transportTerminated with queue := queue }

def step (c : Connection) : Event → Connection
  | .issue kind => c.issueCommand kind
  | .encodeFailed => c.encodeFailed
  | .trySend => c.trySend
  | .terminateClosed => c.terminateClosed
  | .abandon resultTx => c.abandon resultTx
  | .observationLost => { c with observationUnavailable := true }
  | .commandResult id outcome => c.commandResult id outcome
  | .detachedFrame => c.detachedFrame
  | .otherViolation => if c.reader = .reading then { c with reader := .violated } else c
  | .readerTerminates => c.readerTerminates
  | .beginDetach =>
    match Client.beginDetach c.state with
    | .error _ => c
    | .ok state => { c with state := state }
  | .queueDetach => c.queueDetach
  | .write => c.write
  | .writeFailed => c.writeFailed
  | .writerGone => { c with writerClosed := true, queue := [] }
  | .terminate reason => c.terminateWith reason

def run (c : Connection) (es : List Event) : Connection := Machine.run step c es

end Connection
end Client
end Ctxmux
