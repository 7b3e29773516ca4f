import Ctxmux.InputHandoff
import Ctxmux.StopLedger

/-!
# The handoff manifest

The outgoing image validates the manifest and writes it through a byte-limited writer
while the upgrade can still be abandoned. The incoming image reads it back within a byte
limit and validates it again. How serde_json writes and reads a manifest, how a daemon
epoch is parsed and what the host's sizes are is taken from a host. Byte counts are those
of 64-bit words, and any number of milliseconds in such a word fits a deadline.
-/

namespace Ctxmux
namespace Handoff

open Durable (RunId)
open NativeControl (HandoffInputState HandoffLimits u64Limit)
open Registry (HandoffStopOperation)

abbrev Byte := UInt8
abbrev RawFd := ℤ

def handoffSchema : String := "ctxmux.daemon-handoff.v10"

def i64Max : ℕ := 2^63-1

/-- `tokio::sync::Semaphore::MAX_PERMITS`. -/
def maxPermits : ℕ := (2^64-1)/8

/-- The resolved policy of an owner; `fits` is the range of the host's word. -/
structure ResourceLimits where
  liveRuns : Option ℕ
  retainedRuns : Option ℕ
  hotOutputBytes : ℕ
  liveEventBytes : ℕ
  runOutputBytes : ℕ
  metadataBytes : ℕ
  durableReplayBytes : Option ℕ
  durableRunOutputBytes : Option ℕ
  databaseBytes : Option ℕ
  walCheckpointBytes : ℕ
  handoffBytes : ℕ
  controlStateBytes : ℕ
  diagnosticQueueBytes : ℕ
  diagnosticRecordBytes : ℕ
  creationWorkers : ℕ
  foregroundObservationWorkers : ℕ
  foregroundObservationBytes : ℕ
  foregroundObservationTimeoutMs : ℕ
  inputTurnCommands : ℕ
  inputTurnBytes : ℕ
  stopAdmissionTimeoutMs : ℕ
  cleanupWorkers : ℕ
  finalizeWorkers : ℕ
  inputQueueCommands : ℕ
  inputQueueBytes : ℕ
  inputResultEntries : ℕ
  inputResultBytes : ℕ
  tmuxDiscoveryBytes : ℕ
  fits : inputResultBytes < u64Limit
deriving DecidableEq

/-- The sizes of the host's own records: a Stop record with its cell, a ledger entry of
an input and the envelope of a diagnostic. -/
structure HostSizes where
  stopRecord : ℕ
  inputEntry : ℕ
  envelope : ℕ

def checkedAdd (a b : ℕ) : Option ℕ := if a+b < u64Limit then some (a+b) else none

def checkedMul (a b : ℕ) : Option ℕ := if a*b < u64Limit then some (a*b) else none

def sqlitePageBytes : ℕ := 4096
def walHeaderBytes : ℕ := 32
def walFrameBytes : ℕ := sqlitePageBytes+24
def shmBlockBytes : ℕ := 32768
def shmFrameSlots : ℕ := 4096
def shmFirstFrameSlots : ℕ := 4062

namespace ResourceLimits

variable (limits : ResourceLimits)

def byteCounts : List (String × ℕ) :=
  [("hot_output_bytes",limits.hotOutputBytes),("live_event_bytes",limits.liveEventBytes),
    ("run_output_bytes",limits.runOutputBytes),("metadata_bytes",limits.metadataBytes),
    ("wal_checkpoint_bytes",limits.walCheckpointBytes),("handoff_bytes",limits.handoffBytes),
    ("control_state_bytes",limits.controlStateBytes),
    ("foreground_observation_bytes",limits.foregroundObservationBytes),
    ("diagnostic_queue_bytes",limits.diagnosticQueueBytes),
    ("diagnostic_record_bytes",limits.diagnosticRecordBytes)]

def quotas : List (String × Option ℕ) :=
  [("durable_replay_bytes",limits.durableReplayBytes),
    ("durable_run_output_bytes",limits.durableRunOutputBytes),
    ("database_bytes",limits.databaseBytes)]

def ownerCounts : List (String × ℕ) :=
  [("creation_workers",limits.creationWorkers),
    ("foreground_observation_workers",limits.foregroundObservationWorkers),
    ("input_turn_commands",limits.inputTurnCommands),("input_turn_bytes",limits.inputTurnBytes),
    ("cleanup_workers",limits.cleanupWorkers),("finalize_workers",limits.finalizeWorkers),
    ("input_queue_commands",limits.inputQueueCommands),("input_queue_bytes",limits.inputQueueBytes),
    ("input_result_entries",limits.inputResultEntries),
    ("input_result_bytes",limits.inputResultBytes),
    ("tmux_discovery_bytes",limits.tmuxDiscoveryBytes)]

def checkByteCount (count : String × ℕ) : Except String Unit :=
  if count.2 = 0 ∨ i64Max < count.2 then
    .error s!"{count.1} must fit a positive host/SQLite byte count"
  else .ok ()

def checkQuota (quota : String × Option ℕ) : Except String Unit :=
  if ∃ bytes ∈ quota.2, bytes = 0 ∨ i64Max < bytes then
    .error s!"{quota.1} must fit a positive host/SQLite byte count or null"
  else .ok ()

def checkOwnerCount (count : String × ℕ) : Except String Unit :=
  if count.2 = 0 ∨ maxPermits < count.2 then .error s!"{count.1} must fit a positive owner count"
  else .ok ()

def walBytes : ℕ := limits.walCheckpointBytes*2

def shmBytes : ℕ :=
  let frames := (limits.walBytes-walHeaderBytes)/walFrameBytes
  let additional := frames-shmFirstFrameSlots
  (1+(additional+shmFrameSlots-1)/shmFrameSlots)*shmBlockBytes

def stateFileBytes : Except String (Option ℕ) :=
  let overflow : Except String (Option ℕ) := .error "combined storage budgets overflow"
  match (checkedMul limits.walCheckpointBytes 2).bind fun wal =>
      (checkedAdd wal limits.shmBytes).bind fun bytes => checkedAdd bytes (1024*1024) with
  | none => overflow
  | some fixed =>
    match limits.durableReplayBytes.map (checkedMul · 3) with
    | some none => overflow
    | none =>
      match limits.databaseBytes with
      | none => .ok none
      | some database => if checkedAdd database fixed = none then overflow else .ok none
    | some (some replay) =>
      if ∃ database ∈ limits.databaseBytes, checkedAdd database fixed = none then overflow
      else if checkedAdd replay fixed = none then overflow
      else
        match limits.databaseBytes with
        | none => .ok none
        | some database =>
          match (checkedAdd database replay).bind fun bytes => checkedAdd bytes fixed with
          | none => overflow
          | some bytes => .ok (some bytes)

/-- `diagnostics::validate_limits`. -/
def validateDiagnostics (host : HostSizes) : Except String Unit :=
  if limits.diagnosticRecordBytes = 0 ∨
      ∀ required ∈ checkedAdd limits.diagnosticRecordBytes host.envelope,
        limits.diagnosticQueueBytes < required then
    .error "diagnostic queue must fund one positive-size record and its envelope"
  else .ok ()

def validate (host : HostSizes) : Except String Unit := do
  if limits.liveRuns = some 0 ∨ limits.retainedRuns = some 0 then
    .error "population limits must be positive or null"
  limits.byteCounts.forM checkByteCount
  limits.quotas.forM checkQuota
  if ∃ bytes ∈ limits.databaseBytes, bytes%sqlitePageBytes ≠ 0 then
    .error "database_bytes must be a multiple of the 4096-byte SQLite page"
  if limits.walCheckpointBytes < walHeaderBytes+walFrameBytes then
    .error "wal_checkpoint_bytes must fund a WAL header and page frame"
  limits.ownerCounts.forM checkOwnerCount
  if limits.stopAdmissionTimeoutMs = 0 then
    .error "stop_admission_timeout_ms must fit a positive host deadline"
  if limits.foregroundObservationTimeoutMs = 0 then
    .error "foreground_observation_timeout_ms must fit a positive host deadline"
  limits.validateDiagnostics host
  let _ ← limits.stateFileBytes
  .ok ()

/-- What the input states are validated with. -/
def handoffLimits (host : HostSizes) : HandoffLimits where
  resources := ⟨limits.inputQueueCommands,limits.inputQueueBytes,limits.inputResultEntries,
    limits.inputResultBytes⟩
  controlStateBytes := limits.controlStateBytes
  entryBytes := host.inputEntry
  fits := limits.fits

end ResourceLimits

structure HandoffSocketIdentity where
  device : ℕ
  inode : ℕ
deriving DecidableEq

structure HandoffClosedInput where
  runId : RunId
  inputState : HandoffInputState
deriving DecidableEq

structure HandoffRun where
  runId : RunId
  childPid : ℕ
  masterFd : RawFd
  inputState : HandoffInputState
deriving DecidableEq

structure HandoffManifest where
  schema : String
  epoch : String
  listenerFd : RawFd
  listenerIdentity : HandoffSocketIdentity
  stateLockFd : RawFd
  runs : List HandoffRun
  stopOperations : List HandoffStopOperation
  closedInputs : List HandoffClosedInput
  resources : ResourceLimits
deriving DecidableEq

/-- What is taken from outside: the sizes of the host, the pieces that serde_json writes
for a manifest and what it reads, and the parser of a daemon epoch. -/
structure Host where
  sizes : HostSizes
  encode : HandoffManifest → List (List Byte)
  decode : List Byte → Except String HandoffManifest
  parseEpoch : String → Except String Unit

def newline : Byte := 10

namespace HandoffManifest

/-- The only way in which an image makes a manifest of its own. -/
def configured (epoch : String) (listenerFd : RawFd) (listenerIdentity : HandoffSocketIdentity)
    (stateLockFd : RawFd) (runs : List HandoffRun) (stopOperations : List HandoffStopOperation)
    (closedInputs : List HandoffClosedInput) (resources : ResourceLimits) : HandoffManifest :=
  ⟨handoffSchema,epoch,listenerFd,listenerIdentity,stateLockFd,runs,stopOperations,closedInputs,
    resources⟩

variable (m : HandoffManifest)

def inputStates : List HandoffInputState :=
  m.runs.map (·.inputState) ++ m.closedInputs.map (·.inputState)

def allFds : List RawFd := m.listenerFd::m.stateLockFd::m.runs.map (·.masterFd)

def checkFds (manifestFd : RawFd) : List RawFd → List RawFd → Except String Unit
  | _, [] => .ok ()
  | seen, fd::fds =>
    if fd < 3 ∨ fd = manifestFd ∨ fd ∈ seen then
      .error "handoff descriptors must be non-standard, distinct, and separate from the manifest"
    else checkFds manifestFd (fd::seen) fds

/-- The live Runs; the ids seen are handed on to the closed ones. -/
def checkRuns (limits : HandoffLimits) : List RunId → List HandoffRun → Except String (List RunId)
  | seen, [] => .ok seen
  | seen, handed::runs =>
    if handed.childPid = 0 ∨ handed.runId ∈ seen then
      .error "handoff Runs must have unique ids and non-zero child pids"
    else
      match handed.inputState.validateWithResources limits with
      | .error message => .error message
      | .ok _ => checkRuns limits (handed.runId::seen) runs

def checkClosedInputs (limits : HandoffLimits) :
    List RunId → List HandoffClosedInput → Except String Unit
  | _, [] => .ok ()
  | seen, closed::inputs =>
    if closed.runId ∈ seen then
      .error "handoff closed Input Runs must be unique and separate from live Runs"
    else
      match closed.inputState.validateWithResources limits with
      | .error message => .error message
      | .ok _ => checkClosedInputs limits (closed.runId::seen) inputs

/-- The control bytes of the input states. -/
def inputControlBytes (host : HostSizes) : ℕ :=
  m.inputStates.foldl (fun total input => NativeControl.saturatingAdd total
    (input.controlMemoryBytes (m.resources.handoffLimits host))) 0

def controlBytes (host : HostSizes) : ℕ :=
  NativeControl.saturatingAdd (m.inputControlBytes host)
    (m.stopOperations.map (·.controlMemoryBytes host.stopRecord)).sum

def checkStops : List RunId → List Registry.StopOperationKey → List HandoffStopOperation →
    Except String Unit
  | _, _, [] => .ok ()
  | ids, keys, operation::operations =>
    match operation.validate with
    | .error message => .error message
    | .ok _ =>
      if operation.runId ∈ ids ∨ operation.operationKey ∈ keys then
        .error "handoff native Stop operations must have unique Runs and keys"
      else checkStops (operation.runId::ids) (operation.operationKey::keys) operations

def checkEpoch (host : Host) : Except String Unit :=
  match host.parseEpoch m.epoch with
  | .error error => .error s!"invalid handoff daemon epoch: {error}"
  | .ok _ => .ok ()

def validate (host : Host) (manifestFd : RawFd) : Except String Unit := do
  m.resources.validate host.sizes
  m.checkEpoch host
  checkFds manifestFd [] m.allFds
  let seen ← checkRuns (m.resources.handoffLimits host.sizes) [] m.runs
  checkClosedInputs (m.resources.handoffLimits host.sizes) seen m.closedInputs
  if m.resources.controlStateBytes < m.controlBytes host.sizes then
    .error "handoff control state exceeds the preserved runtime policy"
  checkStops [] [] m.stopOperations

end HandoffManifest

/-- The file so far and the bytes it may still take. -/
structure BoundedWriter where
  inner : List Byte
  remaining : ℕ

/-- How the file answers its writes: a failure, or at most so many bytes taken. -/
abbrev FileWrites := List (Except String ℕ)

namespace BoundedWriter

def write (w : BoundedWriter) (data : List Byte) (taken : Except String ℕ) :
    Except String (ℕ × BoundedWriter) :=
  if w.remaining < data.length then
    .error "handoff exceeds handoff_bytes; upgrade remains reversible"
  else
    match taken with
    | .error error => .error error
    | .ok count =>
      let written := min count data.length
      .ok (written,⟨w.inner ++ data.take written,w.remaining-written⟩)

/-- `write_all`: the rest of a partial write is written again. After the listed answers
the file takes every write whole. -/
def writeAll : FileWrites → BoundedWriter → List Byte → Except String (BoundedWriter × FileWrites)
  | writes, w, [] => .ok (w,writes)
  | [], w, data =>
    match w.write data (.ok data.length) with
    | .error error => .error error
    | .ok (_,w) => .ok (w,[])
  | taken::writes, w, data =>
    match w.write data taken with
    | .error error => .error error
    | .ok (written,w) =>
      if written = 0 then .error "failed to write whole buffer"
      else writeAll writes w (data.drop written)

/-- The pieces of a serialized value, one after another. -/
def writePieces : FileWrites → BoundedWriter → List (List Byte) →
    Except String (BoundedWriter × FileWrites)
  | writes, w, [] => .ok (w,writes)
  | writes, w, piece::pieces =>
    match writeAll writes w piece with
    | .error error => .error error
    | .ok (w,writes) => writePieces writes w pieces

end BoundedWriter

/-- `write_preflight`: the content of the file, if the manifest is accepted. -/
def writePreflight (host : Host) (manifestFd : RawFd) (writes : FileWrites) (m : HandoffManifest) :
    Except String (List Byte) :=
  match m.validate host manifestFd with
  | .error message => .error message
  | .ok _ =>
    match BoundedWriter.writePieces writes ⟨[],m.resources.handoffBytes⟩ (host.encode m) with
    | .error error => .error error
    | .ok (w,writes) =>
      match BoundedWriter.writeAll writes w [newline] with
      | .error error => .error error
      | .ok (w,_) => .ok w.inner

def readManifest (host : Host) (manifestFd : RawFd) (limit : ℕ) (file : List Byte) :
    Except String HandoffManifest :=
  let buffer := file.take (NativeControl.saturatingAdd limit 1)
  if limit < buffer.length then .error "handoff manifest exceeds the preserved byte budget"
  else
    match host.decode buffer with
    | .error error => .error error
    | .ok m =>
      if m.schema ≠ handoffSchema then .error "unknown handoff manifest schema"
      else
        match m.validate host manifestFd with
        | .error message => .error message
        | .ok _ =>
          if m.resources.handoffBytes < buffer.length then
            .error "handoff exceeds its own runtime policy"
          else .ok m

end Handoff
end Ctxmux
