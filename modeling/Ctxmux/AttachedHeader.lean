import Ctxmux.TerminalLog

/-!
# The header of an attachment and its two readers

The daemon reads the terminal continuation and the head of the Run in one lock section
and the first page of the replay in later ones. Both clients check the header before they
use it; the daemon sends the restore bytes in chunks after it.
-/

namespace Ctxmux
namespace Terminal

open Durable (Byte RunId OutputChunk OutputReplay)
open Output (OutputLog)
open Machine

variable {vt : Vt100}

/-- `attachment_replay_page`. The floor and the page are read in two lock sections; the
durable page, if a store is active, is read between them. -/
def attachmentReplayPage (before later : OutputLog) (after through : ℕ)
    (durable : Option OutputReplay) : Option OutputReplay :=
  let floor := before.firstAvailableByte
  let head := min before.latestOutputBytes through
  match durable with
  | some page =>
    if after < floor ∧ page.chunks ≠ [] then some { page with latestOutputBytes := head }
    else later.replayPage after head
  | none => later.replayPage after head

inductive AttachmentView where
  | terminal | raw
deriving DecidableEq,Repr

structure OutputReplayHeader where
  firstAvailableByte : ℕ
  latestOutputBytes : ℕ
  truncated : Bool
deriving DecidableEq,Repr

structure AttachedHeader where
  runId : RunId
  replay : OutputReplayHeader
  terminal : TerminalContinuation
  resizeRevision : ℕ
deriving DecidableEq,Repr

/-- The header, the first chunks of the replay and the restore bytes. -/
structure AttachedSnapshot where
  header : AttachedHeader
  chunks : List OutputChunk
  restore : List Byte
deriving DecidableEq,Repr

/-- The choices of an attachment and of everything that happens between its lock
sections. -/
structure AttachmentInput where
  afterByte : ℕ
  view : AttachmentView
  fault : Bool
  beforeFloor : List OwnedEvent
  beforePage : List OwnedEvent
  durable : Option OutputReplay

namespace TerminalRun

/-- The first lock section. -/
def terminalSection (run : TerminalRun vt) (view : AttachmentView) (fault : Bool) :
    (TerminalContinuation × List Byte) × TerminalRun vt :=
  match view with
  | .terminal =>
    let snapshot := run.output.terminalSnapshot run.id fault
    (snapshot.1,{ run with output := snapshot.2 })
  | .raw => ((.notRequested,[]),run)

def attachmentSnapshot (perRunLimit : ℕ) (start : TerminalRun vt) (input : AttachmentInput) :
    Option AttachedSnapshot := do
  let ((terminal,restore),started) := start.terminalSection input.view input.fault
  let head := started.output.log.latestOutputBytes
  let floored := run (fun run => act run perRunLimit) started input.beforeFloor
  let paged := run (fun run => act run perRunLimit) floored input.beforePage
  let replayStart := match terminal with
    | .basicVt checkpoint _ => checkpoint.throughByte
    | _ => input.afterByte
  let replay ← attachmentReplayPage floored.output.log paged.output.log replayStart head
    input.durable
  let evicted := (terminal matches .basicVt _ _) && decide (replayStart < replay.firstAvailableByte)
  some
    { header :=
        { runId := start.id
          replay := ⟨replay.firstAvailableByte,replay.latestOutputBytes,replay.truncated⟩
          terminal := if evicted then .unavailable .tailEvicted else terminal
          resizeRevision := started.output.resizeRevision }
      chunks := replay.chunks
      restore := if evicted then [] else restore }

end TerminalRun

/-- The frames of `restore.chunks(restore_chunk_bytes)`: an offset and its bytes. -/
def checkpointChunks (chunkBytes : ℕ+) (offset : ℕ) (restore : List Byte) :
    List (ℕ × List Byte) :=
  if restore = [] then []
  else (offset,restore.take chunkBytes)::
    checkpointChunks chunkBytes (offset+chunkBytes) (restore.drop chunkBytes)
termination_by restore.length
decreasing_by
  rename_i h
  have hlength := List.length_pos_of_ne_nil h
  have hchunk := chunkBytes.pos
  simp only [List.length_drop]
  omega

inductive ClientError where
  | protocolContractViolation (message : String)
  | unexpectedFrame (message : String)
  | closed
  | restoreLimit (requestedBytes limitBytes : ℕ)
deriving DecidableEq,Repr

/-- The revision after the resizes, if they continue the checkpoint in order. -/
def checkResizes (latest : ℕ) : (revision position : ℕ) → List TerminalResize →
    Except ClientError ℕ
  | revision, _, [] => .ok revision
  | revision, position, resize::resizes =>
    if resize.resizeRevision ≠ revision+1 || resize.throughByte < position ||
        latest < resize.throughByte || resize.size.isZero then
      .error (.protocolContractViolation "invalid terminal geometry tail")
    else checkResizes latest resize.resizeRevision resize.throughByte resizes

/-- The restore bytes, assembled from the frames that follow the header. -/
def receiveRestore (restoreBytes : ℕ) : List (ℕ × List Byte) → List Byte →
    Except ClientError (List Byte)
  | [], restore => if restore.length < restoreBytes then .error .closed else .ok restore
  | (offset,data)::frames, restore =>
    if restore.length < restoreBytes then
      if offset = restore.length ∧ data ≠ [] ∧ offset+data.length ≤ restoreBytes then
        receiveRestore restoreBytes frames (restore ++ data)
      else .error (.unexpectedFrame "expected ordered synthetic terminal seed")
    else .ok restore

/-- `receive_terminal_seed`: where the replay starts, and the restore bytes. -/
def receiveTerminalSeed (restoreLimit afterByte : ℕ) (header : AttachedHeader)
    (frames : List (ℕ × List Byte)) : Except ClientError (ℕ × List Byte) :=
  match header.terminal with
  | .basicVt checkpoint resizes =>
    if checkpoint.runId ≠ header.runId ||
        header.replay.latestOutputBytes < checkpoint.throughByte ||
        checkpoint.throughByte < header.replay.firstAvailableByte ||
        checkpoint.restoreBytes = 0 || checkpoint.size.isZero || checkpoint.restoreSize.isZero ||
        checkpoint.restoreBytes < checkpoint.resizeAfterRestoreBytes then
      .error (.protocolContractViolation "invalid terminal checkpoint fence")
    else
      match checkResizes header.replay.latestOutputBytes checkpoint.resizeRevision
          checkpoint.throughByte resizes with
      | .error error => .error error
      | .ok revision =>
        if revision ≠ header.resizeRevision then
          .error (.protocolContractViolation "incomplete terminal geometry tail")
        else if restoreLimit < checkpoint.restoreBytes then
          .error (.restoreLimit checkpoint.restoreBytes restoreLimit)
        else
          match receiveRestore checkpoint.restoreBytes frames [] with
          | .error error => .error error
          | .ok restore => .ok (checkpoint.throughByte,restore)
  | _ => .ok (afterByte,[])

/-- `Number.MAX_SAFE_INTEGER`. -/
def maxSafeInteger : ℕ := 2^53-1

/-- The path of a refused value and what was expected there. -/
structure InvalidFrame where
  path : String
  expected : String
deriving DecidableEq,Repr

def validateCursorValue (value : ℕ) (path : String) : Except InvalidFrame Unit :=
  if value ≤ maxSafeInteger then .ok () else .error ⟨path,"a non-negative safe integer cursor"⟩

def safeUnsignedInteger (value : ℕ) (path : String) : Except InvalidFrame Unit :=
  if value ≤ maxSafeInteger then .ok () else .error ⟨path,"a non-negative safe integer"⟩

def unsignedInteger (value : ℕ) (path : String) (maximum minimum : ℕ) : Except InvalidFrame Unit :=
  if minimum ≤ value ∧ value ≤ maximum then .ok ()
  else .error ⟨path,s!"an integer from {minimum} through {maximum}"⟩

/-- The sizes of a continuation are checked to have no zero dimension. -/
def terminalSize (size : TerminalSize) (path : String) : Except InvalidFrame Unit := do
  unsignedInteger size.cols.toNat (path ++ ".cols") 0xffff 1
  unsignedInteger size.rows.toNat (path ++ ".rows") 0xffff 1

/-- The revision after the resizes from the given index on. -/
def checkResizeFrames (path : String) (latest : ℕ) : (index revision throughByte : ℕ) →
    List TerminalResize → Except InvalidFrame ℕ
  | _, revision, _, [] => .ok revision
  | index, revision, throughByte, resize::resizes => do
    let resizePath := path ++ ".resizes[" ++ toString index ++ "]"
    validateCursorValue resize.throughByte (resizePath ++ ".through_byte")
    validateCursorValue resize.resizeRevision (resizePath ++ ".resize_revision")
    terminalSize resize.size (resizePath ++ ".size")
    if resize.resizeRevision ≠ revision+1 || resize.throughByte < throughByte ||
        latest < resize.throughByte then
      .error ⟨resizePath,"contiguous geometry revisions in original byte order"⟩
    else checkResizeFrames path latest (index+1) resize.resizeRevision resize.throughByte resizes

def terminalContinuation (path : String) (header : AttachedHeader) : Except InvalidFrame Unit :=
  match header.terminal with
  | .basicVt checkpoint resizes => do
    validateCursorValue checkpoint.throughByte (path ++ ".checkpoint.through_byte")
    validateCursorValue checkpoint.resizeRevision (path ++ ".checkpoint.resize_revision")
    terminalSize checkpoint.size (path ++ ".checkpoint.size")
    terminalSize checkpoint.restoreSize (path ++ ".checkpoint.restore_size")
    checkpoint.restoreScrollbackRows.elim (.ok ()) fun rows =>
      safeUnsignedInteger rows (path ++ ".checkpoint.restore_scrollback_rows")
    unsignedInteger checkpoint.restoreBytes (path ++ ".checkpoint.restore_bytes") maxSafeInteger 1
    unsignedInteger checkpoint.resizeAfterRestoreBytes
      (path ++ ".checkpoint.resize_after_restore_bytes") checkpoint.restoreBytes 0
    if checkpoint.runId ≠ header.runId ||
        checkpoint.throughByte < header.replay.firstAvailableByte ||
        header.replay.latestOutputBytes < checkpoint.throughByte then
      .error ⟨path,"exact Run and retained original-tail fence"⟩
    else
      let revision ← checkResizeFrames path header.replay.latestOutputBytes 0
        checkpoint.resizeRevision checkpoint.throughByte resizes
      if revision ≠ header.resizeRevision then
        .error ⟨path,"complete acknowledged geometry tail"⟩
      else .ok ()
  | _ => .ok ()

def outputReplayHeader (path : String) (replay : OutputReplayHeader) : Except InvalidFrame Unit := do
  validateCursorValue replay.firstAvailableByte (path ++ ".first_available_byte")
  validateCursorValue replay.latestOutputBytes (path ++ ".latest_output_bytes")

/-- What `attachedHeader` checks before it looks at the continuation. -/
def headerCursors (path : String) (header : AttachedHeader) : Except InvalidFrame Unit := do
  outputReplayHeader (path ++ ".replay") header.replay
  validateCursorValue header.resizeRevision (path ++ ".resize_revision")

def attachedHeader (path : String) (header : AttachedHeader) : Except InvalidFrame Unit := do
  headerCursors path header
  terminalContinuation (path ++ ".terminal") header

end Terminal
end Ctxmux
