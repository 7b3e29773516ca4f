import Ctxmux.AttachedHeader
import Ctxmux.FrameLoops

/-!
# The replay of an attachment, assembled by its two clients

Both clients take the restore bytes of a terminal seed and then the output up to the head
that the header names. A window moves the floor of a raw replay forward and drops what was
taken so far. The SDK checks every frame before it looks at it.
-/

namespace Ctxmux
namespace Terminal

open Durable (Byte RunId OutputChunk OutputReplay)
open Frames

/-- What the replay reads of a Run, and the other fields of its description. -/
structure RunInfo (Info : Type) where
  id : RunId
  firstAvailableByte : ℕ
  info : Info
deriving DecidableEq,Repr

structure AttachedFrame (Info : Type) where
  run : RunInfo Info
  replay : OutputReplayHeader
  terminal : TerminalContinuation
  resizeRevision : ℕ
deriving DecidableEq,Repr

variable {Info : Type}

def AttachedFrame.header (frame : AttachedFrame Info) : AttachedHeader :=
  ⟨frame.run.id,frame.replay,frame.terminal,frame.resizeRevision⟩

/-- The snapshot that a client returns. -/
structure ReplaySnapshot (Info : Type) where
  run : RunInfo Info
  terminal : TerminalContinuation
  terminalRestore : List Byte
  resizeRevision : ℕ
  replay : OutputReplay
deriving DecidableEq,Repr

/-- A frame of the daemon. An event other than output and a frame of another kind have
only their type. -/
inductive ServerFrame where
  | output (chunk : OutputChunk)
  | event
  | replayWindow (firstAvailableByte latestOutputBytes : ℕ)
  | terminalCheckpointChunk (offset : ℕ) (data : List Byte)
  | error (message : String)
  | other (type : String)
deriving DecidableEq,Repr

namespace ServerFrame

def type : ServerFrame → String
  | .output _ => "event"
  | .event => "event"
  | .replayWindow _ _ => "replay_window"
  | .terminalCheckpointChunk _ _ => "terminal_checkpoint_chunk"
  | .error _ => "error"
  | .other type => type

/-- The floor that a window moves a replay to. -/
def windowFloor : ServerFrame → Option ℕ
  | .replayWindow firstAvailableByte _ => some firstAvailableByte
  | _ => none

end ServerFrame

namespace Client

/-- A refusal of the client, or an error that the daemon sent. -/
inductive ReceiveError where
  | client (error : ClientError)
  | daemon (message : String)
deriving DecidableEq,Repr

/-- The snapshot that `attach_with_view` starts from. -/
def ofAttached (frame : AttachedFrame Info) : ReplaySnapshot Info where
  run := frame.run
  terminal := frame.terminal
  terminalRestore := []
  resizeRevision := frame.resizeRevision
  replay := ⟨[],frame.replay.firstAvailableByte,frame.replay.latestOutputBytes,
    frame.replay.truncated⟩

/-- The fence of a checkpoint and its geometry tail. -/
def checkTerminalSeed (runId : RunId) (firstAvailableByte latestOutputBytes resizeRevision : ℕ)
    (checkpoint : TerminalCheckpointHeader) (resizes : List TerminalResize) :
    Except ClientError Unit :=
  if checkpoint.runId ≠ runId || latestOutputBytes < checkpoint.throughByte ||
      checkpoint.throughByte < firstAvailableByte || checkpoint.restoreBytes = 0 ||
      checkpoint.size.isZero || checkpoint.restoreSize.isZero ||
      checkpoint.restoreBytes < checkpoint.resizeAfterRestoreBytes then
    .error (.protocolContractViolation "invalid terminal checkpoint fence")
  else
    match checkResizes latestOutputBytes checkpoint.resizeRevision checkpoint.throughByte
        resizes with
    | .error error => .error error
    | .ok revision =>
      if revision ≠ resizeRevision then
        .error (.protocolContractViolation "incomplete terminal geometry tail")
      else .ok ()

/-- One turn of the loop that takes the restore bytes. -/
def restoreFrame (restoreBytes : ℕ) (restore : List Byte) :
    ServerFrame → Except ReceiveError (List Byte)
  | .terminalCheckpointChunk offset data =>
    if offset = restore.length ∧ data ≠ [] ∧ offset+data.length ≤ restoreBytes then
      .ok (restore ++ data)
    else .error (.client (.unexpectedFrame "expected ordered synthetic terminal seed"))
  | .error message => .error (.daemon message)
  | _ => .error (.client (.unexpectedFrame "expected ordered synthetic terminal seed"))

/-- `receive_terminal_seed`: where the replay starts, and the snapshot with its restore
bytes. -/
def receiveTerminalSeed (afterByte : ℕ) (snapshot : ReplaySnapshot Info) (restoreLimit : ℕ)
    (frames : List ServerFrame) : Received ServerFrame ReceiveError (ℕ×ReplaySnapshot Info) :=
  match snapshot.terminal with
  | .basicVt checkpoint resizes =>
    match checkTerminalSeed snapshot.run.id snapshot.replay.firstAvailableByte
        snapshot.replay.latestOutputBytes snapshot.resizeRevision checkpoint resizes with
    | .error error => (.error (.client error),frames)
    | .ok () =>
      if restoreLimit < checkpoint.restoreBytes then
        (.error (.client (.restoreLimit checkpoint.restoreBytes restoreLimit)),frames)
      else
        next (whileReceive (fun restore => decide (restore.length < checkpoint.restoreBytes))
            (restoreFrame checkpoint.restoreBytes) (.client .closed) snapshot.terminalRestore
            frames)
          fun restore rest =>
            (.ok (checkpoint.throughByte,{ snapshot with terminalRestore := restore }),rest)
  | _ => (.ok (afterByte,snapshot),frames)

/-- One turn of the loop that takes the output, and whether it completes the replay. -/
def replayFrame (state : ReplaySnapshot Info×ℕ) :
    ServerFrame → Except ReceiveError ((ReplaySnapshot Info×ℕ)×Bool)
  | .output chunk =>
    let (snapshot,expectedByte) := state
    let latest := snapshot.replay.latestOutputBytes
    if chunk.startByte = expectedByte ∧ chunk.startByte < chunk.endByte ∧
        chunk.endByte ≤ latest ∧ chunk.endByte-chunk.startByte = chunk.data.length then
      let replay := { snapshot.replay with chunks := snapshot.replay.chunks ++ [chunk] }
      .ok (({ snapshot with replay := replay },chunk.endByte),decide (chunk.endByte = latest))
    else .error (.client (.unexpectedFrame "expected ordered replay output"))
  | .replayWindow firstAvailableByte latestOutputBytes =>
    let (snapshot,expectedByte) := state
    if latestOutputBytes = snapshot.replay.latestOutputBytes ∧
        expectedByte < firstAvailableByte ∧ firstAvailableByte ≤ latestOutputBytes then
      if snapshot.terminal matches .basicVt _ _ then
        .error (.client (.protocolContractViolation
          "terminal checkpoint original tail was evicted during replay"))
      else
        let replay := { snapshot.replay with
          chunks := []
          firstAvailableByte := firstAvailableByte
          truncated := true }
        let run := { snapshot.run with firstAvailableByte := firstAvailableByte }
        .ok (({ snapshot with run := run, replay := replay },firstAvailableByte),
          decide (firstAvailableByte = latestOutputBytes))
    else .error (.client (.unexpectedFrame "expected ordered replay output"))
  | .error message => .error (.daemon message)
  | _ => .error (.client (.unexpectedFrame "expected ordered replay output"))

/-- `receive_replay` after the terminal seed. -/
def receiveTail (afterByte : ℕ) (snapshot : ReplaySnapshot Info) (frames : List ServerFrame) :
    Received ServerFrame ReceiveError (ReplaySnapshot Info) :=
  let latest := snapshot.replay.latestOutputBytes
  let last := snapshot.replay.chunks.getLast?
  if last.any (fun chunk => decide (chunk.endByte = latest)) ||
      (snapshot.replay.chunks.isEmpty && decide (latest ≤ afterByte)) then (.ok snapshot,frames)
  else
    let expectedByte := last.elim (max afterByte snapshot.replay.firstAvailableByte)
      fun chunk => chunk.endByte
    if latest ≤ expectedByte then (.ok snapshot,frames)
    else
      next (loopReceive replayFrame (.client .closed) (snapshot,expectedByte) frames)
        fun state rest => (.ok state.1,rest)

/-- `receive_replay` of the Rust client. -/
def receiveReplay (afterByte : ℕ) (snapshot : ReplaySnapshot Info) (restoreLimit : ℕ)
    (frames : List ServerFrame) : Received ServerFrame ReceiveError (ReplaySnapshot Info) :=
  next (receiveTerminalSeed afterByte snapshot restoreLimit frames)
    fun seeded rest => receiveTail seeded.1 seeded.2 rest

end Client

namespace Sdk

inductive ReceiveError where
  | invalidFrame (error : InvalidFrame)
  | protocol (message : String)
  | unexpected (expected actual : String)
  | restoreLimit (requestedBytes limitBytes : ℕ)
  | closed
deriving DecidableEq,Repr

def outputChunk (path : String) (chunk : OutputChunk) : Except InvalidFrame Unit := do
  validateCursorValue chunk.startByte (path ++ ".start_byte")
  validateCursorValue chunk.endByte (path ++ ".end_byte")
  if chunk.endByte ≤ chunk.startByte ∨ chunk.endByte-chunk.startByte ≠ chunk.data.length then
    .error ⟨path,"a non-empty byte range matching data length"⟩
  else .ok ()

/-- `validateServerFrame` on the fields that a replay reads. -/
def validateServerFrame : ServerFrame → Except InvalidFrame Unit
  | .output chunk => outputChunk "$frame.event.chunk" chunk
  | .replayWindow firstAvailableByte latestOutputBytes => do
    safeUnsignedInteger firstAvailableByte "$frame.first_available_byte"
    safeUnsignedInteger latestOutputBytes "$frame.latest_output_bytes"
    if latestOutputBytes < firstAvailableByte then
      .error ⟨"$frame.first_available_byte","no later than the replay head"⟩
    else .ok ()
  | .terminalCheckpointChunk offset data => do
    validateCursorValue offset "$frame.offset"
    if data.length = 0 then .error ⟨"$frame.data","nonempty restore bytes"⟩ else .ok ()
  | _ => .ok ()

/-- `serverFrame(await wire.receive())`, and what is done with the frame. -/
def serverFrame {σ : Type} (frame : ServerFrame) (k : ServerFrame → Except ReceiveError σ) :
    Except ReceiveError σ :=
  match validateServerFrame frame with
  | .error error => .error (.invalidFrame error)
  | .ok () => k frame

/-- One turn of the loop that takes the restore bytes; the buffer has a fixed length. -/
def restoreFrame (restoreBytes : ℕ) (restore : List Byte) (frame : ServerFrame) :
    Except ReceiveError (List Byte) :=
  serverFrame frame fun
    | .error message => .error (.protocol message)
    | .terminalCheckpointChunk offset data =>
      if offset ≠ restore.length || data.length = 0 ||
          restoreBytes-restore.length < data.length then
        .error (.unexpected "ordered synthetic terminal seed" "terminal_checkpoint_chunk")
      else .ok (restore ++ data)
    | frame => .error (.unexpected "ordered synthetic terminal seed" frame.type)

/-- The local variables of `receiveReplay`. -/
structure Assembly (Info : Type) where
  run : RunInfo Info
  replay : OutputReplayHeader
  chunks : List OutputChunk
  expectedByte : ℕ
deriving DecidableEq,Repr

/-- One turn of the loop that takes the output. -/
def replayFrame (header : AttachedFrame Info) (state : Assembly Info) (frame : ServerFrame) :
    Except ReceiveError (Assembly Info) :=
  serverFrame frame fun
    | .error message => .error (.protocol message)
    | .replayWindow firstAvailableByte latestOutputBytes =>
      if latestOutputBytes ≠ header.replay.latestOutputBytes ||
          firstAvailableByte ≤ state.expectedByte || latestOutputBytes < firstAvailableByte then
        .error (.unexpected "a strictly newer replay floor through the advertised head"
          "replay_window")
      else if header.terminal matches .basicVt _ _ then
        .error (.unexpected "complete terminal checkpoint original tail" "replay_window")
      else
        .ok
          { run := { state.run with firstAvailableByte := firstAvailableByte }
            replay := { state.replay with
              firstAvailableByte := firstAvailableByte
              truncated := true }
            chunks := []
            expectedByte := firstAvailableByte }
    | .output chunk =>
      if chunk.startByte ≠ state.expectedByte ||
          header.replay.latestOutputBytes < chunk.endByte then
        .error (.unexpected "ordered replay output" "event")
      else .ok { state with chunks := state.chunks ++ [chunk], expectedByte := chunk.endByte }
    | frame => .error (.unexpected "ordered replay output" frame.type)

def Assembly.snapshot (state : Assembly Info) (header : AttachedFrame Info)
    (terminalRestore : List Byte) : ReplaySnapshot Info where
  run := state.run
  terminal := header.terminal
  terminalRestore := terminalRestore
  resizeRevision := header.resizeRevision
  replay := ⟨state.chunks,state.replay.firstAvailableByte,state.replay.latestOutputBytes,
    state.replay.truncated⟩

/-- `receiveReplay` after the terminal seed. -/
def receiveTail (afterByte : ℕ) (header : AttachedFrame Info) (terminalRestore : List Byte)
    (frames : List ServerFrame) : Received ServerFrame ReceiveError (ReplaySnapshot Info) :=
  let latest := header.replay.latestOutputBytes
  if latest ≤ afterByte then
    (.ok
      { run := header.run
        terminal := header.terminal
        terminalRestore := terminalRestore
        resizeRevision := header.resizeRevision
        replay := ⟨[],header.replay.firstAvailableByte,latest,header.replay.truncated⟩ },frames)
  else
    next (whileReceive (fun state : Assembly Info => decide (state.expectedByte < latest))
        (replayFrame header) .closed
        ⟨header.run,header.replay,[],max afterByte header.replay.firstAvailableByte⟩ frames)
      fun state rest => (.ok (state.snapshot header terminalRestore),rest)

/-- `receiveReplay` of the SDK. -/
def receiveReplay (afterByte : ℕ) (header : AttachedFrame Info) (restoreByteLimit : ℕ)
    (frames : List ServerFrame) : Received ServerFrame ReceiveError (ReplaySnapshot Info) :=
  match header.terminal with
  | .basicVt checkpoint _ =>
    if restoreByteLimit < checkpoint.restoreBytes then
      (.error (.restoreLimit checkpoint.restoreBytes restoreByteLimit),frames)
    else
      next (whileReceive (fun restore => decide (restore.length < checkpoint.restoreBytes))
          (restoreFrame checkpoint.restoreBytes) .closed [] frames)
        fun restore rest => receiveTail checkpoint.throughByte header restore rest
  | _ => receiveTail afterByte header [] frames

end Sdk
end Terminal
end Ctxmux
