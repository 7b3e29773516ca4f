import Ctxmux.OutputLog

/-!
# The derived terminal model of a Run

The model replays the output of a Run through a terminal parser and keeps one checkpoint
of it with the resizes since. The parser is outside this development; what is used of it
stands in `Vt100.Lawful`. A derivation that unwinds is a fault of its caller's event.
-/

namespace Ctxmux
namespace Terminal

open Durable (Byte RunId OutputChunk OutputReplay)

structure TerminalSize where
  rows : UInt16
  cols : UInt16
deriving DecidableEq,Repr

/-- A dimension of the size is zero. -/
def TerminalSize.isZero (size : TerminalSize) : Bool := size.rows == 0 || size.cols == 0

structure BasicCheckpoint where
  rows : UInt16
  cols : UInt16
  restoreBytes : List Byte
deriving DecidableEq,Repr

structure BasicRestoreGeometryCheckpoint where
  restore : BasicCheckpoint
  finalBytes : List Byte
  restoreScrollbackRows : Option ℕ
  sourceRows : UInt16
  sourceCols : UInt16
deriving DecidableEq,Repr

/-- The operations of the terminal parser. -/
structure Vt100 where
  Parser : Type
  new : UInt16 → UInt16 → ℕ → Parser
  process : Parser → List Byte → Parser
  setSize : Parser → UInt16 → UInt16 → Parser
  setScrollbackLimit : Parser → ℕ → Parser
  scrollbackLimit : Parser → ℕ
  size : Parser → TerminalSize
  isGround : Parser → Bool
  basicRestoreGeometryCheckpoint : Parser → Option BasicRestoreGeometryCheckpoint

/-- The size is the last size set, a checkpoint is of that size, and its bytes are not
empty. Its history is within the limit of the parser. -/
structure Vt100.Lawful (vt : Vt100) : Prop where
  size_new : ∀ rows cols limit, vt.size (vt.new rows cols limit) = ⟨rows,cols⟩
  size_process : ∀ parser data, vt.size (vt.process parser data) = vt.size parser
  size_setSize : ∀ parser rows cols, vt.size (vt.setSize parser rows cols) = ⟨rows,cols⟩
  size_setScrollbackLimit : ∀ parser limit,
    vt.size (vt.setScrollbackLimit parser limit) = vt.size parser
  limit_new : ∀ rows cols limit, vt.scrollbackLimit (vt.new rows cols limit) = limit
  limit_process : ∀ parser data,
    vt.scrollbackLimit (vt.process parser data) = vt.scrollbackLimit parser
  limit_setSize : ∀ parser rows cols,
    vt.scrollbackLimit (vt.setSize parser rows cols) = vt.scrollbackLimit parser
  limit_setScrollbackLimit : ∀ parser limit,
    vt.scrollbackLimit (vt.setScrollbackLimit parser limit) = limit
  source : ∀ parser seed, vt.basicRestoreGeometryCheckpoint parser = some seed →
    ⟨seed.sourceRows,seed.sourceCols⟩ = vt.size parser
  nonempty : ∀ parser seed, vt.basicRestoreGeometryCheckpoint parser = some seed →
    seed.restore.restoreBytes ++ seed.finalBytes ≠ []
  nonzero : ∀ parser seed, vt.basicRestoreGeometryCheckpoint parser = some seed →
    TerminalSize.isZero ⟨seed.sourceRows,seed.sourceCols⟩ = false ∧
      TerminalSize.isZero ⟨seed.restore.rows,seed.restore.cols⟩ = false
  history : ∀ parser seed rows, vt.basicRestoreGeometryCheckpoint parser = some seed →
    seed.restoreScrollbackRows = some rows → rows ≤ vt.scrollbackLimit parser

def historyRows : ℕ := 10000

def maxRestoreBytes : ℕ := 32*1024*1024

def maxResizeTail : ℕ := 1024

structure TerminalCheckpointHeader where
  runId : RunId
  throughByte : ℕ
  resizeRevision : ℕ
  size : TerminalSize
  restoreSize : TerminalSize
  restoreScrollbackRows : Option ℕ
  resizeAfterRestoreBytes : ℕ
  restoreBytes : ℕ
deriving DecidableEq,Repr

structure TerminalResize where
  throughByte : ℕ
  resizeRevision : ℕ
  size : TerminalSize
deriving DecidableEq,Repr

structure StoredCheckpoint where
  checkpoint : TerminalCheckpointHeader
  restore : List Byte
  resizes : List TerminalResize
deriving DecidableEq,Repr

inductive TerminalCheckpointUnavailableReason where
  | originUnknown | sourceGap | tailEvicted | checkpointTooLarge | invalidCheckpoint
deriving DecidableEq,Repr

inductive TerminalContinuation where
  | notRequested
  | unknown (reason : TerminalCheckpointUnavailableReason)
  | unavailable (reason : TerminalCheckpointUnavailableReason)
  | basicVt (checkpoint : TerminalCheckpointHeader) (resizes : List TerminalResize)
deriving DecidableEq,Repr

structure TerminalModel (vt : Vt100) where
  parser : vt.Parser
  checkpoint : Option StoredCheckpoint
  resizeRevision : ℕ
  geometryValid : Bool

variable {vt : Vt100}

/-- The checkpoint of a seed that is small enough. -/
def StoredCheckpoint.ofSeed (id : RunId) (throughByte resizeRevision : ℕ)
    (seed : BasicRestoreGeometryCheckpoint) : StoredCheckpoint where
  checkpoint :=
    { runId := id
      throughByte := throughByte
      resizeRevision := resizeRevision
      size := ⟨seed.sourceRows,seed.sourceCols⟩
      restoreSize := ⟨seed.restore.rows,seed.restore.cols⟩
      restoreScrollbackRows := seed.restoreScrollbackRows
      resizeAfterRestoreBytes := seed.restore.restoreBytes.length
      restoreBytes := (seed.restore.restoreBytes ++ seed.finalBytes).length }
  restore := seed.restore.restoreBytes ++ seed.finalBytes
  resizes := []

/-- `+ 1` on a `u64` in a build without overflow checks. -/
def nextRevision (revision : ℕ) : ℕ := (revision+1) % 2^64

namespace TerminalModel

variable (model : TerminalModel vt)

/-- The model with a new checkpoint, and whether it was taken. -/
def cut (id : RunId) (throughByte : ℕ) : Bool × TerminalModel vt :=
  match vt.basicRestoreGeometryCheckpoint model.parser with
  | none => (false,model)
  | some seed =>
    if maxRestoreBytes < seed.restore.restoreBytes.length+seed.finalBytes.length then (false,model)
    else (true,{ model with
      checkpoint := some (StoredCheckpoint.ofSeed id throughByte model.resizeRevision seed)
      geometryValid := true })

def new (id : RunId) (size : TerminalSize) : TerminalModel vt :=
  (cut ⟨vt.new size.rows size.cols historyRows,none,0,true⟩ id 0).2

def process (data : List Byte) : TerminalModel vt :=
  { model with parser := vt.process model.parser data }

def size : TerminalSize := vt.size model.parser

/-- A full tail of resizes invalidates the geometry until the next cut. -/
def resize (size : TerminalSize) (throughByte : ℕ) : TerminalResize × TerminalModel vt :=
  let resize := ⟨throughByte,nextRevision model.resizeRevision,size⟩
  let next := { model with
    resizeRevision := nextRevision model.resizeRevision
    parser := vt.setSize model.parser size.rows size.cols }
  (resize,match model.checkpoint with
    | none => next
    | some saved =>
      if saved.resizes.length = maxResizeTail then { next with geometryValid := false }
      else { next with checkpoint := some { saved with resizes := saved.resizes ++ [resize] } })

def retentionCut (id : RunId) (first latest : ℕ) : Bool × TerminalModel vt :=
  if model.checkpoint.all (·.checkpoint.throughByte < first) then model.cut id latest
  else (false,model)

def continuation (id : RunId) (first latest : ℕ) :
    (TerminalContinuation × List Byte) × TerminalModel vt :=
  let next := (model.cut id latest).2
  (match next.checkpoint with
    | none => (.unavailable .checkpointTooLarge,[])
    | some saved =>
      if next.geometryValid = false then (.unavailable .invalidCheckpoint,[])
      else if saved.checkpoint.throughByte < first then (.unavailable .tailEvicted,[])
      else (.basicVt saved.checkpoint saved.resizes,saved.restore),next)

def stored : Option StoredCheckpoint := if model.geometryValid = true then model.checkpoint else none

end TerminalModel

/-- The parser and its revision while a saved checkpoint is replayed. -/
structure Replayed (vt : Vt100) where
  parser : vt.Parser
  resizeRevision : ℕ

namespace Replayed

variable (state : Replayed vt)

/-- One saved resize, if it is the next one. -/
def applyResize (resize : TerminalResize) : Option (Replayed vt) :=
  if resize.resizeRevision ≠ nextRevision state.resizeRevision ∨ resize.size.isZero = true then none
  else some ⟨vt.setSize state.parser resize.size.rows resize.size.cols,resize.resizeRevision⟩

/-- The bytes of a chunk from the cursor to `last`. -/
def processRange (chunk : OutputChunk) (cursor last : ℕ) : Option (Replayed vt) := do
  let data ← Output.slicedRange chunk.data (cursor-chunk.startByte) (last-chunk.startByte)
  some { state with parser := vt.process state.parser data }

/-- The bytes up to a resize that is not before the cursor. -/
def advance (chunk : OutputChunk) (cursor throughByte : ℕ) : Option (Replayed vt) :=
  if throughByte = cursor then some state else state.processRange chunk cursor throughByte

/-- The rest of a chunk, with the saved resizes that lie before its end. The cursor is
before the end of the chunk; a resize at the cursor is applied without output before it. -/
def applyChunk (chunk : OutputChunk) :
    (resizes : List TerminalResize) → (cursor : ℕ) → Replayed vt →
      Option (Replayed vt × List TerminalResize)
  | [], cursor, state => do
    let state ← state.processRange chunk cursor chunk.endByte
    some (state,[])
  | resize::resizes, cursor, state =>
    if resize.throughByte < cursor then none
    else if resize.throughByte < chunk.endByte then do
      let state ← state.advance chunk cursor resize.throughByte
      let state ← state.applyResize resize
      applyChunk chunk resizes resize.throughByte state
    else do
      let state ← state.processRange chunk cursor chunk.endByte
      some (state,resize::resizes)

def applyChunks : List OutputChunk → (cursor : ℕ) → List TerminalResize → Replayed vt →
    Option (ℕ × List TerminalResize × Replayed vt)
  | [], cursor, resizes, state => some (cursor,resizes,state)
  | chunk::chunks, cursor, resizes, state =>
    if chunk.endByte ≤ cursor then applyChunks chunks cursor resizes state
    else if cursor < chunk.startByte then none
    else do
      let (state,resizes) ← applyChunk chunk resizes cursor state
      applyChunks chunks chunk.endByte resizes state

/-- The resizes after the last byte. -/
def applyTail (cursor : ℕ) : List TerminalResize → Replayed vt → Option (Replayed vt)
  | [], state => some state
  | resize::resizes, state =>
    if resize.throughByte ≠ cursor then none
    else do
      let state ← state.applyResize resize
      applyTail cursor resizes state

end Replayed

/-- The fence, the sizes and the lengths that a saved checkpoint must have. -/
def StoredCheckpoint.refused (saved : StoredCheckpoint) (id : RunId) (replay : OutputReplay) : Bool :=
  saved.checkpoint.runId ≠ id || saved.checkpoint.size.isZero || saved.checkpoint.restoreSize.isZero ||
    saved.checkpoint.restoreBytes < saved.checkpoint.resizeAfterRestoreBytes ||
    saved.checkpoint.restoreBytes ≠ saved.restore.length || maxRestoreBytes < saved.restore.length ||
    saved.checkpoint.throughByte < replay.firstAvailableByte ||
    replay.latestOutputBytes < saved.checkpoint.throughByte || maxResizeTail < saved.resizes.length

/-- The parser after the two parts of the saved restore bytes. -/
def StoredCheckpoint.restored (saved : StoredCheckpoint) : Option vt.Parser :=
  let cp := saved.checkpoint
  let parser := vt.process
    (vt.new cp.restoreSize.rows cp.restoreSize.cols (cp.restoreScrollbackRows.getD historyRows))
    (saved.restore.take cp.resizeAfterRestoreBytes)
  if vt.isGround parser = false then none
  else
    let parser := vt.setScrollbackLimit parser historyRows
    let parser := if cp.restoreSize ≠ cp.size then vt.setSize parser cp.size.rows cp.size.cols
      else parser
    let parser := vt.process parser (saved.restore.drop cp.resizeAfterRestoreBytes)
    if vt.isGround parser = false then none else some parser

/-- The model of a saved checkpoint, if its fence and all output after it survived. -/
def TerminalModel.recover (id : RunId) (saved : StoredCheckpoint) (replay : OutputReplay) :
    Option (TerminalModel vt) :=
  if saved.refused id replay = true then none
  else do
    let parser ← saved.restored
    let (cursor,resizes,state) ← Replayed.applyChunks replay.chunks saved.checkpoint.throughByte
      saved.resizes (⟨parser,saved.checkpoint.resizeRevision⟩ : Replayed vt)
    if cursor ≠ replay.latestOutputBytes then none
    else do
      let state ← Replayed.applyTail cursor resizes state
      some ⟨state.parser,some saved,state.resizeRevision,true⟩

end Terminal
end Ctxmux
