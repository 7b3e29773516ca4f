import Ctxmux.DurableTables

/-!
# Appending replay

One Run's output enters the store in chunks. A chunk is verified against the
stored rows where it is already durable, advances the head where it is fresh, or
jumps the floor over a gap that the producer proves unrecoverable. Fresh bytes are
buffered and become rows of at least 64 KiB, so that the head runs ahead of the
table between two flushes.
-/

namespace Ctxmux
namespace Durable

def coalesceRowBytes : ℕ := 64*1024

/-- One path component with a non-empty stem and the extension `bin`. -/
def validReplayFileName (name : String) : Bool :=
  !name.toList.contains '/' && ['.','b','i','n'].isSuffixOf name.toList && 4 < name.toList.length

def validateReplayFileName (name : String) : Except PersistenceError Unit :=
  if validReplayFileName name then .ok ()
  else .error (.corrupt s!"invalid replay file name \"{name}\"")

/-- Every file in the model's directory is a regular 0600 file of the daemon's user. -/
def validateStateFile (files : Files) (name : String) : Except PersistenceError Unit :=
  match files name with
  | some _ => .ok ()
  | none => .error (.io name ⟨.notFound,some 2⟩)

def readReplaySegment (files : Files) (fileName : String) (offset length : ℕ) :
    Except PersistenceError (List Byte) := do
  validateReplayFileName fileName
  validateStateFile files fileName
  let fileSize := files.len fileName
  if fileSize < offset+length then
    .error (.corrupt s!"replay segment [{offset}, {offset+length}) exceeds file length {fileSize}")
  else .ok ((((files fileName).getD []).drop offset).take length)

/-- The comparison loop of `stored_range_matches_in` over the rows that meet the range. -/
def matchRows (files : Files) (startByte endByte : ℕ) (expected : List Byte) :
    List ChunkRow → ℕ → Except PersistenceError Bool
  | [], cursor => .ok (endByte ≤ cursor)
  | row::rows, cursor =>
    if endByte ≤ cursor then .ok true
    else if cursor < row.startByte ∨ row.endByte ≤ cursor then .ok false
    else do
      let through := min row.endByte endByte
      let data ← readReplaySegment files row.dataFile (row.dataOffset+cursor-row.startByte)
        (through-cursor)
      if (expected.drop (cursor-startByte)).take (through-cursor) = data then
        matchRows files startByte endByte expected rows through
      else .ok false

/-- Whether `[startByte,endByte)` is already stored with exactly these bytes. -/
def storedRangeMatches (db : Database) (files : Files) (id : RunId) (startByte endByte : ℕ)
    (expected : List Byte) : Except PersistenceError Bool :=
  matchRows files startByte endByte expected
    ((db.rowsByStart id).filter fun row => startByte < row.endByte ∧ row.startByte < endByte)
    startByte

/-- A Run's cursors and the row being packed, with what they write to: the
transaction's private tables and the payload file of the writer. -/
structure ReplayCursors where
  durableOldest : ℕ
  durableHead : ℕ
  replayBytes : ℕ
  pending : List Byte
  pendingStart : ℕ
  writer : String
  db : Database
  files : Files

/-- `ReplayFileWriter::append`: the offset of the payload and the grown file. A file
offset never exceeds an `i64`. -/
def writerAppend (files : Files) (name : String) (data : List Byte) :
    Except PersistenceError (Files × ℕ) :=
  if i64Max < files.len name+data.length then .error (.io name ⟨.fileTooLarge,some 27⟩)
  else .ok (files.write name ((files name).getD [] ++ data),files.len name)

def flushPendingRow (id : RunId) (c : ReplayCursors) : Except PersistenceError ReplayCursors :=
  if c.pending = [] then .ok c
  else if i64Max < c.pendingStart+c.pending.length then
    .error (.mutation "coalesced row end byte exceeds SQLite")
  else do
    let (files,offset) ← writerAppend c.files c.writer c.pending
    let db ← c.db.insertChunk id c.pendingStart (c.pendingStart+c.pending.length) c.writer offset
      c.pending.length
    .ok { c with db := db, files := files, pending := [] }

/-- Drop every row below `newFloor` and report the surviving byte count. -/
def resetWindowTo (db : Database) (id : RunId) (newFloor : ℕ) : Database × ℕ :=
  let kept := { db with
    chunks := db.chunks.filter fun row => ¬(row.runId = id ∧ row.startByte < newFloor) }
  (kept,((kept.rowsOf id).map (·.dataBytes)).sum)

def checkChunkRange (id : RunId) (chunk : OutputChunk) : Except PersistenceError Unit :=
  if chunk.endByte ≤ chunk.startByte ∨ chunk.endByte-chunk.startByte ≠ chunk.data.length then
    .error (.mutation
      s!"Run {id} replay range [{chunk.startByte}, {chunk.endByte}) does not match its bytes")
  else if i64Max < chunk.startByte then .error (.mutation "output start byte exceeds SQLite")
  else if i64Max < chunk.endByte then .error (.mutation "output end byte exceeds SQLite")
  else .ok ()

/-- A chunk below the head is compared against storage rather than written; buffered
bytes must be rows before the lookup. -/
def verifyChunk (id : RunId) (chunk : OutputChunk) (c : ReplayCursors) :
    Except PersistenceError ReplayCursors :=
  if chunk.startByte < c.durableOldest then
    .error (.mutation
      s!"Run {id} cannot verify evicted replay range [{chunk.startByte}, {chunk.endByte})")
  else do
    let c ← flushPendingRow id c
    let same ← storedRangeMatches c.db c.files id chunk.startByte chunk.endByte chunk.data
    if same then .ok c
    else .error (.mutation
      s!"Run {id} replay range [{chunk.startByte}, {chunk.endByte}) is missing or changed bytes")

/-- A forward jump is honest only when the producer no longer holds the missing bytes:
the chunk begins at its surviving front and the replay is marked truncated. -/
def jumpGap (id : RunId) (replay : OutputReplay) (chunk : OutputChunk) (c : ReplayCursors) :
    Except PersistenceError ReplayCursors :=
  if chunk.startByte = c.durableHead then .ok c
  else if ¬(replay.truncated ∧ chunk.startByte = replay.firstAvailableByte) then
    .error (.mutation
      s!"Run {id} durable replay gap: got {chunk.startByte}, expected {c.durableHead}")
  else do
    let c ← flushPendingRow id c
    let (db,bytes) := resetWindowTo c.db id chunk.startByte
    .ok { c with
      db := db
      replayBytes := bytes
      durableOldest := chunk.startByte
      durableHead := chunk.startByte }

/-- An empty stream begins at its first chunk. -/
def beginStream (chunk : OutputChunk) (c : ReplayCursors) : ReplayCursors :=
  if c.durableHead = 0 then { c with durableOldest := chunk.startByte } else c

def extendPending (chunk : OutputChunk) (c : ReplayCursors) : ReplayCursors :=
  { c with
    pendingStart := if c.pending = [] then chunk.startByte else c.pendingStart
    pending := c.pending ++ chunk.data }

def flushFullRow (id : RunId) (c : ReplayCursors) : Except PersistenceError ReplayCursors :=
  if coalesceRowBytes ≤ c.pending.length then flushPendingRow id c else .ok c

/-- Buffer the immediate successor of the head. -/
def bufferChunk (id : RunId) (chunk : OutputChunk) (c : ReplayCursors) :
    Except PersistenceError ReplayCursors := do
  let c ← flushFullRow id (extendPending chunk (beginStream chunk c))
  .ok { c with
    durableHead := chunk.endByte
    replayBytes := min (c.replayBytes+chunk.data.length) i64Max }

/-- `apply_replay_chunk` of a chunk that does not straddle the head. -/
def applyAligned (id : RunId) (replay : OutputReplay) (chunk : OutputChunk)
    (c : ReplayCursors) : Except PersistenceError ReplayCursors := do
  checkChunkRange id chunk
  if chunk.endByte ≤ c.durableHead then verifyChunk id chunk c
  else do
    let c ← jumpGap id replay chunk c
    bufferChunk id chunk c

/-- Commit one chunk against the durable window. A chunk that straddles the head is
split there; neither part straddles again, the verified prefix leaves the head. -/
def applyReplayChunk (id : RunId) (replay : OutputReplay) (c : ReplayCursors)
    (chunk : OutputChunk) : Except PersistenceError ReplayCursors := do
  checkChunkRange id chunk
  if chunk.startByte < c.durableHead ∧ c.durableHead < chunk.endByte then do
    let prefixBytes := c.durableHead-chunk.startByte
    let c ← applyAligned id replay
      ⟨chunk.startByte,c.durableHead,chunk.data.take prefixBytes⟩ c
    applyAligned id replay
      ⟨chunk.startByte+prefixBytes,chunk.endByte,chunk.data.drop prefixBytes⟩ c
  else applyAligned id replay chunk c

def clipRow (id : RunId) (front : ℕ) (row : ChunkRow) : ChunkRow :=
  if row.runId = id ∧ row.startByte < front ∧ front < row.endByte then row.clip front else row

/-- The two statements that cut a Run's window at `front`: clip the extent that crosses
it, then delete the extents below it. -/
def Database.cutFront (db : Database) (id : RunId) (front : ℕ) : Database :=
  { db with
    chunks := (db.chunks.map (clipRow id front)).filter fun row =>
      ¬(row.runId = id ∧ row.endByte ≤ front) }

/-- Evict the oldest bytes of a Run until it is back inside `replayLimit`. -/
def pruneRunReplayTo (db : Database) (id : RunId) (durableOldest replayBytes replayLimit : ℕ) :
    Except PersistenceError (Database × ℕ × ℕ × Bool) :=
  if replayBytes ≤ replayLimit then .ok (db,durableOldest,replayBytes,false)
  else
    let shed := replayBytes-replayLimit
    let front := durableOldest+shed
    if i64Max < front then .error (.corrupt s!"Run {id} replay floor overflows")
    else if (∃ row ∈ db.rowsOf id, row.startByte < front ∧ front < row.endByte) ∧
        ∃ row ∈ db.rowsOf id, row.startByte = front then .error constraintFailed
    else .ok (db.cutFront id front,front,replayBytes-shed,true)

/-- The whole append of one replay to one Run, inside a transaction whose payload goes
to the file `writer`. The flag says whether bytes were evicted. -/
def appendReplayWithStorage (s : Store) (writer : String) (id : RunId) (replay : OutputReplay)
    (replayLimit : ℕ) : Except PersistenceError (Store × Bool) := do
  let row ← s.db.selectRun id
  if row.stateKind ≠ .running ∧ ∃ chunk ∈ replay.chunks, row.durableOutputBytes < chunk.endByte then
    .error (.mutation s!"cannot advance replay for terminal Run {id}")
  else do
    let c ← replay.chunks.foldlM (applyReplayChunk id replay)
      { durableOldest := row.durableFirstAvailableByte, durableHead := row.durableOutputBytes,
        replayBytes := row.replayBytes, pending := [], pendingStart := 0, writer := writer,
        db := s.db, files := s.files }
    let c ← flushPendingRow id c
    let (db,oldest,bytes,evicted) ←
      pruneRunReplayTo c.db id c.durableOldest c.replayBytes replayLimit
    let db := db.updateRun id fun row =>
      { row with
        durableFirstAvailableByte := oldest
        durableOutputBytes := c.durableHead
        replayBytes := bytes
        replayTruncated := replay.truncated || decide (0 < oldest) }
    .ok (⟨db,c.files⟩,evicted)

end Durable
end Ctxmux
