import Ctxmux.PersistenceError
import Ctxmux.Tiling

/-!
# Tables of the durable store

The rows of `runs` and `replay_chunks`, the connection-local accounting row that
SQLite triggers keep, the payload files of the replay directory, and the SQL
statements of the store as functions on them. A statement that would break a
`CHECK`, `UNIQUE` or foreign-key constraint of the schema fails.
-/

namespace Ctxmux
namespace Durable

abbrev Byte := UInt8

/-- The hyphenated text of a Run's UUID, as the tables store it. -/
structure RunId where
  text : String
deriving DecidableEq,Repr

instance : ToString RunId := ⟨RunId.text⟩

/-- The largest value of an `INTEGER` column and of a file offset. -/
def i64Max : ℕ := 2^63-1

inductive StateKind where
  | running | exited | interrupted
deriving DecidableEq,Repr

structure RunRow where
  id : RunId
  creationKey : String
  specJson : String
  lineageJson : Option String
  stateKind : StateKind
  stateJson : String
  sourceEpoch : String
  pid : Option ℕ
  durableFirstAvailableByte : ℕ
  durableOutputBytes : ℕ
  replayBytes : ℕ
  replayTruncated : Bool
  metadataBytes : ℕ
deriving DecidableEq,Repr

structure ChunkRow where
  ordinal : ℕ
  runId : RunId
  startByte : ℕ
  endByte : ℕ
  dataFile : String
  dataOffset : ℕ
  dataBytes : ℕ
deriving DecidableEq,Repr

/-- The row of `temp.persistence_accounting`. -/
structure Accounting where
  records : ℕ
  metadataBytes : ℕ
  replayBytes : ℕ
  replayRuns : ℕ
deriving DecidableEq,Repr

/-- `chunks` stands in the order of its primary key `ordinal`; `nextOrdinal` is what
`AUTOINCREMENT` hands out next. -/
structure Database where
  runs : List RunRow
  chunks : List ChunkRow
  nextOrdinal : ℕ
  replayFile : String
  accounting : Accounting
deriving DecidableEq,Repr

/-- The replay directory: the content of every file in it. -/
abbrev Files := String → Option (List Byte)

def Files.write (files : Files) (name : String) (content : List Byte) : Files :=
  fun other => if other = name then some content else files other

def Files.remove (files : Files) (name : String) : Files :=
  fun other => if other = name then none else files other

/-- The length that `file_len` reports; a missing file has length zero. -/
def Files.len (files : Files) (name : String) : ℕ := ((files name).getD []).length

@[simp] theorem Files.write_self (files : Files) (name : String) (content : List Byte) :
    files.write name content name = some content := if_pos rfl

theorem Files.write_of_ne (files : Files) {name other : String} (content : List Byte)
    (h : other ≠ name) : files.write name content other = files other := if_neg h

theorem Files.remove_of_ne (files : Files) {name other : String} (h : other ≠ name) :
    files.remove name other = files other := if_neg h

/-- The committed tables together with the files they index. -/
structure Store where
  db : Database
  files : Files

def constraintFailed : PersistenceError :=
  .database "constraint failed" (some .constraintViolation) (some 19) none

def queryReturnedNoRows : PersistenceError :=
  .database "Query returned no rows" none none none

/-- The length of an `OutputChunk` is carried by its data. -/
structure OutputChunk where
  startByte : ℕ
  endByte : ℕ
  data : List Byte
deriving DecidableEq,Repr

structure OutputReplay where
  chunks : List OutputChunk
  firstAvailableByte : ℕ
  latestOutputBytes : ℕ
  truncated : Bool
deriving DecidableEq,Repr

namespace Accounting

/-- What `initialize_transaction_accounting` computes from the saved rows. -/
def ofRuns (runs : List RunRow) : Accounting where
  records := runs.length
  metadataBytes := (runs.map (·.metadataBytes)).sum
  replayBytes := (runs.map (·.replayBytes)).sum
  replayRuns := runs.countP fun r => 0 < r.replayBytes

def occupied (row : RunRow) : ℕ := if 0 < row.replayBytes then 1 else 0

/-- The triggers `persistence_account_insert`, `_delete` and `_update`. -/
def insert (a : Accounting) (new : RunRow) : Accounting where
  records := a.records+1
  metadataBytes := a.metadataBytes+new.metadataBytes
  replayBytes := a.replayBytes+new.replayBytes
  replayRuns := a.replayRuns+occupied new

def delete (a : Accounting) (old : RunRow) : Accounting where
  records := a.records-1
  metadataBytes := a.metadataBytes-old.metadataBytes
  replayBytes := a.replayBytes-old.replayBytes
  replayRuns := a.replayRuns-occupied old

def update (a : Accounting) (old new : RunRow) : Accounting where
  records := a.records
  metadataBytes := a.metadataBytes-old.metadataBytes+new.metadataBytes
  replayBytes := a.replayBytes-old.replayBytes+new.replayBytes
  replayRuns := a.replayRuns-occupied old+occupied new

end Accounting

namespace ChunkRow

/-- Move the front of a row up by `shed` bytes, its payload with it. -/
def trim (row : ChunkRow) (shed : ℕ) : ChunkRow :=
  { row with
    startByte := row.startByte+shed
    dataOffset := row.dataOffset+shed
    dataBytes := row.dataBytes-shed }

/-- Clip a row at `front`, as `prune_run_replay_to` does. -/
def clip (front : ℕ) (row : ChunkRow) : ChunkRow :=
  { row with
    dataOffset := row.dataOffset+front-row.startByte
    dataBytes := row.endByte-front
    startByte := front }

end ChunkRow

namespace Database

/-- The rows of one Run, in ordinal order. -/
def rowsOf (db : Database) (id : RunId) : List ChunkRow := db.chunks.filter (·.runId = id)

/-- The rows of one Run as `ORDER BY start_byte` returns them. -/
def rowsByStart (db : Database) (id : RunId) : List ChunkRow :=
  (db.rowsOf id).insertionSort (fun x y => x.startByte ≤ y.startByte)

def run? (db : Database) (id : RunId) : Option RunRow := db.runs.find? (·.id = id)

/-- `SELECT .. FROM runs WHERE id = ?` of a row that must exist. -/
def selectRun (db : Database) (id : RunId) : Except PersistenceError RunRow :=
  match db.run? id with
  | some row => .ok row
  | none => .error queryReturnedNoRows

/-- `UPDATE runs SET .. WHERE id = ?`, with the accounting trigger. -/
def updateRun (db : Database) (id : RunId) (f : RunRow → RunRow) : Database :=
  match db.run? id with
  | none => db
  | some old =>
    { db with
      runs := db.runs.map fun row => if row.id = id then f row else row
      accounting := db.accounting.update old (f old) }

/-- `DELETE FROM runs WHERE id = ?`: the replay rows go with the Run. -/
def deleteRun (db : Database) (id : RunId) : Database :=
  match db.run? id with
  | none => db
  | some old =>
    { db with
      runs := db.runs.filter (·.id ≠ id)
      chunks := db.chunks.filter (·.runId ≠ id)
      accounting := db.accounting.delete old }

/-- `INSERT INTO runs`: the id is the primary key and the creation key is unique. -/
def insertRun (db : Database) (row : RunRow) : Except PersistenceError Database :=
  if (∃ r ∈ db.runs, r.id = row.id) ∨ ∃ r ∈ db.runs, r.creationKey = row.creationKey then
    .error constraintFailed
  else
    .ok { db with
      runs := db.runs ++ [row]
      accounting := db.accounting.insert row }

/-- `INSERT INTO replay_chunks`. -/
def insertChunk (db : Database) (id : RunId) (startByte endByte : ℕ) (dataFile : String)
    (dataOffset dataBytes : ℕ) : Except PersistenceError Database :=
  if startByte < endByte ∧ 0 < dataBytes ∧ (∃ r ∈ db.runs, r.id = id) ∧
      ∀ row ∈ db.rowsOf id, row.startByte ≠ startByte then
    .ok { db with
      chunks := db.chunks ++ [⟨db.nextOrdinal,id,startByte,endByte,dataFile,dataOffset,dataBytes⟩]
      nextOrdinal := db.nextOrdinal+1 }
  else .error constraintFailed

/-- `DELETE FROM replay_chunks WHERE ordinal = ?`. -/
def deleteChunk (db : Database) (ordinal : ℕ) : Database :=
  { db with chunks := db.chunks.filter (·.ordinal ≠ ordinal) }

/-- `UPDATE replay_chunks .. WHERE ordinal = ?`, shedding the front of the row. -/
def trimChunk (db : Database) (ordinal shed : ℕ) : Except PersistenceError Database :=
  if ∀ row ∈ db.chunks, row.ordinal = ordinal →
      row.startByte+shed < row.endByte ∧ shed < row.dataBytes ∧
      ∀ other ∈ db.rowsOf row.runId, other.ordinal ≠ ordinal →
        other.startByte ≠ row.startByte+shed then
    .ok { db with
      chunks := db.chunks.map fun row => if row.ordinal = ordinal then row.trim shed else row }
  else .error constraintFailed

end Database
end Durable
end Ctxmux
