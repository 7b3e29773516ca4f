import Ctxmux.WindowPrune

/-!
# Moving replay between files

Compaction publishes a new active file and copies the retained extents of the old
files into it, in batches of at most 1 MiB whose coordinates change in one
transaction. Normalization cuts abandoned tails and removes unreferenced files.
-/

namespace Ctxmux
namespace Durable

open Tiling

def maxTransactionPayloadBytes : ℕ := 1024*1024

/-- Publish an empty file under a new name as the active one. -/
def publishReplayFile (s : Store) (name : String) : Except PersistenceError Store := do
  validateReplayFileName name
  match s.files name with
  | some _ => .error (.io name ⟨.other,some 17⟩)
  | none => .ok ⟨{ s.db with replayFile := name },s.files.write name []⟩

/-- The rows of one batch: the first always, the others while the payload fits. -/
def batchRows (used : ℕ) : List ChunkRow → List ChunkRow
  | [] => []
  | row::rows =>
    if used ≠ 0 ∧ maxTransactionPayloadBytes < used+row.dataBytes then []
    else row::batchRows (used+row.dataBytes) rows

/-- Read the extents of the rows from the source, one after the other. -/
def copyRows (content : List Byte) (source : String) : List ChunkRow →
    Except PersistenceError (List Byte)
  | [] => .ok []
  | row::rows =>
    if content.length < row.dataOffset+row.dataBytes then .error (.io source ⟨.other,none⟩)
    else do
      let payload ← copyRows content source rows
      .ok ((content.drop row.dataOffset).take row.dataBytes ++ payload)

/-- `UPDATE replay_chunks SET data_file, data_offset WHERE ordinal = ? AND data_file = ?`;
exactly one row must change. -/
def relocateRow (source target : String) (db : Database) (move : ℕ × ℕ) :
    Except PersistenceError Database :=
  if ∃ row ∈ db.chunks, row.ordinal = move.1 ∧ row.dataFile = source then
    .ok { db with
      chunks := db.chunks.map fun row =>
        if row.ordinal = move.1 ∧ row.dataFile = source then
          { row with dataFile := target, dataOffset := move.2 } else row }
  else .error (.mutation "compaction coordinate owner changed")

/-- The new coordinates of the rows when their payloads follow each other from `offset`. -/
def plannedMoves (offset : ℕ) : List ChunkRow → List (ℕ × ℕ)
  | [] => []
  | row::rows => (row.ordinal,offset)::plannedMoves (offset+row.dataBytes) rows

/-- The rows of a source that a batch reads: those after the cursor, in ordinal order. -/
def sourceRows (db : Database) (source : String) (cursor : Option ℕ) (rowLimit : ℕ) :
    List ChunkRow :=
  (db.chunks.filter fun row => cursor.all (· < row.ordinal) ∧ row.dataFile = source).take rowLimit

/-- One committed coordinate batch of `compact_source`: the moved store and the last
ordinal that moved, or nothing when the source has no row left after the cursor. -/
def compactBatch (s : Store) (source target : String) (cursor : Option ℕ) (rowLimit : ℕ) :
    Except PersistenceError (Option (Store × ℕ)) := do
  let rows := batchRows 0 (sourceRows s.db source cursor rowLimit)
  match rows.getLast? with
  | none => .ok none
  | some last =>
    match s.files source, s.files target with
    | some content, some before => do
      let payload ← copyRows content source rows
      if i64Max < before.length+payload.length then .error (.io target ⟨.fileTooLarge,some 27⟩)
      else do
        let db ← (plannedMoves before.length rows).foldlM (relocateRow source target) s.db
        .ok (some (⟨db,s.files.write target (before ++ payload)⟩,last.ordinal))
    | none, _ => .error (.io source ⟨.notFound,some 2⟩)
    | some _, none => .error (.io target ⟨.notFound,some 2⟩)

/-- The end of the last extent that the tables reference in a file. -/
def referencedEnd (db : Database) (name : String) : ℕ :=
  (((db.chunks.filter (·.dataFile = name)).map fun row => row.dataOffset+row.dataBytes).max?).getD 0

def Referenced (db : Database) (active name : String) : Prop :=
  name = active ∨ ∃ row ∈ db.chunks, row.dataFile = name

instance (db : Database) (active name : String) : Decidable (Referenced db active name) :=
  inferInstanceAs (Decidable (_ ∨ _))

def checkReferenced (db : Database) (files : Files) (name : String) :
    Except PersistenceError Unit := do
  validateReplayFileName name
  validateStateFile files name
  if files.len name < referencedEnd db name then
    .error (.corrupt s!"replay file {name} is shorter than its durable references")
  else .ok ()

/-- Every referenced file cut to its last reference, the others removed. -/
def normalizedFiles (db : Database) (active : String) (files : Files) : Files := fun name =>
  if Referenced db active name then (files name).map (·.take (referencedEnd db name)) else none

def normalizeReplayFiles (db : Database) (active : String) (files : Files) :
    Except PersistenceError Files := do
  (active::db.chunks.map (·.dataFile)).forM (checkReferenced db files)
  .ok (normalizedFiles db active files)

end Durable
end Ctxmux
