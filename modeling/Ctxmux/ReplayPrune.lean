import Ctxmux.WindowAppend
import Mathlib.Data.List.MinMax

/-!
# Shedding replay bytes

The writers that evict stored bytes: whole rows in ordinal order and the largest
Run's front when the daemon-wide total is over its limit, and the confirmed prefix
that is retired to fund new output or database pages. Each cuts rows first and then
moves the floor of the Run to its oldest surviving row.
-/

namespace Ctxmux
namespace Durable

open Tiling

/-- Slide a Run's floor to its oldest row after `shed` of its bytes were cut. -/
def shedRunBytes (db : Database) (id : RunId) (shed : ℕ) : Except PersistenceError Database :=
  match db.run? id with
  | none => .ok db
  | some row =>
    if row.replayBytes < shed then .error constraintFailed
    else .ok (db.updateRun id fun row =>
      { row with
        replayBytes := row.replayBytes-shed
        replayTruncated := true
        durableFirstAvailableByte :=
          ((db.rowsOf id).map (·.startByte)).min?.getD row.durableOutputBytes })

/-- Delete a row that is shed whole, cut the front of one that is not. -/
def shedChunk (db : Database) (ordinal bytes shed : ℕ) : Except PersistenceError Database :=
  if shed = bytes then .ok (db.deleteChunk ordinal) else db.trimChunk ordinal shed

/-- The oldest row daemon-wide whose Run keeps a later row. -/
def globalReplayCandidate (db : Database) : Option ChunkRow :=
  db.chunks.find? fun row =>
    db.chunks.any fun retained => retained.runId = row.runId ∧ row.startByte < retained.startByte

/-- The oldest row of the Run with the most replay bytes. -/
def largestRow (db : Database) : Option ChunkRow :=
  db.chunks.argmax fun row => ((db.run? row.runId).map (·.replayBytes)).getD 0

/-- Cut the front off the largest Run's row until the total fits, `rows` cuts at most. -/
def trimOldestRow (replayLimit : ℕ) : ℕ → Database → Except PersistenceError (Bool × Database)
  | 0, db => .ok (db.accounting.replayBytes ≤ replayLimit ∨ db.accounting.replayRuns = 0,db)
  | rows+1, db =>
    if db.accounting.replayBytes ≤ replayLimit ∨ db.accounting.replayRuns = 0 then .ok (true,db)
    else
      match largestRow db with
      | none => .error (.corrupt "global replay accounting has no chunks")
      | some row =>
        let share := replayLimit/db.accounting.replayRuns
        let shed := min (min (row.dataBytes-share) row.dataBytes)
          (db.accounting.replayBytes-replayLimit)
        if shed = 0 then .ok (false,db)
        else do
          let db ← shedChunk db row.ordinal row.dataBytes shed
          let db ← shedRunBytes db row.runId shed
          trimOldestRow replayLimit rows db

/-- Shed rows in ordinal order until the daemon-wide total fits, never the last row of a
Run; when every Run is down to one row, trim instead. The flag says whether the limit was
reached within the funded number of rows. -/
def pruneGlobalReplayWithRowFunding (replayLimit : ℕ) :
    ℕ → Database → Except PersistenceError (Bool × Database)
  | 0, db => .ok (db.accounting.replayBytes ≤ replayLimit,db)
  | rows+1, db =>
    if db.accounting.replayBytes ≤ replayLimit then .ok (true,db)
    else
      match globalReplayCandidate db with
      | none => trimOldestRow replayLimit rows db
      | some row => do
        let shed := min row.dataBytes (db.accounting.replayBytes-replayLimit)
        let db ← shedChunk db row.ordinal row.dataBytes shed
        let db ← shedRunBytes db row.runId shed
        pruneGlobalReplayWithRowFunding replayLimit rows db

/-- The scan that funds `needed` bytes from rows in ordinal order. -/
def reclaimCandidates : ℕ → List ChunkRow → List (ChunkRow × ℕ)
  | _, [] => []
  | needed, row::rows =>
    if needed = 0 then []
    else
      let shed := min needed row.dataBytes
      (row,shed)::reclaimCandidates (needed-shed) rows

def retiredBytes (candidates : List (ChunkRow × ℕ)) (id : RunId) : ℕ :=
  ((candidates.filter (·.1.runId = id)).map (·.2)).sum

/-- Retire the candidates, then move each affected Run's floor once. -/
def applyRetirement (db : Database) (candidates : List (ChunkRow × ℕ)) :
    Except PersistenceError Database := do
  let db ← candidates.foldlM (fun db c => shedChunk db c.1.ordinal c.1.dataBytes c.2) db
  ((candidates.map (·.1.runId)).dedup).foldlM
    (fun db id => shedRunBytes db id (retiredBytes candidates id)) db

/-- One admitted batch of `reclaim_confirmed_prefix`; the flag says whether there was
anything to reclaim. -/
def reclaimConfirmedPrefix (db : Database) (needed : ℕ) (target : Option RunId) (rows : ℕ) :
    Except PersistenceError (Bool × Database) :=
  let candidates := reclaimCandidates needed
    ((db.chunks.filter fun row => target.all (row.runId = ·)).take rows)
  if candidates = [] then .ok (false,db)
  else do
    let db ← applyRetirement db candidates
    .ok (true,db)

/-- One admitted batch of `reclaim_database_pages`: whole rows, oldest first. With no row
left the observed page capacity is the error. -/
def reclaimDatabasePages (db : Database) (capacity : PersistenceError) (rows : ℕ) :
    Except PersistenceError Database :=
  let candidates := (db.chunks.take rows).map fun row => (row,row.dataBytes)
  if candidates = [] then .error capacity else applyRetirement db candidates

end Durable
end Ctxmux
