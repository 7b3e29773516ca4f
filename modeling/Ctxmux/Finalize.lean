import Ctxmux.PayloadGrowth

/-!
# Finalizing a Run

The finalizer writes what is missing of a Run's log and settles the Run as terminal
in the last transaction. The missing chunks are divided by a scan from the end: a
chunk goes to the final transaction while it fits into 1 MiB, and the others go
before it in groups of at most 1 MiB.
-/

namespace Ctxmux
namespace Durable

open Tiling

/-- The part of a final chunk that storage may still be asked to verify. -/
def clipChunk (id : RunId) (floor : ℕ) (chunk : OutputChunk) : Except PersistenceError OutputChunk :=
  if chunk.endByte < chunk.startByte ∨ chunk.endByte-chunk.startByte ≠ chunk.data.length then
    .error (.mutation s!"Run {id} final replay range does not match its bytes")
  else if floor ≤ chunk.startByte then .ok chunk
  else .ok ⟨floor,chunk.endByte,chunk.data.drop (floor-chunk.startByte)⟩

def missingChunks (db : Database) (id : RunId) (replay : OutputReplay) :
    Except PersistenceError (List OutputChunk) := do
  let row ← db.selectRun id
  if row.durableOutputBytes < row.durableFirstAvailableByte then
    .error (.corrupt "durable floor exceeds head")
  else
    (replay.chunks.filter fun chunk => row.durableOutputBytes < chunk.endByte).mapM
      (clipChunk id row.durableFirstAvailableByte)

/-- The state of the reverse scan. -/
structure FinalScan where
  before : List OutputChunk
  final : List OutputChunk
  finalBytes : ℕ
deriving DecidableEq,Repr

def FinalScan.push (scan : FinalScan) (chunk : OutputChunk) : FinalScan :=
  if scan.finalBytes+chunk.data.length ≤ maxTransactionPayloadBytes then
    { scan with
      final := scan.final ++ [chunk]
      finalBytes := scan.finalBytes+chunk.data.length }
  else { scan with before := scan.before ++ [chunk] }

/-- The chunks that go before the final transaction, and those of it. -/
def finalPartition (missing : List OutputChunk) : List OutputChunk × List OutputChunk :=
  let scan := missing.reverse.foldl FinalScan.push ⟨[],[],0⟩
  (scan.before.reverse,scan.final.reverse)

/-- The state of `split_chunks`: the closed groups, and the open one with its bytes. -/
structure ChunkGroups where
  groups : List (List OutputChunk)
  current : List OutputChunk
  bytes : ℕ
deriving DecidableEq,Repr

def ChunkGroups.push (g : ChunkGroups) (chunk : OutputChunk) : Except PersistenceError ChunkGroups :=
  if maxTransactionPayloadBytes < chunk.data.length then
    .error (.mutation s!"output range [{chunk.startByte}, {chunk.endByte}) exceeds the transaction payload ceiling")
  else if g.current ≠ [] ∧ maxTransactionPayloadBytes < g.bytes+chunk.data.length then
    .ok ⟨g.groups ++ [g.current],[chunk],chunk.data.length⟩
  else .ok ⟨g.groups,g.current ++ [chunk],g.bytes+chunk.data.length⟩

def splitChunks (chunks : List OutputChunk) : Except PersistenceError (List (List OutputChunk)) := do
  let g ← chunks.foldlM ChunkGroups.push ⟨[],[],0⟩
  .ok (if g.current = [] then g.groups else g.groups ++ [g.current])

/-- `append_transaction_with_shutdown` when SQLite and the filesystem accept every step:
the flag is false when the row funding refuses the transaction, which leaves no trace. -/
def appendTransaction (codec : Codec) (limits : OutputLimits) (s : Store)
    (batch : List (RunId × OutputReplay)) (terminal : Option TerminalSettlement) :
    Except PersistenceError (Bool × Store) :=
  let payload := (batch.map fun item => replayPayload item.2).sum
  if maxTransactionPayloadBytes < payload then
    .error (.mutation s!"output transaction payload {payload} exceeds the 1 MiB admission ceiling")
  else do
    let (fits,staged) ← stageOutput codec limits s batch terminal
    .ok (fits,if fits then staged else s)

/-- The replay that carries one group of a Run's chunks. -/
def groupReplay (replay : OutputReplay) (chunks : List OutputChunk) : OutputReplay where
  chunks := chunks
  firstAvailableByte := replay.firstAvailableByte
  latestOutputBytes := (chunks.getLast?).elim 0 (·.endByte)
  truncated := replay.truncated

/-- The transactions before the final one, with the stores that they commit. -/
def commitGroups (codec : Codec) (limits : OutputLimits) (id : RunId) (replay : OutputReplay) :
    Store → List (List OutputChunk) → Except PersistenceError (Bool × List Store)
  | _, [] => .ok (true,[])
  | s, group::groups => do
    let (fits,s') ← appendTransaction codec limits s [(id,groupReplay replay group)] none
    if fits then do
      let (done,stores) ← commitGroups codec limits id replay s' groups
      .ok (done,s'::stores)
    else .ok (false,[])

/-- `finalize_with_shutdown` of a Run that has exited: whether it is settled, and the
stores that its transactions commit, in order. -/
def finalizeWithShutdown (codec : Codec) (limits : OutputLimits) (s : Store)
    (terminal : TerminalSettlement) (replay : OutputReplay) :
    Except PersistenceError (Bool × List Store) := do
  let missing ← missingChunks s.db terminal.id replay
  let (before,final) := finalPartition missing
  let groups ← splitChunks before
  let (done,stores) ← commitGroups codec limits terminal.id replay s groups
  if done then do
    let (settled,s') ← appendTransaction codec limits (stores.getLastD s)
      [(terminal.id,{ replay with chunks := final })] (some terminal)
    .ok (settled,stores ++ [s'])
  else .ok (false,stores)

end Durable
end Ctxmux
