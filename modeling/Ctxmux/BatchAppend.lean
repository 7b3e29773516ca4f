import Ctxmux.FinalizeWhole

/-!
# Appending a batch

The actor hands the store a batch of appends. Its entries are cut into groups of at most
1 MiB, gathered into transactions while they continue each other, and a transaction that
the WAL window does not admit is divided: by entries, by chunks, and in the end by bytes.
What the window admits, and what a maintenance page of the reclaimer meets, is told by a
verdict on every attempt.
-/

namespace Ctxmux
namespace Durable

/-- The appends of a batch, in their order. -/
abbrev Entries := List (RunId × OutputReplay)

def Entries.payload (batch : Entries) : ℕ := (batch.map fun item => replayPayload item.2).sum

/-- What admission says to a transaction: committed, rolled back because it exceeds the WAL
window, or failed with the store as it was. -/
inductive Verdict where
  | fits
  | overBudget
  | fails (error : PersistenceError)
deriving DecidableEq,Repr

/-- An output transaction that was run. -/
structure Attempt where
  batch : Entries
  terminal : Option TerminalSettlement
  committed : Bool

/-- What an append works on: the store, the `durable_head` of every Run, the Runs whose
confirmed prefix is being reclaimed, and the transactions run so far. -/
structure Appender where
  store : Store
  durableHead : RunId → ℕ
  reclaimingOutput : List RunId
  attempts : List Attempt

/-- The limits, the verdict on the next output transaction after `n`, the verdict on a
reclamation page of some rows, and whether the database is at its page ceiling. -/
structure Funding where
  codec : Codec
  limits : OutputLimits
  output : ℕ → Entries → Verdict
  page : ℕ → ℕ → Verdict
  exhausted : ℕ → Option PersistenceError

/-- Where a step leaves the appender, and whether the append goes on. -/
abbrev AppendStep := Appender × Except PersistenceError Bool

def AppendStep.andThen (result : AppendStep) (next : Appender → AppendStep) : AppendStep :=
  match result.2 with
  | .ok true => next result.1
  | .ok false => (result.1,.ok false)
  | .error error => (result.1,.error error)

/-- The loop of the two reclaimers: a page that the window does not admit is halved. -/
def reclaimRows (page : ℕ → Verdict) (retire : ℕ → Except PersistenceError (Bool × Database))
    (exceeds : PersistenceError) (rows : ℕ) : Except PersistenceError (Bool × Database) :=
  match retire rows with
  | .error error => .error error
  | .ok (false,db) => .ok (false,db)
  | .ok (true,db) =>
    match page rows with
    | .fits => .ok (true,db)
    | .fails error => .error error
    | .overBudget =>
      if rows ≤ 1 then .error exceeds else reclaimRows page retire exceeds (rows/2)
termination_by rows

/-- The bytes of the replay that lie above the head. -/
def freshBytes (head : ℕ) (replay : OutputReplay) : ℕ :=
  (replay.chunks.map fun chunk => chunk.endByte-max chunk.startByte head).sum

/-- The bytes that the Run's own window has to give up for the replay. -/
def ownNeeded (limits : OutputLimits) (row : RunRow) (replay : OutputReplay) : ℕ :=
  if replay.truncated = true ∧ row.durableOutputBytes < replay.firstAvailableByte then row.replayBytes
  else row.replayBytes+freshBytes row.durableOutputBytes replay-limits.durableRunOutputBytes

def globalNeeded (limits : OutputLimits) (db : Database) (row : RunRow) (replay : OutputReplay) : ℕ :=
  db.accounting.replayBytes+freshBytes row.durableOutputBytes replay-limits.durableReplayBytes

/-- Retire confirmed bytes that the replay's limits no longer allow; false when there are none. -/
def reclaimOutputPrefix (f : Funding) (a : Appender) (id : RunId) (replay : OutputReplay) :
    Except PersistenceError (Bool × Database) := do
  let row ← a.store.db.selectRun id
  let own := ownNeeded f.limits row replay
  let needed := max own (globalNeeded f.limits a.store.db row replay)
  if needed = 0 then .ok (false,a.store.db)
  else
    reclaimRows (f.page a.attempts.length)
      (reclaimConfirmedPrefix a.store.db needed (if 0 < own then some id else none))
      (.resourcePressure "one replay reclamation unit exceeds the configured WAL window")
      f.limits.rowFunding

/-- Whole confirmed rows go to fund database pages. -/
def reclaimDatabaseRows (f : Funding) (a : Appender) (capacity : PersistenceError) :
    Except PersistenceError (Bool × Database) :=
  reclaimRows (f.page a.attempts.length)
    (fun rows => (reclaimDatabasePages a.store.db capacity rows).map fun db => (true,db))
    (.pendingPressure "one confirmed replay reclamation unit exceeds the configured WAL window")
    f.limits.rowFunding

namespace Appender

def withDatabase (a : Appender) (db : Database) : Appender := { a with store := ⟨db,a.store.files⟩ }

/-- A Run that is being reclaimed gives up its next page before it is asked to write. -/
def reclaimBefore (f : Funding) (a : Appender) (batch : Entries) : AppendStep :=
  match coalesceBatch batch with
  | [(id,replay)] =>
    if id ∈ a.reclaimingOutput then
      match reclaimOutputPrefix f a id replay with
      | .error error => (a,.error error)
      | .ok (true,db) => (a.withDatabase db,.ok false)
      | .ok (false,_) => ({ a with reclaimingOutput := a.reclaimingOutput.erase id },.ok true)
    else (a,.ok true)
  | _ => (a,.ok true)

/-- A single Run that is over budget gives up confirmed bytes before its append is divided. -/
def reclaimAfter (f : Funding) (a : Appender) (batch : Entries) : AppendStep :=
  match coalesceBatch batch with
  | [(id,replay)] =>
    match reclaimOutputPrefix f a id replay with
    | .error error => (a,.error error)
    | .ok (true,db) =>
      ({ a.withDatabase db with reclaimingOutput := id::a.reclaimingOutput.erase id },.ok false)
    | .ok (false,_) => (a,.ok true)
  | _ => (a,.ok true)

/-- A transaction that failed on a full database at its page ceiling is funded by retiring
confirmed rows, and is then left to the actor. -/
def reclaimFull (f : Funding) (a : Appender) (error : PersistenceError) : AppendStep :=
  match if error.isDiskFull then f.exhausted a.attempts.length else none with
  | none => (a,.error error)
  | some capacity =>
    match reclaimDatabaseRows f a capacity with
    | .error error => (a,.error error)
    | .ok (_,db) => (a.withDatabase db,.ok false)

/-- A committed transaction publishes the head of every Run that it names. -/
def settleHeads (a : Appender) (db : Database) (batch : Entries) : RunId → ℕ := fun id =>
  if id ∈ batch.map (·.1) then ((db.run? id).map (·.durableOutputBytes)).getD (a.durableHead id)
  else a.durableHead id

def ran (a : Appender) (batch : Entries) (terminal : Option TerminalSettlement)
    (committed : Bool) : List Attempt :=
  a.attempts ++ [⟨batch,terminal,committed⟩]

/-- `append_transaction_once`: the transaction commits whole or leaves the store as it was. -/
def appendTransactionOnce (f : Funding) (a : Appender) (batch : Entries)
    (terminal : Option TerminalSettlement) : AppendStep :=
  if maxTransactionPayloadBytes < batch.payload then
    (a,.error (.mutation
      s!"output transaction payload {batch.payload} exceeds the 1 MiB admission ceiling"))
  else
    match f.output a.attempts.length batch, stageOutput f.codec f.limits a.store batch terminal with
    | .fails error, _ => ({ a with attempts := a.ran batch terminal false },.error error)
    | _, .error error => ({ a with attempts := a.ran batch terminal false },.error error)
    | .fits, .ok (true,staged) =>
      ({ a with
          store := staged
          durableHead := a.settleHeads staged.db batch
          attempts := a.ran batch terminal true },.ok true)
    | _, .ok _ => ({ a with attempts := a.ran batch terminal false },.ok false)

end Appender

/-- The two pieces that `reduce_output_transaction` makes of a batch; one unit of at most a
byte is not divided. -/
def reducedOutput (batch : Entries) : Except PersistenceError (Entries × Entries) :=
  if 1 < batch.length then
    .ok (batch.take (batch.length/2),batch.drop (batch.length/2))
  else
    match batch with
    | [] => .error
      (.resourcePressure "empty output metadata does not fit the configured WAL window")
    | (id,replay)::_ =>
      let middle := replay.chunks.length/2
      if 1 < replay.chunks.length then
        .ok ([(id,{ replay with
            chunks := replay.chunks.take middle
            latestOutputBytes := ((replay.chunks[middle-1]?).map (·.endByte)).getD 0 })],
          [(id,{ replay with chunks := replay.chunks.drop middle })])
      else
        match replay.chunks.head?.filter fun chunk => 1 < chunk.data.length with
        | some chunk =>
          let half := chunk.data.length/2
          let splitByte := chunk.startByte+half
          .ok ([(id,{ replay with
              chunks := [⟨chunk.startByte,splitByte,chunk.data.take half⟩]
              latestOutputBytes := splitByte })],
            [(id,{ replay with chunks := [⟨splitByte,chunk.endByte,chunk.data.drop half⟩] })])
        | none => .error (.resourcePressure
            "one output metadata unit does not fit the configured WAL window; increase wal_checkpoint_bytes")

/-- The three divisions: between the entries, between the chunks of the only entry, or inside
its only chunk. -/
inductive Halved : Entries → Entries → Entries → Prop
  | entries {batch : Entries} (many : 1 < batch.length) :
      Halved batch (batch.take (batch.length/2)) (batch.drop (batch.length/2))
  | chunks {id : RunId} {replay : OutputReplay} (many : 1 < replay.chunks.length) :
      Halved [(id,replay)]
        [(id,{ replay with
          chunks := replay.chunks.take (replay.chunks.length/2)
          latestOutputBytes :=
            ((replay.chunks[replay.chunks.length/2-1]?).map (·.endByte)).getD 0 })]
        [(id,{ replay with chunks := replay.chunks.drop (replay.chunks.length/2) })]
  | bytes {id : RunId} {replay : OutputReplay} {chunk : OutputChunk}
      (only : replay.chunks = [chunk]) (long : 1 < chunk.data.length) :
      Halved [(id,replay)]
        [(id,{ replay with
          chunks := [⟨chunk.startByte,chunk.startByte+chunk.data.length/2,
            chunk.data.take (chunk.data.length/2)⟩]
          latestOutputBytes := chunk.startByte+chunk.data.length/2 })]
        [(id,{ replay with
          chunks := [⟨chunk.startByte+chunk.data.length/2,chunk.endByte,
            chunk.data.drop (chunk.data.length/2)⟩] })]

theorem eq_nil_of_length {α : Type} {x : α} {xs : List α} (h : ¬1 < (x::xs).length) : xs = [] :=
  List.length_eq_zero_iff.mp (by simp only [List.length_cons] at h; omega)

theorem reducedOutput_halved {batch front tail : Entries}
    (h : reducedOutput batch = .ok (front,tail)) : Halved batch front tail := by
  unfold reducedOutput at h
  split at h
  · rename_i hlength
    obtain ⟨rfl,rfl⟩ := Prod.mk.inj (Except.ok.inj h)
    exact .entries hlength
  · rename_i hlength
    split at h
    · cases h
    · rename_i id replay rest
      obtain rfl := eq_nil_of_length hlength
      dsimp only at h
      split at h
      · rename_i hchunks
        obtain ⟨rfl,rfl⟩ := Prod.mk.inj (Except.ok.inj h)
        exact .chunks hchunks
      · rename_i hshort
        split at h
        · rename_i chunk hchunk
          obtain ⟨rfl,rfl⟩ := Prod.mk.inj (Except.ok.inj h)
          obtain ⟨hhead,hlong⟩ := Option.filter_eq_some_iff.mp hchunk
          obtain ⟨more,hmore⟩ := List.head?_eq_some_iff.mp hhead
          rw [hmore] at hshort
          obtain rfl := eq_nil_of_length hshort
          exact .bytes hmore (of_decide_eq_true hlong)
        · cases h

/-- What a batch still has to be divided by. -/
def Entries.weight (batch : Entries) : ℕ :=
  (batch.map fun item => 1+(item.2.chunks.map fun chunk => 1+chunk.data.length).sum).sum

theorem Entries.weight_append (xs ys : Entries) : (xs ++ ys).weight = xs.weight+ys.weight := by
  simp [weight]

theorem Entries.weight_pos {batch : Entries} (h : batch ≠ []) : 0 < batch.weight := by
  cases batch with
  | nil => exact absurd rfl h
  | cons item batch =>
    simp only [weight,List.map_cons,List.sum_cons]
    omega

theorem Entries.weight_halves {batch : Entries} (h : 1 < batch.length) :
    Entries.weight (batch.take (batch.length/2)) < batch.weight ∧
      Entries.weight (batch.drop (batch.length/2)) < batch.weight := by
  have hsum : Entries.weight (batch.take (batch.length/2))+
      Entries.weight (batch.drop (batch.length/2)) = batch.weight := by
    rw [← weight_append,List.take_append_drop]
  have hfront := @weight_pos (batch.take (batch.length/2))
    (List.length_pos_iff.mp (by rw [List.length_take]; omega))
  have htail := @weight_pos (batch.drop (batch.length/2))
    (List.length_pos_iff.mp (by rw [List.length_drop]; omega))
  omega

theorem Entries.weight_single (id : RunId) (replay : OutputReplay) :
    Entries.weight [(id,replay)] =
      1+(replay.chunks.map fun chunk => 1+chunk.data.length).sum := by
  simp [weight]

theorem sum_pos_of_ne_nil {chunks : List OutputChunk} (h : chunks ≠ []) :
    0 < (chunks.map fun chunk => 1+chunk.data.length).sum := by
  cases chunks with
  | nil => exact absurd rfl h
  | cons chunk chunks =>
    rw [List.map_cons,List.sum_cons]
    omega

theorem reducedOutput_weight {batch front tail : Entries}
    (h : reducedOutput batch = .ok (front,tail)) :
    front.weight < batch.weight ∧ tail.weight < batch.weight := by
  cases reducedOutput_halved h with
  | entries many => exact Entries.weight_halves many
  | @chunks id replay many =>
    simp only [Entries.weight_single]
    have hsum : ((replay.chunks.take (replay.chunks.length/2)).map
        fun chunk => 1+chunk.data.length).sum+
        ((replay.chunks.drop (replay.chunks.length/2)).map
        fun chunk => 1+chunk.data.length).sum =
        (replay.chunks.map fun chunk => 1+chunk.data.length).sum := by
      rw [← List.sum_append,← List.map_append,List.take_append_drop]
    have hfront := @sum_pos_of_ne_nil (replay.chunks.take (replay.chunks.length/2))
      (List.length_pos_iff.mp (by rw [List.length_take]; omega))
    have htail := @sum_pos_of_ne_nil (replay.chunks.drop (replay.chunks.length/2))
      (List.length_pos_iff.mp (by rw [List.length_drop]; omega))
    omega
  | bytes only long =>
    simp only [Entries.weight_single,only,List.map_cons,List.map_nil,List.sum_cons,List.sum_nil,
      List.length_take,List.length_drop]
    omega

/-- Run a batch in one transaction, or in the pieces that the WAL window admits. A page that
was reclaimed ends the call with `false`. -/
def appendTransactionWithShutdown (f : Funding) (a : Appender) (batch : Entries)
    (terminal : Option TerminalSettlement) : AppendStep :=
  (a.reclaimBefore f batch).andThen fun a =>
    let once := a.appendTransactionOnce f batch terminal
    match once.2 with
    | .ok true => (once.1,.ok true)
    | .error error => once.1.reclaimFull f error
    | .ok false =>
      (once.1.reclaimAfter f batch).andThen fun a =>
        match hpieces : reducedOutput batch with
        | .error error => (a,.error error)
        | .ok (front,tail) =>
          (appendTransactionWithShutdown f a front none).andThen fun a =>
            appendTransactionWithShutdown f a tail terminal
termination_by batch.weight
decreasing_by
  · exact (reducedOutput_weight hpieces).1
  · exact (reducedOutput_weight hpieces).2

/-- The transaction being gathered: its entries, its payload, and the heads that its Runs
will have. -/
structure Gathering where
  batch : Entries
  payload : ℕ
  expectedHeads : RunId → Option ℕ

def Gathering.start : Gathering := ⟨[],0,fun _ => none⟩

/-- The replay of one group; the last group keeps the end that the append was offered with. -/
def partialReplay (replay : OutputReplay) (isLast : Bool) (chunks : List OutputChunk) :
    OutputReplay :=
  { groupReplay replay chunks with
    latestOutputBytes :=
      if isLast then replay.latestOutputBytes else (chunks.getLast?).elim 0 (·.endByte) }

/-- A step of the gathering loop, with what it gathers from there on. -/
abbrev GatherStep := Appender × Except PersistenceError (Option Gathering)

def GatherStep.andThen (result : GatherStep) (next : Appender → Gathering → GatherStep) :
    GatherStep :=
  match result.2 with
  | .ok (some g) => next result.1 g
  | .ok none => (result.1,.ok none)
  | .error error => (result.1,.error error)

/-- Run a transaction inside the loop and go on with `g`. -/
def AppendStep.gather (result : AppendStep) (g : Gathering) : GatherStep :=
  (result.1,result.2.map fun done => if done then some g else none)

/-- One group of an entry: what is gathered is run first when the group does not fit into
1 MiB with it or does not continue its Run; such a group is run alone. -/
def gatherGroup (f : Funding) (a : Appender) (g : Gathering) (id : RunId) (piece : OutputReplay) :
    GatherStep :=
  let firstByte := (piece.chunks.head?).elim 0 (·.startByte)
  let expectedHead := (g.expectedHeads id).getD (a.durableHead id)
  let isFreshContiguous := decide (firstByte = expectedHead)
  let flushed : GatherStep :=
    if g.batch ≠ [] ∧ (maxTransactionPayloadBytes < g.payload+replayPayload piece ∨
        isFreshContiguous = false) then
      (appendTransactionWithShutdown f a g.batch none).gather Gathering.start
    else (a,.ok (some g))
  flushed.andThen fun a g =>
    if isFreshContiguous = false then
      (appendTransactionWithShutdown f a [(id,piece)] none).gather g
    else
      (a,.ok (some
        { batch := g.batch ++ [(id,piece)]
          payload := g.payload+replayPayload piece
          expectedHeads := Function.update g.expectedHeads id (some piece.latestOutputBytes) }))

def gatherGroups (f : Funding) (id : RunId) (replay : OutputReplay) :
    List (List OutputChunk) → Appender → Gathering → GatherStep
  | [], a, g => (a,.ok (some g))
  | chunks::groups, a, g =>
    (gatherGroup f a g id (partialReplay replay groups.isEmpty chunks)).andThen
      (gatherGroups f id replay groups)

/-- One append of the batch. A Run that was removed owns no further output, and an append
without chunks joins what is gathered. -/
def gatherEntry (f : Funding) (a : Appender) (g : Gathering) (id : RunId) (replay : OutputReplay) :
    GatherStep :=
  if (a.store.db.run? id).isNone then
    ({ a with reclaimingOutput := a.reclaimingOutput.erase id },.ok (some g))
  else
    match splitChunks replay.chunks with
    | .error error => (a,.error error)
    | .ok [] => (a,.ok (some { g with batch := g.batch ++ [(id,replay)] }))
    | .ok groups => gatherGroups f id replay groups a g

def gatherBatch (f : Funding) : Entries → Appender → Gathering → GatherStep
  | [], a, g => (a,.ok (some g))
  | item::batch, a, g => (gatherEntry f a g item.1 item.2).andThen (gatherBatch f batch)

def appendBatchWithShutdown (f : Funding) (a : Appender) (batch : Entries) : AppendStep :=
  let gathered := gatherBatch f batch a Gathering.start
  match gathered.2 with
  | .error error => (gathered.1,.error error)
  | .ok none => (gathered.1,.ok false)
  | .ok (some g) =>
    if g.batch = [] then (gathered.1,.ok true)
    else appendTransactionWithShutdown f gathered.1 g.batch none

end Durable
end Ctxmux
