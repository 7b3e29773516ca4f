import Ctxmux.StartupInterrupted

/-!
# The Runs that an opening recovers

Every Run of the store is loaded, the last one to end first, and takes from one shared
budget the bytes of its replay that stay in memory.
-/

namespace Ctxmux
namespace Durable
namespace Startup

open Tiling

/-- The limits that bound the replays held in memory. -/
structure ResourceLimits where
  hotOutputBytes : ℕ
  runOutputBytes : ℕ
deriving DecidableEq,Repr

structure RecoveredRun where
  operationKey : String
  id : RunId
  specJson : String
  lineageJson : Option String
  state : RunState
  pid : Option ℕ
  firstAvailableByte : ℕ
  latestOutputBytes : ℕ
  replay : OutputReplay
  metadataBytes : ℕ
  sourceGapAfterByte : Option ℕ
deriving DecidableEq,Repr

/-- The bytes of a Run's replay that stay in memory. -/
def RecoveredRun.hot (run : RecoveredRun) : ℕ := (run.replay.chunks.map (·.data.length)).sum

/-- The key of `ORDER BY coalesce(terminal_at_ms, updated_at_ms), created_at_ms, id`. -/
def recoveryKey (times : RunId → RowTimes) (id : RunId) : ℤ ×ₗ ℤ ×ₗ String :=
  toLex ((times id).terminalAtMs.getD (times id).updatedAtMs,toLex ((times id).createdAtMs,id.text))

def decodeLineage (codec : Codec) : Option String → Except PersistenceError Unit
  | none => .ok ()
  | some text => do
    let _ ← decoded (codec.parseLineageParent text) fun e => .database e none none none
    .ok ()

def decodeRecoveredRow (codec : Codec) (s : Store) (row : RunRow) (cacheBytes : ℕ) :
    Except PersistenceError RecoveredRun := do
  decoded (codec.parseKey row.creationKey)
    fun e => .corrupt s!"invalid creation operation key for recovered Run {row.id}: {e}"
  decoded (codec.decodeSpec row.specJson) fun e => .corrupt s!"invalid spec for {row.id}: {e}"
  decodeLineage codec row.lineageJson
  let state ← decoded (codec.parseState row.stateJson) fun e => .database e none none none
  ensure (row.pid.all (· < 2^32) = true) (.corrupt "invalid recovered PID")
  let sourceGap ← sourceGapFact codec row.stateJson row.durableOutputBytes
  let first := max (row.durableOutputBytes-cacheBytes) row.durableFirstAvailableByte
  let chunks ← loadReplayChunksRange s row.id first row.durableOutputBytes
  .ok {
    operationKey := row.creationKey
    id := row.id
    specJson := row.specJson
    lineageJson := row.lineageJson
    state := state
    pid := row.pid
    firstAvailableByte := row.durableFirstAvailableByte
    latestOutputBytes := row.durableOutputBytes
    replay := ⟨chunks,first,row.durableOutputBytes,row.replayTruncated⟩
    metadataBytes := row.metadataBytes
    sourceGapAfterByte := sourceGap }

/-- One turn of the loop, with the budget that is left and the Runs recovered so far. -/
def recoverRow (codec : Codec) (s : Store) (resources : ResourceLimits)
    (acc : ℕ × List RecoveredRun) (row : RunRow) :
    Except PersistenceError (ℕ × List RecoveredRun) := do
  let run ← decodeRecoveredRow codec s row (min acc.1 resources.runOutputBytes)
  .ok (acc.1-run.hot,acc.2 ++ [run])

/-- The rows of `runs` in the order in which they are recovered. -/
def recoveryRows (s : StartupStore) : List RunRow :=
  s.store.db.runs.insertionSort fun x y => recoveryKey s.times y.id ≤ recoveryKey s.times x.id

def loadRecoveredBounded (codec : Codec) (s : StartupStore) (resources : ResourceLimits) :
    Except PersistenceError (List RecoveredRun) := do
  let acc ← (recoveryRows s).foldlM (recoverRow codec s.store resources)
    (resources.hotOutputBytes,[])
  .ok acc.2.reverse

variable {codec : Codec} {s : Store} {streams : RunId → ℕ → Byte} {resources : ResourceLimits}

/-- A recovered Run has the facts of its row, and the last `bytes` bytes of its output. -/
structure Recovered (codec : Codec) (streams : RunId → ℕ → Byte) (row : RunRow) (bytes : ℕ)
    (run : RecoveredRun) : Prop where
  id : run.id = row.id
  key : run.operationKey = row.creationKey
  state : codec.parseState row.stateJson = .ok run.state
  pid : run.pid = row.pid
  floor : run.firstAvailableByte = row.durableFirstAvailableByte
  head : run.latestOutputBytes = row.durableOutputBytes
  metadata : run.metadataBytes = row.metadataBytes
  first : run.replay.firstAvailableByte = row.durableOutputBytes-bytes
  tiles : Tiles OutputChunk.startByte OutputChunk.endByte (row.durableOutputBytes-bytes)
    run.replay.chunks row.durableOutputBytes
  data : run.replay.chunks.flatMap (·.data) =
    slice (streams row.id) (row.durableOutputBytes-bytes) row.durableOutputBytes
  hot : run.hot = bytes

/-- What a Run has retained. -/
def retained (row : RunRow) : ℕ := row.durableOutputBytes-row.durableFirstAvailableByte

theorem decodeLineage_ok {row : RunRow} (h : Described codec row) :
    decodeLineage codec row.lineageJson = .ok () := by
  cases hlineage : row.lineageJson with
  | none => rfl
  | some text =>
    obtain ⟨parent,hparent,_⟩ := h.lineage text hlineage
    exact ok_bind (decoded_of hparent _)

theorem decodeRecoveredRow_ok {row : RunRow} (hwf : WellFormed codec s)
    (hf : Faithful streams s.db s.files) (hr : row ∈ s.db.runs) (cacheBytes : ℕ) :
    ∃ run, decodeRecoveredRow codec s row cacheBytes = .ok run ∧
      Recovered codec streams row (min cacheBytes (retained row)) run := by
  have hd := hwf.described row hr
  have hw := hwf.windows row hr
  have hle := hw.tiles.le
  obtain ⟨state,hstate,_⟩ := hd.state
  obtain ⟨gap,hgap⟩ := sourceGapFact_ok hd
  have hpid : row.pid.all (· < 2^32) = true := by
    cases hp : row.pid with
    | none => rfl
    | some pid => simpa [hp] using hd.pid pid hp
  obtain ⟨chunks,hchunks,hpaged⟩ := loadReplayChunksRange_ok hf hwf.sound hw
    (le_max_right (row.durableOutputBytes-cacheBytes) row.durableFirstAvailableByte)
    (le_refl row.durableOutputBytes)
  have hfirst : max (row.durableOutputBytes-cacheBytes) row.durableFirstAvailableByte =
      row.durableOutputBytes-min cacheBytes (retained row) := by
    unfold retained
    omega
  have hend : max (max (row.durableOutputBytes-cacheBytes) row.durableFirstAvailableByte)
      row.durableOutputBytes = row.durableOutputBytes := by omega
  rw [hend,hfirst] at hpaged
  have hdata := hpaged.tiles.flatMap_slice hpaged.data
  let run : RecoveredRun := {
    operationKey := row.creationKey
    id := row.id
    specJson := row.specJson
    lineageJson := row.lineageJson
    state := state
    pid := row.pid
    firstAvailableByte := row.durableFirstAvailableByte
    latestOutputBytes := row.durableOutputBytes
    replay := ⟨chunks,max (row.durableOutputBytes-cacheBytes) row.durableFirstAvailableByte,
      row.durableOutputBytes,row.replayTruncated⟩
    metadataBytes := row.metadataBytes
    sourceGapAfterByte := gap }
  refine ⟨run,?_,?_⟩
  · unfold decodeRecoveredRow
    rw [ok_bind (decoded_of hd.key _),ok_bind (decoded_of hd.spec _),ok_bind (decodeLineage_ok hd),
      ok_bind (decoded_of hstate _),ok_bind (ensure_of hpid _),ok_bind hgap]
    dsimp only
    rw [ok_bind hchunks]
  · have hhot : (chunks.map (·.data.length)).sum = min cacheBytes (retained row) := by
      rw [← List.length_flatMap,hdata,length_slice]
      unfold retained
      omega
    exact ⟨rfl,rfl,hstate,rfl,rfl,rfl,rfl,hfirst,hpaged.tiles,hdata,hhot⟩

/-- What is left of the budget, Run by Run, in the order of `rows`. -/
def Shares (codec : Codec) (streams : RunId → ℕ → Byte) (resources : ResourceLimits) :
    ℕ → List RunRow → List RecoveredRun → Prop
  | _, [], [] => True
  | available, row::rows, run::runs =>
    Recovered codec streams row (min (min available resources.runOutputBytes) (retained row)) run ∧
      Shares codec streams resources (available-run.hot) rows runs
  | _, _, _ => False

theorem foldlM_recoverRow (resources : ResourceLimits) (hwf : WellFormed codec s) (hf : Faithful streams s.db s.files)
    {rows : List RunRow} (hrows : ∀ row ∈ rows, row ∈ s.db.runs) (available : ℕ)
    (recovered : List RecoveredRun) :
    ∃ left runs, rows.foldlM (recoverRow codec s resources) (available,recovered) =
        .ok (left,recovered ++ runs) ∧ Shares codec streams resources available rows runs := by
  induction rows generalizing available recovered with
  | nil => exact ⟨available,[],by simp [pure,Except.pure],trivial⟩
  | cons row rows ih =>
    obtain ⟨run,hrun,hrecovered⟩ := decodeRecoveredRow_ok hwf hf (hrows row (by simp))
      (min available resources.runOutputBytes)
    obtain ⟨left,runs,hfold,hshares⟩ := ih (fun r hr => hrows r (by simp [hr]))
      (available-run.hot) (recovered ++ [run])
    refine ⟨left,run::runs,?_,hrecovered,hshares⟩
    have hfirst : recoverRow codec s resources (available,recovered) row =
        .ok (available-run.hot,recovered ++ [run]) := by
      unfold recoverRow
      rw [ok_bind hrun]
    rw [List.append_assoc,List.singleton_append] at hfold
    rw [List.foldlM_cons,hfirst]
    exact hfold

namespace Shares

variable {available : ℕ} {rows : List RunRow} {runs : List RecoveredRun}

theorem ids (h : Shares codec streams resources available rows runs) :
    runs.map (·.id) = rows.map (·.id) := by
  induction rows generalizing available runs with
  | nil => cases runs with
    | nil => rfl
    | cons => exact h.elim
  | cons row rows ih => cases runs with
    | nil => exact h.elim
    | cons run runs => rw [List.map_cons,List.map_cons,h.1.id,ih h.2]

theorem hot_le (h : Shares codec streams resources available rows runs) :
    (runs.map (·.hot)).sum ≤ available := by
  induction rows generalizing available runs with
  | nil => cases runs with
    | nil => exact Nat.zero_le _
    | cons => exact h.elim
  | cons row rows ih => cases runs with
    | nil => exact h.elim
    | cons run runs =>
      have hrest := ih h.2
      have hrun := h.1.hot
      rw [List.map_cons,List.sum_cons]
      omega

theorem split {before after : List RecoveredRun} {run : RecoveredRun}
    (h : Shares codec streams resources available rows (before ++ run::after)) :
    ∃ row ∈ rows, Recovered codec streams row
      (min (min (available-(before.map (·.hot)).sum) resources.runOutputBytes) (retained row))
      run := by
  induction before generalizing available rows with
  | nil => cases rows with
    | nil => exact h.elim
    | cons row rows => exact ⟨row,by simp,by simpa using h.1⟩
  | cons first before ih => cases rows with
    | nil => exact h.elim
    | cons row rows =>
      obtain ⟨r,hr,hrecovered⟩ := ih h.2
      refine ⟨r,by simp [hr],?_⟩
      rwa [List.map_cons,List.sum_cons,← Nat.sub_sub]

end Shares

variable {opened : StartupStore}

theorem pairwise_recoveryRows (opened : StartupStore) : (recoveryRows opened).Pairwise
    fun x y => recoveryKey opened.times y.id ≤ recoveryKey opened.times x.id := by
  have htotal : Std.Total fun x y : RunRow =>
      recoveryKey opened.times y.id ≤ recoveryKey opened.times x.id :=
    ⟨fun x y => le_total _ _⟩
  have htrans : IsTrans RunRow fun x y =>
      recoveryKey opened.times y.id ≤ recoveryKey opened.times x.id :=
    ⟨fun x y z hxy hyz => hyz.trans hxy⟩
  exact List.pairwise_insertionSort _ _

/-- Every Run comes back, oldest end first; together they keep no more than the budget, and
each the last bytes of its output that its limit, its window and the Runs that ended after
it leave room for. -/
theorem loadRecoveredBounded_ok (hwf : WellFormed codec opened.store)
    (hf : Faithful streams opened.store.db opened.store.files) (resources : ResourceLimits) :
    ∃ recovered, loadRecoveredBounded codec opened resources = .ok recovered ∧
      (recovered.map (·.id)).Perm (opened.store.db.runs.map (·.id)) ∧
      (recovered.map fun run => recoveryKey opened.times run.id).Pairwise (· ≤ ·) ∧
      (recovered.map (·.hot)).sum ≤ resources.hotOutputBytes ∧
      ∀ older run newer, recovered = older ++ run::newer →
        ∃ row ∈ opened.store.db.runs, Recovered codec streams row
          (min (min (resources.hotOutputBytes-(newer.map (·.hot)).sum) resources.runOutputBytes)
            (retained row)) run := by
  have hsorted : (recoveryRows opened).Perm opened.store.db.runs := List.perm_insertionSort _ _
  obtain ⟨left,runs,hfold,hshares⟩ := foldlM_recoverRow resources hwf hf
    (fun row hr => hsorted.mem_iff.mp hr) resources.hotOutputBytes []
  refine ⟨runs.reverse,?_,?_,?_,?_,?_⟩
  · unfold loadRecoveredBounded
    rw [ok_bind hfold,List.nil_append]
  · rw [List.map_reverse,hshares.ids]
    exact (List.reverse_perm _).trans (hsorted.map _)
  · have hids : (runs.map (·.id)).Pairwise
        fun x y => recoveryKey opened.times y ≤ recoveryKey opened.times x := by
      rw [hshares.ids]
      exact List.pairwise_map.mpr (pairwise_recoveryRows opened)
    rw [List.pairwise_map,List.pairwise_reverse]
    exact List.pairwise_map.mp hids
  · rw [List.map_reverse,List.sum_reverse]
    exact hshares.hot_le
  · intro older run newer hsplit
    have hruns : runs = newer.reverse ++ run::older.reverse := by
      rw [← List.reverse_reverse runs,hsplit]
      simp
    rw [hruns] at hshares
    obtain ⟨row,hrow,hrecovered⟩ := hshares.split
    rw [List.map_reverse,List.sum_reverse] at hrecovered
    exact ⟨row,hsorted.mem_iff.mp hrow,hrecovered⟩

end Startup
end Durable
end Ctxmux
