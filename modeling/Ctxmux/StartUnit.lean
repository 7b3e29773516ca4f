import Ctxmux.DurableStore

/-!
# The unit of a staged start

A start replaces its exact terminal candidates by one prepared Run in a single
transaction. The Runs that the transaction starts from are its old unit, the Runs
that it stages are its new unit, and a probe of the rows tells the two apart. The
writers that reclaim replay space change neither.
-/

namespace Ctxmux
namespace Durable

structure StageFailure where
  error : PersistenceError
  fatal : Bool
  capacity : Bool
deriving DecidableEq,Repr

def admissionFailure (message : String) : StageFailure where
  error := .mutation message
  fatal := false
  capacity := true

def fatalStageFailure (message : String) : StageFailure where
  error := .mutation message
  fatal := true
  capacity := false

/-- The failure that staging makes of an SQL error; a check that failed is fatal. -/
def StageFailure.ofError (error : PersistenceError) : StageFailure where
  error := error
  fatal := !error.isTransientStorage
  capacity := error.isDiskFull

structure StartRequest where
  prepared : PreparedPersistentStart
  candidates : List PersistentCandidate
deriving DecidableEq,Repr

/-- The limits and the texts that a start is checked and reported with. -/
structure StartContext where
  codec : Codec
  epoch : String
  runRecords : ℕ
  metadataBytes : ℕ
  walCheckpointBytes : ℕ
  walBytes : ℕ
  text : PersistenceError → String

def u64Max : ℕ := 2^64-1

def refuse {α : Type} (failure : StageFailure) : Except StageFailure α := .error failure

/-- The checks of one candidate against its stored row. -/
def validateStoredCandidate (codec : Codec) (db : Database) (candidate : PersistentCandidate) :
    Except StageFailure Unit :=
  match db.run? candidate.id with
  | none => refuse (fatalStageFailure
      s!"persistent replacement candidate {candidate.id} is missing")
  | some row =>
    match codec.parseState row.stateJson with
    | .error message => refuse (fatalStageFailure message)
    | .ok state =>
      if row.creationKey ≠ candidate.operationKey ∨ row.metadataBytes ≠ candidate.metadataBytes ∨
          row.stateKind ≠ stateKindFor state ∨ state = .running then
        refuse (fatalStageFailure
          s!"persistent replacement candidate {candidate.id} does not match its exact terminal snapshot")
      else .ok ()

def validateExactCandidates (codec : Codec) (db : Database) (prepared : PreparedPersistentStart) :
    List RunId → List PersistentCandidate → Except StageFailure Unit
  | _, [] => .ok ()
  | seen, candidate::candidates =>
    if candidate.id ∈ seen then
      refuse (fatalStageFailure s!"persistent replacement repeats candidate {candidate.id}")
    else if candidate.id = prepared.id ∨ candidate.operationKey = prepared.operationKey then
      refuse (fatalStageFailure
        "persistent replacement cannot reuse a candidate Run or creation identity")
    else do
      validateStoredCandidate codec db candidate
      validateExactCandidates codec db prepared (candidate.id::seen) candidates

def validateProjectedCapacity (ctx : StartContext) (db : Database) (request : StartRequest) :
    Except StageFailure Unit :=
  let candidateMetadata := (request.candidates.map (·.metadataBytes)).sum
  let candidateRecords := request.candidates.length
  if u64Max < candidateMetadata then
    refuse (fatalStageFailure "candidate metadata accounting overflowed")
  else if db.accounting.records < candidateRecords then
    refuse (fatalStageFailure "projected record count is inconsistent")
  else if db.accounting.metadataBytes < candidateMetadata ∨
      u64Max < db.accounting.metadataBytes-candidateMetadata+request.prepared.metadataBytes then
    refuse (fatalStageFailure "projected metadata is inconsistent")
  else if ctx.runRecords < db.accounting.records-candidateRecords+1 ∨
      ctx.metadataBytes <
        db.accounting.metadataBytes-candidateMetadata+request.prepared.metadataBytes then
    refuse (admissionFailure "exact persistent candidates do not fund the retained Run capacity")
  else .ok ()

def stageExactReplacement (ctx : StartContext) (db : Database) (request : StartRequest) :
    Except StageFailure Database := do
  validateExactCandidates ctx.codec db request.prepared [] request.candidates
  validateProjectedCapacity ctx db request
  match applyExactReplacement db request.prepared request.candidates with
  | .ok db => .ok db
  | .error error => refuse (.ofError error)

inductive CommitProbe where
  | oldUnit | newUnit | hybrid
deriving DecidableEq,Repr

/-- The stored row is the exact terminal snapshot of the candidate. -/
def exactCandidate (codec : Codec) (candidate : PersistentCandidate) (row : RunRow) : Bool :=
  decide (row.creationKey = candidate.operationKey) &&
    decide (row.metadataBytes = candidate.metadataBytes) &&
    match codec.parseState row.stateJson with
    | .ok state => row.stateKind = stateKindFor state ∧ state ≠ .running
    | .error _ => false

/-- How many candidates are still stored; nothing when one of them is stored otherwise. -/
def probeCandidates (codec : Codec) (db : Database) : List PersistentCandidate → Option ℕ
  | [] => some 0
  | candidate::candidates =>
    match db.run? candidate.id with
    | none => probeCandidates codec db candidates
    | some row =>
      if exactCandidate codec candidate row then
        (probeCandidates codec db candidates).map (·+1)
      else none

def exactPrepared (prepared : PreparedPersistentStart) (row : RunRow) : Bool :=
  row.creationKey = prepared.operationKey ∧ row.specJson = prepared.specJson ∧
    row.lineageJson = prepared.lineageJson ∧ row.stateKind = .running ∧
    row.stateJson = prepared.stateJson ∧ row.sourceEpoch = prepared.epoch ∧ row.pid = none ∧
    row.metadataBytes = prepared.metadataBytes

def probeExactReplacement (codec : Codec) (db : Database) (request : StartRequest) : CommitProbe :=
  match probeCandidates codec db request.candidates with
  | none => .hybrid
  | some present =>
    match db.run? request.prepared.id with
    | none => if present = request.candidates.length then .oldUnit else .hybrid
    | some row =>
      if exactPrepared request.prepared row = true ∧ present = 0 then .newUnit else .hybrid

/-- A row without the columns that replay retention moves. -/
def RunRow.identity (row : RunRow) : RunRow :=
  { row with durableFirstAvailableByte := 0, replayBytes := 0, replayTruncated := false }

def Database.identities (db : Database) : List RunRow := db.runs.map RunRow.identity

/-- The row that a start inserts. -/
def PreparedPersistentStart.row (prepared : PreparedPersistentStart) : RunRow where
  id := prepared.id
  creationKey := prepared.operationKey
  specJson := prepared.specJson
  lineageJson := prepared.lineageJson
  stateKind := .running
  stateJson := prepared.stateJson
  sourceEpoch := prepared.epoch
  pid := none
  durableFirstAvailableByte := 0
  durableOutputBytes := 0
  replayBytes := 0
  replayTruncated := false
  metadataBytes := prepared.metadataBytes

/-- The Runs are those that the start found. -/
def OldUnit (base db : Database) : Prop := db.identities = base.identities

def StartRequest.Replaces (request : StartRequest) (id : RunId) : Prop :=
  id ∈ request.candidates.map (·.id)

instance (request : StartRequest) (id : RunId) : Decidable (request.Replaces id) :=
  inferInstanceAs (Decidable (_ ∈ _))

/-- The Runs are those that the start found, less every candidate and with the prepared Run. -/
def NewUnit (request : StartRequest) (base db : Database) : Prop :=
  db.identities =
    base.identities.filter (fun row => ¬request.Replaces row.id) ++ [request.prepared.row]

/-- No Run has the identity of the prepared Run. -/
def FreshRequest (request : StartRequest) (db : Database) : Prop :=
  ∀ row ∈ db.identities, row.id ≠ request.prepared.id

instance (request : StartRequest) (db : Database) : Decidable (FreshRequest request db) :=
  inferInstanceAs (Decidable (∀ row ∈ db.identities, row.id ≠ request.prepared.id))

/-- The maintenance that a start may commit on its way: it retires stored replay, moves
the coordinates of what is left, or publishes another payload file. -/
inductive Upkeep where
  | reclaimPrefix (needed : ℕ) (target : Option RunId) (rows : ℕ)
  | reclaimPages (capacity : PersistenceError) (rows : ℕ)
  | relocate (chunks : List ChunkRow) (replayFile : String)
deriving DecidableEq,Repr

def Upkeep.effect (db : Database) : Upkeep → Except PersistenceError Database
  | .reclaimPrefix needed target rows => do
    let (_,db) ← reclaimConfirmedPrefix db needed target rows
    .ok db
  | .reclaimPages capacity rows => reclaimDatabasePages db capacity rows
  | .relocate chunks replayFile => .ok { db with chunks := chunks, replayFile := replayFile }

/-- Maintenance that fails is rolled back. -/
def Upkeep.apply (db : Database) (work : Upkeep) : Database :=
  match work.effect db with
  | .ok db' => db'
  | .error _ => db

theorem OldUnit.refl (db : Database) : OldUnit db db := rfl

theorem OldUnit.trans {a b c : Database} (hab : OldUnit a b) (hbc : OldUnit b c) : OldUnit a c :=
  Eq.trans hbc hab

variable {request : StartRequest} {db db' : Database}

theorem OldUnit.newUnit {a b c : Database} (hab : OldUnit a b) (hbc : NewUnit request b c) :
    NewUnit request a c := by
  have hab' : b.identities = a.identities := hab
  simpa [NewUnit,hab'] using hbc

theorem OldUnit.fresh {a b : Database} (hab : OldUnit a b) (ha : FreshRequest request a) :
    FreshRequest request b := by
  have hab' : b.identities = a.identities := hab
  simpa [FreshRequest,hab'] using ha

theorem run?_identity (db : Database) (id : RunId) :
    (db.run? id).map RunRow.identity = db.identities.find? (·.id = id) := by
  unfold Database.run? Database.identities
  induction db.runs with
  | nil => rfl
  | cons row rows ih =>
    by_cases h : row.id = id
    · simp [h,RunRow.identity]
    · have h' : (RunRow.identity row).id ≠ id := h
      simp [h,h',ih]

/-- Rows that have no prepared Run are never taken for the new unit. -/
theorem probe_of_fresh {codec : Codec} (h : FreshRequest request db) :
    probeExactReplacement codec db request ≠ .newUnit := by
  have hnone : db.run? request.prepared.id = none := by
    have hfind := run?_identity db request.prepared.id
    have hmiss : db.identities.find? (·.id = request.prepared.id) = none :=
      List.find?_eq_none.mpr fun row hrow => by simpa using h row hrow
    rw [hmiss] at hfind
    simpa using hfind
  unfold probeExactReplacement
  rw [hnone]
  cases probeCandidates codec db request.candidates with
  | none => simp
  | some present => simp only; split <;> simp

/-- Rows of the new unit are never taken for the old unit. -/
theorem probe_of_newUnit {codec : Codec} {base : Database} (h : NewUnit request base db) :
    probeExactReplacement codec db request ≠ .oldUnit := by
  have hmem : ∃ row, db.run? request.prepared.id = some row := by
    have hfind := run?_identity db request.prepared.id
    have hrow : request.prepared.row ∈ db.identities := by
      have h' : db.identities = _ := h
      rw [h']
      exact List.mem_append_right _ List.mem_cons_self
    cases hrun : db.run? request.prepared.id with
    | some row => exact ⟨row,rfl⟩
    | none =>
      rw [hrun] at hfind
      have := List.find?_eq_none.mp hfind.symm _ hrow
      simp [PreparedPersistentStart.row] at this
  obtain ⟨row,hrow⟩ := hmem
  unfold probeExactReplacement
  rw [hrow]
  cases probeCandidates codec db request.candidates with
  | none => simp
  | some present => simp only; split <;> simp

theorem updateRun_identities (id : RunId) {f : RunRow → RunRow}
    (h : ∀ row, (f row).identity = row.identity) : OldUnit db (db.updateRun id f) := by
  unfold OldUnit Database.identities Database.updateRun
  cases db.run? id with
  | none => rfl
  | some old =>
    simp only [List.map_map]
    apply List.map_congr_left
    intro row _
    simp only [Function.comp_apply]
    split
    · exact h row
    · rfl

theorem oldUnit_shedRunBytes {id : RunId} {shed : ℕ} (h : shedRunBytes db id shed = .ok db') :
    OldUnit db db' := by
  unfold shedRunBytes at h
  cases hrun : db.run? id with
  | none =>
    rw [hrun] at h
    cases h
    exact OldUnit.refl db
  | some row =>
    rw [hrun] at h
    simp only at h
    split at h
    · cases h
    · cases h
      exact updateRun_identities id fun _ => rfl

theorem oldUnit_shedChunk {ordinal bytes shed : ℕ} (h : shedChunk db ordinal bytes shed = .ok db') :
    OldUnit db db' := by
  unfold shedChunk Database.trimChunk Database.deleteChunk at h
  split at h
  · cases h
    rfl
  · split at h
    · cases h
      rfl
    · cases h

theorem oldUnit_foldlM {α : Type} {f : Database → α → Except PersistenceError Database}
    (hf : ∀ db db' item, f db item = .ok db' → OldUnit db db') {items : List α}
    (h : items.foldlM f db = .ok db') : OldUnit db db' := by
  induction items generalizing db with
  | nil =>
    cases h
    exact OldUnit.refl _
  | cons item items ih =>
    rw [List.foldlM_cons,bind_eq_ok] at h
    obtain ⟨mid,hmid,hrest⟩ := h
    exact (hf db mid item hmid).trans (ih hrest)

theorem oldUnit_applyRetirement {candidates : List (ChunkRow × ℕ)}
    (h : applyRetirement db candidates = .ok db') : OldUnit db db' := by
  unfold applyRetirement at h
  rw [bind_eq_ok] at h
  obtain ⟨mid,hmid,hrest⟩ := h
  have hcut := oldUnit_foldlM (fun _ _ _ => oldUnit_shedChunk) hmid
  exact hcut.trans (oldUnit_foldlM (fun _ _ _ => oldUnit_shedRunBytes) hrest)

theorem oldUnit_effect {work : Upkeep} (h : work.effect db = .ok db') :
    OldUnit db db' := by
  cases work with
  | reclaimPrefix needed target rows =>
    simp only [Upkeep.effect,bind_eq_ok] at h
    obtain ⟨⟨flag,mid⟩,hmid,hok⟩ := h
    cases hok
    simp only [reclaimConfirmedPrefix] at hmid
    split at hmid
    · cases hmid
      exact OldUnit.refl db
    · rw [bind_eq_ok] at hmid
      obtain ⟨retired,hretired,hok⟩ := hmid
      cases hok
      exact oldUnit_applyRetirement hretired
  | reclaimPages capacity rows =>
    simp only [Upkeep.effect,reclaimDatabasePages] at h
    split at h
    · cases h
    · exact oldUnit_applyRetirement h
  | relocate chunks replayFile =>
    cases h
    rfl

theorem oldUnit_apply (db : Database) (work : Upkeep) : OldUnit db (work.apply db) := by
  unfold Upkeep.apply
  cases h : work.effect db with
  | error e => exact OldUnit.refl db
  | ok db' => exact oldUnit_effect h

theorem oldUnit_upkeep (db : Database) (works : List Upkeep) :
    OldUnit db (works.foldl Upkeep.apply db) := by
  induction works generalizing db with
  | nil => exact OldUnit.refl db
  | cons work works ih => exact (oldUnit_apply db work).trans (ih _)

theorem deleteRun_identities {id : RunId} {row : RunRow} (h : db.run? id = some row) :
    (db.deleteRun id).identities = db.identities.filter (·.id ≠ id) := by
  unfold Database.identities Database.deleteRun
  rw [h,List.filter_map]
  rfl

theorem deleteExact_identities {candidate : PersistentCandidate} {changed : PersistenceError}
    (h : deleteExact db candidate changed = .ok db') :
    db'.identities = db.identities.filter (·.id ≠ candidate.id) := by
  unfold deleteExact at h
  cases hrun : db.run? candidate.id with
  | none =>
    rw [hrun] at h
    cases h
  | some row =>
    rw [hrun] at h
    simp only at h
    split at h
    · cases h
      exact deleteRun_identities hrun
    · cases h

theorem deleteCandidates_identities {candidates : List PersistentCandidate}
    {changed : PersistentCandidate → PersistenceError}
    (h : candidates.foldlM (fun db candidate => deleteExact db candidate (changed candidate)) db =
      .ok db') :
    db'.identities = db.identities.filter (fun row => row.id ∉ candidates.map (·.id)) := by
  induction candidates generalizing db with
  | nil =>
    cases h
    simp
  | cons candidate candidates ih =>
    rw [List.foldlM_cons,bind_eq_ok] at h
    obtain ⟨mid,hmid,hrest⟩ := h
    rw [ih hrest,deleteExact_identities hmid,List.filter_filter]
    apply List.filter_congr
    intro row _
    by_cases hrow : row.id = candidate.id <;> simp [hrow]

/-- What staging leaves in the transaction is the new unit. -/
theorem newUnit_stageExactReplacement {ctx : StartContext}
    (h : stageExactReplacement ctx db request = .ok db') :
    NewUnit request db db' := by
  have happlied : applyExactReplacement db request.prepared request.candidates = .ok db' := by
    unfold stageExactReplacement at h
    cases hvalid : validateExactCandidates ctx.codec db request.prepared [] request.candidates with
    | error e => rw [hvalid] at h; cases h
    | ok _ =>
      cases hcap : validateProjectedCapacity ctx db request with
      | error e => rw [hvalid,hcap] at h; cases h
      | ok _ =>
        rw [hvalid,hcap] at h
        cases happ : applyExactReplacement db request.prepared request.candidates with
        | error e => rw [happ] at h; cases h
        | ok staged => rw [happ] at h; cases h; rfl
  unfold applyExactReplacement at happlied
  rw [bind_eq_ok] at happlied
  obtain ⟨mid,hmid,hinsert⟩ := happlied
  have hdeleted := deleteCandidates_identities hmid
  unfold Database.insertRun at hinsert
  split at hinsert
  · cases hinsert
  · cases hinsert
    unfold NewUnit
    rw [Database.identities,List.map_append]
    have hmid' : mid.runs.map RunRow.identity = _ := hdeleted
    rw [hmid']
    rfl

end Durable
end Ctxmux
