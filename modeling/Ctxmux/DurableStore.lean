import Ctxmux.DurableLifecycle
import Ctxmux.WindowCompaction
import Ctxmux.Machine

/-!
# The durable store as a machine

The committed states of the store under every writer it has. A writer that fails
leaves the tables as they were, since SQLite rolls the transaction back; it may leave
an unindexed tail in the active file, which a later cut or normalization removes.
-/

namespace Ctxmux
namespace Durable

open Tiling

/-- The document columns of a Run decode, agree with each other and are measured. -/
structure Described (codec : Codec) (row : RunRow) : Prop where
  key : codec.parseKey row.creationKey = .ok ()
  spec : codec.decodeSpec row.specJson = .ok ()
  lineage : ∀ text, row.lineageJson = some text →
    ∃ parent, codec.parseLineageParent text = .ok parent ∧ parent ≠ row.id
  state : ∃ st, codec.parseState row.stateJson = .ok st ∧ row.stateKind = stateKindFor st
  gap : codec.gapFact row.stateJson = .absent ∨
    ∃ cursor ≤ row.durableOutputBytes, codec.gapFact row.stateJson = .cursor (some cursor)
  epoch : codec.parseUuid row.sourceEpoch = true
  pid : ∀ pid, row.pid = some pid → pid < 2^32
  interrupted : row.stateKind = .interrupted → row.pid = none
  metadata : row.metadataBytes = metadataSize row.id row.creationKey row.specJson row.lineageJson
    row.stateJson row.sourceEpoch

/-- The active file is there under a proper name. -/
def ActivePresent (s : Store) : Prop :=
  validReplayFileName s.db.replayFile = true ∧ ∃ content, s.files s.db.replayFile = some content

/-- What every committed state of the store satisfies. -/
structure WellFormed (codec : Codec) (s : Store) : Prop where
  sound : Sound s.db s.files
  windows : ∀ r ∈ s.db.runs, Window s.db r
  active : ActivePresent s
  described : ∀ r ∈ s.db.runs, Described codec r

/-- One committed effect on the store, or a trace that a rolled-back one left in a file. -/
inductive StoreEvent (codec : Codec) where
  | start (epoch : { text : String // codec.parseUuid text = true }) (operationKey : String)
      (id : RunId) (specJson : String) (lineageJson : Option String)
      (candidates : List PersistentCandidate)
  | append (id : RunId) (replay : OutputReplay) (replayLimit : ℕ)
  | pruneGlobal (replayLimit rows : ℕ)
  | trimOldest (replayLimit rows : ℕ)
  | reclaimPrefix (needed : ℕ) (target : Option RunId) (rows : ℕ)
  | reclaimPages (capacity : PersistenceError) (rows : ℕ)
  | settle (terminal : TerminalSettlement)
  | remove (candidate : PersistentCandidate)
  | publish (name : String)
  | move (source : String) (cursor : Option ℕ) (rowLimit : ℕ)
  | retire (name : String)
  | startupBatch (liveSet : List RunId) (limit : ℕ)
  | normalizeFiles
  | reopen
  | leaveTail (bytes : List Byte)
  | cutTail (length : ℕ)

/-- The log of a Run reports a source gap at a position that it has seen. -/
def gapSeen (db : Database) (terminal : TerminalSettlement) : Bool :=
  terminal.sourceGap.all fun cursor =>
    (db.run? terminal.id).all fun row => cursor ≤ row.durableOutputBytes

namespace StoreEvent

/-- The effect of a writer: the next store, or the error that rolls it back. -/
def effect (codec : Codec) (s : Store) : StoreEvent codec → Except PersistenceError Store
  | .start epoch operationKey id specJson lineageJson candidates => do
    let prepared := prepareStart codec epoch operationKey id specJson lineageJson
    validatePreparedStart codec epoch prepared
    let db ← applyExactReplacement s.db prepared candidates
    .ok ⟨db,s.files⟩
  | .append id replay replayLimit => do
    let (s,_) ← appendReplayWithStorage s s.db.replayFile id replay replayLimit
    .ok s
  | .pruneGlobal replayLimit rows => do
    let (_,db) ← pruneGlobalReplayWithRowFunding replayLimit rows s.db
    .ok ⟨db,s.files⟩
  | .trimOldest replayLimit rows => do
    let (_,db) ← trimOldestRow replayLimit rows s.db
    .ok ⟨db,s.files⟩
  | .reclaimPrefix needed target rows => do
    let (_,db) ← reclaimConfirmedPrefix s.db needed target rows
    .ok ⟨db,s.files⟩
  | .reclaimPages capacity rows => do
    let db ← reclaimDatabasePages s.db capacity rows
    .ok ⟨db,s.files⟩
  | .settle terminal =>
    if gapSeen s.db terminal then do
      let db ← settleTerminal codec s.db terminal
      .ok ⟨db,s.files⟩
    else .ok s
  | .remove candidate => do
    let db ← removeTerminal s.db candidate
    .ok ⟨db,s.files⟩
  | .publish name => publishReplayFile s name
  | .move source cursor rowLimit => do
    let moved ← compactBatch s source s.db.replayFile cursor rowLimit
    .ok ((moved.map (·.1)).getD s)
  | .retire name =>
    if Referenced s.db s.db.replayFile name then .ok s else .ok ⟨s.db,s.files.remove name⟩
  | .startupBatch liveSet limit => do
    let db ← applyStartupBatch codec s.db liveSet limit
    .ok ⟨db,s.files⟩
  | .normalizeFiles => do
    let files ← normalizeReplayFiles s.db s.db.replayFile s.files
    .ok ⟨s.db,files⟩
  | .reopen => .ok ⟨{ s.db with accounting := Accounting.ofRuns s.db.runs },s.files⟩
  | .leaveTail bytes => .ok ⟨s.db,s.files.write s.db.replayFile
      ((s.files s.db.replayFile).getD [] ++ bytes)⟩
  | .cutTail length =>
    if referencedEnd s.db s.db.replayFile ≤ length then
      .ok ⟨s.db,s.files.write s.db.replayFile (((s.files s.db.replayFile).getD []).take length)⟩
    else .ok s

end StoreEvent

/-- A writer that fails is rolled back. -/
def storeStep (codec : Codec) (s : Store) (e : StoreEvent codec) : Store :=
  match e.effect codec s with
  | .ok s' => s'
  | .error _ => s

/-- The tables that `create_schema` makes and the empty file they name. -/
def createdStore (replayFile : String) : Store where
  db := { runs := [], chunks := [], nextOrdinal := 1, replayFile := replayFile
          accounting := ⟨0,0,0,0⟩ }
  files := fun name => if name = replayFile then some [] else none

theorem wellFormed_created (codec : Codec) {replayFile : String}
    (h : validReplayFileName replayFile = true) : WellFormed codec (createdStore replayFile) where
  sound := by
    refine ⟨List.nodup_nil,List.nodup_nil,rfl,List.Pairwise.nil,?_,?_,?_,?_,List.Pairwise.nil,?_⟩
    all_goals exact fun _ h => absurd h List.not_mem_nil
  windows _ hr := absurd hr List.not_mem_nil
  active := ⟨h,[],if_pos rfl⟩
  described _ hr := absurd hr List.not_mem_nil

theorem forall₂_mem_right {α : Type} {R : α → α → Prop} {xs ys : List α}
    (h : List.Forall₂ R xs ys) {y : α} (hy : y ∈ ys) : ∃ x ∈ xs, R x y := by
  induction h with
  | nil => cases hy
  | cons hr _ ih =>
    rcases List.mem_cons.mp hy with rfl | hy
    · exact ⟨_,by simp,hr⟩
    · obtain ⟨x,hx,hxy⟩ := ih hy
      exact ⟨x,by simp [hx],hxy⟩

variable {codec : Codec} {s s' : Store} {id : RunId} {db' : Database}

/-- Documents say nothing about the window but that a source gap lies below the head. -/
theorem Described.window {row row' : RunRow} (h : Described codec row)
    (hhead : row.durableOutputBytes ≤ row'.durableOutputBytes)
    (hrow : row' = { row with
      durableFirstAvailableByte := row'.durableFirstAvailableByte
      durableOutputBytes := row'.durableOutputBytes
      replayBytes := row'.replayBytes
      replayTruncated := row'.replayTruncated }) : Described codec row' := by
  rw [hrow]
  refine ⟨h.key,h.spec,h.lineage,h.state,?_,h.epoch,h.pid,h.interrupted,h.metadata⟩
  rcases h.gap with habsent | ⟨cursor,hle,hgap⟩
  · exact .inl habsent
  · exact .inr ⟨cursor,hle.trans hhead,hgap⟩

theorem WellFormed.evicts (h : WellFormed codec s) {db : Database} (he : Evicts s.files s.db db) :
    WellFormed codec ⟨db,s.files⟩ where
  sound := he.sound
  windows := he.windows
  active := by
    have hfile := he.retired.replayFile
    simpa [ActivePresent,hfile] using h.active
  described r hr := by
    obtain ⟨old,hold,hrow⟩ := forall₂_mem_right he.retired.runs hr
    refine (h.described old hold).window ?_ ?_
    · rw [hrow]
    · rw [hrow]

theorem WellFormed.append (h : WellFormed codec s) {replay : OutputReplay} {limit : ℕ}
    {evicted : Bool}
    (hok : appendReplayWithStorage s s.db.replayFile id replay limit = .ok (s',evicted)) :
    WellFormed codec s' := by
  obtain ⟨hsound,hwindows,hfile,⟨payload,hgrown⟩,hruns⟩ :=
    append_sound h.sound h.windows h.active.1 hok
  refine ⟨hsound,hwindows,?_,fun r hr => ?_⟩
  · obtain ⟨hname,content,hcontent⟩ := h.active
    unfold ActivePresent
    rw [hfile]
    exact ⟨hname,Option.isSome_iff_exists.mp (hgrown.kept (by simp [hcontent]))⟩
  · obtain ⟨old,hold,hhead,hrow⟩ := forall₂_mem_right hruns hr
    exact (h.described old hold).window hhead hrow

/-- A change of documents that keeps identity, window and creation key. -/
theorem WellFormed.updateRun (h : WellFormed codec s) {f : RunRow → RunRow}
    (hf : ∀ row, (f row).id = row.id ∧ (f row).creationKey = row.creationKey ∧
      (f row).durableFirstAvailableByte = row.durableFirstAvailableByte ∧
      (f row).durableOutputBytes = row.durableOutputBytes ∧
      (f row).replayBytes = row.replayBytes ∧ (f row).replayTruncated = row.replayTruncated)
    (hdescribed : ∀ row ∈ s.db.runs, row.id = id → Described codec (f row)) :
    WellFormed codec ⟨s.db.updateRun id f,s.files⟩ where
  sound := h.sound.updateRun id (fun row => (hf row).1) (fun row => (hf row).2.1)
  windows := by
    refine windows_updateRun h.windows rfl (fun _ _ => rfl) fun r hr hid => ?_
    obtain ⟨hsame,_,hfloor,hhead,hbytes,htruncated⟩ := hf r
    have hw := h.windows r hr
    refine ⟨?_,?_,?_,?_⟩
    · rw [Database.updateRun_rowsOf,hsame,hfloor,hhead]
      exact hw.tiles
    · rw [hbytes,hfloor,hhead]
      exact hw.bytes
    · rw [hfloor,htruncated]
      exact hw.truncated
    · rw [hhead]
      exact hw.bound
  active := by simpa [ActivePresent] using h.active
  described r hr := by
    rcases Database.mem_updateRun hr with ⟨hmem,_⟩ | ⟨row,hmem,hid,rfl⟩
    · exact h.described r hmem
    · exact hdescribed row hmem hid

theorem WellFormed.deleteRun (h : WellFormed codec s) (id : RunId) :
    WellFormed codec ⟨s.db.deleteRun id,s.files⟩ := by
  cases hrun : s.db.run? id with
  | none => simpa [Database.deleteRun,hrun] using h
  | some old =>
    have hshrunk := h.sound.shrink (Shrunk.filter h.sound.filled fun row => row.runId ≠ id)
    have hruns := Database.deleteRun_runs s.db id
    have hchunks : (s.db.deleteRun id).chunks = s.db.chunks.filter fun row => row.runId ≠ id := by
      simp [Database.deleteRun,hrun]
    have hfile : (s.db.deleteRun id).replayFile = s.db.replayFile := by
      simp [Database.deleteRun,hrun]
    have hnext : (s.db.deleteRun id).nextOrdinal = s.db.nextOrdinal := by
      simp [Database.deleteRun,hrun]
    have hkeep : ∀ r ∈ (s.db.deleteRun id).runs, r ∈ s.db.runs ∧ r.id ≠ id := by
      intro r hr
      rw [hruns] at hr
      simpa using List.mem_filter.mp hr
    refine ⟨⟨?_,?_,Database.deleteRun_accounting h.sound.ids h.sound.accounting,?_,?_,?_,?_,?_,?_,
      ?_⟩,fun r hr => ?_,?_,fun r hr => h.described r (hkeep r hr).1⟩
    · rw [hruns]
      exact h.sound.ids.sublist (List.filter_sublist.map _)
    · rw [hruns]
      exact h.sound.keys.sublist (List.filter_sublist.map _)
    · simpa [hchunks] using hshrunk.ordinals
    · simpa [hchunks,hnext] using hshrunk.fresh
    · intro row hr
      rw [hchunks] at hr
      obtain ⟨hmem,hne⟩ := List.mem_filter.mp hr
      obtain ⟨r,hrun,hid⟩ := h.sound.owned row hmem
      refine ⟨r,?_,hid⟩
      rw [hruns]
      exact List.mem_filter.mpr ⟨hrun,by simpa [hid] using hne⟩
    · simpa [hchunks] using hshrunk.filled
    · simpa [hchunks] using hshrunk.sized
    · simpa [hchunks] using hshrunk.apart
    · simpa [hchunks] using hshrunk.backed
    · obtain ⟨hmem,hne⟩ := hkeep r hr
      refine (h.windows r hmem).congr ?_
      unfold Database.rowsOf
      rw [hchunks,List.filter_filter]
      refine List.filter_congr fun row _ => ?_
      by_cases hrow : row.runId = r.id <;> simp [hrow,hne]
    · simpa [ActivePresent,hfile] using h.active

theorem deleteExact_eq_ok {db : Database} {candidate : PersistentCandidate}
    {changed : PersistenceError} (h : deleteExact db candidate changed = .ok db') :
    db' = db.deleteRun candidate.id := by
  unfold deleteExact at h
  split at h
  · split_ifs at h
    exact (Except.ok.inj h).symm
  · cases h

theorem WellFormed.deleteCandidates {candidates : List PersistentCandidate}
    {changed : PersistentCandidate → PersistenceError} (h : WellFormed codec s)
    (hok : candidates.foldlM (fun db c => deleteExact db c (changed c)) s.db = .ok db') :
    WellFormed codec ⟨db',s.files⟩ := by
  induction candidates generalizing s with
  | nil =>
    obtain rfl := Except.ok.inj hok
    exact h
  | cons c cs ih =>
    rw [List.foldlM_cons] at hok
    obtain ⟨db,hdelete,hrest⟩ := bind_eq_ok.mp hok
    obtain rfl := deleteExact_eq_ok hdelete
    exact ih (s := ⟨s.db.deleteRun c.id,s.files⟩) (h.deleteRun c.id) hrest

theorem decoded_eq_ok {α : Type} {result : Except String α} {failure : String → PersistenceError}
    {value : α} (h : decoded result failure = .ok value) : result = .ok value := by
  unfold decoded at h
  split at h
  · rw [Except.ok.inj h]
  · cases h

theorem ensure_eq_ok {condition : Prop} [Decidable condition] {error : PersistenceError}
    (h : ensure condition error = .ok ()) : condition := by
  unfold ensure at h
  split at h
  · assumption
  · cases h

theorem validateLineage_eq_ok {selfLineage : PersistenceError} {failure : String → PersistenceError}
    {lineage : Option String} (h : validateLineage codec id selfLineage failure lineage = .ok ()) :
    ∀ text, lineage = some text →
      ∃ parent, codec.parseLineageParent text = .ok parent ∧ parent ≠ id := by
  rintro text rfl
  obtain ⟨parent,hparent,hself⟩ := bind_eq_ok.mp h
  exact ⟨parent,decoded_eq_ok hparent,ensure_eq_ok hself⟩

/-- A Run that its start inserts carries documents that decode. -/
theorem described_start {epoch : { text : String // codec.parseUuid text = true }}
    {operationKey specJson : String} {lineageJson : Option String} {row : RunRow}
    (h : validatePreparedStart codec epoch
      (prepareStart codec epoch operationKey id specJson lineageJson) = .ok ())
    (hrow : row =
      { id := id, creationKey := operationKey, specJson := specJson, lineageJson := lineageJson,
        stateKind := .running, stateJson := codec.stateText .running, sourceEpoch := epoch,
        pid := none, durableFirstAvailableByte := 0, durableOutputBytes := 0, replayBytes := 0,
        replayTruncated := false,
        metadataBytes := metadataSize id operationKey specJson lineageJson
          (codec.stateText .running) epoch }) : Described codec row := by
  obtain ⟨_,hkey,h⟩ := bind_eq_ok.mp h
  obtain ⟨_,_,h⟩ := bind_eq_ok.mp h
  obtain ⟨_,hspec,h⟩ := bind_eq_ok.mp h
  obtain ⟨_,_,h⟩ := bind_eq_ok.mp h
  obtain ⟨_,_,h⟩ := bind_eq_ok.mp h
  obtain ⟨_,hlineage,_⟩ := bind_eq_ok.mp h
  subst hrow
  exact ⟨decoded_eq_ok hkey,decoded_eq_ok hspec,validateLineage_eq_ok hlineage,
    ⟨.running,codec.parseState_stateText .running,rfl⟩,.inl (codec.gapFact_stateText .running),
    epoch.2,by simp,by simp,rfl⟩

section

variable (h : WellFormed codec s)
include h

theorem WellFormed.insertRun {row : RunRow} (hok : s.db.insertRun row = .ok db')
    (hdescribed : Described codec row) (hfloor : row.durableFirstAvailableByte = 0)
    (hhead : row.durableOutputBytes = 0) (hbytes : row.replayBytes = 0) :
    WellFormed codec ⟨db',s.files⟩ := by
  obtain ⟨hid,hkey,rfl⟩ := Database.insertRun_eq_ok hok
  have hnone : s.db.rowsOf row.id = [] := by
    refine List.filter_eq_nil_iff.mpr fun chunk hc hrun => ?_
    obtain ⟨r,hr,hrid⟩ := h.sound.owned chunk hc
    exact hid r hr (hrid.trans (by simpa using hrun))
  refine ⟨⟨?_,?_,?_,h.sound.ordinals,h.sound.fresh,?_,h.sound.filled,h.sound.sized,h.sound.apart,
    h.sound.backed⟩,fun r hr => ?_,h.active,fun r hr => ?_⟩
  · rw [List.map_append]
    refine List.nodup_append.mpr ⟨h.sound.ids,List.nodup_singleton _,?_⟩
    intro a ha b hb
    obtain ⟨r,hr,rfl⟩ := List.mem_map.mp ha
    rw [List.mem_singleton.mp hb]
    exact hid r hr
  · rw [List.map_append]
    refine List.nodup_append.mpr ⟨h.sound.keys,List.nodup_singleton _,?_⟩
    intro a ha b hb
    obtain ⟨r,hr,rfl⟩ := List.mem_map.mp ha
    rw [List.mem_singleton.mp hb]
    exact hkey r hr
  · rw [h.sound.accounting]
    exact Database.insert_accounting row
  · intro chunk hc
    obtain ⟨r,hr,hrid⟩ := h.sound.owned chunk hc
    exact ⟨r,by simp [hr],hrid⟩
  · rcases List.mem_append.mp hr with hr | hr
    · exact (h.windows r hr).congr rfl
    · obtain rfl := List.mem_singleton.mp hr
      refine ⟨?_,by rw [hbytes,hhead,hfloor],by simp [hfloor],by simp [hhead]⟩
      rw [hfloor,hhead]
      exact hnone ▸ rfl
  · rcases List.mem_append.mp hr with hr | hr
    · exact h.described r hr
    · rw [List.mem_singleton.mp hr]
      exact hdescribed

theorem WellFormed.start {epoch : { text : String // codec.parseUuid text = true }}
    {operationKey specJson : String} {lineageJson : Option String}
    {candidates : List PersistentCandidate}
    (hvalid : validatePreparedStart codec epoch
      (prepareStart codec epoch operationKey id specJson lineageJson) = .ok ())
    (hok : applyExactReplacement s.db
      (prepareStart codec epoch operationKey id specJson lineageJson) candidates = .ok db') :
    WellFormed codec ⟨db',s.files⟩ := by
  obtain ⟨db,hdelete,hinsert⟩ := bind_eq_ok.mp hok
  exact (h.deleteCandidates hdelete).insertRun hinsert (described_start hvalid rfl) rfl rfl rfl

theorem WellFormed.settle {terminal : TerminalSettlement} (hgap : gapSeen s.db terminal = true)
    (hok : settleTerminal codec s.db terminal = .ok db') :
    WellFormed codec ⟨db',s.files⟩ := by
  obtain ⟨row,hrow,hrest⟩ := bind_eq_ok.mp hok
  have hrun := Database.selectRun_eq_ok.mp hrow
  simp only at hrest
  split at hrest
  · cases hrest
  · obtain rfl := Except.ok.inj hrest
    refine h.updateRun (fun _ => ⟨rfl,rfl,rfl,rfl,rfl,rfl⟩) fun r hr hid => ?_
    have hd := h.described r hr
    obtain ⟨hmem,hrid⟩ := Database.run?_mem hrun
    obtain rfl := List.inj_on_of_nodup_map h.sound.ids hr hmem (hid.trans hrid.symm)
    refine ⟨hd.key,hd.spec,hd.lineage,⟨.exited terminal.code terminal.signal,?_,rfl⟩,?_,hd.epoch,
      ?_,by simp,rfl⟩
    · unfold TerminalSettlement.stateJson
      cases terminal.sourceGap with
      | none => exact codec.parseState_stateText _
      | some cursor => exact codec.parseState_withGap _ cursor
    · unfold TerminalSettlement.stateJson
      cases hsource : terminal.sourceGap with
      | none => exact .inl (codec.gapFact_stateText _)
      | some cursor =>
        refine .inr ⟨cursor,?_,codec.gapFact_withGap _ cursor⟩
        simpa [gapSeen,hsource,hrun] using hgap
    · intro pid hpid
      obtain rfl := Option.some.inj hpid
      exact terminal.actualPid.toNat_lt

theorem WellFormed.reconcileStartupRow (hok : reconcileStartupRow codec s.db id = .ok db') :
    WellFormed codec ⟨db',s.files⟩ := by
  unfold Durable.reconcileStartupRow at hok
  split at hok
  · split_ifs at hok
    obtain rfl := Except.ok.inj hok
    refine h.updateRun (fun _ => ⟨rfl,rfl,rfl,rfl,rfl,rfl⟩) fun r hr _ => ?_
    have hd := h.described r hr
    exact ⟨hd.key,hd.spec,hd.lineage,⟨_,codec.parseState_stateText _,rfl⟩,
      .inl (codec.gapFact_stateText _),hd.epoch,by simp,by simp,rfl⟩
  · cases hok

theorem WellFormed.startupBatch {ids : List RunId}
    (hok : ids.foldlM (Durable.reconcileStartupRow codec) s.db = .ok db') :
    WellFormed codec ⟨db',s.files⟩ := by
  induction ids generalizing s with
  | nil =>
    obtain rfl := Except.ok.inj hok
    exact h
  | cons id ids ih =>
    rw [List.foldlM_cons] at hok
    obtain ⟨db,hrow,hrest⟩ := bind_eq_ok.mp hok
    exact ih (s := ⟨db,s.files⟩) (h.reconcileStartupRow hrow) hrest

/-- Files may change as long as every referenced extent and the active file stay. -/
theorem WellFormed.files {files : Files} (hbacked : ∀ row ∈ s.db.chunks, Backed files row)
    (hactive : ∃ content, files s.db.replayFile = some content) :
    WellFormed codec ⟨s.db,files⟩ :=
  ⟨{ h.sound with backed := hbacked },h.windows,⟨h.active.1,hactive⟩,h.described⟩

theorem WellFormed.publish {name : String} (hok : publishReplayFile s name = .ok s') :
    WellFormed codec s' := by
  obtain ⟨_,hname,hrest⟩ := bind_eq_ok.mp hok
  have hvalid : validReplayFileName name = true := by
    unfold validateReplayFileName at hname
    split at hname
    · assumption
    · cases hname
  split at hrest
  · cases hrest
  · rename_i hfresh
    obtain rfl := Except.ok.inj hrest
    have hbacked : ∀ row ∈ s.db.chunks, Backed (s.files.write name []) row := by
      intro row hr
      obtain ⟨hrow,content,hfile,hlen⟩ := h.sound.backed row hr
      have hne : row.dataFile ≠ name := by
        rintro heq
        rw [heq,hfresh] at hfile
        cases hfile
      exact ⟨hrow,content,(Files.write_of_ne _ _ hne).trans hfile,hlen⟩
    exact ⟨⟨h.sound.ids,h.sound.keys,h.sound.accounting,h.sound.ordinals,h.sound.fresh,
        h.sound.owned,h.sound.filled,h.sound.sized,h.sound.apart,hbacked⟩,
      fun r hr => (h.windows r hr).congr rfl,⟨hvalid,[],Files.write_self _ _ _⟩,h.described⟩

theorem WellFormed.move {source : String} {cursor : Option ℕ} {rowLimit last : ℕ}
    (hok : compactBatch s source s.db.replayFile cursor rowLimit = .ok (some (s',last))) :
    WellFormed codec s' := by
  obtain ⟨hsound,hall,hdb,payload,hgrown⟩ := compactBatch_spec h.sound h.active.1 hok
  have hruns : s'.db.runs = s.db.runs := by rw [hdb]
  have hfile : s'.db.replayFile = s.db.replayFile := by rw [hdb]
  refine ⟨hsound,windows_relocated hall hruns h.windows,?_,by rw [hruns]; exact h.described⟩
  obtain ⟨hname,content,hcontent⟩ := h.active
  unfold ActivePresent
  rw [hfile]
  exact ⟨hname,Option.isSome_iff_exists.mp (hgrown.kept (by simp [hcontent]))⟩

theorem WellFormed.retire {name : String} (hnot : ¬Referenced s.db s.db.replayFile name) :
    WellFormed codec ⟨s.db,s.files.remove name⟩ := by
  have hrow : ∀ row ∈ s.db.chunks, row.dataFile ≠ name := fun row hr heq =>
    hnot (.inr ⟨row,hr,heq⟩)
  have hactive : s.db.replayFile ≠ name := fun heq => hnot (.inl heq.symm)
  refine h.files (fun row hr => ?_) ?_
  · obtain ⟨hname,content,hfile,hlen⟩ := h.sound.backed row hr
    exact ⟨hname,content,(Files.remove_of_ne _ (hrow row hr)).trans hfile,hlen⟩
  · obtain ⟨_,content,hfile⟩ := h.active
    exact ⟨content,(Files.remove_of_ne _ hactive).trans hfile⟩

theorem WellFormed.normalize :
    WellFormed codec ⟨s.db,normalizedFiles s.db s.db.replayFile s.files⟩ := by
  obtain ⟨hsound,_⟩ := h.sound.normalized s.db.replayFile
  obtain ⟨_,content,hfile⟩ := h.active
  refine h.files hsound.backed ⟨content.take (referencedEnd s.db s.db.replayFile),?_⟩
  rw [normalizedFiles_active,hfile]
  rfl

theorem WellFormed.cutTail {length : ℕ} (hend : referencedEnd s.db s.db.replayFile ≤ length) :
    WellFormed codec ⟨s.db,s.files.write s.db.replayFile
      (((s.files s.db.replayFile).getD []).take length)⟩ := by
  refine h.files (fun row hr => ?_) ⟨_,Files.write_self _ _ _⟩
  obtain ⟨hname,content,hfile,hlen⟩ := h.sound.backed row hr
  by_cases heq : row.dataFile = s.db.replayFile
  · have hle := extent_le_referencedEnd hr
    rw [heq] at hle
    refine ⟨hname,_,by rw [heq,Files.write_self],?_⟩
    rw [heq] at hfile
    rw [hfile,Option.getD_some,List.length_take]
    omega
  · exact ⟨hname,content,(Files.write_of_ne _ _ heq).trans hfile,hlen⟩

/-- Every writer that succeeds keeps the store well formed. -/
theorem WellFormed.effect {e : StoreEvent codec} (hok : e.effect codec s = .ok s') :
    WellFormed codec s' := by
  cases e with
  | start epoch operationKey id specJson lineageJson candidates =>
    obtain ⟨_,hvalid,hrest⟩ := bind_eq_ok.mp hok
    obtain ⟨db,hdb,hrest⟩ := bind_eq_ok.mp hrest
    obtain rfl := Except.ok.inj hrest
    exact h.start hvalid hdb
  | append id replay replayLimit =>
    obtain ⟨⟨next,evicted⟩,happend,hrest⟩ := bind_eq_ok.mp hok
    obtain rfl := Except.ok.inj hrest
    exact h.append happend
  | pruneGlobal replayLimit rows =>
    obtain ⟨⟨fits,db⟩,hprune,hrest⟩ := bind_eq_ok.mp hok
    obtain rfl := Except.ok.inj hrest
    exact h.evicts (evicts_pruneGlobal h.sound h.windows hprune)
  | trimOldest replayLimit rows =>
    obtain ⟨⟨fits,db⟩,htrim,hrest⟩ := bind_eq_ok.mp hok
    obtain rfl := Except.ok.inj hrest
    exact h.evicts (evicts_trimOldestRow h.sound h.windows htrim)
  | reclaimPrefix needed target rows =>
    obtain ⟨⟨found,db⟩,hreclaim,hrest⟩ := bind_eq_ok.mp hok
    obtain rfl := Except.ok.inj hrest
    exact h.evicts (evicts_reclaimConfirmedPrefix h.sound h.windows hreclaim)
  | reclaimPages capacity rows =>
    obtain ⟨db,hreclaim,hrest⟩ := bind_eq_ok.mp hok
    obtain rfl := Except.ok.inj hrest
    exact h.evicts (evicts_reclaimDatabasePages h.sound h.windows hreclaim)
  | settle terminal =>
    simp only [StoreEvent.effect] at hok
    split at hok
    · rename_i hgap
      obtain ⟨db,hsettle,hrest⟩ := bind_eq_ok.mp hok
      obtain rfl := Except.ok.inj hrest
      exact h.settle hgap hsettle
    · obtain rfl := Except.ok.inj hok
      exact h
  | remove candidate =>
    obtain ⟨db,hremove,hrest⟩ := bind_eq_ok.mp hok
    obtain rfl := Except.ok.inj hrest
    obtain rfl := deleteExact_eq_ok hremove
    exact h.deleteRun candidate.id
  | publish name => exact h.publish hok
  | move source cursor rowLimit =>
    obtain ⟨moved,hmove,hrest⟩ := bind_eq_ok.mp hok
    obtain rfl := Except.ok.inj hrest
    cases moved with
    | none => exact h
    | some next => exact h.move hmove
  | retire name =>
    simp only [StoreEvent.effect] at hok
    split at hok
    · obtain rfl := Except.ok.inj hok
      exact h
    · rename_i hnot
      obtain rfl := Except.ok.inj hok
      exact h.retire hnot
  | startupBatch liveSet limit =>
    obtain ⟨db,hbatch,hrest⟩ := bind_eq_ok.mp hok
    obtain rfl := Except.ok.inj hrest
    exact h.startupBatch hbatch
  | normalizeFiles =>
    obtain ⟨files,hfiles,hrest⟩ := bind_eq_ok.mp hok
    obtain rfl := Except.ok.inj hrest
    obtain rfl := normalizeReplayFiles_eq_ok hfiles
    exact h.normalize
  | reopen =>
    obtain rfl := Except.ok.inj hok
    rw [← h.sound.accounting]
    exact h
  | leaveTail bytes =>
    obtain rfl := Except.ok.inj hok
    exact h.files (fun row hr => (h.sound.backed row hr).write _ bytes)
      ⟨_,Files.write_self _ _ _⟩
  | cutTail length =>
    simp only [StoreEvent.effect] at hok
    split at hok
    · rename_i hend
      obtain rfl := Except.ok.inj hok
      exact h.cutTail hend
    · obtain rfl := Except.ok.inj hok
      exact h

theorem WellFormed.step (e : StoreEvent codec) :
    WellFormed codec (storeStep codec s e) := by
  unfold storeStep
  split
  · rename_i s' hok
    exact h.effect hok
  · exact h

end

/-- Every committed state of a store that was created is well formed. -/
theorem wellFormed_run {replayFile : String} (hname : validReplayFileName replayFile = true)
    (es : List (StoreEvent codec)) :
    WellFormed codec (Machine.run (storeStep codec) (createdStore replayFile) es) :=
  Machine.run_invariant (fun _ e h => h.step e) (wellFormed_created codec hname) es

end Durable
end Ctxmux
