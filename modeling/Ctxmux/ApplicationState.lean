import Ctxmux.DurableStore
import Mathlib.Data.String.Basic

/-!
# Validation of a store

The checks that every open makes before it serves a recovered byte, and that every
committed state passes them: the check of a Run's window has no fallback, so a writer
that left a hole would be a daemon that refuses to start.
-/

namespace Ctxmux
namespace Durable

open Tiling

def sourceGapFact (codec : Codec) (stateJson : String) (head : ℕ) :
    Except PersistenceError (Option ℕ) :=
  match codec.gapFact stateJson with
  | .malformed message => .error (.database message none none none)
  | .absent => .ok none
  | .cursor none => .error (.corrupt "invalid durable source-gap cursor")
  | .cursor (some cursor) =>
    if cursor ≤ head then .ok (some cursor)
    else .error (.corrupt "invalid durable source-gap cursor")

/-- One row of the window walk: `expected` is where it must begin, `bytes` what the rows
before it hold. -/
def checkWindowRow (files : Files) (id : RunId) (walk : ℕ × ℕ) (row : ChunkRow) :
    Except PersistenceError (ℕ × ℕ) := do
  validateReplayFileName row.dataFile
  ensure (row.dataOffset+row.dataBytes ≤ files.len row.dataFile)
    (.corrupt s!"Run {id} replay exceeds its payload file")
  ensure (row.startByte = walk.1 ∧ row.startByte < row.endByte ∧
      row.endByte-row.startByte = row.dataBytes)
    (.corrupt (s!"Run {id} replay range [{row.startByte}, {row.endByte})" ++
      s!" is invalid or not contiguous at {walk.1}"))
  .ok (row.endByte,walk.2+row.dataBytes)

def validateReplayWindow (s : Store) (row : RunRow) : Except PersistenceError Unit := do
  let rows := s.db.rowsByStart row.id
  let walk ← rows.foldlM (checkWindowRow s.files row.id) (row.durableFirstAvailableByte,0)
  if rows = [] then
    ensure (row.durableFirstAvailableByte = row.durableOutputBytes ∧ row.replayBytes = 0 ∧
        (0 < row.durableOutputBytes → row.replayTruncated = true))
      (.corrupt s!"Run {row.id} has empty replay with non-empty cursors")
  else do
    ensure (walk.1 = row.durableOutputBytes ∧ walk.2 = row.replayBytes)
      (.corrupt s!"Run {row.id} replay cursors or bytes do not match chunks")
    ensure (0 < row.durableFirstAvailableByte → row.replayTruncated = true)
      (.corrupt s!"Run {row.id} pruned replay is not marked truncated")

/-- The checks of one row of `runs`; `seen` holds the creation keys of the rows before it. -/
def validateRun (codec : Codec) (s : Store) (seen : List String) (row : RunRow) :
    Except PersistenceError (List String) := do
  decoded (codec.parseKey row.creationKey)
    fun e => .corrupt s!"invalid creation operation key for Run {row.id}: {e}"
  ensure (row.creationKey ∉ seen)
    (.corrupt s!"creation operation key is bound to more than one Run including {row.id}")
  decoded (codec.decodeSpec row.specJson) fun e => .corrupt s!"invalid spec for {row.id}: {e}"
  validateLineage codec row.id (.corrupt s!"Run {row.id} has self lineage")
    (fun e => .corrupt s!"invalid lineage for {row.id}: {e}") row.lineageJson
  let state ← decoded (codec.parseState row.stateJson)
    fun e => .corrupt s!"invalid state for {row.id}: {e}"
  ensure (row.stateKind = stateKindFor state)
    (.corrupt s!"Run {row.id} state kind does not match its JSON")
  ensure (codec.parseUuid row.sourceEpoch = true)
    (.corrupt s!"Run {row.id} has invalid source epoch")
  ensure (row.pid.all (· < 2^32) = true) (.corrupt s!"Run {row.id} has invalid PID")
  ensure (stateKindFor state = .interrupted → row.pid = none)
    (.corrupt s!"interrupted Run {row.id} retains a PID")
  let _ ← sourceGapFact codec row.stateJson row.durableOutputBytes
  ensure (row.metadataBytes = metadataSize row.id row.creationKey row.specJson row.lineageJson
      row.stateJson row.sourceEpoch)
    (.corrupt s!"Run {row.id} metadata accounting does not match")
  validateReplayWindow s row
  .ok (row.creationKey::seen)

/-- `ORDER BY data_file, data_offset, ordinal`. -/
def ExtentLe (x y : ChunkRow) : Prop :=
  x.dataFile < y.dataFile ∨ (x.dataFile = y.dataFile ∧
    (x.dataOffset < y.dataOffset ∨ (x.dataOffset = y.dataOffset ∧ x.ordinal ≤ y.ordinal)))

instance : DecidableRel ExtentLe := fun _ _ => inferInstanceAs (Decidable (_ ∨ _))

/-- The file that the extent walk is in, its size and the end of the extent before. -/
structure ExtentWalk where
  currentFile : String
  fileSize : ℕ
  previousEnd : Option ℕ
deriving DecidableEq,Repr

def enterFile (files : Files) (walk : ExtentWalk) (name : String) :
    Except PersistenceError ExtentWalk :=
  if name = walk.currentFile then .ok walk
  else do
    validateReplayFileName name
    validateStateFile files name
    .ok ⟨name,files.len name,none⟩

def checkExtent (files : Files) (walk : ExtentWalk) (row : ChunkRow) :
    Except PersistenceError ExtentWalk := do
  let walk ← enterFile files walk row.dataFile
  ensure (row.dataOffset+row.dataBytes ≤ walk.fileSize)
    (.corrupt "replay extent exceeds its active generation file")
  ensure (walk.previousEnd.all (· ≤ row.dataOffset) = true)
    (.corrupt "replay extents overlap in the active generation")
  .ok { walk with previousEnd := some (row.dataOffset+row.dataBytes) }

def validateReplayExtents (s : Store) (active : String) : Except PersistenceError Unit := do
  validateStateFile s.files active
  let _ ← (s.db.chunks.insertionSort ExtentLe).foldlM (checkExtent s.files) ⟨"",0,none⟩
  .ok ()

def validateApplicationState (codec : Codec) (s : Store) (active : String) :
    Except PersistenceError Unit := do
  let _ ← s.db.runs.foldlM (validateRun codec s) []
  validateReplayExtents s active

variable {codec : Codec} {s : Store} {files : Files} {rows : List ChunkRow} {row : RunRow}

theorem ensure_of {condition : Prop} [Decidable condition] (h : condition)
    (error : PersistenceError) : ensure condition error = .ok () := if_pos h

theorem decoded_of {α : Type} {result : Except String α} {value : α} (h : result = .ok value)
    (failure : String → PersistenceError) : decoded result failure = .ok value := by
  rw [h]
  rfl

theorem validateReplayFileName_of {name : String} (h : validReplayFileName name = true) :
    validateReplayFileName name = .ok () := if_pos h

theorem validateStateFile_of {name : String} {content : List Byte} (h : files name = some content) :
    validateStateFile files name = .ok () := by
  simp [validateStateFile,h]

theorem ok_bind {α β : Type} {x : Except PersistenceError α}
    {f : α → Except PersistenceError β} {a : α} (h : x = .ok a) : x >>= f = f a := by
  rw [h]
  rfl

/-- A tiling whose extents lie in their files passes the walk. -/
theorem foldlM_checkWindowRow {a b n : ℕ} (id : RunId)
    (ht : Tiles ChunkRow.startByte ChunkRow.endByte a rows b)
    (hbacked : ∀ row ∈ rows, Backed files row)
    (hsized : ∀ row ∈ rows, row.dataBytes = row.endByte-row.startByte) :
    rows.foldlM (checkWindowRow files id) (a,n) = .ok (b,n+(rows.map (·.dataBytes)).sum) := by
  induction rows generalizing a n with
  | nil =>
    rw [tiles_nil.mp ht]
    rfl
  | cons row rows ih =>
    obtain ⟨hstart,hlt,hrest⟩ := ht
    have hrow := hbacked row (by simp)
    have hsize := hsized row (by simp)
    have hstep : checkWindowRow files id (a,n) row = .ok (row.endByte,n+row.dataBytes) := by
      unfold checkWindowRow
      rw [ok_bind (validateReplayFileName_of hrow.1),ok_bind (ensure_of hrow.extent_le_len _),
        ok_bind (ensure_of ⟨hstart,hlt,hsize.symm⟩ _)]
    rw [List.foldlM_cons,ok_bind hstep,ih hrest (fun r hr => hbacked r (by simp [hr]))
      (fun r hr => hsized r (by simp [hr]))]
    simp [Nat.add_assoc]

theorem Window.rowsByStart_eq {db : Database} (h : Window db row) :
    db.rowsByStart row.id = db.rowsOf row.id := h.tiles.insertionSort_eq

/-- The byte count of a Run is the total length of its rows. -/
theorem Window.replayBytes_eq {db : Database} (hs : Sound db files) (h : Window db row) :
    row.replayBytes = ((db.rowsOf row.id).map (·.dataBytes)).sum := by
  have hsized : ∀ chunk ∈ db.rowsOf row.id, chunk.endByte-chunk.startByte = chunk.dataBytes :=
    fun chunk hc => (hs.sized chunk (List.mem_filter.mp hc).1).symm
  rw [h.bytes,← h.tiles.sum_length,List.map_congr_left hsized]

theorem validateReplayWindow_ok (hs : Sound s.db s.files) (h : Window s.db row) :
    validateReplayWindow s row = .ok () := by
  have hbacked : ∀ chunk ∈ s.db.rowsOf row.id, Backed s.files chunk := fun chunk hc =>
    hs.backed chunk (List.mem_filter.mp hc).1
  have hsized : ∀ chunk ∈ s.db.rowsOf row.id, chunk.dataBytes = chunk.endByte-chunk.startByte :=
    fun chunk hc => hs.sized chunk (List.mem_filter.mp hc).1
  have hwalk := foldlM_checkWindowRow (n := 0) row.id h.tiles hbacked hsized
  rw [zero_add,← h.replayBytes_eq hs] at hwalk
  unfold validateReplayWindow
  simp only
  rw [h.rowsByStart_eq,ok_bind hwalk]
  split
  · rename_i hnil
    have hempty := h.tiles.eq_nil_iff.mp hnil
    refine ensure_of ⟨hempty,?_,fun hpos => h.truncated (by omega)⟩ _
    rw [h.bytes]
    omega
  · rw [ok_bind (ensure_of ⟨rfl,rfl⟩ _)]
    exact ensure_of h.truncated _

theorem sourceGapFact_ok (h : Described codec row) :
    ∃ gap, sourceGapFact codec row.stateJson row.durableOutputBytes = .ok gap := by
  unfold sourceGapFact
  rcases h.gap with habsent | ⟨cursor,hle,hgap⟩
  · exact ⟨none,by rw [habsent]⟩
  · exact ⟨some cursor,by simp only [hgap]; exact if_pos hle⟩

theorem validateLineage_ok {id : RunId} {lineage : Option String} (selfLineage : PersistenceError)
    (failure : String → PersistenceError)
    (h : ∀ text, lineage = some text →
      ∃ parent, codec.parseLineageParent text = .ok parent ∧ parent ≠ id) :
    validateLineage codec id selfLineage failure lineage = .ok () := by
  cases lineage with
  | none => rfl
  | some text =>
    obtain ⟨parent,hparent,hne⟩ := h text rfl
    exact (ok_bind (decoded_of hparent failure)).trans (ensure_of hne _)

theorem validateRun_ok {seen : List String} (hs : Sound s.db s.files) (hw : Window s.db row)
    (hd : Described codec row) (hseen : row.creationKey ∉ seen) :
    validateRun codec s seen row = .ok (row.creationKey::seen) := by
  obtain ⟨state,hstate,hkind⟩ := hd.state
  obtain ⟨gap,hgap⟩ := sourceGapFact_ok hd
  have hpid : row.pid.all (· < 2^32) = true := by
    cases hp : row.pid with
    | none => rfl
    | some pid => simpa [hp] using hd.pid pid hp
  unfold validateRun
  rw [ok_bind (decoded_of hd.key _),ok_bind (ensure_of hseen _),ok_bind (decoded_of hd.spec _),
    ok_bind (validateLineage_ok _ _ hd.lineage),ok_bind (decoded_of hstate _),
    ok_bind (ensure_of hkind _),ok_bind (ensure_of hd.epoch _),ok_bind (ensure_of hpid _),
    ok_bind (ensure_of (fun h => hd.interrupted (hkind.trans h)) _),ok_bind hgap,
    ok_bind (ensure_of hd.metadata _),ok_bind (validateReplayWindow_ok hs hw)]

theorem foldlM_validateRun {rows : List RunRow} {seen : List String} (hs : Sound s.db s.files)
    (hw : ∀ r ∈ rows, Window s.db r) (hd : ∀ r ∈ rows, Described codec r)
    (hkeys : (rows.map (·.creationKey)).Nodup) (hseen : ∀ r ∈ rows, r.creationKey ∉ seen) :
    ∃ final, rows.foldlM (validateRun codec s) seen = .ok final := by
  induction rows generalizing seen with
  | nil => exact ⟨seen,rfl⟩
  | cons row rows ih =>
    obtain ⟨hfresh,hkeys⟩ := List.nodup_cons.mp hkeys
    have hstep := validateRun_ok hs (hw row (by simp)) (hd row (by simp)) (hseen row (by simp))
    rw [List.foldlM_cons,ok_bind hstep]
    refine ih (fun r hr => hw r (by simp [hr])) (fun r hr => hd r (by simp [hr])) hkeys
      fun r hr hin => ?_
    rcases List.mem_cons.mp hin with heq | hin
    · exact hfresh (List.mem_map.mpr ⟨r,hr,heq⟩)
    · exact hseen r (by simp [hr]) hin

instance : Std.Symm Apart where
  symm _ _ h hfile := (h hfile.symm).symm

theorem validReplayFileName_ne_empty {name : String} (h : validReplayFileName name = true) :
    name ≠ "" := by
  rintro rfl
  exact absurd h (by decide)

/-- Apart and in order, an extent ends before the next one of its file begins. -/
theorem Apart.end_le {x y : ChunkRow} (h : Apart x y) (hle : ExtentLe x y) (hy : 0 < y.dataBytes)
    (hfile : x.dataFile = y.dataFile) :
    x.dataOffset+x.dataBytes ≤ y.dataOffset := by
  have hordered : x.dataOffset ≤ y.dataOffset := by
    rcases hle with hlt | ⟨_,hlt | ⟨heq,_⟩⟩
    · rw [hfile] at hlt
      exact absurd hlt (lt_irrefl _)
    · exact hlt.le
    · exact heq.le
  have := h hfile
  omega

instance : Std.Total ExtentLe where
  total x y := by
    unfold ExtentLe
    rcases lt_trichotomy x.dataFile y.dataFile with hlt | heq | hlt
    · exact .inl (.inl hlt)
    · rcases lt_trichotomy x.dataOffset y.dataOffset with hoff | hoff | hoff
      · exact .inl (.inr ⟨heq,.inl hoff⟩)
      · rcases le_total x.ordinal y.ordinal with hord | hord
        · exact .inl (.inr ⟨heq,.inr ⟨hoff,hord⟩⟩)
        · exact .inr (.inr ⟨heq.symm,.inr ⟨hoff.symm,hord⟩⟩)
      · exact .inr (.inr ⟨heq.symm,.inl hoff⟩)
    · exact .inr (.inl hlt)

instance : IsTrans ChunkRow ExtentLe where
  trans x y z hxy hyz := by
    unfold ExtentLe at *
    rcases hxy with hxy | ⟨hxy,hxo⟩
    · rcases hyz with hyz | ⟨hyz,_⟩
      · exact .inl (hxy.trans hyz)
      · exact .inl (hyz ▸ hxy)
    · rcases hyz with hyz | ⟨hyz,hyo⟩
      · exact .inl (hxy ▸ hyz)
      · exact .inr ⟨hxy.trans hyz,by omega⟩

/-- The walk knows the size of its file and stands before every extent left in it. -/
structure ExtentWalk.Ready (files : Files) (walk : ExtentWalk) (rows : List ChunkRow) : Prop where
  size : walk.currentFile ≠ "" → walk.fileSize = files.len walk.currentFile
  before : ∀ e, walk.previousEnd = some e → ∀ row ∈ rows, row.dataFile = walk.currentFile →
    e ≤ row.dataOffset

variable {walk : ExtentWalk}

theorem enterFile_ok {row : ChunkRow} (hbacked : Backed files row)
    (h : walk.Ready files (row::rows)) :
    ∃ entered, enterFile files walk row.dataFile = .ok entered ∧
      entered.currentFile = row.dataFile ∧ entered.Ready files (row::rows) := by
  obtain ⟨hname,content,hfile,_⟩ := hbacked
  unfold enterFile
  split
  · rename_i hsame
    exact ⟨walk,rfl,hsame.symm,h⟩
  · refine ⟨⟨row.dataFile,files.len row.dataFile,none⟩,?_,rfl,fun _ => rfl,by simp⟩
    rw [ok_bind (validateReplayFileName_of hname),ok_bind (validateStateFile_of hfile)]

theorem checkExtent_ok {row : ChunkRow} (hbacked : Backed files row)
    (h : walk.Ready files (row::rows))
    (hlater : ∀ r ∈ rows, row.dataFile = r.dataFile → row.dataOffset+row.dataBytes ≤ r.dataOffset) :
    ∃ next, checkExtent files walk row = .ok next ∧ next.Ready files rows := by
  obtain ⟨entered,henter,hcurrent,hready⟩ := enterFile_ok hbacked h
  have hsize : row.dataOffset+row.dataBytes ≤ entered.fileSize := by
    rw [hready.size (hcurrent ▸ validReplayFileName_ne_empty hbacked.1),hcurrent]
    exact hbacked.extent_le_len
  have hprevious : entered.previousEnd.all (· ≤ row.dataOffset) = true := by
    cases hend : entered.previousEnd with
    | none => rfl
    | some e => simpa using hready.before e hend row (by simp) hcurrent.symm
  refine ⟨{ entered with previousEnd := some (row.dataOffset+row.dataBytes) },?_,hready.size,?_⟩
  · unfold checkExtent
    rw [ok_bind henter,ok_bind (ensure_of hsize _),ok_bind (ensure_of hprevious _)]
  · rintro e he r hr hrfile
    obtain rfl := Option.some.inj he
    exact hlater r hr (hcurrent.symm.trans hrfile.symm)

theorem foldlM_checkExtent (hbacked : ∀ row ∈ rows, Backed files row)
    (hordered : rows.Pairwise fun x y => x.dataFile = y.dataFile →
      x.dataOffset+x.dataBytes ≤ y.dataOffset) (h : walk.Ready files rows) :
    ∃ final, rows.foldlM (checkExtent files) walk = .ok final := by
  induction rows generalizing walk with
  | nil => exact ⟨walk,rfl⟩
  | cons row rows ih =>
    obtain ⟨hlater,hrest⟩ := List.pairwise_cons.mp hordered
    obtain ⟨next,hstep,hnext⟩ := checkExtent_ok (hbacked row (by simp)) h hlater
    rw [List.foldlM_cons,ok_bind hstep]
    exact ih (fun r hr => hbacked r (by simp [hr])) hrest hnext

theorem validateReplayExtents_ok (h : WellFormed codec s) :
    validateReplayExtents s s.db.replayFile = .ok () := by
  have hperm := List.perm_insertionSort ExtentLe s.db.chunks
  have hmem : ∀ row ∈ s.db.chunks.insertionSort ExtentLe, row ∈ s.db.chunks := fun row hr =>
    hperm.mem_iff.mp hr
  have hapart : (s.db.chunks.insertionSort ExtentLe).Pairwise Apart :=
    (hperm.pairwise_iff fun h => Std.Symm.symm _ _ h).mpr h.sound.apart
  have hordered : (s.db.chunks.insertionSort ExtentLe).Pairwise fun x y =>
      x.dataFile = y.dataFile → x.dataOffset+x.dataBytes ≤ y.dataOffset :=
    (hapart.and (List.pairwise_insertionSort ExtentLe s.db.chunks)).imp_of_mem
      fun _ hy hxy => hxy.1.end_le hxy.2 (h.sound.filled _ (hmem _ hy))
  have hready : ExtentWalk.Ready s.files ⟨"",0,none⟩ (s.db.chunks.insertionSort ExtentLe) :=
    ⟨fun hne => absurd rfl hne,by simp⟩
  obtain ⟨final,hfold⟩ := foldlM_checkExtent (fun row hr => h.sound.backed row (hmem row hr))
    hordered hready
  obtain ⟨_,content,hactive⟩ := h.active
  unfold validateReplayExtents
  rw [ok_bind (validateStateFile_of hactive),ok_bind hfold]

/-- The checks of an open accept every well-formed store. -/
theorem validateApplicationState_ok (h : WellFormed codec s) :
    validateApplicationState codec s s.db.replayFile = .ok () := by
  obtain ⟨final,hruns⟩ : ∃ final, s.db.runs.foldlM (validateRun codec s) [] = .ok final :=
    foldlM_validateRun h.sound h.windows h.described h.sound.keys (by simp)
  unfold validateApplicationState
  rw [ok_bind hruns]
  exact validateReplayExtents_ok h

/-- In every committed state of a store that was created, each Run's rows tile its durable
window, its counters agree with them, no two extents overlap, the accounting row holds the
true totals, and the checks of an open accept the state. -/
theorem durable_window_invariant (codec : Codec)
    (replayFile : { name : String // validReplayFileName name = true })
    (es : List (StoreEvent codec)) :
    let s := Machine.run (storeStep codec) (createdStore replayFile) es
    (∀ r ∈ s.db.runs,
      Tiles ChunkRow.startByte ChunkRow.endByte r.durableFirstAvailableByte (s.db.rowsByStart r.id)
        r.durableOutputBytes ∧
      (∀ row ∈ s.db.rowsByStart r.id, 0 < row.dataBytes ∧
        row.dataBytes = row.endByte-row.startByte) ∧
      r.replayBytes = ((s.db.rowsByStart r.id).map (·.dataBytes)).sum ∧
      (0 < r.durableFirstAvailableByte → r.replayTruncated = true) ∧
      (s.db.rowsByStart r.id).Pairwise fun x y =>
        x.startByte < y.startByte ∧ x.ordinal < y.ordinal) ∧
    (∀ x ∈ s.db.chunks, ∀ y ∈ s.db.chunks, x ≠ y → x.dataFile = y.dataFile →
      x.dataOffset+x.dataBytes ≤ y.dataOffset ∨ y.dataOffset+y.dataBytes ≤ x.dataOffset) ∧
    s.db.accounting = Accounting.ofRuns s.db.runs ∧
    validateApplicationState codec s s.db.replayFile = .ok () := by
  intro s
  have h : WellFormed codec s := wellFormed_run replayFile.2 es
  refine ⟨fun r hr => ?_,?_,h.sound.accounting,validateApplicationState_ok h⟩
  · have hw := h.windows r hr
    have hrow : ∀ row ∈ s.db.rowsOf r.id, row ∈ s.db.chunks := fun row hin =>
      (List.mem_filter.mp hin).1
    rw [hw.rowsByStart_eq]
    refine ⟨hw.tiles,fun row hin => ?_,hw.replayBytes_eq h.sound,hw.truncated,?_⟩
    · exact ⟨h.sound.filled row (hrow row hin),h.sound.sized row (hrow row hin)⟩
    · exact hw.tiles.pairwise_lt.and (h.sound.ordinals.sublist List.filter_sublist)
  · intro x hx y hy hne
    exact h.sound.apart.forall hx hy hne

end Durable
end Ctxmux
