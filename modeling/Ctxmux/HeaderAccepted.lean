import Ctxmux.TerminalHeader

/-!
# Every attached header is accepted

A header that carries a continuation passes the checks of both clients, whatever happens
between the lock sections that read it.
-/

namespace Ctxmux
namespace Terminal

open Durable (Byte RunId OutputChunk OutputReplay)
open Output (OutputLog)
open Machine

variable {vt : Vt100}

/-- The continuation of a header, and the restore bytes that are sent after it. -/
structure AttachedHeader.Exact (header : AttachedHeader) (checkpoint : TerminalCheckpointHeader)
    (resizes : List TerminalResize) (restore : List Byte) : Prop where
  run : checkpoint.runId = header.runId
  floor : header.replay.firstAvailableByte ≤ checkpoint.throughByte
  tail : Follows header.resizeRevision header.replay.latestOutputBytes
    checkpoint.resizeRevision checkpoint.throughByte resizes
  split : checkpoint.resizeAfterRestoreBytes ≤ checkpoint.restoreBytes
  restoreBytes : checkpoint.restoreBytes = restore.length
  nonempty : restore ≠ []
  bounded : restore.length ≤ maxRestoreBytes
  size : checkpoint.size.isZero = false
  restoreSize : checkpoint.restoreSize.isZero = false
  history : ∀ rows, checkpoint.restoreScrollbackRows = some rows → rows ≤ historyRows

section Client

theorem checkResizes_ok {revision position revision' latest : ℕ} {resizes : List TerminalResize}
    (h : Follows revision' latest revision position resizes) :
    checkResizes latest revision position resizes = .ok revision' := by
  induction resizes generalizing revision position with
  | nil =>
    obtain ⟨rfl,_⟩ := h
    rfl
  | cons resize resizes ih =>
    obtain ⟨hrevision,hposition,hsize,hrest⟩ := h
    have hlatest := hrest.position_le
    unfold checkResizes
    rw [if_neg (by simp [hrevision,hsize]; omega)]
    exact ih hrest

theorem receiveRestore_ok (chunkBytes : ℕ+) (restore received : List Byte) :
    receiveRestore (received ++ restore).length (checkpointChunks chunkBytes received.length restore)
      received = .ok (received ++ restore) := by
  induction hlength : restore.length using Nat.strongRecOn generalizing restore received with
  | ind length ih =>
    by_cases hempty : restore = []
    · subst hempty
      rw [checkpointChunks,if_pos rfl]
      simp [receiveRestore]
    · have hpos := List.length_pos_of_ne_nil hempty
      have hchunk := chunkBytes.pos
      have hsplit : received ++ restore =
          (received ++ restore.take chunkBytes) ++ restore.drop chunkBytes := by
        rw [List.append_assoc,List.take_append_drop]
      rw [checkpointChunks,if_neg hempty,receiveRestore,
        if_pos (by simp only [List.length_append]; omega),if_pos ?_]
      · have hrest := ih (restore.drop chunkBytes).length
          (by simp only [List.length_drop]; omega) (restore.drop chunkBytes)
          (received ++ restore.take chunkBytes) rfl
        rw [← hsplit] at hrest
        by_cases hlast : restore.drop chunkBytes = []
        · rw [hlast] at hrest ⊢
          rw [checkpointChunks,if_pos rfl] at hrest ⊢
          exact hrest
        · have hlong : (chunkBytes : ℕ) ≤ restore.length := by
            by_contra hshort
            exact hlast (List.drop_eq_nil_of_le (by omega))
          have hoffset : (received ++ restore.take chunkBytes).length = received.length+chunkBytes := by
            rw [List.length_append,List.length_take,min_eq_left hlong]
          rw [hoffset] at hrest
          exact hrest
      · refine ⟨rfl,?_,?_⟩
        · intro hnone
          have hzero := congrArg List.length hnone
          simp only [List.length_take,List.length_nil] at hzero
          omega
        · simp only [List.length_append,List.length_take]
          omega

/-- The Rust client takes the header, unless its own limit is below the restore bytes. -/
theorem receiveTerminalSeed_exact {header : AttachedHeader} {checkpoint : TerminalCheckpointHeader}
    {resizes : List TerminalResize} {restore : List Byte}
    (hterminal : header.terminal = .basicVt checkpoint resizes)
    (h : header.Exact checkpoint resizes restore) (restoreLimit afterByte : ℕ) (chunkBytes : ℕ+) :
    receiveTerminalSeed restoreLimit afterByte header (checkpointChunks chunkBytes 0 restore) =
      if restoreLimit < restore.length then .error (.restoreLimit restore.length restoreLimit)
      else .ok (checkpoint.throughByte,restore) := by
  have hlatest := h.tail.position_le
  have hfloor := h.floor
  have hsplit := h.split
  have hpos := List.length_pos_of_ne_nil h.nonempty
  have hbytes := h.restoreBytes
  have hreceived := receiveRestore_ok chunkBytes restore []
  simp only [List.nil_append,List.length_nil] at hreceived
  unfold receiveTerminalSeed
  rw [hterminal]
  simp only
  rw [if_neg (by simp [h.run,h.size,h.restoreSize]; omega),checkResizes_ok h.tail]
  simp only [ne_eq,not_true_eq_false,if_false,hbytes,hreceived]

end Client

section Sdk

theorem validateCursorValue_ok {value : ℕ} (h : value ≤ maxSafeInteger) (path : String) :
    validateCursorValue value path = .ok () := if_pos h

theorem terminalSize_ok {size : TerminalSize} (h : size.isZero = false) (path : String) :
    terminalSize size path = .ok () := by
  simp only [TerminalSize.isZero,Bool.or_eq_false_iff,beq_eq_false_iff_ne] at h
  have hrows : 1 ≤ size.rows.toNat ∧ size.rows.toNat ≤ 0xffff := by
    have hlt := size.rows.toNat_lt
    have hne : size.rows.toNat ≠ 0 := fun hzero => h.1 (UInt16.toNat_inj.mp hzero)
    omega
  have hcols : 1 ≤ size.cols.toNat ∧ size.cols.toNat ≤ 0xffff := by
    have hlt := size.cols.toNat_lt
    have hne : size.cols.toNat ≠ 0 := fun hzero => h.2 (UInt16.toNat_inj.mp hzero)
    omega
  simp only [terminalSize,unsignedInteger,if_pos hcols,if_pos hrows,bind,Except.bind]

theorem checkResizeFrames_ok {revision position revision' latest : ℕ} {resizes : List TerminalResize}
    (h : Follows revision' latest revision position resizes) (hlatest : latest ≤ maxSafeInteger)
    (hlast : revision' ≤ maxSafeInteger) (path : String) (index : ℕ) :
    checkResizeFrames path latest index revision position resizes = .ok revision' := by
  induction resizes generalizing revision position index with
  | nil =>
    obtain ⟨rfl,_⟩ := h
    rfl
  | cons resize resizes ih =>
    obtain ⟨hrevision,hposition,hsize,hrest⟩ := h
    have hthrough := hrest.position_le
    have hnext := hrest.revision_eq
    simp only [checkResizeFrames,bind,Except.bind]
    rw [validateCursorValue_ok (by omega),validateCursorValue_ok (by omega),terminalSize_ok hsize]
    simp only
    rw [if_neg (by simp [hrevision]; omega)]
    exact ih hrest (index+1)

/-- The SDK takes the continuation of a header whose cursors it took. -/
theorem terminalContinuation_exact {header : AttachedHeader} {checkpoint : TerminalCheckpointHeader}
    {resizes : List TerminalResize} {restore : List Byte}
    (hterminal : header.terminal = .basicVt checkpoint resizes)
    (h : header.Exact checkpoint resizes restore)
    (hlatest : header.replay.latestOutputBytes ≤ maxSafeInteger)
    (hrevision : header.resizeRevision ≤ maxSafeInteger) (path : String) :
    terminalContinuation path header = .ok () := by
  have hthrough := h.tail.position_le
  have hends := h.tail.revision_eq
  have hpos := List.length_pos_of_ne_nil h.nonempty
  have hbytes := h.restoreBytes
  have hbounded := h.bounded
  have hsafe : maxRestoreBytes ≤ maxSafeInteger := by decide
  have hrows : checkpoint.restoreScrollbackRows.elim (.ok ()) (fun rows => safeUnsignedInteger rows
      (path ++ ".checkpoint.restore_scrollback_rows")) = .ok () := by
    cases hsome : checkpoint.restoreScrollbackRows with
    | none => rfl
    | some rows =>
      have hle := h.history rows hsome
      have hhistory : historyRows ≤ maxSafeInteger := by decide
      exact if_pos (hle.trans hhistory)
  unfold terminalContinuation
  rw [hterminal]
  simp only [bind,Except.bind]
  rw [validateCursorValue_ok (by omega),validateCursorValue_ok (by omega),terminalSize_ok h.size,
    terminalSize_ok h.restoreSize,hrows]
  simp only [unsignedInteger]
  rw [if_pos ⟨by omega,by omega⟩,if_pos ⟨Nat.zero_le _,h.split⟩]
  simp only
  rw [if_neg (by simp [h.run]; have := h.floor; omega),
    checkResizeFrames_ok h.tail hlatest hrevision path 0]
  simp

end Sdk

theorem replayPage_latest {log : OutputLog} {after through : ℕ} {page : OutputReplay}
    (h : log.replayPage after through = some page) :
    page.latestOutputBytes = min through log.latestOutputBytes := by
  simp only [OutputLog.replayPage,Option.bind_eq_bind,Option.bind_eq_some_iff] at h
  obtain ⟨pieces,_,h⟩ := h
  cases Option.some.inj h
  rfl

/-- A page up to a head that the log has reached ends its header there. -/
theorem attachmentReplayPage_latest {before later : OutputLog} {after through : ℕ}
    {durable : Option OutputReplay} {page : OutputReplay}
    (h : attachmentReplayPage before later after through durable = some page)
    (hbefore : through ≤ before.latestOutputBytes) (hlater : through ≤ later.latestOutputBytes) :
    page.latestOutputBytes = through := by
  unfold attachmentReplayPage at h
  have hhead : min before.latestOutputBytes through = through := min_eq_right hbefore
  simp only [hhead] at h
  have hpage : ∀ page, later.replayPage after through = some page →
      page.latestOutputBytes = through := by
    intro page hpage
    rw [replayPage_latest hpage]
    exact min_eq_left hlater
  split at h
  · split at h
    · cases Option.some.inj h
      rfl
    · exact hpage page h
  · exact hpage page h

namespace TerminalRun

variable {r : TerminalRun vt}

/-- A continuation that the first section offers is the sound checkpoint of the model. -/
theorem Sound.terminalSection (hvt : vt.Lawful) (h : r.Sound) {view : AttachmentView} {fault : Bool}
    {checkpoint : TerminalCheckpointHeader} {resizes : List TerminalResize} {restore : List Byte}
    (hoffered : (r.terminalSection view fault).1 = (.basicVt checkpoint resizes,restore)) :
    StoredCheckpoint.Sound r.id r.output.log.latestOutputBytes ⟨checkpoint,restore,resizes⟩ ∧
      checkpoint.resizeRevision+resizes.length = r.output.resizeRevision := by
  cases view with
  | raw => cases hoffered
  | terminal =>
    simp only [TerminalRun.terminalSection,TerminalLog.terminalSnapshot] at hoffered
    cases hderived : (r.output.deriveTerminal .export fault fun terminal => terminal.continuation r.id
        r.output.log.firstAvailableByte r.output.log.latestOutputBytes).1 with
    | none =>
      rw [hderived] at hoffered
      simp only [Option.getD_none,Prod.mk.injEq] at hoffered
      split at hoffered <;> cases hoffered.1
    | some value =>
      rw [hderived] at hoffered
      obtain ⟨model,hmodel,rfl⟩ := TerminalLog.deriveTerminal_value hderived
      obtain ⟨hsound,hrevision⟩ := h.output model hmodel
      obtain ⟨hsaved,_,hends⟩ := hsound.continuation hvt hoffered
      exact ⟨hsaved,hends.trans hrevision⟩

theorem terminalSection_fields (r : TerminalRun vt) (view : AttachmentView) (fault : Bool) :
    (r.terminalSection view fault).2.output.log = r.output.log ∧
      (r.terminalSection view fault).2.output.resizeRevision = r.output.resizeRevision := by
  cases view with
  | raw => exact ⟨rfl,rfl⟩
  | terminal => exact TerminalLog.deriveTerminal_fields _ _ _ _

/-- The continuation of a header is exact, whatever happened between the lock sections. -/
theorem Sound.attachmentSnapshot (hvt : vt.Lawful) (h : r.Sound) {perRunLimit : ℕ}
    {input : AttachmentInput} {snapshot : AttachedSnapshot}
    (hsnapshot : r.attachmentSnapshot perRunLimit input = some snapshot)
    {checkpoint : TerminalCheckpointHeader} {resizes : List TerminalResize}
    (hterminal : snapshot.header.terminal = .basicVt checkpoint resizes) :
    snapshot.header.Exact checkpoint resizes snapshot.restore := by
  obtain ⟨hlog,hrevision⟩ := r.terminalSection_fields input.view input.fault
  unfold TerminalRun.attachmentSnapshot at hsnapshot
  cases hsection : r.terminalSection input.view input.fault with
  | mk offered started =>
    obtain ⟨terminal,restore⟩ := offered
    rw [hsection] at hsnapshot hlog hrevision
    simp only [Option.bind_eq_bind,Option.bind_eq_some_iff] at hsnapshot
    obtain ⟨replay,hreplay,hsnapshot⟩ := hsnapshot
    cases Option.some.inj hsnapshot
    have hfloored := latest_le_run perRunLimit started input.beforeFloor
    have hpaged := latest_le_run perRunLimit
      (run (fun run => TerminalRun.act run perRunLimit) started input.beforeFloor) input.beforePage
    have hlatest := attachmentReplayPage_latest hreplay hfloored (hfloored.trans hpaged)
    cases terminal with
    | notRequested => simp at hterminal
    | unknown reason => simp at hterminal
    | unavailable reason => simp at hterminal
    | basicVt offered tail =>
      simp only [Bool.true_and,decide_eq_true_eq] at hterminal ⊢
      by_cases hkept : offered.throughByte < replay.firstAvailableByte
      · rw [if_pos hkept] at hterminal
        cases hterminal
      rw [if_neg hkept] at hterminal
      cases hterminal
      simp only [if_neg hkept]
      obtain ⟨hsaved,hends⟩ := h.terminalSection hvt (congrArg Prod.fst hsection)
      have hhead : replay.latestOutputBytes = r.output.log.latestOutputBytes := by
        rw [hlatest,hlog]
      have hlast : started.output.resizeRevision = checkpoint.resizeRevision+resizes.length := by
        rw [hrevision,hends]
      exact {
        run := hsaved.run
        floor := Nat.le_of_not_lt hkept
        tail := by
          simp only [hhead,hlast]
          exact hsaved.tail
        split := hsaved.split
        restoreBytes := hsaved.restoreBytes
        nonempty := hsaved.nonempty
        bounded := hsaved.bounded
        size := hsaved.size
        restoreSize := hsaved.restoreSize
        history := hsaved.history }

end TerminalRun

/-- What both clients make of a header and of the restore bytes after it. -/
structure AttachedSnapshot.Accepted (snapshot : AttachedSnapshot) : Prop where
  exact : ∀ checkpoint resizes, snapshot.header.terminal = .basicVt checkpoint resizes →
    snapshot.header.Exact checkpoint resizes snapshot.restore
  client : ∀ restoreLimit afterByte chunkBytes, snapshot.restore.length ≤ restoreLimit →
    receiveTerminalSeed restoreLimit afterByte snapshot.header
        (checkpointChunks chunkBytes 0 snapshot.restore) =
      .ok (match snapshot.header.terminal with
        | .basicVt checkpoint _ => (checkpoint.throughByte,snapshot.restore)
        | _ => (afterByte,[]))
  sdk : ∀ path, headerCursors path snapshot.header = .ok () →
    terminalContinuation (path ++ ".terminal") snapshot.header = .ok () ∧
      attachedHeader path snapshot.header = .ok ()

theorem cursors_of_headerCursors {path : String} {header : AttachedHeader}
    (h : headerCursors path header = .ok ()) :
    header.replay.latestOutputBytes ≤ maxSafeInteger ∧ header.resizeRevision ≤ maxSafeInteger := by
  simp only [headerCursors,outputReplayHeader,validateCursorValue,bind,Except.bind] at h
  by_cases hfirst : header.replay.firstAvailableByte ≤ maxSafeInteger
  · by_cases hlatest : header.replay.latestOutputBytes ≤ maxSafeInteger
    · by_cases hrevision : header.resizeRevision ≤ maxSafeInteger
      · exact ⟨hlatest,hrevision⟩
      · simp [hfirst,hlatest,hrevision] at h
    · simp [hfirst,hlatest] at h
  · simp [hfirst] at h

theorem accepted_of_exact {snapshot : AttachedSnapshot}
    (h : ∀ checkpoint resizes, snapshot.header.terminal = .basicVt checkpoint resizes →
      snapshot.header.Exact checkpoint resizes snapshot.restore) : snapshot.Accepted where
  exact := h
  client := by
    intro restoreLimit afterByte chunkBytes hlimit
    cases hterminal : snapshot.header.terminal with
    | basicVt checkpoint resizes =>
      rw [receiveTerminalSeed_exact hterminal (h checkpoint resizes hterminal),
        if_neg (Nat.not_lt.mpr hlimit)]
    | notRequested => simp only [receiveTerminalSeed,hterminal]
    | unknown reason => simp only [receiveTerminalSeed,hterminal]
    | unavailable reason => simp only [receiveTerminalSeed,hterminal]
  sdk := by
    intro path hcursors
    have hcontinuation : terminalContinuation (path ++ ".terminal") snapshot.header = .ok () := by
      obtain ⟨hlatest,hrevision⟩ := cursors_of_headerCursors hcursors
      cases hterminal : snapshot.header.terminal with
      | basicVt checkpoint resizes =>
        exact terminalContinuation_exact hterminal (h checkpoint resizes hterminal) hlatest
          hrevision _
      | notRequested => simp only [terminalContinuation,hterminal]
      | unknown reason => simp only [terminalContinuation,hterminal]
      | unavailable reason => simp only [terminalContinuation,hterminal]
    refine ⟨hcontinuation,?_⟩
    simp only [attachedHeader,hcursors,bind,Except.bind]
    exact hcontinuation

/-- In every state of every Run the log and its model have the same revision, and every
header that an attachment sends from there is exact and accepted by both clients. -/
theorem attached_header_accepted (hvt : vt.Lawful) (perRunLimit : ℕ) (id : RunId)
    (size : TerminalSize) (fault : Bool) (es : List TerminalEvent) :
    (∀ model, (run (fun r => TerminalRun.step r perRunLimit)
        (TerminalRun.start id size fault : TerminalRun vt) es).output.terminal = some model →
      model.resizeRevision = (run (fun r => TerminalRun.step r perRunLimit)
        (TerminalRun.start id size fault : TerminalRun vt) es).output.resizeRevision) ∧
    ∀ input snapshot, (run (fun r => TerminalRun.step r perRunLimit)
        (TerminalRun.start id size fault : TerminalRun vt) es).attachmentSnapshot perRunLimit input =
      some snapshot → snapshot.Accepted := by
  have hsound := run_invariant (I := TerminalRun.Sound)
    (fun r e h => TerminalRun.Sound.step hvt h perRunLimit e)
    (TerminalRun.sound_start hvt id size fault) es
  refine ⟨fun model hmodel => (hsound.output model hmodel).2,?_⟩
  intro input snapshot hsnapshot
  exact accepted_of_exact fun checkpoint resizes hterminal =>
    hsound.attachmentSnapshot hvt hsnapshot hterminal

/-- A parser that keeps its size and its history limit, and restores by a reset. -/
def sizeParser : Vt100 where
  Parser := TerminalSize × ℕ
  new := fun rows cols limit => (⟨rows,cols⟩,limit)
  process := fun parser _ => parser
  setSize := fun parser rows cols => (⟨rows,cols⟩,parser.2)
  setScrollbackLimit := fun parser limit => (parser.1,limit)
  scrollbackLimit := fun parser => parser.2
  size := fun parser => parser.1
  isGround := fun _ => true
  basicRestoreGeometryCheckpoint := fun parser =>
    if parser.1.isZero then none
    else some ⟨⟨parser.1.rows,parser.1.cols,[0x1b,0x63]⟩,[],none,parser.1.rows,parser.1.cols⟩

theorem sizeParser_seed {parser : TerminalSize × ℕ} {seed : BasicRestoreGeometryCheckpoint}
    (h : sizeParser.basicRestoreGeometryCheckpoint parser = some seed) :
    parser.1.isZero = false ∧
      seed = ⟨⟨parser.1.rows,parser.1.cols,[0x1b,0x63]⟩,[],none,parser.1.rows,parser.1.cols⟩ := by
  simp only [sizeParser] at h
  split at h
  · cases h
  · rename_i hzero
    exact ⟨by simpa using hzero,(Option.some.inj h).symm⟩

theorem sizeParser_lawful : sizeParser.Lawful where
  size_new := fun _ _ _ => rfl
  size_process := fun _ _ => rfl
  size_setSize := fun _ _ _ => rfl
  size_setScrollbackLimit := fun _ _ => rfl
  limit_new := fun _ _ _ => rfl
  limit_process := fun _ _ => rfl
  limit_setSize := fun _ _ _ => rfl
  limit_setScrollbackLimit := fun _ _ => rfl
  source := by
    intro parser seed hseed
    obtain ⟨_,rfl⟩ := sizeParser_seed hseed
    rfl
  nonempty := by
    intro parser seed hseed
    obtain ⟨_,rfl⟩ := sizeParser_seed hseed
    exact List.cons_ne_nil _ _
  nonzero := by
    intro parser seed hseed
    obtain ⟨hzero,rfl⟩ := sizeParser_seed hseed
    exact ⟨hzero,hzero⟩
  history := by
    intro parser seed rows hseed hrows
    obtain ⟨_,rfl⟩ := sizeParser_seed hseed
    cases hrows

/-- A Run that was resized, and a terminal attachment to it. -/
def resizedRun : TerminalRun sizeParser :=
  run (fun r => TerminalRun.step r 64) (TerminalRun.start ⟨"run"⟩ ⟨24,80⟩ false)
    [.owned (.resize ⟨30,100⟩ false)]

theorem attached_header_accepted_resized :
    (resizedRun.attachmentSnapshot 64 ⟨0,.terminal,false,[],[],none⟩).map
        (·.header.terminal matches .basicVt _ _) = some true ∧
      ∀ input snapshot, resizedRun.attachmentSnapshot 64 input = some snapshot → snapshot.Accepted :=
  ⟨by decide,(attached_header_accepted sizeParser_lawful 64 ⟨"run"⟩ ⟨24,80⟩ false
    [.owned (.resize ⟨30,100⟩ false)]).2⟩

end Terminal
end Ctxmux
