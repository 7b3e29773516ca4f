import Ctxmux.StagedStart

/-!
# What a driven start has proved

Until COMMIT is issued the durable rows are the old unit, whatever SQLite and the
filesystem answer. Where the drive of a start ends, its receipt says no more than the
rows bear out, and a later reconciliation keeps that.
-/

namespace Ctxmux
namespace Durable

def StageCompletion.disposition : StageCompletion → StartDisposition
  | .notCommitted _ => .notCommitted
  | .committed _ => .committed
  | .commitUnknown _ => .commitUnknown

/-- The result of the drive goes with the disposition of its receipt. -/
def StageDriveResult.Accords : StageDriveResult → StartDisposition → Prop
  | .readyFailed _, disposition => disposition = .notCommitted ∨ disposition = .commitUnknown
  | .completed completion, disposition => disposition = completion.disposition

/-- The result makes the actor latch its failure. -/
def StageDriveResult.latches : StageDriveResult → Bool
  | .readyFailed failure => failure.fatal
  | .completed (.committed postCommitError) => postCommitError.isSome
  | .completed (.commitUnknown _) => true
  | .completed (.notCommitted failure) => failure.fatal

/-- The start stays with the actor to be reconciled. -/
def StageDriveResult.unresolved (result : StageDriveResult) (disposition : StartDisposition) :
    Bool :=
  disposition = .commitUnknown ||
    match result with
    | .completed (.committed (some _)) => true
    | _ => false

/-- Nothing is decided and nothing is committed. -/
structure Undecided (base : Database) (d : Drive) : Prop where
  pending : d.receipt.disposition = .pending
  unauthorized : d.receipt.commitAuthorized = false
  old : OldUnit base d.store.durable

/-- The open transaction holds the new unit. -/
structure StagedDrive (request : StartRequest) (base : Database) (d : Drive) : Prop extends
    Undecided base d where
  staged : ∃ db, d.store.staged = some db ∧ NewUnit request base db

/-- The receipt says no more than the rows bear out. -/
structure Truthful (request : StartRequest) (base : Database) (d : Drive) : Prop where
  committed : d.receipt.disposition = .committed → NewUnit request base d.store.durable
  notCommitted : d.receipt.disposition = .notCommitted → OldUnit base d.store.durable
  unauthorized : d.receipt.commitAuthorized = false →
    OldUnit base d.store.durable ∧ d.receipt.disposition ≠ .committed
  units : OldUnit base d.store.durable ∨ NewUnit request base d.store.durable

structure ConcludedDrive (request : StartRequest) (base : Database) (d : Drive)
    (result : StageDriveResult) : Prop extends Truthful request base d where
  accords : result.Accords d.receipt.disposition
  latched : result.unresolved d.receipt.disposition = true → result.latches = true

/-- The start ended before its COMMIT was authorized. -/
structure Refused (request : StartRequest) (base : Database) (d : Drive)
    (result : StageDriveResult) : Prop extends ConcludedDrive request base d result where
  withheld : d.receipt.commitAuthorized = false

/-- How a part of the drive may end. -/
def Progress.Ends {α : Type} (base : Database) (F : Drive → StageDriveResult → Prop)
    (P : Drive → Prop) : Progress α → Prop
  | .lost store => OldUnit base store.durable
  | .finished d result => F d result
  | .next d _ => P d

section Decisions

variable {request : StartRequest} {base : Database} {d : Drive} {store : StartStore}
  {result : StageDriveResult} {ctx : StartContext} {report : CommitReport}

theorem decide_pending {receipt : StartReceipt} (h : receipt.disposition = .pending)
    (disposition : StartDisposition) :
    receipt.decide disposition = { receipt with disposition := disposition } := by
  simp [StartReceipt.decide,h]

theorem Undecided.of_store (h : Undecided base d) (hs : OldUnit d.store.durable store.durable) :
    Undecided base { d with store := store } where
  pending := h.pending
  unauthorized := h.unauthorized
  old := h.old.trans hs

theorem Undecided.conclude (h : Undecided base d) {disposition : StartDisposition}
    (hd : disposition ≠ .committed) (hs : result.Accords disposition)
    (hl : result.unresolved disposition = true → result.latches = true) :
    Refused request base (d.decide disposition) result := by
  have hreceipt := decide_pending h.pending disposition
  have hold : OldUnit base (d.decide disposition).store.durable := h.old
  have hdisp : (d.decide disposition).receipt.disposition = disposition := by
    simp [Drive.decide,hreceipt]
  exact
    { committed := fun hc => absurd (hdisp.symm.trans hc) hd
      notCommitted := fun _ => hold
      unauthorized := fun _ => ⟨hold,fun hc => hd (hdisp.symm.trans hc)⟩
      units := .inl hold
      accords := by rwa [hdisp]
      latched := by rwa [hdisp]
      withheld := by simp [Drive.decide,hreceipt,h.unauthorized] }

theorem Undecided.refused (h : Undecided base d) (failure : StageFailure) :
    Refused request base (d.decide .notCommitted) (.readyFailed failure) := by
  have haccords : (StageDriveResult.readyFailed failure).Accords .notCommitted := Or.inl rfl
  apply h.conclude (by decide) haccords
  simp [StageDriveResult.unresolved]

theorem Undecided.notCommitted {α : Type} {P : Drive → Prop} (h : Undecided base d)
    (failure : StageFailure) : (notCommitted d failure : Progress α).Ends base (Refused request base) P :=
  h.refused failure

theorem rollback_durable (s : StartStore) (o : Rollback) : (s.rollback o).1.durable = s.durable := by
  cases o <;> rfl

theorem rollbackActive_durable (s : StartStore) (o : Rollback) :
    (s.rollbackActive o).1.durable = s.durable := by
  unfold StartStore.rollbackActive
  split
  · rfl
  · exact rollback_durable s o

theorem rollbackActive_autocommit {s : StartStore} {o : Rollback}
    (h : (s.rollbackActive o).2 = none) : (s.rollbackActive o).1.staged = none := by
  unfold StartStore.rollbackActive at h ⊢
  split
  · rename_i hauto
    simpa [StartStore.autocommit] using hauto
  · rename_i hauto
    rw [if_neg hauto] at h
    cases o with
    | done => rfl
    | failed error ended => simp [StartStore.rollback] at h

theorem Undecided.rolledBack (h : Undecided base d) (o : Rollback) :
    Undecided base { d with store := (d.store.rollbackActive o).1 } :=
  h.of_store (by rw [rollbackActive_durable]; exact OldUnit.refl _)

theorem Undecided.rollbackBeforeReady (ctx : StartContext) (h : Undecided base d) (o : Rollback)
    (failure : StageFailure) :
    Refused request base (rollbackBeforeReady ctx d o failure).1
      (rollbackBeforeReady ctx d o failure).2 := by
  have hrolled := h.rolledBack o
  simp only [Durable.rollbackBeforeReady]
  cases (d.store.rollbackActive o).2 with
  | none => exact hrolled.refused failure
  | some error => exact hrolled.conclude (by decide) (Or.inr rfl) fun _ => rfl

theorem upkeep_durable (s : StartStore) (o : UpkeepOutcome) :
    OldUnit s.durable (s.upkeep o).1.durable := by
  cases o with
  | done works progress => exact oldUnit_upkeep _ works
  | failed works error left recorded => exact oldUnit_upkeep _ works

theorem reclaimPages_durable (s : StartStore) (o : UpkeepOutcome) :
    OldUnit s.durable (s.reclaimPages o).1.durable := by
  unfold StartStore.reclaimPages
  split
  · exact upkeep_durable s o
  · exact OldUnit.refl _

theorem preflight_ends {stoppable : Bool} (h : Undecided base d) (o : PreflightOutcomes) :
    (preflight ctx request stoppable d o).Ends base (Refused request base) (Undecided base) := by
  unfold preflight
  cases validatePreparedStart ctx.codec ctx.epoch request.prepared with
  | error error => exact h.notCommitted _
  | ok _ =>
    simp only
    split
    · exact h.notCommitted _
    · have hwork := h.of_store (upkeep_durable d.store o.prepare)
      cases (d.store.upkeep o.prepare).2 with
      | error error => exact hwork.notCommitted _
      | ok _ =>
        cases o.fold with
        | error error =>
          simp only
          split
          · exact hwork.old
          · exact hwork.notCommitted _
        | ok baseline =>
          cases o.releaseMemory with
          | some error => exact hwork.notCommitted _
          | none =>
            cases o.disableSpill with
            | error failure => exact hwork.notCommitted _
            | ok previous => exact hwork

theorem stageInto_durable (ctx : StartContext) (request : StartRequest) (s : StartStore)
    (sql : Option (PersistenceError × Option Database)) :
    (stageInto ctx request s sql).1.durable = s.durable := by
  unfold stageInto
  cases sql with
  | some failed => rfl
  | none =>
    simp only
    cases stageExactReplacement ctx s.view request <;> rfl

/-- A staging that succeeds leaves the new unit in the open transaction. -/
theorem stageInto_staged {s : StartStore} {before : Database} (hs : s.staged = some before)
    {sql : Option (PersistenceError × Option Database)} (h : (stageInto ctx request s sql).2 = none)
    :
    ∃ db, (stageInto ctx request s sql).1.staged = some db ∧ NewUnit request before db := by
  unfold stageInto at h ⊢
  cases sql with
  | some failed => cases h
  | none =>
    have hview : s.view = before := by simp [StartStore.view,hs]
    simp only [hview] at h ⊢
    cases hstage : stageExactReplacement ctx before request with
    | error failure => rw [hstage] at h; cases h
    | ok db => exact ⟨db,rfl,newUnit_stageExactReplacement hstage⟩

/-- Induction on the turns of the loop: each begins undecided, and goes on only after its
transaction was rolled back. -/
theorem stageLoop_ends (attempts : List StagingAttempt) (baseline : ℕ) (h : Undecided base d) :
    (stageLoop ctx request baseline attempts d).Ends base (Refused request base)
      (StagedDrive request base) := by
  induction attempts generalizing baseline d with
  | nil => exact h.old
  | cons o attempts ih =>
    rw [stageLoop]
    cases o.resetCounters with
    | some error => exact h.notCommitted _
    | none =>
      cases o.begun with
      | some error => exact h.notCommitted _
      | none =>
        cases d.store.autocommit with
        | false => exact h.notCommitted _
        | true =>
          have hbegun : Undecided base
              { d with store := { d.store with staged := some d.store.durable } } :=
            h.of_store (OldUnit.refl _)
          cases o.walLen with
          | error error => exact hbegun.rollbackBeforeReady ctx o.rollback _
          | ok bytes =>
            simp only
            split
            · exact hbegun.rollbackBeforeReady ctx o.rollback _
            · have hstaging := stageInto_durable ctx request
                { d.store with staged := some d.store.durable } o.sql
              have hstaged := hbegun.of_store
                (show OldUnit d.store.durable _ by rw [hstaging]; exact OldUnit.refl _)
              split
              · rename_i hnone
                obtain ⟨db,hdb,hnew⟩ := stageInto_staged rfl hnone
                exact { hstaged with staged := ⟨db,hdb,h.old.newUnit hnew⟩ }
              · rename_i failure _
                split
                · have hrolled := hstaged.rolledBack o.rollback
                  split
                  · exact hrolled.conclude (by decide) (Or.inr rfl) fun _ => rfl
                  · have hreclaimed := hrolled.of_store (reclaimPages_durable _ o.reclaim)
                    split
                    · exact ih _ hreclaimed
                    · exact hreclaimed.notCommitted _
                    · exact hreclaimed.rollbackBeforeReady ctx o.lastRollback _
                · exact hstaged.rollbackBeforeReady ctx o.rollback _

theorem admitStaged_ends {baseline : ℕ} (h : StagedDrive request base d) (o : AdmissionOutcomes) :
    (admitStaged ctx baseline d o).Ends base (Refused request base) (StagedDrive request base) := by
  unfold admitStaged
  cases o.snapshot with
  | error error => exact h.toUndecided.rollbackBeforeReady ctx o.rollback _
  | ok snapshot =>
    cases o.walLen with
    | error error => exact h.toUndecided.rollbackBeforeReady ctx o.rollback _
    | ok bytes =>
      simp only
      split
      · exact h.toUndecided.rollbackBeforeReady ctx o.rollback _
      · exact h

theorem Progress.Ends.andThen {α β : Type} {F G : Drive → StageDriveResult → Prop}
    {P Q : Drive → Prop} {progress : Progress α} {f : Drive → α → Progress β}
    (h : progress.Ends base F P) (hF : ∀ d result, F d result → G d result)
    (hf : ∀ d value, P d → (f d value).Ends base G Q) : (progress.andThen f).Ends base G Q := by
  cases progress with
  | lost store => exact h
  | finished d result => exact hF d result h
  | next d value => exact hf d value h

theorem stageUntilReady_ends {baseline : ℕ} (h : Undecided base d) (attempts : List StagingAttempt)
    (admission : AdmissionOutcomes) :
    (stageUntilReady ctx request baseline d attempts admission).Ends base (Refused request base)
      (StagedDrive request base) :=
  (stageLoop_ends attempts baseline h).andThen (fun _ _ hr => hr) fun _ _ hd =>
    admitStaged_ends hd admission

theorem Undecided.rolled (h : Undecided base d) (o : Rollback) :
    Undecided base { d with store := (d.store.rollback o).1 } :=
  h.of_store (by rw [rollback_durable]; exact OldUnit.refl _)

theorem Undecided.rollBackStaged (h : Undecided base d) (o : Rollback) (undone : StageFailure)
    (unknown : PersistenceError → PersistenceError) :
    Refused request base (rollBackStaged d o undone unknown).1
      (rollBackStaged d o undone unknown).2 := by
  have hrolled := h.rolled o
  simp only [Durable.rollBackStaged]
  cases (d.store.rollback o).2 with
  | none =>
    have haccords : (StageDriveResult.completed (.notCommitted undone)).Accords .notCommitted := rfl
    apply hrolled.conclude (by decide) haccords
    simp [StageDriveResult.unresolved]
  | some error => exact hrolled.conclude (by decide) rfl fun _ => rfl

/-- COMMIT has been issued: the rows are the old unit or the new one. -/
structure Issued (request : StartRequest) (base : Database) (report : CommitReport)
    (d : Drive) : Prop where
  pending : d.receipt.disposition = .pending
  authorized : d.receipt.commitAuthorized = true
  units : OldUnit base d.store.durable ∨ NewUnit request base d.store.durable
  applied : report = .ok → NewUnit request base d.store.durable

theorem StagedDrive.issueCommit (h : StagedDrive request base d) (report : CommitReport) :
    Issued request base report (issueCommit d report) := by
  obtain ⟨db,hdb,hnew⟩ := h.staged
  have hview : d.store.view = db := by simp [StartStore.view,hdb]
  cases report with
  | ok =>
    exact
      { pending := h.pending
        authorized := rfl
        units := .inr (by simpa [Durable.issueCommit,StartStore.commit,hview] using hnew)
        applied := fun _ => by simpa [Durable.issueCommit,StartStore.commit,hview] using hnew }
  | failed error fate =>
    have hunits : OldUnit base (d.store.commit (.failed error fate)).durable ∨
        NewUnit request base (d.store.commit (.failed error fate)).durable := by
      cases fate with
      | applied => exact .inr (by simpa [StartStore.commit,hview] using hnew)
      | undone => exact .inl h.old
      | active => exact .inl h.old
    exact { pending := h.pending, authorized := rfl, units := hunits, applied := nofun }

/-- The receipt of an issued COMMIT is decided as the rows are. -/
theorem Issued.conclude (h : Issued request base report d) (hs : store.durable = d.store.durable)
    (completion : StageCompletion)
    (hcommitted : completion.disposition = .committed → NewUnit request base store.durable)
    (hold : completion.disposition = .notCommitted → OldUnit base store.durable) :
    ConcludedDrive request base (Drive.decide { d with store := store } completion.disposition)
      (.completed completion) := by
  have hreceipt := decide_pending h.pending completion.disposition
  have hdisp : (Drive.decide { d with store := store } completion.disposition).receipt.disposition
      = completion.disposition := by simp [Drive.decide,hreceipt]
  have hauth : (Drive.decide { d with store := store }
      completion.disposition).receipt.commitAuthorized = true := by
    simp [Drive.decide,hreceipt,h.authorized]
  exact
    { committed := fun hc => hcommitted (hdisp.symm.trans hc)
      notCommitted := fun hn => hold (hdisp.symm.trans hn)
      unauthorized := fun hu => by simp [hauth] at hu
      units := by simpa [Drive.decide,hs] using h.units
      accords := hdisp
      latched := by
        rw [hdisp]
        cases completion with
        | notCommitted failure => simp [StageDriveResult.unresolved,StageCompletion.disposition]
        | commitUnknown error => intro _; rfl
        | committed post => cases post <;> simp [StageDriveResult.unresolved,
            StageDriveResult.latches,StageCompletion.disposition] }

theorem Issued.classifyFailedCommit (ctx : StartContext) (h : Issued request base report d)
    (hfresh : FreshRequest request base) (error : PersistenceError) (o : ClassifyOutcomes) :
    ConcludedDrive request base (classifyFailedCommit ctx request d error o).1
      (classifyFailedCommit ctx request d error o).2 := by
  have hdurable := rollbackActive_durable d.store o.rollback
  have hunknown : ∀ unknown : PersistenceError, ConcludedDrive request base
      (Drive.decide { d with store := (d.store.rollbackActive o.rollback).1 } .commitUnknown)
      (.completed (.commitUnknown unknown)) := fun unknown =>
    h.conclude hdurable (.commitUnknown unknown) nofun nofun
  simp only [Durable.classifyFailedCommit]
  cases hrolled : (d.store.rollbackActive o.rollback).2 with
  | some rollbackError => exact hunknown _
  | none =>
    cases o.probe with
    | some probeError => exact hunknown _
    | none =>
      have hview : (d.store.rollbackActive o.rollback).1.view = d.store.durable := by
        rw [StartStore.view,rollbackActive_autocommit hrolled,hdurable]
        rfl
      simp only [hview]
      cases hprobe : probeExactReplacement ctx.codec d.store.durable request with
      | hybrid => exact hunknown _
      | oldUnit =>
        have hold : OldUnit base d.store.durable :=
          h.units.resolve_right fun hnew => probe_of_newUnit hnew hprobe
        exact h.conclude hdurable (.notCommitted _) nofun fun _ => hdurable ▸ hold
      | newUnit =>
        have hnew : NewUnit request base d.store.durable :=
          h.units.resolve_left fun hold => probe_of_fresh (hold.fresh hfresh) hprobe
        exact h.conclude hdurable (.committed _) (fun _ => hdurable ▸ hnew) nofun

theorem Issued.concludeCommit (ctx : StartContext) (h : Issued request base report d)
    (hfresh : FreshRequest request base) (o : ClassifyOutcomes) :
    ConcludedDrive request base (concludeCommit ctx request d report o).1
      (concludeCommit ctx request d report o).2 := by
  cases report with
  | ok => exact h.conclude rfl (.committed _) (fun _ => h.applied rfl) nofun
  | failed error fate => exact h.classifyFailedCommit ctx hfresh error o

theorem accords_withRestoreFailure {error : PersistenceError} {disposition : StartDisposition}
    (h : result.Accords disposition) :
    (result.withRestoreFailure ctx error).Accords disposition := by
  cases result with
  | readyFailed failure => exact h
  | completed completion => cases completion <;> exact h

theorem latches_withRestoreFailure (ctx : StartContext) (error : PersistenceError)
    (result : StageDriveResult) : (result.withRestoreFailure ctx error).latches = true := by
  cases result with
  | readyFailed failure => rfl
  | completed completion => cases completion <;> rfl

/-- A failed restore changes neither the disposition nor what the rows bear out. -/
theorem ConcludedDrive.restoreSpill (h : ConcludedDrive request base d result) (previous : ℤ)
    (restore : Option PersistenceError) :
    ConcludedDrive request base (restoreSpill ctx previous restore (d,result)).1
      (restoreSpill ctx previous restore (d,result)).2 := by
  cases restore with
  | none => exact h
  | some error =>
    exact
      { committed := h.committed
        notCommitted := h.notCommitted
        unauthorized := h.unauthorized
        units := h.units
        accords := accords_withRestoreFailure h.accords
        latched := fun _ => latches_withRestoreFailure ctx error result }

theorem restoreSpill_commitAuthorized (ctx : StartContext) (previous : ℤ)
    (restore : Option PersistenceError) (result : Drive × StageDriveResult) :
    (restoreSpill ctx previous restore result).1.receipt.commitAuthorized =
      result.1.receipt.commitAuthorized := by
  cases restore <;> rfl

theorem Refused.restoreSpill (h : Refused request base d result) (previous : ℤ)
    (restore : Option PersistenceError) :
    Refused request base (restoreSpill ctx previous restore (d,result)).1
      (restoreSpill ctx previous restore (d,result)).2 :=
  { h.toConcludedDrive.restoreSpill previous restore with
    withheld := by rw [restoreSpill_commitAuthorized]; exact h.withheld }

theorem Undecided.rollbackAfterReadyLoss (ctx : StartContext) (request : StartRequest)
    (h : Undecided base d) (o : Rollback) (previous : ℤ) (restore : Option PersistenceError) :
    Refused request base
      (Durable.restoreSpill ctx previous restore (rollbackAfterReadyLoss ctx d o)).1
      (Durable.restoreSpill ctx previous restore (rollbackAfterReadyLoss ctx d o)).2 :=
  (h.rollBackStaged o _ _).restoreSpill previous restore

theorem Undecided.abortStagedStart (ctx : StartContext) (request : StartRequest)
    (h : Undecided base d) (o : Rollback) (previous : ℤ) (restore : Option PersistenceError) :
    Refused request base
      (Durable.restoreSpill ctx previous restore (abortStagedStart ctx d o)).1
      (Durable.restoreSpill ctx previous restore (abortStagedStart ctx d o)).2 :=
  (h.rollBackStaged o _ _).restoreSpill previous restore

theorem driveOriginalCommit_ends (h : Undecided base d) (hfresh : FreshRequest request base)
    (o : DriveOutcomes) :
    (driveOriginalCommit ctx request d o).Ends base (ConcludedDrive request base) fun _ => False := by
  apply (preflight_ends h o.preflight).andThen fun _ _ hr => hr.toConcludedDrive
  intro d admitted hd
  have hstaged : (stageUntilReady ctx request admitted.1 d o.attempts o.admission).Ends base
      (Refused request base) (StagedDrive request base) := stageUntilReady_ends hd o.attempts o.admission
  cases hready : stageUntilReady ctx request admitted.1 d o.attempts o.admission with
  | lost store => rw [hready] at hstaged; exact hstaged
  | finished d result =>
    rw [hready] at hstaged
    exact (Refused.toConcludedDrive hstaged).restoreSpill admitted.2 o.restore
  | next d value =>
    rw [hready] at hstaged
    have hissued := StagedDrive.issueCommit hstaged o.report
    exact (hissued.concludeCommit ctx hfresh o.classify).restoreSpill admitted.2 o.restore

/-- A disposition leaves `Pending` once, and `CommitUnknown` for a settled one. -/
def StartDisposition.Moves (before after : StartDisposition) : Prop :=
  after = before ∨ (before = .pending ∧ after ≠ .pending) ∨
    (before = .commitUnknown ∧ (after = .committed ∨ after = .notCommitted))

/-- The start stays with the actor to be reconciled. -/
structure Owed (request : StartRequest) (base : Database) (d : Drive) : Prop extends
    Truthful request base d where
  owing : d.receipt.disposition = .commitUnknown ∨ d.receipt.disposition = .committed

/-- A result that leaves its start unresolved leaves it unknown or committed. -/
theorem ConcludedDrive.owed (h : ConcludedDrive request base d result)
    (hu : result.unresolved d.receipt.disposition = true) : Owed request base d := by
  refine { h.toTruthful with owing := ?_ }
  simp only [StageDriveResult.unresolved,Bool.or_eq_true,decide_eq_true_eq] at hu
  rcases hu with hu | hu
  · exact .inl hu
  · have haccords := h.accords
    cases result with
    | readyFailed failure => simp at hu
    | completed completion =>
      cases completion with
      | notCommitted failure => simp at hu
      | commitUnknown error => simp at hu
      | committed post => exact .inr haccords

/-- What one call of `reconcile_start` may do to an owed start. -/
structure Reconciles (request : StartRequest) (base : Database) (receipt : StartReceipt)
    (d : Drive) (result : Except PersistenceError Bool) : Prop extends
    Truthful request base d where
  authorized : d.receipt.commitAuthorized = receipt.commitAuthorized
  moves : receipt.disposition.Moves d.receipt.disposition
  kept : result ≠ .ok true → d.receipt.disposition = receipt.disposition

def Reconciliation.Keeps (request : StartRequest) (base : Database) (receipt : StartReceipt) :
    Reconciliation → Prop
  | .lost _ => True
  | .answered d result => Reconciles request base receipt d result

theorem moves_refl (disposition : StartDisposition) : disposition.Moves disposition := .inl rfl

theorem Owed.unchanged (h : Owed request base d) (hs : store.durable = d.store.durable)
    {result : Except PersistenceError Bool} :
    Reconciles request base d.receipt { d with store := store } result where
  committed hc := by simpa [hs] using h.committed hc
  notCommitted hn := by simpa [hs] using h.notCommitted hn
  unauthorized hu := by simpa [hs] using h.unauthorized hu
  units := by simpa [hs] using h.units
  authorized := rfl
  moves := moves_refl _
  kept _ := rfl

theorem Owed.of_store (h : Owed request base d) (hs : store.durable = d.store.durable) :
    Owed request base { d with store := store } := by
  have hkept : Reconciles request base d.receipt { d with store := store } (.ok false) :=
    h.unchanged hs
  exact { hkept.toTruthful with owing := h.owing }

theorem resolve_disposition (receipt : StartReceipt) (disposition : StartDisposition) :
    (receipt.resolve disposition).disposition =
      if receipt.disposition = .commitUnknown then disposition else receipt.disposition := by
  unfold StartReceipt.resolve
  split <;> rfl

theorem resolve_commitAuthorized (receipt : StartReceipt) (disposition : StartDisposition) :
    (receipt.resolve disposition).commitAuthorized = receipt.commitAuthorized := by
  unfold StartReceipt.resolve
  split <;> rfl

/-- The receipt of an owed start whose rows are the new unit is resolved as committed. -/
theorem Owed.resolveCommitted (h : Owed request base d) (hnew : NewUnit request base store.durable)
    (hauth : d.receipt.commitAuthorized = true) {result : Except PersistenceError Bool}
    (hresult : result = .ok true) :
    Reconciles request base d.receipt ⟨store,d.receipt.resolve .committed⟩ result := by
  have hdisp : (d.receipt.resolve .committed).disposition = .committed := by
    rw [resolve_disposition]
    rcases h.owing with howing | howing <;> simp [howing]
  exact
    { committed := fun _ => hnew
      notCommitted := fun hn => by simp [hdisp] at hn
      unauthorized := fun hu => by simp [resolve_commitAuthorized,hauth] at hu
      units := .inr hnew
      authorized := resolve_commitAuthorized _ _
      moves := by
        rcases h.owing with howing | howing
        · exact .inr (.inr ⟨howing,.inl hdisp⟩)
        · exact .inl (hdisp.trans howing.symm)
      kept := fun hne => absurd hresult hne }

theorem Owed.attempted (h : Owed request base d) (hunknown : d.receipt.disposition = .commitUnknown)
    (hauth : d.receipt.commitAuthorized = true) (hold : OldUnit base d.store.durable)
    (hfresh : FreshRequest request base) (o : DriveOutcomes) :
    (concludeAttempt d.receipt (driveOriginalCommit ctx request ⟨d.store,.pending⟩ o)).Keeps
      request base d.receipt := by
  have hends : (driveOriginalCommit ctx request ⟨d.store,.pending⟩ o).Ends base
      (ConcludedDrive request base) fun _ => False :=
    driveOriginalCommit_ends (d := ⟨d.store,.pending⟩) ⟨rfl,rfl,hold⟩ hfresh o
  have hleft : ∀ (store : StartStore) (receipt : StartReceipt) (result : Except _ Bool),
      OldUnit base store.durable ∨ NewUnit request base store.durable →
      receipt.disposition = d.receipt.disposition →
      receipt.commitAuthorized = d.receipt.commitAuthorized →
      Reconciles request base d.receipt ⟨store,receipt⟩ result := by
    intro store receipt result hunits hdisp hsame
    exact
      { committed := fun hc => by simp [hdisp,hunknown] at hc
        notCommitted := fun hn => by simp [hdisp,hunknown] at hn
        unauthorized := fun hu => by simp [hsame,hauth] at hu
        units := hunits
        authorized := hsame
        moves := .inl hdisp
        kept := fun _ => hdisp }
  cases hdrive : driveOriginalCommit ctx request ⟨d.store,.pending⟩ o with
  | lost store => trivial
  | next d value => exact value.elim
  | finished attempt result =>
    rw [hdrive] at hends
    cases result with
    | readyFailed failure => exact hleft _ _ _ hends.units rfl rfl
    | completed completion =>
      cases completion with
      | notCommitted failure => exact hleft _ _ _ hends.units rfl rfl
      | commitUnknown error => exact hleft _ _ _ hends.units rfl rfl
      | committed post =>
        cases post with
        | some error => exact hleft _ _ _ hends.units rfl rfl
        | none => exact h.resolveCommitted (hends.committed hends.accords) hauth rfl

theorem Owed.settleProbe (h : Owed request base d) (hfresh : FreshRequest request base)
    (o : StartReconcileOutcomes) {probe : CommitProbe}
    (hprobe : probeExactReplacement ctx.codec d.store.durable request = probe) :
    (settleProbe ctx request d o probe).Keeps request base d.receipt := by
  cases probe with
  | hybrid => exact h.unchanged rfl
  | newUnit =>
    have hnew : NewUnit request base d.store.durable :=
      h.units.resolve_left fun hold => probe_of_fresh (hold.fresh hfresh) hprobe
    have hauth : d.receipt.commitAuthorized = true := by
      by_contra hne
      have hold := (h.unauthorized (by simpa using hne)).1
      exact probe_of_fresh (hold.fresh hfresh) hprobe
    unfold Durable.settleProbe
    cases o.validate with
    | some error => exact h.unchanged rfl
    | none => exact h.resolveCommitted hnew hauth rfl
  | oldUnit =>
    have hold : OldUnit base d.store.durable :=
      h.units.resolve_right fun hnew => probe_of_newUnit hnew hprobe
    simp only [Durable.settleProbe]
    split
    · exact h.unchanged rfl
    · rename_i hcommitted
      have hunknown := h.owing.resolve_right hcommitted
      split
      · rename_i hauth
        have hdisp : (d.receipt.resolve .notCommitted).disposition = .notCommitted := by
          rw [resolve_disposition,if_pos hunknown]
        exact
          { committed := fun hc => by simp [hdisp] at hc
            notCommitted := fun _ => hold
            unauthorized := fun _ => ⟨hold,by simp [hdisp]⟩
            units := .inl hold
            authorized := resolve_commitAuthorized _ _
            moves := .inr (.inr ⟨hunknown,.inr hdisp⟩)
            kept := fun hne => absurd rfl hne }
      · rename_i hauth
        exact h.attempted hunknown (by simpa using hauth) hold hfresh o.drive

theorem Owed.reconcileStart (h : Owed request base d) (hfresh : FreshRequest request base)
    (o : StartReconcileOutcomes) :
    (reconcileStart ctx request d o).Keeps request base d.receipt := by
  have hdurable := rollbackActive_durable d.store o.rollback
  simp only [Durable.reconcileStart]
  cases o.identity with
  | some error => exact h.unchanged rfl
  | none =>
    cases hrolled : (d.store.rollbackActive o.rollback).2 with
    | some error => exact h.unchanged hdurable
    | none =>
      have hstaged := rollbackActive_autocommit hrolled
      have hview : (d.store.rollbackActive o.rollback).1.view =
          (d.store.rollbackActive o.rollback).1.durable := by
        rw [StartStore.view,hstaged]
        rfl
      simp only [StartStore.autocommit,hstaged,Option.isNone_none]
      split
      · exact h.unchanged hdurable
      · exact h.unchanged hdurable
      · rw [hview]
        exact (h.of_store hdurable).settleProbe hfresh o rfl

end Decisions

end Durable
end Ctxmux
