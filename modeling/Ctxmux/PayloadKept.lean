import Ctxmux.PayloadGrowth

/-!
# Committed payload and the tail of the file

Whatever the steps of an output transaction report, the tail of the payload file is
cut back only when the transaction is not durable, with one exception: a COMMIT that
succeeded is followed by a validation of the files, and an error of it that carries no
storage facts looks like a proven rollback.
-/

namespace Ctxmux
namespace Durable

open Tiling

variable {codec : Codec} {limits : OutputLimits} {s : Store} {written : Files} {o : StepOutcomes}
  {batch : List (RunId × OutputReplay)} {terminal : Option TerminalSettlement} {payload : List Byte}
  {t : OutputState} {r : OutputState × Except PersistenceError Bool}

theorem Grown.backed {w : String} {files files' : Files} {row : ChunkRow}
    (h : Grown w files files' payload) (hb : Backed files row) :
    Backed files' row ∧ extent files' row = extent files row := by
  obtain ⟨hname,content,hfile,hlen⟩ := hb
  by_cases heq : row.dataFile = w
  · subst heq
    obtain ⟨content',hfile'⟩ := Option.isSome_iff_exists.mp (h.kept (by simp [hfile]))
    have htail := h.tail
    rw [hfile,hfile',Option.getD_some,Option.getD_some] at htail
    subst htail
    refine ⟨⟨hname,_,hfile',by rw [List.length_append]; omega⟩,?_⟩
    unfold extent
    rw [hfile,hfile',Option.getD_some,Option.getD_some,
      List.drop_append_of_le_length (by omega),
      List.take_append_of_le_length (by rw [List.length_drop]; omega)]
  · have hsame := h.others row.dataFile heq
    exact ⟨⟨hname,content,hsame.trans hfile,hlen⟩,by unfold extent; rw [hsame]⟩

/-- The connection before an output transaction: nothing is open and nothing is unresolved. -/
def openedState (s : Store) (stamps : Stamps) : OutputState where
  db := s.db
  stamps := stamps
  files := s.files
  active := false
  applied := false
  unresolved := none

/-- Every byte that a durable row references is in its file as it was written, and the
active file differs from what was written only when the transaction is not durable. -/
def TailKept (written : Files) (t : OutputState) : Prop :=
  (∀ row ∈ t.db.chunks, Backed t.files row ∧ extent t.files row = extent written row) ∧
    (t.files t.db.replayFile ≠ written t.db.replayFile → t.applied = false)

/-- The state after an output transaction and while its record is settled: the tables are
those of before or the staged ones, the file is what was written or, if the transaction is
not durable, what was there before, and the record proves no rollback of a durable one. -/
structure Settling (s : Store) (written : Files) (t : OutputState) : Prop where
  replayFile : t.db.replayFile = s.db.replayFile
  files : t.files = written ∨ (t.applied = false ∧ t.files = s.files)
  old : t.applied = false → t.db = s.db
  new : t.applied = true → ∀ row ∈ t.db.chunks, Backed written row
  record : ∀ u, t.unresolved = some u →
    (reconciledOutcome u (some (readWitness u.witness t.db t.stamps)) = .ok (some false) →
      t.applied = false) ∧
    ∀ before, u.before = some before → before = s.files.len s.db.replayFile

theorem Settling.tailKept (h : Settling s written t) (hs : Sound s.db s.files)
    (hgrown : Grown s.db.replayFile s.files written payload) :
    TailKept written t := by
  refine ⟨fun row hr => ?_,fun hne => ?_⟩
  · cases happlied : t.applied with
    | false =>
      rw [h.old happlied] at hr
      have hb := hs.backed row hr
      obtain ⟨hb',hext⟩ := hgrown.backed hb
      rcases h.files with hfiles | ⟨_,hfiles⟩
      · rw [hfiles]
        exact ⟨hb',rfl⟩
      · rw [hfiles]
        exact ⟨hb,hext.symm⟩
    | true =>
      have hfiles : t.files = written :=
        h.files.resolve_right fun hcut => by simp [happlied] at hcut
      rw [hfiles]
      exact ⟨h.new happlied row hr,rfl⟩
  · rcases h.files with hfiles | ⟨happlied,_⟩
    · rw [hfiles] at hne
      exact absurd rfl hne
    · exact happlied

/-- Cutting the tail of a transaction that is not durable restores the file of before. -/
theorem Settling.cut (h : Settling s written t) (hactive : (s.files s.db.replayFile).isSome)
    (hgrown : Grown s.db.replayFile s.files written payload) :
    (cutTail t (s.files.len s.db.replayFile)).files = s.files := by
  unfold cutTail
  simp only
  rw [h.replayFile]
  rcases h.files with hfiles | ⟨_,hfiles⟩
  · rw [hfiles]
    exact hgrown.cut hactive
  · rw [hfiles]
    exact (Grown.refl s.db.replayFile s.files).cut hactive

theorem Settling.reconcile (h : Settling s written t) (hactive : (s.files s.db.replayFile).isSome)
    (hgrown : Grown s.db.replayFile s.files written payload) (r : ReconcileOutcomes) :
    Settling s written (reconcileMaintenance t r) := by
  unfold reconcileMaintenance
  split
  · exact h
  · exact h
  · rename_i u hidentity hu
    have hrolled : Settling s written
        (if t.active then { t with active := !r.rollback.ended } else t) := by
      split
      · exact ⟨h.replayFile,h.files,h.old,h.new,h.record⟩
      · exact h
    have hrecord : (if t.active then { t with active := !r.rollback.ended } else t).unresolved =
        some u := by
      split <;> exact hu
    simp only
    generalize (if t.active then { t with active := !r.rollback.ended } else t) = t' at *
    split
    · exact hrolled
    · split
      · rename_i t'' hok
        obtain ⟨_,_,hrest⟩ := bind_eq_ok.mp hok
        obtain ⟨outcome,houtcome,hrest⟩ := bind_eq_ok.mp hrest
        obtain ⟨hproves,hbefore⟩ := hrolled.record u hrecord
        cases outcome with
        | none =>
          obtain rfl := Except.ok.inj hrest
          exact hrolled
        | some committed =>
          obtain ⟨_,_,hrest⟩ := bind_eq_ok.mp hrest
          have hcleared : Settling s written { t' with unresolved := none } :=
            ⟨hrolled.replayFile,hrolled.files,hrolled.old,hrolled.new,fun u' hu' => by cases hu'⟩
          unfold settleReconciled at hrest
          split at hrest
          · obtain rfl := Except.ok.inj hrest
            exact hcleared
          · rename_i before hsome
            obtain ⟨_,_,hrest⟩ := bind_eq_ok.mp hrest
            cases committed with
            | true =>
              obtain rfl := Except.ok.inj hrest
              exact hcleared
            | false =>
              obtain ⟨_,_,hrest⟩ := bind_eq_ok.mp hrest
              obtain rfl := Except.ok.inj hrest
              have happlied := hproves houtcome
              rw [hbefore before hsome]
              exact ⟨hrolled.replayFile,.inr ⟨happlied,hrolled.cut hactive hgrown⟩,hrolled.old,
                hrolled.new,fun u' hu' => by cases hu'⟩
      · exact hrolled

/-- What is known of a transaction before the disposition of its tail. -/
structure Attempted (s : Store) (written : Files) (t : OutputState) : Prop where
  replayFile : t.db.replayFile = s.db.replayFile
  files : t.files = written
  old : t.applied = false → t.db = s.db
  new : t.applied = true → ∀ row ∈ t.db.chunks, Backed written row
  record : ∀ u, t.unresolved = some u →
    (reconciledOutcome u (some (readWitness u.witness t.db t.stamps)) = .ok (some false) →
      t.applied = false) ∧ u.before = none

/-- A transaction that is not durable needs no proof from its record. -/
theorem Attempted.of_old (hdb : t.db = s.db) (hfiles : t.files = written)
    (happlied : t.applied = false) (hbefore : ∀ u, t.unresolved = some u → u.before = none) :
    Attempted s written t where
  replayFile := by rw [hdb]
  files := hfiles
  old _ := hdb
  new htrue := by simp [happlied] at htrue
  record u hu := ⟨fun _ => happlied,hbefore u hu⟩

/-- After a COMMIT that reported success only a validation error can pass for a rollback. -/
theorem finishCommitted_reconciles (o : StepOutcomes) (charge : ℕ) :
    finishCommitted o charge = .ok true ∨
      ∃ error, finishCommitted o charge = .error error ∧
        (error.requiresReconciliation = false ↔
          (∃ actual, o.walLen = .ok actual ∧ actual-o.baseline ≤ charge) ∧
          ∃ invalid, o.validate = some invalid ∧
            (invalid.atStage .maintenance .committed).requiresReconciliation = false) := by
  unfold finishCommitted
  split
  · rename_i error hwal
    exact .inr ⟨_,rfl,by simp [PersistenceError.requiresReconciliation,
      PersistenceError.isProvenOld,hwal]⟩
  · rename_i actual hwal
    split
    · rename_i hover
      refine .inr ⟨_,rfl,?_⟩
      simp only [PersistenceError.requiresReconciliation,Bool.true_eq_false,false_iff,not_and]
      rintro ⟨actual',hactual,hle⟩
      obtain rfl := Except.ok.inj (hwal.symm.trans hactual)
      omega
    · rename_i hwithin
      split
      · rename_i error hinvalid
        refine .inr ⟨_,rfl,?_⟩
        constructor
        · exact fun h => ⟨⟨actual,hwal,by omega⟩,error,hinvalid,h⟩
        · rintro ⟨_,invalid,hsome,h⟩
          rw [Option.some.inj (hinvalid.symm.trans hsome)]
          exact h
      · exact .inl rfl

/-- A COMMIT that reported an error: a durable transaction is never classified as a proven
rollback, neither by the error nor by its record. -/
theorem attempted_commitFailure {f : CommitFailure} {staged : Database} (witness : List RunId)
    (charge : ℕ) (hdb : t.db = s.db) (hfiles : t.files = written) (happlied : t.applied = false)
    (hfile : staged.replayFile = s.db.replayFile)
    (hbacked : ∀ row ∈ staged.chunks, Backed written row) (hcommit : o.commit = some f) :
    let r := commitAdmitted t o witness (readWitness witness t.db t.stamps)
      (readWitness witness staged o.stamps) charge staged
    Attempted s written r.1 ∧ (r.1.applied = true → ∃ u, r.1.unresolved = some u) ∧
      ∃ error, r.2 = .error error ∧ (error.requiresReconciliation = false → r.1.applied = false) := by
  simp only [commitAdmitted,hcommit]
  by_cases hdurable : f.ended = true ∧ f.durable = true
  · rw [if_pos hdurable]
    have hclassified : (classifyMaintenanceCommitError f (readWitness witness t.db t.stamps)
        (readWitness witness staged o.stamps) (readWitness witness staged o.stamps)).1 =
        .uncertain "maintenance COMMIT outcome requires recovery" f.error := by
      unfold classifyMaintenanceCommitError
      rw [if_neg (by simp [hdurable.1]),if_neg]
      rintro ⟨_,hchanged,_,hsame⟩
      exact hchanged hsame.symm
    simp only [hclassified,PersistenceError.requiresReconciliation,if_true]
    refine ⟨⟨hfile,hfiles,fun hfalse => (by cases hfalse),fun _ => hbacked,fun u hu => ?_⟩,
      fun _ => ⟨_,rfl⟩,_,rfl,fun hfalse => (by cases hfalse)⟩
    obtain rfl := Option.some.inj hu
    refine ⟨fun hproof => ?_,rfl⟩
    simp only [reconciledOutcome,notIssued] at hproof
    split at hproof
    · cases hproof
    · rename_i hchanged
      split at hproof
      · rename_i hsame
        exact absurd hsame.symm hchanged
      · split at hproof <;> cases hproof
  · rw [if_neg hdurable]
    refine ⟨.of_old hdb hfiles happlied fun u hu => ?_,fun htrue => ?_,_,rfl,fun _ => happlied⟩
    rotate_left
    · simp [happlied] at htrue
    simp only at hu
    split at hu
    · rw [← Option.some.inj hu]
      rfl
    · cases hu

/-- The steps up to a COMMIT that reported success, and the WAL check after it. -/
def CommitSucceeds (codec : Codec) (limits : OutputLimits) (s : Store) (o : StepOutcomes)
    (batch : List (RunId × OutputReplay)) (terminal : Option TerminalSettlement) : Prop :=
  o.admission = none ∧ o.begun = none ∧ o.oldProbe = none ∧ o.apply = none ∧ o.newProbe = none ∧
    o.commit = none ∧ (∃ staged, stageOutput codec limits s batch terminal = .ok (true,staged)) ∧
    ∃ charge, o.charge = some charge ∧ charge ≤ limits.walCheckpointBytes ∧
      o.baseline+charge ≤ limits.walBytes ∧
      ∃ actual, o.walLen = .ok actual ∧ actual-o.baseline ≤ charge

/-- The validation that follows fails with an error that does not ask for reconciliation,
though it is reported as of a committed transaction. -/
def ValidationMisread (o : StepOutcomes) : Prop :=
  ∃ error, o.validate = some error ∧
    (error.atStage .maintenance .committed).requiresReconciliation = false

/-- The payload that a state of the transaction has written. -/
def Wrote (codec : Codec) (limits : OutputLimits) (s : Store) (o : StepOutcomes)
    (batch : List (RunId × OutputReplay)) (terminal : Option TerminalSettlement) (files : Files) :
    Prop :=
  ∃ payload, Grown s.db.replayFile s.files files payload ∧
    (CommitSucceeds codec limits s o batch terminal → (payload ≠ [] ↔ Fresh s.db batch))

/-- What a transaction has come to before its tail is disposed of: its payload, its state,
and the two ways in which the caller may take it for a proven rollback. -/
structure Judged (codec : Codec) (limits : OutputLimits) (s : Store) (o : StepOutcomes)
    (batch : List (RunId × OutputReplay)) (terminal : Option TerminalSettlement)
    (r : OutputState × Except PersistenceError Bool) : Prop where
  wrote : Wrote codec limits s o batch terminal r.1.files
  attempted : Attempted s r.1.files r.1
  recorded : r.1.applied = true → ∃ u, r.1.unresolved = some u
  refused : r.2 = .ok false → r.1.applied = false
  misread : ∀ error, r.2 = .error error → error.requiresReconciliation = false →
    r.1.applied = false ∨ (CommitSucceeds codec limits s o batch terminal ∧ ValidationMisread o)

theorem Judged.of_old (hwrote : Wrote codec limits s o batch terminal r.1.files)
    (h : Attempted s r.1.files r.1 ∧ r.1.applied = false) :
    Judged codec limits s o batch terminal r :=
  ⟨hwrote,h.1,fun htrue => absurd (h.2.symm.trans htrue) (by simp),fun _ => h.2,
    fun _ _ _ => .inl h.2⟩

theorem judged_failProof (hdb : t.db = s.db) (happlied : t.applied = false)
    (hnone : t.unresolved = none) (hwrote : Wrote codec limits s o batch terminal t.files)
    (witness : List RunId) (old : Option Witness) (error : PersistenceError) :
    Judged codec limits s o batch terminal (failProof t o witness old error) := by
  refine .of_old hwrote ⟨.of_old hdb rfl happlied fun u hu => ?_,happlied⟩
  simp only [failProof] at hu
  split at hu
  · rw [← Option.some.inj hu]
    rfl
  · rw [hnone] at hu
    cases hu

theorem judged_rollBack (hdb : t.db = s.db) (happlied : t.applied = false)
    (hnone : t.unresolved = none) (hwrote : Wrote codec limits s o batch terminal t.files)
    (witness : List RunId) (old new : Witness) (charge : Option ℕ) :
    Judged codec limits s o batch terminal
      (commitMaintenanceBatchWithoutSpill.rollBack t o witness old new charge) := by
  unfold commitMaintenanceBatchWithoutSpill.rollBack
  split
  · refine .of_old hwrote ⟨.of_old hdb rfl happlied fun u hu => ?_,happlied⟩
    rw [hnone] at hu
    cases hu
  · refine .of_old hwrote ⟨.of_old hdb rfl happlied fun u hu => ?_,happlied⟩
    rw [← Option.some.inj hu]
    rfl

theorem judged_commitAdmitted {stamps : Stamps} {staged : Store} {witness : List RunId} {charge : ℕ}
    (hadmission : o.admission = none) (hbegun : o.begun = none) (hold : o.oldProbe = none)
    (happly : o.apply = none) (hnew : o.newProbe = none)
    (hstage : stageOutput codec limits s batch terminal = .ok (true,staged))
    (hcharge : o.charge = some charge)
    (hfunded : ¬(limits.walCheckpointBytes < charge ∨ limits.walBytes < o.baseline+charge))
    (hsound : Sound staged.db staged.files) (hfile : staged.db.replayFile = s.db.replayFile)
    (hgrown : Grown s.db.replayFile s.files staged.files payload)
    (hfresh : payload ≠ [] ↔ Fresh s.db batch) :
    Judged codec limits s o batch terminal
      (commitAdmitted { openedState s stamps with files := staged.files, active := true } o witness
        (readWitness witness s.db stamps) (readWitness witness staged.db o.stamps) charge
        staged.db) := by
  cases hcommit : o.commit with
  | none =>
    simp only [commitAdmitted,hcommit]
    refine ⟨⟨payload,hgrown,fun _ => hfresh⟩,⟨hfile,rfl,fun hfalse => (by cases hfalse),
      fun _ => hsound.backed,fun u hu => ?_⟩,fun _ => ⟨_,rfl⟩,fun hrefused => ?_,
      fun error herror hold' => ?_⟩
    · obtain rfl := Option.some.inj hu
      refine ⟨fun hproof => ?_,rfl⟩
      simp only [reconciledOutcome] at hproof
      split_ifs at hproof
      simp at hproof
    · rcases finishCommitted_reconciles o charge with hdone | ⟨error,herror,_⟩
      · simp [hdone] at hrefused
      · simp [herror] at hrefused
    · rcases finishCommitted_reconciles o charge with hdone | ⟨e,he,hiff⟩
      · simp [hdone] at herror
      · rw [he] at herror
        obtain rfl := Except.error.inj herror
        obtain ⟨hwal,hinvalid⟩ := hiff.mp hold'
        push Not at hfunded
        exact .inr ⟨⟨hadmission,hbegun,hold,happly,hnew,hcommit,⟨staged,hstage⟩,charge,hcharge,hfunded.1,
          hfunded.2,hwal⟩,hinvalid⟩
  | some f =>
    let opened : OutputState :=
      { openedState s stamps with files := staged.files, active := true }
    obtain ⟨hattempted,hrecorded,error,herror,hproof⟩ := attempted_commitFailure (t := opened) (s := s)
      witness charge rfl rfl rfl hfile hsound.backed hcommit
    have hfiles := hattempted.files
    refine ⟨⟨payload,hfiles ▸ hgrown,fun _ => hfresh⟩,hfiles ▸ hattempted,hrecorded,
      fun hrefused => ?_,fun e he hold' => ?_⟩
    · exact absurd (herror.symm.trans hrefused) (by simp)
    · obtain rfl := Except.error.inj (herror.symm.trans he)
      exact .inl (hproof hold')

theorem judged_withoutSpill (hs : Sound s.db s.files) (hw : ∀ r ∈ s.db.runs, Window s.db r)
    (hname : validReplayFileName s.db.replayFile = true) (hadmission : o.admission = none)
    (stamps : Stamps) (witness : List RunId) :
    Judged codec limits s o batch terminal
      (commitMaintenanceBatchWithoutSpill codec limits (openedState s stamps) o witness batch
        terminal) := by
  have hleave : ∀ files, (∃ payload, Grown s.db.replayFile s.files files payload) →
      ¬CommitSucceeds codec limits s o batch terminal →
      Wrote codec limits s o batch terminal files := fun files ⟨payload,hgrown⟩ hnot =>
    ⟨payload,hgrown,fun h => absurd h hnot⟩
  have hkept : ∃ payload, Grown s.db.replayFile s.files s.files payload := ⟨[],Grown.refl _ _⟩
  have hresidue : ∃ payload, Grown s.db.replayFile s.files
      (s.files.write s.db.replayFile ((s.files s.db.replayFile).getD [] ++ o.residue)) payload :=
    ⟨_,(Grown.refl s.db.replayFile s.files).write o.residue⟩
  unfold commitMaintenanceBatchWithoutSpill
  simp only
  split
  · rename_i error hbegun
    refine .of_old (hleave _ hkept fun h => ?_) ⟨.of_old rfl rfl rfl fun u hu => (by cases hu),rfl⟩
    exact absurd (hbegun.symm.trans h.2.1) (by simp)
  · rename_i error hbegun hprobe
    refine judged_failProof rfl rfl rfl (hleave _ hkept fun h => ?_) _ _ _
    exact absurd (hprobe.symm.trans h.2.2.1) (by simp)
  · rename_i error hbegun hprobe happly
    refine judged_failProof rfl rfl rfl (hleave _ hresidue fun h => ?_) _ _ _
    exact absurd (happly.symm.trans h.2.2.2.1) (by simp)
  · rename_i error hbegun hprobe happly hstage
    refine judged_failProof rfl rfl rfl (hleave _ hresidue fun h => ?_) _ _ _
    obtain ⟨_,_,_,_,_,_,⟨staged,hstaged⟩,_⟩ := h
    exact absurd (hstage.symm.trans hstaged) (by simp)
  · rename_i fits staged hbegun hprobe happly hstage
    obtain ⟨payload,hsound,hfile,hgrown,hfresh⟩ := stageOutput_spec hs hw hname hstage
    have hwrote : Wrote codec limits s o batch terminal staged.files :=
      ⟨payload,hgrown,fun _ => hfresh⟩
    split
    · exact judged_failProof rfl rfl rfl hwrote _ _ _
    · exact judged_rollBack rfl rfl rfl hwrote _ _ _ _
    · rename_i charge hnew hcharge
      split
      · exact judged_rollBack rfl rfl rfl hwrote _ _ _ _
      · rename_i hfunded
        cases fits with
        | false => simp at hcharge
        | true =>
          exact judged_commitAdmitted hadmission hbegun hprobe happly hnew hstage (by simpa using hcharge)
            hfunded hsound hfile hgrown hfresh

/-- What is known once the cache-spill setting was restored, or failed to be. -/
structure Restored (codec : Codec) (limits : OutputLimits) (s : Store) (o : StepOutcomes)
    (batch : List (RunId × OutputReplay)) (terminal : Option TerminalSettlement)
    (r : OutputState × Except PersistenceError Bool) : Prop where
  wrote : Wrote codec limits s o batch terminal r.1.files
  attempted : Attempted s r.1.files r.1
  refused : r.2 = .ok false → r.1.applied = false
  misread : ∀ error, r.2 = .error error → error.requiresReconciliation = false →
    r.1.applied = false ∨ (CommitSucceeds codec limits s o batch terminal ∧ ValidationMisread o ∧
      o.restore = none)

theorem Judged.restored (h : Judged codec limits s o batch terminal r) :
    Restored codec limits s o batch terminal (restoreCacheSpill o r) := by
  have ha := h.attempted
  unfold restoreCacheSpill
  split
  · rename_i hrestore
    split
    · rename_i flag hflag
      refine ⟨h.wrote,⟨ha.replayFile,rfl,ha.old,ha.new,fun u hu => (by cases hu)⟩,
        fun hrefused => h.refused (hflag.trans hrefused),fun error herror => (by cases herror)⟩
    · rename_i error herror
      refine ⟨h.wrote,ha,fun hrefused => (by cases hrefused),fun e he hold => ?_⟩
      obtain rfl := Except.error.inj he
      rcases h.misread _ herror hold with hunapplied | ⟨hcommit,hinvalid⟩
      · exact .inl hunapplied
      · exact .inr ⟨hcommit,hinvalid,hrestore⟩
  · rename_i error hrestore
    refine ⟨h.wrote,⟨ha.replayFile,rfl,ha.old,ha.new,fun u hu => ?_⟩,
      fun hrefused => (by cases hrefused),fun e he hold => ?_⟩
    · obtain rfl := Option.some.inj hu
      cases hrecord : r.1.unresolved with
      | none =>
        refine ⟨fun _ => ?_,rfl⟩
        by_contra happlied
        obtain ⟨u,hu⟩ := h.recorded (by simpa using happlied)
        rw [hrecord] at hu
        cases hu
      | some u => exact ha.record u hrecord
    · obtain rfl := Except.error.inj he
      cases hold

theorem restored_withAdmission (hs : Sound s.db s.files) (hw : ∀ r ∈ s.db.runs, Window s.db r)
    (hname : validReplayFileName s.db.replayFile = true) (stamps : Stamps)
    (witness : List RunId) :
    Restored codec limits s o batch terminal
      (commitMaintenanceBatchWithAdmission codec limits (openedState s stamps) o witness batch
        terminal) := by
  unfold commitMaintenanceBatchWithAdmission
  split
  · rename_i error hadmission
    refine ⟨⟨[],Grown.refl _ _,fun h => ?_⟩,.of_old rfl rfl rfl fun u hu => (by cases hu),
      fun _ => rfl,fun _ _ _ => .inl rfl⟩
    exact absurd (hadmission.symm.trans h.1) (by simp)
  · rename_i hadmission
    exact (judged_withoutSpill hs hw hname hadmission stamps witness).restored

/-- A transaction that committed, was misread as rolled back and had its payload cut. -/
def CutsCommitted (codec : Codec) (limits : OutputLimits) (s : Store) (o : StepOutcomes)
    (batch : List (RunId × OutputReplay)) (terminal : Option TerminalSettlement) : Prop :=
  (batch.map fun item => replayPayload item.2).sum ≤ maxTransactionPayloadBytes ∧
    o.prepare = none ∧ CommitSucceeds codec limits s o batch terminal ∧ ValidationMisread o ∧
    o.restore = none ∧ o.truncate = none ∧ Fresh s.db batch

/-- The file is what it was when nothing was appended to it. -/
theorem Grown.eq_of_nil {w : String} {files files' : Files} (h : Grown w files files' [])
    (hsome : (files w).isSome) : files' = files := by
  obtain ⟨content,hcontent⟩ := Option.isSome_iff_exists.mp hsome
  obtain ⟨content',hcontent'⟩ := Option.isSome_iff_exists.mp (h.kept hsome)
  have htail := h.tail
  rw [hcontent,hcontent',Option.getD_some,Option.getD_some,List.append_nil] at htail
  funext other
  by_cases heq : other = w
  · rw [heq,hcontent,hcontent',htail]
  · exact h.others other heq

theorem Restored.settling (h : Restored codec limits s o batch terminal r)
    (hactive : (s.files s.db.replayFile).isSome)
    (hnot : ¬(CommitSucceeds codec limits s o batch terminal ∧ ValidationMisread o ∧
      o.restore = none ∧ o.truncate = none ∧ Fresh s.db batch)) :
    Settling s r.1.files (settleOutput o (s.files.len s.db.replayFile) r).1 := by
  have ha := h.attempted
  obtain ⟨payload,hgrown,hfresh⟩ := h.wrote
  have hkept : Settling s r.1.files r.1 :=
    ⟨ha.replayFile,.inl rfl,ha.old,ha.new,fun u hu => by
      obtain ⟨hproof,hnone⟩ := ha.record u hu
      exact ⟨hproof,fun before hsome => by rw [hnone] at hsome; cases hsome⟩⟩
  unfold settleOutput
  split
  · exact hkept
  · rename_i hrefused
    split
    · have hunapplied := h.refused hrefused
      exact ⟨ha.replayFile,.inr ⟨hunapplied,hkept.cut hactive hgrown⟩,ha.old,ha.new,hkept.record⟩
    · exact hkept
  · rename_i error herror
    have hmarked : Settling s r.1.files { r.1 with
        unresolved := r.1.unresolved.map fun u =>
          { u with before := some (s.files.len s.db.replayFile) } } := by
      refine ⟨ha.replayFile,.inl rfl,ha.old,ha.new,fun u hu => ?_⟩
      obtain ⟨u',hu',rfl⟩ := Option.map_eq_some_iff.mp hu
      exact ⟨(ha.record u' hu').1,fun before hsome => (Option.some.inj hsome).symm⟩
    simp only
    split
    · exact hmarked
    · rename_i hreconcile
      split
      · rename_i htruncate
        have hcut := hmarked.cut hactive hgrown
        rcases h.misread error herror (by simpa using hreconcile) with
          hunapplied | ⟨hcommit,hinvalid,hrestore⟩
        · exact ⟨ha.replayFile,.inr ⟨hunapplied,hcut⟩,ha.old,ha.new,hmarked.record⟩
        · have hnothing : payload = [] := by
            by_contra hne
            exact hnot ⟨hcommit,hinvalid,hrestore,htruncate,(hfresh hcommit).mp hne⟩
          have hsame := (hnothing ▸ hgrown).eq_of_nil hactive
          exact ⟨ha.replayFile,.inl (hcut.trans hsame.symm),ha.old,ha.new,hmarked.record⟩
      · exact hmarked

theorem settling_appendTransactionOnce (hs : Sound s.db s.files)
    (hw : ∀ r ∈ s.db.runs, Window s.db r) (hname : validReplayFileName s.db.replayFile = true)
    (hactive : (s.files s.db.replayFile).isSome) (stamps : Stamps)
    (hnot : ¬CutsCommitted codec limits s o batch terminal) :
    Settling s
      (commitMaintenanceBatchWithAdmission codec limits (openedState s stamps) o
        (witnessRuns batch terminal) batch terminal).1.files
      (appendTransactionOnce codec limits (openedState s stamps) o batch terminal).1 := by
  have hopened : ∀ files, Settling s files (openedState s stamps) := fun files =>
    ⟨rfl,.inr ⟨rfl,rfl⟩,fun _ => rfl,fun htrue => (by cases htrue),fun u hu => (by cases hu)⟩
  unfold appendTransactionOnce
  simp only
  split
  · exact hopened _
  · rename_i hpayload
    split
    · exact hopened _
    · rename_i hprepare
      refine (restored_withAdmission hs hw hname stamps _).settling hactive fun hcuts => ?_
      exact hnot ⟨not_lt.mp hpayload,hprepare,hcuts⟩

/-- The state in which a misread transaction leaves the store. -/
theorem CutsCommitted.not_kept (h : CutsCommitted codec limits s o batch terminal)
    (hs : Sound s.db s.files) (hw : ∀ r ∈ s.db.runs, Window s.db r)
    (hname : validReplayFileName s.db.replayFile = true) (stamps : Stamps) :
    ¬TailKept
      (commitMaintenanceBatchWithAdmission codec limits (openedState s stamps) o
        (witnessRuns batch terminal) batch terminal).1.files
      (appendTransactionOnce codec limits (openedState s stamps) o batch terminal).1 := by
  obtain ⟨hpayload,hprepare,⟨hadmission,hbegun,hold,happly,hnew,hcommit,⟨staged,hstage⟩,charge,
    hcharge,hcheckpoint,hwal,actual,hactual,hwithin⟩,⟨error,hinvalid,hmisread⟩,hrestore,htruncate,
    hfresh⟩ := h
  obtain ⟨payload,_,hfile,hgrown,hpayload'⟩ := stageOutput_spec hs hw hname hstage
  have hfinish : finishCommitted o charge =
      .error (error.atStage .maintenance .committed) := by
    simp only [finishCommitted,hactual,hinvalid,if_neg (not_lt.mpr hwithin)]
  have hcommitted : commitMaintenanceBatchWithAdmission codec limits (openedState s stamps) o
      (witnessRuns batch terminal) batch terminal =
      ({ openedState s stamps with
          db := staged.db
          stamps := o.stamps
          files := staged.files
          applied := true
          unresolved := some
            { notIssued (witnessRuns batch terminal)
                (some (readWitness (witnessRuns batch terminal) s.db stamps))
                (some (readWitness (witnessRuns batch terminal) staged.db o.stamps)) o
                (some charge) with
              commit := .confirmed } },
        .error (error.atStage .maintenance .committed)) := by
    have hfunded : ¬(limits.walCheckpointBytes < charge ∨ limits.walBytes < o.baseline+charge) := by
      omega
    have hstage' : stageOutput codec limits ⟨(openedState s stamps).db,(openedState s stamps).files⟩
        batch terminal = .ok (true,staged) := hstage
    simp only [commitMaintenanceBatchWithAdmission,hadmission,commitMaintenanceBatchWithoutSpill,
      hbegun,hold,happly,hnew,hstage',hcharge,if_neg hfunded,if_true,commitAdmitted,hcommit,hfinish,
      restoreCacheSpill,hrestore]
    rfl
  rintro ⟨_,hcut⟩
  have happlied := hcut ?_
  · simp [appendTransactionOnce,not_lt.mpr hpayload,hprepare,hcommitted,settleOutput,hmisread,
      htruncate,cutTail] at happlied
  · simp only [appendTransactionOnce,if_neg (not_lt.mpr hpayload),hprepare,hcommitted,settleOutput,
      hmisread,Bool.false_eq_true,if_false,htruncate,cutTail]
    intro hsame
    rw [Files.write_self,hfile] at hsame
    have hlength := congrArg (fun content : Option (List Byte) => (content.getD []).length) hsame
    simp only [Option.getD_some,hgrown.tail,openedState] at hlength
    have hne := List.length_pos_iff.mpr (hpayload'.mpr hfresh)
    rw [List.length_take,List.length_append] at hlength
    unfold Files.len at hlength
    omega

/-- A committed payload is cut exactly when the validation after the COMMIT fails with an
error that is not taken for a committed one, the cache-spill setting is restored and the
batch had bytes above the durable heads. -/
theorem committed_payload_kept_iff (codec : Codec)
    (replayFile : { name : String // validReplayFileName name = true })
    (es : List (StoreEvent codec)) (stamps : Stamps) (limits : OutputLimits) (o : StepOutcomes)
    (batch : List (RunId × OutputReplay)) (terminal : Option TerminalSettlement)
    (rs : List ReconcileOutcomes) :
    let s := Machine.run (storeStep codec) (createdStore replayFile) es
    let written := (commitMaintenanceBatchWithAdmission codec limits (openedState s stamps) o
      (witnessRuns batch terminal) batch terminal).1.files
    Machine.Always reconcileMaintenance (TailKept written)
        (appendTransactionOnce codec limits (openedState s stamps) o batch terminal).1 rs ↔
      ¬CutsCommitted codec limits s o batch terminal := by
  intro s written
  have h : WellFormed codec s := wellFormed_run replayFile.2 es
  have hactive : (s.files s.db.replayFile).isSome := by
    obtain ⟨_,content,hcontent⟩ := h.active
    simp [hcontent]
  constructor
  · intro halways hcuts
    exact hcuts.not_kept h.sound h.windows h.active.1 stamps halways.head
  · intro hnot
    have hrestored : Restored codec limits s o batch terminal
        (commitMaintenanceBatchWithAdmission codec limits (openedState s stamps) o
          (witnessRuns batch terminal) batch terminal) :=
      restored_withAdmission h.sound h.windows h.active.1 stamps _
    obtain ⟨payload,hgrown,_⟩ := hrestored.wrote
    refine Machine.always_of_invariant (I := Settling s written)
      (fun t r ht => ht.reconcile hactive hgrown r) (fun t ht => ht.tailKept h.sound hgrown) ?_ rs
    exact settling_appendTransactionOnce h.sound h.windows h.active.1 hactive stamps hnot

/-- A Run that was just started, with one byte of output to append. -/
def sampleRun : RunId := ⟨"0198f3c2-6f00-7c00-8a00-000000000001"⟩

def sampleStart : StoreEvent sampleCodec :=
  .start ⟨"5e0c1a52-3f3e-4d9e-9d66-1f6f1c1b2a10",rfl⟩ "0198f3c2-6f00-7c00-8a00-000000000002" sampleRun
    "\x7b\"program\":\"sh\"\x7d" none []

def sampleBatch : List (RunId × OutputReplay) := [(sampleRun,⟨[⟨0,1,[65]⟩],0,1,false⟩)]

def sampleLimits : OutputLimits := ⟨4096,8192,64,65536,131072⟩

/-- Every step succeeds but the validation of the files after the COMMIT. -/
def overLimitOutcomes : StepOutcomes where
  prepare := none
  admission := none
  baseline := 0
  begun := none
  oldProbe := none
  apply := none
  residue := []
  aborted := false
  newProbe := none
  rollback := ⟨none,true⟩
  charge := some 8240
  stamps := fun _ => (1,none)
  commit := none
  walLen := .ok 8240
  validate := some (.resourcePressure "shared-memory index uses 65536 bytes; configured WAL funds 32768")
  restore := none
  truncate := none

theorem validation_error_cuts_committed_payload :
    ¬TailKept
      (commitMaintenanceBatchWithAdmission sampleCodec sampleLimits
        (openedState (Machine.run (storeStep sampleCodec) (createdStore "a.bin") [sampleStart])
          fun _ => (0,none)) overLimitOutcomes [sampleRun] sampleBatch none).1.files
      (appendTransactionOnce sampleCodec sampleLimits
        (openedState (Machine.run (storeStep sampleCodec) (createdStore "a.bin") [sampleStart])
          fun _ => (0,none)) overLimitOutcomes sampleBatch none).1 := by
  have h : WellFormed sampleCodec
      (Machine.run (storeStep sampleCodec) (createdStore "a.bin") [sampleStart]) :=
    wellFormed_run (by decide) _
  refine CutsCommitted.not_kept ?_ h.sound h.windows h.active.1 _
  refine ⟨by decide,rfl,⟨rfl,rfl,rfl,rfl,rfl,rfl,⟨_,rfl⟩,8240,rfl,by decide,by decide,8240,rfl,
    by decide⟩,⟨_,rfl,rfl⟩,rfl,rfl,?_⟩
  exact ⟨sampleRun,⟨0,1,[65]⟩,_,⟨_,List.mem_singleton_self _,rfl,List.mem_singleton_self _⟩,rfl,
    by decide⟩

end Durable
end Ctxmux
