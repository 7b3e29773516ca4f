import Ctxmux.StartProtocol

/-!
# Start receipts are truthful

The invariant of a start follows the phase of the actor: nothing is committed before
COMMIT is issued, the rows are one of two units afterwards, and a start that is owed
a settlement keeps every other writer out. Each step moves the receipt at most once
and only to what the rows bear out.
-/

namespace Ctxmux
namespace Durable

open Machine

def PersistentStartCompletion.disposition : PersistentStartCompletion → StartDisposition
  | .notCommitted _ => .notCommitted
  | .committed _ => .committed
  | .commitUnknown _ => .commitUnknown

/-- What `commit` or `abort` reports; a start that was not staged has no such report. -/
def StartReport.decided : StartReport → Option StartDisposition
  | .unstaged _ => none
  | .commit completion => some completion.disposition
  | .abort (.ok ()) => some .notCommitted
  | .abort (.error failure) => some failure.disposition

namespace StartSystem

/-- The start is in the hands of the actor. -/
def InHand (s : StartSystem) : Prop :=
  match s.actor with
  | .offering _ | .awaiting _ | .deciding _ _ | .issued _ _ | .replying _ => True
  | .idle => s.unresolvedStart = true
  | .waiting | .queued | .lost => False

/-- What holds of the store and the receipt in every phase of the actor. -/
def PhaseHolds (request : StartRequest) (s : StartSystem) : Prop :=
  match s.actor with
  | .waiting => s.base = s.drive.store.durable
  | .queued =>
    s.drive.receipt.disposition = .pending ∧ s.drive.receipt.commitAuthorized = false ∧
      s.base = s.drive.store.durable
  | .offering _ | .awaiting _ | .deciding _ _ => StagedDrive request s.base s.drive
  | .issued report _ => Issued request s.base report s.drive
  | .replying result => ConcludedDrive request s.base s.drive result
  | .idle => s.drive.receipt.disposition ≠ .pending
  | .lost => True

structure Holds (request : StartRequest) (s : StartSystem) : Prop where
  fresh : FreshRequest request s.base
  phase : s.PhaseHolds request
  owed : s.unresolvedStart = true →
    s.actor = .idle ∧ s.failure.isSome = true ∧ Owed request s.base s.drive
  unstaged : s.owner = .fresh →
    (s.actor = .waiting ∨ s.actor = .lost) ∧ s.base = s.drive.store.durable ∧
      s.drive.receipt.disposition = .pending ∧ s.drive.receipt.commitAuthorized = false
  grounded : s.drive.receipt.commitAuthorized = false → s.drive.receipt.disposition ≠ .committed

/-- One step of the protocol: the receipt moves only to what the rows bear out, and an
answer to the owner is its disposition. -/
structure Advances (request : StartRequest) (s s' : StartSystem) : Prop where
  holds : s'.Holds request
  moves : s.drive.receipt.disposition.Moves s'.drive.receipt.disposition
  settles : s'.drive.receipt.disposition ≠ s.drive.receipt.disposition →
    (s'.drive.receipt.disposition = .committed → NewUnit request s'.base s'.drive.store.durable) ∧
    (s'.drive.receipt.disposition = .notCommitted → OldUnit s'.base s'.drive.store.durable)
  reports : ∀ report, s'.owner = .answered report → s.owner = .answered report ∨
    ∀ disposition, report.decided = some disposition →
      disposition = s'.drive.receipt.disposition

variable {request : StartRequest} {s : StartSystem} {ctx : StartContext}

/-- A step that leaves the disposition and the answer of the owner alone. -/
theorem advances_of_same {s' : StartSystem} (hs : s'.Holds request)
    (hd : s'.drive.receipt.disposition = s.drive.receipt.disposition)
    (ho : ∀ report, s'.owner = .answered report → s.owner = .answered report) :
    Advances request s s' where
  holds := hs
  moves := .inl hd
  settles hne := absurd hd hne
  reports report hr := .inl (ho report hr)

section

variable (h : s.Holds request)
include h

theorem Advances.refl : Advances request s s :=
  advances_of_same h rfl fun _ hr => hr

theorem Holds.lose {store : StartStore} (latched : Option String)
    (hstore : s.owner = .fresh → store.durable = s.drive.store.durable) :
    Advances request s (s.lose store latched) := by
  refine advances_of_same ?_ rfl fun _ hr => hr
  exact
    { fresh := h.fresh
      phase := trivial
      owed := fun ho => by simp [StartSystem.lose] at ho
      unstaged := fun ho => by
        obtain ⟨-,hbase,hrest⟩ := h.unstaged ho
        exact ⟨.inr rfl,hbase.trans (hstore ho).symm,hrest⟩
      grounded := h.grounded }

theorem Holds.not_fresh (hw : s.actor ≠ .waiting) (hl : s.actor ≠ .lost) :
    s.owner ≠ .fresh := fun ho => by
  rcases (h.unstaged ho).1 with ha | ha
  · exact hw ha
  · exact hl ha

theorem Holds.not_owed (ha : s.actor ≠ .idle) : s.unresolvedStart = false := by
  by_contra hne
  exact ha (h.owed (by simpa using hne)).1

/-- The actor has the result of a drive that began undecided. -/
theorem Holds.answer {result : Drive × StageDriveResult}
    (hc : ConcludedDrive request s.base result.1 result.2)
    (hp : s.drive.receipt.disposition = .pending) (hw : s.actor ≠ .waiting) (hl : s.actor ≠ .lost)
    (hi : s.actor ≠ .idle) : Advances request s (s.answer result) := by
  have hne : result.1.receipt.disposition ≠ .pending := by
    intro hpending
    have haccords := hc.accords
    cases hresult : result.2 with
    | readyFailed failure =>
      rw [hresult,hpending] at haccords
      rcases haccords with h' | h' <;> cases h'
    | completed completion =>
      rw [hresult,hpending] at haccords
      cases completion <;> cases haccords
  exact
    { holds :=
        { fresh := h.fresh
          phase := hc
          owed := fun ho => by simp [StartSystem.answer,h.not_owed hi] at ho
          unstaged := fun ho => absurd ho (h.not_fresh hw hl)
          grounded := fun hauth => (hc.unauthorized hauth).2 }
      moves := .inr (.inl ⟨hp,hne⟩)
      settles := fun _ => ⟨hc.committed,hc.notCommitted⟩
      reports := fun _ hr => .inl hr }

theorem Holds.undelivered (ho : s.owner = .fresh) :
    Advances request s { s with
      drive := s.drive.decide .notCommitted
      owner := .answered (.unstaged (.new .notCommitted .actorStopped)) } := by
  obtain ⟨hactor,hbase,hpending,hauth⟩ := h.unstaged ho
  have hreceipt := decide_pending hpending .notCommitted
  exact
    { holds :=
        { fresh := h.fresh
          phase := by
            rcases hactor with ha | ha
            · simpa [PhaseHolds,ha,Drive.decide] using hbase
            · simp [PhaseHolds,ha]
          owed := fun hu => by
            obtain ⟨hidle,-⟩ := h.owed hu
            rcases hactor with ha | ha <;> simp [ha] at hidle
          unstaged := fun hu => (by cases hu)
          grounded := fun _ => by simp [Drive.decide,hreceipt] }
      moves := .inr (.inl ⟨hpending,by simp [Drive.decide,hreceipt]⟩)
      settles := fun _ => ⟨fun hc => by simp [Drive.decide,hreceipt] at hc,
        fun _ => by rw [hbase]; exact OldUnit.refl _⟩
      reports := fun report hr => by
        simp only [OwnerPhase.answered.injEq] at hr
        subst hr
        exact .inr fun d hd => (by cases hd) }

theorem Holds.stage (delivered : Bool) :
    Advances request s (s.stage delivered) := by
  unfold StartSystem.stage
  split
  · refine ⟨{ h with unstaged := nofun },moves_refl _,fun hne => absurd rfl hne,?_⟩
    intro report hr
    cases hr
    exact .inr nofun
  · rename_i ho hf
    split
    · rename_i ha
      obtain ⟨-,hbase,hpending,hauth⟩ := h.unstaged ho
      have howed := h.not_owed (by simp [ha])
      refine advances_of_same ?_ rfl (by simp)
      exact
        { fresh := h.fresh
          phase := ⟨hpending,hauth,hbase⟩
          owed := fun hu => absurd hu (by simp [howed])
          unstaged := nofun
          grounded := h.grounded }
    · exact h.undelivered ho
  · exact Advances.refl h

theorem Holds.other (store : StartStore) (latched : Option String) :
    Advances request s (s.other request store latched) := by
  have howed : s.failure = none → s.unresolvedStart = false := by
    intro hf
    by_contra hne
    obtain ⟨-,hlatched,-⟩ := h.owed (by simpa using hne)
    simp [hf] at hlatched
  unfold StartSystem.other
  split
  · rename_i ha hf
    split
    · rename_i hfresh
      refine advances_of_same ?_ rfl fun _ hr => hr
      exact
        { fresh := hfresh
          phase := by simp [PhaseHolds,ha]
          owed := fun hu => absurd hu (by simp [howed hf])
          unstaged := fun ho => ⟨.inl ha,rfl,(h.unstaged ho).2.2⟩
          grounded := h.grounded }
    · exact Advances.refl h
  · rename_i ha hf
    split
    · rename_i hfresh
      have hphase := h.phase
      simp only [PhaseHolds,ha] at hphase
      refine advances_of_same ?_ rfl fun _ hr => hr
      exact
        { fresh := hfresh
          phase := by simpa [PhaseHolds,ha] using ⟨hphase.1,hphase.2.1⟩
          owed := fun hu => absurd hu (by simp [howed hf])
          unstaged := fun ho => absurd ho (h.not_fresh (by simp [ha]) (by simp [ha]))
          grounded := h.grounded }
    · exact Advances.refl h
  · rename_i ha hf
    have hphase := h.phase
    simp only [PhaseHolds,ha] at hphase
    refine advances_of_same ?_ rfl fun _ hr => hr
    exact
      { fresh := h.fresh
        phase := by simpa [PhaseHolds,ha] using hphase
        owed := fun hu => absurd hu (by simp [howed hf])
        unstaged := fun ho => absurd ho (h.not_fresh (by simp [ha]) (by simp [ha]))
        grounded := h.grounded }
  · exact Advances.refl h

theorem Holds.take (o : TakeOutcomes) :
    Advances request s (s.take ctx request o) := by
  unfold StartSystem.take
  split
  · rename_i ha
    have hphase := h.phase
    simp only [PhaseHolds,ha] at hphase
    obtain ⟨hpending,hauth,hbase⟩ := hphase
    have hundecided : Undecided s.base s.drive := ⟨hpending,hauth,by rw [hbase]; exact OldUnit.refl _⟩
    have hanswer : ∀ result : Drive × StageDriveResult,
        ConcludedDrive request s.base result.1 result.2 → Advances request s (s.answer result) :=
      fun result hc => h.answer hc hpending (by simp [ha]) (by simp [ha]) (by simp [ha])
    have hlose : ∀ store, Advances request s (s.lose store none) := fun store =>
      h.lose none fun ho => absurd ho (h.not_fresh (by simp [ha]) (by simp [ha]))
    split
    · exact hanswer (_,_) (hundecided.refused _).toConcludedDrive
    · have hpre : (preflight ctx request true s.drive o.preflight).Ends s.base
          (Refused request s.base) (Undecided s.base) := preflight_ends hundecided o.preflight
      split
      · exact hlose _
      · rename_i hfinished
        rw [hfinished] at hpre
        exact hanswer (_,_) (Refused.toConcludedDrive hpre)
      · rename_i d admitted hnext
        rw [hnext] at hpre
        have hstaging : (stageUntilReady ctx request admitted.1 d o.attempts o.admission).Ends
            s.base (Refused request s.base) (StagedDrive request s.base) :=
          stageUntilReady_ends hpre o.attempts o.admission
        split
        · exact hlose _
        · rename_i hfinished
          rw [hfinished] at hstaging
          exact hanswer _ (Refused.restoreSpill hstaging admitted.2 o.restore).toConcludedDrive
        · rename_i d hnext
          rw [hnext] at hstaging
          have hstaged : StagedDrive request s.base d := hstaging
          refine advances_of_same ?_ (hstaged.pending.trans hpending.symm) fun _ hr => hr
          exact
            { fresh := h.fresh
              phase := hstaged
              owed := fun hu => absurd hu (by simp [h.not_owed (by simp [ha])])
              unstaged := fun ho => absurd ho (h.not_fresh (by simp [ha]) (by simp [ha]))
              grounded := fun _ => by simp [hstaged.pending] }
  · exact Advances.refl h

/-- The two parties go on with the staged transaction as it is. -/
theorem Holds.handOver {actor : ActorPhase} {owner : OwnerPhase}
    (hs : StagedDrive request s.base s.drive) (hi : s.actor ≠ .idle)
    (ha : ({ s with actor := actor, owner := owner } : StartSystem).PhaseHolds request =
      StagedDrive request s.base s.drive) (ho : owner ≠ .fresh)
    (hr : ∀ report, owner = .answered report → s.owner = .answered report) :
    Advances request s { s with actor := actor, owner := owner } := by
  refine advances_of_same ?_ rfl hr
  exact
    { fresh := h.fresh
      phase := ha ▸ hs
      owed := fun hu => absurd hu (by simp [h.not_owed hi])
      unstaged := fun hf => absurd hf ho
      grounded := h.grounded }

theorem Holds.ready : Advances request s s.ready := by
  unfold StartSystem.ready
  split
  · rename_i previous ha ho
    have hphase := h.phase
    simp only [PhaseHolds,ha] at hphase
    exact h.handOver hphase (by simp [ha]) rfl (by simp) (by simp)
  · exact Advances.refl h

theorem Holds.abandon : Advances request s s.abandon := by
  unfold StartSystem.abandon
  split
  · rename_i previous ha ho
    have hphase := h.phase
    simp only [PhaseHolds,ha] at hphase
    exact h.handOver hphase (by simp [ha]) rfl (by simp [ho]) fun _ hr => hr
  · exact Advances.refl h

theorem Holds.loseReady (rollback : Rollback) (restore : Option PersistenceError) :
    Advances request s (s.loseReady ctx rollback restore) := by
  unfold StartSystem.loseReady
  split
  · rename_i previous ha ho
    have hphase := h.phase
    simp only [PhaseHolds,ha] at hphase
    refine h.answer ?_ hphase.pending (by simp [ha]) (by simp [ha]) (by simp [ha])
    exact (hphase.toUndecided.rollbackAfterReadyLoss ctx request rollback previous
      restore).toConcludedDrive
  · exact Advances.refl h

end

theorem unknownIfPending_moves (receipt : StartReceipt) :
    receipt.disposition.Moves receipt.unknownIfPending.disposition := by
  unfold StartReceipt.unknownIfPending StartReceipt.decide
  split
  · exact moves_refl _
  · rename_i hpending
    exact .inr (.inl ⟨by simpa using hpending,by simp⟩)

theorem unknownIfPending_commitAuthorized (receipt : StartReceipt) :
    receipt.unknownIfPending.commitAuthorized = receipt.commitAuthorized := by
  unfold StartReceipt.unknownIfPending StartReceipt.decide
  split <;> rfl

theorem unknownIfPending_settled {receipt : StartReceipt}
    (h : receipt.unknownIfPending.disposition ≠ receipt.disposition) :
    receipt.unknownIfPending.disposition = .commitUnknown := by
  unfold StartReceipt.unknownIfPending StartReceipt.decide at h ⊢
  split
  · rename_i hne
    rw [if_pos hne] at h
    exact absurd rfl h
  · rfl

theorem unknownIfPending_ne_pending (receipt : StartReceipt) :
    receipt.unknownIfPending.disposition ≠ .pending := by
  unfold StartReceipt.unknownIfPending StartReceipt.decide
  split
  · assumption
  · simp

/-- The owner of a start whose actor is gone marks it unknown if it is still pending. -/
theorem Holds.actorGone (h : s.Holds request) (ha : s.actor = .lost) {report : StartReport}
    (hr : ∀ disposition, report.decided = some disposition →
      disposition = s.drive.receipt.unknownIfPending.disposition) :
    Advances request s { s with
      drive := { s.drive with receipt := s.drive.receipt.unknownIfPending }
      owner := .answered report } where
  holds :=
    { fresh := h.fresh
      phase := by simp [PhaseHolds,ha]
      owed := fun hu => absurd (h.owed hu).1 (by simp [ha])
      unstaged := nofun
      grounded := fun hauth => by
        rw [unknownIfPending_commitAuthorized] at hauth
        intro hc
        by_cases hsame : s.drive.receipt.unknownIfPending.disposition = s.drive.receipt.disposition
        · exact h.grounded hauth (hsame.symm.trans hc)
        · have hunknown := unknownIfPending_settled hsame
          simp [hunknown] at hc }
  moves := unknownIfPending_moves _
  settles hne := by
    have hunknown := unknownIfPending_settled hne
    exact ⟨fun hc => by simp [hunknown] at hc,fun hn => by simp [hunknown] at hn⟩
  reports report' hr' := by
    cases hr'
    exact .inr hr

theorem answerDecision_gone (receipt : StartReceipt) (decision : StageDecision) :
    (answerDecision receipt none decision).1 = receipt.unknownIfPending ∧
      (answerDecision receipt none decision).2.decided =
        some receipt.unknownIfPending.disposition := by
  cases decision with
  | abort => exact ⟨rfl,rfl⟩
  | commit =>
    refine ⟨rfl,?_⟩
    have hne := unknownIfPending_ne_pending receipt
    simp only [answerDecision,commitCompletion,actorGone,PersistentStartFailure.new,
      completionFromFailure,StartReport.decided]
    cases hd : receipt.unknownIfPending.disposition with
    | pending => exact absurd hd hne
    | notCommitted => rfl
    | committed => rfl
    | commitUnknown => rfl

theorem answerDecision_taken {receipt : StartReceipt} {completion : StageCompletion}
    (h : receipt.disposition = completion.disposition) (decision : StageDecision) :
    (answerDecision receipt (some completion) decision).2.decided = some receipt.disposition := by
  rw [h]
  cases decision with
  | commit => cases completion <;> rfl
  | abort =>
    cases completion with
    | committed post => rfl
    | commitUnknown error => rfl
    | notCommitted failure =>
      simp only [answerDecision,abortCompletion]
      cases failure.fatal <;> rfl

section

variable (h : s.Holds request)
include h

theorem Holds.decide (decision : StageDecision) :
    Advances request s (s.decide decision) := by
  unfold StartSystem.decide
  split
  · rename_i previous ho ha
    have hphase := h.phase
    simp only [PhaseHolds,ha] at hphase
    exact h.handOver hphase (by simp [ha]) rfl (by simp) (by simp)
  · rename_i ho ha
    obtain ⟨hreceipt,hreport⟩ := answerDecision_gone s.drive.receipt decision
    simp only [hreceipt]
    exact h.actorGone ha fun disposition hd => by
      rw [hreport] at hd
      exact (Option.some.inj hd).symm
  · exact Advances.refl h

theorem Holds.issue (report : CommitReport) :
    Advances request s (s.issue report) := by
  unfold StartSystem.issue
  split
  · rename_i previous ha
    have hphase := h.phase
    simp only [PhaseHolds,ha] at hphase
    refine advances_of_same ?_ rfl fun _ hr => hr
    exact
      { fresh := h.fresh
        phase := hphase.issueCommit report
        owed := fun hu => absurd hu (by simp [h.not_owed (by simp [ha])])
        unstaged := fun ho => absurd ho (h.not_fresh (by simp [ha]) (by simp [ha]))
        grounded := nofun }
  · exact Advances.refl h

theorem Holds.conclude (o : ConcludeOutcomes) :
    Advances request s (s.conclude ctx request o) := by
  unfold StartSystem.conclude
  split
  · rename_i previous ha
    have hphase := h.phase
    simp only [PhaseHolds,ha] at hphase
    refine h.answer ?_ hphase.pending (by simp [ha]) (by simp [ha]) (by simp [ha])
    exact (hphase.toUndecided.abortStagedStart ctx request o.rollback previous
      o.restore).toConcludedDrive
  · rename_i report previous ha
    have hphase := h.phase
    simp only [PhaseHolds,ha] at hphase
    refine h.answer ?_ hphase.pending (by simp [ha]) (by simp [ha]) (by simp [ha])
    exact (hphase.concludeCommit ctx h.fresh o.classify).restoreSpill previous o.restore
  · exact Advances.refl h

theorem Holds.reply :
    Advances request s (s.reply ctx) := by
  unfold StartSystem.reply
  split
  · rename_i result ha
    have hphase := h.phase
    simp only [PhaseHolds,ha] at hphase
    have hdecided : s.drive.receipt.disposition ≠ .pending := by
      intro hpending
      have haccords := hphase.accords
      rw [hpending] at haccords
      cases result with
      | readyFailed failure => rcases haccords with h' | h' <;> cases h'
      | completed completion => cases completion <;> cases haccords
    refine ⟨?_,moves_refl _,fun hne => absurd rfl hne,?_⟩
    · exact
        { fresh := h.fresh
          phase := hdecided
          owed := fun hu => by
            refine ⟨rfl,?_,hphase.owed hu⟩
            simp [hphase.latched hu]
          unstaged := fun ho => by
            have howner := h.not_fresh (by simp [ha]) (by simp [ha])
            simp only [receive] at ho
            split at ho
            · cases ho
            · cases ho
            · exact absurd ho howner
          grounded := h.grounded }
    · intro report hr
      simp only [receive] at hr
      split at hr
      · cases hr
      · rename_i decision completion howner
        cases hr
        refine .inr fun disposition hd => ?_
        rw [answerDecision_taken hphase.accords] at hd
        exact (Option.some.inj hd).symm
      · exact .inl hr
  · exact Advances.refl h

theorem Holds.reconcile (o : StartReconcileOutcomes) (lost : Bool) :
    Advances request s (s.reconcile ctx request o lost) := by
  unfold StartSystem.reconcile
  split
  · rename_i ha hu _
    obtain ⟨-,hlatched,howed⟩ := h.owed hu
    have hlose : ∀ store, Advances request s (s.lose store none) := fun store =>
      h.lose none fun ho => absurd ho (h.not_fresh (by simp [ha]) (by simp [ha]))
    have hkeeps : (reconcileStart ctx request s.drive o).Keeps request s.base s.drive.receipt :=
      howed.reconcileStart h.fresh o
    split
    · exact hlose _
    · rename_i d result hanswered
      rw [hanswered] at hkeeps
      have hreconciles : Reconciles request s.base s.drive.receipt d result := hkeeps
      have hpending : d.receipt.disposition ≠ .pending := by
        intro hp
        rcases hreconciles.moves with hm | ⟨hm,-⟩ | ⟨-,hm | hm⟩
        · rcases howed.owing with hw | hw <;> simp [hp,hw] at hm
        · rcases howed.owing with hw | hw <;> simp [hw] at hm
        · simp [hp] at hm
        · simp [hp] at hm
      split
      · exact hlose _
      · split
        · exact
            { holds :=
                { fresh := h.fresh
                  phase := by simpa [PhaseHolds,ha] using hpending
                  owed := nofun
                  unstaged := fun ho => absurd ho (h.not_fresh (by simp [ha]) (by simp [ha]))
                  grounded := fun hauth => (hreconciles.unauthorized hauth).2 }
              moves := hreconciles.moves
              settles := fun _ => ⟨hreconciles.committed,hreconciles.notCommitted⟩
              reports := fun _ hr => .inl hr }
        · rename_i hnot
          have hsame := hreconciles.kept hnot
          refine advances_of_same ?_ hsame fun _ hr => hr
          exact
            { fresh := h.fresh
              phase := by simpa [PhaseHolds,ha] using hpending
              owed := fun _ => ⟨ha,hlatched,
                { hreconciles.toTruthful with owing := by simpa [hsame] using howed.owing }⟩
              unstaged := fun ho => absurd ho (h.not_fresh (by simp [ha]) (by simp [ha]))
              grounded := fun hauth => (hreconciles.unauthorized hauth).2 }
  · exact Advances.refl h

theorem Holds.reconcileOther : Advances request s s.reconcileOther := by
  have hsame : ∀ failure, s.PhaseHolds request → (s.unresolvedStart = true → failure = s.failure) →
      (s.actor = .waiting ∨ s.actor = .queued ∨ s.actor = .idle) →
      Advances request s { s with
        drive := { s.drive with store := { s.drive.store with staged := none, unresolved := false } }
        failure := failure } := by
    intro failure hphase hf ha
    refine advances_of_same ?_ rfl fun _ hr => hr
    exact
      { fresh := h.fresh
        phase := by rcases ha with ha | ha | ha <;> simpa [PhaseHolds,ha] using hphase
        owed := fun hu => by
          obtain ⟨hidle,hlatched,howed⟩ := h.owed hu
          exact ⟨hidle,by rw [hf hu]; exact hlatched,howed.of_store rfl⟩
        unstaged := h.unstaged
        grounded := h.grounded }
  have hfailure : s.unresolvedStart = true →
      (if s.unresolvedStart then s.failure else none) = s.failure := fun hu => by simp [hu]
  unfold StartSystem.reconcileOther
  split
  · rename_i ha _
    exact hsame _ h.phase hfailure (.inl ha)
  · rename_i ha _
    exact hsame _ h.phase hfailure (.inr (.inl ha))
  · rename_i ha _
    exact hsame _ h.phase hfailure (.inr (.inr ha))
  · exact Advances.refl h

theorem Holds.leave : Advances request s s.leave := by
  unfold StartSystem.leave
  split
  · exact Advances.refl h
  · refine advances_of_same ?_ rfl nofun
    exact { h with unstaged := nofun }

theorem Holds.notice : Advances request s s.notice := by
  unfold StartSystem.notice
  split
  · rename_i ho ha
    exact h.actorGone ha nofun
  · rename_i decision ho ha
    obtain ⟨hreceipt,hreport⟩ := answerDecision_gone s.drive.receipt decision
    simp only [hreceipt]
    exact h.actorGone ha fun disposition hd => by
      rw [hreport] at hd
      exact (Option.some.inj hd).symm
  · refine ⟨{ h with unstaged := nofun },moves_refl _,fun hne => absurd rfl hne,?_⟩
    intro report hr
    cases hr
    exact .inr nofun
  · exact Advances.refl h

end

theorem Holds.step (ctx : StartContext) (h : s.Holds request) (event : StartEvent) :
    Advances request s (s.step ctx request event) := by
  cases event with
  | stage delivered => exact h.stage delivered
  | other store latched => exact h.other store latched
  | take o => exact h.take o
  | ready => exact h.ready
  | loseReady rollback restore => exact h.loseReady rollback restore
  | decide decision => exact h.decide decision
  | abandon => exact h.abandon
  | issue report => exact h.issue report
  | conclude o => exact h.conclude o
  | reply => exact h.reply
  | reconcile o lost => exact h.reconcile o lost
  | reconcileOther => exact h.reconcileOther
  | stop latched => exact h.lose latched fun _ => rfl
  | leave => exact h.leave
  | notice => exact h.notice

theorem holds_origin (origin : StartOrigin request) : origin.system.Holds request where
  fresh := origin.fresh
  phase := rfl
  owed := nofun
  unstaged _ := ⟨.inl rfl,rfl,rfl,rfl⟩
  grounded _ := by simp [StartOrigin.system,StartReceipt.pending]

theorem reached_holds (ctx : StartContext) (origin : StartOrigin request)
    (events : List StartEvent) : (run (step ctx request) origin.system events).Holds request :=
  run_invariant (fun _ event h => (h.step ctx event).holds) (holds_origin origin) events

theorem settled_stays (ctx : StartContext) (h : s.Holds request)
    (hs : s.drive.receipt.disposition = .committed ∨ s.drive.receipt.disposition = .notCommitted)
    (events : List StartEvent) :
    (run (step ctx request) s events).drive.receipt.disposition = s.drive.receipt.disposition := by
  induction events generalizing s with
  | nil => rfl
  | cons event events ih =>
    have hadvances := h.step ctx event
    have hsame : (s.step ctx request event).drive.receipt.disposition =
        s.drive.receipt.disposition := by
      rcases hadvances.moves with hm | ⟨hm,-⟩ | ⟨hm,-⟩
      · exact hm
      · rcases hs with hs | hs <;> simp [hs] at hm
      · rcases hs with hs | hs <;> simp [hs] at hm
    rw [run_cons,ih hadvances.holds (by rwa [hsame]),hsame]

/-- No Commit has reached the actor. -/
structure Unauthorized (s : StartSystem) : Prop where
  receipt : s.drive.receipt.commitAuthorized = false
  actor : match s.actor with
    | .deciding .commit _ | .issued _ _ => False
    | _ => True

theorem Holds.old (h : s.Holds request) (hu : s.Unauthorized) (hi : s.InHand) :
    OldUnit s.base s.drive.store.durable := by
  have hphase := h.phase
  have hactor := hu.actor
  unfold InHand at hi
  unfold PhaseHolds at hphase
  cases ha : s.actor with
  | waiting => simp [ha] at hi
  | queued => simp [ha] at hi
  | lost => simp [ha] at hi
  | offering previous => simp only [ha] at hphase; exact hphase.old
  | awaiting previous => simp only [ha] at hphase; exact hphase.old
  | deciding decision previous => simp only [ha] at hphase; exact hphase.old
  | issued report previous => simp [ha] at hactor
  | replying result => simp only [ha] at hphase; exact (hphase.unauthorized hu.receipt).1
  | idle =>
    simp only [ha] at hi
    exact ((h.owed hi).2.2.unauthorized hu.receipt).1

theorem Unauthorized.of_receipt (h : s.Unauthorized) {s' : StartSystem}
    (hr : s'.drive.receipt.commitAuthorized = s.drive.receipt.commitAuthorized)
    (ha : s'.actor = s.actor) : s'.Unauthorized where
  receipt := hr.trans h.receipt
  actor := by rw [ha]; exact h.actor

theorem Unauthorized.lose (h : s.Unauthorized) (store : StartStore) (latched : Option String) :
    (s.lose store latched).Unauthorized := ⟨h.receipt,trivial⟩

theorem Unauthorized.take (hh : s.Holds request) (h : s.Unauthorized) (o : TakeOutcomes) :
    (s.take ctx request o).Unauthorized := by
  unfold StartSystem.take
  split
  · rename_i ha
    have hphase := hh.phase
    simp only [PhaseHolds,ha] at hphase
    obtain ⟨hpending,hauth,hbase⟩ := hphase
    have hundecided : Undecided s.base s.drive := ⟨hpending,hauth,by rw [hbase]; exact OldUnit.refl _⟩
    split
    · have hreceipt := decide_pending hpending .notCommitted
      exact ⟨by simp [answer,Drive.decide,hreceipt,hauth],trivial⟩
    · have hpre : (preflight ctx request true s.drive o.preflight).Ends s.base
          (Refused request s.base) (Undecided s.base) := preflight_ends hundecided o.preflight
      split
      · exact h.lose _ _
      · rename_i hfinished
        rw [hfinished] at hpre
        exact ⟨hpre.withheld,trivial⟩
      · rename_i d admitted hnext
        rw [hnext] at hpre
        have hstaging : (stageUntilReady ctx request admitted.1 d o.attempts o.admission).Ends
            s.base (Refused request s.base) (StagedDrive request s.base) :=
          stageUntilReady_ends hpre o.attempts o.admission
        split
        · exact h.lose _ _
        · rename_i hfinished
          rw [hfinished] at hstaging
          exact ⟨(hstaging.restoreSpill admitted.2 o.restore).withheld,trivial⟩
        · rename_i d hnext
          rw [hnext] at hstaging
          exact ⟨hstaging.unauthorized,trivial⟩
  · exact h

theorem Unauthorized.stage (h : s.Unauthorized) (delivered : Bool) :
    (s.stage delivered).Unauthorized := by
  unfold StartSystem.stage
  split
  · exact h.of_receipt rfl rfl
  · split
    · exact ⟨h.receipt,trivial⟩
    · exact h.of_receipt (by simp only [Drive.decide,StartReceipt.decide]; split <;> rfl) rfl
  · exact h

theorem Unauthorized.other (h : s.Unauthorized) (store : StartStore) (latched : Option String) :
    (s.other request store latched).Unauthorized := by
  unfold StartSystem.other
  split
  · split
    · exact h.of_receipt rfl rfl
    · exact h
  · split
    · exact h.of_receipt rfl rfl
    · exact h
  · exact h.of_receipt rfl rfl
  · exact h

theorem Unauthorized.ready (h : s.Unauthorized) : s.ready.Unauthorized := by
  unfold StartSystem.ready
  split
  · exact ⟨h.receipt,trivial⟩
  · exact h

theorem Unauthorized.loseReady (ctx : StartContext) (hh : s.Holds request) (h : s.Unauthorized)
    (rollback : Rollback) (restore : Option PersistenceError) :
    (s.loseReady ctx rollback restore).Unauthorized := by
  unfold StartSystem.loseReady
  split
  · rename_i previous ha ho
    have hphase := hh.phase
    simp only [PhaseHolds,ha] at hphase
    exact ⟨(hphase.toUndecided.rollbackAfterReadyLoss ctx request rollback previous
      restore).withheld,trivial⟩
  · exact h

theorem Unauthorized.abort (h : s.Unauthorized) : (s.decide .abort).Unauthorized := by
  unfold StartSystem.decide
  split
  · exact ⟨h.receipt,trivial⟩
  · exact h.of_receipt (unknownIfPending_commitAuthorized _) rfl
  · exact h

theorem Unauthorized.abandon (h : s.Unauthorized) : s.abandon.Unauthorized := by
  unfold StartSystem.abandon
  split
  · exact ⟨h.receipt,trivial⟩
  · exact h

/-- A commit is issued only for the decision to commit. -/
theorem Unauthorized.issue (h : s.Unauthorized) (report : CommitReport) :
    (s.issue report).Unauthorized := by
  unfold StartSystem.issue
  split
  · rename_i previous ha
    have hactor := h.actor
    simp [ha] at hactor
  · exact h

theorem Unauthorized.conclude (ctx : StartContext) (hh : s.Holds request) (h : s.Unauthorized)
    (o : ConcludeOutcomes) : (s.conclude ctx request o).Unauthorized := by
  unfold StartSystem.conclude
  split
  · rename_i previous ha
    have hphase := hh.phase
    simp only [PhaseHolds,ha] at hphase
    exact ⟨(hphase.toUndecided.abortStagedStart ctx request o.rollback previous
      o.restore).withheld,trivial⟩
  · rename_i report previous ha
    have hactor := h.actor
    simp [ha] at hactor
  · exact h

theorem Unauthorized.reply (ctx : StartContext) (h : s.Unauthorized) :
    (s.reply ctx).Unauthorized := by
  unfold StartSystem.reply
  split
  · exact ⟨h.receipt,trivial⟩
  · exact h

/-- A reconciliation settles a receipt without authorizing it. -/
theorem Unauthorized.reconcile (ctx : StartContext) (hh : s.Holds request) (h : s.Unauthorized)
    (o : StartReconcileOutcomes) (lost : Bool) :
    (s.reconcile ctx request o lost).Unauthorized := by
  unfold StartSystem.reconcile
  split
  · rename_i ha hu _
    have hkeeps : (reconcileStart ctx request s.drive o).Keeps request s.base s.drive.receipt :=
      (hh.owed hu).2.2.reconcileStart hh.fresh o
    split
    · exact h.lose _ _
    · rename_i d result hanswered
      rw [hanswered] at hkeeps
      have hauth : d.receipt.commitAuthorized = false :=
        (Reconciles.authorized hkeeps).trans h.receipt
      split
      · exact h.lose _ _
      · split
        · exact ⟨hauth,by simp [ha]⟩
        · exact ⟨hauth,by simp [ha]⟩
  · exact h

theorem Unauthorized.reconcileOther (h : s.Unauthorized) : s.reconcileOther.Unauthorized := by
  unfold StartSystem.reconcileOther
  split <;> exact h.of_receipt rfl rfl

theorem Unauthorized.leave (h : s.Unauthorized) : s.leave.Unauthorized := by
  unfold StartSystem.leave
  split
  · exact h
  · exact h.of_receipt rfl rfl

theorem Unauthorized.notice (h : s.Unauthorized) : s.notice.Unauthorized := by
  unfold StartSystem.notice
  split
  · exact h.of_receipt (unknownIfPending_commitAuthorized _) rfl
  · rename_i decision _ _
    have hreceipt := (answerDecision_gone s.drive.receipt decision).1
    exact h.of_receipt (by simp [hreceipt,unknownIfPending_commitAuthorized]) rfl
  · exact h.of_receipt rfl rfl
  · exact h

theorem Unauthorized.step (ctx : StartContext) (hh : s.Holds request) (h : s.Unauthorized)
    {event : StartEvent} (hne : event ≠ .decide .commit) :
    (s.step ctx request event).Unauthorized := by
  cases event with
  | stage delivered => exact h.stage delivered
  | other store latched => exact h.other store latched
  | take o => exact h.take hh o
  | ready => exact h.ready
  | loseReady rollback restore => exact h.loseReady ctx hh rollback restore
  | decide decision =>
    cases decision with
    | commit => exact absurd rfl hne
    | abort => exact h.abort
  | abandon => exact h.abandon
  | issue report => exact h.issue report
  | conclude o => exact h.conclude ctx hh o
  | reply => exact h.reply ctx
  | reconcile o lost => exact h.reconcile ctx hh o lost
  | reconcileOther => exact h.reconcileOther
  | stop latched => exact h.lose _ _
  | leave => exact h.leave
  | notice => exact h.notice

theorem reached_unauthorized (ctx : StartContext) (origin : StartOrigin request)
    {events : List StartEvent} (h : StartEvent.decide .commit ∉ events) :
    (run (step ctx request) origin.system events).Unauthorized := by
  have hrun : ∀ (events : List StartEvent) (s : StartSystem), s.Holds request → s.Unauthorized →
      StartEvent.decide .commit ∉ events → (run (step ctx request) s events).Unauthorized := by
    intro events
    induction events with
    | nil => exact fun s _ hu _ => hu
    | cons event events ih =>
      intro s hs hu hmem
      have hne : event ≠ .decide .commit := fun heq => hmem (heq ▸ List.mem_cons_self)
      exact ih _ (hs.step ctx event).holds (hu.step ctx hs hne)
        fun hin => hmem (List.mem_cons_of_mem event hin)
  exact hrun events _ (holds_origin origin) ⟨rfl,trivial⟩ h

/-- A start moves its receipt once from `Pending` and from `CommitUnknown` only to a settled
disposition, which then stays. A receipt that becomes `Committed` finds the rows of the new
unit and one that becomes `NotCommitted` those of the old unit; without a Commit of its
owner the start is never committed; and `commit` and `abort` report the disposition that
the receipt has when they return. -/
theorem start_receipts_truthful (ctx : StartContext) (request : StartRequest)
    (origin : StartOrigin request) (events : List StartEvent) (event : StartEvent) :
    let s := run (step ctx request) origin.system events
    let s' := s.step ctx request event
    s.drive.receipt.disposition.Moves s'.drive.receipt.disposition ∧
    (∀ later, s'.drive.receipt.disposition = .committed ∨
        s'.drive.receipt.disposition = .notCommitted →
      (run (step ctx request) s' later).drive.receipt.disposition =
        s'.drive.receipt.disposition) ∧
    (s'.drive.receipt.disposition ≠ s.drive.receipt.disposition →
      (s'.drive.receipt.disposition = .committed →
        NewUnit request s'.base s'.drive.store.durable) ∧
      (s'.drive.receipt.disposition = .notCommitted → OldUnit s'.base s'.drive.store.durable)) ∧
    (StartEvent.decide .commit ∉ events ++ [event] →
      s'.drive.receipt.disposition ≠ .committed ∧
      (s'.InHand → OldUnit s'.base s'.drive.store.durable)) ∧
    ∀ report disposition, s'.owner = .answered report → s.owner ≠ .answered report →
      report.decided = some disposition → disposition = s'.drive.receipt.disposition := by
  intro s s'
  have hs : s.Holds request := reached_holds ctx origin events
  have hadvances : Advances request s s' := hs.step ctx event
  refine ⟨hadvances.moves,fun later hsettled => settled_stays ctx hadvances.holds hsettled later,
    hadvances.settles,?_,?_⟩
  · intro hmem
    have hunauthorized : s'.Unauthorized := by
      have hrun := reached_unauthorized ctx origin hmem
      rwa [run_append] at hrun
    exact ⟨hadvances.holds.grounded hunauthorized.receipt,
      fun hi => hadvances.holds.old hunauthorized hi⟩
  · intro report disposition howner hnew hdecided
    rcases hadvances.reports report howner with hold | hreport
    · exact absurd hold hnew
    · exact hreport disposition hdecided

def plainEpoch : String := "5e0c1a52-3f3e-4d9e-9d66-1f6f1c1b2a10"

def plainContext : StartContext where
  codec := sampleCodec
  epoch := plainEpoch
  runRecords := 8
  metadataBytes := 4096
  walCheckpointBytes := 65536
  walBytes := 65536
  text _ := "storage failed"

def firstStart : StartRequest where
  prepared := prepareStart sampleCodec plainEpoch "0198f3c2-6f00-7c00-8a00-000000000004"
    ⟨"0198f3c2-6f00-7c00-8a00-000000000005"⟩ "\x7b\"program\":\"sh\"\x7d" none
  candidates := []

def emptyTables : StartOrigin firstStart := ⟨(createdStore "a.bin").db,by decide⟩

/-- Every storage operation on the way of the start succeeds. -/
def plainStart : List StartEvent :=
  [.stage true,
    .take
      { preflight := ⟨.done [] false,.ok 0,none,.ok 1⟩
        attempts := [⟨none,none,.ok 0,none,.done,.done [] false,.ok 0,.done⟩]
        admission := ⟨.ok ⟨4096,0,0⟩,.ok 0,.done⟩
        restore := none },
    .ready,.decide .commit,.issue .ok]

theorem start_receipts_truthful_plain :
    let s' := (run (step plainContext firstStart) emptyTables.system plainStart).step plainContext
      firstStart (.conclude ⟨.done,⟨none,.done,none⟩,none⟩)
    s'.drive.receipt.disposition = .committed ∧
      NewUnit firstStart s'.base s'.drive.store.durable := by
  intro s'
  have hcommitted : s'.drive.receipt.disposition = .committed := by decide +kernel
  have hpending : (run (step plainContext firstStart) emptyTables.system
      plainStart).drive.receipt.disposition = .pending := by
    decide +kernel
  obtain ⟨-,-,hsettles,-⟩ := start_receipts_truthful plainContext firstStart emptyTables plainStart
    (.conclude ⟨.done,⟨none,.done,none⟩,none⟩)
  have hmoved : s'.drive.receipt.disposition ≠ (run (step plainContext firstStart)
      emptyTables.system plainStart).drive.receipt.disposition := by
    rw [hcommitted,hpending]
    decide
  exact ⟨hcommitted,(hsettles hmoved).1 hcommitted⟩

end StartSystem
end Durable
end Ctxmux
