import Ctxmux.ControlSound

/-!
# The input wake flag

`input_scheduled` says that the owner has been woken for the queue. Every critical
section recomputes it or keeps it together with the emptiness of the queue, except the
cursor-mismatch arm of an owner turn, which pops a command and keeps the flag.
-/

namespace Ctxmux
namespace NativeControl

/-- The flag agrees with the queue afterwards, or neither has moved. -/
def FlagKept (o o' : Owner) : Prop :=
  o'.state.inputScheduled = !o'.state.inputQueue.isEmpty ∨
  (o'.state.inputScheduled = o.state.inputScheduled ∧
    o'.state.inputQueue.isEmpty = o.state.inputQueue.isEmpty)

theorem FlagKept.refl (o : Owner) : FlagKept o o := Or.inr ⟨rfl,rfl⟩

theorem FlagKept.trans {o₁ o₂ o₃ : Owner} (h : FlagKept o₁ o₂) (h' : FlagKept o₂ o₃) :
    FlagKept o₁ o₃ := by
  rcases h' with h' | ⟨hs',hq'⟩
  · exact Or.inl h'
  · rcases h with h | ⟨hs,hq⟩
    · left
      rw [hs',hq',h]
    · exact Or.inr ⟨hs'.trans hs,hq'.trans hq⟩

theorem flagKept_rejectInputs (o o' : Owner) (st : ControlState) (error : ProtocolError) :
    FlagKept o (rejectInputs o' st error) := by
  left
  simp

theorem flagKept_settleOwnerLoss (o : Owner) : FlagKept o (settleOwnerLoss o) := by
  unfold settleOwnerLoss
  split
  · exact .refl o
  · split
    · exact .refl o
    · exact flagKept_rejectInputs o _ _ _

variable {o : Owner} {base : HandoffInputState}

theorem FlagKept.release {o' : Owner} (h : FlagKept o o') (loss : Option NativeServiceFailure) :
    FlagKept o (release loss o') := by
  refine h.trans (FlagKept.trans ?_ (flagKept_settleOwnerLoss _))
  exact Or.inr ⟨rfl,rfl⟩

/-- An owner lost while the lock is held settles the lane before the lock is free. -/
theorem flagKept_release_loss (o : Owner) {o' : Owner} (hcell : o'.ownerFailure = none)
    (hstate : o'.state.ownerFailure = none) (reason : NativeServiceFailure) :
    FlagKept o (release (some reason) o') := by
  have heq : release (some reason) o' = rejectInputs { o' with ownerFailure := some reason }
      { o'.state with ownerFailure := some reason, stopPending := false, childCommands := [] }
      ownerStoppedError := by
    simp [release,settleOwnerLoss,hcell,hstate]
  rw [heq]
  exact flagKept_rejectInputs o _ _ _

theorem flagKept_enqueueInput (o o' : Owner) (data : List Byte) (expected : Option ℕ)
    (reply : InputReply) : FlagKept o (enqueueInput o' data expected reply) := by
  left
  simp [enqueueInput]

theorem flagKept_beginInputLocked (o : Owner) (data : List Byte) (funded : Bool) :
    FlagKept o (beginInputLocked o data funded).1 := by
  unfold beginInputLocked
  split
  · exact .refl o
  · split
    · exact .refl o
    · split
      · exact .refl o
      · exact flagKept_enqueueInput o _ _ _ _

theorem flagKept_beginRecoverableInput (o : Owner) (key : InputOperationKey) (expectedByte : ℕ)
    (data : List Byte) (funded : Bool) :
    FlagKept o (beginRecoverableInput o key expectedByte data funded).1 := by
  unfold beginRecoverableInput beginRecoverableInputLocked
  split
  · exact .refl o
  · rename_i request _
    split
    · exact .refl o
    · exact .refl o
    · split
      · exact .refl o
      · obtain ⟨ops,completed,retained,heq,_⟩ :=
          evictCompletedInputResults_spec o.resources o.state request.data.length
        have hevicted : FlagKept o
            { o with state := evictCompletedInputResults o.resources o.state request.data.length } := by
          rw [heq]
          exact Or.inr ⟨rfl,rfl⟩
        dsimp only
        split
        · exact hevicted
        · split
          · exact hevicted
          · exact flagKept_enqueueInput o _ _ _ _

theorem flagKept_writeFront {command : InputCommand} {rest : List InputCommand}
    (hq : o.state.inputQueue = command::rest) (t : Turn) (w : WriteOutcome) :
    FlagKept o (writeFront o t command rest w) := by
  unfold writeFront
  split
  · split
    · unfold confirmWrite
      dsimp only
      split
      · right
        simp [hq]
      · left
        obtain ⟨_,hqueue,hflag⟩ := retainCompletedInputOperation_frame
          (releaseInputCapacity
            { o.state with
              inputBlocked := false
              inputQueue := rest
              appliedInputBytes := o.state.appliedInputBytes + command.data.length
              inputScheduled := !rest.isEmpty } command.data.length) command.reply
          ⟨o.state.appliedInputBytes,o.state.appliedInputBytes + command.data.length⟩
        rw [hqueue,hflag]
        rfl
    · exact flagKept_rejectInputs o _ _ _
  · exact Or.inr ⟨rfl,rfl⟩
  · exact Or.inr ⟨rfl,rfl⟩
  · exact flagKept_rejectInputs o _ _ _
  · exact flagKept_rejectInputs o _ _ _

/-- The mismatch arm keeps the flag and pops one command. -/
theorem rejectCursor_flags (o : Owner) (t : Turn) (command : InputCommand)
    (rest : List InputCommand) :
    (rejectCursor o t command rest).state.inputScheduled = o.state.inputScheduled ∧
      (rejectCursor o t command rest).state.inputQueue = rest := by
  have hfences := removeReplyOperation_fences
    (releaseInputCapacity { o.state with inputQueue := rest } command.data.length) command.reply
  exact ⟨congrArg Fences.inputScheduled hfences,congrArg Fences.inputQueue hfences⟩

theorem rejectCursor_ownerFailure (o : Owner) (t : Turn) (command : InputCommand)
    (rest : List InputCommand) :
    (rejectCursor o t command rest).state.ownerFailure = o.state.ownerFailure :=
  congrArg Fences.ownerFailure (removeReplyOperation_fences
    (releaseInputCapacity { o.state with inputQueue := rest } command.data.length) command.reply)

theorem flagKept_turnOp (o : Owner) (op : TurnOp) : FlagKept o (turnOp o op) := by
  cases op with
  | drainChildCommands => exact Or.inr ⟨rfl,rfl⟩
  | rejectPendingStop => exact Or.inr ⟨rfl,rfl⟩
  | commitPendingStop =>
    simp only [turnOp,commitPendingStop]
    split
    · exact Or.inr ⟨rfl,rfl⟩
    · exact flagKept_rejectInputs o _ _ _
  | fenceChildCommands => exact flagKept_rejectInputs o _ _ _

theorem flagKept_turnOps (ops : List TurnOp) (o : Owner) : FlagKept o (ops.foldl turnOp o) := by
  induction ops generalizing o with
  | nil => exact .refl o
  | cons op ops ih => exact (flagKept_turnOp o op).trans (ih (turnOp o op))

/-- An iteration of a running owner turn, on a lane that it may write, whose only queued
command fails its cursor check, and during which the owner is not lost. -/
def StaleWake (o : Owner) : Event → Prop
  | .progress _ loss =>
    (∃ t, o.turn = some t ∧ t.commands < t.maxCommands ∧ t.bytes < t.maxBytes) ∧
    laneRefusal o = none ∧ loss = none ∧
    ∃ command, o.state.inputQueue = [command] ∧ cursorRefused o.state command = true
  | _ => False

theorem flagKept_step (hs : Sound base o) {e : Event} (h : ¬StaleWake o e) :
    FlagKept o (step o e) := by
  cases e with
  | beginInput data funded loss => exact (flagKept_beginInputLocked o data funded).release loss
  | beginRecoverableInput key expectedByte data funded loss =>
    exact (flagKept_beginRecoverableInput o key expectedByte data funded).release loss
  | beginTurn maxCommands maxBytes =>
    simp only [step]
    split
    · exact .refl o
    · exact Or.inr ⟨rfl,rfl⟩
  | progress w loss =>
    simp only [step]
    split
    · exact .refl o
    · rename_i t ht
      split
      · rename_i hquantum
        unfold progressInput
        split
        · refine FlagKept.release ?_ loss
          exact Or.inr ⟨rfl,rfl⟩
        · rename_i hrefusal
          have hfree : laneRefusal o = none := by simpa using hrefusal
          split
          · rename_i hq
            refine FlagKept.release ?_ loss
            left
            simp [hq]
          · rename_i command rest hq
            split
            · rename_i hcursor
              obtain ⟨hflag,hqueue⟩ := rejectCursor_flags o t command rest
              cases rest with
              | cons c rest =>
                refine FlagKept.release ?_ loss
                right
                rw [hqueue]
                exact ⟨hflag,by simp [hq]⟩
              | nil =>
                cases loss with
                | none =>
                  exact absurd ⟨⟨t,ht,hquantum⟩,hfree,rfl,command,hq,hcursor⟩ h
                | some reason =>
                  obtain ⟨_,hcell,_⟩ := laneRefusal_none hfree
                  have hcell' : (rejectCursor o t command []).ownerFailure = none := hcell
                  refine flagKept_release_loss o hcell' ?_ reason
                  exact (rejectCursor_ownerFailure o t command []).trans (hs.unowned hcell)
            · exact (flagKept_writeFront hq t w).release loss
      · exact Or.inr ⟨rfl,rfl⟩
  | busy => exact Or.inr ⟨rfl,rfl⟩
  | controlTurn ops loss => exact (flagKept_turnOps ops o).release loss
  | beginStop loss =>
    refine FlagKept.release ?_ loss
    unfold beginStopLocked
    split_ifs <;> exact Or.inr ⟨rfl,rfl⟩
  | beginSignal foregroundGroup loss =>
    refine FlagKept.release ?_ loss
    unfold beginSignalLocked
    split_ifs <;> cases foregroundGroup <;> exact Or.inr ⟨rfl,rfl⟩
  | cleanupUnpublished loss =>
    refine FlagKept.release ?_ loss
    unfold cleanupUnpublished
    dsimp only
    split_ifs
    · exact .refl o
    · exact .refl o
    · exact Or.inr ⟨rfl,rfl⟩
    · exact flagKept_rejectInputs o _ _ _
  | markClosed loss => exact (flagKept_rejectInputs o _ _ _).release loss
  | markWaitAuthorityLost error loss => exact (flagKept_rejectInputs o _ _ _).release loss
  | fenceOwnerLoss reason busy =>
    simp only [step]
    split
    · exact Or.inr ⟨rfl,rfl⟩
    · refine FlagKept.release ?_ none
      exact Or.inr ⟨rfl,rfl⟩
  | observe loss => exact (FlagKept.refl o).release loss
  | detachClosedDescriptors reap owners loss =>
    refine FlagKept.release ?_ loss
    unfold detachClosedDescriptors
    split <;> exact Or.inr ⟨rfl,rfl⟩

/-- The stale step empties the queue under an unchanged flag. -/
theorem stale_step {e : Event} (h : StaleWake o e) :
    o.state.inputQueue ≠ [] ∧ (step o e).state.inputQueue = [] ∧
      (step o e).state.inputScheduled = o.state.inputScheduled := by
  cases e with
  | progress w loss =>
    obtain ⟨⟨t,ht,hquantum⟩,hfree,rfl,command,hq,hcursor⟩ := h
    obtain ⟨_,hcell,_⟩ := laneRefusal_none hfree
    obtain ⟨hflag,hqueue⟩ := rejectCursor_flags o t command []
    have hcell' : (rejectCursor o t command []).ownerFailure = none := hcell
    have hstep : step o (.progress w none) =
        settleOwnerLoss { rejectCursor o t command [] with ownerFailure := none } := by
      simp [step,ht,hquantum,progressInput,hfree,hq,hcursor,release,hcell']
    rw [hstep]
    exact ⟨by simp [hq],hqueue,hflag⟩
  | _ => exact absurd h id

/-- A queued command always has a scheduled owner. -/
def QueueScheduled (o : Owner) : Prop :=
  o.state.inputQueue ≠ [] → o.state.inputScheduled = true

theorem queueScheduled_step (hs : Sound base o) (h : QueueScheduled o) (e : Event) :
    QueueScheduled (step o e) := by
  by_cases hstale : StaleWake o e
  · intro hq
    exact absurd (stale_step hstale).2.1 hq
  · intro hq
    rcases flagKept_step hs hstale with hf | ⟨hf,hempty⟩
    · rw [hf]
      simpa using hq
    · rw [hf]
      apply h
      intro hnil
      rw [hnil] at hempty
      simp at hempty
      exact hq hempty

/-- No wake is lost from this state: an empty queue is not scheduled, so the next
admission wakes the owner, and an otherwise quiet control passes its handoff and its
quiescence checks. -/
def NoLostWake (o : Owner) : Prop :=
  o.state.inputQueue = [] → o.state.inputScheduled = false ∧
    (∀ e, o.admitted.length < (step o e).admitted.length →
      (step o e).inputWakes = o.inputWakes + 1) ∧
    ((o.state.phase = .opened ∨ o.state.phase = .closed) → o.state.stopPending = false →
      o.state.childCommands = [] → handoffCrossing o = none) ∧
    (o.state.phase = .closed → o.state.childOpen = false → o.state.stopPending = false →
      o.state.childCommands = [] → closedQuiescenceResult o (.ok ()) 1 = .ok ())

theorem release_history (loss : Option NativeServiceFailure) (o : Owner) :
    (release loss o).admitted = o.admitted ∧ (release loss o).inputWakes = o.inputWakes := by
  unfold release settleOwnerLoss
  dsimp only
  split
  · exact ⟨rfl,rfl⟩
  · split <;> exact ⟨rfl,rfl⟩

/-- Nothing was admitted, or one command was and an unscheduled owner was woken. -/
def WakeKept (o o' : Owner) : Prop :=
  o'.admitted = o.admitted ∨
    o'.inputWakes = if o.state.inputScheduled then o.inputWakes else o.inputWakes + 1

theorem WakeKept.release {o' : Owner} (h : WakeKept o o') (loss : Option NativeServiceFailure) :
    WakeKept o (release loss o') := by
  obtain ⟨ha,hw⟩ := release_history loss o'
  rcases h with h | h
  · exact Or.inl (ha.trans h)
  · exact Or.inr (hw.trans h)

theorem wakeKept_beginRecoverableInput (o : Owner) (key : InputOperationKey) (expectedByte : ℕ)
    (data : List Byte) (funded : Bool) :
    WakeKept o (beginRecoverableInput o key expectedByte data funded).1 := by
  unfold beginRecoverableInput beginRecoverableInputLocked
  split
  · exact Or.inl rfl
  · rename_i request _
    split
    · exact Or.inl rfl
    · exact Or.inl rfl
    · split
      · exact Or.inl rfl
      · obtain ⟨ops,completed,retained,heq,_⟩ :=
          evictCompletedInputResults_spec o.resources o.state request.data.length
        rw [heq]
        dsimp only
        split
        · exact Or.inl rfl
        · split
          · exact Or.inl rfl
          · exact Or.inr rfl

theorem admitted_progressInput (o : Owner) (t : Turn) (w : WriteOutcome) :
    (progressInput o t w).admitted = o.admitted := by
  unfold progressInput
  split
  · rfl
  · split
    · rfl
    · split
      · rfl
      · unfold writeFront
        split
        · split
          · unfold confirmWrite
            dsimp only
            split <;> rfl
          · rfl
        · rfl
        · rfl
        · rfl
        · rfl

theorem admitted_turnOps (ops : List TurnOp) (o : Owner) :
    (ops.foldl turnOp o).admitted = o.admitted := by
  induction ops generalizing o with
  | nil => rfl
  | cons op ops ih =>
    have hop : (turnOp o op).admitted = o.admitted := by
      cases op with
      | drainChildCommands => rfl
      | rejectPendingStop => rfl
      | commitPendingStop =>
        simp only [turnOp,commitPendingStop]
        split <;> rfl
      | fenceChildCommands => rfl
    exact (ih (turnOp o op)).trans hop

theorem wakeKept_step (o : Owner) (e : Event) : WakeKept o (step o e) := by
  cases e with
  | beginInput data funded loss =>
    refine WakeKept.release ?_ loss
    unfold beginInputLocked
    split
    · exact Or.inl rfl
    · split
      · exact Or.inl rfl
      · split
        · exact Or.inl rfl
        · exact Or.inr rfl
  | beginRecoverableInput key expectedByte data funded loss =>
    exact (wakeKept_beginRecoverableInput o key expectedByte data funded).release loss
  | beginTurn maxCommands maxBytes =>
    simp only [step]
    split <;> exact Or.inl rfl
  | progress w loss =>
    simp only [step]
    split
    · exact Or.inl rfl
    · split
      · exact WakeKept.release (Or.inl (admitted_progressInput o _ w)) loss
      · exact Or.inl rfl
  | busy => exact Or.inl rfl
  | controlTurn ops loss => exact WakeKept.release (Or.inl (admitted_turnOps ops o)) loss
  | beginStop loss =>
    refine WakeKept.release (Or.inl ?_) loss
    unfold beginStopLocked
    split_ifs <;> rfl
  | beginSignal foregroundGroup loss =>
    refine WakeKept.release (Or.inl ?_) loss
    unfold beginSignalLocked
    split_ifs <;> cases foregroundGroup <;> rfl
  | cleanupUnpublished loss =>
    refine WakeKept.release (Or.inl ?_) loss
    unfold cleanupUnpublished
    dsimp only
    split_ifs <;> rfl
  | markClosed loss =>
    refine WakeKept.release ?_ loss
    exact Or.inl rfl
  | markWaitAuthorityLost error loss =>
    refine WakeKept.release ?_ loss
    exact Or.inl rfl
  | fenceOwnerLoss reason busy =>
    simp only [step]
    split
    · exact Or.inl rfl
    · exact WakeKept.release (Or.inl rfl) none
  | observe loss => exact WakeKept.release (Or.inl rfl) loss
  | detachClosedDescriptors reap owners loss =>
    refine WakeKept.release (Or.inl ?_) loss
    unfold detachClosedDescriptors
    split <;> rfl

/-- In a sound control all of `NoLostWake` follows from its first part. -/
theorem noLostWake_iff (h : Sound base o) :
    NoLostWake o ↔ (o.state.inputQueue = [] → o.state.inputScheduled = false) := by
  constructor
  · intro hw hq
    exact (hw hq).1
  · intro hw hq
    have hflag := hw hq
    have hcommands : o.state.inputCommands = 0 := by
      rw [h.lane.commands,hq]
      rfl
    have hbytes : o.state.inputBytes = 0 := by
      rw [h.lane.bytes,hq]
      rfl
    refine ⟨hflag,?_,?_,?_⟩
    · intro e hlt
      rcases wakeKept_step o e with ha | hwake
      · rw [ha] at hlt
        omega
      · simpa [hflag] using hwake
    · rintro (hp | hp) hstop hchild <;>
        simp [handoffCrossing,hp,hstop,hchild,hflag,hcommands,hbytes,hq]
    · intro hp hopen hstop hchild
      simp [closedQuiescenceResult,hp,hopen,hstop,hchild,hflag,hcommands,hbytes,hq]

/-- A run loses no wake in any of its states exactly when none of its steps is an owner
iteration that pops the only queued command in the cursor-mismatch arm. -/
theorem no_lost_wake_iff (runId : String) (resources : ResourceLimits)
    (input : HandoffInputState) (closed : Bool) (es : List Event) :
    Machine.Always step NoLostWake (newWithComponents runId resources input closed) es ↔
      Machine.Along step (fun o e => ¬StaleWake o e)
        (newWithComponents runId resources input closed) es := by
  have hnew := sound_new runId resources input closed
  apply Machine.always_iff_along (I := fun o => Sound input o ∧ QueueScheduled o)
  · rintro o e ⟨hs,hq⟩
    exact ⟨sound_step hs e,queueScheduled_step hs hq e⟩
  · rintro o e ⟨hs,hq⟩ hp
    rw [noLostWake_iff hs] at hp
    rw [noLostWake_iff (sound_step hs e)]
    constructor
    · intro hp' hstale
      obtain ⟨hone,hempty,hflag⟩ := stale_step hstale
      have htrue := hq hone
      rw [← hflag,hp' hempty] at htrue
      cases htrue
    · intro hgood hempty
      rcases flagKept_step hs hgood with hf | ⟨hf,hsame⟩
      · rw [hf,hempty]
        rfl
      · rw [hf]
        apply hp
        rw [hempty] at hsame
        simpa using hsame.symm
  · exact ⟨hnew,fun hq => absurd rfl hq⟩
  · rw [noLostWake_iff hnew]
    intro _
    rfl

/-- One recoverable command whose expected cursor is wrong, an owner turn of one command
up to its end, and a legacy command. -/
def staleRun : List Event :=
  [.beginRecoverableInput "k" 5 [1] true none,.beginTurn 1 1,.progress (.wrote 1) none,
    .progress (.wrote 1) none,.beginInput [2] true none]

def staleLimits : ResourceLimits := ⟨4,64,4,64⟩

/-- The legacy command is queued, no turn is running and the only wake was the first. -/
theorem stale_run_loses_wake :
    ¬Machine.Always step NoLostWake (newWithComponents "r" staleLimits .empty false) staleRun ∧
    (Machine.run step (newWithComponents "r" staleLimits .empty false) staleRun).inputWakes = 1 ∧
    (Machine.run step (newWithComponents "r" staleLimits .empty false) staleRun).turn = none ∧
    (Machine.run step (newWithComponents "r" staleLimits .empty false) staleRun).state.inputQueue =
      [⟨[2],0,.legacy 1⟩] := by
  refine ⟨?_,by decide,by decide,by decide⟩
  intro h
  have hlost := h.2.2.2.1 (by decide)
  exact absurd hlost.1 (by decide)

end NativeControl
end Ctxmux
