import Ctxmux.ExactlyOnce

/-!
# Honest dispositions

Whatever settles a command, its answer says how many of its bytes the PTY accepted.
A command that was cut off poisons its lane, and a poisoned lane never writes again.
-/

namespace Ctxmux
namespace NativeControl

variable {base : HandoffInputState} {o : Owner}

/-- The lane is poisoned at least as long as before, and nothing reached the PTY. -/
structure Silent (o o' : Owner) : Prop where
  poisoned : o.state.inputFailure.isSome → o'.state.inputFailure.isSome
  wire : o'.wire = o.wire

theorem Silent.refl (o : Owner) : Silent o o := ⟨id,rfl⟩

theorem Silent.trans {o₁ o₂ o₃ : Owner} (h : Silent o₁ o₂) (h' : Silent o₂ o₃) : Silent o₁ o₃ :=
  ⟨fun hp => h'.poisoned (h.poisoned hp),h'.wire.trans h.wire⟩

theorem rejectCommand_poisoned (st : ControlState) (error : ProtocolError) (c : InputCommand)
    (h : st.inputFailure.isSome) : (rejectCommand st error c).1.inputFailure.isSome := by
  unfold rejectCommand
  dsimp only
  split
  · have hgate := removeReplyOperation_gate (releaseInputCapacity st c.data.length) c.reply
    simp only [ControlState.gate,Prod.mk.injEq] at hgate
    rw [hgate.2.2.2]
    exact h
  · obtain ⟨ops,heq,_⟩ := retainUnknownInputOperation_spec
      { releaseInputCapacity st c.data.length with inputFailure := some error } c.reply
      { unknownFailure error with confirmedInputBytes := some c.confirmed }
    rw [heq]
    rfl

theorem rejectLoop_poisoned (error : ProtocolError) (queue : List InputCommand)
    (st : ControlState) (h : st.inputFailure.isSome) :
    (rejectLoop error st queue).1.inputFailure.isSome := by
  induction queue generalizing st with
  | nil => exact h
  | cons c queue ih => exact ih _ (rejectCommand_poisoned st error c h)

theorem silent_rejectInputs (o : Owner) (st : ControlState) (error : ProtocolError)
    (hst : st.inputFailure = o.state.inputFailure) : Silent o (rejectInputs o st error) := by
  refine ⟨?_,rfl⟩
  intro h
  apply rejectLoop_poisoned
  simpa [hst] using h

theorem silent_release (o : Owner) (loss : Option NativeServiceFailure) :
    Silent o (release loss o) := by
  unfold release settleOwnerLoss
  dsimp only
  split
  · exact ⟨id,rfl⟩
  · split
    · exact ⟨id,rfl⟩
    · refine Silent.trans ?_ (silent_rejectInputs _ _ _ (by rfl))
      exact ⟨id,rfl⟩

theorem Silent.release {o o' : Owner} (h : Silent o o') (loss : Option NativeServiceFailure) :
    Silent o (release loss o') :=
  h.trans (silent_release o' loss)

theorem silent_turnOp (o : Owner) (op : TurnOp) : Silent o (turnOp o op) := by
  cases op with
  | drainChildCommands => exact ⟨id,rfl⟩
  | rejectPendingStop => exact ⟨id,rfl⟩
  | commitPendingStop =>
    simp only [turnOp,commitPendingStop]
    split
    · exact ⟨id,rfl⟩
    · exact silent_rejectInputs o _ _ (by rfl)
  | fenceChildCommands => exact silent_rejectInputs o _ _ (by rfl)

theorem silent_turnOps (ops : List TurnOp) (o : Owner) : Silent o (ops.foldl turnOp o) := by
  induction ops generalizing o with
  | nil => exact .refl o
  | cons op ops ih => exact (silent_turnOp o op).trans (ih (turnOp o op))

theorem laneRefusal_of_poisoned (h : o.state.inputFailure.isSome) : (laneRefusal o).isSome := by
  unfold laneRefusal
  split
  · rfl
  · split
    · rfl
    · exact h

theorem silent_step (h : o.state.inputFailure.isSome) (e : Event) : Silent o (step o e) := by
  obtain ⟨error,hrefused⟩ := Option.isSome_iff_exists.mp (laneRefusal_of_poisoned h)
  cases e with
  | beginInput data funded loss =>
    refine Silent.release ?_ loss
    simp only [beginInputLocked,hrefused]
    exact .refl o
  | beginRecoverableInput key expectedByte data funded loss =>
    refine Silent.release ?_ loss
    unfold beginRecoverableInput beginRecoverableInputLocked
    simp only [hrefused]
    split
    · exact .refl o
    · split <;> exact .refl o
  | beginTurn maxCommands maxBytes =>
    simp only [step]
    split <;> exact ⟨id,rfl⟩
  | progress w loss =>
    simp only [step]
    split
    · exact .refl o
    · split
      · refine Silent.release ?_ loss
        simp only [progressInput,hrefused,Option.isSome_some,if_true]
        exact ⟨id,rfl⟩
      · exact ⟨id,rfl⟩
  | busy => exact ⟨id,rfl⟩
  | controlTurn ops loss => exact (silent_turnOps ops o).release loss
  | beginStop loss =>
    refine Silent.release ?_ loss
    unfold beginStopLocked
    split_ifs <;> exact ⟨id,rfl⟩
  | beginSignal foregroundGroup loss =>
    refine Silent.release ?_ loss
    unfold beginSignalLocked
    split_ifs <;> cases foregroundGroup <;> exact ⟨id,rfl⟩
  | cleanupUnpublished loss =>
    refine Silent.release ?_ loss
    unfold cleanupUnpublished
    dsimp only
    split_ifs
    · exact .refl o
    · exact .refl o
    · exact ⟨id,rfl⟩
    · exact silent_rejectInputs o _ _ (by rfl)
  | markClosed loss => exact (silent_rejectInputs o _ _ (by rfl)).release loss
  | markWaitAuthorityLost error loss => exact (silent_rejectInputs o _ _ (by rfl)).release loss
  | fenceOwnerLoss reason busy =>
    simp only [step]
    split
    · exact ⟨id,rfl⟩
    · refine Silent.release ?_ none
      exact ⟨id,rfl⟩
  | observe loss => exact silent_release o loss
  | detachClosedDescriptors reap owners loss =>
    refine Silent.release ?_ loss
    unfold detachClosedDescriptors
    split <;> exact ⟨id,rfl⟩

theorem silent_run (es : List Event) (h : o.state.inputFailure.isSome) :
    Silent o (Machine.run step o es) := by
  induction es generalizing o with
  | nil => exact .refl o
  | cons e es ih =>
    have hs := silent_step h e
    exact hs.trans (ih (hs.poisoned h))

/-- What the answer of a settled command says about the bytes on the PTY. -/
structure HonestAnswer (o : Owner) (s : Settlement) : Prop where
  completed : ∀ range, s.2 = .ok range → acceptedOn o.wire s.1.reply.channel = s.1.data
  untouched : ∀ failure, s.2 = .error failure → failure.disposition = .notApplied →
    acceptedOn o.wire s.1.reply.channel = []
  cut : ∀ failure, s.2 = .error failure → failure.disposition = .unknown →
    failure.confirmedInputBytes = some (acceptedOn o.wire s.1.reply.channel).length ∧
    acceptedOn o.wire s.1.reply.channel =
      s.1.data.take (acceptedOn o.wire s.1.reply.channel).length
  poisoned : ∀ failure, s.2 = .error failure → acceptedOn o.wire s.1.reply.channel ≠ [] →
    o.state.inputFailure.isSome

theorem Sound.honestAnswer (h : Sound base o) {s : Settlement} (hs : s ∈ o.settled) :
    HonestAnswer o s := by
  have hmem : s.1 ∈ o.settled.map (·.1) ++ o.state.inputQueue :=
    List.mem_append_left _ (List.mem_map_of_mem hs)
  have haccepted := h.lane.recorded.accepted s.1 hmem
  have hbound := h.lane.recorded.bounded s.1 hmem
  have hhonest := h.lane.answered.honest s hs
  have hlength : s.1.written.length = s.1.confirmed := by
    simpa [InputCommand.written] using hbound
  refine ⟨?_,?_,?_,?_⟩
  · intro range hr
    have hnot : ¬IsUnknown s := by
      rintro ⟨f,hf,_⟩
      rw [hr] at hf
      cases hf
    rw [haccepted,written_of_not_unknown hhonest hnot]
    simp [completedPayload,hr]
  · intro failure hf hd
    rw [haccepted]
    exact written_of_notApplied hhonest ⟨failure,hf,hd⟩
  · intro failure hf hd
    simp only [Honest,hf,hd] at hhonest
    rw [haccepted,hlength,hhonest]
    exact ⟨rfl,rfl⟩
  · intro failure hf hne
    rcases settlement_cases s with ⟨range,hr⟩ | hn | hu
    · rw [hr] at hf
      cases hf
    · rw [haccepted,written_of_notApplied hhonest hn] at hne
      exact absurd rfl hne
    · exact h.lane.answered.poisoned ⟨s,hs,hu⟩

/-- Every channel of an admission is in exactly one place: answered once, or queued. -/
theorem Sound.answered_once (h : Sound base o) {a : Admission} (ha : a ∈ o.admitted) :
    (o.settled.map (·.1.reply.channel) ++ o.state.inputQueue.map (·.reply.channel)).count
      a.reply.channel = 1 := by
  have hchannels := h.lane.recorded.channels
  have heq : o.settled.map (·.1.reply.channel) ++ o.state.inputQueue.map (·.reply.channel) =
      List.range o.admitted.length := by
    simpa [List.map_map,Function.comp_def] using hchannels
  rw [heq]
  apply List.count_eq_one_of_mem List.nodup_range
  exact List.mem_range.mpr (h.lane.recorded.admitted_lt ha)

/-- Honest dispositions over every run: each answer names what the PTY accepted, each
admission is answered once and a fenced lane has answered all of them, and a poisoned
lane writes nothing in any continuation. -/
theorem native_input_honest_dispositions (runId : String) (resources : ResourceLimits)
    (input : HandoffInputState) (closed : Bool) (es : List Event) :
    let o := Machine.run step (newWithComponents runId resources input closed) es
    (∀ s ∈ o.settled, HonestAnswer o s) ∧
    (∀ a ∈ o.admitted,
      (o.settled.map (·.1.reply.channel) ++ o.state.inputQueue.map (·.reply.channel)).count
        a.reply.channel = 1) ∧
    (o.state.phase ≠ .opened ∨ o.state.inputFailure.isSome ∨ o.state.ownerFailure.isSome →
      o.state.inputQueue = []) ∧
    ∀ fs, o.settled <+: (Machine.run step o fs).settled ∧
      (o.state.inputFailure.isSome → (Machine.run step o fs).wire = o.wire) := by
  intro o
  have h : Sound input o := reachable_sound runId resources input closed es
  refine ⟨fun s hs => h.honestAnswer hs,fun a ha => h.answered_once ha,h.fenced,?_⟩
  intro fs
  exact ⟨(extends_run fs o).settled,fun hp => (silent_run fs hp).wire⟩

end NativeControl
end Ctxmux
