import Ctxmux.ControlLane

/-!
# Every control the machine reaches is sound

The lane invariant holds with the queue of the state itself, a fenced lane is empty,
and an open control has an open child. One lemma per critical section; the run lemma
is `reachable_sound`.
-/

namespace Ctxmux
namespace NativeControl

/-- What settling queued commands leaves alone. -/
structure Fences where
  phase : ControlPhase
  inputQueue : List InputCommand
  inputScheduled : Bool
  inputBlocked : Bool
  ownerFailure : Option NativeServiceFailure
  appliedInputBytes : ℕ
  completedInputOperations : List InputOperationKey
  childOpen : Bool
  stopPending : Bool
  childCommands : List ChildCommand

def ControlState.fences (st : ControlState) : Fences where
  phase := st.phase
  inputQueue := st.inputQueue
  inputScheduled := st.inputScheduled
  inputBlocked := st.inputBlocked
  ownerFailure := st.ownerFailure
  appliedInputBytes := st.appliedInputBytes
  completedInputOperations := st.completedInputOperations
  childOpen := st.childOpen
  stopPending := st.stopPending
  childCommands := st.childCommands

theorem removeReplyOperation_fences (st : ControlState) (reply : InputReply) :
    (removeReplyOperation st reply).fences = st.fences := by
  obtain ⟨ops,retained,heq,_⟩ := removeReplyOperation_spec st reply
  rw [heq]
  rfl

theorem retainUnknownInputOperation_fences (st : ControlState) (reply : InputReply)
    (failure : ControlFailure) :
    (retainUnknownInputOperation st reply failure).fences = st.fences := by
  obtain ⟨ops,heq,_⟩ := retainUnknownInputOperation_spec st reply failure
  rw [heq]
  rfl

theorem rejectCommand_fences (st : ControlState) (error : ProtocolError) (command : InputCommand) :
    (rejectCommand st error command).1.fences = st.fences := by
  unfold rejectCommand
  split
  · exact removeReplyOperation_fences _ _
  · exact retainUnknownInputOperation_fences _ _ _

theorem rejectLoop_fences (error : ProtocolError) (st : ControlState) (queue : List InputCommand) :
    (rejectLoop error st queue).1.fences = st.fences := by
  induction queue generalizing st with
  | nil => rfl
  | cons c queue ih =>
    have hh := ih (rejectCommand st error c).1
    rw [rejectCommand_fences] at hh
    exact hh

theorem rejectQueuedInputs_fences (st : ControlState) (error : ProtocolError) :
    (rejectQueuedInputs st error).1.fences =
      { st.fences with inputQueue := [], inputScheduled := false, inputBlocked := false } :=
  rejectLoop_fences error _ _

section RejectInputs

variable (o : Owner) (st : ControlState) (error : ProtocolError)

@[simp] theorem rejectInputs_phase : (rejectInputs o st error).state.phase = st.phase :=
  congrArg Fences.phase (rejectQueuedInputs_fences st error)

@[simp] theorem rejectInputs_inputQueue : (rejectInputs o st error).state.inputQueue = [] :=
  congrArg Fences.inputQueue (rejectQueuedInputs_fences st error)

@[simp] theorem rejectInputs_inputScheduled :
    (rejectInputs o st error).state.inputScheduled = false :=
  congrArg Fences.inputScheduled (rejectQueuedInputs_fences st error)

@[simp] theorem rejectInputs_ownerFailure :
    (rejectInputs o st error).state.ownerFailure = st.ownerFailure :=
  congrArg Fences.ownerFailure (rejectQueuedInputs_fences st error)

@[simp] theorem rejectInputs_childOpen :
    (rejectInputs o st error).state.childOpen = st.childOpen :=
  congrArg Fences.childOpen (rejectQueuedInputs_fences st error)

end RejectInputs

/-- What decides whether the lane is fenced. -/
def ControlState.gate (st : ControlState) :
    ControlPhase × Bool × Option NativeServiceFailure × Option ProtocolError :=
  (st.phase,st.childOpen,st.ownerFailure,st.inputFailure)

theorem removeReplyOperation_gate (st : ControlState) (reply : InputReply) :
    (removeReplyOperation st reply).gate = st.gate := by
  obtain ⟨ops,retained,heq,_⟩ := removeReplyOperation_spec st reply
  rw [heq]
  rfl

theorem retainCompletedInputOperation_frame (st : ControlState) (reply : InputReply)
    (range : AppliedInputRange) :
    (retainCompletedInputOperation st reply range).gate = st.gate ∧
      (retainCompletedInputOperation st reply range).inputQueue = st.inputQueue ∧
      (retainCompletedInputOperation st reply range).inputScheduled = st.inputScheduled := by
  obtain ⟨ops,completed,heq,_⟩ := retainCompletedInputOperation_spec st reply range
  rw [heq]
  exact ⟨rfl,rfl,rfl⟩

structure Sound (base : HandoffInputState) (o : Owner) : Prop where
  lane : Lane base o.admitted o.settled o.wire o.state o.state.inputQueue
  opened : o.state.phase = .opened → o.state.childOpen = true
  fenced : o.state.phase ≠ .opened ∨ o.state.inputFailure.isSome ∨ o.state.ownerFailure.isSome →
    o.state.inputQueue = []
  owned : o.state.ownerFailure.isSome → o.ownerFailure.isSome

variable {base : HandoffInputState} {o : Owner}

theorem Sound.unowned (h : Sound base o) (hcell : o.ownerFailure = none) :
    o.state.ownerFailure = none := by
  cases hf : o.state.ownerFailure with
  | none => rfl
  | some reason =>
    have howned := h.owned (by simp [hf])
    simp [hcell] at howned

/-- The lane does not read the phase, the child or the wake flags. -/
theorem Lane.of_fields {admitted : List Admission} {settled : List Settlement}
    {wire : List (ℕ × List Byte)} {st st' : ControlState} {queue : List InputCommand}
    (h : Lane base admitted settled wire st queue)
    (hfail : st'.inputFailure = st.inputFailure)
    (hcommands : st'.inputCommands = st.inputCommands) (hbytes : st'.inputBytes = st.inputBytes)
    (happlied : st'.appliedInputBytes = st.appliedInputBytes)
    (hops : st'.inputOperations = st.inputOperations) :
    Lane base admitted settled wire st' queue := by
  refine ⟨h.recorded,?_,?_,?_,?_,h.waiting,h.unfinished,?_,h.clean⟩
  · rw [happlied,hfail]
    exact h.answered
  · rw [hops]
    exact h.ledger
  · rw [hcommands,h.commands]
  · rw [hbytes,h.bytes]
  · apply h.cursor_of_lookup happlied
    intro c _ key channel _
    rw [hops]

theorem sound_rejectInputs {st : ControlState}
    (hlane : Lane base o.admitted o.settled o.wire st st.inputQueue)
    (hopened : st.phase = .opened → st.childOpen = true)
    (howned : st.ownerFailure.isSome → o.ownerFailure.isSome) (error : ProtocolError) :
    Sound base (rejectInputs o st error) := by
  constructor
  · rw [rejectInputs_inputQueue]
    exact hlane.rejectQueuedInputs error
  · simpa using hopened
  · intro _
    exact rejectInputs_inputQueue o st error
  · intro hs
    rw [rejectInputs_ownerFailure] at hs
    exact howned hs

/-- A critical section that leaves the fences alone and, unless the lane is fenced
already, may change its queue. -/
theorem Sound.of_lane (h : Sound base o) {o' : Owner} (hcell : o'.ownerFailure = o.ownerFailure)
    (hgate : o'.state.gate = o.state.gate)
    (hqueue : o.state.inputQueue = [] → o'.state.inputQueue = [])
    (hlane : Lane base o'.admitted o'.settled o'.wire o'.state o'.state.inputQueue) :
    Sound base o' := by
  simp only [ControlState.gate,Prod.mk.injEq] at hgate
  obtain ⟨hphase,hchild,howner,hfail⟩ := hgate
  refine ⟨hlane,?_,?_,?_⟩
  · rw [hphase,hchild]
    exact h.opened
  · rw [hphase,hfail,howner]
    exact fun hf => hqueue (h.fenced hf)
  · rw [howner,hcell]
    exact h.owned

theorem Sound.of_control (h : Sound base o) {st : ControlState} (hgate : st.gate = o.state.gate)
    (hqueue : st.inputQueue = o.state.inputQueue)
    (hlane : Lane base o.admitted o.settled o.wire st o.state.inputQueue) :
    Sound base { o with state := st } := by
  refine h.of_lane rfl hgate ?_ ?_
  · intro hq
    rw [← hq]
    exact hqueue
  · dsimp only
    rw [hqueue]
    exact hlane

theorem sound_settleOwnerLoss (h : Sound base o) : Sound base (settleOwnerLoss o) := by
  unfold settleOwnerLoss
  split
  · exact h
  · rename_i reason hreason
    split
    · exact h
    · apply sound_rejectInputs
      · exact h.lane.of_fields rfl rfl rfl rfl rfl
      · exact h.opened
      · intro _
        rw [hreason]
        rfl

theorem sound_release (h : Sound base o) (loss : Option NativeServiceFailure) :
    Sound base (release loss o) := by
  apply sound_settleOwnerLoss
  refine ⟨h.lane,h.opened,h.fenced,?_⟩
  intro hs
  have ho := h.owned hs
  cases hf : o.ownerFailure with
  | none =>
    rw [hf] at ho
    cases ho
  | some reason => simp

theorem sound_turn (h : Sound base o) (turn : Option Turn) : Sound base { o with turn := turn } :=
  ⟨h.lane,h.opened,h.fenced,h.owned⟩

theorem removeInputOperation_completed {st : ControlState} {key : InputOperationKey}
    {request : InputOperationRequest} {range : AppliedInputRange}
    (hl : st.inputOperations.lookup key = some (.completed request range)) :
    removeInputOperation st key =
      { st with
        inputOperations := st.inputOperations.erase key
        retainedInputRequestBytes := st.retainedInputRequestBytes - request.data.length } := by
  simp [removeInputOperation,hl,InputOperationEntry.request]

theorem evictLoop_spec (limits : ResourceLimits) (newBytes : ℕ) (st : ControlState)
    (keys : List InputOperationKey) :
    ∃ ops completed retained, evictLoop limits newBytes st keys =
        { st with
          inputOperations := ops
          completedInputOperations := completed
          retainedInputRequestBytes := retained } ∧
      ∀ key, ops.lookup key = st.inputOperations.lookup key ∨ ops.lookup key = none ∧
        ∃ request range, st.inputOperations.lookup key = some (.completed request range) := by
  induction keys generalizing st with
  | nil => exact ⟨_,_,_,rfl,fun _ => Or.inl rfl⟩
  | cons k keys ih =>
    unfold evictLoop
    split
    · split
      · rename_i request range hl
        obtain ⟨ops,completed,retained,heq,hev⟩ := ih (removeInputOperation st k)
        rw [removeInputOperation_completed hl] at heq hev
        refine ⟨ops,completed,retained,?_,?_⟩
        · rw [removeInputOperation_completed hl,heq]
        · intro key
          by_cases hk : key = k
          · subst hk
            right
            refine ⟨?_,request,range,hl⟩
            rcases hev key with he | ⟨he,_⟩
            · rw [he,AList.lookup_erase]
            · exact he
          · have hne := hev key
            simpa [AList.lookup_erase_ne hk] using hne
      · exact ih st
    · exact ⟨_,_,_,rfl,fun _ => Or.inl rfl⟩

theorem evictCompletedInputResults_spec (limits : ResourceLimits) (st : ControlState)
    (newBytes : ℕ) :
    ∃ ops completed retained, evictCompletedInputResults limits st newBytes =
        { st with
          inputOperations := ops
          completedInputOperations := completed
          retainedInputRequestBytes := retained } ∧
      ∀ key, ops.lookup key = st.inputOperations.lookup key ∨ ops.lookup key = none ∧
        ∃ request range, st.inputOperations.lookup key = some (.completed request range) :=
  evictLoop_spec limits newBytes st _

/-- An admission is possible only on an open, unpoisoned lane with a live owner. -/
theorem laneRefusal_none (h : laneRefusal o = none) :
    o.state.phase = .opened ∧ o.ownerFailure = none ∧ o.state.inputFailure = none := by
  unfold laneRefusal at h
  split at h
  · cases h
  · rename_i hphase
    split at h
    · cases h
    · rename_i howner
      exact ⟨by simpa using hphase,by simpa using howner,h⟩

theorem sound_enqueueInput (h : Sound base o) (hfree : laneRefusal o = none)
    {st : ControlState} (hgate : st.gate = o.state.gate)
    (hqueue : st.inputQueue = o.state.inputQueue) (data : List Byte)
    (expected : Option ℕ) (reply : InputReply)
    (hlane : Lane base (o.admitted ++ [⟨data,expected,reply⟩]) o.settled o.wire
      (enqueueInput { o with state := st } data expected reply).state
      (o.state.inputQueue ++ [⟨data,0,reply⟩])) :
    Sound base (enqueueInput { o with state := st } data expected reply) := by
  simp only [ControlState.gate,Prod.mk.injEq] at hgate
  obtain ⟨hphase,hchild,howner,hfail⟩ := hgate
  obtain ⟨hopen,hlive,hnone⟩ := laneRefusal_none hfree
  have hunowned := h.unowned hlive
  constructor
  · simpa [enqueueInput,hqueue] using hlane
  · intro _
    simpa [enqueueInput,hchild] using h.opened hopen
  · intro hf
    simp [enqueueInput,hphase,hopen,hfail,hnone,howner,hunowned] at hf
  · intro hf
    simp [enqueueInput,howner,hunowned] at hf

theorem sound_beginInputLocked (h : Sound base o) (data : List Byte) (funded : Bool) :
    Sound base (beginInputLocked o data funded).1 := by
  unfold beginInputLocked
  split
  · exact h
  · rename_i hfree
    split
    · exact h
    · split
      · exact h
      · refine sound_enqueueInput h hfree rfl rfl data none _ ?_
        refine h.lane.enter data none rfl rfl rfl rfl rfl (fun _ _ => rfl) ?_
        intro key channel hr
        cases hr

theorem sound_beginRecoverableInputLocked (h : Sound base o) (key : InputOperationKey)
    (request : InputOperationRequest) (funded : Bool) :
    Sound base (beginRecoverableInputLocked o key request funded).1 := by
  unfold beginRecoverableInputLocked
  split
  · exact h
  · exact h
  · rename_i hretained
    have hfreeKey : o.state.inputOperations.lookup key = none := by
      unfold retainedInputResult at hretained
      split at hretained
      · assumption
      · split at hretained
        · cases hretained
        · split at hretained <;> cases hretained
    split
    · exact h
    · rename_i hfree
      obtain ⟨ops,completed,retained,heq,hev⟩ :=
        evictCompletedInputResults_spec o.resources o.state request.data.length
      have hlane := h.lane.evict hev completed retained
      have hkey : ops.lookup key = none := by
        rcases hev key with he | ⟨he,_⟩
        · rw [he,hfreeKey]
        · exact he
      have hevicted : Sound base
          { o with state := evictCompletedInputResults o.resources o.state request.data.length } := by
        rw [heq]
        refine h.of_control ?_ ?_ hlane
        · rfl
        · rfl
      dsimp only
      split
      · exact hevicted
      · split
        · exact hevicted
        · rw [heq]
          refine sound_enqueueInput h hfree ?_ ?_ request.data _ _ ?_
          · rfl
          · rfl
          refine hlane.enter request.data _ rfl rfl rfl rfl rfl ?_ ?_
          · intro key' hne
            have hk : key' ≠ key := by
              rintro rfl
              exact hne _ rfl
            exact AList.lookup_insert_ne hk
          · intro key' channel hr
            cases hr
            exact ⟨hkey,request.expectedByte,rfl,AList.lookup_insert _⟩

theorem sound_beginRecoverableInput (h : Sound base o) (key : InputOperationKey)
    (expectedByte : ℕ) (data : List Byte) (funded : Bool) :
    Sound base (beginRecoverableInput o key expectedByte data funded).1 := by
  unfold beginRecoverableInput
  split
  · exact h
  · exact sound_beginRecoverableInputLocked h key _ funded

section Progress

variable {t : Turn} {command : InputCommand} {rest : List InputCommand}

theorem Sound.front_lane (h : Sound base o) (hq : o.state.inputQueue = command::rest) :
    Lane base o.admitted o.settled o.wire o.state (command::rest) := by
  rw [← hq]
  exact h.lane

/-- A partly written front command has passed its cursor check, so the mismatch arm
never answers NotApplied for it. -/
theorem Sound.confirmed_eq_zero (h : Sound base o) (hq : o.state.inputQueue = command::rest)
    (hcursor : cursorRefused o.state command = true) : command.confirmed = 0 := by
  by_contra hne
  have hc := (h.front_lane hq).cursor command List.mem_cons_self hne
  rw [hcursor] at hc
  cases hc

theorem sound_rejectCursor (h : Sound base o) (hq : o.state.inputQueue = command::rest)
    (hcursor : cursorRefused o.state command = true) :
    Sound base (rejectCursor o t command rest) := by
  have hfront : Lane base o.admitted o.settled o.wire { o.state with inputQueue := rest }
      (command::rest) := (h.front_lane hq).of_fields rfl rfl rfl rfl rfl
  let st := releaseInputCapacity { o.state with inputQueue := rest } command.data.length
  have hqueue : (removeReplyOperation st command.reply).inputQueue = rest :=
    congrArg Fences.inputQueue (removeReplyOperation_fences st command.reply)
  refine h.of_lane rfl (removeReplyOperation_gate st command.reply) ?_ ?_
  · simp [hq]
  · have hlane := hfront.settle_notApplied (h.confirmed_eq_zero hq hcursor)
    change Lane base o.admitted _ o.wire (removeReplyOperation st command.reply)
      (removeReplyOperation st command.reply).inputQueue
    rw [hqueue]
    exact hlane _

theorem attempt_wrote_le {length written : ℕ} {w : WriteOutcome}
    (h : attempt o length w = .wrote written) : written ≤ length := by
  unfold attempt at h
  split at h
  · cases h
    omega
  · split at h
    · cases h
    · cases w with
      | wrote bytes =>
        cases h
        exact Nat.min_le_right _ _
      | wouldBlock => cases h
      | interrupted => cases h
      | failed detail => cases h
      | unwound => cases h

theorem sound_confirmWrite (h : Sound base o) (hfree : laneRefusal o = none)
    (hq : o.state.inputQueue = command::rest) (hcursor : cursorRefused o.state command = false)
    {written : ℕ} (hw : written ≤ command.data.length - command.confirmed) :
    Sound base (confirmWrite o t command rest written) := by
  obtain ⟨hopen,hlive,hnone⟩ := laneRefusal_none hfree
  have hfront := h.front_lane hq
  have hbound := hfront.recorded.bounded command (by simp)
  unfold confirmWrite
  dsimp only
  split
  · rename_i hpart
    have hlt : command.confirmed + written < command.data.length := by omega
    refine h.of_lane rfl rfl ?_ (hfront.advance hnone hcursor hlt false)
    simp [hq]
  · rename_i hfull
    have hdone : command.confirmed + written = command.data.length := by
      simpa using hfull
    have hlane := hfront.settle_ok hnone hdone (!rest.isEmpty) false
    obtain ⟨hgate,hqueue,_⟩ := retainCompletedInputOperation_frame
      (releaseInputCapacity
        { o.state with
          inputBlocked := false
          inputQueue := rest
          appliedInputBytes := o.state.appliedInputBytes + command.data.length
          inputScheduled := !rest.isEmpty } command.data.length) command.reply
      ⟨o.state.appliedInputBytes,o.state.appliedInputBytes + command.data.length⟩
    refine h.of_lane rfl hgate ?_ ?_
    · simp [hq]
    · dsimp only
      rw [hqueue]
      exact hlane

theorem sound_failWrite (h : Sound base o) (hfree : laneRefusal o = none)
    (hq : o.state.inputQueue = command::rest) (code : ErrorCode) (detail : String) :
    Sound base (failWrite o command rest code detail) := by
  obtain ⟨hopen,hlive,hnone⟩ := laneRefusal_none hfree
  have hfront : Lane base o.admitted o.settled o.wire { o.state with inputQueue := rest }
      (command::rest) := (h.front_lane hq).of_fields rfl rfl rfl rfl rfl
  have hclean : ∀ s ∈ o.settled, ¬IsUnknown s := by
    intro s hs hu
    have hp := hfront.answered.poisoned ⟨s,hs,hu⟩
    simp [hnone] at hp
  let st := releaseInputCapacity { o.state with inputQueue := rest } command.data.length
  let r := inputFailure st o.runId code detail
  let failure := { unknownFailure r.2 with confirmedInputBytes := some command.confirmed }
  have hframe := retainUnknownInputOperation_fences r.1 command.reply failure
  have hqueue : (retainUnknownInputOperation r.1 command.reply failure).inputQueue = rest :=
    congrArg Fences.inputQueue hframe
  have hphase : (retainUnknownInputOperation r.1 command.reply failure).phase = o.state.phase :=
    congrArg Fences.phase hframe
  have hchild : (retainUnknownInputOperation r.1 command.reply failure).childOpen =
      o.state.childOpen := congrArg Fences.childOpen hframe
  have howner : (retainUnknownInputOperation r.1 command.reply failure).ownerFailure =
      o.state.ownerFailure := congrArg Fences.ownerFailure hframe
  unfold failWrite
  apply sound_rejectInputs
  · rw [hqueue]
    exact hfront.settle_unknown hclean r.2 _
  · rw [hphase,hchild]
    exact h.opened
  · rw [howner]
    exact h.owned

theorem sound_writeFront (h : Sound base o) (hfree : laneRefusal o = none)
    (hq : o.state.inputQueue = command::rest) (hcursor : cursorRefused o.state command = false)
    (w : WriteOutcome) : Sound base (writeFront o t command rest w) := by
  unfold writeFront
  split
  · rename_i written hwrote
    have hle := attempt_wrote_le hwrote
    split
    · exact sound_confirmWrite h hfree hq hcursor (by omega)
    · exact sound_failWrite h hfree hq _ _
  · exact h.of_lane rfl rfl id (h.lane.of_fields rfl rfl rfl rfl rfl)
  · exact sound_turn h none
  · exact sound_failWrite h hfree hq _ _
  · exact sound_failWrite h hfree hq _ _

theorem sound_progressInput (h : Sound base o) (w : WriteOutcome) :
    Sound base (progressInput o t w) := by
  unfold progressInput
  split
  · exact sound_turn h none
  · rename_i hfree
    have hfree : laneRefusal o = none := by simpa using hfree
    split
    · exact h.of_lane rfl rfl id (h.lane.of_fields rfl rfl rfl rfl rfl)
    · rename_i command rest hq
      split
      · rename_i hcursor
        exact sound_rejectCursor h hq hcursor
      · rename_i hcursor
        exact sound_writeFront h hfree hq (by simpa using hcursor) w

end Progress

theorem sound_commitPendingStop (h : Sound base o) : Sound base (commitPendingStop o).1 := by
  unfold commitPendingStop
  dsimp only
  split
  · exact h.of_control rfl rfl (h.lane.of_fields rfl rfl rfl rfl rfl)
  · apply sound_rejectInputs
    · exact h.lane.of_fields rfl rfl rfl rfl rfl
    · intro hp
      cases hp
    · exact h.owned

theorem sound_closeInputs (h : Sound base o) {phase : ControlPhase} (hp : phase ≠ .opened)
    (error : ProtocolError) : Sound base (closeInputs o phase error) := by
  apply sound_rejectInputs
  · exact h.lane.of_fields rfl rfl rfl rfl rfl
  · intro hp'
    exact absurd hp' hp
  · exact h.owned

theorem closedPhase_ne_opened (phase : ControlPhase) : closedPhase phase ≠ .opened := by
  cases phase <;> decide

theorem sound_turnOp (h : Sound base o) (op : TurnOp) : Sound base (turnOp o op) := by
  cases op with
  | drainChildCommands => exact h.of_control rfl rfl (h.lane.of_fields rfl rfl rfl rfl rfl)
  | rejectPendingStop => exact h.of_control rfl rfl (h.lane.of_fields rfl rfl rfl rfl rfl)
  | commitPendingStop => exact sound_commitPendingStop h
  | fenceChildCommands => exact sound_closeInputs h (closedPhase_ne_opened _) _

theorem sound_turnOps (ops : List TurnOp) (h : Sound base o) : Sound base (ops.foldl turnOp o) := by
  induction ops generalizing o with
  | nil => exact h
  | cons op ops ih => exact ih (sound_turnOp h op)

/-- What an admission to the child owner comes to: a refusal without an effect, which closes a
control whose child is gone, or one more command for the child owner. -/
inductive ChildAdmission (o : Owner) : Owner × Except ControlFailure Unit → Prop
  | refused (error : ProtocolError) : ChildAdmission o (o,.error (notApplied error))
  | closed (error : ProtocolError) (opened : o.state.phase = .opened)
      (gone : o.state.childOpen = false) :
    ChildAdmission o ({ o with state := { o.state with phase := .closed } },
      .error (notApplied error))
  | entered (pending : Bool) (command : ChildCommand) :
    ChildAdmission o ({ o with
      state := pushChildCommand { o.state with stopPending := pending } command },.ok ())

theorem beginStopLocked_admission (o : Owner) : ChildAdmission o (beginStopLocked o) := by
  unfold beginStopLocked
  split
  · exact .refused _
  · split
    · exact .refused _
    · rename_i hphase
      split
      · rename_i hchild
        exact .closed _ (by simpa using hphase) (by simpa using hchild)
      · split
        · exact .refused _
        · exact .entered true .stop

theorem beginSignalLocked_admission (o : Owner) (foregroundGroup : Option ℕ) :
    ChildAdmission o (beginSignalLocked o foregroundGroup) := by
  unfold beginSignalLocked
  split
  · exact .refused _
  · split
    · exact .refused _
    · split
      · exact .refused _
      · split
        · exact .refused _
        · exact .entered o.state.stopPending _

namespace ChildAdmission

variable {result : Owner × Except ControlFailure Unit}

theorem sound (ha : ChildAdmission o result) (h : Sound base o) : Sound base result.1 := by
  cases ha with
  | refused error => exact h
  | closed error opened gone =>
    have hchild := h.opened opened
    rw [gone] at hchild
    cases hchild
  | entered pending command =>
    exact h.of_control rfl rfl (h.lane.of_fields rfl rfl rfl rfl rfl)

theorem settled (ha : ChildAdmission o result) : result.1.settled = o.settled := by
  cases ha <;> rfl

theorem notApplied {o' : Owner} {failure : ControlFailure}
    (ha : ChildAdmission o (o',.error failure)) :
    ∃ error, failure = NativeControl.notApplied error := by
  cases ha with
  | refused error => exact ⟨error,rfl⟩
  | closed error opened gone => exact ⟨error,rfl⟩

end ChildAdmission

theorem sound_cleanupUnpublished (h : Sound base o) : Sound base (cleanupUnpublished o) := by
  unfold cleanupUnpublished
  split
  · exact h
  · split
    · exact h
    · rename_i hphase
      have hopen : o.state.phase = .opened := by simpa using hphase
      dsimp only
      split
      · rename_i hchild
        simp [h.opened hopen] at hchild
      · apply sound_rejectInputs
        · exact h.lane.of_fields rfl rfl rfl rfl rfl
        · intro hp
          cases hp
        · exact h.owned

theorem sound_detachClosedDescriptors (h : Sound base o) (reap : Except String Unit) (owners : ℕ) :
    Sound base (detachClosedDescriptors o reap owners) := by
  unfold detachClosedDescriptors
  split
  · exact ⟨h.lane,h.opened,h.fenced,h.owned⟩
  · exact h

theorem sound_step (h : Sound base o) (e : Event) : Sound base (step o e) := by
  cases e with
  | beginInput data funded loss => exact sound_release (sound_beginInputLocked h data funded) loss
  | beginRecoverableInput key expectedByte data funded loss =>
    exact sound_release (sound_beginRecoverableInput h key expectedByte data funded) loss
  | beginTurn maxCommands maxBytes =>
    simp only [step]
    split
    · exact h
    · exact sound_turn h _
  | progress w loss =>
    simp only [step]
    split
    · exact h
    · split
      · exact sound_release (sound_progressInput h w) loss
      · exact sound_turn h none
  | busy => exact sound_turn h none
  | controlTurn ops loss => exact sound_release (sound_turnOps ops h) loss
  | beginStop loss => exact sound_release ((beginStopLocked_admission o).sound h) loss
  | beginSignal foregroundGroup loss =>
    exact sound_release ((beginSignalLocked_admission o foregroundGroup).sound h) loss
  | cleanupUnpublished loss => exact sound_release (sound_cleanupUnpublished h) loss
  | markClosed loss => exact sound_release (sound_closeInputs h (closedPhase_ne_opened _) _) loss
  | markWaitAuthorityLost error loss =>
    exact sound_release (sound_closeInputs h (by decide) _) loss
  | fenceOwnerLoss reason busy =>
    have hcell : Sound base { o with ownerFailure := o.ownerFailure <|> some reason } := by
      refine ⟨h.lane,h.opened,h.fenced,?_⟩
      intro _
      cases o.ownerFailure <;> rfl
    simp only [step]
    split
    · exact hcell
    · exact sound_release hcell none
  | observe loss => exact sound_release h loss
  | detachClosedDescriptors reap owners loss =>
    exact sound_release (sound_detachClosedDescriptors h reap owners) loss

theorem ledger_outcome (input : HandoffInputState) {key : InputOperationKey}
    {entry : InputOperationEntry} (h : input.ledger.lookup key = some entry) :
    entry.outcome.isSome := by
  have hfold : ∀ (operations : List HandoffInputOperation) (ops : InputOperations),
      (∀ key entry, ops.lookup key = some entry → entry.outcome.isSome) →
      ∀ key entry, (operations.foldl (fun ops operation =>
        ops.insert operation.key operation.entry) ops).lookup key = some entry →
        entry.outcome.isSome := by
    intro operations
    induction operations with
    | nil => exact fun ops hops => hops
    | cons operation operations ih =>
      intro ops hops
      apply ih
      intro key entry hl
      by_cases hk : key = operation.key
      · subst hk
        rw [AList.lookup_insert] at hl
        cases hl
        cases operation <;> rfl
      · rw [AList.lookup_insert_ne hk] at hl
        exact hops key entry hl
  refine hfold input.operations ∅ ?_ key entry h
  intro key entry hl
  simp at hl

theorem sound_new (runId : String) (resources : ResourceLimits) (input : HandoffInputState)
    (closed : Bool) : Sound input (newWithComponents runId resources input closed) := by
  constructor
  · refine ⟨?_,?_,?_,rfl,rfl,by simp [newWithComponents],by simp [newWithComponents],
      by simp [newWithComponents],by simp [newWithComponents]⟩
    · constructor <;> simp [newWithComponents]
    · constructor <;> simp [newWithComponents,Ranges]
    · constructor
      · simp [newWithComponents]
      · intro key request channel hl
        have hout := ledger_outcome input hl
        cases hout
      · intro key entry result hl _
        exact Or.inl ⟨hl,by simp [newWithComponents]⟩
  · cases closed <;> simp [newWithComponents]
  · intro _
    rfl
  · simp [newWithComponents]

/-- Every run from a new or adopted control stays sound. -/
theorem reachable_sound (runId : String) (resources : ResourceLimits) (input : HandoffInputState)
    (closed : Bool) (es : List Event) :
    Sound input (Machine.run step (newWithComponents runId resources input closed) es) :=
  Machine.run_invariant (I := Sound input) (fun _ e h => sound_step h e) (sound_new runId resources input closed) es

end NativeControl
end Ctxmux
