import Ctxmux.Dispositions
import Ctxmux.HandoffSnapshot

/-!
# The failures that an input lane reports

Across every run of a control, and across every handoff to a next daemon, a lane never
reports pressure together with an unknown outcome: pressure is an answer of the admission
checks alone, and those have touched nothing. And a range that it reports begins where its
command expected the cursor.
-/

namespace Ctxmux
namespace NativeControl

/-- A failure that says not-applied has no confirmed prefix, and an unknown one does not
blame pressure. -/
def Sayable (failure : ControlFailure) : Prop :=
  (failure.disposition = .notApplied → failure.confirmedInputBytes = none) ∧
    (failure.disposition = .unknown → failure.error.code ≠ .controlBackpressure)

theorem sayable_notApplied (error : ProtocolError) : Sayable (notApplied error) :=
  ⟨fun _ => rfl,fun hd => (nomatch hd)⟩

variable {error : ProtocolError} {settled : List Settlement} {base : HandoffInputState}
  {command : InputCommand} {start stop : ℕ} {s : Settlement} {o' : Owner}

theorem sayable_unknown (h : error.code ≠ .controlBackpressure) (confirmed : Option ℕ) :
    Sayable { unknownFailure error with confirmedInputBytes := confirmed } :=
  ⟨fun hd => (nomatch hd),fun _ => h⟩

variable {good : InputCommand → AppliedInputRange → Prop}

/-- Every failure is sayable, and every range is good for its command. -/
def SaysOnly (good : InputCommand → AppliedInputRange → Prop) (settled : List Settlement) : Prop :=
  ∀ s ∈ settled, (∀ failure, s.2 = .error failure → Sayable failure) ∧
    ∀ range, s.2 = .ok range → good s.1 range

theorem SaysOnly.append {x y : List Settlement} (hx : SaysOnly good x) (hy : SaysOnly good y) :
    SaysOnly good (x ++ y) := by
  intro s hs
  rcases List.mem_append.mp hs with hs | hs
  · exact hx s hs
  · exact hy s hs

theorem saysOnly_singleton {failure : ControlFailure} (h : Sayable failure) :
    SaysOnly good [(command,.error failure)] := by
  intro s hs
  rw [List.mem_singleton.mp hs]
  refine ⟨fun failure' hf => ?_,fun range hr => (by cases hr)⟩
  cases hf
  exact h

theorem rejectCommand_sayable (st : ControlState) (h : error.code ≠ .controlBackpressure)
    (command : InputCommand) :
    Sayable (rejectCommand st error command).2 := by
  unfold rejectCommand
  dsimp only
  split
  · exact sayable_notApplied error
  · exact sayable_unknown h _

theorem rejectLoop_saysOnly (h : error.code ≠ .controlBackpressure) (queue : List InputCommand)
    (st : ControlState) :
    SaysOnly good (rejectLoop error st queue).2 := by
  induction queue generalizing st with
  | nil => exact fun _ hs => (nomatch hs)
  | cons command queue ih =>
    have hhead : SaysOnly good [(command,.error (rejectCommand st error command).2)] :=
      saysOnly_singleton (rejectCommand_sayable st h command)
    exact hhead.append (ih (rejectCommand st error command).1)

variable {o : Owner}

theorem only_rejectInputs (hs : SaysOnly good o.settled) (st : ControlState)
    (h : error.code ≠ .controlBackpressure) : 
    SaysOnly good (rejectInputs o st error).settled :=
  hs.append (rejectLoop_saysOnly h _ _)

theorem only_release (hs : SaysOnly good o.settled) (loss : Option NativeServiceFailure) :
    SaysOnly good (release loss o).settled := by
  unfold release settleOwnerLoss
  split
  · exact hs
  · split
    · exact hs
    · exact only_rejectInputs (o := { o with ownerFailure := _ }) hs _ (fun h => (nomatch h))

theorem invalidPhaseError_code (runId : String) (phase : ControlPhase) (operation : String) :
    (invalidPhaseError runId phase operation).code ≠ .controlBackpressure := by
  cases phase <;> exact fun h => (nomatch h)

theorem beginInputLocked_settled (o : Owner) (data : List Byte) (funded : Bool) :
    (beginInputLocked o data funded).1.settled = o.settled := by
  unfold beginInputLocked
  split
  · rfl
  · split
    · rfl
    · split <;> rfl

theorem beginRecoverableInputLocked_settled (o : Owner) (key : InputOperationKey)
    (request : InputOperationRequest) (funded : Bool) :
    (beginRecoverableInputLocked o key request funded).1.settled = o.settled := by
  unfold beginRecoverableInputLocked
  split
  · rfl
  · rfl
  · split
    · rfl
    · dsimp only
      split
      · rfl
      · split <;> rfl

theorem only_failWrite (hs : SaysOnly good o.settled) (command : InputCommand)
    (rest : List InputCommand) {code : ErrorCode} (h : code ≠ .controlBackpressure)
    (detail : String) : SaysOnly good (failWrite o command rest code detail).settled := by
  unfold failWrite
  dsimp only
  apply only_rejectInputs
  · exact hs.append (saysOnly_singleton (sayable_unknown h _))
  · exact h

/-- The range that the next confirmation would report is good. -/
def ConfirmsOnly (good : InputCommand → AppliedInputRange → Prop) (o : Owner) : Prop :=
  ∀ command rest confirmed, o.state.inputQueue = command::rest →
    cursorRefused o.state command = false →
      good { command with confirmed := confirmed }
        ⟨o.state.appliedInputBytes,o.state.appliedInputBytes+command.data.length⟩

theorem only_progressInput (hs : SaysOnly good o.settled) (hgood : ConfirmsOnly good o) (t : Turn)
    (w : WriteOutcome) : SaysOnly good (progressInput o t w).settled := by
  unfold progressInput
  split
  · exact hs
  · split
    · exact hs
    · next command rest hqueue =>
      split
      · exact hs.append (saysOnly_singleton (sayable_notApplied _))
      · next hcursor =>
        have hconfirmed := hgood command rest
        unfold writeFront
        split
        · split
          · unfold confirmWrite
            dsimp only
            split
            · exact hs
            · apply hs.append
              intro s hmem
              rw [List.mem_singleton.mp hmem]
              refine ⟨fun failure hf => (by cases hf),fun range hr => ?_⟩
              cases hr
              exact hconfirmed _ hqueue (by simpa using hcursor)
          · exact only_failWrite hs command rest (by decide) _
        · exact hs
        · exact hs
        · exact only_failWrite hs command rest (by decide) _
        · exact only_failWrite hs command rest (by decide) _

theorem only_turnOp (hs : SaysOnly good o.settled) (op : TurnOp) :
    SaysOnly good (turnOp o op).settled := by
  cases op with
  | drainChildCommands => exact hs
  | rejectPendingStop => exact hs
  | commitPendingStop =>
    show SaysOnly good (commitPendingStop o).1.settled
    unfold commitPendingStop
    dsimp only
    split
    · exact hs
    · exact only_rejectInputs hs _ (fun h => (nomatch h))
  | fenceChildCommands => exact only_rejectInputs hs _ (invalidPhaseError_code _ _ _)

theorem only_turnOps (ops : List TurnOp) (hs : SaysOnly good o.settled) :
    SaysOnly good (ops.foldl turnOp o).settled := by
  induction ops generalizing o with
  | nil => exact hs
  | cons op ops ih => exact ih (only_turnOp hs op)

theorem only_cleanupUnpublished (hs : SaysOnly good o.settled) :
    SaysOnly good (cleanupUnpublished o).settled := by
  unfold cleanupUnpublished
  split
  · exact hs
  · split
    · exact hs
    · dsimp only
      split
      · exact hs
      · exact only_rejectInputs hs _ (fun h => (nomatch h))

theorem only_step (hs : SaysOnly good o.settled) (hgood : ConfirmsOnly good o) (e : Event) :
    SaysOnly good (step o e).settled := by
  cases e with
  | beginInput data funded loss =>
    apply only_release
    rw [beginInputLocked_settled]
    exact hs
  | beginRecoverableInput key expectedByte data funded loss =>
    apply only_release
    unfold beginRecoverableInput
    split
    · exact hs
    · rw [beginRecoverableInputLocked_settled]
      exact hs
  | beginTurn maxCommands maxBytes =>
    unfold step
    dsimp only
    split <;> exact hs
  | progress w loss =>
    unfold step
    dsimp only
    split
    · exact hs
    · split
      · exact only_release (only_progressInput hs hgood _ w) loss
      · exact hs
  | busy => exact hs
  | controlTurn ops loss => exact only_release (only_turnOps ops hs) loss
  | beginStop loss =>
    apply only_release
    rw [(beginStopLocked_admission o).settled]
    exact hs
  | beginSignal foregroundGroup loss =>
    apply only_release
    rw [(beginSignalLocked_admission o foregroundGroup).settled]
    exact hs
  | cleanupUnpublished loss => exact only_release (only_cleanupUnpublished hs) loss
  | markClosed loss =>
    exact only_release (only_rejectInputs hs _ (invalidPhaseError_code _ _ _)) loss
  | markWaitAuthorityLost error loss =>
    have hcode : (ProtocolError.mk .backendUnavailable error).code ≠ .controlBackpressure := by
      show ErrorCode.backendUnavailable ≠ .controlBackpressure
      decide
    exact only_release (only_rejectInputs hs _ hcode) loss
  | fenceOwnerLoss reason busy =>
    unfold step
    dsimp only
    split
    · exact hs
    · exact only_release (o := { o with ownerFailure := o.ownerFailure <|> some reason }) hs none
  | observe loss => exact only_release hs loss
  | detachClosedDescriptors reap owners loss =>
    apply only_release
    unfold detachClosedDescriptors
    split <;> exact hs

/-- The controls that a daemon can hold: a new one, one after a critical section, and one
that was adopted from the handoff of such a control. -/
inductive Reached : Owner → Prop
  | new (runId : String) (resources : ResourceLimits) (closed : Bool) :
    Reached (newWithComponents runId resources .empty closed)
  | step {o : Owner} (h : Reached o) (e : Event) : Reached (step o e)
  | adopt {o : Owner} (h : Reached o) {limits : HandoffLimits} {input : HandoffInputState}
    (hinput : handoffInputState limits o = .ok input) (runId : String) (resources : ResourceLimits)
    (closed : Bool) : Reached (newWithComponents runId resources input closed)

/-- What a ledger retains of its requests: a sayable failure whose prefix lies within the
request, or a range that begins at the expected byte and lies below the cursor. -/
def Keeps (ops : InputOperations) (applied : ℕ) : Prop :=
  (∀ key request failure, ops.lookup key = some (.unknown request failure) →
    Sayable failure ∧ ∀ confirmed, failure.confirmedInputBytes = some confirmed →
      confirmed ≤ request.data.length) ∧
  ∀ key request range, ops.lookup key = some (.completed request range) →
    range.startByte = request.expectedByte ∧
      range.endByte = request.expectedByte+request.data.length ∧ range.endByte ≤ applied

/-- What an adopted ledger retains. -/
def RetainsOnly (input : HandoffInputState) : Prop := Keeps input.ledger input.appliedInputBytes

/-- A range begins where an admission of its channel expected the cursor. -/
def Starts (admitted : List Admission) (command : InputCommand) (range : AppliedInputRange) : Prop :=
  ∀ key expected, ⟨command.data,some expected,.recoverable key command.reply.channel⟩ ∈ admitted →
    range.startByte = expected

structure Spoken (o : Owner) : Prop where
  sound : ∃ base, Sound base o ∧ RetainsOnly base
  answers : SaysOnly (Starts o.admitted) o.settled

theorem ranges_length (h : Ranges start settled stop) (hs : s ∈ settled) {range : AppliedInputRange}
    (hr : s.2 = .ok range) :
    range.endByte = range.startByte+s.1.data.length := by
  induction settled generalizing start with
  | nil => cases hs
  | cons s' settled ih =>
    unfold Ranges at h
    rcases List.mem_cons.mp hs with rfl | hs
    · rw [hr] at h
      obtain ⟨hstart,hend,-⟩ := h
      rw [hend,hstart]
    · split at h
      · exact ih h.2.2 hs
      · exact ih h hs

theorem ranges_le (h : Ranges start settled stop) :
    start ≤ stop := by
  induction settled generalizing start with
  | nil => exact le_of_eq h
  | cons s settled ih =>
    unfold Ranges at h
    split at h
    · obtain ⟨hstart,hend,hrest⟩ := h
      have hle := ih hrest
      omega
    · exact ih h

theorem ranges_below (h : Ranges start settled stop) (hs : s ∈ settled) {range : AppliedInputRange}
    (hr : s.2 = .ok range) :
    range.endByte ≤ stop := by
  induction settled generalizing start with
  | nil => cases hs
  | cons s' settled ih =>
    unfold Ranges at h
    rcases List.mem_cons.mp hs with rfl | hs
    · rw [hr] at h
      exact ranges_le h.2.2
    · split at h
      · exact ih h.2.2 hs
      · exact ih h hs

theorem ranges_unique {stop' : ℕ} (h : Ranges start settled stop) (h' : Ranges start settled stop') :
    stop = stop' := by
  induction settled generalizing start with
  | nil => exact Eq.trans (Eq.symm h) h'
  | cons s settled ih =>
    unfold Ranges at h h'
    cases hs : s.2 with
    | ok range =>
      rw [hs] at h h'
      exact ih h.2.2 h'.2.2
    | error failure =>
      rw [hs] at h h'
      exact ih h h'

theorem Sound.applied_le (h : Sound base o) (h' : Sound base o') (hext : o.settled <+: o'.settled) :
    o.state.appliedInputBytes ≤ o'.state.appliedInputBytes := by
  obtain ⟨new,hnew⟩ := hext
  have hranges := h'.lane.answered.ranges
  rw [← hnew] at hranges
  obtain ⟨middle,hold,hrest⟩ := (ranges_append _ _ _ _).mp hranges
  rw [ranges_unique h.lane.answered.ranges hold]
  exact ranges_le hrest

/-- A command of the history is an admission of its channel. -/
theorem Sound.admission (h : Sound base o)
    (hc : command ∈ o.settled.map (·.1) ++ o.state.inputQueue) :
    ∃ a ∈ o.admitted, a.data = command.data ∧ a.reply = command.reply := by
  have hmem : command.ticket ∈ o.admitted.map (·.ticket) := by
    rw [← h.lane.recorded.tickets]
    exact List.mem_map_of_mem hc
  obtain ⟨a,ha,hticket⟩ := List.mem_map.mp hmem
  exact ⟨a,ha,congrArg Prod.fst hticket,congrArg Prod.snd hticket⟩

theorem Sound.starts (h : Sound base o) (h' : Sound base o') (hext : o.admitted <+: o'.admitted)
    (hc : command ∈ o.settled.map (·.1) ++ o.state.inputQueue) {range : AppliedInputRange}
    (confirmed : ℕ) (hs : Starts o.admitted { command with confirmed := confirmed } range) :
    Starts o'.admitted { command with confirmed := confirmed } range := by
  intro key expected hmem
  obtain ⟨a,ha,-,hreply⟩ := h.admission hc
  have hsame := h'.admission_inj hmem (hext.subset ha) (congrArg InputReply.channel hreply).symm
  exact hs key expected (hsame ▸ ha)

/-- The front command confirms from where it expected the cursor. -/
theorem Sound.confirms (h : Sound base o) :
    ConfirmsOnly (Starts o.admitted) o := by
  intro command rest confirmed hqueue hcursor key expected hmem
  have hfront : command ∈ o.state.inputQueue := by rw [hqueue]; exact List.mem_cons_self
  obtain ⟨a,ha,-,hreply⟩ := h.admission (List.mem_append_right _ hfront)
  have hsame := h.admission_inj hmem ha (congrArg InputReply.channel hreply).symm
  have hkey : command.reply = .recoverable key command.reply.channel :=
    hreply.symm.trans (congrArg Admission.reply hsame).symm
  obtain ⟨e,hl,horigin⟩ := h.lane.ledger.queued_pending command.ticket
    (List.mem_map_of_mem hfront) key _ hkey
  have hadmission := h.admission_inj hmem horigin.1 rfl
  have hexpected : expected = e := by simpa using congrArg Admission.expectedByte hadmission
  rw [hexpected]
  exact (expected_eq_applied hcursor hkey hl).symm

/-- A settled failure has a prefix of its own command at most. -/
theorem Spoken.confirmed_le (h : Spoken o) (hs : s ∈ o.settled) {failure : ControlFailure}
    (hf : s.2 = .error failure) {confirmed : ℕ} (hc : failure.confirmedInputBytes = some confirmed) :
    confirmed ≤ s.1.data.length := by
  obtain ⟨base,hsound,-⟩ := h.sound
  have hhonest := hsound.lane.answered.honest s hs
  unfold Honest at hhonest
  rw [hf] at hhonest
  dsimp only at hhonest
  have hmem : s.1 ∈ o.settled.map (·.1) ++ o.state.inputQueue :=
    List.mem_append_left _ (List.mem_map_of_mem hs)
  have hbound := hsound.lane.recorded.bounded s.1 hmem
  split at hhonest
  · rw [hhonest.2] at hc
    cases hc
  · rw [hhonest] at hc
    cases hc
    exact hbound

/-- A settled range begins where its admission expected the cursor. -/
theorem Spoken.range (h : Spoken o) (hs : s ∈ o.settled) {range : AppliedInputRange}
    (hr : s.2 = .ok range) {data : List Byte} {key : InputOperationKey} {channel expected : ℕ}
    (hticket : s.1.ticket = (data,.recoverable key channel))
    (ha : ⟨data,some expected,.recoverable key channel⟩ ∈ o.admitted) :
    range.startByte = expected ∧ range.endByte = expected+data.length ∧
      range.endByte ≤ o.state.appliedInputBytes := by
  obtain ⟨base,hsound,-⟩ := h.sound
  have hdata : s.1.data = data := congrArg Prod.fst hticket
  have hreply : s.1.reply = .recoverable key channel := congrArg Prod.snd hticket
  have hstart := (h.answers s hs).2 range hr key expected (by rw [hdata,hreply]; exact ha)
  have hlength := ranges_length hsound.lane.answered.ranges hs hr
  rw [hdata,hstart] at hlength
  exact ⟨hstart,hlength,ranges_below hsound.lane.answered.ranges hs hr⟩

theorem Spoken.keeps (h : Spoken o) : Keeps o.state.inputOperations o.state.appliedInputBytes := by
  obtain ⟨base,hsound,hbase⟩ := h.sound
  have hle := ranges_le hsound.lane.answered.ranges
  constructor
  · intro key request failure hl
    rcases hsound.lane.ledger.outcome_answered key _ _ hl rfl with
      ⟨hold,-⟩ | ⟨channel,-,s,hs,hticket,hr⟩
    · exact hbase.1 key request failure hold
    · refine ⟨(h.answers s hs).1 failure hr,fun confirmed hc => ?_⟩
      have hbound := h.confirmed_le hs hr hc
      have hdata : s.1.data = request.data := congrArg Prod.fst hticket
      rwa [hdata] at hbound
  · intro key request range hl
    rcases hsound.lane.ledger.outcome_answered key _ _ hl rfl with
      ⟨hold,-⟩ | ⟨channel,horigin,s,hs,hticket,hr⟩
    · obtain ⟨hstart,hend,hbelow⟩ := hbase.2 key request range hold
      exact ⟨hstart,hend,hbelow.trans hle⟩
    · exact h.range hs hr hticket horigin.1

theorem ledger_mem (input : HandoffInputState) {key : InputOperationKey}
    {entry : InputOperationEntry} (h : input.ledger.lookup key = some entry) :
    ∃ operation ∈ input.operations, operation.key = key ∧ operation.entry = entry := by
  have hfold : ∀ (operations : List HandoffInputOperation) (ops : InputOperations),
      (operations.foldl (fun ops operation => ops.insert operation.key operation.entry) ops).lookup
          key = some entry →
        (∃ operation ∈ operations, operation.key = key ∧ operation.entry = entry) ∨
          ops.lookup key = some entry := by
    intro operations
    induction operations with
    | nil => exact fun ops hl => Or.inr hl
    | cons operation operations ih =>
      intro ops hl
      rcases ih _ hl with ⟨other,hmem,hother⟩ | hinsert
      · exact Or.inl ⟨other,List.mem_cons_of_mem _ hmem,hother⟩
      · by_cases hk : key = operation.key
        · subst hk
          rw [AList.lookup_insert] at hinsert
          exact Or.inl ⟨operation,List.mem_cons_self,rfl,Option.some.inj hinsert⟩
        · rw [AList.lookup_insert_ne hk] at hinsert
          exact Or.inr hinsert
  rcases hfold input.operations ∅ h with hmem | hempty
  · exact hmem
  · simp at hempty

theorem completedOperations_lookup {keys : List InputOperationKey}
    {operations : List HandoffInputOperation} (h : completedOperations o keys = .ok operations) :
    ∀ operation ∈ operations, o.state.inputOperations.lookup operation.key = some operation.entry := by
  induction keys generalizing operations with
  | nil =>
    cases h
    exact fun _ hmem => (nomatch hmem)
  | cons key keys ih =>
    unfold completedOperations at h
    split at h
    · next request range hl =>
      cases hrest : completedOperations o keys with
      | error message =>
        rw [hrest] at h
        cases h
      | ok rest =>
        rw [hrest] at h
        cases h
        intro operation hmem
        rcases List.mem_cons.mp hmem with rfl | hmem
        · exact hl
        · exact ih hrest operation hmem
    · cases h

/-- A handoff carries only what its control retains, at the cursor of the control. -/
theorem handoff_lookup {limits : HandoffLimits} {input : HandoffInputState}
    (hinput : handoffInputState limits o = .ok input) :
    input.appliedInputBytes = o.state.appliedInputBytes ∧
    ∀ operation ∈ input.operations,
      o.state.inputOperations.lookup operation.key = some operation.entry := by
  unfold handoffInputState at hinput
  split at hinput
  · cases hinput
  · split at hinput
    · cases hinput
    · next completed hcompleted =>
      split at hinput
      · cases hinput
      · dsimp only at hinput
        split at hinput
        · cases hinput
        · split at hinput
          · cases hinput
          · cases hinput
            refine ⟨rfl,fun operation hmem => ?_⟩
            rcases List.mem_append.mp hmem with hmem | hmem
            · exact completedOperations_lookup hcompleted operation hmem
            · obtain ⟨key,request,failure,hlookup,rfl⟩ := mem_unknownOperations.mp hmem
              exact hlookup

theorem Spoken.handoff (h : Spoken o) {limits : HandoffLimits} {input : HandoffInputState}
    (hinput : handoffInputState limits o = .ok input) : RetainsOnly input := by
  obtain ⟨happlied,hlookup⟩ := handoff_lookup hinput
  have hentry : ∀ key entry, input.ledger.lookup key = some entry →
      o.state.inputOperations.lookup key = some entry := by
    intro key entry hl
    obtain ⟨operation,hmem,hkey,hsame⟩ := ledger_mem input hl
    rw [← hkey,← hsame]
    exact hlookup operation hmem
  unfold RetainsOnly
  rw [happlied]
  exact ⟨fun key request failure hl => h.keeps.1 key request failure (hentry key _ hl),
    fun key request range hl => h.keeps.2 key request range (hentry key _ hl)⟩

theorem Spoken.grown (h : Spoken o) (hsound : Sound base o) (hsound' : Sound base o')
    (hext : o.admitted <+: o'.admitted) :
    SaysOnly (Starts o'.admitted) o.settled := by
  intro s hs
  obtain ⟨hfailure,hrange⟩ := h.answers s hs
  exact ⟨hfailure,fun range hr => hsound.starts hsound' hext
    (List.mem_append_left _ (List.mem_map_of_mem hs)) s.1.confirmed (hrange range hr)⟩

theorem Spoken.admitted (h : Spoken o) (hsound : Sound base o) (hbase : RetainsOnly base)
    (hsound' : Sound base o') (hext : Extends o o') (hsettled : o'.settled = o.settled) :
    Spoken o' :=
  ⟨⟨base,hsound',hbase⟩,hsettled ▸ h.grown hsound hsound' hext.admitted⟩

theorem Spoken.step (h : Spoken o) (e : Event) : Spoken (step o e) := by
  obtain ⟨base,hsound,hbase⟩ := h.sound
  have hsound' := sound_step hsound e
  have hext := (extends_step o e).admitted
  refine ⟨⟨base,hsound',hbase⟩,only_step (h.grown hsound hsound' hext) ?_ e⟩
  intro command rest confirmed hqueue hcursor
  refine hsound.starts hsound' hext (List.mem_append_right _ ?_) confirmed
    (hsound.confirms command rest confirmed hqueue hcursor)
  rw [hqueue]
  exact List.mem_cons_self

theorem Spoken.release (h : Spoken o) (loss : Option NativeServiceFailure) :
    Spoken (release loss o) := by
  obtain ⟨base,hsound,hbase⟩ := h.sound
  have hsound' := sound_release hsound loss
  exact ⟨⟨base,hsound',hbase⟩,
    only_release (h.grown hsound hsound' (extends_release o loss).admitted) loss⟩

theorem Reached.spoken (h : Reached o) : Spoken o := by
  induction h with
  | new runId resources closed =>
    refine ⟨⟨.empty,sound_new runId resources .empty closed,?_⟩,fun _ hs => (nomatch hs)⟩
    exact ⟨fun key request failure hl => (by cases hl),fun key request range hl => (by cases hl)⟩
  | step h e ih => exact ih.step e
  | adopt h hinput runId resources closed ih =>
    exact ⟨⟨_,sound_new runId resources _ closed,ih.handoff hinput⟩,fun _ hs => (nomatch hs)⟩

end NativeControl
end Ctxmux
