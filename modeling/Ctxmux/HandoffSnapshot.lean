import Ctxmux.HandoffImages

/-!
# The input state survives an upgrade in place

A control with nothing in flight gives a valid snapshot of its ledger, and the control
that the new image builds from it is the mirror of the old one.
-/

namespace Ctxmux
namespace NativeControl

open MapTotals

attribute [ext] ControlState

/-- The child is closed with its control, and an open control can write. -/
structure Described (o : Owner) : Prop where
  child : o.state.phase = .closed → o.state.childOpen = false
  writer : o.state.phase = .opened → o.writerOpen = true

namespace Described

variable {o o' : Owner}

theorem of_kept (h : Described o) (hphase : o'.state.phase = o.state.phase)
    (hchild : o'.state.childOpen = o.state.childOpen) (hwriter : o'.writerOpen = o.writerOpen) :
    Described o' := by
  refine ⟨fun hclosed => ?_,fun hopened => ?_⟩
  · rw [hchild]
    exact h.child (hphase ▸ hclosed)
  · rw [hwriter]
    exact h.writer (hphase ▸ hopened)

theorem of_left (hphase : o'.state.phase ≠ .opened)
    (hchild : o'.state.phase = .closed → o'.state.childOpen = false) : Described o' :=
  ⟨hchild,fun hopened => absurd hopened hphase⟩

theorem of_gate (h : Described o) (hgate : o'.state.gate = o.state.gate)
    (hwriter : o'.writerOpen = o.writerOpen) : Described o' :=
  h.of_kept (congrArg Prod.fst hgate) (congrArg (·.2.1) hgate) hwriter

theorem release (h : Described o) (loss : Option NativeServiceFailure) :
    Described (release loss o) := by
  have hlost : Described { o with ownerFailure := o.ownerFailure <|> loss } :=
    h.of_kept rfl rfl rfl
  unfold NativeControl.release settleOwnerLoss
  split
  · exact hlost
  · split
    · exact hlost
    · exact h.of_kept (by simp) (by simp) rfl

theorem beginInputLocked (h : Described o) (data : List Byte) (funded : Bool) :
    Described (beginInputLocked o data funded).1 := by
  unfold NativeControl.beginInputLocked
  split
  · exact h
  · split
    · exact h
    · split
      · exact h
      · exact h.of_kept rfl rfl rfl

theorem beginRecoverableInput (h : Described o) (key : InputOperationKey) (expectedByte : ℕ)
    (data : List Byte) (funded : Bool) :
    Described (beginRecoverableInput o key expectedByte data funded).1 := by
  unfold NativeControl.beginRecoverableInput
  split
  · exact h
  · rename_i request hrequest
    have hevicted : Described
        { o with state := evictCompletedInputResults o.resources o.state request.data.length } := by
      obtain ⟨ops,completed,bytes,heq,-⟩ :=
        evictCompletedInputResults_spec o.resources o.state request.data.length
      rw [heq]
      exact h.of_kept rfl rfl rfl
    unfold beginRecoverableInputLocked
    split
    · exact h
    · exact h
    · split
      · exact h
      · simp only
        split
        · exact hevicted
        · split
          · exact hevicted
          · exact hevicted.of_kept rfl rfl rfl

theorem failWrite (h : Described o) (command : InputCommand) (rest : List InputCommand)
    (code : ErrorCode) (detail : String) : Described (failWrite o command rest code detail) := by
  unfold NativeControl.failWrite
  refine h.of_kept ?_ ?_ rfl
  · rw [rejectInputs_phase]
    exact congrArg Fences.phase (retainUnknownInputOperation_fences _ _ _)
  · rw [rejectInputs_childOpen]
    exact congrArg Fences.childOpen (retainUnknownInputOperation_fences _ _ _)

theorem confirmWrite (h : Described o) (turn : Turn) (command : InputCommand)
    (rest : List InputCommand) (written : ℕ) :
    Described (confirmWrite o turn command rest written) := by
  unfold NativeControl.confirmWrite
  simp only
  split
  · exact h.of_kept rfl rfl rfl
  · exact h.of_gate (retainCompletedInputOperation_frame _ _ _).1 rfl

theorem progressInput (h : Described o) (turn : Turn) (w : WriteOutcome) :
    Described (progressInput o turn w) := by
  unfold NativeControl.progressInput
  split
  · exact h.of_kept rfl rfl rfl
  · split
    · exact h.of_kept rfl rfl rfl
    · split
      · exact h.of_gate (removeReplyOperation_gate _ _) rfl
      · unfold writeFront
        split
        · split
          · exact h.confirmWrite _ _ _ _
          · exact h.failWrite _ _ _ _
        · exact h.of_kept rfl rfl rfl
        · exact h.of_kept rfl rfl rfl
        · exact h.failWrite _ _ _ _
        · exact h.failWrite _ _ _ _

theorem closeInputs (o : Owner) {phase : ControlPhase} (hphase : phase ≠ .opened)
    (error : ProtocolError) : Described (closeInputs o phase error) :=
  of_left (by simpa [NativeControl.closeInputs] using hphase) (by simp [NativeControl.closeInputs])

theorem turnOp (h : Described o) (op : TurnOp) : Described (turnOp o op) := by
  cases op with
  | drainChildCommands => exact h.of_kept rfl rfl rfl
  | rejectPendingStop => exact h.of_kept rfl rfl rfl
  | commitPendingStop =>
    show Described (commitPendingStop o).1
    unfold commitPendingStop
    simp only
    split
    · exact h.of_kept rfl rfl rfl
    · exact of_left (by simp) (by simp)
  | fenceChildCommands => exact closeInputs o (closedPhase_ne_opened _) _

theorem turnOps (h : Described o) (ops : List TurnOp) :
    Described (ops.foldl NativeControl.turnOp o) := by
  induction ops generalizing o with
  | nil => exact h
  | cons op ops ih => exact ih (h.turnOp op)

theorem childAdmission (h : Described o) {result : Owner × Except ControlFailure Unit}
    (ha : ChildAdmission o result) : Described result.1 := by
  cases ha with
  | refused error => exact h
  | closed error opened gone => exact of_left (by simp) fun _ => gone
  | entered pending command => exact h.of_kept rfl rfl rfl

theorem cleanupUnpublished (h : Described o) : Described (cleanupUnpublished o) := by
  unfold NativeControl.cleanupUnpublished
  split
  · exact h
  · split
    · exact h
    · simp only
      split
      · exact of_left (by simp) (by simp)
      · exact of_left (by simp [pushChildCommand]) (by simp [pushChildCommand])

theorem quiescent {reap : Except String Unit} {owners : ℕ}
    (h : closedQuiescenceResult o reap owners = .ok ()) : o.state.phase = .closed := by
  by_contra hphase
  unfold closedQuiescenceResult at h
  cases reap with
  | error message => cases h
  | ok _ =>
    simp only at h
    rw [if_pos (by simp [hphase])] at h
    cases h

theorem detachClosedDescriptors (h : Described o) (reap : Except String Unit) (owners : ℕ) :
    Described (detachClosedDescriptors o reap owners) := by
  unfold NativeControl.detachClosedDescriptors
  split
  · rename_i hresult
    have hclosed := quiescent hresult
    exact of_left (by simp [hclosed]) h.child
  · exact h

theorem step (h : Described o) (e : Event) : Described (step o e) := by
  cases e with
  | beginInput data funded loss => exact (h.beginInputLocked data funded).release loss
  | beginRecoverableInput key expectedByte data funded loss =>
    exact (h.beginRecoverableInput key expectedByte data funded).release loss
  | beginTurn maxCommands maxBytes =>
    simp only [NativeControl.step]
    split
    · exact h
    · exact h.of_kept rfl rfl rfl
  | progress w loss =>
    simp only [NativeControl.step]
    split
    · exact h
    · split
      · exact (h.progressInput _ w).release loss
      · exact h.of_kept rfl rfl rfl
  | busy => exact h.of_kept rfl rfl rfl
  | controlTurn ops loss => exact (h.turnOps ops).release loss
  | beginStop loss => exact (h.childAdmission (beginStopLocked_admission o)).release loss
  | beginSignal foregroundGroup loss =>
    exact (h.childAdmission (beginSignalLocked_admission o foregroundGroup)).release loss
  | cleanupUnpublished loss => exact h.cleanupUnpublished.release loss
  | markClosed loss => exact (closeInputs o (closedPhase_ne_opened _) _).release loss
  | markWaitAuthorityLost error loss => exact (closeInputs o (by simp) _).release loss
  | fenceOwnerLoss reason busy =>
    have hlost : Described { o with ownerFailure := o.ownerFailure <|> some reason } :=
      h.of_kept rfl rfl rfl
    simp only [NativeControl.step]
    split
    · exact hlost
    · exact hlost.release none
  | observe loss => exact h.release loss
  | detachClosedDescriptors reap owners loss =>
    exact (h.detachClosedDescriptors reap owners).release loss

end Described

theorem reached_described (runId : String) (limits : HandoffLimits) (input : AdoptedInput limits)
    (closed : Bool) (events : List Event) : Described (reached runId limits input closed events) := by
  have hstart : Described (adopt runId limits input closed) := by
    cases closed with
    | true => exact ⟨fun _ => rfl,fun h => nomatch h⟩
    | false => exact ⟨(fun h => nomatch h),fun _ => rfl⟩
  exact Machine.run_invariant (fun _ e h => h.step e) hstart events

/-- Nothing is in flight. -/
structure Quiet (o : Owner) : Prop where
  queue : o.state.inputQueue = []
  unscheduled : o.state.inputScheduled = false
  stop : o.state.stopPending = false
  child : o.state.childCommands = []
  phase : o.state.phase = .opened ∨ o.state.phase = .closed

def completedOperation (ops : InputOperations) (key : InputOperationKey) :
    Option HandoffInputOperation :=
  match ops.lookup key with
  | some (.completed request range) => some (.completed key request.expectedByte request.data range)
  | _ => none

/-- The settled operations of a control: the completed ones in their order, then the
unknown ones. -/
def settledOperations (o : Owner) : List HandoffInputOperation :=
  o.state.completedInputOperations.filterMap (completedOperation o.state.inputOperations) ++
    unknownOperations o

def inputSnapshot (o : Owner) : HandoffInputState :=
  ⟨o.state.appliedInputBytes,o.state.inputFailure,settledOperations o⟩

section Snapshot

variable {o : Owner} {limits : HandoffLimits} {base : HandoffInputState} {key : InputOperationKey}
  {entry : InputOperationEntry} {operation : HandoffInputOperation} {keys : List InputOperationKey}

theorem completedOperation_eq : completedOperation o.state.inputOperations key = some operation ↔
    ∃ request range, o.state.inputOperations.lookup key = some (.completed request range) ∧
      operation = .completed key request.expectedByte request.data range := by
  unfold completedOperation
  split
  · rename_i request range hl
    constructor
    · intro h
      cases h
      exact ⟨request,range,hl,rfl⟩
    · rintro ⟨request',range',hl',rfl⟩
      rw [hl] at hl'
      cases hl'
      rfl
  · rename_i hother
    constructor
    · intro h
      cases h
    · rintro ⟨request,range,hl,-⟩
      exact absurd hl (hother request range)

theorem mem_unknownOperations : operation ∈ unknownOperations o ↔
    ∃ key request failure, o.state.inputOperations.lookup key = some (.unknown request failure) ∧
      operation = .unknown key request.expectedByte request.data failure := by
  unfold unknownOperations
  rw [(List.perm_insertionSort KeyBefore _).mem_iff,List.mem_filterMap]
  constructor
  · rintro ⟨⟨key,entry⟩,hentry,hop⟩
    cases entry with
    | pending request channel => cases hop
    | completed request range => cases hop
    | unknown request failure =>
      cases hop
      exact ⟨key,request,failure,AList.mem_lookup_iff.mpr hentry,rfl⟩
  · rintro ⟨key,request,failure,hl,rfl⟩
    exact ⟨⟨key,.unknown request failure⟩,AList.mem_lookup_iff.mp hl,rfl⟩

theorem completedOperations_eq
    (h : ∀ key ∈ keys, ∃ request range,
      o.state.inputOperations.lookup key = some (.completed request range)) :
    completedOperations o keys =
      .ok (keys.filterMap (completedOperation o.state.inputOperations)) := by
  induction keys with
  | nil => rfl
  | cons key keys ih =>
    obtain ⟨request,range,hl⟩ := h key (by simp)
    rw [List.filterMap_cons_some (completedOperation_eq.mpr ⟨request,range,hl,rfl⟩)]
    simp only [completedOperations,hl,ih fun other hother => h other (by simp [hother])]
    rfl

theorem Booked.settled (h : Booked limits base o) (hquiet : Quiet o) {request : InputOperationRequest}
    {channel : ℕ} : o.state.inputOperations.lookup key ≠ some (.pending request channel) := by
  intro hl
  obtain ⟨command,hcommand,-⟩ := (h.ledger.pending key).mp ⟨request,channel,hl⟩
  rw [hquiet.queue] at hcommand
  cases hcommand

theorem mem_settledOperations (h : Booked limits base o) (hquiet : Quiet o) :
    (∃ operation ∈ settledOperations o, operation.key = key ∧ operation.entry = entry) ↔
      o.state.inputOperations.lookup key = some entry := by
  constructor
  · rintro ⟨operation,hop,rfl,rfl⟩
    rcases List.mem_append.mp hop with hop | hop
    · obtain ⟨key,-,hcompleted⟩ := List.mem_filterMap.mp hop
      obtain ⟨request,range,hl,rfl⟩ := completedOperation_eq.mp hcompleted
      exact hl
    · obtain ⟨key,request,failure,hl,rfl⟩ := mem_unknownOperations.mp hop
      exact hl
  · intro hl
    cases entry with
    | pending request channel => exact absurd hl (h.settled hquiet)
    | completed request range =>
      refine ⟨_,List.mem_append_left _ (List.mem_filterMap.mpr
        ⟨key,(h.balanced.keys key).mpr ⟨request,range,hl⟩,completedOperation_eq.mpr
          ⟨request,range,hl,rfl⟩⟩),rfl,rfl⟩
    | unknown request failure =>
      exact ⟨_,List.mem_append_right _ (mem_unknownOperations.mpr ⟨key,request,failure,hl,rfl⟩),
        rfl,rfl⟩

theorem filterMap_keys
    (h : ∀ key ∈ keys, ∃ request range,
      o.state.inputOperations.lookup key = some (.completed request range)) :
    (keys.filterMap (completedOperation o.state.inputOperations)).map (·.key) = keys := by
  induction keys with
  | nil => rfl
  | cons key keys ih =>
    obtain ⟨request,range,hl⟩ := h key (by simp)
    rw [List.filterMap_cons_some (completedOperation_eq.mpr ⟨request,range,hl,rfl⟩),List.map_cons,
      ih fun other hother => h other (by simp [hother])]
    rfl

theorem completed_keys (h : Booked limits base o) :
    (o.state.completedInputOperations.filterMap
      (completedOperation o.state.inputOperations)).map (·.key) = o.state.completedInputOperations :=
  filterMap_keys fun key => (h.ledger.completed key).mp

theorem unknownOperations_length (h : Booked limits base o) : (unknownOperations o).length ≤ 1 := by
  have hnodup : ((unknownOperations o).map (·.key)).Nodup := by
    have hperm := (List.perm_insertionSort KeyBefore
      (o.state.inputOperations.entries.filterMap unknownOperation)).map (·.key)
    refine hperm.nodup_iff.mpr ?_
    have hsub : List.Sublist ((o.state.inputOperations.entries.filterMap unknownOperation).map (·.key))
        o.state.inputOperations.keys := by
      unfold AList.keys List.keys
      induction o.state.inputOperations.entries with
      | nil => exact List.Sublist.slnil
      | cons e entries ih =>
        obtain ⟨key,entry⟩ := e
        cases entry with
        | pending request channel => exact ih.cons key
        | completed request range => exact ih.cons key
        | unknown request failure => exact ih.cons_cons key
    exact o.state.inputOperations.keys_nodup.sublist hsub
  match hlist : unknownOperations o with
  | [] => simp
  | [_] => simp
  | a::b::rest =>
    have ha : a ∈ unknownOperations o := by simp [hlist]
    have hb : b ∈ unknownOperations o := by simp [hlist]
    obtain ⟨key,request,failure,hl,rfl⟩ := mem_unknownOperations.mp ha
    obtain ⟨key',request',failure',hl',rfl⟩ := mem_unknownOperations.mp hb
    have heq := h.balanced.one key key' request request' failure failure' hl hl'
    rw [hlist] at hnodup
    simp [HandoffInputOperation.key,heq] at hnodup

theorem settledOperations_keys (h : Booked limits base o) :
    ((settledOperations o).map (·.key)).Nodup := by
  unfold settledOperations
  rw [List.map_append,completed_keys h,List.nodup_append]
  refine ⟨h.balanced.nodup,?_,?_⟩
  · match hlist : unknownOperations o with
    | [] => simp
    | [_] => simp
    | a::b::rest =>
      have := unknownOperations_length h
      simp [hlist] at this
  · intro key hkey key' hkey' heq
    subst heq
    obtain ⟨operation,hop,rfl⟩ := List.mem_map.mp hkey'
    obtain ⟨key,request,failure,hl,rfl⟩ := mem_unknownOperations.mp hop
    obtain ⟨request',range,hl'⟩ := (h.ledger.completed key).mp hkey
    rw [hl] at hl'
    cases hl'

def HandoffInputOperation.keyed (operation : HandoffInputOperation) :
    Sigma fun _ : InputOperationKey => InputOperationEntry := ⟨operation.key,operation.entry⟩

theorem settledOperations_perm (h : Booked limits base o) (hquiet : Quiet o) :
    ((settledOperations o).map (·.keyed)).Perm o.state.inputOperations.entries := by
  have hnodup : ((settledOperations o).map (·.keyed)).Nodup := by
    refine List.Nodup.of_map Sigma.fst ?_
    rw [List.map_map]
    exact settledOperations_keys h
  refine (List.perm_ext_iff_of_nodup hnodup
    (List.NodupKeys.nodup o.state.inputOperations.nodupKeys)).mpr fun e => ?_
  obtain ⟨key,entry⟩ := e
  have hlookup : o.state.inputOperations.lookup key = some entry ↔
      (⟨key,entry⟩ : Sigma fun _ => _) ∈ o.state.inputOperations.entries := AList.mem_lookup_iff
  rw [List.mem_map,← hlookup,← mem_settledOperations h hquiet]
  constructor
  · rintro ⟨operation,hop,heq⟩
    cases heq
    exact ⟨operation,hop,rfl,rfl⟩
  · rintro ⟨operation,hop,rfl,rfl⟩
    exact ⟨operation,hop,rfl⟩

theorem orderedFrom_unknown {finish : ℕ} {operations : List HandoffInputOperation}
    (h : ∀ operation ∈ operations, operation.isUnknown = true) : OrderedFrom finish operations := by
  induction operations with
  | nil => trivial
  | cons operation operations ih =>
    cases operation with
    | completed key expectedByte data range => cases h (.completed key expectedByte data range) (by simp)
    | unknown key expectedByte data failure => exact ih fun other hother => h other (by simp [hother])

theorem orderedFrom_completed {finish : ℕ} {unknown : List HandoffInputOperation}
    (hunknown : ∀ operation ∈ unknown, operation.isUnknown = true)
    (hkeys : ∀ key ∈ keys, ∃ request range,
      o.state.inputOperations.lookup key = some (.completed request range) ∧ finish ≤ range.startByte)
    (hordered : keys.Pairwise (AppliedBefore o.state.inputOperations)) :
    OrderedFrom finish
      (keys.filterMap (completedOperation o.state.inputOperations) ++ unknown) := by
  induction keys generalizing finish with
  | nil => exact orderedFrom_unknown hunknown
  | cons key keys ih =>
    obtain ⟨request,range,hl,hfinish⟩ := hkeys key (by simp)
    obtain ⟨hfirst,hrest⟩ := List.pairwise_cons.mp hordered
    rw [List.filterMap_cons_some (completedOperation_eq.mpr ⟨request,range,hl,rfl⟩)]
    refine ⟨hfinish,ih (fun other hother => ?_) hrest⟩
    obtain ⟨request',range',hl',-⟩ := hkeys other (by simp [hother])
    exact ⟨request',range',hl',hfirst other hother request range request' range' hl hl'⟩

theorem inputSnapshot_validated (h : Booked limits base o) (hquiet : Quiet o) :
    Validated limits (inputSnapshot o) := by
  have hperm := settledOperations_perm h hquiet
  have hlookup : ∀ operation ∈ settledOperations o,
      o.state.inputOperations.lookup operation.key = some operation.entry := fun operation hop =>
    (mem_settledOperations h hquiet).mp ⟨operation,hop,rfl,rfl⟩
  have hresources := h.resources
  refine ⟨?_,fun operation hop => ?_,fun operation hop => ?_,?_,settledOperations_keys h,?_,?_⟩
  · have hlength := hperm.length_eq
    rw [List.length_map] at hlength
    have := h.balanced.entries
    rw [hresources] at this
    exact hlength.trans_le this
  · have hl := hlookup operation hop
    cases operation with
    | completed key expectedByte data range => exact h.balanced.ranges key _ range hl
    | unknown key expectedByte data failure => exact h.balanced.unknown key _ failure hl
  · have hrequests := h.balanced.requests operation.key operation.entry (hlookup operation hop)
    rw [entry_request_data] at hrequests
    exact hrequests
  · refine orderedFrom_completed (fun operation hop => ?_) (fun key hkey => ?_) h.balanced.ordered
    · obtain ⟨key,request,failure,-,rfl⟩ := mem_unknownOperations.mp hop
      rfl
    · obtain ⟨request,range,hl⟩ := (h.ledger.completed key).mp hkey
      exact ⟨request,range,hl,Nat.zero_le _⟩
  · show ((settledOperations o).map (·.data.length)).sum ≤ _
    have hsum := (hperm.map fun e => e.2.request.data.length).sum_eq
    rw [List.map_map] at hsum
    have hretained := h.ledger.retained
    have hbound := h.ledger.retainedBound
    rw [hresources,hretained,← hsum] at hbound
    simpa [Function.comp_def,HandoffInputOperation.keyed,entry_request_data] using hbound
  · show (settledOperations o).countP (·.isUnknown) ≤ 1
    unfold settledOperations
    rw [List.countP_append]
    have hnone : (o.state.completedInputOperations.filterMap
        (completedOperation o.state.inputOperations)).countP (·.isUnknown) = 0 := by
      refine List.countP_eq_zero.mpr fun operation hop => ?_
      obtain ⟨key,-,hcompleted⟩ := List.mem_filterMap.mp hop
      obtain ⟨request,range,-,rfl⟩ := completedOperation_eq.mp hcompleted
      simp [HandoffInputOperation.isUnknown]
    have hlength := unknownOperations_length h
    have hcount := List.countP_le_length (p := (·.isUnknown)) (l := unknownOperations o)
    omega

/-- A quiet control hands off its snapshot unless the funding of the owner is exceeded. -/
theorem handoffInputState_quiet (h : Booked limits base o) (hquiet : Quiet o) :
    handoffInputState limits o =
      if limits.controlStateBytes < (inputSnapshot o).controlMemoryBytes limits then
        .error HandoffInputState.fundingError else .ok (inputSnapshot o) := by
  have hcrossing : handoffCrossing o = none := by
    have hcommands : o.state.inputCommands = 0 := by rw [h.ledger.commands,hquiet.queue]; rfl
    have hbytes : o.state.inputBytes = 0 := by rw [h.ledger.bytes,hquiet.queue]; rfl
    unfold handoffCrossing
    rw [if_neg]
    rcases hquiet.phase with hphase | hphase <;>
      simp [hphase,hquiet.queue,hquiet.unscheduled,hquiet.stop,hquiet.child,hcommands,hbytes]
  have hpending : o.state.inputOperations.entries.any (·.2.isPending) = false := by
    rw [List.any_eq_false]
    rintro ⟨key,entry⟩ hentry
    cases entry with
    | pending request channel => exact absurd (AList.mem_lookup_iff.mpr hentry) (h.settled hquiet)
    | completed request range => simp [InputOperationEntry.isPending]
    | unknown request failure => simp [InputOperationEntry.isPending]
  have hlength := (settledOperations_perm h hquiet).length_eq
  rw [List.length_map] at hlength
  have hcomplete : ¬(o.state.completedInputOperations.filterMap
      (completedOperation o.state.inputOperations) ++ unknownOperations o).length ≠
        o.state.inputOperations.entries.length := not_not_intro hlength
  have hvalidate := (inputSnapshot_validated h hquiet).validate
  simp only [handoffInputState,hcrossing,
    completedOperations_eq fun key => (h.ledger.completed key).mp,hpending,Bool.false_eq_true,if_false,
    if_neg hcomplete]
  have hsnapshot : inputSnapshot o =
      { appliedInputBytes := o.state.appliedInputBytes
        inputFailure := o.state.inputFailure
        operations := o.state.completedInputOperations.filterMap
          (completedOperation o.state.inputOperations) ++ unknownOperations o } := rfl
  rw [← hsnapshot,hvalidate]
  by_cases hfunding : limits.controlStateBytes < (inputSnapshot o).controlMemoryBytes limits
  · rw [if_pos hfunding,if_pos hfunding]
  · rw [if_neg hfunding,if_neg hfunding]

/-- Two ledgers with the same entries have the same unknown operations. -/
theorem unknownOperations_congr {n : Owner} (h : Booked limits base o)
    (hlookup : ∀ key, n.state.inputOperations.lookup key = o.state.inputOperations.lookup key) :
    unknownOperations n = unknownOperations o := by
  have hentries : n.state.inputOperations.entries.Perm o.state.inputOperations.entries := by
    refine (List.perm_ext_iff_of_nodup (List.NodupKeys.nodup n.state.inputOperations.nodupKeys)
      (List.NodupKeys.nodup o.state.inputOperations.nodupKeys)).mpr fun e => ?_
    obtain ⟨key,entry⟩ := e
    rw [← AList.mem_lookup_iff,← AList.mem_lookup_iff,hlookup]
  have hperm : (unknownOperations n).Perm (unknownOperations o) :=
    ((List.perm_insertionSort KeyBefore _).trans (hentries.filterMap unknownOperation)).trans
      (List.perm_insertionSort KeyBefore _).symm
  match hlist : unknownOperations o with
  | [] =>
    rw [hlist] at hperm
    exact hperm.eq_nil
  | [operation] =>
    rw [hlist] at hperm
    exact List.perm_singleton.mp hperm
  | a::b::rest =>
    have := unknownOperations_length h
    simp [hlist] at this

/-- The control that the new image builds. -/
def rebuilt (limits : HandoffLimits) (o : Owner) (input : AdoptedInput limits) : Owner :=
  adopt o.runId limits input (o.state.phase = .closed)

section Rebuild

variable (hok : (inputSnapshot o).validateWithResources limits = .ok ())

section

variable (h : Booked limits base o)
include h

theorem rebuilt_lookup (hquiet : Quiet o) (key : InputOperationKey) :
    (rebuilt limits o ⟨inputSnapshot o,hok⟩).state.inputOperations.lookup key =
      o.state.inputOperations.lookup key := by
  refine Option.ext fun entry => ?_
  have hrebuilt : (inputSnapshot o).ledger.lookup key = some entry ↔
      ∃ operation ∈ settledOperations o, operation.key = key ∧ operation.entry = entry :=
    (inputSnapshot_validated h hquiet).lookup
  exact hrebuilt.trans (mem_settledOperations h hquiet)

theorem rebuilt_completed :
    (rebuilt limits o ⟨inputSnapshot o,hok⟩).state.completedInputOperations =
      o.state.completedInputOperations := by
  show ((settledOperations o).filter fun operation => operation.entry.isCompleted).map (·.key) = _
  unfold settledOperations
  rw [List.filter_append]
  have hcompleted : (o.state.completedInputOperations.filterMap
      (completedOperation o.state.inputOperations)).filter
        (fun operation => operation.entry.isCompleted) =
      o.state.completedInputOperations.filterMap (completedOperation o.state.inputOperations) := by
    refine List.filter_eq_self.mpr fun operation hop => ?_
    obtain ⟨key,-,hkey⟩ := List.mem_filterMap.mp hop
    obtain ⟨request,range,-,rfl⟩ := completedOperation_eq.mp hkey
    rfl
  have hunknown : (unknownOperations o).filter (fun operation => operation.entry.isCompleted) = [] := by
    refine List.filter_eq_nil_iff.mpr fun operation hop => ?_
    obtain ⟨key,request,failure,-,rfl⟩ := mem_unknownOperations.mp hop
    simp [HandoffInputOperation.entry,InputOperationEntry.isCompleted]
  rw [hcompleted,hunknown,List.append_nil,completed_keys h]

theorem rebuilt_retained (hquiet : Quiet o) :
    (rebuilt limits o ⟨inputSnapshot o,hok⟩).state.retainedInputRequestBytes =
      o.state.retainedInputRequestBytes := by
  have hsum := ((settledOperations_perm h hquiet).map fun e => e.2.request.data.length).sum_eq
  rw [List.map_map] at hsum
  rw [h.ledger.retained]
  exact hsum

theorem rebuilt_snapshot (hquiet : Quiet o) :
    inputSnapshot (rebuilt limits o ⟨inputSnapshot o,hok⟩) = inputSnapshot o := by
  have hlookup := rebuilt_lookup hok h hquiet
  have hcompleted : completedOperation
      (rebuilt limits o ⟨inputSnapshot o,hok⟩).state.inputOperations =
        completedOperation o.state.inputOperations := by
    funext key
    unfold completedOperation
    rw [hlookup key]
  have hsettled : settledOperations (rebuilt limits o ⟨inputSnapshot o,hok⟩) = settledOperations o := by
    unfold settledOperations
    rw [rebuilt_completed hok h,unknownOperations_congr h hlookup,hcompleted]
  exact congrArg (HandoffInputState.mk o.state.appliedInputBytes o.state.inputFailure) hsettled

theorem rebuilt_handoff (hquiet : Quiet o)
    (hfunded : (inputSnapshot o).controlMemoryBytes limits ≤ limits.controlStateBytes) :
    handoffInputState limits (rebuilt limits o ⟨inputSnapshot o,hok⟩) = .ok (inputSnapshot o) := by
  have hbooked : Booked limits (inputSnapshot o) (rebuilt limits o ⟨inputSnapshot o,hok⟩) :=
    reached_booked o.runId limits ⟨inputSnapshot o,hok⟩ _ []
  have hphase : (rebuilt limits o ⟨inputSnapshot o,hok⟩).state.phase = .opened ∨
      (rebuilt limits o ⟨inputSnapshot o,hok⟩).state.phase = .closed := by
    by_cases hclosed : o.state.phase = .closed
    · exact .inr (by simp [rebuilt,adopt,newWithComponents,hclosed])
    · exact .inl (by simp [rebuilt,adopt,newWithComponents,hclosed])
  rw [handoffInputState_quiet hbooked ⟨rfl,rfl,rfl,rfl,hphase⟩,rebuilt_snapshot hok h hquiet,
    if_neg (Nat.not_lt.mpr hfunded)]

theorem rebuilt_mirrors (hd : Described o) (hquiet : Quiet o) (hlive : o.ownerFailure = none) :
    Mirrors o.admitted.length o.settled { o with turn := none }
      (rebuilt limits o ⟨inputSnapshot o,hok⟩) := by
  have hlookup := rebuilt_lookup hok h hquiet
  have hcompleted := rebuilt_completed hok h
  have hretained := rebuilt_retained hok h hquiet
  have hcommands : o.state.inputCommands = 0 := by rw [h.ledger.commands,hquiet.queue]; rfl
  have hbytes : o.state.inputBytes = 0 := by rw [h.ledger.bytes,hquiet.queue]; rfl
  have hphase : (rebuilt limits o ⟨inputSnapshot o,hok⟩).state.phase = o.state.phase := by
    rcases hquiet.phase with hphase | hphase <;> simp [rebuilt,adopt,newWithComponents,hphase]
  have hchild : (rebuilt limits o ⟨inputSnapshot o,hok⟩).state.childOpen = o.state.childOpen := by
    rcases hquiet.phase with hphase | hphase
    · rw [h.sound.opened hphase]
      simp [rebuilt,adopt,newWithComponents,hphase]
    · rw [hd.child hphase]
      simp [rebuilt,adopt,newWithComponents,hphase]
  have hstate : Mirror o.admitted.length o.state (rebuilt limits o ⟨inputSnapshot o,hok⟩).state := by
    refine ⟨o.state.inputOperations,o.state.inputBlocked,?_,fun key => ?_⟩
    · exact ControlState.ext hphase.symm rfl hquiet.queue hcommands hbytes hquiet.unscheduled rfl
        (h.sound.unowned hlive) rfl rfl hcompleted.symm hretained.symm hchild.symm hquiet.stop
        hquiet.child
    · rw [hlookup]
      cases hl : o.state.inputOperations.lookup key with
      | none => rfl
      | some entry =>
        cases entry with
        | pending request channel => exact absurd hl (h.settled hquiet)
        | completed request range => rfl
        | unknown request failure => rfl
  refine ⟨rfl,h.resources,hstate,hlive,rfl,fun hopened => ?_,by simp [rebuilt,adopt,newWithComponents],
    by simp [rebuilt,adopt,newWithComponents]⟩
  rw [hphase] at hopened
  rw [hd.writer hopened]
  simp [rebuilt,adopt,newWithComponents,hopened]

end

end Rebuild

/-- What the new image keeps of the old control. -/
structure Preserved (old new : ControlState) : Prop where
  applied : new.appliedInputBytes = old.appliedInputBytes
  failure : new.inputFailure = old.inputFailure
  entries : ∀ key, new.inputOperations.lookup key = old.inputOperations.lookup key
  completed : new.completedInputOperations = old.completedInputOperations
  retained : new.retainedInputRequestBytes = old.retainedInputRequestBytes

/-- The answers of the two images after the same events: the new image numbers its reply
channels from zero, and it settles the commands admitted since with the same results. -/
structure SameAnswers (old new : Owner) : Prop where
  request : ∀ events key expectedByte data funded,
    (beginRecoverableInput (Machine.run step old events) key expectedByte data funded).2 =
      (beginRecoverableInput (Machine.run step new events) key expectedByte data funded).2.map
        (·.shift old.admitted.length)
  settled : ∀ events, (Machine.run step old events).settled =
    old.settled ++ (Machine.run step new events).settled.map (shiftSettlement old.admitted.length)

/-- The snapshot is refused only for its funding, it is valid, and the control built from it
has the same ledger and gives the same snapshot. Under a live owner it answers every later
request as the old control would have, once the turn of the old owner is over. -/
structure Survives (limits : HandoffLimits) (o : Owner) : Prop where
  handoff : handoffInputState limits o =
    if limits.controlStateBytes < (inputSnapshot o).controlMemoryBytes limits then
      .error HandoffInputState.fundingError else .ok (inputSnapshot o)
  rebuild : (inputSnapshot o).controlMemoryBytes limits ≤ limits.controlStateBytes →
    ∃ hok : (inputSnapshot o).validateWithResources limits = .ok (),
      Preserved o.state (rebuilt limits o ⟨inputSnapshot o,hok⟩).state ∧
      handoffInputState limits (rebuilt limits o ⟨inputSnapshot o,hok⟩) = .ok (inputSnapshot o) ∧
      (o.ownerFailure = none →
        SameAnswers { o with turn := none } (rebuilt limits o ⟨inputSnapshot o,hok⟩))

end Snapshot

theorem input_state_survives_handoff (runId : String) (limits : HandoffLimits)
    (input : AdoptedInput limits) (closed : Bool) (events : List Event)
    (hquiet : Quiet (reached runId limits input closed events)) :
    Survives limits (reached runId limits input closed events) := by
  have h := reached_booked runId limits input closed events
  have hd := reached_described runId limits input closed events
  refine ⟨handoffInputState_quiet h hquiet,fun hfunded => ?_⟩
  have hok : (inputSnapshot (reached runId limits input closed events)).validateWithResources limits =
      .ok () := by
    rw [(inputSnapshot_validated h hquiet).validate,if_neg (Nat.not_lt.mpr hfunded)]
  refine ⟨hok,?_,rebuilt_handoff hok h hquiet hfunded,fun hlive => ?_⟩
  · exact ⟨rfl,rfl,rebuilt_lookup hok h hquiet,rebuilt_completed hok h,rebuilt_retained hok h hquiet⟩
  · have hmirrors := rebuilt_mirrors hok h hd hquiet hlive
    exact ⟨fun later key expectedByte data funded =>
      ((hmirrors.run later).beginRecoverableInput key expectedByte data funded).2,
      fun later => (hmirrors.run later).settled⟩

def upgradeLimits : HandoffLimits := ⟨⟨4,64,4,64⟩,1048576,256,by decide⟩

def freshInput : AdoptedInput upgradeLimits := ⟨HandoffInputState.empty,rfl⟩

/-- One recoverable input, written by one turn of the owner. -/
def appliedRun : List Event :=
  [.beginRecoverableInput "key" 0 [104,105] true none,.beginTurn 4 64,.progress (.wrote 2) none,
    .progress (.wrote 0) none]

theorem applied_input_survives_handoff :
    Quiet (reached "run" upgradeLimits freshInput false appliedRun) ∧
      Survives upgradeLimits (reached "run" upgradeLimits freshInput false appliedRun) ∧
      inputSnapshot (reached "run" upgradeLimits freshInput false appliedRun) =
        ⟨2,none,[.completed "key" 0 [104,105] ⟨0,2⟩]⟩ := by
  have hquiet : Quiet (reached "run" upgradeLimits freshInput false appliedRun) :=
    ⟨by decide,by decide,by decide,by decide,by decide⟩
  exact ⟨hquiet,input_state_survives_handoff "run" upgradeLimits freshInput false appliedRun hquiet,
    by decide⟩

/-- The daemon-wide owner of the old image is lost. -/
def lostOwner : Owner :=
  reached "run" upgradeLimits freshInput false [.fenceOwnerLoss .ownerStopped false]

/-- A recoverable input with a wrong cursor, refused by the last iteration of a turn. -/
def staleOwner : Owner :=
  reached "run" upgradeLimits freshInput false
    [.beginRecoverableInput "key" 5 [104] true none,.beginTurn 1 64,.progress (.wrote 1) none,
      .progress (.wrote 1) none]

/-- A control whose owner is lost hands off a snapshot, but it refuses a request that the
control built from the snapshot takes. A control with a stale wake flag hands off nothing. -/
theorem lost_owner_changes_answer :
    (Quiet lostOwner ∧ ∃ hok : (inputSnapshot lostOwner).validateWithResources upgradeLimits = .ok (),
      handoffInputState upgradeLimits lostOwner = .ok (inputSnapshot lostOwner) ∧
      (beginRecoverableInput lostOwner "key" 0 [104,105] true).2 =
        .error (notApplied ownerStoppedError) ∧
      (beginRecoverableInput (rebuilt upgradeLimits lostOwner ⟨inputSnapshot lostOwner,hok⟩)
        "key" 0 [104,105] true).2 = .ok (.pending 0)) ∧
    staleOwner.state.inputQueue = [] ∧ staleOwner.state.stopPending = false ∧
      staleOwner.state.childCommands = [] ∧ staleOwner.state.phase = .opened ∧
      handoffInputState upgradeLimits staleOwner =
        .error "Run run still has a crossing native control at handoff" := by
  refine ⟨⟨⟨by decide,by decide,by decide,by decide,by decide⟩,rfl,by rfl,by decide,by decide⟩,
    by decide,by decide,by decide,by decide,by rfl⟩

end NativeControl
end Ctxmux
