import Ctxmux.HandoffMirror

/-!
# Running the two images side by side

The old and the new image take the same events. Their controls stay mirrored, they give
the same answers up to the numbers of the reply channels, and they settle the same
commands with the same results.
-/

namespace Ctxmux
namespace NativeControl

/-- The first control is the second one after the settlements of an earlier image. The
descriptors of a control that left the open phase are of no account. -/
structure Mirrors (k : ℕ) (earlier : List Settlement) (o n : Owner) : Prop where
  runId : o.runId = n.runId
  resources : o.resources = n.resources
  state : Mirror k o.state n.state
  ownerFailure : o.ownerFailure = n.ownerFailure
  turn : o.turn = n.turn
  writer : n.state.phase = .opened → o.writerOpen = n.writerOpen
  admitted : o.admitted.length = n.admitted.length+k
  settled : o.settled = earlier ++ n.settled.map (shiftSettlement k)

variable {k : ℕ} {earlier : List Settlement} {o n : Owner} {s t : ControlState}

namespace Mirror

section

variable (h : Mirror k s t)
include h

theorem phase : s.phase = t.phase := by
  obtain ⟨ops,blocked,rfl,-⟩ := h
  rfl

theorem inputFailure : s.inputFailure = t.inputFailure := by
  obtain ⟨ops,blocked,rfl,-⟩ := h
  rfl

theorem ownerFailure : s.ownerFailure = t.ownerFailure := by
  obtain ⟨ops,blocked,rfl,-⟩ := h
  rfl

theorem childOpen : s.childOpen = t.childOpen := by
  obtain ⟨ops,blocked,rfl,-⟩ := h
  rfl

theorem stopPending : s.stopPending = t.stopPending := by
  obtain ⟨ops,blocked,rfl,-⟩ := h
  rfl

theorem appliedInputBytes : s.appliedInputBytes = t.appliedInputBytes := by
  obtain ⟨ops,blocked,rfl,-⟩ := h
  rfl

theorem inputQueue : s.inputQueue = t.inputQueue.map (·.shift k) := by
  obtain ⟨ops,blocked,rfl,-⟩ := h
  rfl

/-- An update of the other fields reads and writes the same on both sides. -/
theorem outside (f : ControlState → ControlState)
    (hf : ∀ u queue ops blocked,
      f { u with inputQueue := queue, inputOperations := ops, inputBlocked := blocked } =
        { f u with inputQueue := queue, inputOperations := ops, inputBlocked := blocked })
    (hqueue : ∀ u, (f u).inputQueue = u.inputQueue)
    (hops : ∀ u, (f u).inputOperations = u.inputOperations) : Mirror k (f s) (f t) := by
  obtain ⟨ops,blocked,rfl,hledger⟩ := h
  refine ⟨ops,blocked,?_,?_⟩
  · rw [hf,hqueue]
  · rw [hops]
    exact hledger

theorem queue (rest : List InputCommand) :
    Mirror k { s with inputQueue := rest.map (·.shift k) } { t with inputQueue := rest } := by
  obtain ⟨ops,blocked,rfl,hops⟩ := h
  exact ⟨ops,blocked,rfl,hops⟩

theorem evictCompletedInputResults (limits : ResourceLimits) (newBytes : ℕ) :
    Mirror k (evictCompletedInputResults limits s newBytes)
      (evictCompletedInputResults limits t newBytes) := by
  have hcompleted : s.completedInputOperations = t.completedInputOperations := by
    obtain ⟨ops,blocked,rfl,-⟩ := h
    rfl
  unfold NativeControl.evictCompletedInputResults
  rw [hcompleted]
  exact h.evictLoop limits newBytes t.completedInputOperations

theorem retainPendingInputOperation (key : InputOperationKey) (request : InputOperationRequest)
    (channel : ℕ) :
    Mirror k (retainPendingInputOperation s key request (channel+k))
      (retainPendingInputOperation t key request channel) := by
  obtain ⟨ops,blocked,rfl,hops⟩ := h
  exact ⟨_,blocked,rfl,hops.insert key (.pending request channel)⟩

theorem push (command : ChildCommand) :
    Mirror k (pushChildCommand s command) (pushChildCommand t command) :=
  h.outside (fun u => pushChildCommand u command) (fun _ _ _ _ => rfl) (fun _ => rfl) (fun _ => rfl)

end

end Mirror

theorem rel_ite {α β : Type*} {R : α → β → Prop} {c c' : Prop} [Decidable c] [Decidable c']
    {a b : α} {a' b' : β} (hc : c ↔ c') (htrue : c' → R a a') (hfalse : ¬c' → R b b') :
    R (if c then a else b) (if c' then a' else b') := by
  by_cases h : c'
  · rw [if_pos h,if_pos (hc.mpr h)]
    exact htrue h
  · rw [if_neg h,if_neg fun hb => h (hc.mp hb)]
    exact hfalse h

theorem rel_ite_fst {α : Type*} {c c' : Prop} [Decidable c] [Decidable c'] {a b a' b' : Owner × α}
    (hc : c ↔ c') (htrue : c' → Mirrors k earlier a.1 a'.1)
    (hfalse : ¬c' → Mirrors k earlier b.1 b'.1) :
    Mirrors k earlier (if c then a else b).1 (if c' then a' else b').1 :=
  rel_ite (R := fun x y : Owner × α => Mirrors k earlier x.1 y.1) hc htrue hfalse

namespace Mirrors

section

variable (h : Mirrors k earlier o n)
include h

theorem shape : ∃ state writer admitted settled wire wakes,
    o = { n with
      state := state
      writerOpen := writer
      admitted := admitted
      settled := settled
      wire := wire
      inputWakes := wakes } := by
  obtain ⟨hrunId,hresources,-,hcell,hturn,-,-,-⟩ := h
  refine ⟨o.state,o.writerOpen,o.admitted,o.settled,o.wire,o.inputWakes,?_⟩
  rw [← hrunId,← hresources,← hcell,← hturn]

theorem update (hstate : Mirror k s t) (hphase : t.phase = .opened → n.state.phase = .opened) :
    Mirrors k earlier { o with state := s } { n with state := t } :=
  { h with
    state := hstate
    writer := fun hopened => h.writer (hphase hopened) }

theorem endTurn (turn : Option Turn) :
    Mirrors k earlier { o with turn := turn } { n with turn := turn } :=
  { h with turn := rfl }

theorem rejectInputs (hstate : Mirror k s t) (hphase : t.phase = .opened → n.state.phase = .opened)
    (error : ProtocolError) :
    Mirrors k earlier (rejectInputs o s error) (rejectInputs n t error) := by
  obtain ⟨hrejected,hsettled⟩ := hstate.rejectQueuedInputs error
  refine { h with state := hrejected, writer := fun hopened => ?_, settled := ?_ }
  · rw [rejectInputs_phase] at hopened
    exact h.writer (hphase hopened)
  · show o.settled ++ (rejectQueuedInputs s error).2 =
      earlier ++ (n.settled ++ (rejectQueuedInputs t error).2).map (shiftSettlement k)
    rw [h.settled,hsettled,List.map_append,List.append_assoc]

theorem settleOwnerLoss :
    Mirrors k earlier (settleOwnerLoss o) (settleOwnerLoss n) := by
  unfold NativeControl.settleOwnerLoss
  rw [h.ownerFailure,h.state.ownerFailure]
  cases n.ownerFailure with
  | none => exact h
  | some reason =>
    simp only
    split
    · exact h
    · have hfenced := h.state.outside
        (fun u => { u with ownerFailure := some reason, stopPending := false, childCommands := [] })
        (fun _ _ _ _ => rfl) (fun _ => rfl) (fun _ => rfl)
      exact h.rejectInputs hfenced (fun hopened => hopened) ownerStoppedError

theorem release (loss : Option NativeServiceFailure) :
    Mirrors k earlier (release loss o) (release loss n) := by
  have hlost : Mirrors k earlier { o with ownerFailure := o.ownerFailure <|> loss }
      { n with ownerFailure := n.ownerFailure <|> loss } :=
    { h with ownerFailure := by rw [h.ownerFailure] }
  exact hlost.settleOwnerLoss

theorem laneRefusal : laneRefusal o = laneRefusal n := by
  unfold NativeControl.laneRefusal
  rw [h.runId,h.ownerFailure,h.state.phase,h.state.inputFailure]

theorem queueFull (bytes : ℕ) : queueFull o bytes = queueFull n bytes := by
  have hcommands : o.state.inputCommands = n.state.inputCommands := by
    obtain ⟨ops,blocked,heq,-⟩ := h.state
    rw [heq]
  have hbytes : o.state.inputBytes = n.state.inputBytes := by
    obtain ⟨ops,blocked,heq,-⟩ := h.state
    rw [heq]
  unfold NativeControl.queueFull
  rw [h.resources,hcommands,hbytes]

theorem enqueueInput (data : List Byte) (expected : Option ℕ) (reply : InputReply) :
    Mirrors k earlier (enqueueInput o data expected (reply.shift k))
      (enqueueInput n data expected reply) := by
  have hstate := h.state
  obtain ⟨ops,blocked,heq,hops⟩ := hstate
  refine { h with state := ?_, admitted := ?_ }
  · refine ⟨ops,blocked,?_,hops⟩
    simp only [NativeControl.enqueueInput,heq,List.map_append]
    rfl
  · simp only [NativeControl.enqueueInput,List.length_append,List.length_singleton]
    have := h.admitted
    omega

theorem beginInputLocked (data : List Byte) (funded : Bool) :
    Mirrors k earlier (beginInputLocked o data funded).1 (beginInputLocked n data funded).1 ∧
      (beginInputLocked o data funded).2 = (beginInputLocked n data funded).2.map (·+k) := by
  unfold NativeControl.beginInputLocked
  rw [h.laneRefusal,h.queueFull,h.resources,h.runId,h.admitted]
  cases NativeControl.laneRefusal n with
  | some error => exact ⟨h,rfl⟩
  | none =>
    cases NativeControl.queueFull n data.length with
    | true => exact ⟨h,rfl⟩
    | false =>
      cases funded with
      | false => exact ⟨h,rfl⟩
      | true => exact ⟨h.enqueueInput data none (.legacy n.admitted.length),rfl⟩

theorem beginRecoverableInputLocked (key : InputOperationKey) (request : InputOperationRequest)
    (funded : Bool) :
    Mirrors k earlier (beginRecoverableInputLocked o key request funded).1
        (beginRecoverableInputLocked n key request funded).1 ∧
      (beginRecoverableInputLocked o key request funded).2 =
        (beginRecoverableInputLocked n key request funded).2.map (·.shift k) := by
  unfold NativeControl.beginRecoverableInputLocked
  rw [h.state.retainedInputResult,h.runId]
  cases NativeControl.retainedInputResult n.state key request n.runId with
  | error failure => exact ⟨h,rfl⟩
  | ok retained =>
    cases retained with
    | some result => exact ⟨h,rfl⟩
    | none =>
      simp only [Except.map,Option.map_none,h.laneRefusal]
      cases NativeControl.laneRefusal n with
      | some error => exact ⟨h,rfl⟩
      | none =>
        simp only
        have hevicted : Mirrors k earlier
            { o with state := evictCompletedInputResults o.resources o.state request.data.length }
            { n with state := evictCompletedInputResults n.resources n.state request.data.length } := by
          refine h.update ?_ fun hopened => ?_
          · rw [h.resources]
            exact h.state.evictCompletedInputResults n.resources request.data.length
          · obtain ⟨ops,completed,bytes,heq,-⟩ :=
              evictCompletedInputResults_spec n.resources n.state request.data.length
            rw [heq] at hopened
            exact hopened
        have hfull := hevicted.queueFull request.data.length
        have hexceeded := hevicted.state.resultCapacityExceeded n.resources request.data.length
        have hadmitted := h.admitted
        obtain ⟨state,writer,admitted,settled,wire,wakes,rfl⟩ := h.shape
        simp only at hevicted hfull hexceeded hadmitted ⊢
        rw [hfull,hexceeded,hadmitted]
        split
        · exact ⟨hevicted,rfl⟩
        · split
          · exact ⟨hevicted,rfl⟩
          · have hretained := hevicted.update
              (hevicted.state.retainPendingInputOperation key request n.admitted.length)
              (fun hopened => hopened)
            exact ⟨hretained.enqueueInput request.data (some request.expectedByte)
              (.recoverable key n.admitted.length),rfl⟩

theorem beginRecoverableInput (key : InputOperationKey) (expectedByte : ℕ) (data : List Byte)
    (funded : Bool) :
    Mirrors k earlier (beginRecoverableInput o key expectedByte data funded).1
        (beginRecoverableInput n key expectedByte data funded).1 ∧
      (beginRecoverableInput o key expectedByte data funded).2 =
        (beginRecoverableInput n key expectedByte data funded).2.map (·.shift k) := by
  unfold NativeControl.beginRecoverableInput
  cases inputRequest key expectedByte data with
  | error failure => exact ⟨h,rfl⟩
  | ok request => exact h.beginRecoverableInputLocked key request funded

theorem attempt (hopened : n.state.phase = .opened) (length : ℕ) (w : WriteOutcome) :
    attempt o length w = attempt n length w := by
  unfold NativeControl.attempt
  rw [h.writer hopened]

theorem rejectCursor (turn : Turn) (command : InputCommand) (rest : List InputCommand) :
    Mirrors k earlier (rejectCursor o turn (command.shift k) (rest.map (·.shift k)))
      (rejectCursor n turn command rest) := by
  have hstate := ((h.state.queue rest).releaseInputCapacity command.data.length).removeReplyOperation
    command.reply
  have hupdated := h.update hstate fun hopened => by
    have hgate := congrArg Prod.fst (removeReplyOperation_gate
      (releaseInputCapacity { n.state with inputQueue := rest } command.data.length) command.reply)
    exact hgate.symm.trans hopened
  have hexpected := h.state.expectedCursor command.reply
  refine { hupdated with turn := rfl, settled := ?_ }
  simp only [NativeControl.rejectCursor,h.settled,List.map_append,List.append_assoc,
    show (command.shift k).reply = command.reply.shift k from rfl,hexpected,h.runId,
    h.state.appliedInputBytes]
  rfl


theorem confirmWrite (turn : Turn) (command : InputCommand) (rest : List InputCommand) (written : ℕ)
    :
    Mirrors k earlier (confirmWrite o turn (command.shift k) (rest.map (·.shift k)) written)
      (confirmWrite n turn command rest written) := by
  unfold NativeControl.confirmWrite
  by_cases hpart : command.confirmed+written ≠ command.data.length
  · have hshifted : (command.shift k).confirmed+written ≠ (command.shift k).data.length := hpart
    simp only [if_pos hpart,if_pos hshifted]
    have hstate : Mirror k
        { o.state with
          inputBlocked := false
          inputQueue := ({ command with confirmed := command.confirmed+written }::rest).map (·.shift k) }
        { n.state with
          inputBlocked := false
          inputQueue := { command with confirmed := command.confirmed+written }::rest } := by
      obtain ⟨ops,blocked,heq,hops⟩ := h.state
      exact ⟨ops,false,by rw [heq],hops⟩
    exact { h.update hstate (fun hopened => hopened) with turn := rfl }
  · have hshifted : ¬(command.shift k).confirmed+written ≠ (command.shift k).data.length := hpart
    simp only [if_neg hpart,if_neg hshifted]
    have hstate : Mirror k
        { o.state with
          inputBlocked := false
          inputQueue := rest.map (·.shift k)
          appliedInputBytes := o.state.appliedInputBytes+command.data.length
          inputScheduled := !(rest.map (·.shift k)).isEmpty }
        { n.state with
          inputBlocked := false
          inputQueue := rest
          appliedInputBytes := n.state.appliedInputBytes+command.data.length
          inputScheduled := !rest.isEmpty } := by
      obtain ⟨ops,blocked,heq,hops⟩ := h.state
      exact ⟨ops,false,by rw [heq,List.isEmpty_map],hops⟩
    have hretained := (hstate.releaseInputCapacity command.data.length).retainCompletedInputOperation
      command.reply ⟨n.state.appliedInputBytes,n.state.appliedInputBytes+command.data.length⟩
    have hupdated := h.update hretained fun hopened => by
      have hframe := (retainCompletedInputOperation_frame (releaseInputCapacity
        { n.state with
          inputBlocked := false
          inputQueue := rest
          appliedInputBytes := n.state.appliedInputBytes+command.data.length
          inputScheduled := !rest.isEmpty } command.data.length) command.reply
        ⟨n.state.appliedInputBytes,n.state.appliedInputBytes+command.data.length⟩).1
      exact (congrArg Prod.fst hframe).symm.trans hopened
    rw [h.state.appliedInputBytes] at hupdated ⊢
    refine { hupdated with turn := rfl, settled := ?_ }
    rw [h.settled,List.map_append,List.append_assoc]
    rfl

theorem failWrite (command : InputCommand) (rest : List InputCommand) (code : ErrorCode)
    (detail : String) :
    Mirrors k earlier (failWrite o (command.shift k) (rest.map (·.shift k)) code detail)
      (failWrite n command rest code detail) := by
  have hreleased := (h.state.queue rest).releaseInputCapacity command.data.length
  have hpoisoned := hreleased.poison
    ⟨code,s!"Run {n.runId} PTY input lane is unavailable after {detail}"⟩
  have hretained := hpoisoned.retainUnknownInputOperation command.reply
    { unknownFailure ⟨code,s!"failed to write Run {n.runId} PTY input: {detail}"⟩ with
      confirmedInputBytes := some command.confirmed }
  have hanswered : Mirrors k earlier
      { o with
        settled := o.settled ++ [(command.shift k,.error
          { unknownFailure ⟨code,s!"failed to write Run {n.runId} PTY input: {detail}"⟩ with
            confirmedInputBytes := some command.confirmed })]
        turn := none }
      { n with
        settled := n.settled ++ [(command,.error
          { unknownFailure ⟨code,s!"failed to write Run {n.runId} PTY input: {detail}"⟩ with
            confirmedInputBytes := some command.confirmed })]
        turn := none } := by
    refine { h with turn := rfl, settled := ?_ }
    rw [h.settled,List.map_append,List.append_assoc]
    rfl
  have hrejected := hanswered.rejectInputs hretained (fun hopened => by
    have hfences := retainUnknownInputOperation_fences
      { releaseInputCapacity { n.state with inputQueue := rest } command.data.length with
        inputFailure := some ⟨code,s!"Run {n.runId} PTY input lane is unavailable after {detail}"⟩ }
      command.reply
      { unknownFailure ⟨code,s!"failed to write Run {n.runId} PTY input: {detail}"⟩ with
        confirmedInputBytes := some command.confirmed }
    exact (congrArg Fences.phase hfences).symm.trans hopened)
    ⟨code,s!"failed to write Run {n.runId} PTY input: {detail}"⟩
  unfold NativeControl.failWrite NativeControl.inputFailure
  obtain ⟨state,writer,admitted,settled,wire,wakes,rfl⟩ := h.shape
  exact hrejected

theorem writeFront (hopened : n.state.phase = .opened) (turn : Turn) (command : InputCommand)
    (rest : List InputCommand) (w : WriteOutcome) :
    Mirrors k earlier (writeFront o turn (command.shift k) (rest.map (·.shift k)) w)
      (writeFront n turn command rest w) := by
  have hattempt := h.attempt hopened
    (min (command.data.length-command.confirmed) (turn.maxBytes-turn.bytes)) w
  unfold NativeControl.writeFront
  rw [show NativeControl.attempt o (min ((command.shift k).data.length-(command.shift k).confirmed)
    (turn.maxBytes-turn.bytes)) w = _ from hattempt]
  cases NativeControl.attempt n (min (command.data.length-command.confirmed)
      (turn.maxBytes-turn.bytes)) w with
  | wrote written =>
    exact rel_ite Iff.rfl (fun _ => h.confirmWrite turn command rest written)
      (fun _ => h.failWrite command rest .io "PTY input write returned zero")
  | wouldBlock =>
    have hblocked : Mirror k { o.state with inputBlocked := true }
        { n.state with inputBlocked := true } := by
      obtain ⟨ops,blocked,heq,hops⟩ := h.state
      exact ⟨ops,true,by rw [heq],hops⟩
    exact (h.update hblocked (fun hopened => hopened)).endTurn none
  | interrupted => exact h.endTurn none
  | failed detail => exact h.failWrite command rest .io _
  | unwound => exact h.failWrite command rest .internal _

theorem progressInput (turn : Turn) (w : WriteOutcome) :
    Mirrors k earlier (progressInput o turn w) (progressInput n turn w) := by
  unfold NativeControl.progressInput
  refine rel_ite (by rw [h.laneRefusal]) (fun _ => h.endTurn none) fun hfree => ?_
  have hqueue := h.state.inputQueue
  cases hn : n.state.inputQueue with
  | nil =>
    rw [hn] at hqueue
    simp only [hn,hqueue,List.map_nil]
    have hidle : Mirror k { o.state with inputQueue := [], inputScheduled := false, inputBlocked := false }
        { n.state with inputQueue := [], inputScheduled := false, inputBlocked := false } := by
      obtain ⟨ops,blocked,heq,hops⟩ := h.state
      exact ⟨ops,false,by rw [heq]; rfl,hops⟩
    exact (h.update hidle (fun hopened => hopened)).endTurn none
  | cons command rest =>
    rw [hn] at hqueue
    simp only [hqueue,List.map_cons]
    have hopened := (laneRefusal_none (Option.not_isSome_iff_eq_none.mp hfree)).1
    exact rel_ite (by rw [h.state.cursorRefused]) (fun _ => h.rejectCursor turn command rest)
      (fun _ => h.writeFront hopened turn command rest w)

theorem stoppingError : stoppingError o = stoppingError n := by
  unfold NativeControl.stoppingError
  rw [h.runId]

theorem commitPendingStop :
    Mirrors k earlier (commitPendingStop o).1 (commitPendingStop n).1 := by
  unfold NativeControl.commitPendingStop
  rw [h.stoppingError]
  refine rel_ite_fst
    (by rw [h.state.phase,h.state.stopPending,h.state.childOpen]) (fun _ => ?_) (fun _ => ?_)
  · exact h.update (h.state.outside (fun u => { u with stopPending := false }) (fun _ _ _ _ => rfl)
      (fun _ => rfl) (fun _ => rfl)) (fun hopened => hopened)
  · exact h.rejectInputs (h.state.outside (fun u => { u with stopPending := false, phase := .stopping })
      (fun _ _ _ _ => rfl) (fun _ => rfl) (fun _ => rfl)) (fun hopened => nomatch hopened) _

theorem closeInputs {phase : ControlPhase} (hphase : phase ≠ .opened) (error : ProtocolError) :
    Mirrors k earlier (closeInputs o phase error) (closeInputs n phase error) :=
  h.rejectInputs (h.state.outside
    (fun u => { u with phase := phase, childOpen := false, stopPending := false, childCommands := [] })
    (fun _ _ _ _ => rfl) (fun _ => rfl) (fun _ => rfl)) (fun hopened => absurd hopened hphase) error

theorem markClosed : Mirrors k earlier (markClosed o) (markClosed n) := by
  unfold NativeControl.markClosed
  rw [h.state.phase,h.runId]
  exact h.closeInputs (closedPhase_ne_opened n.state.phase) _

theorem turnOp (op : TurnOp) :
    Mirrors k earlier (turnOp o op) (turnOp n op) := by
  cases op with
  | drainChildCommands =>
    exact h.update (h.state.outside (fun u => { u with childCommands := [] }) (fun _ _ _ _ => rfl)
      (fun _ => rfl) (fun _ => rfl)) (fun hopened => hopened)
  | rejectPendingStop =>
    exact h.update (h.state.outside (fun u => { u with stopPending := false }) (fun _ _ _ _ => rfl)
      (fun _ => rfl) (fun _ => rfl)) (fun hopened => hopened)
  | commitPendingStop => exact h.commitPendingStop
  | fenceChildCommands => exact h.markClosed

theorem turnOps (ops : List TurnOp) :
    Mirrors k earlier (ops.foldl NativeControl.turnOp o) (ops.foldl NativeControl.turnOp n) := by
  induction ops generalizing o n with
  | nil => exact h
  | cons op ops ih => exact ih (h.turnOp op)

theorem beginStopLocked :
    Mirrors k earlier (beginStopLocked o).1 (beginStopLocked n).1 := by
  unfold NativeControl.beginStopLocked
  refine rel_ite_fst (by rw [h.ownerFailure]) (fun _ => h)
    fun _ => ?_
  refine rel_ite_fst (by rw [h.state.phase]) (fun _ => h)
    fun _ => ?_
  refine rel_ite_fst (by rw [h.state.childOpen])
    (fun _ => ?_) fun _ => ?_
  · exact h.update (h.state.outside (fun u => { u with phase := .closed }) (fun _ _ _ _ => rfl)
      (fun _ => rfl) (fun _ => rfl)) (fun hopened => nomatch hopened)
  · refine rel_ite_fst (by rw [h.state.stopPending])
      (fun _ => h) fun _ => ?_
    have hpending := h.state.outside (fun u => { u with stopPending := true })
      (fun _ _ _ _ => rfl) (fun _ => rfl) (fun _ => rfl)
    exact h.update (hpending.push .stop) (fun hopened => hopened)

theorem beginSignalLocked (foregroundGroup : Option ℕ) :
    Mirrors k earlier (beginSignalLocked o foregroundGroup).1
      (beginSignalLocked n foregroundGroup).1 := by
  unfold NativeControl.beginSignalLocked
  refine rel_ite_fst (by rw [h.ownerFailure]) (fun _ => h)
    fun _ => ?_
  refine rel_ite_fst (by rw [h.state.phase]) (fun _ => h)
    fun _ => ?_
  refine rel_ite_fst (by rw [h.state.childOpen])
    (fun _ => h) fun _ => ?_
  cases foregroundGroup with
  | none => exact h
  | some group => exact h.update (h.state.push (.signal group)) (fun hopened => hopened)

theorem cleanupUnpublished :
    Mirrors k earlier (cleanupUnpublished o) (cleanupUnpublished n) := by
  unfold NativeControl.cleanupUnpublished
  rw [h.stoppingError]
  have hstopping := h.state.outside (fun u => { u with phase := .stopping }) (fun _ _ _ _ => rfl)
    (fun _ => rfl) (fun _ => rfl)
  refine rel_ite (by rw [h.ownerFailure]) (fun _ => h) fun _ => ?_
  refine rel_ite (by rw [h.state.phase]) (fun _ => h) fun _ => ?_
  refine rel_ite (by rw [h.state.childOpen])
    (fun _ => h.update hstopping (fun hopened => nomatch hopened)) fun _ => ?_
  exact h.rejectInputs (hstopping.push .cleanupUnpublished) (fun hopened => nomatch hopened) _

theorem closedQuiescenceResult (reap : Except String Unit) (owners : ℕ) :
    closedQuiescenceResult o reap owners = closedQuiescenceResult n reap owners := by
  have hrunId := h.runId
  obtain ⟨ops,blocked,heq,-⟩ := h.state
  unfold NativeControl.closedQuiescenceResult
  rw [heq,hrunId]
  simp only [List.isEmpty_map]

theorem detachClosedDescriptors (reap : Except String Unit) (owners : ℕ) :
    Mirrors k earlier (detachClosedDescriptors o reap owners)
      (detachClosedDescriptors n reap owners) := by
  unfold NativeControl.detachClosedDescriptors
  rw [h.closedQuiescenceResult]
  cases hresult : NativeControl.closedQuiescenceResult n reap owners with
  | error message => exact h
  | ok _ => exact { h with writer := fun _ => rfl }

theorem step (e : Event) : Mirrors k earlier (step o e) (step n e) := by
  cases e with
  | beginInput data funded loss => exact (h.beginInputLocked data funded).1.release loss
  | beginRecoverableInput key expectedByte data funded loss =>
    exact (h.beginRecoverableInput key expectedByte data funded).1.release loss
  | beginTurn maxCommands maxBytes =>
    exact rel_ite (by rw [h.turn]) (fun _ => h) (fun _ => h.endTurn _)
  | progress w loss =>
    simp only [NativeControl.step,h.turn]
    cases n.turn with
    | none => exact h
    | some turn =>
      exact rel_ite Iff.rfl (fun _ => (h.progressInput turn w).release loss)
        (fun _ => h.endTurn none)
  | busy => exact h.endTurn none
  | controlTurn ops loss => exact (h.turnOps ops).release loss
  | beginStop loss => exact h.beginStopLocked.release loss
  | beginSignal foregroundGroup loss => exact (h.beginSignalLocked foregroundGroup).release loss
  | cleanupUnpublished loss => exact h.cleanupUnpublished.release loss
  | markClosed loss => exact h.markClosed.release loss
  | markWaitAuthorityLost error loss =>
    exact (h.closeInputs (by simp) ⟨.backendUnavailable,error⟩).release loss
  | fenceOwnerLoss reason busy =>
    have hlost : Mirrors k earlier { o with ownerFailure := o.ownerFailure <|> some reason }
        { n with ownerFailure := n.ownerFailure <|> some reason } :=
      { h with ownerFailure := by rw [h.ownerFailure] }
    exact rel_ite Iff.rfl (fun _ => hlost) (fun _ => hlost.release none)
  | observe loss => exact h.release loss
  | detachClosedDescriptors reap owners loss =>
    exact (h.detachClosedDescriptors reap owners).release loss

theorem run (events : List Event) :
    Mirrors k earlier (Machine.run NativeControl.step o events)
      (Machine.run NativeControl.step n events) := by
  induction events generalizing o n with
  | nil => exact h
  | cons e events ih => exact ih (h.step e)

end

end Mirrors

end NativeControl
end Ctxmux
