import Ctxmux.ControlSound

/-!
# Exactly-once native input

The bytes that the PTY accepted are the payloads of the completed commands in
admission order, followed by at most one partial payload. A key that the ledger
retains answers a retry from the ledger, and the answer never changes.
-/

namespace Ctxmux
namespace NativeControl

/-- The histories only grow. -/
structure Extends (o o' : Owner) : Prop where
  admitted : o.admitted <+: o'.admitted
  settled : o.settled <+: o'.settled
  wire : o.wire <+: o'.wire

theorem Extends.of_eq {o o' : Owner} (ha : o'.admitted = o.admitted) (hs : o'.settled = o.settled)
    (hw : o'.wire = o.wire) : Extends o o' := by
  constructor
  · rw [ha]
  · rw [hs]
  · rw [hw]

theorem Extends.refl (o : Owner) : Extends o o := .of_eq rfl rfl rfl

theorem Extends.trans {o₁ o₂ o₃ : Owner} (h : Extends o₁ o₂) (h' : Extends o₂ o₃) :
    Extends o₁ o₃ :=
  ⟨h.admitted.trans h'.admitted,h.settled.trans h'.settled,h.wire.trans h'.wire⟩

theorem extends_rejectInputs (o : Owner) (st : ControlState) (error : ProtocolError) :
    Extends o (rejectInputs o st error) :=
  ⟨List.prefix_rfl,List.prefix_append _ _,List.prefix_rfl⟩

theorem extends_release (o : Owner) (loss : Option NativeServiceFailure) :
    Extends o (release loss o) := by
  unfold release settleOwnerLoss
  dsimp only
  split
  · exact .of_eq rfl rfl rfl
  · split
    · exact .of_eq rfl rfl rfl
    · exact ⟨List.prefix_rfl,List.prefix_append _ _,List.prefix_rfl⟩

theorem Extends.release {o o' : Owner} (h : Extends o o') (loss : Option NativeServiceFailure) :
    Extends o (release loss o') :=
  h.trans (extends_release o' loss)

theorem extends_beginInputLocked (o : Owner) (data : List Byte) (funded : Bool) :
    Extends o (beginInputLocked o data funded).1 := by
  unfold beginInputLocked
  split
  · exact .refl o
  · split
    · exact .refl o
    · split
      · exact .refl o
      · exact ⟨List.prefix_append _ _,List.prefix_rfl,List.prefix_rfl⟩

theorem extends_beginRecoverableInputLocked (o : Owner) (key : InputOperationKey)
    (request : InputOperationRequest) (funded : Bool) :
    Extends o (beginRecoverableInputLocked o key request funded).1 := by
  unfold beginRecoverableInputLocked
  split
  · exact .refl o
  · exact .refl o
  · split
    · exact .refl o
    · dsimp only
      split
      · exact .of_eq rfl rfl rfl
      · split
        · exact .of_eq rfl rfl rfl
        · exact ⟨List.prefix_append _ _,List.prefix_rfl,List.prefix_rfl⟩

theorem extends_beginRecoverableInput (o : Owner) (key : InputOperationKey) (expectedByte : ℕ)
    (data : List Byte) (funded : Bool) :
    Extends o (beginRecoverableInput o key expectedByte data funded).1 := by
  unfold beginRecoverableInput
  split
  · exact .refl o
  · exact extends_beginRecoverableInputLocked o key _ funded

theorem extends_writeFront (o : Owner) (t : Turn) (command : InputCommand)
    (rest : List InputCommand) (w : WriteOutcome) : Extends o (writeFront o t command rest w) := by
  have hfail : ∀ code detail, Extends o (failWrite o command rest code detail) := by
    intro code detail
    refine ⟨List.prefix_rfl,?_,List.prefix_rfl⟩
    simp only [failWrite,rejectInputs,List.append_assoc]
    exact List.prefix_append _ _
  unfold writeFront
  split
  · split
    · unfold confirmWrite
      dsimp only
      split
      · exact ⟨List.prefix_rfl,List.prefix_rfl,List.prefix_append _ _⟩
      · exact ⟨List.prefix_rfl,List.prefix_append _ _,List.prefix_append _ _⟩
    · exact hfail _ _
  · exact .of_eq rfl rfl rfl
  · exact .of_eq rfl rfl rfl
  · exact hfail _ _
  · exact hfail _ _

theorem extends_progressInput (o : Owner) (t : Turn) (w : WriteOutcome) :
    Extends o (progressInput o t w) := by
  unfold progressInput
  split
  · exact .of_eq rfl rfl rfl
  · split
    · exact .of_eq rfl rfl rfl
    · split
      · exact ⟨List.prefix_rfl,List.prefix_append _ _,List.prefix_rfl⟩
      · exact extends_writeFront o t _ _ w

theorem extends_turnOp (o : Owner) (op : TurnOp) : Extends o (turnOp o op) := by
  cases op with
  | drainChildCommands => exact .of_eq rfl rfl rfl
  | rejectPendingStop => exact .of_eq rfl rfl rfl
  | commitPendingStop =>
    simp only [turnOp,commitPendingStop]
    split
    · exact .of_eq rfl rfl rfl
    · exact extends_rejectInputs o _ _
  | fenceChildCommands => exact extends_rejectInputs o _ _

theorem extends_turnOps (ops : List TurnOp) (o : Owner) : Extends o (ops.foldl turnOp o) := by
  induction ops generalizing o with
  | nil => exact .refl o
  | cons op ops ih => exact (extends_turnOp o op).trans (ih (turnOp o op))

theorem extends_step (o : Owner) (e : Event) : Extends o (step o e) := by
  cases e with
  | beginInput data funded loss => exact (extends_beginInputLocked o data funded).release loss
  | beginRecoverableInput key expectedByte data funded loss =>
    exact (extends_beginRecoverableInput o key expectedByte data funded).release loss
  | beginTurn maxCommands maxBytes =>
    simp only [step]
    split
    · exact .refl o
    · exact .of_eq rfl rfl rfl
  | progress w loss =>
    simp only [step]
    split
    · exact .refl o
    · split
      · exact (extends_progressInput o _ w).release loss
      · exact .of_eq rfl rfl rfl
  | busy => exact .of_eq rfl rfl rfl
  | controlTurn ops loss => exact (extends_turnOps ops o).release loss
  | beginStop loss =>
    refine Extends.release ?_ loss
    unfold beginStopLocked
    split_ifs <;> exact .of_eq rfl rfl rfl
  | beginSignal foregroundGroup loss =>
    refine Extends.release ?_ loss
    unfold beginSignalLocked
    split_ifs <;> cases foregroundGroup <;> exact .of_eq rfl rfl rfl
  | cleanupUnpublished loss =>
    refine Extends.release ?_ loss
    unfold cleanupUnpublished
    dsimp only
    split_ifs
    · exact .refl o
    · exact .refl o
    · exact .of_eq rfl rfl rfl
    · exact extends_rejectInputs o _ _
  | markClosed loss => exact (extends_rejectInputs o _ _).release loss
  | markWaitAuthorityLost error loss => exact (extends_rejectInputs o _ _).release loss
  | fenceOwnerLoss reason busy =>
    simp only [step]
    split
    · exact .of_eq rfl rfl rfl
    · refine Extends.release ?_ none
      exact .of_eq rfl rfl rfl
  | observe loss => exact extends_release o loss
  | detachClosedDescriptors reap owners loss =>
    refine Extends.release ?_ loss
    unfold detachClosedDescriptors
    split <;> exact .of_eq rfl rfl rfl

theorem extends_run (es : List Event) (o : Owner) : Extends o (Machine.run step o es) := by
  induction es generalizing o with
  | nil => exact .refl o
  | cons e es ih => exact (extends_step o e).trans (ih (step o e))

def Owner.stream (o : Owner) : List Byte := o.wire.flatMap (·.2)

def completedPayload (s : Settlement) : List Byte :=
  match s.2 with
  | .ok _ => s.1.data
  | .error _ => []

/-- The bytes of the one command that is not complete: the single Unknown command, with
the prefix that its answer reports, or else the unresolved command at the front. -/
def PartialPayload (o : Owner) (bytes : List Byte) : Prop :=
  (∃ s ∈ o.settled, (∀ s' ∈ o.settled, IsUnknown s' → s' = s) ∧
    ∃ failure confirmed, s.2 = .error failure ∧ failure.disposition = .unknown ∧
      failure.confirmedInputBytes = some confirmed ∧ bytes = s.1.data.take confirmed ∧
      bytes.length = confirmed ∧ o.state.inputFailure.isSome ∧ o.state.inputQueue = []) ∨
  ((∀ s ∈ o.settled, ¬IsUnknown s) ∧
    bytes = (o.state.inputQueue.head?.map (·.written)).getD [])

theorem settlement_cases (s : Settlement) :
    (∃ range, s.2 = .ok range) ∨ IsNotApplied s ∨ IsUnknown s := by
  rcases s with ⟨c,⟨⟨error,disposition,confirmed⟩⟩ | range⟩
  · cases disposition with
    | notApplied => exact Or.inr (Or.inl ⟨_,rfl,rfl⟩)
    | unknown => exact Or.inr (Or.inr ⟨_,rfl,rfl⟩)
  · exact Or.inl ⟨range,rfl⟩

variable {s : Settlement} {settled : List Settlement}

theorem written_of_not_unknown (h : Honest s) (hs : ¬IsUnknown s) :
    s.1.written = completedPayload s := by
  rcases settlement_cases s with ⟨range,hr⟩ | ⟨f,hf,hd⟩ | hu
  · simp only [Honest,hr] at h
    simp [InputCommand.written,completedPayload,hr,h]
  · simp only [Honest,hf,hd] at h
    simp [InputCommand.written,completedPayload,hf,h.1]
  · exact absurd hu hs

theorem completed_of_clean (h : ∀ s ∈ settled, Honest s) (hs : ∀ s ∈ settled, ¬IsUnknown s) :
    settled.flatMap (·.1.written) = settled.flatMap completedPayload := by
  induction settled with
  | nil => rfl
  | cons s settled ih =>
    simp only [List.mem_cons,forall_eq_or_imp] at h hs
    simp only [List.flatMap_cons,ih h.2 hs.2,written_of_not_unknown h.1 hs.1]

theorem written_of_notApplied (h : Honest s) (hs : IsNotApplied s) :
    s.1.written = [] := by
  obtain ⟨f,hf,hd⟩ := hs
  simp only [Honest,hf,hd] at h
  simp [InputCommand.written,h.1]

theorem not_unknown_of_notApplied (h : IsNotApplied s) : ¬IsUnknown s := by
  obtain ⟨f,hf,hd⟩ := h
  rintro ⟨f',hf',hd'⟩
  rw [hf] at hf'
  cases hf'
  rw [hd] at hd'
  cases hd'

/-- A history with an Unknown answer: nothing before it is Unknown, and nothing after it
was applied. -/
theorem unknown_split {start applied : ℕ} {failure : Option ProtocolError}
    (h : Answered start settled applied failure) (hs : s ∈ settled) (hu : IsUnknown s) :
    ∃ before after, settled = before ++ s::after ∧ (∀ x ∈ before, ¬IsUnknown x) ∧
      ∀ x ∈ after, IsNotApplied x := by
  obtain ⟨before,after,rfl⟩ := List.append_of_mem hs
  have hf := h.final
  rw [List.pairwise_append,List.pairwise_cons] at hf
  refine ⟨before,after,rfl,?_,?_⟩
  · intro x hx hxu
    exact not_unknown_of_notApplied (hf.2.2 x hx s List.mem_cons_self hxu) hu
  · intro x hx
    exact hf.2.1.1 x hx hu

theorem written_of_unknown {start applied : ℕ} {failure : Option ProtocolError}
    (h : Answered start settled applied failure) (hs : s ∈ settled) (hu : IsUnknown s) :
    settled.flatMap (·.1.written) = settled.flatMap completedPayload ++ s.1.written ∧
      ∀ x ∈ settled, IsUnknown x → x = s := by
  obtain ⟨before,after,heq,hbefore,hafter⟩ := unknown_split h hs hu
  have hhonest := h.honest
  rw [heq] at hhonest
  have hb : before.flatMap (·.1.written) = before.flatMap completedPayload :=
    completed_of_clean (fun x hx => hhonest x (by simp [hx])) hbefore
  have hs' : completedPayload s = [] := by
    obtain ⟨f,hf,_⟩ := hu
    simp [completedPayload,hf]
  have ha : after.flatMap (·.1.written) = [] := by
    rw [List.flatMap_eq_nil_iff]
    intro x hx
    exact written_of_notApplied (hhonest x (by simp [hx])) (hafter x hx)
  have ha' : after.flatMap completedPayload = [] := by
    rw [List.flatMap_eq_nil_iff]
    intro x hx
    obtain ⟨f,hf,_⟩ := hafter x hx
    simp [completedPayload,hf]
  constructor
  · rw [heq]
    simp [hb,hs',ha,ha']
  · intro x hx hxu
    rw [heq] at hx
    rcases List.mem_append.mp hx with hx | hx
    · exact absurd hxu (hbefore x hx)
    · rcases List.mem_cons.mp hx with rfl | hx
      · rfl
      · exact absurd hxu (not_unknown_of_notApplied (hafter x hx))

theorem Lane.queue_written {base : HandoffInputState} {admitted : List Admission}
    {wire : List (ℕ × List Byte)} {st : ControlState} {queue : List InputCommand}
    (h : Lane base admitted settled wire st queue) :
    queue.flatMap (·.written) = (queue.head?.map (·.written)).getD [] := by
  cases queue with
  | nil => rfl
  | cons c queue =>
    have hrest : queue.flatMap (·.written) = [] := by
      rw [List.flatMap_eq_nil_iff]
      intro x hx
      simp [InputCommand.written,h.waiting x hx]
    simp [hrest]

theorem Sound.stream_split {base : HandoffInputState} {o : Owner} (h : Sound base o) :
    ∃ bytes, o.stream = o.settled.flatMap completedPayload ++ bytes ∧ PartialPayload o bytes := by
  have hstream : o.stream = o.settled.flatMap (·.1.written) ++
      (o.state.inputQueue.head?.map (·.written)).getD [] := by
    rw [← h.lane.queue_written]
    simpa [Owner.stream,List.flatMap_append,List.flatMap_map] using h.lane.recorded.stream
  by_cases hu : ∃ s ∈ o.settled, IsUnknown s
  · obtain ⟨s,hs,hu⟩ := hu
    have hfail := h.lane.answered.poisoned ⟨s,hs,hu⟩
    have hqueue := h.fenced (Or.inr (Or.inl hfail))
    obtain ⟨hwritten,hunique⟩ := written_of_unknown h.lane.answered hs hu
    refine ⟨s.1.written,?_,Or.inl ⟨s,hs,hunique,?_⟩⟩
    · rw [hstream,hwritten,hqueue]
      simp
    · obtain ⟨f,hf,hd⟩ := hu
      have hhonest := h.lane.answered.honest s hs
      have hbound := h.lane.recorded.bounded s.1 (List.mem_append_left _ (List.mem_map_of_mem hs))
      simp only [Honest,hf,hd] at hhonest
      exact ⟨f,s.1.confirmed,hf,hd,hhonest,rfl,by simpa [InputCommand.written] using hbound,hfail,
        hqueue⟩
  · push Not at hu
    refine ⟨_,?_,Or.inr ⟨hu,rfl⟩⟩
    rw [hstream,completed_of_clean h.lane.answered.honest hu]

/-- What a retry of a retained key is answered with. -/
def InputOperationEntry.retained : InputOperationEntry → PendingRecoverableInput
  | .pending _ completion => .pending completion
  | .completed _ range => .ready (.ok range)
  | .unknown _ failure => .ready (.error failure)

theorem retained_retry {o : Owner} {key : InputOperationKey} {entry : InputOperationEntry}
    (h : o.state.inputOperations.lookup key = some entry) (funded : Bool) :
    beginRecoverableInputLocked o key entry.request funded = (o,.ok entry.retained) := by
  have hr : retainedInputResult o.state key entry.request o.runId = .ok (some entry.retained) := by
    cases entry <;> simp [retainedInputResult,h,InputOperationEntry.retained]
  simp [beginRecoverableInputLocked,hr]

section Retry

variable {base : HandoffInputState} {o o' : Owner} {key : InputOperationKey}
  {entry entry' : InputOperationEntry}

/-- A retained entry was adopted and never admitted here, or it belongs to the latest
admission of its key: that command is still queued, or its answer is the entry's. -/
def EntryOrigin (base : HandoffInputState) (o : Owner) (key : InputOperationKey)
    (entry : InputOperationEntry) : Prop :=
  (base.ledger.lookup key = some entry ∧
    ∀ a ∈ o.admitted, ∀ channel, a.reply ≠ .recoverable key channel) ∨
  ∃ channel, Origin o.admitted key entry.request channel ∧
    ((entry.outcome = none ∧ entry.retained = .pending channel ∧
        ∃ c ∈ o.state.inputQueue, c.reply = .recoverable key channel) ∨
      ∃ s ∈ o.settled, s.1.reply = .recoverable key channel ∧ entry.outcome = some s.2)

theorem Sound.entryOrigin (h : Sound base o)
    (hl : o.state.inputOperations.lookup key = some entry) : EntryOrigin base o key entry := by
  cases hout : entry.outcome with
  | none =>
    cases entry with
    | pending request channel =>
      rcases request with ⟨expected,data⟩
      have hmem := h.lane.ledger.pending_queued key _ channel hl
      obtain ⟨e,he,horigin⟩ := h.lane.ledger.queued_pending _ hmem key channel rfl
      rw [hl] at he
      cases he
      obtain ⟨c,hc,hticket⟩ := List.mem_map.mp hmem
      exact Or.inr ⟨channel,horigin,Or.inl ⟨rfl,rfl,c,hc,congrArg Prod.snd hticket⟩⟩
    | completed request range => cases hout
    | unknown request failure => cases hout
  | some result =>
    rcases h.lane.ledger.outcome_answered key entry result hl hout with hb | ⟨channel,ho,s,hs,ht,hr⟩
    · exact Or.inl hb
    · exact Or.inr ⟨channel,ho,Or.inr ⟨s,hs,congrArg Prod.snd ht,by rw [hout,hr]⟩⟩

theorem Sound.admission_inj (h : Sound base o) {a b : Admission} (ha : a ∈ o.admitted)
    (hb : b ∈ o.admitted) (hc : a.reply.channel = b.reply.channel) : a = b := by
  have hnd : (o.admitted.map (·.reply.channel)).Nodup := by
    rw [h.lane.recorded.numbered]
    exact List.nodup_range
  exact List.inj_on_of_nodup_map hnd ha hb hc

theorem Sound.settlement_inj (h : Sound base o) {a b : Settlement} (ha : a ∈ o.settled)
    (hb : b ∈ o.settled) (hc : a.1.reply.channel = b.1.reply.channel) : a = b := by
  have hnd := h.lane.recorded.channels_nodup
  rw [List.map_append,List.nodup_append] at hnd
  have hnd' : (o.settled.map (·.1.reply.channel)).Nodup := by
    simpa [List.map_map,Function.comp_def] using hnd.1
  exact List.inj_on_of_nodup_map hnd' ha hb hc

theorem Sound.settled_not_queued (h : Sound base o) (hs : s ∈ o.settled) {c : InputCommand}
    (hc : c ∈ o.state.inputQueue) : s.1.reply.channel ≠ c.reply.channel := by
  have hnd := h.lane.recorded.channels_nodup
  rw [List.map_append,List.nodup_append] at hnd
  have hs' : s.1.reply.channel ∈ (o.settled.map (·.1)).map (·.reply.channel) := by
    simpa [List.map_map,Function.comp_def] using List.mem_map_of_mem (f := (·.1.reply.channel)) hs
  exact hnd.2.2 _ hs' _ (List.mem_map_of_mem hc)

/-- As long as its key is not admitted again, a retained entry keeps its request and,
once settled, its result. -/
theorem retained_stable (h : Sound base o) (h' : Sound base o') (hext : Extends o o')
    (hl : o.state.inputOperations.lookup key = some entry)
    (hl' : o'.state.inputOperations.lookup key = some entry')
    (hno : ∀ a ∈ o'.admitted, a ∉ o.admitted → ∀ channel, a.reply ≠ .recoverable key channel) :
    entry'.request = entry.request ∧ ∀ result, entry.outcome = some result →
      entry'.outcome = some result := by
  rcases h.entryOrigin hl with ⟨hbase,hnever⟩ | ⟨channel,horigin,hstate⟩
  · have hnever' : ∀ a ∈ o'.admitted, ∀ channel, a.reply ≠ .recoverable key channel := by
      intro a ha
      by_cases hold : a ∈ o.admitted
      · exact hnever a hold
      · exact hno a ha hold
    rcases h'.entryOrigin hl' with ⟨hbase',_⟩ | ⟨channel,horigin,_⟩
    · rw [hbase] at hbase'
      cases hbase'
      exact ⟨rfl,fun _ hr => hr⟩
    · exact absurd rfl (hnever' _ horigin.1 channel)
  · have hmem := hext.admitted.subset horigin.1
    rcases h'.entryOrigin hl' with ⟨_,hnever⟩ | ⟨channel',horigin',hstate'⟩
    · exact absurd rfl (hnever _ hmem channel)
    · have hchannel : channel' = channel := by
        have hle := horigin'.2 _ hmem channel rfl
        have hge : channel' ≤ channel := by
          by_cases hold : (⟨entry'.request.data,some entry'.request.expectedByte,
              .recoverable key channel'⟩ : Admission) ∈ o.admitted
          · exact horigin.2 _ hold channel' rfl
          · exact absurd rfl (hno _ horigin'.1 hold channel')
        omega
      subst hchannel
      have hadm := h'.admission_inj horigin'.1 hmem rfl
      simp only [Admission.mk.injEq,Option.some.injEq] at hadm
      have hrequest : entry'.request = entry.request := by
        rcases hreq : entry'.request with ⟨e',d'⟩
        rcases hreq' : entry.request with ⟨e,d⟩
        simp only [hreq,hreq'] at hadm
        simp [hadm.1,hadm.2.1]
      refine ⟨hrequest,?_⟩
      intro result hr
      rcases hstate with ⟨hnone,_⟩ | ⟨s,hs,hreply,hout⟩
      · rw [hr] at hnone
        cases hnone
      · have hs' := hext.settled.subset hs
        rcases hstate' with ⟨_,_,c,hc,hcr⟩ | ⟨s',hs'',hreply',hout'⟩
        · exact absurd (by rw [hreply,hcr]) (h'.settled_not_queued hs' hc)
        · have heq := h'.settlement_inj hs'' hs' (by rw [hreply,hreply'])
          rw [hout',heq,← hout,hr]

end Retry

/-- Exactly-once input over every run of the control machine: the answers are the
admissions in order, the PTY holds the completed payloads and one partial payload,
the completed ranges are consecutive, and a retained key answers its retry without
touching the control, with a result that later states keep. -/
theorem native_input_exactly_once (runId : String) (resources : ResourceLimits)
    (input : HandoffInputState) (closed : Bool) (es fs : List Event) :
    let o := Machine.run step (newWithComponents runId resources input closed) es
    let o' := Machine.run step o fs
    o.settled.map (·.1.ticket) ++ o.state.inputQueue.map (·.ticket) = o.admitted.map (·.ticket) ∧
    (∃ bytes, o.stream = o.settled.flatMap completedPayload ++ bytes ∧ PartialPayload o bytes) ∧
    Ranges input.appliedInputBytes o.settled o.state.appliedInputBytes ∧
    ∀ key entry, o.state.inputOperations.lookup key = some entry →
      (∀ funded, beginRecoverableInputLocked o key entry.request funded = (o,.ok entry.retained)) ∧
      EntryOrigin input o key entry ∧
      ∀ entry', o'.state.inputOperations.lookup key = some entry' →
        (∀ a ∈ o'.admitted, a ∉ o.admitted → ∀ channel, a.reply ≠ .recoverable key channel) →
          entry'.request = entry.request ∧
          ∀ result, entry.outcome = some result → entry'.outcome = some result := by
  intro o o'
  have h : Sound input o := reachable_sound runId resources input closed es
  have h' : Sound input o' :=
    Machine.run_invariant (I := Sound input) (fun _ e hs => sound_step hs e) h fs
  have hext : Extends o o' := extends_run fs o
  refine ⟨?_,h.stream_split,h.lane.answered.ranges,?_⟩
  · simpa [List.map_map,Function.comp_def] using h.lane.recorded.tickets
  · intro key entry hl
    refine ⟨retained_retry hl,h.entryOrigin hl,?_⟩
    intro entry' hl' hno
    exact retained_stable h h' hext hl hl' hno

def partialRun : List Event :=
  [.beginInput [1,2] true none,.beginTurn 4 4,.progress (.wrote 1) none,.progress .wouldBlock none]

/-- Between two owner turns the PTY may hold a part of a command that is not answered:
the stream is then not made of completed payloads and one Unknown command's bytes. -/
theorem partial_run_ahead_of_answers :
    ¬∃ bytes, (Machine.run step (newWithComponents "r" ⟨4,64,4,64⟩ .empty false) partialRun).stream =
        (Machine.run step (newWithComponents "r" ⟨4,64,4,64⟩ .empty false)
          partialRun).settled.flatMap completedPayload ++ bytes ∧
      (bytes = [] ∨ ∃ s ∈ (Machine.run step (newWithComponents "r" ⟨4,64,4,64⟩ .empty false)
        partialRun).settled, IsUnknown s ∧ bytes = s.1.written) := by
  have hstream : (Machine.run step (newWithComponents "r" ⟨4,64,4,64⟩ .empty false)
      partialRun).stream = [1] := by decide
  have hsettled : (Machine.run step (newWithComponents "r" ⟨4,64,4,64⟩ .empty false)
      partialRun).settled = [] := by decide
  rw [hstream,hsettled]
  rintro ⟨bytes,heq,rfl | ⟨s,hs,_⟩⟩
  · simp at heq
  · simp at hs

end NativeControl
end Ctxmux
