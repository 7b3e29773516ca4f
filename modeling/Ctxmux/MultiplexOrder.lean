import Ctxmux.MultiplexRun

/-!
# What a client may rely on

The statements about whole runs: which commands are answered and when, in which order
admissions take effect, when a terminal event is sent, and what a failed view still does.
-/

namespace Ctxmux
namespace Mux

open Attachment (LiveEventCursor Fences)
open Client (ControlOutcome)

variable {a : Connection} {node : PendingResult} {results : List PendingResult}
  {result : ControlOutcome}

/-- The states of a branch all have the same admissions behind them. -/
def Turn.Frozen (a : Connection) : Turn → Prop
  | .ok b => b.admitted = a.admitted ∧ b.observationClosed = a.observationClosed
  | .error b => b.admitted = a.admitted ∧ b.observationClosed = a.observationClosed

theorem send_frozen {base b : Connection} (frame : ServerFrame) {k : Connection → Turn}
    (hb : b.admitted = base.admitted ∧ b.observationClosed = base.observationClosed)
    (hk : ∀ c : Connection, c.admitted = base.admitted ∧
      c.observationClosed = base.observationClosed → Turn.Frozen base (k c)) :
    Turn.Frozen base (b.send frame >>= k) := by
  unfold Connection.send
  split
  · exact hb
  · exact hk _ hb
  · exact hk _ hb

theorem releaseStop_admitted (a : Connection) (isStop : Bool) :
    (a.releaseStop isStop).admitted = a.admitted := by
  unfold Connection.releaseStop
  split
  · split <;> rfl
  · rfl

theorem sendHeld_frozen {base b : Connection}
    (hb : b.admitted = base.admitted ∧ b.observationClosed = base.observationClosed) :
    Turn.Frozen base b.sendHeld := by
  unfold Connection.sendHeld
  split
  · split
    · exact send_frozen _ hb fun c hc => hc
    · exact hb
  · exact hb

theorem resultBranch_frozen (a : Connection) (index : ℕ) (reply : Reply) :
    Turn.Frozen a (a.resultBranch index reply) := by
  unfold Connection.resultBranch
  split
  · split
    · split
      · unfold Connection.answerResult
        apply send_frozen _ ⟨rfl,rfl⟩
        intro c hc
        apply sendHeld_frozen
        rw [releaseStop_admitted,releaseStop_observationClosed]
        exact hc
      · exact ⟨rfl,rfl⟩
    · exact ⟨rfl,rfl⟩
  · exact ⟨rfl,rfl⟩

theorem receiveBranch_frozen (hclosed : a.observationClosed = true) (frame : ClientFrame)
    (env : Connection.FrameEnv) : Turn.Frozen a (a.receiveBranch frame env) := by
  have hsend : ∀ (b : Connection) (frame : ServerFrame), b.admitted = a.admitted ∧
      b.observationClosed = a.observationClosed → Turn.Frozen a (b.send frame) := by
    intro b frame hb
    rw [← bind_pure (b.send frame)]
    exact send_frozen _ hb fun c hc => hc
  unfold Connection.receiveBranch
  split
  · exact send_frozen _ ⟨rfl,rfl⟩ fun c hc => hc
  · exact hsend a _ ⟨rfl,rfl⟩
  · exact hsend a _ ⟨rfl,rfl⟩
  · split
    · exact send_frozen _ ⟨rfl,rfl⟩ fun c hc => hc
    · next b hb =>
      have hsame : b.admitted = a.admitted ∧ b.observationClosed = a.observationClosed := by
        unfold Connection.observeCommandId at hb
        obtain ⟨-,hsome⟩ := Option.ite_none_right_eq_some.mp hb
        cases hsome
        exact ⟨rfl,rfl⟩
      rw [if_pos (hsame.2.trans hclosed)]
      exact hsend b _ hsame

theorem Live.branch_frozen (h : Live a) (hclosed : a.observationClosed = true)
    (event : Connection.Event) :
    Turn.Frozen a ({ a with observed := event.observed a }.branch event) := by
  cases event with
  | result room index reply => exact resultBranch_frozen { a with room := room } index reply
  | admission verdict =>
    have hempty := h.closed hclosed
    show Turn.Frozen a (.ok (a.admissionBranch verdict))
    unfold Connection.admissionBranch
    rw [hempty]
    exact ⟨rfl,rfl⟩
  | effect index =>
    show Turn.Frozen a (.ok (a.applyResult index))
    unfold Connection.applyResult
    split
    · split <;> exact ⟨rfl,rfl⟩
    · exact ⟨rfl,rfl⟩
  | frame room frame env =>
    exact receiveBranch_frozen (a := { a with room := room }) hclosed frame env
  | receiveFailed => exact ⟨rfl,rfl⟩
  | eof => exact ⟨rfl,rfl⟩
  | received room received =>
    show Turn.Frozen a (Connection.eventBranch _ received)
    unfold Connection.eventBranch
    dsimp only
    rw [hclosed]
    simp only [Bool.not_true,Bool.and_false,Bool.false_eq_true,if_false]
    exact ⟨rfl,hclosed.symm⟩

theorem loopHead_frozen (a : Connection) :
    a.loopHead.admitted = a.admitted ∧ a.loopHead.observationClosed = a.observationClosed := by
  unfold Connection.loopHead
  split <;> exact ⟨rfl,rfl⟩

theorem Kept.step_frozen (h : Kept a) (hclosed : a.observationClosed = true)
    (event : Connection.Event) :
    (a.step event).admitted = a.admitted ∧ (a.step event).observationClosed = true := by
  unfold Connection.step
  split
  · exact ⟨rfl,hclosed⟩
  · next halive =>
    rcases h with h | h
    · have hbranch := h.branch_frozen hclosed event
      split
      · next b hb =>
        rw [hb] at hbranch
        obtain ⟨hadmitted,hobservation⟩ := loopHead_frozen b
        exact ⟨hadmitted.trans hbranch.1,hobservation.trans (hbranch.2.trans hclosed)⟩
      · next b hb =>
        rw [hb] at hbranch
        exact ⟨hbranch.1,hbranch.2.trans hclosed⟩
    · exact absurd h.ended halive

/-- After an observation close no further admission takes effect. -/
theorem Kept.run_frozen (h : Kept a) (hclosed : a.observationClosed = true)
    (events : List Connection.Event) : (a.run events).admitted = a.admitted := by
  induction events generalizing a with
  | nil => rfl
  | cons event events ih =>
    obtain ⟨hadmitted,hstill⟩ := h.step_frozen hclosed event
    have hrest := ih (h.step event) hstill
    exact hrest.trans hadmitted

/-- The completion of the front admission or of a result. -/
def Connection.Event.isCompletion : Connection.Event → Bool
  | .admission _ | .result _ _ _ => true
  | _ => false

/-- An answer that every result future accepts. -/
def Source.lastReply : Source → Reply
  | .ready _ => .ready
  | .input => .input none
  | .signal _ => .signal none
  | .stop => .stop (.error (controlUnknown ⟨.internal,""⟩)) true

theorem Source.lastReply_resolve (source : Source) (runId : String) (applied : Bool)
    (hready : ∀ result, source = .ready result → Truthful applied result) :
    ∃ result, source.resolve runId source.lastReply = some result ∧ Truthful applied result := by
  cases source with
  | ready result => exact ⟨result,rfl,hready result rfl⟩
  | input => exact ⟨_,rfl,fun hd => (nomatch hd)⟩
  | signal signal => exact ⟨_,rfl,fun hd => (nomatch hd)⟩
  | stop => exact ⟨_,rfl,fun hd => (nomatch hd)⟩

/-- A verdict that the front admission of any kind accepts. -/
def ControlCommand.lastVerdict : ControlCommand → Verdict
  | .resize _ => .resized (.error (controlUnknown ⟨.internal,""⟩)) false
  | _ => .refused (controlUnknown ⟨.internal,""⟩)

theorem lastVerdict_finished (admission : PendingAdmission) :
    ∃ node, Connection.PendingAdmission.finished admission admission.command.lastVerdict = some node := by
  obtain ⟨commandId,isStop,command⟩ := admission
  cases command with
  | resize size =>
    have htruth : Truthful false (.rejected (controlUnknown ⟨.internal,""⟩)) := fun _ => rfl
    refine ⟨⟨commandId,isStop,.ready (.rejected (controlUnknown ⟨.internal,""⟩)),false⟩,?_⟩
    show (if Truthful false (.rejected (controlUnknown ⟨.internal,""⟩)) then _ else none) = _
    rw [if_pos htruth]
    rfl
  | _ => exact ⟨_,rfl⟩

/-- The front admission completes: one command less waits for it. -/
theorem Live.step_admission (h : Live a) {admission : PendingAdmission}
    {admissions : List PendingAdmission} (hadmissions : a.admissions = admission::admissions) :
    Live (a.step (.admission admission.command.lastVerdict)) ∧
      (a.step (.admission admission.command.lastVerdict)).admissions = admissions ∧
      (a.step (.admission admission.command.lastVerdict)).results.length = a.results.length+1 ∧
      (a.step (.admission admission.command.lastVerdict)).passed = a.passed := by
  obtain ⟨node,hnode⟩ := lastVerdict_finished admission
  have hstep : a.step (.admission admission.command.lastVerdict) =
      (a.admissionBranch admission.command.lastVerdict).loopHead := by
    unfold Connection.step
    rw [if_neg (by rw [h.alive]; exact Bool.false_ne_true)]
    rfl
  have hbranch : (a.admissionBranch admission.command.lastVerdict).admissions = admissions ∧
      (a.admissionBranch admission.command.lastVerdict).results.length = a.results.length+1 ∧
      (a.admissionBranch admission.command.lastVerdict).passed = a.passed := by
    unfold Connection.admissionBranch
    simp only [hadmissions,hnode]
    exact ⟨trivial,List.length_append,trivial⟩
  have hhead : (a.admissionBranch admission.command.lastVerdict).loopHead =
      a.admissionBranch admission.command.lastVerdict := by
    unfold Connection.loopHead
    rw [if_neg]
    intro hguard
    simp only [Bool.and_eq_true,List.isEmpty_iff] at hguard
    have hlength := hbranch.2.1
    rw [hguard.1.2] at hlength
    cases hlength
  rw [hstep,hhead]
  exact ⟨h.admissionBranch _,hbranch⟩

theorem releaseStop_frame (a : Connection) (isStop : Bool) :
    a.releaseStop isStop =
      { a with
        controls := (a.releaseStop isStop).controls
        underflow := (a.releaseStop isStop).underflow } := by
  unfold Connection.releaseStop
  split
  · split <;> rfl
  · rfl

theorem loopHead_sent (a : Connection) : a.loopHead.sent = a.sent := by
  unfold Connection.loopHead
  split <;> rfl

/-- The state after a result was sent and its Stop counted down. -/
def Connection.afterResult (a : Connection) (node : PendingResult) (results : List PendingResult)
    (result : ControlOutcome) : Connection :=
  ({ a with
    room := none, results := results
    sent := a.sent ++ [ServerFrame.commandResult node.commandId result] }).releaseStop node.isStop

/-- Without a failing write the rest of the result branch is the held event. -/
theorem step_result_eq (h : Live a) (hresults : a.results = node::results) {reply : Reply}
    (hresolve : node.source.resolve (toString a.runId) reply = some result)
    (htruth : Truthful node.applied result) :
    a.step (.result none 0 reply) =
      match (a.afterResult node results result).sendHeld with
      | .ok b => b.loopHead
      | .error b => b := by
  unfold Connection.step
  rw [if_neg (by rw [h.alive]; exact Bool.false_ne_true)]
  have hobserved : Connection.Event.observed a (.result none 0 reply) = a.observed := rfl
  rw [hobserved]
  have hbranch : a.branch (.result none 0 reply) = (a.afterResult node results result).sendHeld := by
    show Connection.resultBranch { a with room := none } 0 reply = _
    unfold Connection.resultBranch
    simp only [hresults,List.getElem?_cons_zero,hresolve,if_pos htruth]
    unfold Connection.answerResult Connection.send
    simp only [List.eraseIdx_cons_zero]
    rfl
  show (match a.branch (.result none 0 reply) with
    | .ok b => b.loopHead
    | .error b => b) = _
  rw [hbranch]

theorem Live.afterResult (h : Live a) (hresults : a.results = node::results)
    (htruth : Truthful node.applied result) : Core (a.afterResult node results result) [] 0 := by
  have hget : a.results[0]? = some node := by
    rw [hresults]
    rfl
  have htaken := h.toCore.takeResult hget
  rw [hresults,List.eraseIdx_cons_zero] at htaken
  have hunapplied : ∀ failure, result = .rejected failure →
      failure.disposition = .notApplied → node.commandId ∉ a.applied := by
    intro failure hresult hd happlied
    rw [hresult] at htruth
    have hnode := h.appliedNodes node (List.mem_of_getElem? hget) happlied
    rw [htruth hd] at hnode
    cases hnode
  exact (htaken.answer hunapplied none).release_if node.isStop

/-- A result completes: its command is answered, and either the loop goes on with one
result less or every command has its answer. -/
theorem Live.step_result (h : Live a) (hresults : a.results = node::results) {reply : Reply}
    (hresolve : node.source.resolve (toString a.runId) reply = some result)
    (htruth : Truthful node.applied result) :
    (Live (a.step (.result none 0 reply)) ∧
      (a.step (.result none 0 reply)).admissions = a.admissions ∧
      (a.step (.result none 0 reply)).results = results ∧
      (a.step (.result none 0 reply)).passed = a.passed) ∨
    ∀ commandId ∈ a.passed, commandId ∈ answered (a.step (.result none 0 reply)).sent := by
  have hcore := h.afterResult hresults htruth
  have hframe : (a.afterResult node results result).admissions = a.admissions ∧
      (a.afterResult node results result).results = results ∧
      (a.afterResult node results result).passed = a.passed ∧
      (a.afterResult node results result).room = none ∧
      (a.afterResult node results result).observationClosed = a.observationClosed ∧
      (a.afterResult node results result).observed =
        (a.afterResult node results result).controls.heldTerminal := by
    unfold Connection.afterResult
    rw [releaseStop_heldTerminal,releaseStop_frame]
    exact ⟨rfl,rfl,rfl,rfl,rfl,h.observed⟩
  rw [step_result_eq h hresults hresolve htruth]
  generalize a.afterResult node results result = b at hcore hframe
  obtain ⟨hadmissions,hrest,hpassed,hroom,hclosed,hobserved⟩ := hframe
  unfold Connection.sendHeld
  by_cases hquiet : b.quiet = true
  · right
    intro commandId hcommand
    have hanswered := hcore.all_answered hquiet commandId (hpassed ▸ hcommand)
    rw [if_pos hquiet]
    split
    · next c hc =>
      rw [loopHead_sent]
      split at hc
      · unfold Connection.send at hc
        simp only [hroom] at hc
        cases hc
        show commandId ∈ answered (b.sent ++ _)
        rw [answered_append]
        exact List.mem_append_left _ hanswered
      · cases hc
        exact hanswered
    · next c hc =>
      split at hc
      · unfold Connection.send at hc
        simp only [hroom] at hc
        cases hc
      · cases hc
  · left
    have hbusy := hcore.not_quiet hquiet
    have hhead : b.loopHead = b := by
      unfold Connection.loopHead
      rw [if_neg]
      intro hguard
      simp only [Bool.and_eq_true,List.isEmpty_iff] at hguard
      rcases hbusy with hbusy | hbusy
      · exact hbusy hguard.1.2
      · exact hbusy hguard.1.1.2
    rw [if_neg hquiet]
    dsimp only
    rw [hhead]
    refine ⟨⟨hcore,hobserved,fun _ => hbusy,?_⟩,hadmissions,hrest,hpassed⟩
    rw [hclosed,hadmissions]
    exact h.closed

/-- Completions alone answer every command that passed its check. -/
theorem Live.drained (n : ℕ) {a : Connection} (h : Live a)
    (hn : 2*a.admissions.length+a.results.length = n) :
    ∃ events, (∀ event ∈ events, event.isCompletion = true) ∧
      ∀ commandId ∈ a.passed, commandId ∈ answered (a.run events).sent := by
  induction n using Nat.strong_induction_on generalizing a with
  | _ n ih =>
    cases hadmissions : a.admissions with
    | cons admission admissions =>
      obtain ⟨hlive,hrest,hlength,hpassed⟩ := h.step_admission hadmissions
      have hlt : 2*(a.step (.admission admission.command.lastVerdict)).admissions.length+
          (a.step (.admission admission.command.lastVerdict)).results.length < n := by
        rw [hrest,hlength]
        rw [hadmissions,List.length_cons] at hn
        omega
      obtain ⟨events,hcompletions,hanswered⟩ := ih _ hlt hlive rfl
      rw [hpassed] at hanswered
      refine ⟨.admission admission.command.lastVerdict::events,?_,hanswered⟩
      intro event hevent
      rcases List.mem_cons.mp hevent with rfl | hevent
      · rfl
      · exact hcompletions event hevent
    | nil =>
      cases hresults : a.results with
      | cons node results =>
        obtain ⟨result,hresolve,htruth⟩ := node.source.lastReply_resolve (toString a.runId)
          node.applied (h.ready node (by rw [hresults]; exact List.mem_cons_self))
        rcases h.step_result hresults hresolve htruth with ⟨hlive,hsame,hrest,hpassed⟩ | hall
        · have hlt : 2*(a.step (.result none 0 node.source.lastReply)).admissions.length+
              (a.step (.result none 0 node.source.lastReply)).results.length < n := by
            rw [hsame,hrest]
            rw [hresults,List.length_cons] at hn
            omega
          obtain ⟨events,hcompletions,hanswered⟩ := ih _ hlt hlive rfl
          rw [hpassed] at hanswered
          refine ⟨.result none 0 node.source.lastReply::events,?_,hanswered⟩
          intro event hevent
          rcases List.mem_cons.mp hevent with rfl | hevent
          · rfl
          · exact hcompletions event hevent
        · refine ⟨[.result none 0 node.source.lastReply],?_,hall⟩
          intro event hevent
          rw [List.mem_singleton.mp hevent]
          rfl
      | nil =>
        refine ⟨[],fun _ hevent => (nomatch hevent),?_⟩
        intro commandId hcommand
        have hmem := h.account.mem_iff.mpr hcommand
        rw [hadmissions,hresults] at hmem
        show commandId ∈ answered a.sent
        simpa [resultIds,admissionIds] using hmem

/-- A command that passed its check and has no result yet. -/
def Unanswered (a : Connection) : Prop := ∃ commandId ∈ a.passed, commandId ∉ answered a.sent

/-- What holds of an attachment in every state that it reaches. A terminal event that was
received is held while a command is unanswered, and only then. -/
structure Multiplexed (a : Connection) : Prop where
  once : (answered a.sent).Nodup ∧ ∀ commandId ∈ answered a.sent, commandId ∈ a.passed
  account : a.ended = none →
    (answered a.sent ++ resultIds a.results ++ admissionIds a.admissions).Perm a.passed
  progress : a.ended = none → ∃ events, (∀ event ∈ events, event.isCompletion = true) ∧
    ∀ commandId ∈ a.passed, commandId ∈ answered (a.run events).sent
  order : a.admitted.Pairwise (· < ·)
  front : a.ended = none → (a.admitted ++ admissionIds a.admissions).Pairwise (· < ·)
  stops : a.ended = none → a.controls.pendingStops =
    a.admissions.countP (·.isStop)+a.results.countP (·.isStop)
  counted : a.underflow = false
  final : Final a.sent a.passed
  genuine : ∀ event, ServerFrame.event event ∈ a.sent → event.isTerminal = true →
    a.observed = some event
  held : ∀ event, a.observed = some event →
    (a.ended = none ∧ a.controls.heldTerminal = some event ∧ Unanswered a) ∨
    (a.ended = some .terminal ∧ a.sent.getLast? = some (.event event)) ∨
    ∃ reason, a.ended = some reason ∧ reason.isExternal = true
  frozen : a.observationClosed = true → ∀ events, (a.run events).admitted = a.admitted
  effects : ∀ commandId ∈ a.applied, commandId ∈ a.admitted
  honest : Honest a.sent a.applied

theorem Live.unanswered (h : Live a) (hheld : a.controls.heldTerminal.isSome = true) :
    Unanswered a := by
  have hnodup := h.nodup
  rw [List.append_nil,List.append_assoc,List.nodup_append] at hnodup
  have hapart : ∀ commandId ∈ resultIds a.results ++ admissionIds a.admissions,
      commandId ∈ a.passed ∧ commandId ∉ answered a.sent := by
    intro commandId hmem
    refine ⟨h.account.mem_iff.mp ?_,fun hanswered => hnodup.2.2 _ hanswered _ hmem rfl⟩
    rw [List.append_nil,List.append_assoc]
    exact List.mem_append_right _ hmem
  rcases h.waiting hheld with hresults | hadmissions
  · obtain ⟨node,hnode⟩ := List.exists_mem_of_ne_nil _ hresults
    exact ⟨node.commandId,hapart _ (List.mem_append_left _ (List.mem_map_of_mem hnode))⟩
  · obtain ⟨admission,hadmission⟩ := List.exists_mem_of_ne_nil _ hadmissions
    exact ⟨admission.commandId,
      hapart _ (List.mem_append_right _ (List.mem_map_of_mem hadmission))⟩

theorem Live.multiplexed (h : Live a) : Multiplexed a where
  once := ⟨h.facts.once,h.facts.known⟩
  account := fun _ => by
    have haccount := h.account
    rwa [List.append_nil] at haccount
  progress := fun _ => h.drained _ rfl
  order := h.facts.order
  front := fun _ => h.order
  stops := fun _ => by
    have hstops := h.stops
    omega
  counted := h.sound
  final := h.facts.final
  genuine := h.facts.genuine
  held := fun event hevent => by
    have hheld : a.controls.heldTerminal = some event := h.observed.symm.trans hevent
    exact Or.inl ⟨h.alive,hheld,h.unanswered (Option.isSome_of_eq_some hheld)⟩
  frozen := fun hclosed events => Kept.run_frozen (Or.inl h) hclosed events
  effects := h.effects
  honest := h.honest

theorem Over.multiplexed (h : Over a) : Multiplexed a := by
  have hended : a.ended ≠ none := by
    intro hnone
    have hsome := h.ended
    rw [hnone] at hsome
    cases hsome
  exact
    { once := ⟨h.once,h.known⟩
      account := fun halive => absurd halive hended
      progress := fun halive => absurd halive hended
      order := h.order
      front := fun halive => absurd halive hended
      stops := fun halive => absurd halive hended
      counted := h.sound
      final := h.final
      genuine := h.genuine
      held := fun event hevent => Or.inr (h.observed event hevent)
      frozen := fun hclosed events => Kept.run_frozen (Or.inr h) hclosed events
      effects := h.effects
      honest := h.honest }

/-- The commands of an attachment, in every run. -/
theorem commands_multiplexed (daemonInstance runId : ℕ) (liveCursor : LiveEventCursor)
    (sentFences : Fences) (events : List Connection.Event) :
    Multiplexed ((Connection.start daemonInstance runId liveCursor sentFences).run events) := by
  rcases run_kept daemonInstance runId liveCursor sentFences events with hlive | hover
  · exact hlive.multiplexed
  · exact hover.multiplexed

/-- An Input waits for its admission, the Run exits, and the client repeats the id. -/
def repeatedIdEvents : List Connection.Event :=
  let env : Connection.FrameEnv := ⟨.execute,none,true,true⟩
  [.frame none (.command 1 (.input 3)) env,
    .received none (.envelope ⟨.funded .exited,.zero,.zero⟩ ⟨some .exited,0,none⟩),
    .frame none (.command 1 (.input 3)) env]

/-- A repeated command id ends the connection while the terminal event is held: the event
is never sent, although the client neither detached nor disconnected and the upgrade gate
is not sealed. -/
theorem held_terminal_dropped_by_repeated_id :
    let a := (Connection.start 0 0 .zero ⟨0,0,0⟩).run repeatedIdEvents
    a.observed = some .exited ∧ a.ended = some .invalidCommandId ∧
      a.sent = [.error Connection.invalidCommandIdError] := by
  decide

end Mux
end Ctxmux
