import Ctxmux.MultiplexAccount

/-!
# Command multiplexing, in every run

Each branch of the loop keeps the account, so in every run a command is answered once,
admissions take effect in frame order, and a terminal event waits for the last result.
-/

namespace Ctxmux
namespace Mux

open Attachment (RunEvent LiveRunEvent LiveEventCursor Fences Authoritative LagRecovery
  recoverLaggedDelivery retainedBoundary)
open Client (ControlOutcome ControlFailure)

variable {a : Connection} {index : ℕ} {node : PendingResult}

theorem releaseStop_admissions (a : Connection) (isStop : Bool) :
    (a.releaseStop isStop).admissions = a.admissions := by
  unfold Connection.releaseStop
  split
  · split <;> rfl
  · rfl

theorem releaseStop_observationClosed (a : Connection) (isStop : Bool) :
    (a.releaseStop isStop).observationClosed = a.observationClosed := by
  unfold Connection.releaseStop
  split
  · split <;> rfl
  · rfl

theorem releaseStop_observed (a : Connection) (isStop : Bool) :
    (a.releaseStop isStop).observed = a.observed := by
  unfold Connection.releaseStop
  split
  · split <;> rfl
  · rfl

theorem releaseStop_heldTerminal (a : Connection) (isStop : Bool) :
    (a.releaseStop isStop).controls.heldTerminal = a.controls.heldTerminal := by
  unfold Connection.releaseStop
  split
  · split <;> rfl
  · rfl

/-- A completed result is taken from the set and owed to the client. -/
theorem Core.takeResult (h : Core a [] 0) (hget : a.results[index]? = some node) :
    Core { a with results := a.results.eraseIdx index } [node.commandId]
      (0+if node.isStop then 1 else 0) := by
  obtain ⟨hlt,hnode⟩ := List.getElem?_eq_some_iff.mp hget
  have hperm : (node::a.results.eraseIdx index).Perm a.results := by
    rw [← hnode]
    exact List.getElem_cons_eraseIdx_perm hlt
  have hsub : ∀ other ∈ a.results.eraseIdx index, other ∈ a.results :=
    fun other hother => List.mem_of_mem_eraseIdx hother
  refine { h with account := ?_, stops := ?_, admittedNodes := ?_, appliedNodes := ?_, ready := ?_ }
  · refine List.Perm.trans ?_ h.account
    have hids : (node.commandId::resultIds (a.results.eraseIdx index)).Perm (resultIds a.results) :=
      hperm.map _
    rw [List.perm_iff_count] at hids ⊢
    intro x
    have hx := hids x
    simp only [List.count_append,List.count_cons,List.count_nil] at hx ⊢
    omega
  · have hcount := hperm.countP_eq fun n => n.isStop
    rw [List.countP_cons] at hcount
    have hstops := h.stops
    dsimp only
    omega
  · exact fun other hother => h.admittedNodes other (hsub other hother)
  · exact fun other hother => h.appliedNodes other (hsub other hother)
  · exact fun other hother => h.ready other (hsub other hother)

theorem Live.answerResult (h : Live a) (hget : a.results[index]? = some node)
    {result : ControlOutcome} (htruth : Truthful node.applied result) :
    Turn.Kept (a.answerResult index node result) := by
  have htaken := h.toCore.takeResult hget
  have hmem : node ∈ a.results := List.mem_of_getElem? hget
  unfold Connection.answerResult
  apply send_bind htaken.facts
  intro room
  have hunapplied : ∀ failure, result = .rejected failure →
      failure.disposition = .notApplied → node.commandId ∉ a.applied := by
    intro failure hresult hd happlied
    rw [hresult] at htruth
    have hnode := h.appliedNodes node hmem happlied
    rw [htruth hd] at hnode
    cases hnode
  have hanswered := htaken.answer hunapplied room
  apply (hanswered.release_if node.isStop).sendHeld
  · rw [releaseStop_observed,releaseStop_heldTerminal]
    exact h.observed
  · rw [releaseStop_observationClosed,releaseStop_admissions]
    exact h.closed

theorem Live.resultBranch (h : Live a) (index : ℕ) (reply : Reply) :
    Turn.Kept (a.resultBranch index reply) := by
  unfold Connection.resultBranch
  split
  · next node hget =>
    split
    · next result _ =>
      split
      · next htruth => exact h.answerResult hget htruth
      · exact Or.inl h
    · exact Or.inl h
  · exact Or.inl h

theorem finished_spec {admission : PendingAdmission} {verdict : Verdict}
    (h : Connection.PendingAdmission.finished admission verdict = some node) :
    node.commandId = admission.commandId ∧ node.isStop = admission.isStop ∧
      ∀ result, node.source = .ready result → Truthful node.applied result := by
  unfold Connection.PendingAdmission.finished at h
  split at h
  · split at h
    · cases h
      exact ⟨rfl,rfl,fun _ hready => (nomatch hready)⟩
    · cases h
      exact ⟨rfl,rfl,fun _ hready => (nomatch hready)⟩
    · cases h
      exact ⟨rfl,rfl,fun _ hready => (nomatch hready)⟩
    · cases h
  · split at h
    · cases h
    · cases h
      refine ⟨rfl,rfl,?_⟩
      intro result hready
      cases hready
      exact fun _ => rfl
  · split at h
    · split at h
      · next htruth =>
        cases h
        refine ⟨rfl,rfl,?_⟩
        intro result hready
        cases hready
        exact htruth
      · cases h
    · cases h

/-- The front admission completes and its command belongs to its owner. -/
theorem Live.admissionBranch (h : Live a) (verdict : Verdict) : Live (a.admissionBranch verdict) := by
  unfold Connection.admissionBranch
  split
  · next admission admissions hadmissions =>
    split
    · next node hfinished =>
      obtain ⟨hid,hstop,hready⟩ := finished_spec hfinished
      have hids : admissionIds a.admissions = admission.commandId::admissionIds admissions := by
        rw [hadmissions]
        rfl
      have horder := h.order
      rw [hids] at horder
      obtain ⟨-,-,hcross⟩ := List.pairwise_append.mp horder
      have hnew : admission.commandId ∉ a.admitted := by
        intro hmem
        exact absurd (hcross _ hmem _ List.mem_cons_self) (lt_irrefl _)
      have happlied : admission.commandId ∉ a.applied := fun hmem => hnew (h.effects _ hmem)
      refine
        { h with
          account := ?_, order := ?_, entered := ?_, stops := ?_, honest := ?_, effects := ?_
          admittedNodes := ?_, appliedNodes := ?_, ready := ?_, waiting := ?_, closed := ?_ }
      · refine List.Perm.trans ?_ h.account
        rw [hids,List.perm_iff_count]
        intro x
        simp only [resultIds,List.map_append,List.map_cons,List.map_nil,List.count_append,
          List.count_cons,List.count_nil,hid]
        omega
      · rw [List.append_assoc]
        exact horder
      · intro commandId hmem
        rcases List.mem_append.mp hmem with hmem | hmem
        · exact h.entered commandId hmem
        · rw [List.mem_singleton.mp hmem]
          apply h.account.mem_iff.mp
          simp [hids]
      · have hstops := h.stops
        rw [hadmissions,List.countP_cons] at hstops
        dsimp only
        rw [List.countP_append,List.countP_singleton,hstop]
        omega
      · intro commandId failure hmem hd
        have hhonest := h.honest commandId failure hmem hd
        dsimp only
        split
        · intro happ
          rcases List.mem_append.mp happ with happ | happ
          · exact hhonest happ
          · have hanswered : commandId ∈ answered a.sent :=
              List.mem_filterMap.mpr ⟨_,hmem,rfl⟩
            have hnodup := h.nodup
            rw [hids] at hnodup
            rw [List.mem_singleton.mp happ] at hanswered
            have hcount := List.nodup_iff_count_le_one.mp hnodup admission.commandId
            have hpos := List.count_pos_iff.mpr hanswered
            simp only [List.count_append,List.count_cons_self] at hcount
            omega
        · exact hhonest
      · intro commandId hmem
        dsimp only at hmem ⊢
        split at hmem
        · rcases List.mem_append.mp hmem with hmem | hmem
          · exact List.mem_append_left _ (h.effects commandId hmem)
          · exact List.mem_append_right _ hmem
        · exact List.mem_append_left _ (h.effects commandId hmem)
      · intro other hother
        rcases List.mem_append.mp hother with hother | hother
        · exact List.mem_append_left _ (h.admittedNodes other hother)
        · rw [List.mem_singleton.mp hother,hid]
          exact List.mem_append_right _ List.mem_cons_self
      · intro other hother hmem
        dsimp only at hmem
        rcases List.mem_append.mp hother with hother | hother
        · have hne : other.commandId ≠ admission.commandId := by
            intro heq
            exact hnew (heq ▸ h.admittedNodes other hother)
          apply h.appliedNodes other hother
          split at hmem
          · rcases List.mem_append.mp hmem with hmem | hmem
            · exact hmem
            · exact absurd (List.mem_singleton.mp hmem) hne
          · exact hmem
        · rw [List.mem_singleton.mp hother] at hmem ⊢
          split at hmem
          · next happ => exact happ
          · rw [hid] at hmem
            exact absurd hmem happlied
      · intro other hother
        rcases List.mem_append.mp hother with hother | hother
        · exact h.ready other hother
        · rw [List.mem_singleton.mp hother]
          exact hready
      · intro _
        left
        simp
      · intro hclosed
        have hempty := h.closed hclosed
        rw [hadmissions] at hempty
        cases hempty
    · exact h
  · exact h

/-- Setting an element to one with the same image changes no image. -/
theorem map_set_same {α β : Type} (f : α → β) {l : List α} {x y : α} (hget : l[index]? = some x)
    (h : f y = f x) : (l.set index y).map f = l.map f := by
  obtain ⟨hlt,rfl⟩ := List.getElem?_eq_some_iff.mp hget
  have himage : f l[index] = (l.map f).get ⟨index,by rwa [List.length_map]⟩ := by
    rw [List.get_eq_getElem,List.getElem_map]
  rw [List.map_set,h,himage]
  exact List.set_getElem_self _

/-- The owner of an admitted command gives it its effect. -/
theorem Live.applied (h : Live a) (hget : a.results[index]? = some node)
    (hsource : ∀ result, node.source ≠ .ready result) :
    Live
      { a with
        results := a.results.set index { node with applied := true }
        applied := a.applied ++ [node.commandId] } := by
  have hmem : node ∈ a.results := List.mem_of_getElem? hget
  have hids : resultIds (a.results.set index { node with applied := true }) =
      resultIds a.results := map_set_same _ hget rfl
  have hcases : ∀ other ∈ a.results.set index { node with applied := true },
      other ∈ a.results ∨ other = { node with applied := true } := fun other hother =>
    List.mem_or_eq_of_mem_set hother
  refine
    { h with
      account := ?_, stops := ?_, honest := ?_, effects := ?_, admittedNodes := ?_
      appliedNodes := ?_, ready := ?_, waiting := ?_ }
  · dsimp only
    rw [hids]
    exact h.account
  · have hcount : (a.results.set index { node with applied := true }).countP (·.isStop) =
        a.results.countP (·.isStop) := by
      have hflags := map_set_same (fun n : PendingResult => n.isStop)
        (y := { node with applied := true }) hget rfl
      have hboth := congrArg (List.countP id) hflags
      rw [List.countP_map,List.countP_map] at hboth
      exact hboth
    dsimp only
    rw [hcount]
    exact h.stops
  · intro commandId failure hsent hd happ
    rcases List.mem_append.mp happ with happ | happ
    · exact h.honest commandId failure hsent hd happ
    · have hanswered : commandId ∈ answered a.sent := List.mem_filterMap.mpr ⟨_,hsent,rfl⟩
      rw [List.mem_singleton.mp happ] at hanswered
      have hresult : node.commandId ∈ resultIds a.results := List.mem_map.mpr ⟨node,hmem,rfl⟩
      have hcount := List.nodup_iff_count_le_one.mp h.nodup node.commandId
      have hpos := List.count_pos_iff.mpr hanswered
      have hpos' := List.count_pos_iff.mpr hresult
      simp only [List.count_append] at hcount
      omega
  · intro commandId hcommand
    rcases List.mem_append.mp hcommand with hcommand | hcommand
    · exact h.effects commandId hcommand
    · rw [List.mem_singleton.mp hcommand]
      exact h.admittedNodes node hmem
  · intro other hother
    rcases hcases other hother with hold | hnew
    · exact h.admittedNodes other hold
    · rw [hnew]
      exact h.admittedNodes node hmem
  · intro other hother hcommand
    rcases hcases other hother with hold | hnew
    · rcases List.mem_append.mp hcommand with hcommand | hcommand
      · exact h.appliedNodes other hold hcommand
      · have hnodup : (resultIds (a.results.set index { node with applied := true })).Nodup := by
          rw [hids]
          have hall := h.nodup
          rw [List.append_assoc,List.append_assoc] at hall
          exact (List.nodup_append.mp (List.nodup_append.mp hall).2.1).1
        have hlt := (List.getElem?_eq_some_iff.mp hget).1
        have hsame := List.inj_on_of_nodup_map hnodup hother (List.mem_set hlt _)
          (List.mem_singleton.mp hcommand)
        rw [hsame]
    · rw [hnew]
  · intro other hother
    rcases hcases other hother with hold | hnew
    · exact h.ready other hold
    · rw [hnew]
      intro result hresult
      exact absurd hresult (hsource result)
  · intro hheld
    rcases h.waiting hheld with hresults | hadmissions
    · left
      intro hnil
      apply hresults
      rw [← List.length_eq_zero_iff] at hnil ⊢
      rwa [List.length_set] at hnil
    · exact Or.inr hadmissions

theorem Live.applyResult (h : Live a) (index : ℕ) : Live (a.applyResult index) := by
  unfold Connection.applyResult
  split
  · next node hget =>
    split
    · exact h
    · next hsource => exact h.applied hget hsource
  · exact h

theorem observeCommandId_spec {commandId : CommandId} {b : Connection} (h : Core a [] 0)
    (hb : a.observeCommandId commandId = some b) :
    b = { a with
      controls := { a.controls with lastCommandId := some commandId }
      passed := a.passed ++ [commandId] } ∧ ∀ other ∈ a.passed, other < commandId := by
  unfold Connection.observeCommandId at hb
  cases hlast : a.controls.lastCommandId with
  | none =>
    simp only [hlast] at hb
    split at hb
    · refine ⟨(Option.some.inj hb).symm,?_⟩
      intro other hother
      obtain ⟨last,hsome,-⟩ := h.fence other hother
      rw [hlast] at hsome
      cases hsome
    · cases hb
  | some last =>
    simp only [hlast] at hb
    split at hb
    · next hvalid =>
      refine ⟨(Option.some.inj hb).symm,?_⟩
      intro other hother
      obtain ⟨last',hsome,hle⟩ := h.fence other hother
      rw [hlast] at hsome
      cases hsome
      have hlt : last < commandId := of_decide_eq_true hvalid
      exact lt_of_le_of_lt hle hlt
    · cases hb

/-- A command whose id passed its check is owed a result. -/
theorem Core.observe (h : Core a [] 0) {commandId : CommandId}
    (hfresh : ∀ other ∈ a.passed, other < commandId) :
    Core
      { a with
        controls := { a.controls with lastCommandId := some commandId }
        passed := a.passed ++ [commandId] } [commandId] 0 := by
  refine { h with account := ?_, increasing := ?_, fence := ?_, entered := ?_ }
  · have haccount := h.account
    rw [List.append_nil] at haccount
    exact haccount.append_right _
  · dsimp only
    rw [List.pairwise_append]
    refine ⟨h.increasing,List.pairwise_singleton _ _,?_⟩
    intro x hx y hy
    rw [List.mem_singleton.mp hy]
    exact hfresh x hx
  · intro other hother
    refine ⟨commandId,rfl,?_⟩
    rcases List.mem_append.mp hother with hother | hother
    · exact le_of_lt (hfresh other hother)
    · exact le_of_eq (List.mem_singleton.mp hother)
  · exact fun other hother => List.mem_append_left _ (h.entered other hother)

theorem Live.rejected {commandId : CommandId} (h : Core a [commandId] 0)
    (hobserved : a.observed = a.controls.heldTerminal)
    (hwaiting : a.controls.heldTerminal.isSome = true → a.results ≠ [] ∨ a.admissions ≠ [])
    (hclosed : a.observationClosed = true → a.admissions = [])
    (hunapplied : commandId ∉ a.applied) (failure : ControlFailure) :
    Turn.Kept (a.reject commandId failure) := by
  have hbind : a.reject commandId failure = a.reject commandId failure >>= fun b => pure b :=
    (bind_pure _).symm
  rw [hbind]
  apply send_bind h.facts
  intro room
  exact Or.inl ⟨h.answer (fun _ _ _ => hunapplied) room,hobserved,hwaiting,hclosed⟩

theorem Core.queue {commandId : CommandId} (h : Core a [commandId] 0)
    (hlast : ∀ other ∈ a.admitted ++ admissionIds a.admissions, other < commandId) (isStop : Bool)
    (command : ControlCommand) :
    Core
      { a with
        admissions := a.admissions ++ [⟨commandId,isStop,command⟩]
        controls := { a.controls with
          pendingStops := a.controls.pendingStops+if isStop then 1 else 0 } } [] 0 := by
  have hids : admissionIds (a.admissions ++ [⟨commandId,isStop,command⟩]) =
      admissionIds a.admissions ++ [commandId] := List.map_append
  refine { h with account := ?_, order := ?_, stops := ?_ }
  · dsimp only
    rw [hids,← List.append_assoc,List.append_nil]
    exact h.account
  · dsimp only
    rw [hids,← List.append_assoc,List.pairwise_append]
    refine ⟨h.order,List.pairwise_singleton _ _,?_⟩
    intro x hx y hy
    rw [List.mem_singleton.mp hy]
    exact hlast x hx
  · have hstops := h.stops
    dsimp only
    rw [List.countP_append,List.countP_singleton]
    dsimp only
    omega

/-- A fresh command on an open view, before it is queued or refused. -/
structure Fresh (a : Connection) (commandId : CommandId) : Prop where
  core : Core a [commandId] 0
  observed : a.observed = a.controls.heldTerminal
  waiting : a.controls.heldTerminal.isSome = true → a.results ≠ [] ∨ a.admissions ≠ []
  closed : a.observationClosed = true → a.admissions = []
  last : ∀ other ∈ a.admitted ++ admissionIds a.admissions, other < commandId
  unapplied : commandId ∉ a.applied

theorem Live.fresh (h : Live a) {commandId : CommandId}
    (hfresh : ∀ other ∈ a.passed, other < commandId) :
    Fresh
      { a with
        controls := { a.controls with lastCommandId := some commandId }
        passed := a.passed ++ [commandId] } commandId where
  core := h.toCore.observe hfresh
  observed := h.observed
  waiting := h.waiting
  closed := h.closed
  last := by
    intro other hother
    apply hfresh
    rcases List.mem_append.mp hother with hother | hother
    · exact h.entered other hother
    · apply h.account.mem_iff.mp
      simp [hother]
  unapplied := by
    intro happlied
    have hpassed := h.entered _ (h.effects _ happlied)
    exact lt_irrefl _ (hfresh _ hpassed)

namespace Fresh

variable {commandId : CommandId}

theorem reject (h : Fresh a commandId) (failure : ControlFailure) :
    Turn.Kept (a.reject commandId failure) :=
  Live.rejected h.core h.observed h.waiting h.closed h.unapplied failure

section

variable (h : Fresh a commandId) (hopen : a.observationClosed = false)
include h hopen

theorem queue (isStop : Bool) (command : ControlCommand) :
    Live
      { a with
        admissions := a.admissions ++ [⟨commandId,isStop,command⟩]
        controls := { a.controls with
          pendingStops := a.controls.pendingStops+if isStop then 1 else 0 } } where
  toCore := h.core.queue h.last isStop command
  observed := h.observed
  waiting := fun _ => Or.inr (by simp)
  closed := fun hclosed => by
    have hfalse : a.observationClosed = true := hclosed
    rw [hopen] at hfalse
    cases hfalse

theorem pushAdmission (env : Connection.FrameEnv) (command : ControlCommand) {b : Connection}
    (hb : a.pushAdmission env ⟨commandId,false,command⟩ = .ok b) : Live b := by
  unfold Connection.pushAdmission at hb
  split at hb
  · cases hb
  · split at hb
    · cases hb
      exact h.queue hopen false command
    · cases hb

theorem handleStopCommand (env : Connection.FrameEnv) (operation : RecoverableStop) :
    Turn.Kept (a.handleStopCommand env commandId operation) := by
  unfold Connection.handleStopCommand
  split
  · exact h.reject _
  · split
    · next b hb =>
      left
      unfold Connection.pushAdmission at hb
      split at hb
      · cases hb
      · split at hb
        · cases hb
          exact h.queue hopen true (.stop operation)
        · cases hb
    · exact h.reject _

theorem executeCommand (env : Connection.FrameEnv) (command : ControlCommand) :
    Turn.Kept (a.executeCommand env commandId command) := by
  unfold Connection.executeCommand
  split
  · exact h.handleStopCommand hopen env _
  · next bytes =>
    split
    · next b hb =>
      left
      unfold Connection.queueInputAdmission at hb
      split at hb
      · cases hb
      · split at hb
        · exact h.pushAdmission hopen env (.input bytes) hb
        · cases hb
    · exact h.reject _
  · split
    · next b hb => exact Or.inl (h.pushAdmission hopen env _ hb)
    · exact h.reject _

theorem handleCommand (env : Connection.FrameEnv) (command : ControlCommand) :
    Turn.Kept (a.handleCommand env commandId command) := by
  unfold Connection.handleCommand
  split
  · exact h.executeCommand hopen env command
  · exact h.reject _
  · exact Or.inr (h.core.facts.external rfl)

end

end Fresh

/-- A frame that answers nothing and is not an event keeps the account. -/
theorem Live.plain {frame : ServerFrame} (h : Live a) (hanswers : frame.answers = none)
    (hterminal : frame.isTerminal = false) (room : Option ℕ) :
    Live { a with room := room, sent := a.sent ++ [frame] } :=
  ⟨h.toCore.plain hanswers hterminal room,h.observed,h.waiting,h.closed⟩

theorem Live.receiveBranch (h : Live a) (frame : ClientFrame) (env : Connection.FrameEnv) :
    Turn.Kept (a.receiveBranch frame env) := by
  have hplain : ∀ frame : ServerFrame, frame.answers = none → frame.isTerminal = false →
      Turn.Kept (a.send frame) := by
    intro frame hanswers hterminal
    rw [← bind_pure (a.send frame)]
    apply send_bind h.facts
    intro room
    exact Or.inl (h.plain hanswers hterminal room)
  have hend : ∀ (frame : ServerFrame) (reason : End), frame.answers = none →
      frame.isTerminal = false → reason.isExternal = true →
      Turn.Kept (a.send frame >>= fun b => pure (b.finish reason)) := by
    intro frame reason hanswers hterminal hreason
    apply send_bind h.facts
    intro room
    exact Or.inr ((h.plain hanswers hterminal room).facts.external hreason)
  unfold Connection.receiveBranch
  split
  · exact hend _ _ rfl rfl rfl
  · exact hplain _ rfl rfl
  · exact hplain _ rfl rfl
  · next commandId command =>
    split
    · exact hend _ _ rfl rfl rfl
    · next b hb =>
      obtain ⟨rfl,hlast⟩ := observeCommandId_spec h.toCore hb
      have hfresh := h.fresh hlast
      split
      · exact hfresh.reject _
      · next hopen => exact hfresh.handleCommand (Bool.eq_false_iff.mpr hopen) env command

/-- The view still observes: nothing is held and it has not failed. What the event that
is being received brings may have been noted already. -/
structure Observing (a : Connection) : Prop extends Core a [] 0 where
  unheld : a.controls.heldTerminal = none
  attached : a.observationClosed = false

theorem Observing.live (h : Observing a) (hobserved : a.observed = none) : Live a where
  toCore := h.toCore
  observed := hobserved.trans h.unheld.symm
  waiting := fun hheld => by
    rw [h.unheld] at hheld
    cases hheld
  closed := fun hclosed => by
    rw [h.attached] at hclosed
    cases hclosed

theorem Observing.event {event : RunEvent} (h : Observing a) (hevent : event.isTerminal = false)
    (room : Option ℕ) : Observing { a with room := room, sent := a.sent ++ [.event event] } := by
  have hframe : (ServerFrame.event event).isTerminal = false := hevent
  exact ⟨h.toCore.plain rfl hframe room,h.unheld,h.attached⟩

theorem Observing.sendEvents (events : List RunEvent) {a : Connection} (h : Observing a)
    (hevents : ∀ event ∈ events, event.isTerminal = false) {k : Connection → Turn}
    (hk : ∀ b, Observing b → b.observed = a.observed → Turn.Kept (k b)) :
    Turn.Kept (a.sendEvents events >>= k) := by
  induction events generalizing a with
  | nil => exact hk a h rfl
  | cons event events ih =>
    unfold Connection.sendEvents
    rw [bind_assoc]
    apply send_bind h.facts
    intro room
    apply ih (h.event (hevents event List.mem_cons_self) room) _ hk
    exact fun other hother => hevents other (List.mem_cons_of_mem _ hother)

theorem recover_events (authoritative : Authoritative) (delivered retained : LiveEventCursor)
    (sent : Fences) :
    ∀ event ∈ (recoverLaggedDelivery authoritative delivered retained sent).1,
      event.isTerminal = false := by
  intro event hevent
  unfold recoverLaggedDelivery at hevent
  split at hevent
  · rw [List.mem_singleton.mp hevent]
    rfl
  · by_cases hlost : (Attachment.lostOutputMarker delivered retained ||
        Attachment.lostOutputBytes retained sent || Attachment.lostResize retained sent) = true
    · simp only [hlost,if_true] at hevent
      split at hevent
      · rcases List.mem_append.mp hevent with hevent | hevent
        · rw [List.mem_singleton.mp hevent]
          rfl
        · rw [List.mem_singleton.mp hevent]
          rfl
      · rw [List.mem_singleton.mp hevent]
        rfl
    · simp only [hlost] at hevent
      split at hevent
      · rw [List.mem_singleton.mp hevent]
        rfl
      · cases hevent

theorem recover_terminal {authoritative : Authoritative} {delivered retained : LiveEventCursor}
    {sent : Fences} {event : RunEvent}
    (h : (recoverLaggedDelivery authoritative delivered retained sent).2.2 = .terminal event) :
    event.isTerminal = true := by
  have hstate : ∀ state, (Attachment.terminalEvent state).isTerminal = true := by
    intro state
    cases state <;> rfl
  unfold recoverLaggedDelivery at h
  split at h
  · dsimp only at h
    split at h
    · cases h
    · cases h
      exact hstate _
  · dsimp only at h
    split at h
    · split at h
      · cases h
        exact hstate _
      · cases h
    · cases h

theorem Observing.observeTerminal (h : Observing a) {event : RunEvent}
    (hterminal : event.isTerminal = true) (hobserved : a.observed = some event) :
    Turn.Kept (a.observeTerminal event) := by
  unfold Connection.observeTerminal
  split
  · next hquiet => exact h.toCore.sendTerminal hquiet rfl rfl rfl rfl rfl hobserved
  · next hquiet =>
    left
    refine
      { h.toCore with
        held := ?_, observed := hobserved, waiting := fun _ => h.toCore.not_quiet hquiet
        closed := ?_ }
    · intro other hother
      cases hother
      exact ⟨hterminal,h.attached⟩
    · intro hclosed
      have hattached := h.attached
      rw [show a.observationClosed = true from hclosed] at hattached
      cases hattached

theorem Observing.deliver (h : Observing a) (event : RunEvent)
    (hobserved : a.observed = (some event).filter RunEvent.isTerminal) :
    Turn.Kept (a.deliver event) := by
  have hsend : ∀ (b : Connection) (event : RunEvent), Observing b → event.isTerminal = false →
      b.observed = none → Turn.Kept (b.send (.event event)) := by
    intro b event hb hevent hnone
    rw [← bind_pure (b.send (.event event))]
    apply send_bind hb.facts
    intro room
    exact Or.inl ((hb.event hevent room).live hnone)
  have hfences : ∀ fences, Observing { a with sentFences := fences } :=
    fun fences => ⟨{ h.toCore with },h.unheld,h.attached⟩
  unfold Connection.deliver
  split
  · split
    · exact Or.inl (h.live hobserved)
    · exact hsend _ _ (hfences _) rfl hobserved
  · split
    · exact Or.inl (h.live hobserved)
    · exact hsend _ _ (hfences _) rfl hobserved
  · split
    · exact Or.inl (h.live hobserved)
    · exact hsend _ _ (hfences _) rfl hobserved
  · exact h.observeTerminal rfl hobserved
  · exact h.observeTerminal rfl hobserved
  · exact hsend _ _ h rfl hobserved
  · exact hsend _ _ h rfl hobserved
  · exact hsend _ _ h rfl hobserved

theorem Observing.acceptEnvelope (h : Observing a) (envelope : LiveRunEvent)
    (hobserved : a.observed = envelope.event.filter RunEvent.isTerminal) :
    Turn.Kept (a.acceptEnvelope envelope) := by
  have hmoved : Observing { a with liveCursor := envelope.after } :=
    ⟨{ h.toCore with },h.unheld,h.attached⟩
  unfold Connection.acceptEnvelope
  dsimp only
  split
  · next hnone =>
    rw [hnone] at hobserved
    exact Or.inl (hmoved.live hobserved)
  · next event hevent =>
    rw [hevent] at hobserved
    exact hmoved.deliver event hobserved

/-- Unadmitted commands are answered without having had an effect. -/
theorem Core.cancelUnadmitted (admissions : List PendingAdmission) {a : Connection}
    (h : Core a [] 0) (hadmissions : a.admissions = admissions)
    (hunheld : a.controls.heldTerminal = none) (hobserved : a.observed = none) :
    Turn.Kept (a.cancelUnadmitted admissions) := by
  induction admissions generalizing a with
  | nil =>
    refine Or.inl ⟨h,hobserved.trans hunheld.symm,?_,fun _ => hadmissions⟩
    rw [hunheld]
    exact fun hsome => (nomatch hsome)
  | cons admission admissions ih =>
    have hids : admissionIds a.admissions = admission.commandId::admissionIds admissions := by
      rw [hadmissions]
      rfl
    have horder := h.order
    rw [hids] at horder
    obtain ⟨hadmitted,hrest,hcross⟩ := List.pairwise_append.mp horder
    have hunapplied : admission.commandId ∉ a.applied := by
      intro happlied
      exact lt_irrefl _ (hcross _ (h.effects _ happlied) _ List.mem_cons_self)
    have htaken : Core { a with admissions := admissions } [admission.commandId]
        (0+if admission.isStop then 1 else 0) := by
      refine { h with account := ?_, order := ?_, stops := ?_ }
      · refine List.Perm.trans ?_ h.account
        rw [hids,List.perm_iff_count]
        intro x
        simp only [List.count_append,List.count_cons,List.count_nil]
        omega
      · dsimp only
        rw [List.pairwise_append]
        exact ⟨hadmitted,(List.pairwise_cons.mp hrest).2,fun x hx y hy =>
          hcross x hx y (List.mem_cons_of_mem _ hy)⟩
      · have hstops := h.stops
        rw [hadmissions,List.countP_cons] at hstops
        dsimp only
        omega
    unfold Connection.cancelUnadmitted
    apply send_bind htaken.facts
    intro room
    have htruth : ∀ failure, ControlOutcome.rejected (observationClosedFailure admission.isStop) =
        .rejected failure → failure.disposition = .notApplied → admission.commandId ∉ a.applied :=
      fun _ _ _ => hunapplied
    have hanswered := htaken.answer htruth room
    apply ih (hanswered.release_if admission.isStop)
    · rw [releaseStop_admissions]
    · rw [releaseStop_heldTerminal]
      exact hunheld
    · rw [releaseStop_observed]
      exact hobserved

theorem Observing.handleEnvelope (h : Observing a) (envelope : LiveRunEvent)
    (authoritative : Authoritative)
    (hobserved : a.observed = (Connection.Received.envelope envelope authoritative).terminal a) :
    Turn.Kept (a.handleEnvelope envelope authoritative) := by
  unfold Connection.Received.terminal at hobserved
  unfold Connection.handleEnvelope
  split
  · next hlagged =>
    dsimp only at hobserved ⊢
    rw [if_pos hlagged] at hobserved
    apply Observing.sendEvents _ _ (recover_events _ _ _ _)
    · intro b hb hsame
      rw [← hsame] at hobserved
      split
      · next hproceed =>
        rw [hproceed] at hobserved
        exact hb.acceptEnvelope envelope hobserved
      · next hclose =>
        rw [hclose] at hobserved
        have hclosed : Core { b with observationClosed := true } [] 0 := by
          refine { hb.toCore with held := ?_ }
          intro event hevent
          have hnone := hb.unheld
          rw [show b.controls.heldTerminal = some event from hevent] at hnone
          cases hnone
        exact hclosed.cancelUnadmitted b.admissions rfl hb.unheld hobserved
      · next event hrecovery =>
        rw [hrecovery] at hobserved
        exact hb.observeTerminal (recover_terminal hrecovery) hobserved
    · exact ⟨{ h.toCore with },h.unheld,h.attached⟩
  · next hinline =>
    dsimp only at hobserved
    rw [if_neg hinline] at hobserved
    exact h.acceptEnvelope envelope hobserved

/-- The event that is received is noted before its branch; the branch shows it, holds it
or loses the connection. -/
theorem Live.eventBranch (h : Live a) (room : Option ℕ) (received : Connection.Received) :
    Turn.Kept (Connection.eventBranch
      { a with
        observed := (Connection.Event.received room received).observed a, room := room }
      received) := by
  have hsame : a.observed.isNone = a.controls.heldTerminal.isNone := by rw [h.observed]
  unfold Connection.eventBranch Connection.Event.observed
  dsimp only
  rw [hsame]
  split
  · next hguard =>
    rw [Bool.and_eq_true,Bool.not_eq_true',Option.isNone_iff_eq_none] at hguard
    have hobserving : ∀ observed, Observing { a with observed := observed, room := room } :=
      fun observed => ⟨{ h.toCore with },hguard.1,hguard.2⟩
    split
    · exact (hobserving _).handleEnvelope _ _ rfl
    · have hlagged : Observing
          { a with observed := none, room := room, receiverLagged := true } :=
        ⟨{ h.toCore with },hguard.1,hguard.2⟩
      exact Or.inl (hlagged.live rfl)
    · right
      refine ⟨{ (hobserving none).facts with },rfl,?_⟩
      intro event hevent
      cases hevent
  · exact Or.inl ⟨{ h.toCore with },h.observed,h.waiting,h.closed⟩

theorem Live.loopHead (h : Live a) : Kept a.loopHead := by
  unfold Connection.loopHead
  split
  · next hguard =>
    simp only [Bool.and_eq_true] at hguard
    right
    refine ⟨{ h.facts with },rfl,?_⟩
    intro event hevent
    have hheld : a.controls.heldTerminal = some event := h.observed.symm.trans hevent
    have hopen := (h.held event hheld).2
    rw [hguard.1.1.1] at hopen
    cases hopen
  · exact Or.inl h

theorem Over.loopHead (h : Over a) : a.loopHead = a := by
  unfold Connection.loopHead
  rw [if_neg]
  intro hguard
  simp only [Bool.and_eq_true,Option.isNone_iff_eq_none] at hguard
  have hended := h.ended
  rw [hguard.2] at hended
  cases hended

theorem Live.branch (h : Live a) (event : Connection.Event) :
    Turn.Kept ({ a with observed := event.observed a }.branch event) := by
  have hroom : ∀ room, Live { a with room := room } :=
    fun room => ⟨{ h.toCore with },h.observed,h.waiting,h.closed⟩
  cases event with
  | result room index reply => exact (hroom room).resultBranch index reply
  | admission verdict => exact Or.inl (h.admissionBranch verdict)
  | effect index => exact Or.inl (h.applyResult index)
  | frame room frame env => exact (hroom room).receiveBranch frame env
  | receiveFailed => exact Or.inr (h.facts.external rfl)
  | eof => exact Or.inr (h.facts.external rfl)
  | received room received => exact h.eventBranch room received

theorem Kept.step (h : Kept a) (event : Connection.Event) : Kept (a.step event) := by
  unfold Connection.step
  rcases h with h | h
  · rw [if_neg (by rw [h.alive]; exact Bool.false_ne_true)]
    have hbranch := h.branch event
    split
    · next b hb =>
      rw [hb] at hbranch
      rcases hbranch with hlive | hover
      · exact hlive.loopHead
      · rw [hover.loopHead]
        exact Or.inr hover
    · next b hb =>
      rw [hb] at hbranch
      exact Or.inr hbranch
  · rw [if_pos h.ended]
    exact Or.inr h

theorem start_live (daemonInstance runId : ℕ) (liveCursor : LiveEventCursor) (sentFences : Fences) :
    Live (.start daemonInstance runId liveCursor sentFences) where
  alive := rfl
  account := List.Perm.refl _
  increasing := List.Pairwise.nil
  fence := fun _ hmem => (nomatch hmem)
  order := List.Pairwise.nil
  entered := fun _ hmem => (nomatch hmem)
  stops := rfl
  silent := fun _ hmem => (nomatch hmem)
  held := fun _ hheld => (nomatch hheld)
  honest := fun _ _ hmem => (nomatch hmem)
  effects := fun _ hmem => (nomatch hmem)
  admittedNodes := fun _ hmem => (nomatch hmem)
  appliedNodes := fun _ hmem => (nomatch hmem)
  ready := fun _ hmem => (nomatch hmem)
  sound := rfl
  observed := rfl
  waiting := fun hheld => (nomatch hheld)
  closed := fun _ => rfl

theorem run_kept (daemonInstance runId : ℕ) (liveCursor : LiveEventCursor) (sentFences : Fences)
    (events : List Connection.Event) :
    Kept ((Connection.start daemonInstance runId liveCursor sentFences).run events) :=
  Machine.run_invariant (I := Kept) (fun _ event h => h.step event)
    (Or.inl (start_live daemonInstance runId liveCursor sentFences)) events

end Mux
end Ctxmux
