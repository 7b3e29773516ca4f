import Ctxmux.NativeService

/-!
# The published service history never regresses

The snapshots that the cell publishes form a chain. The one step that can break it is a
publication of an open lane after the owner has announced its stop: the control learns of
the loss only from the fence.
-/

namespace Ctxmux
namespace Service

def NativeOwnerStatus.isStopped : NativeOwnerStatus → Bool
  | .stopped _ => true
  | _ => false

/-- What one published change may do to the snapshot before it. -/
structure Follows (a b : NativeServiceSnapshot) : Prop where
  revision : b.revision = a.revision+1
  changed : { b with revision := a.revision } ≠ a
  owner : a.owner.isStopped → b.owner.isStopped
  output : a.output = .closed → b.output = .closed
  fault : ∀ fault, a.terminalFault = some fault → b.terminalFault = some fault

/-- A snapshot with a stopped owner serves neither input nor output. -/
structure Consistent (a : NativeServiceSnapshot) : Prop where
  input : a.owner.isStopped → a.input.phase ≠ .opened
  serving : a.owner.isStopped → a.output ≠ .serving
  backpressured : a.owner.isStopped → a.output ≠ .backpressured

/-- The history of a cell from its first snapshot on. -/
structure NativeService.NeverRegresses (first : NativeServiceSnapshot) (c : NativeService) :
    Prop where
  chain : (first::c.published).IsChain Follows
  consistent : ∀ a ∈ first::c.published, Consistent a
  current : (first::c.published).getLast? = some c.snapshot

namespace NativeService

variable {first : NativeServiceSnapshot} {c : NativeService}

theorem new_neverRegresses (historical : Bool) :
    (new historical).NeverRegresses (firstSnapshot historical) where
  chain := List.isChain_singleton _
  consistent := by
    intro a ha
    rw [List.mem_singleton.mp ha]
    cases historical
    · exact ⟨fun h => (nomatch h),fun h => (nomatch h),fun h => (nomatch h)⟩
    · exact ⟨fun _ h => (nomatch h),fun _ h => (nomatch h),fun _ h => (nomatch h)⟩
  current := rfl

theorem NeverRegresses.snapshot (h : c.NeverRegresses first) : Consistent c.snapshot := by
  apply h.consistent
  exact List.mem_of_getLast? h.current

/-- An update that keeps what is settled extends the chain. -/
structure Keeps (f : NativeServiceSnapshot → NativeServiceSnapshot) (s : NativeServiceSnapshot) :
    Prop where
  revision : (f s).revision = s.revision
  owner : s.owner.isStopped → (f s).owner.isStopped
  output : s.output = .closed → (f s).output = .closed
  fault : ∀ fault, s.terminalFault = some fault → (f s).terminalFault = some fault
  consistent : Consistent (f s)

theorem NeverRegresses.update (h : c.NeverRegresses first)
    {f : NativeServiceSnapshot → NativeServiceSnapshot} (hf : Keeps f c.snapshot) :
    (c.update f).NeverRegresses first := by
  unfold NativeService.update
  split
  · exact h
  next hne =>
  have hfollows : Follows c.snapshot { f c.snapshot with revision := c.snapshot.revision+1 } := by
    refine ⟨rfl,?_,hf.owner,hf.output,hf.fault⟩
    intro heq
    apply hne
    calc f c.snapshot
        = { f c.snapshot with revision := c.snapshot.revision } := by rw [← hf.revision]
      _ = c.snapshot := heq
  constructor
  · rw [← List.cons_append,List.isChain_append]
    refine ⟨h.chain,List.isChain_singleton _,?_⟩
    intro a ha b hb
    rw [h.current] at ha
    cases ha
    cases hb
    exact hfollows
  · intro a ha
    rw [← List.cons_append,List.mem_append] at ha
    rcases ha with ha | ha
    · exact h.consistent a ha
    · rw [List.mem_singleton.mp ha]
      exact ⟨hf.consistent.input,hf.consistent.serving,hf.consistent.backpressured⟩
  · rw [← List.cons_append,List.getLast?_concat]

theorem update_owner (c : NativeService) (f : NativeServiceSnapshot → NativeServiceSnapshot) :
    (c.update f).snapshot.owner = (f c.snapshot).owner := by
  unfold update
  split
  · next h => rw [h]
  · rfl

theorem update_output (c : NativeService) (f : NativeServiceSnapshot → NativeServiceSnapshot) :
    (c.update f).snapshot.output = (f c.snapshot).output := by
  unfold update
  split
  · next h => rw [h]
  · rfl

theorem loseOutput_not_serving (output : NativeOutputStatus) (reason : NativeServiceFailure) :
    loseOutput output reason ≠ .serving ∧ loseOutput output reason ≠ .backpressured ∧
      (output = .closed → loseOutput output reason = .closed) := by
  unfold loseOutput
  split
  · exact ⟨fun h => (nomatch h),fun h => (nomatch h),fun _ => rfl⟩
  · next hne => exact ⟨fun h => (nomatch h),fun h => (nomatch h),fun h => absurd h hne⟩

theorem keeps_applyStopped (reason : NativeServiceFailure) (s : NativeServiceSnapshot) :
    Keeps (applyStopped reason) s := by
  obtain ⟨hserving,hbackpressured,hclosed⟩ := loseOutput_not_serving s.output reason
  refine ⟨rfl,fun _ => rfl,hclosed,fun _ h => h,?_,fun _ => hserving,fun _ => hbackpressured⟩
  intro _ hphase
  unfold applyStopped at hphase
  dsimp only at hphase
  split at hphase
  · next h =>
    rw [h] at hphase
    cases hphase
  · cases hphase

theorem keeps_applyFault (fault : NativeTerminalFault) {s : NativeServiceSnapshot}
    (h : Consistent s) : Keeps (applyFault fault) s := by
  cases hfault : s.terminalFault with
  | none =>
    have heq : applyFault fault s = { s with terminalFault := some fault } := if_pos hfault
    refine ⟨by rw [heq],by rw [heq]; exact id,by rw [heq]; exact id,?_,?_⟩
    · intro kept hkept
      rw [hfault] at hkept
      cases hkept
    · rw [heq]
      exact ⟨h.input,h.serving,h.backpressured⟩
  | some kept =>
    have heq : applyFault fault s = s := if_neg (by rw [hfault]; exact fun h => (nomatch h))
    exact ⟨by rw [heq],by rw [heq]; exact id,by rw [heq]; exact id,by rw [heq]; exact fun _ => id,
      by rw [heq]; exact h⟩

theorem applyFault_lanes (fault : NativeTerminalFault) (s : NativeServiceSnapshot) :
    (applyFault fault s).owner = s.owner ∧ (applyFault fault s).output = s.output := by
  unfold applyFault
  split <;> exact ⟨rfl,rfl⟩

theorem keeps_applyPressure (pressured : Bool) {s : NativeServiceSnapshot} (h : Consistent s) :
    Keeps (applyPressure pressured) s := by
  by_cases hp : (s.output = .serving ∨ s.output = .backpressured) ∧
      (s.owner = .serving ∨ s.owner = .draining)
  · have heq : applyPressure pressured s =
        { s with output := if pressured then .backpressured else .serving } := if_pos hp
    have hlive : ¬s.owner.isStopped := by
      rcases hp.2 with ho | ho <;> rw [ho] <;> exact fun h => (nomatch h)
    have hopen : s.output ≠ .closed := by
      rcases hp.1 with ho | ho <;> rw [ho] <;> exact fun h => (nomatch h)
    constructor
    · rw [heq]
    · rw [heq]
      exact fun ho => ho
    · exact fun ho => absurd ho hopen
    · rw [heq]
      exact fun _ hf => hf
    · rw [heq]
      exact ⟨fun ho => absurd ho hlive,fun ho => absurd ho hlive,fun ho => absurd ho hlive⟩
  · have heq : applyPressure pressured s = s := if_neg hp
    exact ⟨by rw [heq],by rw [heq]; exact id,by rw [heq]; exact id,by rw [heq]; exact fun _ => id,
      by rw [heq]; exact h⟩

theorem applyPressure_owner (pressured : Bool) (s : NativeServiceSnapshot) :
    (applyPressure pressured s).owner = s.owner := by
  unfold applyPressure
  split <;> rfl

theorem applyPressure_output (pressured : Bool) {s : NativeServiceSnapshot}
    (h : s.output ≠ .closed) : (applyPressure pressured s).output ≠ .closed := by
  unfold applyPressure
  split
  · cases pressured <;> exact fun h => (nomatch h)
  · exact h

/-- A lane that is not open under a stopped owner may be published. -/
theorem keeps_applyInput (input : NativeInputStatus) {s : NativeServiceSnapshot}
    (h : Consistent s) (hopen : s.owner.isStopped → input.phase ≠ .opened) :
    Keeps (applyInput input) s := by
  obtain ⟨phase,commands,bytes,blocked,completed,size,confirmed⟩ := input
  cases phase with
  | opened =>
    exact ⟨rfl,id,id,fun _ => id,hopen,h.serving,h.backpressured⟩
  | closed =>
    exact ⟨rfl,id,id,fun _ => id,fun _ h => (nomatch h),h.serving,h.backpressured⟩
  | unavailable reason =>
    cases hr : reason.ownerLost with
    | false =>
      have heq : applyInput ⟨.unavailable reason,commands,bytes,blocked,completed,size,confirmed⟩ s =
          { s with input :=
              ⟨.unavailable reason,commands,bytes,blocked,completed,size,confirmed⟩ } := by
        simp only [applyInput,hr,Bool.false_eq_true,if_false]
      exact ⟨by rw [heq],by rw [heq]; exact id,by rw [heq]; exact id,by rw [heq]; exact fun _ => id,
        by rw [heq]; exact ⟨fun _ h => (nomatch h),h.serving,h.backpressured⟩⟩
    | true =>
      have heq : applyInput ⟨.unavailable reason,commands,bytes,blocked,completed,size,confirmed⟩ s =
          { s with
            owner := .stopped reason
            output := loseOutput s.output reason
            input := ⟨.unavailable reason,commands,bytes,blocked,completed,size,confirmed⟩ } := by
        simp only [applyInput,hr,if_true]
      obtain ⟨hserving,hbackpressured,hclosed⟩ := loseOutput_not_serving s.output reason
      exact ⟨by rw [heq],by rw [heq]; exact fun _ => rfl,by rw [heq]; exact hclosed,
        by rw [heq]; exact fun _ => id,
        by rw [heq]; exact ⟨fun _ h => (nomatch h),fun _ => hserving,fun _ => hbackpressured⟩⟩

end NativeService

namespace System

open NativeService (NeverRegresses firstSnapshot)

/-- The owner has announced its stop. -/
def stopAnnounced (s : System) : Bool :=
  match s.stage with
  | .announced _ | .fenced => true
  | _ => false

/-- The control state shows an open lane: no settled loss, no closed phase, no failed write. -/
def laneOpen (s : System) : Bool :=
  s.settledLoss.isNone && s.control.state.phase = .opened && s.control.state.inputFailure.isNone

/-- No control publishes an open lane once the stop of the owner is announced. -/
def FencedInTime (s : System) : Event → Prop
  | .publish => ¬(s.stopAnnounced ∧ s.laneOpen)
  | _ => True

/-- What the cell shows at each stage of the owner thread. -/
def StageFacts (s : System) : Prop :=
  match s.stage with
  | .unregistered =>
    (s.historical = false → s.cell.snapshot.owner = .starting ∧ s.cell.snapshot.output = .pending) ∧
      s.ownerLoss = none
  | .watching reading =>
    s.cell.snapshot.owner = .serving ∧ (reading = true → s.cell.snapshot.output ≠ .closed) ∧
      s.ownerLoss = none
  | .extracted => s.cell.snapshot.owner = .draining ∧ s.ownerLoss = none
  | .announced _ => s.cell.snapshot.owner.isStopped ∧ s.ownerLoss = none
  | .fenced => s.cell.snapshot.owner.isStopped = true

structure Staged (first : NativeServiceSnapshot) (s : System) : Prop where
  history : s.cell.NeverRegresses first
  facts : s.StageFacts
  unlost : s.ownerLoss = none → s.settledLoss = none
  unbound : s.historical = true → s.controlBound = false
  registered : s.controlBound = false → s.stage = .unregistered

variable {first : NativeServiceSnapshot} {s : System}

theorem laneOpen_iff (s : System) : s.laneOpen = true ↔ s.inputStatus.phase = .opened := by
  unfold laneOpen inputStatus
  cases s.settledLoss with
  | some reason => simp
  | none =>
    by_cases hphase : s.control.state.phase = .opened
    · cases s.control.state.inputFailure <;> simp [hphase]
    · simp [hphase]

theorem Staged.announced_of_stopped (h : s.Staged first) (hbound : s.controlBound = true)
    (hstopped : s.cell.snapshot.owner.isStopped) : s.stopAnnounced = true := by
  have hlive : s.historical = false := by
    cases hh : s.historical with
    | false => rfl
    | true =>
      rw [h.unbound hh] at hbound
      cases hbound
  have hfacts := h.facts
  unfold StageFacts at hfacts
  unfold stopAnnounced
  split at hfacts
  · next hstage =>
    rw [(hfacts.1 hlive).1] at hstopped
    cases hstopped
  · next hstage =>
    rw [hfacts.1] at hstopped
    cases hstopped
  · next hstage =>
    rw [hfacts.1] at hstopped
    cases hstopped
  · next hstage => rw [hstage]
  · next hstage => rw [hstage]

/-- Without a settled loss a publication leaves the owner and the output alone. -/
theorem applyInput_lanes (hlost : s.settledLoss = none) (t : NativeServiceSnapshot) :
    (NativeService.applyInput s.inputStatus t).owner = t.owner ∧
      (NativeService.applyInput s.inputStatus t).output = t.output := by
  have hphase : s.inputStatus.phase = .closed ∨ s.inputStatus.phase = .unavailable .writeFailed ∨
      s.inputStatus.phase = .opened := by
    unfold inputStatus
    rw [hlost]
    dsimp only
    split
    · exact Or.inl rfl
    split
    · exact Or.inr (Or.inl rfl)
    · exact Or.inr (Or.inr rfl)
  unfold NativeService.applyInput
  rcases hphase with hphase | hphase | hphase <;> rw [hphase] <;> exact ⟨rfl,rfl⟩

/-- The stage facts follow when the owner and the output are as before. -/
theorem StageFacts.of_lanes {t : System} (h : s.StageFacts)
    (howner : t.cell.snapshot.owner = s.cell.snapshot.owner)
    (houtput : t.cell.snapshot.output = s.cell.snapshot.output) (hstage : t.stage = s.stage)
    (hloss : t.ownerLoss = s.ownerLoss) (hhistorical : t.historical = s.historical) :
    t.StageFacts := by
  unfold StageFacts at h ⊢
  rw [howner,houtput,hstage,hloss,hhistorical]
  exact h

/-- Once the loss is fenced, only the stop of the owner has to be kept. -/
theorem StageFacts.of_fenced {t : System} (h : s.StageFacts) (hloss : s.ownerLoss ≠ none)
    (howner : s.cell.snapshot.owner.isStopped → t.cell.snapshot.owner.isStopped)
    (hstage : t.stage = s.stage) : t.StageFacts := by
  unfold StageFacts at h ⊢
  rw [hstage]
  split at h
  · exact absurd h.2 hloss
  · exact absurd h.2.2 hloss
  · exact absurd h.2 hloss
  · exact absurd h.2 hloss
  · exact howner h

theorem Staged.publishInput (h : s.Staged first)
    (hclear : s.controlBound = true → s.stopAnnounced = true → s.laneOpen = false) :
    s.publishInput.Staged first := by
  unfold System.publishInput
  split
  · next hbound =>
    have hopen : s.cell.snapshot.owner.isStopped → s.inputStatus.phase ≠ .opened := by
      intro hstopped hphase
      have hlane := hclear hbound (h.announced_of_stopped hbound hstopped)
      rw [(laneOpen_iff s).mpr hphase] at hlane
      cases hlane
    have hkeeps := NativeService.keeps_applyInput s.inputStatus h.history.snapshot hopen
    refine ⟨h.history.update hkeeps,?_,h.unlost,h.unbound,h.registered⟩
    by_cases hloss : s.ownerLoss = none
    · obtain ⟨howner,houtput⟩ := applyInput_lanes (h.unlost hloss) s.cell.snapshot
      exact h.facts.of_lanes ((NativeService.update_owner _ _).trans howner)
        ((NativeService.update_output _ _).trans houtput) rfl rfl rfl
    · refine h.facts.of_fenced hloss ?_ rfl
      intro hstopped
      show (s.cell.update _).snapshot.owner.isStopped
      rw [NativeService.update_owner]
      exact hkeeps.owner hstopped
  · exact h

theorem Staged.settleOwnerLoss (h : s.Staged first) : s.settleOwnerLoss.Staged first := by
  unfold System.settleOwnerLoss
  split
  · next reason hloss hsettled =>
    apply Staged.publishInput
    · exact ⟨h.history,h.facts.of_lanes rfl rfl rfl rfl rfl,
        fun hnone => absurd hnone (by dsimp only; rw [hloss]; exact fun h => (nomatch h)),
        h.unbound,h.registered⟩
    · intro _ _
      rfl
  · exact h

theorem operate_frame (s : System) (operation : Operation) :
    (s.operate operation).1 =
      { s with
        control := (s.operate operation).1.control
        confirmedSize := (s.operate operation).1.confirmedSize } := by
  cases operation <;> try rfl
  unfold operate
  dsimp only
  split
  · rfl
  split
  · rfl
  split <;> rfl

section

variable (h : s.Staged first)
include h

theorem Staged.operate (operation : Operation) (unpublished : Bool) :
    Staged first { (s.operate operation).1 with unpublished := unpublished } := by
  rw [operate_frame]
  exact ⟨h.history,h.facts.of_lanes rfl rfl rfl rfl rfl,h.unlost,h.unbound,h.registered⟩

theorem Staged.terminalFault (fault : NativeTerminalFault) (logFault : Option NativeTerminalFault)
    (logBound : Bool) :
    Staged first
      { s with
        cell := s.cell.terminalFault fault, logFault := logFault, logBound := logBound } := by
  obtain ⟨howner,houtput⟩ := NativeService.applyFault_lanes fault s.cell.snapshot
  refine ⟨h.history.update (NativeService.keeps_applyFault fault h.history.snapshot),?_,h.unlost,
    h.unbound,h.registered⟩
  exact h.facts.of_lanes ((NativeService.update_owner _ _).trans howner)
    ((NativeService.update_output _ _).trans houtput) rfl rfl rfl

theorem Staged.noteTerminalFault (fault : NativeTerminalFault) :
    (s.noteTerminalFault fault).Staged first := by
  unfold System.noteTerminalFault
  split
  · exact h
  split
  · exact h.terminalFault fault _ _
  · exact ⟨h.history,h.facts.of_lanes rfl rfl rfl rfl rfl,h.unlost,h.unbound,h.registered⟩

theorem Staged.bindOutput : s.bindOutput.Staged first := by
  unfold System.bindOutput
  split
  · exact h
  split
  · exact h.terminalFault _ _ _
  · exact ⟨h.history,h.facts.of_lanes rfl rfl rfl rfl rfl,h.unlost,h.unbound,h.registered⟩

theorem Staged.bindControl : s.bindControl.Staged first := by
  unfold System.bindControl
  split
  · exact h
  next hguard =>
  simp only [Bool.or_eq_true,not_or,Bool.not_eq_true] at hguard
  obtain ⟨⟨hlive,hbound⟩,-⟩ := hguard
  have hstage := h.registered hbound
  apply Staged.settleOwnerLoss
  apply Staged.publishInput
  · refine ⟨h.history,h.facts.of_lanes rfl rfl rfl rfl rfl,h.unlost,?_,?_⟩
    · intro hhistorical
      rw [hlive] at hhistorical
      cases hhistorical
    · intro hunbound
      cases hunbound
  · intro _ hannounced
    unfold stopAnnounced at hannounced
    rw [hstage] at hannounced
    cases hannounced

theorem Staged.bound (hstage : s.stage ≠ .unregistered) :
    s.controlBound = true := by
  cases hbound : s.controlBound with
  | true => rfl
  | false => exact absurd (h.registered hbound) hstage

/-- The owner thread moves on with one update of the cell. -/
theorem Staged.advance (hbound : s.controlBound = true)
    {f : NativeServiceSnapshot → NativeServiceSnapshot} (hf : NativeService.Keeps f s.cell.snapshot)
    (stage : EntryStage) (hfacts : StageFacts { s with cell := s.cell.update f, stage := stage }) :
    Staged first { s with cell := s.cell.update f, stage := stage } := by
  refine ⟨h.history.update hf,hfacts,h.unlost,h.unbound,?_⟩
  intro hunbound
  change s.controlBound = false at hunbound
  rw [hbound] at hunbound
  cases hunbound

theorem Staged.register (hstage : s.stage = .unregistered) (hbound : s.controlBound = true) :
    Staged first { s with cell := s.cell.ready, stage := .watching true } := by
  have hlive : s.historical = false := by
    cases hh : s.historical with
    | false => rfl
    | true => exact absurd (h.unbound hh) (by rw [hbound]; exact fun h => (nomatch h))
  have hfacts := h.facts
  unfold StageFacts at hfacts
  rw [hstage] at hfacts
  obtain ⟨hlanes,hloss⟩ := hfacts
  obtain ⟨howner,houtput⟩ := hlanes hlive
  apply h.advance hbound
  · refine ⟨rfl,?_,?_,fun _ hf => hf,?_⟩
    · intro hstopped
      rw [howner] at hstopped
      cases hstopped
    · intro hclosed
      rw [houtput] at hclosed
      cases hclosed
    · exact ⟨fun h => (nomatch h),fun h => (nomatch h),fun h => (nomatch h)⟩
  · refine ⟨NativeService.update_owner _ _,?_,hloss⟩
    intro _
    dsimp only
    rw [NativeService.update_output]
    exact fun h => (nomatch h)

theorem Staged.outputPressured (hstage : s.stage = .watching true) (pressured : Bool) :
    (s.outputPressured pressured).Staged first := by
  unfold System.outputPressured
  split
  · exact h
  have hkeeps := NativeService.keeps_applyPressure pressured h.history.snapshot
  have hfacts := h.facts
  unfold StageFacts at hfacts
  rw [hstage] at hfacts
  refine ⟨h.history.update hkeeps,?_,h.unlost,h.unbound,h.registered⟩
  unfold StageFacts
  dsimp only
  rw [hstage]
  refine ⟨?_,?_,hfacts.2.2⟩
  · rw [← hfacts.1]
    exact (NativeService.update_owner _ _).trans (NativeService.applyPressure_owner _ _)
  · intro hreading
    unfold NativeService.updateOutputPressure
    rw [NativeService.update_output]
    exact NativeService.applyPressure_output pressured (hfacts.2.1 hreading)

theorem Staged.outputClosed (hstage : s.stage = .watching true) (failed : Bool) :
    Staged first
      { s with
        cell := s.cell.updateOutput (if failed then .unavailable .readFailed else .closed)
        stage := .watching false } := by
  have hfacts := h.facts
  unfold StageFacts at hfacts
  rw [hstage] at hfacts
  apply h.advance (h.bound (by rw [hstage]; exact fun h => (nomatch h)))
  · refine ⟨rfl,id,fun hclosed => absurd hclosed (hfacts.2.1 rfl),fun _ hf => hf,?_⟩
    have hlive : ¬s.cell.snapshot.owner.isStopped := by
      rw [hfacts.1]
      exact fun h => (nomatch h)
    exact ⟨fun ho => absurd ho hlive,fun ho => absurd ho hlive,fun ho => absurd ho hlive⟩
  · exact ⟨(NativeService.update_owner _ _).trans hfacts.1,fun h => (nomatch h),hfacts.2.2⟩

theorem Staged.extract {reading : Bool} (hstage : s.stage = .watching reading) :
    Staged first { s with cell := s.cell.draining, stage := .extracted } := by
  have hfacts := h.facts
  unfold StageFacts at hfacts
  rw [hstage] at hfacts
  apply h.advance (h.bound (by rw [hstage]; exact fun h => (nomatch h)))
  · refine ⟨rfl,?_,id,fun _ hf => hf,?_⟩
    · intro hstopped
      rw [hfacts.1] at hstopped
      cases hstopped
    · exact ⟨fun h => (nomatch h),fun h => (nomatch h),fun h => (nomatch h)⟩
  · exact ⟨NativeService.update_owner _ _,hfacts.2.2⟩

theorem Staged.announce (hbound : s.controlBound = true) (hloss : s.ownerLoss = none)
    (reason : NativeServiceFailure) :
    Staged first { s with cell := s.cell.stopped reason, stage := .announced reason } := by
  apply h.advance hbound (NativeService.keeps_applyStopped reason _)
  refine ⟨?_,hloss⟩
  dsimp only
  rw [NativeService.update_owner]
  rfl

end

theorem settleOwnerLoss_stage (s : System) (stage : EntryStage) :
    { s.settleOwnerLoss with stage := stage } = ({ s with stage := stage }).settleOwnerLoss := by
  unfold settleOwnerLoss
  dsimp only
  split
  · unfold publishInput
    dsimp only
    split <;> rfl
  · rfl

theorem Staged.fence (h : s.Staged first) {reason : NativeServiceFailure}
    (hstage : s.stage = .announced reason) :
    Staged first { s.fenceOwnerLoss reason with stage := .fenced } := by
  have hfacts := h.facts
  unfold StageFacts at hfacts
  rw [hstage] at hfacts
  obtain ⟨hstopped,hloss⟩ := hfacts
  have hbound := h.bound (by rw [hstage]; exact fun h => (nomatch h))
  have hfenced : Staged first
      { s with
        ownerLoss := s.ownerLoss <|> some reason
        control := { s.control with
          ownerFailure := s.control.ownerFailure <|> some reason.kind }
        stage := .fenced } := by
    refine ⟨h.history,hstopped,?_,h.unbound,?_⟩
    · intro hnone
      change (s.ownerLoss <|> some reason) = none at hnone
      rw [hloss] at hnone
      cases hnone
    · intro hunbound
      change s.controlBound = false at hunbound
      rw [hbound] at hunbound
      cases hunbound
  unfold fenceOwnerLoss
  dsimp only
  split
  · exact hfenced
  · rw [settleOwnerLoss_stage]
    exact hfenced.settleOwnerLoss

theorem Staged.step (h : s.Staged first) (e : Event) (hclear : s.FencedInTime e) :
    (s.step e).Staged first := by
  cases e with
  | bindOutput => exact h.bindOutput
  | bindControl => exact h.bindControl
  | acquire =>
    simp only [System.step]
    split
    · exact h
    · exact ⟨h.history,h.facts.of_lanes rfl rfl rfl rfl rfl,h.unlost,h.unbound,h.registered⟩
  | operate operation =>
    simp only [System.step]
    split
    · exact h.operate operation _
    · exact h
  | publish =>
    simp only [System.step]
    split
    · have hpublished := h.publishInput fun _ hannounced => by
        cases hlane : s.laneOpen with
        | false => rfl
        | true => exact absurd ⟨hannounced,hlane⟩ hclear
      exact ⟨hpublished.history,hpublished.facts.of_lanes rfl rfl rfl rfl rfl,hpublished.unlost,
        hpublished.unbound,hpublished.registered⟩
    · exact h
  | release =>
    simp only [System.step]
    split
    · have hsettled := h.settleOwnerLoss
      exact ⟨hsettled.history,hsettled.facts.of_lanes rfl rfl rfl rfl rfl,hsettled.unlost,
        hsettled.unbound,hsettled.registered⟩
    · exact h
  | register =>
    simp only [System.step]
    split
    · next hstage =>
      split
      · next hbound => exact h.register hstage hbound
      · exact h
    · exact h
  | pressure pressured =>
    simp only [System.step]
    split
    · next hstage => exact h.outputPressured hstage pressured
    · exact h
  | outputClosed failed =>
    simp only [System.step]
    split
    · next hstage => exact h.outputClosed hstage failed
    · exact h
  | extract =>
    simp only [System.step]
    split
    · next hstage => exact h.extract hstage
    · exact h
  | announce reason =>
    have hfacts := h.facts
    unfold StageFacts at hfacts
    simp only [System.step]
    split
    · next hstage =>
      rw [hstage] at hfacts
      split
      · next hguard => exact h.announce (Bool.and_eq_true_iff.mp hguard).1 hfacts.2 reason
      · exact h
    · next hstage =>
      rw [hstage] at hfacts
      split
      · next hguard => exact h.announce (Bool.and_eq_true_iff.mp hguard).1 hfacts.2.2 reason
      · exact h
    · next hstage =>
      rw [hstage] at hfacts
      split
      · next hguard => exact h.announce (Bool.and_eq_true_iff.mp hguard).1 hfacts.2 reason
      · exact h
    · exact h
  | fence =>
    simp only [System.step]
    split
    · next hstage => exact h.fence hstage
    · exact h
  | fault stage throughByte => exact h.noteTerminalFault _

theorem initial_staged (historical : Bool) (runId : String)
    (resources : NativeControl.ResourceLimits) (input : NativeControl.HandoffInputState)
    (closed : Bool) (size : Option Attachment.TerminalSize)
    (logFault : Option NativeTerminalFault) :
    (initial historical runId resources input closed size logFault).Staged
      (firstSnapshot historical) where
  history := NativeService.new_neverRegresses historical
  facts := by
    refine ⟨?_,rfl⟩
    intro hlive
    change historical = false at hlive
    subst hlive
    exact ⟨rfl,rfl⟩
  unlost := fun _ => rfl
  unbound := fun _ => rfl
  registered := fun _ => rfl

/-- In every run in which no open lane is published after the stop is announced, the
published history of the cell never regresses. -/
theorem service_never_regresses (historical : Bool) (runId : String)
    (resources : NativeControl.ResourceLimits) (input : NativeControl.HandoffInputState)
    (closed : Bool) (size : Option Attachment.TerminalSize)
    (logFault : Option NativeTerminalFault) (es : List Event)
    (hes : Machine.Along step FencedInTime
      (initial historical runId resources input closed size logFault) es) :
    ((initial historical runId resources input closed size logFault).run es).cell.NeverRegresses
      (firstSnapshot historical) := by
  have hstep : ∀ s e, Staged (firstSnapshot historical) s → s.FencedInTime e →
      Staged (firstSnapshot historical) (s.step e) := fun _ e h hclear => h.step e hclear
  have hstart := initial_staged historical runId resources input closed size logFault
  exact (Machine.run_invariant_along hstep hstart hes).history

/-- An input that is admitted and confirmed after the owner stopped for want of its wake
descriptor, with the loss settled before the next publication. -/
def settledRun : List Event :=
  [.bindOutput,.bindControl,.register,.acquire,.operate (.beginInput [97] true),.publish,
    .release,.pressure true,.announce (.ownerIoFailed .wakeDrain none),.fence,.outputClosed false,
    .fault .exporting 0]

theorem service_never_regresses_settled :
    ((initial false "run" ⟨4,64,4,64⟩ .empty false none none).run settledRun).cell.NeverRegresses
      (firstSnapshot false) ∧
    ((initial false "run" ⟨4,64,4,64⟩ .empty false none none).run settledRun).cell.snapshot.revision
      = 6 := by
  constructor
  · apply service_never_regresses
    refine ⟨trivial,trivial,trivial,trivial,trivial,?_,trivial,trivial,trivial,trivial,trivial,
      trivial,trivial⟩
    exact fun h => (nomatch h.1)
  · decide

/-- The owner stops while a client holds the control guard: the admission that was already
past the fence publishes an open lane under a stopped owner. -/
theorem open_lane_after_stop :
    ¬((initial false "run" ⟨4,64,4,64⟩ .empty false none none).run
      [.bindOutput,.bindControl,.register,.acquire,.announce .ownerStopped,
        .operate (.beginInput [97] true),.publish]).cell.NeverRegresses (firstSnapshot false) := by
  intro h
  have hconsistent := h.snapshot
  exact hconsistent.input (by decide) (by decide)

end System
end Service
end Ctxmux
