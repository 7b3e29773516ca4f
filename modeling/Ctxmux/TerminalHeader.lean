import Ctxmux.TerminalReplay

/-!
# The model in every state of a Run

The revision of the output log is that of its model, and the checkpoint of the model is
sound at the head of the log. A Run that is reopened from its file has that too. The head
never goes back under one owner.
-/

namespace Ctxmux
namespace Terminal

open Durable (Byte RunId OutputChunk OutputReplay)
open Output (OutputLog)
open Machine

variable {vt : Vt100} {log : OutputLog}

namespace TerminalLog

variable {output : TerminalLog vt} {id : RunId} {stage : NativeTerminalFaultStage} {fault : Bool}

/-- The model is sound at the head of the log and has its revision. -/
def Sound (id : RunId) (output : TerminalLog vt) : Prop :=
  ∀ model, output.terminal = some model →
    model.Sound id output.log.latestOutputBytes ∧ model.resizeRevision = output.resizeRevision

theorem deriveTerminal_fields {α : Type} (output : TerminalLog vt) (stage : NativeTerminalFaultStage)
    (fault : Bool) (derive : TerminalModel vt → α × TerminalModel vt) :
    (output.deriveTerminal stage fault derive).2.log = output.log ∧
      (output.deriveTerminal stage fault derive).2.resizeRevision = output.resizeRevision := by
  unfold deriveTerminal
  cases output.terminal with
  | none => exact ⟨rfl,rfl⟩
  | some terminal => cases fault <;> exact ⟨rfl,rfl⟩

theorem deriveTerminal_model {α : Type} {derive : TerminalModel vt → α × TerminalModel vt}
    {model : TerminalModel vt}
    (h : (output.deriveTerminal stage fault derive).2.terminal = some model) :
    ∃ before, output.terminal = some before ∧ model = (derive before).2 ∧
      (output.deriveTerminal stage fault derive).1 = some (derive before).1 := by
  unfold deriveTerminal at h ⊢
  cases hterminal : output.terminal with
  | none =>
    rw [hterminal] at h
    exact absurd (hterminal.symm.trans h) (by simp)
  | some terminal =>
    rw [hterminal] at h
    cases fault with
    | true => cases h
    | false =>
      cases Option.some.inj h
      exact ⟨terminal,rfl,rfl,rfl⟩

theorem deriveTerminal_value {α : Type} {derive : TerminalModel vt → α × TerminalModel vt}
    {value : α} (h : (output.deriveTerminal stage fault derive).1 = some value) :
    ∃ before, output.terminal = some before ∧ value = (derive before).1 := by
  unfold deriveTerminal at h
  cases hterminal : output.terminal with
  | none =>
    rw [hterminal] at h
    cases h
  | some terminal =>
    rw [hterminal] at h
    cases fault with
    | true => cases h
    | false => exact ⟨terminal,rfl,(Option.some.inj h).symm⟩

/-- A derivation that keeps the revision and the soundness of a model. -/
theorem Sound.derive {α : Type} (h : output.Sound id)
    {derive : TerminalModel vt → α × TerminalModel vt}
    (hsound : ∀ model, model.Sound id output.log.latestOutputBytes →
      (derive model).2.Sound id output.log.latestOutputBytes)
    (hrevision : ∀ model, (derive model).2.resizeRevision = model.resizeRevision) :
    (output.deriveTerminal stage fault derive).2.Sound id := by
  intro model hmodel
  obtain ⟨before,hbefore,rfl,_⟩ := deriveTerminal_model hmodel
  obtain ⟨hlog,hfield⟩ := output.deriveTerminal_fields stage fault derive
  obtain ⟨hmodel,hequal⟩ := h before hbefore
  rw [hlog,hfield,hrevision]
  exact ⟨hsound before hmodel,hequal⟩

theorem sound_of_none (h : output.terminal = none) : output.Sound id := by
  intro model hmodel
  rw [h] at hmodel
  cases hmodel

theorem sound_newNative (hvt : vt.Lawful) (id : RunId) (size : Option TerminalSize) (fault : Bool) :
    (newNative id size fault : TerminalLog vt).Sound id := by
  cases size with
  | none => exact sound_of_none rfl
  | some size =>
    cases fault with
    | true => exact sound_of_none rfl
    | false =>
      intro model hmodel
      cases Option.some.inj hmodel
      exact ⟨TerminalModel.sound_new hvt id size,(TerminalModel.new_fields hvt id size).1⟩

/-- A resize below the bound of the revision raises it by one. -/
theorem resizeTerminal_eq_some {size : TerminalSize} {resize : TerminalResize}
    {after : TerminalLog vt} (h : output.resizeTerminal size fault = some (resize,after)) :
    output.resizeRevision+1 < 2^64 ∧
      let derived := deriveTerminal { output with resizeRevision := output.resizeRevision+1 } .resize
        fault fun terminal => terminal.resize size output.log.latestOutputBytes
      resize = derived.1.getD ⟨output.log.latestOutputBytes,output.resizeRevision+1,size⟩ ∧
        after = { derived.2 with checkpointDirty := derived.2.terminal.isSome } := by
  unfold TerminalLog.resizeTerminal at h
  split at h
  · cases h
  · rename_i hroom
    obtain ⟨hresize,hafter⟩ := Prod.mk.inj (Option.some.inj h)
    exact ⟨Nat.lt_of_not_le hroom,hresize.symm,hafter.symm⟩

theorem Sound.resizeTerminal (hvt : vt.Lawful) (h : output.Sound id) {size : TerminalSize}
    (hsize : size.isZero = false) {resize : TerminalResize} {after : TerminalLog vt}
    (hresized : output.resizeTerminal size fault = some (resize,after)) : after.Sound id := by
  obtain ⟨hroom,_,rfl⟩ := resizeTerminal_eq_some hresized
  intro model hmodel
  simp only at hmodel ⊢
  obtain ⟨before,hbefore,rfl,_⟩ := deriveTerminal_model hmodel
  obtain ⟨hlog,hfield⟩ := deriveTerminal_fields
    { output with resizeRevision := output.resizeRevision+1 } .resize fault
    fun terminal => terminal.resize size output.log.latestOutputBytes
  obtain ⟨hmodel,hequal⟩ := h before hbefore
  rw [← hequal] at hroom
  rw [hlog,hfield,(TerminalModel.resize_fields hvt before size _).1,nextRevision_eq hroom,hequal]
  exact ⟨hmodel.resize hvt hsize hroom,rfl⟩

theorem Sound.terminalSnapshot (hvt : vt.Lawful) (h : output.Sound id) (fault : Bool) :
    (output.terminalSnapshot id fault).2.Sound id :=
  h.derive (fun _ hmodel => hmodel.cut hvt) fun model => (model.cut_fields _ _).2

theorem Sound.terminalPressure (hvt : vt.Lawful) (h : output.Sound id) (fault : Bool) :
    (output.terminalPressure id fault).Sound id := by
  have hderived : (output.deriveTerminal .export fault fun terminal => terminal.retentionCut id
      output.log.firstAvailableByte output.log.latestOutputBytes).2.Sound id :=
    h.derive (fun _ hmodel => hmodel.retentionCut hvt _)
      fun model => (model.retentionCut_fields _ _ _).2
  unfold TerminalLog.terminalPressure
  simp only
  split
  · exact hderived
  · exact hderived

theorem Sound.takeStoredCheckpoint (h : output.Sound id) (fault : Bool) :
    (output.takeStoredCheckpoint fault).2.Sound id := by
  unfold TerminalLog.takeStoredCheckpoint
  split
  · exact h
  · have hclean : Sound id { output with checkpointDirty := false } := h
    exact hclean.derive (fun _ hmodel => hmodel) fun _ => rfl

end TerminalLog

theorem latest_le_of_push {log' : OutputLog} {perRunLimit protectedFrom : ℕ} {data : List Byte}
    {chunk : OutputChunk} (h : log.pushProtected perRunLimit data protectedFrom = some (chunk,log'))
    :
    log.latestOutputBytes ≤ log'.latestOutputBytes := by
  unfold OutputLog.pushProtected at h
  split at h
  · cases h
  · simp only [OutputLog.trimFrontBounded,Option.bind_eq_bind,Option.bind_eq_some_iff] at h
    obtain ⟨⟨_,next⟩,⟨trim,_,htrim⟩,h⟩ := h
    cases Option.some.inj htrim
    cases Option.some.inj h
    exact Nat.le_add_right _ _

theorem latest_eq_of_trim {log' : OutputLog} {dropAtLeast maximum freed : ℕ}
    (h : log.trimFrontBounded dropAtLeast maximum = some (freed,log')) :
    log'.latestOutputBytes = log.latestOutputBytes := by
  simp only [OutputLog.trimFrontBounded,Option.bind_eq_bind,Option.bind_eq_some_iff] at h
  obtain ⟨trim,_,htrim⟩ := h
  cases Option.some.inj htrim
  rfl

namespace TerminalLog

variable {output : TerminalLog vt} {id : RunId}

theorem Sound.later (h : output.Sound id)
    (hle : output.log.latestOutputBytes ≤ log.latestOutputBytes) :
    Sound id { output with log := log } := by
  intro model hmodel
  obtain ⟨hsound,hrevision⟩ := h model hmodel
  exact ⟨hsound.later hle,hrevision⟩

theorem Sound.pushProtected (hvt : vt.Lawful) (h : output.Sound id) (perRunLimit : ℕ)
    (data : List Byte) (protectedFrom : ℕ) (fault : Bool) :
    (output.pushProtected perRunLimit data protectedFrom fault).Sound id := by
  unfold TerminalLog.pushProtected
  split
  · exact h
  · rename_i hpush
    have hlater := h.later (latest_le_of_push hpush)
    exact hlater.derive (fun _ hmodel => hmodel.process hvt data) fun _ => rfl

theorem Sound.trimFrontBounded (h : output.Sound id) (dropAtLeast maximum : ℕ) :
    (output.trimFrontBounded dropAtLeast maximum).Sound id := by
  unfold TerminalLog.trimFrontBounded
  split
  · exact h
  · rename_i htrim
    exact h.later (latest_eq_of_trim htrim).ge

/-- What is assumed of a stored file beyond what its reader checks. -/
structure Filed (saved : StoredCheckpoint) : Prop where
  nonempty : saved.restore ≠ []
  history : ∀ rows, saved.checkpoint.restoreScrollbackRows = some rows → rows ≤ historyRows
  bounded : saved.checkpoint.resizeRevision+saved.resizes.length < 2^64

theorem sound_recoverTerminal (hvt : vt.Lawful) {file : Option StoredCheckpoint}
    (hfile : ∀ saved, file = some saved → Filed saved) (id : RunId)
    (confirmedSize : Option TerminalSize) (fault : Bool) :
    ((ofLog log : TerminalLog vt).recoverTerminal id file confirmedSize fault).Sound id := by
  cases file with
  | none => exact sound_of_none rfl
  | some saved =>
    have hfiled := hfile saved rfl
    unfold recoverTerminal
    simp only
    split
    · rename_i terminal hterminal
      intro model hmodel
      cases Option.some.inj hmodel
      obtain ⟨hrecovered,_⟩ := Option.filter_eq_some_iff.mp hterminal
      cases fault with
      | true => cases hrecovered
      | false =>
        exact ⟨(TerminalModel.recover_sound hvt hrecovered hfiled.nonempty hfiled.history
          hfiled.bounded).1,rfl⟩
    · exact sound_of_none rfl

end TerminalLog

namespace TerminalRun

variable {r : TerminalRun vt}

/-- The model and the file of a Run are sound. -/
structure Sound (r : TerminalRun vt) : Prop where
  output : r.output.Sound r.id
  file : ∀ saved, r.file = some saved → TerminalLog.Filed saved

theorem filed_of_stored {id : RunId} {latest : ℕ} {model : TerminalModel vt}
    (h : model.Sound id latest) {saved : StoredCheckpoint} (hstored : model.stored = some saved) :
    TerminalLog.Filed saved := by
  unfold TerminalModel.stored at hstored
  split at hstored
  · rename_i hvalid
    exact ⟨(h.saved saved hstored).nonempty,(h.saved saved hstored).history,
      (h.valid hvalid saved hstored).1.trans_lt h.bounded⟩
  · cases hstored

theorem Sound.prepareUpgrade (hvt : vt.Lawful) (h : r.Sound) (fault : Bool) :
    (r.prepareUpgrade fault).Sound := by
  have houtput := h.output.terminalSnapshot hvt fault
  refine ⟨houtput,?_⟩
  intro saved hsaved
  simp only [TerminalRun.prepareUpgrade] at hsaved
  split at hsaved
  · obtain ⟨model,hmodel,hstored⟩ := Option.bind_eq_some_iff.mp hsaved
    exact filed_of_stored (houtput model hmodel).1 hstored
  · cases hsaved

theorem Sound.prepared (hvt : vt.Lawful) (h : r.Sound) (fault : Bool) : (r.prepared fault).Sound := by
  unfold TerminalRun.prepared
  split
  · exact h.prepareUpgrade hvt fault
  · exact h

theorem prepared_id (r : TerminalRun vt) (fault : Bool) : (r.prepared fault).id = r.id := by
  unfold TerminalRun.prepared
  split <;> rfl

theorem Sound.reopen (hvt : vt.Lawful) (h : r.Sound) (reopening : Reopening) :
    (r.reopen reopening).Sound := by
  cases reopening with
  | coldStart replay sourceGap => exact ⟨TerminalLog.sound_of_none rfl,nofun⟩
  | upgrade exportFault replay sourceGap confirmedSize recoverFault =>
    have hfile := (h.prepared hvt exportFault).file
    refine ⟨?_,hfile⟩
    simp only [TerminalRun.reopen,prepared_id]
    exact TerminalLog.sound_recoverTerminal hvt hfile _ _ _

theorem stored_of_take {output : TerminalLog vt} {fault : Bool} {saved : StoredCheckpoint}
    (h : (output.takeStoredCheckpoint fault).1 = some saved) :
    ∃ model, output.terminal = some model ∧ model.stored = some saved := by
  unfold TerminalLog.takeStoredCheckpoint at h
  split at h
  · cases h
  · have hvalue := Option.join_eq_some_iff.mp h
    obtain ⟨model,hmodel,hstored⟩ := TerminalLog.deriveTerminal_value hvalue
    exact ⟨model,hmodel,hstored.symm⟩

theorem Sound.offer (h : r.Sound) (fault : Bool) (outcome : OfferOutcome) :
    (r.offer fault outcome).Sound := by
  have houtput := h.output.takeStoredCheckpoint fault
  unfold TerminalRun.offer
  simp only
  split
  · rename_i saved htaken
    refine ⟨houtput,?_⟩
    intro other hother
    cases Option.some.inj hother
    obtain ⟨model,hmodel,hstored⟩ := stored_of_take htaken
    exact filed_of_stored (h.output model hmodel).1 hstored
  · exact ⟨houtput,h.file⟩

theorem Sound.resize (hvt : vt.Lawful) (h : r.Sound) (size : TerminalSize) (fault : Bool) :
    (r.resize size fault).Sound := by
  unfold TerminalRun.resize
  split
  · rename_i hsize
    split
    · exact h
    · rename_i hresized
      exact ⟨h.output.resizeTerminal hvt hsize.2 hresized,h.file⟩
  · exact h

theorem Sound.act (hvt : vt.Lawful) (h : r.Sound) (perRunLimit : ℕ) (e : OwnedEvent) :
    (r.act perRunLimit e).Sound := by
  cases e with
  | push data protectedFrom fault =>
    exact ⟨h.output.pushProtected hvt perRunLimit data protectedFrom fault,h.file⟩
  | trim dropAtLeast maximum => exact ⟨h.output.trimFrontBounded dropAtLeast maximum,h.file⟩
  | pressure fault => exact ⟨h.output.terminalPressure hvt fault,h.file⟩
  | snapshot fault => exact ⟨h.output.terminalSnapshot hvt fault,h.file⟩
  | resize size fault => exact h.resize hvt size fault
  | resizeUnknown => exact ⟨TerminalLog.sound_of_none rfl,h.file⟩
  | offer fault outcome => exact h.offer fault outcome
  | sourceGap => exact ⟨TerminalLog.sound_of_none rfl,h.file⟩
  | historyGap => exact ⟨h.output.later le_rfl,h.file⟩
  | exit => exact ⟨h.output,h.file⟩
  | prepareUpgrade fault => exact h.prepared hvt fault

theorem Sound.step (hvt : vt.Lawful) (h : r.Sound) (perRunLimit : ℕ) (e : TerminalEvent) :
    (r.step perRunLimit e).Sound := by
  cases e with
  | owned e => exact h.act hvt perRunLimit e
  | reopen reopening => exact h.reopen hvt reopening

theorem sound_start (hvt : vt.Lawful) (id : RunId) (size : TerminalSize) (fault : Bool) :
    (start id size fault : TerminalRun vt).Sound :=
  ⟨TerminalLog.sound_newNative hvt id (some size) fault,nofun⟩

/-- Under one owner the head of the log never goes back. -/
theorem latest_le_act (perRunLimit : ℕ) (r : TerminalRun vt) (e : OwnedEvent) :
    r.output.log.latestOutputBytes ≤ (r.act perRunLimit e).output.log.latestOutputBytes := by
  cases e with
  | push data protectedFrom fault =>
    simp only [TerminalRun.act,TerminalLog.pushProtected]
    split
    · exact le_rfl
    · rename_i hpush
      rw [(TerminalLog.deriveTerminal_fields _ _ _ _).1]
      exact latest_le_of_push hpush
  | trim dropAtLeast maximum =>
    simp only [TerminalRun.act,TerminalLog.trimFrontBounded]
    split
    · exact le_rfl
    · rename_i htrim
      exact (latest_eq_of_trim htrim).ge
  | pressure fault =>
    simp only [TerminalRun.act,TerminalLog.terminalPressure]
    split <;> exact (congrArg OutputLog.latestOutputBytes
      (TerminalLog.deriveTerminal_fields _ _ _ _).1).ge
  | snapshot fault =>
    exact (congrArg OutputLog.latestOutputBytes (TerminalLog.deriveTerminal_fields _ _ _ _).1).ge
  | resize size fault =>
    simp only [TerminalRun.act,TerminalRun.resize]
    split
    · split
      · exact le_rfl
      · rename_i hresized
        obtain ⟨_,_,rfl⟩ := TerminalLog.resizeTerminal_eq_some hresized
        simp only
        rw [(TerminalLog.deriveTerminal_fields _ _ _ _).1]
    · exact le_rfl
  | resizeUnknown => exact le_rfl
  | offer fault outcome =>
    have htake : (r.output.takeStoredCheckpoint fault).2.log = r.output.log := by
      unfold TerminalLog.takeStoredCheckpoint
      split
      · rfl
      · exact (TerminalLog.deriveTerminal_fields _ _ _ _).1
    simp only [TerminalRun.act,TerminalRun.offer]
    split <;> exact (congrArg OutputLog.latestOutputBytes htake).ge
  | sourceGap => exact le_rfl
  | historyGap => exact le_rfl
  | exit => exact le_rfl
  | prepareUpgrade fault =>
    simp only [TerminalRun.act,TerminalRun.prepared]
    split
    · exact (congrArg OutputLog.latestOutputBytes (TerminalLog.deriveTerminal_fields _ _ _ _).1).ge
    · exact le_rfl

theorem latest_le_run (perRunLimit : ℕ) (r : TerminalRun vt) (es : List OwnedEvent) :
    r.output.log.latestOutputBytes ≤
      (run (fun r => act r perRunLimit) r es).output.log.latestOutputBytes := by
  apply run_invariant (I := fun s : TerminalRun vt =>
    r.output.log.latestOutputBytes ≤ s.output.log.latestOutputBytes)
  · intro s e h
    exact h.trans (latest_le_act perRunLimit s e)
  · exact le_rfl

end TerminalRun
end Terminal
end Ctxmux
