import Ctxmux.HeaderAccepted

/-!
# A stale terminal model is not recovered

The mark of a new checkpoint is cleared before the offer is known to be saved, so a
confirmed resize can leave an older file behind. A running Run replaces or withdraws its
file before an upgrade; an ended Run keeps it. The model that any daemon recovers is
current as long as no Run ends with a file from before its last confirmed resize.
-/

namespace Ctxmux
namespace Terminal

open Durable (Byte RunId OutputChunk OutputReplay)
open Output (OutputLog)
open Machine

variable {vt : Vt100}

/-- A model, if there is one, has this revision and this size. -/
def TerminalLog.Stands (revision : ℕ) (size : TerminalSize) (output : TerminalLog vt) : Prop :=
  ∀ model, output.terminal = some model → model.resizeRevision = revision ∧ model.size = size

/-- A stored checkpoint ends at this revision and this size. -/
def StoredCheckpoint.Ends (revision : ℕ) (size : TerminalSize) (saved : StoredCheckpoint) : Prop :=
  saved.checkpoint.resizeRevision+saved.resizes.length = revision ∧
    lastSize saved.checkpoint.size saved.resizes = size

namespace TerminalLog

variable {output : TerminalLog vt} {revision : ℕ} {size : TerminalSize}

theorem stands_of_none (h : output.terminal = none) : output.Stands revision size := by
  intro model hmodel
  rw [h] at hmodel
  cases hmodel

theorem Stands.derive {α : Type} (h : output.Stands revision size)
    {stage : NativeTerminalFaultStage} {fault : Bool}
    {derive : TerminalModel vt → α × TerminalModel vt}
    (hderive : ∀ model, (derive model).2.resizeRevision = model.resizeRevision ∧
      (derive model).2.size = model.size) :
    (output.deriveTerminal stage fault derive).2.Stands revision size := by
  intro model hmodel
  obtain ⟨before,hbefore,rfl,_⟩ := deriveTerminal_model hmodel
  obtain ⟨hrevision,hsize⟩ := h before hbefore
  obtain ⟨hkeepRevision,hkeepSize⟩ := hderive before
  exact ⟨hkeepRevision.trans hrevision,hkeepSize.trans hsize⟩

theorem cut_stands (model : TerminalModel vt) (id : RunId) (throughByte : ℕ) :
    (model.cut id throughByte).2.resizeRevision = model.resizeRevision ∧
      (model.cut id throughByte).2.size = model.size := by
  obtain ⟨hparser,hrevision⟩ := model.cut_fields id throughByte
  exact ⟨hrevision,congrArg vt.size hparser⟩

theorem retentionCut_stands (model : TerminalModel vt) (id : RunId) (first latest : ℕ) :
    (model.retentionCut id first latest).2.resizeRevision = model.resizeRevision ∧
      (model.retentionCut id first latest).2.size = model.size := by
  obtain ⟨hparser,hrevision⟩ := model.retentionCut_fields id first latest
  exact ⟨hrevision,congrArg vt.size hparser⟩

theorem Stands.terminalSnapshot (h : output.Stands revision size) (id : RunId) (fault : Bool) :
    (output.terminalSnapshot id fault).2.Stands revision size :=
  h.derive fun model => cut_stands model _ _

theorem Stands.terminalPressure (h : output.Stands revision size) (id : RunId) (fault : Bool) :
    (output.terminalPressure id fault).Stands revision size := by
  have hderived : (output.deriveTerminal .export fault fun terminal => terminal.retentionCut id
      output.log.firstAvailableByte output.log.latestOutputBytes).2.Stands revision size :=
    h.derive fun model => retentionCut_stands model _ _ _
  unfold TerminalLog.terminalPressure
  simp only
  split
  · exact hderived
  · exact hderived

theorem Stands.takeStoredCheckpoint (h : output.Stands revision size) (fault : Bool) :
    (output.takeStoredCheckpoint fault).2.Stands revision size := by
  unfold TerminalLog.takeStoredCheckpoint
  split
  · exact h
  · have hclean : Stands revision size { output with checkpointDirty := false } := h
    exact hclean.derive fun _ => ⟨rfl,rfl⟩

theorem Stands.pushProtected (hvt : vt.Lawful) (h : output.Stands revision size) (perRunLimit : ℕ)
    (data : List Byte) (protectedFrom : ℕ) (fault : Bool) :
    (output.pushProtected perRunLimit data protectedFrom fault).Stands revision size := by
  unfold TerminalLog.pushProtected
  split
  · exact h
  · rename_i log _
    have hlog : Stands revision size { output with log := log } := h
    exact hlog.derive fun model => ⟨rfl,hvt.size_process _ _⟩

theorem Stands.trimFrontBounded (h : output.Stands revision size) (dropAtLeast maximum : ℕ) :
    (output.trimFrontBounded dropAtLeast maximum).Stands revision size := by
  unfold TerminalLog.trimFrontBounded
  split
  · exact h
  · exact h

/-- After a resize the model has the published revision and the new size. -/
theorem stands_resizeTerminal (hvt : vt.Lawful) {size : TerminalSize} {fault : Bool}
    {resize : TerminalResize} {after : TerminalLog vt}
    (h : output.resizeTerminal size fault = some (resize,after)) :
    after.Stands resize.resizeRevision size := by
  obtain ⟨_,rfl,rfl⟩ := resizeTerminal_eq_some h
  intro model hmodel
  simp only at hmodel ⊢
  obtain ⟨before,_,rfl,hvalue⟩ := deriveTerminal_model hmodel
  rw [hvalue]
  obtain ⟨hrevision,_,hsize,hpublished⟩ :=
    TerminalModel.resize_fields hvt before size output.log.latestOutputBytes
  exact ⟨hrevision.trans hpublished.symm,hsize⟩

theorem stands_recoverTerminal (hvt : vt.Lawful) {log : OutputLog} {file : Option StoredCheckpoint}
    (hfile : ∀ saved, file = some saved → Filed saved ∧ saved.Ends revision size) (id : RunId)
    (confirmedSize : Option TerminalSize) (fault : Bool) :
    ((ofLog log : TerminalLog vt).recoverTerminal id file confirmedSize fault).Stands revision
      size := by
  cases file with
  | none => exact stands_of_none rfl
  | some saved =>
    obtain ⟨hfiled,hends⟩ := hfile saved rfl
    unfold recoverTerminal
    simp only
    split
    · rename_i terminal hterminal
      intro model hmodel
      cases Option.some.inj hmodel
      obtain ⟨hrecovered,_⟩ := Option.filter_eq_some_iff.mp hterminal
      cases fault with
      | true => cases hrecovered
      | false =>
        obtain ⟨_,hrevision,hsize⟩ :=
          TerminalModel.recover_sound hvt hrecovered hfiled.nonempty hfiled.history hfiled.bounded
        exact ⟨hrevision.trans hends.1,hsize.trans hends.2⟩
    · exact stands_of_none rfl

end TerminalLog

theorem ends_of_stored {id : RunId} {latest revision : ℕ} {size : TerminalSize}
    {model : TerminalModel vt} (hsound : model.Sound id latest)
    (hstands : model.resizeRevision = revision ∧ model.size = size) {saved : StoredCheckpoint}
    (hstored : model.stored = some saved) : saved.Ends revision size := by
  unfold TerminalModel.stored at hstored
  split at hstored
  · rename_i hvalid
    obtain ⟨hrevision,hsize⟩ := hsound.valid hvalid saved hstored
    exact ⟨hrevision.trans hstands.1,hsize.trans hstands.2⟩
  · cases hstored

namespace TerminalRun

variable {r : TerminalRun vt}

/-- The model, and a file that no resize came after, are those of the last confirmed
resize. An ended Run has no other file. -/
structure Tracked (r : TerminalRun vt) : Prop extends Sound r where
  model : r.output.Stands r.confirmedRevision r.confirmedSize
  saved : r.unsaved = false → ∀ saved, r.file = some saved →
    saved.Ends r.confirmedRevision r.confirmedSize
  ended : r.running = false → r.file.isSome = true → r.unsaved = false

/-- A Run does not end with a file from before its last confirmed resize. -/
def Recorded (r : TerminalRun vt) : TerminalEvent → Prop
  | .owned .exit => ¬(r.file.isSome = true ∧ r.unsaved = true)
  | .owned _ => True
  | .reopen _ => True

/-- Whatever daemon owns the Run next has no model of it, or the one of its last confirmed
resize. -/
def Current (r : TerminalRun vt) : Prop :=
  ∀ reopening, (r.reopen reopening).output.Stands r.confirmedRevision r.confirmedSize

theorem tracked_start (hvt : vt.Lawful) (id : RunId) (size : TerminalSize) (fault : Bool) :
    (start id size fault : TerminalRun vt).Tracked where
  toSound := sound_start hvt id size fault
  model := by
    cases fault with
    | true => exact TerminalLog.stands_of_none rfl
    | false =>
      intro model hmodel
      cases Option.some.inj hmodel
      exact TerminalModel.new_fields hvt id size
  saved := fun _ => nofun
  ended := nofun

theorem Tracked.prepared (hvt : vt.Lawful) (h : r.Tracked) (fault : Bool) :
    (r.prepared fault).Tracked := by
  have hsound := h.toSound.prepared hvt fault
  unfold TerminalRun.prepared at hsound ⊢
  split
  · rename_i hrunning
    rw [if_pos hrunning] at hsound
    have hmodel := h.model.terminalSnapshot r.id fault
    refine ⟨hsound,hmodel,?_,fun _ _ => rfl⟩
    intro _ saved hsaved
    simp only [prepareUpgrade] at hsaved
    split at hsaved
    · obtain ⟨model,hin,hstored⟩ := Option.bind_eq_some_iff.mp hsaved
      exact ends_of_stored (hsound.output model hin).1 (hmodel model hin) hstored
    · cases hsaved
  · exact h

theorem prepared_confirmed (r : TerminalRun vt) (fault : Bool) :
    (r.prepared fault).confirmedRevision = r.confirmedRevision ∧
      (r.prepared fault).confirmedSize = r.confirmedSize ∧
      (r.prepared fault).running = r.running := by
  unfold TerminalRun.prepared
  split <;> exact ⟨rfl,rfl,rfl⟩

/-- The file that an upgrade reads has no resize after it. -/
theorem Tracked.prepared_saved (h : r.Tracked) (fault : Bool)
    (hsome : (r.prepared fault).file.isSome = true) : (r.prepared fault).unsaved = false := by
  unfold TerminalRun.prepared at hsome ⊢
  cases hrunning : r.running with
  | true => rfl
  | false =>
    rw [hrunning] at hsome
    exact h.ended hrunning hsome

theorem Tracked.current (hvt : vt.Lawful) (h : r.Tracked) : r.Current := by
  intro reopening
  cases reopening with
  | coldStart replay sourceGap => exact TerminalLog.stands_of_none rfl
  | upgrade exportFault replay sourceGap confirmedSize recoverFault =>
    have hprepared := h.prepared hvt exportFault
    obtain ⟨hrevision,hsize,_⟩ := r.prepared_confirmed exportFault
    apply TerminalLog.stands_recoverTerminal hvt
    intro saved hsaved
    have hunsaved := h.prepared_saved exportFault (Option.isSome_iff_exists.mpr ⟨saved,hsaved⟩)
    have hends := hprepared.saved hunsaved saved hsaved
    rw [hrevision,hsize] at hends
    exact ⟨hprepared.file saved hsaved,hends⟩

theorem Tracked.reopen (hvt : vt.Lawful) (h : r.Tracked) (reopening : Reopening) :
    (r.reopen reopening).Tracked := by
  have hcurrent := h.current hvt reopening
  have hsound := h.toSound.reopen hvt reopening
  cases reopening with
  | coldStart replay sourceGap => exact ⟨hsound,hcurrent,fun _ => nofun,fun _ => nofun⟩
  | upgrade exportFault replay sourceGap confirmedSize recoverFault =>
    have hprepared := h.prepared hvt exportFault
    obtain ⟨hrevision,hsize,_⟩ := r.prepared_confirmed exportFault
    refine ⟨hsound,?_,hprepared.saved,hprepared.ended⟩
    simp only [TerminalRun.reopen,hrevision,hsize]
    exact hcurrent

theorem Tracked.offer (h : r.Tracked) (fault : Bool) (outcome : OfferOutcome) :
    (r.offer fault outcome).Tracked := by
  have hsound := h.toSound.offer fault outcome
  have hmodel := h.model.takeStoredCheckpoint fault
  unfold TerminalRun.offer at hsound ⊢
  simp only at hsound ⊢
  split
  · rename_i saved htaken
    rw [htaken] at hsound
    refine ⟨hsound,hmodel,?_,fun _ _ => rfl⟩
    intro _ other hother
    cases Option.some.inj hother
    obtain ⟨model,hin,hstored⟩ := stored_of_take htaken
    exact ends_of_stored (h.output model hin).1 (h.model model hin) hstored
  · exact ⟨⟨h.output.takeStoredCheckpoint fault,h.file⟩,hmodel,h.saved,h.ended⟩

theorem Tracked.resize (hvt : vt.Lawful) (h : r.Tracked) (size : TerminalSize) (fault : Bool) :
    (r.resize size fault).Tracked := by
  have hsound := h.toSound.resize hvt size fault
  unfold TerminalRun.resize at hsound ⊢
  split
  · rename_i hsize
    rw [if_pos hsize] at hsound
    split
    · exact h
    · rename_i resize output hresized
      rw [hresized] at hsound
      refine ⟨hsound,TerminalLog.stands_resizeTerminal hvt hresized,nofun,?_⟩
      intro hended
      exact absurd (hsize.1.symm.trans hended) (by decide)
  · exact h

theorem Tracked.act (hvt : vt.Lawful) (h : r.Tracked) (perRunLimit : ℕ) (e : OwnedEvent)
    (hrecorded : r.Recorded (.owned e)) : (r.act perRunLimit e).Tracked := by
  have hsound := h.toSound.act hvt perRunLimit e
  cases e with
  | push data protectedFrom fault =>
    exact ⟨hsound,h.model.pushProtected hvt perRunLimit data protectedFrom fault,h.saved,h.ended⟩
  | trim dropAtLeast maximum =>
    exact ⟨hsound,h.model.trimFrontBounded dropAtLeast maximum,h.saved,h.ended⟩
  | pressure fault => exact ⟨hsound,h.model.terminalPressure r.id fault,h.saved,h.ended⟩
  | snapshot fault => exact ⟨hsound,h.model.terminalSnapshot r.id fault,h.saved,h.ended⟩
  | resize size fault => exact h.resize hvt size fault
  | resizeUnknown => exact ⟨hsound,TerminalLog.stands_of_none rfl,h.saved,h.ended⟩
  | offer fault outcome => exact h.offer fault outcome
  | sourceGap => exact ⟨hsound,TerminalLog.stands_of_none rfl,h.saved,h.ended⟩
  | historyGap => exact ⟨hsound,h.model,h.saved,h.ended⟩
  | exit =>
    refine ⟨hsound,h.model,h.saved,?_⟩
    intro _ hsome
    cases hunsaved : r.unsaved with
    | false => exact hunsaved
    | true => exact absurd ⟨hsome,hunsaved⟩ hrecorded
  | prepareUpgrade fault => exact h.prepared hvt fault

theorem Tracked.step (hvt : vt.Lawful) (h : r.Tracked) (perRunLimit : ℕ) (e : TerminalEvent)
    (hrecorded : r.Recorded e) : (r.step perRunLimit e).Tracked := by
  cases e with
  | owned e => exact h.act hvt perRunLimit e hrecorded
  | reopen reopening => exact h.reopen hvt reopening

/-- In every run in which no Run ends with a file from before its last confirmed resize,
no daemon that owns the Run next recovers a stale model, in whatever state it takes over. -/
theorem terminal_model_current (hvt : vt.Lawful) (perRunLimit : ℕ) (id : RunId)
    (size : TerminalSize) (fault : Bool) (es : List TerminalEvent)
    (hes : Along (fun r e => TerminalRun.step r perRunLimit e) Recorded
      (start id size fault : TerminalRun vt) es) :
    Always (fun r e => TerminalRun.step r perRunLimit e) Current
      (start id size fault : TerminalRun vt) es :=
  always_of_invariant_along (fun _ e h hrecorded => h.step hvt perRunLimit e hrecorded)
    (fun _ h => h.current hvt) (tracked_start hvt id size fault) hes

/-- A Run that is resized twice and ends, with both checkpoints saved. -/
def savedResizes : List TerminalEvent :=
  [.owned (.resize ⟨30,100⟩ false),.owned (.offer false .saved),.owned (.resize ⟨40,120⟩ false),
    .owned (.offer false .saved),.owned .exit]

theorem terminal_model_current_saved :
    Along (fun r e => TerminalRun.step r 64 e) Recorded
        (start ⟨"run"⟩ ⟨24,80⟩ false : TerminalRun sizeParser) savedResizes ∧
      Always (fun r e => TerminalRun.step r 64 e) Current
        (start ⟨"run"⟩ ⟨24,80⟩ false : TerminalRun sizeParser) savedResizes := by
  have hes : Along (fun r e => TerminalRun.step r 64 e) Recorded
      (start ⟨"run"⟩ ⟨24,80⟩ false : TerminalRun sizeParser) savedResizes :=
    ⟨trivial,trivial,trivial,trivial,by unfold Recorded; decide,trivial⟩
  exact ⟨hes,terminal_model_current sizeParser_lawful 64 ⟨"run"⟩ ⟨24,80⟩ false savedResizes hes⟩

/-- The second offer is refused by a full queue, and the Run ends. -/
def refusedResize : List TerminalEvent :=
  [.owned (.resize ⟨30,100⟩ false),.owned (.offer false .saved),.owned (.resize ⟨40,120⟩ false),
    .owned (.offer false .queueFull),.owned .exit]

/-- An image that replaces this one then recovers the model of the first resize. -/
theorem refused_offer_leaves_stale_model :
    ¬Current (run (fun r e => TerminalRun.step r 64 e)
        (start ⟨"run"⟩ ⟨24,80⟩ false : TerminalRun sizeParser) refusedResize) ∧
      (run (fun r e => TerminalRun.step r 64 e)
        (start ⟨"run"⟩ ⟨24,80⟩ false : TerminalRun sizeParser)
        (refusedResize ++ [.reopen (.upgrade false ⟨[],0,0,false⟩ none none false)])).output.terminal.map
          (fun model => (model.resizeRevision,model.size)) = some (1,⟨30,100⟩) ∧
      (run (fun r e => TerminalRun.step r 64 e)
        (start ⟨"run"⟩ ⟨24,80⟩ false : TerminalRun sizeParser) refusedResize).confirmedRevision = 2 := by
  have hstale : ((run (fun r e => TerminalRun.step r 64 e)
      (start ⟨"run"⟩ ⟨24,80⟩ false : TerminalRun sizeParser) refusedResize).reopen
        (.upgrade false ⟨[],0,0,false⟩ none none false)).output.terminal.map
          (fun model => (model.resizeRevision,model.size)) = some (1,⟨30,100⟩) := by decide
  refine ⟨?_,hstale,by decide⟩
  intro hcurrent
  obtain ⟨model,hmodel,hfields⟩ := Option.map_eq_some_iff.mp hstale
  have hrevision := (hcurrent _ model hmodel).1
  have hone : model.resizeRevision = 1 := congrArg Prod.fst hfields
  rw [hone] at hrevision
  exact absurd hrevision (by decide)

end TerminalRun
end Terminal
end Ctxmux
