import Ctxmux.TerminalReplay
import Ctxmux.OutputStream

/-!
# The live terminal model as a history

The parser of a live model is the parser at its checkpoint, with the output and the
resizes since then fed to it in their order. Every call on the model keeps that. What is
used of the parser itself stands in `Vt100.Restores`.
-/

namespace Ctxmux
namespace Terminal

open Durable (Byte RunId OutputChunk OutputReplay)
open Tiling Machine

/-- A seed gives back the parser it was taken from, at a complete parse boundary, and the
output may be fed in any division. -/
structure Vt100.Restores (vt : Vt100) : Prop where
  process_nil : ∀ parser, vt.process parser [] = parser
  process_append : ∀ parser xs ys,
    vt.process parser (xs ++ ys) = vt.process (vt.process parser xs) ys
  size_new : ∀ rows cols limit, vt.size (vt.new rows cols limit) = ⟨rows,cols⟩
  size_process : ∀ parser data, vt.size (vt.process parser data) = vt.size parser
  size_setSize : ∀ parser rows cols, vt.size (vt.setSize parser rows cols) = ⟨rows,cols⟩
  limit_new : ∀ rows cols limit, vt.scrollbackLimit (vt.new rows cols limit) = limit
  limit_process : ∀ parser data,
    vt.scrollbackLimit (vt.process parser data) = vt.scrollbackLimit parser
  limit_setSize : ∀ parser rows cols,
    vt.scrollbackLimit (vt.setSize parser rows cols) = vt.scrollbackLimit parser
  source : ∀ parser seed, vt.basicRestoreGeometryCheckpoint parser = some seed →
    ⟨seed.sourceRows,seed.sourceCols⟩ = vt.size parser
  restoreSize : ∀ parser seed, vt.basicRestoreGeometryCheckpoint parser = some seed →
    (vt.size parser).isZero = false →
      TerminalSize.isZero ⟨seed.restore.rows,seed.restore.cols⟩ = false
  ground : ∀ parser seed, vt.basicRestoreGeometryCheckpoint parser = some seed →
    vt.isGround parser = true
  seed_ground : ∀ parser seed, vt.basicRestoreGeometryCheckpoint parser = some seed →
    (vt.size parser).isZero = false → vt.scrollbackLimit parser = historyRows →
      vt.isGround (vt.process (vt.new seed.restore.rows seed.restore.cols
        (seed.restoreScrollbackRows.getD historyRows)) seed.restore.restoreBytes) = true
  seed_exact : ∀ parser seed, vt.basicRestoreGeometryCheckpoint parser = some seed →
    (vt.size parser).isZero = false → vt.scrollbackLimit parser = historyRows →
      let restored := vt.setScrollbackLimit (vt.process
        (vt.new seed.restore.rows seed.restore.cols (seed.restoreScrollbackRows.getD historyRows))
        seed.restore.restoreBytes) historyRows
      vt.process (if (⟨seed.restore.rows,seed.restore.cols⟩ : TerminalSize) ≠
          ⟨seed.sourceRows,seed.sourceCols⟩
        then vt.setSize restored seed.sourceRows seed.sourceCols else restored)
        seed.finalBytes = parser

variable {vt : Vt100}

/-- One call on the live model, at the head of the output. -/
inductive TerminalCall where
  | process (data : List Byte)
  | resize (size : TerminalSize)
  | cut
  | retentionCut (first : ℕ)
deriving DecidableEq,Repr

/-- A live model with the output that it has processed. -/
structure Derivation (vt : Vt100) where
  model : TerminalModel vt
  output : List Byte

namespace Derivation

def start (id : RunId) (size : TerminalSize) : Derivation vt := ⟨TerminalModel.new id size,[]⟩

def step (id : RunId) (live : Derivation vt) : TerminalCall → Derivation vt
  | .process data => ⟨live.model.process data,live.output ++ data⟩
  | .resize size => { live with model := (live.model.resize size live.output.length).2 }
  | .cut => { live with model := (live.model.cut id live.output.length).2 }
  | .retentionCut first =>
    { live with model := (live.model.retentionCut id first live.output.length).2 }

end Derivation

/-- The sizes of a Run are checked before its model is resized. -/
def TerminalCall.Sized : TerminalCall → Prop
  | .resize size => size.isZero = false
  | _ => True

instance (call : TerminalCall) : Decidable call.Sized := by
  unfold TerminalCall.Sized
  cases call <;> infer_instance

/-- The output from a position to the head, with the resizes among it. -/
def rendered (bytes : ℕ → Byte) (head : ℕ) :
    (position : ℕ) → List TerminalResize → Replayed vt → Replayed vt
  | position, [], state =>
    { state with parser := vt.process state.parser (slice bytes position head) }
  | position, resize::resizes, state =>
    rendered bytes head resize.throughByte resizes
      ⟨vt.setSize (vt.process state.parser (slice bytes position resize.throughByte))
        resize.size.rows resize.size.cols,resize.resizeRevision⟩

section Rendered

variable {next : ℕ → ℕ} {bytes : ℕ → Byte} {head position revision' : ℕ}
  {resizes : List TerminalResize} {state : Replayed vt}

/-- Output before the first resize may be fed on its own. -/
theorem rendered_process (hvt : vt.Restores) {cursor revision : ℕ} (hle : position ≤ cursor)
    (h : FollowsBy next revision' head revision cursor resizes) :
    rendered bytes head cursor resizes
        { state with parser := vt.process state.parser (slice bytes position cursor) } =
      rendered bytes head position resizes state := by
  cases resizes with
  | nil =>
    simp only [rendered]
    rw [← hvt.process_append,slice_append hle h.2]
  | cons resize resizes =>
    simp only [rendered]
    rw [← hvt.process_append,slice_append hle h.2.1]

theorem rendered_resize (hvt : vt.Restores) (resize : TerminalResize) :
    rendered bytes head resize.throughByte (resize::resizes) state =
      rendered bytes head resize.throughByte resizes
        ⟨vt.setSize state.parser resize.size.rows resize.size.cols,resize.resizeRevision⟩ := by
  simp only [rendered,slice_self,hvt.process_nil]

theorem rendered_congr {bytes' : ℕ → Byte} {revision : ℕ}
    (hbytes : ∀ p, p < head → bytes p = bytes' p)
    (h : FollowsBy next revision' head revision position resizes) :
    rendered bytes head position resizes state = rendered bytes' head position resizes state := by
  induction resizes generalizing position revision state with
  | nil =>
    simp only [rendered]
    rw [slice_congr fun p _ hp => hbytes p hp]
  | cons resize resizes ih =>
    have hlast := h.2.2.2.position_le
    simp only [rendered]
    rw [slice_congr fun p _ hp => hbytes p (hp.trans_le hlast)]
    exact ih h.2.2.2

theorem rendered_later (hvt : vt.Restores) {head' revision : ℕ} (hle : head ≤ head')
    (h : FollowsBy next revision' head revision position resizes) :
    rendered bytes head' position resizes state =
      { rendered bytes head position resizes state with
        parser := vt.process (rendered bytes head position resizes state).parser
          (slice bytes head head') } := by
  induction resizes generalizing position revision state with
  | nil =>
    simp only [rendered]
    rw [← hvt.process_append,slice_append h.2 hle]
  | cons resize resizes ih => exact ih h.2.2.2

theorem rendered_concat (hvt : vt.Restores) (revision : ℕ) (size : TerminalSize) :
    rendered bytes head position (resizes ++ [⟨head,revision,size⟩]) state =
      ⟨vt.setSize (rendered bytes head position resizes state).parser size.rows size.cols,
        revision⟩ := by
  induction resizes generalizing position state with
  | nil => simp only [List.nil_append,rendered,slice_self,hvt.process_nil]
  | cons resize resizes ih => exact ih

end Rendered

/-- The model with its revision, as a replay keeps them. -/
def TerminalModel.replayed (model : TerminalModel vt) : Replayed vt :=
  ⟨model.parser,model.resizeRevision⟩

/-- The bytes of the output by position. -/
def Derivation.bytes (live : Derivation vt) (p : ℕ) : Byte := live.output.getD p 0

/-- The checkpoint was cut from a parser of the history, and the resizes since then lead
to the parser and the revision of the model. -/
structure Derivation.Derived (id : RunId) (live : Derivation vt) (saved : StoredCheckpoint)
    (fenced : vt.Parser) (seed : BasicRestoreGeometryCheckpoint) : Prop where
  seeded : vt.basicRestoreGeometryCheckpoint fenced = some seed
  size : (vt.size fenced).isZero = false
  limit : vt.scrollbackLimit fenced = historyRows
  small : seed.restore.restoreBytes.length+seed.finalBytes.length ≤ maxRestoreBytes
  checkpoint : saved.checkpoint =
    (StoredCheckpoint.ofSeed id saved.checkpoint.throughByte saved.checkpoint.resizeRevision
      seed).checkpoint
  restore : saved.restore = seed.restore.restoreBytes ++ seed.finalBytes
  tail : FollowsBy nextRevision live.model.resizeRevision live.output.length
    saved.checkpoint.resizeRevision saved.checkpoint.throughByte saved.resizes
  bounded : saved.resizes.length ≤ maxResizeTail
  exact : rendered live.bytes live.output.length saved.checkpoint.throughByte saved.resizes
    ⟨fenced,saved.checkpoint.resizeRevision⟩ = live.model.replayed

/-- What every call on the live model keeps. -/
structure Derivation.Kept (id : RunId) (live : Derivation vt) : Prop where
  size : live.model.size.isZero = false
  limit : vt.scrollbackLimit live.model.parser = historyRows
  stored : ∀ saved, live.model.stored = some saved → ∃ fenced seed,
    Derived id live saved fenced seed

namespace Derivation

variable {id : RunId} {live : Derivation vt} {saved : StoredCheckpoint}

theorem stored_eq_some {model : TerminalModel vt} :
    model.stored = some saved ↔ model.geometryValid = true ∧ model.checkpoint = some saved := by
  unfold TerminalModel.stored
  split <;> simp [*]

theorem Kept.cut (hvt : vt.Restores) (h : live.Kept id) :
    Kept id { live with model := (live.model.cut id live.output.length).2 } := by
  obtain ⟨hparser,hrevision⟩ := live.model.cut_fields id live.output.length
  constructor
  · have hsize := congrArg vt.size hparser
    exact (congrArg TerminalSize.isZero hsize).trans h.size
  · exact (congrArg vt.scrollbackLimit hparser).trans h.limit
  · intro saved hsaved
    unfold TerminalModel.cut at hsaved ⊢
    cases hseed : vt.basicRestoreGeometryCheckpoint live.model.parser with
    | none =>
      rw [hseed] at hsaved
      exact h.stored saved hsaved
    | some seed =>
      rw [hseed] at hsaved
      dsimp only at hsaved ⊢
      split at hsaved
      · rename_i hlarge
        rw [if_pos hlarge]
        exact h.stored saved hsaved
      · rename_i hsmall
        rw [if_neg hsmall]
        cases (stored_eq_some.mp hsaved).2
        refine ⟨live.model.parser,seed,hseed,h.size,h.limit,by omega,rfl,rfl,⟨rfl,le_rfl⟩,?_,?_⟩
        · exact Nat.zero_le _
        · show rendered _ _ _ [] _ = _
          simp only [rendered]
          rw [show (StoredCheckpoint.ofSeed id live.output.length live.model.resizeRevision
            seed).checkpoint.throughByte = live.output.length from rfl,slice_self,hvt.process_nil]
          rfl

theorem Derived.process (hvt : vt.Restores) {fenced : vt.Parser}
    {seed : BasicRestoreGeometryCheckpoint} (h : Derived id live saved fenced seed)
    (data : List Byte) : Derived id (live.step id (.process data)) saved fenced seed := by
  have hbytes : ∀ p, p < live.output.length →
      live.bytes p = (live.step id (.process data)).bytes p := by
    intro p hp
    simp only [bytes,step,List.getD_eq_getElem?_getD,List.getElem?_append_left hp]
  have hlast : slice (live.step id (.process data)).bytes live.output.length
      (live.output ++ data).length = data := by
    rw [List.length_append]
    refine (slice_congr ?_).trans (slice_getD data 0 live.output.length)
    intro p hp _
    simp only [bytes,step,List.getD_eq_getElem?_getD,List.getElem?_append_right hp]
  have hle : live.output.length ≤ (live.output ++ data).length := by
    rw [List.length_append]
    exact Nat.le_add_right _ _
  refine { h with tail := h.tail.later hle, exact := ?_ }
  refine (rendered_later hvt hle h.tail).trans ?_
  rw [← rendered_congr hbytes h.tail,h.exact,hlast]
  rfl

theorem Kept.process (hvt : vt.Restores) (h : live.Kept id) (data : List Byte) :
    Kept id (live.step id (.process data)) where
  size := by
    have hsize := hvt.size_process live.model.parser data
    exact (congrArg TerminalSize.isZero hsize).trans h.size
  limit := (hvt.limit_process _ _).trans h.limit
  stored := by
    intro saved hsaved
    obtain ⟨fenced,seed,hderived⟩ := h.stored saved hsaved
    exact ⟨fenced,seed,hderived.process hvt data⟩

theorem Kept.resize (hvt : vt.Restores) (h : live.Kept id) {size : TerminalSize}
    (hsize : size.isZero = false) :
    Kept id { live with model := (live.model.resize size live.output.length).2 } := by
  have hfields : (live.model.resize size live.output.length).2.replayed =
      ⟨vt.setSize live.model.parser size.rows size.cols,nextRevision live.model.resizeRevision⟩ := by
    unfold TerminalModel.resize TerminalModel.replayed
    cases live.model.checkpoint with
    | none => rfl
    | some saved =>
      dsimp only
      split <;> rfl
  have hparser := congrArg Replayed.parser hfields
  have hrevision : (live.model.resize size live.output.length).2.resizeRevision =
      nextRevision live.model.resizeRevision := congrArg Replayed.resizeRevision hfields
  constructor
  · have hnew := (congrArg vt.size hparser).trans (hvt.size_setSize _ _ _)
    exact (congrArg TerminalSize.isZero hnew).trans hsize
  · exact (congrArg vt.scrollbackLimit hparser).trans ((hvt.limit_setSize _ _ _).trans h.limit)
  · intro saved hsaved
    obtain ⟨hvalid,hcheckpoint⟩ := stored_eq_some.mp hsaved
    cases hold : live.model.checkpoint with
    | none =>
      simp only [TerminalModel.resize,hold] at hcheckpoint
      cases hcheckpoint
    | some old =>
      by_cases hfull : old.resizes.length = maxResizeTail
      · simp only [TerminalModel.resize,hold,if_pos hfull] at hvalid
        cases hvalid
      · simp only [TerminalModel.resize,hold,if_neg hfull] at hvalid hcheckpoint
        cases Option.some.inj hcheckpoint
        obtain ⟨fenced,seed,hderived⟩ := h.stored old (stored_eq_some.mpr ⟨hvalid,hold⟩)
        refine ⟨fenced,seed,{ hderived with tail := ?_, bounded := ?_, exact := ?_ }⟩
        · have htail := hderived.tail.concat hsize
          show FollowsBy _ (live.model.resize size live.output.length).2.resizeRevision _ _ _ _
          rw [hrevision]
          exact htail
        · have hbounded := hderived.bounded
          simp only [List.length_append,List.length_singleton]
          omega
        · have hnow := hderived.exact
          refine (rendered_concat hvt _ _).trans ?_
          show Replayed.mk (vt.setSize (rendered live.bytes live.output.length
            old.checkpoint.throughByte old.resizes
            ⟨fenced,old.checkpoint.resizeRevision⟩).parser size.rows size.cols) _ = _
          rw [hnow]
          exact hfields.symm

theorem kept_start (hvt : vt.Restores) (id : RunId) {size : TerminalSize}
    (hsize : size.isZero = false) : Kept id (start id size : Derivation vt) := by
  have hnew : Kept id
      (⟨⟨vt.new size.rows size.cols historyRows,none,0,true⟩,[]⟩ : Derivation vt) :=
    ⟨(congrArg TerminalSize.isZero (hvt.size_new _ _ _)).trans hsize,hvt.limit_new _ _ _,nofun⟩
  exact hnew.cut hvt

theorem Kept.step (hvt : vt.Restores) (h : live.Kept id) (call : TerminalCall)
    (hcall : call.Sized) : Kept id (step id live call) := by
  cases call with
  | process data => exact h.process hvt data
  | resize size => exact h.resize hvt hcall
  | cut => exact h.cut hvt
  | retentionCut first =>
    unfold Derivation.step TerminalModel.retentionCut
    dsimp only
    split
    · exact h.cut hvt
    · exact h

/-- A call other than a resize leaves every earlier checkpoint a checkpoint of the model. -/
theorem Derived.step (hvt : vt.Restores) {fenced : vt.Parser}
    {seed : BasicRestoreGeometryCheckpoint} (h : Derived id live saved fenced seed)
    (call : TerminalCall) (hcall : ∀ size, call ≠ .resize size) :
    Derived id (live.step id call) saved fenced seed := by
  have hcut : ∀ model : TerminalModel vt, model.parser = live.model.parser ∧
      model.resizeRevision = live.model.resizeRevision →
        Derived id { live with model := model } saved fenced seed := by
    rintro model ⟨hparser,hrevision⟩
    have htail := h.tail
    have hexact := h.exact
    rw [← hrevision] at htail
    refine { h with tail := htail, exact := hexact.trans ?_ }
    unfold TerminalModel.replayed
    rw [hparser,hrevision]
  cases call with
  | process data => exact h.process hvt data
  | resize size => exact absurd rfl (hcall size)
  | cut => exact hcut _ (live.model.cut_fields _ _)
  | retentionCut first => exact hcut _ (live.model.retentionCut_fields _ _ _)

end Derivation

end Terminal
end Ctxmux
