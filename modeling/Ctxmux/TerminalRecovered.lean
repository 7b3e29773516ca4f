import Ctxmux.TerminalHistory
import Ctxmux.TerminalLoops

/-!
# Recovery gives back the live model

A replay in any division feeds the same output between the same resizes as the live model
had. So the recovered model is the live one, with the checkpoint that was stored. Revisions
are raised in `u64` without a check, so a file can lead over the largest one to zero.
-/

namespace Ctxmux
namespace Terminal

open Durable (Byte RunId OutputChunk OutputReplay)
open Tiling Machine

variable {vt : Vt100}

/-- The chunks hold the output from a position to the head, in any division. -/
def Carries (bytes : ℕ → Byte) (head : ℕ) : (position : ℕ) → List OutputChunk → Prop
  | position, [] => position = head
  | position, chunk::chunks => chunk.startByte = position ∧ position ≤ chunk.endByte ∧
      chunk.endByte ≤ head ∧ chunk.data = slice bytes position chunk.endByte ∧
        Carries bytes head chunk.endByte chunks

instance decidableCarries (bytes : ℕ → Byte) (head : ℕ) :
    (position : ℕ) → (chunks : List OutputChunk) → Decidable (Carries bytes head position chunks)
  | position, [] => inferInstanceAs (Decidable (position = head))
  | position, chunk::chunks =>
    have := decidableCarries bytes head chunk.endByte chunks
    inferInstanceAs (Decidable (chunk.startByte = position ∧ position ≤ chunk.endByte ∧
      chunk.endByte ≤ head ∧ chunk.data = slice bytes position chunk.endByte ∧
        Carries bytes head chunk.endByte chunks))

namespace Replayed

variable {bytes : ℕ → Byte} {head revision' cursor : ℕ} {chunk : OutputChunk}
  {resizes : List TerminalResize} {state : Replayed vt}

theorem processRange_eq (hstart : chunk.startByte ≤ cursor) {last : ℕ} (hcursor : cursor ≤ last)
    (hlast : last ≤ chunk.endByte) (hdata : chunk.data = slice bytes chunk.startByte chunk.endByte) :
    state.processRange chunk cursor last =
      some { state with parser := vt.process state.parser (slice bytes cursor last) } := by
  have hlen : chunk.data.length = chunk.endByte-chunk.startByte := by rw [hdata,length_slice]
  have hrange : Output.slicedRange chunk.data (cursor-chunk.startByte) (last-chunk.startByte) =
      some (slice bytes cursor last) := by
    rw [Output.slicedRange_of_le (by omega) (by omega),hdata,drop_slice,
      Nat.add_sub_cancel' hstart,take_slice (by omega)]
    congr 2
    omega
  simp only [processRange,hrange,Option.bind_eq_bind,Option.bind_some]

theorem advance_eq (hstart : chunk.startByte ≤ cursor) (hvt : vt.Restores) {throughByte : ℕ}
    (hcursor : cursor ≤ throughByte) (hlast : throughByte ≤ chunk.endByte)
    (hdata : chunk.data = slice bytes chunk.startByte chunk.endByte) :
    state.advance chunk cursor throughByte =
      some { state with parser := vt.process state.parser (slice bytes cursor throughByte) } := by
  unfold advance
  split
  · rename_i heq
    rw [heq,slice_self,hvt.process_nil]
  · exact processRange_eq hstart hcursor hlast hdata

/-- A chunk of true bytes is replayed, and what is left to render is the same as before. -/
theorem applyChunk_rendered (hvt : vt.Restores) (hstart : chunk.startByte ≤ cursor)
    (hcursor : cursor < chunk.endByte) (hhead : chunk.endByte ≤ head)
    (hdata : chunk.data = slice bytes chunk.startByte chunk.endByte)
    (h : FollowsBy nextRevision revision' head state.resizeRevision cursor resizes) :
    ∃ state' rest, applyChunk chunk resizes cursor state = some (state',rest) ∧
      FollowsBy nextRevision revision' head state'.resizeRevision chunk.endByte rest ∧
      rendered bytes head chunk.endByte rest state' =
        rendered bytes head cursor resizes state := by
  induction resizes generalizing cursor state with
  | nil =>
    have hfed : state.processRange chunk cursor chunk.endByte =
        some { state with parser := vt.process state.parser (slice bytes cursor chunk.endByte) } :=
      processRange_eq hstart hcursor.le le_rfl hdata
    have hrest : FollowsBy nextRevision revision' head state.resizeRevision chunk.endByte [] := ⟨h.1,hhead⟩
    refine ⟨{ state with parser := vt.process state.parser (slice bytes cursor chunk.endByte) },
      [],?_,hrest,rendered_process hvt hcursor.le hrest⟩
    rw [applyChunk,hfed]
    rfl
  | cons resize resizes ih =>
    obtain ⟨hnumber,hafter,hsize,htail⟩ := h
    by_cases hinside : resize.throughByte < chunk.endByte
    · have hfed : state.advance chunk cursor resize.throughByte =
          some { state with
            parser := vt.process state.parser (slice bytes cursor resize.throughByte) } :=
        advance_eq hstart hvt hafter hinside.le hdata
      have hsized : applyResize
          { state with parser := vt.process state.parser (slice bytes cursor resize.throughByte) }
          resize = some ⟨vt.setSize (vt.process state.parser
            (slice bytes cursor resize.throughByte)) resize.size.rows resize.size.cols,
            resize.resizeRevision⟩ := by
        apply if_neg
        simp [hnumber,hsize]
      have hfollows : FollowsBy nextRevision revision' head (⟨vt.setSize (vt.process state.parser
          (slice bytes cursor resize.throughByte)) resize.size.rows resize.size.cols,
          resize.resizeRevision⟩ : Replayed vt).resizeRevision resize.throughByte resizes := htail
      obtain ⟨state',rest,hchunk,hrest,hsame⟩ := ih (by omega) hinside hfollows
      refine ⟨state',rest,?_,hrest,hsame⟩
      rw [applyChunk,if_neg (by omega),if_pos hinside,hfed]
      simp only [Option.bind_eq_bind,Option.bind_some,hsized]
      exact hchunk
    · have hfed : state.processRange chunk cursor chunk.endByte =
        some { state with parser := vt.process state.parser (slice bytes cursor chunk.endByte) } :=
      processRange_eq hstart hcursor.le le_rfl hdata
      have hrest : FollowsBy nextRevision revision' head state.resizeRevision chunk.endByte (resize::resizes) :=
        ⟨hnumber,by omega,hsize,htail⟩
      refine ⟨{ state with parser := vt.process state.parser (slice bytes cursor chunk.endByte) },
        resize::resizes,?_,hrest,rendered_process hvt hcursor.le hrest⟩
      rw [applyChunk,if_neg (by omega),if_neg hinside,hfed]
      rfl

theorem applyChunks_rendered (hvt : vt.Restores) {chunks : List OutputChunk} {position : ℕ}
    (hchunks : Carries bytes head position chunks) (hposition : position ≤ cursor)
    (hcursor : cursor ≤ head) (h : FollowsBy nextRevision revision' head state.resizeRevision cursor resizes) :
    ∃ state' rest, applyChunks chunks cursor resizes state = some (head,rest,state') ∧
      FollowsBy nextRevision revision' head state'.resizeRevision head rest ∧
      rendered bytes head head rest state' = rendered bytes head cursor resizes state := by
  induction chunks generalizing position cursor resizes state with
  | nil =>
    have hend : cursor = head := by
      have hnil : position = head := hchunks
      omega
    subst hend
    exact ⟨state,resizes,rfl,h,rfl⟩
  | cons chunk chunks ih =>
    obtain ⟨hstart,hle,hhead,hdata,hmore⟩ := hchunks
    rw [applyChunks]
    by_cases hpast : chunk.endByte ≤ cursor
    · rw [if_pos hpast]
      exact ih hmore hpast hcursor h
    · rw [← hstart] at hdata
      obtain ⟨next,left,hchunk,hleft,hsame⟩ :=
        applyChunk_rendered hvt (by omega) (by omega) hhead hdata h
      obtain ⟨state',rest,hrest,hfollows,hrendered⟩ := ih hmore le_rfl hhead hleft
      refine ⟨state',rest,?_,hfollows,hrendered.trans hsame⟩
      rw [if_neg hpast,if_neg (by omega),hchunk]
      exact hrest

theorem applyTail_rendered (hvt : vt.Restores)
    (h : FollowsBy nextRevision revision' head state.resizeRevision head resizes) :
    applyTail head resizes state = some (rendered bytes head head resizes state) := by
  induction resizes generalizing state with
  | nil => simp only [applyTail,rendered,slice_self,hvt.process_nil]
  | cons resize resizes ih =>
    obtain ⟨hnumber,hafter,hsize,htail⟩ := h
    have hat : resize.throughByte = head := le_antisymm htail.position_le hafter
    have hsized : state.applyResize resize =
        some ⟨vt.setSize state.parser resize.size.rows resize.size.cols,resize.resizeRevision⟩ := by
      apply if_neg
      simp [hnumber,hsize]
    have hrendered : rendered bytes head head (resize::resizes) state =
        rendered bytes head head resizes
          ⟨vt.setSize state.parser resize.size.rows resize.size.cols,resize.resizeRevision⟩ := by
      rw [← hat]
      exact rendered_resize hvt resize
    rw [hat] at htail
    rw [applyTail,if_neg (by simp [hat]),hsized,hrendered]
    exact ih htail

end Replayed

namespace Derivation

variable {id : RunId} {live : Derivation vt} {saved : StoredCheckpoint} {fenced : vt.Parser}
  {seed : BasicRestoreGeometryCheckpoint}

/-- The two parts of the saved bytes give back the parser at the fence. -/
theorem Derived.restored (hvt : vt.Restores) (h : Derived id live saved fenced seed) :
    saved.restored = some fenced := by
  have htake : saved.restore.take saved.checkpoint.resizeAfterRestoreBytes =
      seed.restore.restoreBytes := by
    rw [h.restore,h.checkpoint]
    exact List.take_left
  have hdrop : saved.restore.drop saved.checkpoint.resizeAfterRestoreBytes = seed.finalBytes := by
    rw [h.restore,h.checkpoint]
    exact List.drop_left
  have hexact := hvt.seed_exact fenced seed h.seeded h.size h.limit
  have hground := hvt.seed_ground fenced seed h.seeded h.size h.limit
  have hfenced := hvt.ground fenced seed h.seeded
  unfold StoredCheckpoint.restored
  dsimp only at hexact ⊢
  rw [htake,hdrop,h.checkpoint]
  simp only [StoredCheckpoint.ofSeed,hground,Bool.true_eq_false,if_false]
  have hfinal : ∀ parser, parser = fenced →
      (if vt.isGround parser = false then none else some parser) = some fenced := by
    rintro parser rfl
    rw [hfenced]
    rfl
  exact hfinal _ hexact

section

variable (hvt : vt.Restores) (h : Derived id live saved fenced seed) {replay : OutputReplay}
  (hfirst : replay.firstAvailableByte ≤ saved.checkpoint.throughByte)
  (hlatest : replay.latestOutputBytes = live.output.length)
include hvt h hfirst hlatest

theorem Derived.not_refused :
    saved.refused id replay = false := by
  have hsource : saved.checkpoint.size.isZero = false := by
    rw [h.checkpoint]
    exact (congrArg TerminalSize.isZero (hvt.source fenced seed h.seeded)).trans h.size
  have hrestore : saved.checkpoint.restoreSize.isZero = false := by
    rw [h.checkpoint]
    exact hvt.restoreSize fenced seed h.seeded h.size
  have hrun : saved.checkpoint.runId = id := by rw [h.checkpoint]; rfl
  have hlength : saved.checkpoint.restoreBytes = saved.restore.length := by
    rw [h.checkpoint,h.restore]
    rfl
  have hsplit : saved.checkpoint.resizeAfterRestoreBytes ≤ saved.checkpoint.restoreBytes := by
    rw [h.checkpoint]
    simp only [StoredCheckpoint.ofSeed,List.length_append]
    exact Nat.le_add_right _ _
  have hsmall : saved.restore.length ≤ maxRestoreBytes := by
    rw [h.restore,List.length_append]
    exact h.small
  have hthrough := h.tail.position_le
  have hbounded := h.bounded
  simp only [StoredCheckpoint.refused,hsource,hrestore,hrun,Bool.or_eq_false_iff,
    decide_eq_false_iff_not,ne_eq,not_not,true_and]
  omega

/-- A stored checkpoint and a replay of what followed give back the live model. -/
theorem Derived.recover_eq {position : ℕ} (hposition : position ≤ saved.checkpoint.throughByte)
    (hchunks : Carries live.bytes live.output.length position replay.chunks) :
    TerminalModel.recover id saved replay =
      some ⟨live.model.parser,some saved,live.model.resizeRevision,true⟩ := by
  have hfenced : FollowsBy nextRevision live.model.resizeRevision live.output.length
      (⟨fenced,saved.checkpoint.resizeRevision⟩ : Replayed vt).resizeRevision
      saved.checkpoint.throughByte saved.resizes := h.tail
  obtain ⟨state,rest,happly,hfollows,hrendered⟩ :=
    Replayed.applyChunks_rendered hvt hchunks hposition h.tail.position_le hfenced
  have htail : state.applyTail live.output.length rest =
      some (rendered live.bytes live.output.length live.output.length rest state) :=
    Replayed.applyTail_rendered hvt hfollows
  rw [hrendered,h.exact] at htail
  unfold TerminalModel.recover
  rw [h.not_refused hvt hfirst hlatest,if_neg Bool.false_ne_true,h.restored hvt]
  simp only [Option.bind_eq_bind,Option.bind_some,happly,hlatest,ne_eq,not_true_eq_false,if_false,
    htail]
  rfl

end

theorem valid_step (hvalid : live.model.geometryValid = true) {call : TerminalCall}
    (hcall : ∀ size, call ≠ .resize size) : (live.step id call).model.geometryValid = true := by
  have hcut : ∀ throughByte, (live.model.cut id throughByte).2.geometryValid = true := by
    intro throughByte
    unfold TerminalModel.cut
    split
    · exact hvalid
    · split
      · exact hvalid
      · rfl
  cases call with
  | process data => exact hvalid
  | resize size => exact absurd rfl (hcall size)
  | cut => exact hcut _
  | retentionCut first =>
    simp only [step,TerminalModel.retentionCut]
    split
    · exact hcut _
    · exact hvalid

theorem kept_run (hvt : vt.Restores) {calls : List TerminalCall}
    (hcalls : ∀ call ∈ calls, call.Sized) (h : live.Kept id) :
    Kept id (run (step id) live calls) := by
  induction calls generalizing live with
  | nil => exact h
  | cons call calls ih =>
    exact ih (fun later hlater => hcalls later (List.mem_cons_of_mem _ hlater))
      (h.step hvt call (hcalls call List.mem_cons_self))

theorem derived_run (hvt : vt.Restores) {calls : List TerminalCall}
    (hcalls : ∀ call ∈ calls, ∀ size, call ≠ .resize size)
    (h : Derived id live saved fenced seed) (hvalid : live.model.geometryValid = true) :
    Derived id (run (step id) live calls) saved fenced seed ∧
      (run (step id) live calls).model.geometryValid = true := by
  induction calls generalizing live with
  | nil => exact ⟨h,hvalid⟩
  | cons call calls ih =>
    have hcall := hcalls call List.mem_cons_self
    exact ih (fun later hlater => hcalls later (List.mem_cons_of_mem _ hlater))
      (h.step hvt call hcall) (valid_step hvalid hcall)

end Derivation

namespace Replayed

variable {state : Replayed vt} {chunk : OutputChunk} {resizes : List TerminalResize}
  {cursor revision' : ℕ}

theorem exists_applyResize {resize : TerminalResize}
    (hnumber : resize.resizeRevision = nextRevision state.resizeRevision)
    (hsize : resize.size.isZero = false) :
    ∃ state', state.applyResize resize = some state' ∧
      state'.resizeRevision = resize.resizeRevision := by
  refine ⟨⟨vt.setSize state.parser resize.size.rows resize.size.cols,resize.resizeRevision⟩,
    if_neg ?_,rfl⟩
  simp [hnumber,hsize]

theorem exists_processRange (hdata : chunk.data.length = chunk.endByte-chunk.startByte) {last : ℕ}
    (hstart : chunk.startByte ≤ cursor) (hcursor : cursor ≤ last) (hlast : last ≤ chunk.endByte) :
    ∃ state', state.processRange chunk cursor last = some state' ∧
      state'.resizeRevision = state.resizeRevision := by
  unfold processRange
  rw [Output.slicedRange_of_le (by omega) (by omega)]
  exact ⟨_,rfl,rfl⟩

/-- A chunk with all its bytes is replayed, with the resizes in it. -/
theorem exists_applyChunk (hdata : chunk.data.length = chunk.endByte-chunk.startByte)
    (hstart : chunk.startByte ≤ cursor) (hcursor : cursor < chunk.endByte)
    (h : FollowsBy nextRevision revision' chunk.endByte state.resizeRevision cursor resizes) :
    ∃ state' rest, applyChunk chunk resizes cursor state = some (state',rest) ∧
      FollowsBy nextRevision revision' chunk.endByte state'.resizeRevision chunk.endByte rest := by
  induction resizes generalizing cursor state with
  | nil =>
    have hfed : ∃ fed, state.processRange chunk cursor chunk.endByte = some fed ∧
        fed.resizeRevision = state.resizeRevision :=
      exists_processRange hdata hstart hcursor.le le_rfl
    obtain ⟨state',hfed,hsame⟩ := hfed
    refine ⟨state',[],?_,hsame.trans h.1,le_rfl⟩
    rw [applyChunk,hfed]
    rfl
  | cons resize resizes ih =>
    obtain ⟨hnumber,hafter,hsize,htail⟩ := h
    rw [applyChunk,if_neg (Nat.not_lt.mpr hafter)]
    by_cases hinside : resize.throughByte < chunk.endByte
    · have hfed : ∃ fed, state.advance chunk cursor resize.throughByte = some fed ∧
          fed.resizeRevision = state.resizeRevision := by
        unfold advance
        split
        · exact ⟨state,rfl,rfl⟩
        · exact exists_processRange hdata hstart hafter hinside.le
      obtain ⟨fed,hfed,hsame⟩ := hfed
      obtain ⟨sized,hsized,hnow⟩ := exists_applyResize (hsame.symm ▸ hnumber) hsize
      rw [← hnow] at htail
      obtain ⟨state',rest,hrest,hfollows⟩ := ih (hstart.trans hafter) hinside htail
      refine ⟨state',rest,?_,hfollows⟩
      rw [if_pos hinside,hfed]
      simp only [Option.bind_eq_bind,Option.bind_some,hsized]
      exact hrest
    · have hfed : ∃ fed, state.processRange chunk cursor chunk.endByte = some fed ∧
          fed.resizeRevision = state.resizeRevision :=
        exists_processRange hdata hstart hcursor.le le_rfl
      obtain ⟨state',hfed,hsame⟩ := hfed
      refine ⟨state',resize::resizes,?_,hsame.symm ▸ hnumber,not_lt.mp hinside,hsize,htail⟩
      rw [if_neg hinside,hfed]
      rfl

theorem exists_applyTail
    (h : FollowsBy nextRevision revision' cursor state.resizeRevision cursor resizes) :
    ∃ state', applyTail cursor resizes state = some state' := by
  induction resizes generalizing state with
  | nil => exact ⟨state,rfl⟩
  | cons resize resizes ih =>
    obtain ⟨hnumber,hafter,hsize,htail⟩ := h
    have hat : resize.throughByte = cursor := le_antisymm htail.position_le hafter
    obtain ⟨sized,hsized,hnow⟩ := exists_applyResize hnumber hsize
    rw [hat,← hnow] at htail
    obtain ⟨state',hrest⟩ := ih htail
    refine ⟨state',?_⟩
    rw [applyTail,if_neg (not_not.mpr hat),hsized]
    exact hrest

end Replayed

/-- A replay of zeros from the fence to a position. -/
def zeroReplay (throughByte position : ℕ) : OutputReplay :=
  ⟨if throughByte = position then []
    else [⟨throughByte,position,List.replicate (position-throughByte) 0⟩],throughByte,position,false⟩

/-- A file that is readable on its own is recovered with some replay. -/
theorem TerminalModel.exists_recover {saved : StoredCheckpoint} (h : saved.Readable vt) :
    ∃ id replay, (recover id saved replay : Option (TerminalModel vt)).isSome = true := by
  obtain ⟨parser,hparser⟩ := Option.isSome_iff_exists.mp h.restored
  obtain ⟨revision,position,htail⟩ := h.tail
  have hrefused : saved.refused saved.checkpoint.runId
      (zeroReplay saved.checkpoint.throughByte position) = false :=
    StoredCheckpoint.not_refused.mpr ⟨h.fields,rfl,le_rfl,htail.position_le⟩
  refine ⟨saved.checkpoint.runId,zeroReplay saved.checkpoint.throughByte position,?_⟩
  have hreplayed : ∃ (rest : List TerminalResize) (state last : Replayed vt),
      Replayed.applyChunks (zeroReplay saved.checkpoint.throughByte position).chunks
        saved.checkpoint.throughByte saved.resizes ⟨parser,saved.checkpoint.resizeRevision⟩ =
          some (position,rest,state) ∧ state.applyTail position rest = some last := by
    unfold zeroReplay
    split
    · rename_i hat
      rw [hat] at htail ⊢
      have hended : ∃ last, (⟨parser,saved.checkpoint.resizeRevision⟩ : Replayed vt).applyTail
          position saved.resizes = some last := Replayed.exists_applyTail htail
      obtain ⟨last,hlast⟩ := hended
      exact ⟨saved.resizes,_,last,rfl,hlast⟩
    · rename_i hbefore
      have hlt : saved.checkpoint.throughByte < position := lt_of_le_of_ne htail.position_le hbefore
      have hread : ∃ (state : Replayed vt) (rest : List TerminalResize),
          Replayed.applyChunk ⟨saved.checkpoint.throughByte,position,
            List.replicate (position-saved.checkpoint.throughByte) 0⟩ saved.resizes
            saved.checkpoint.throughByte ⟨parser,saved.checkpoint.resizeRevision⟩ =
              some (state,rest) ∧
          FollowsBy nextRevision revision position state.resizeRevision position rest :=
        Replayed.exists_applyChunk List.length_replicate le_rfl hlt htail
      obtain ⟨state,rest,hchunk,hrest⟩ := hread
      obtain ⟨last,hlast⟩ := Replayed.exists_applyTail hrest
      refine ⟨rest,state,last,?_,hlast⟩
      rw [Replayed.applyChunks,if_neg (Nat.not_le.mpr hlt),if_neg (lt_irrefl _),hchunk]
      rfl
  obtain ⟨rest,state,last,hchunks,hlast⟩ := hreplayed
  unfold recover
  rw [hrefused,if_neg Bool.false_ne_true,hparser]
  have hlatest : (zeroReplay saved.checkpoint.throughByte position).latestOutputBytes = position := rfl
  simp only [Option.bind_eq_bind,Option.bind_some,hchunks,hlast,hlatest,ne_eq,not_true_eq_false,
    if_false]
  rfl

/-- A resize after the largest revision is not in order, whatever its own revision is. -/
theorem not_whole_of_overflow {saved : StoredCheckpoint} {replay : OutputReplay}
    {revision position : ℕ} (htail : FollowsBy nextRevision revision position
      saved.checkpoint.resizeRevision saved.checkpoint.throughByte saved.resizes)
    (hrevision : saved.checkpoint.resizeRevision < 2^64)
    (hbound : 2^64 ≤ saved.checkpoint.resizeRevision+saved.resizes.length) :
    ¬saved.Whole replay := by
  intro hwhole
  obtain ⟨resize,hlast⟩ : ∃ resize, saved.resizes[saved.resizes.length-1]? = some resize :=
    ⟨_,List.getElem?_eq_getElem (by omega)⟩
  have hcounted := hwhole.counted _ resize hlast
  have hraised := htail.revision_lt resize (List.mem_of_getElem? hlast)
  omega

/-- A checkpoint that was stored after the last resize, with a replay of the output since its
fence in any division, gives back the live model, and every recovery ends. A file whose tail is
not whole is refused with every replay exactly if its revisions cannot pass the largest one, or
it is not readable on its own. -/
theorem recovered_is_live (vt : Vt100) :
    (vt.Restores → ∀ (id : RunId) (size : TerminalSize), size.isZero = false →
      ∀ calls later : List TerminalCall, (∀ call ∈ calls, call.Sized) →
        (∀ call ∈ later, ∀ size, call ≠ .resize size) →
        let before : Derivation vt := run (Derivation.step id) (Derivation.start id size) calls
        let live := run (Derivation.step id) before later
        ∀ saved replay position, before.model.stored = some saved →
          replay.firstAvailableByte ≤ saved.checkpoint.throughByte →
          replay.latestOutputBytes = live.output.length →
          position ≤ saved.checkpoint.throughByte →
          Carries live.bytes live.output.length position replay.chunks →
            TerminalModel.recover id saved replay =
                some { live.model with checkpoint := some saved } ∧
              (live.model.checkpoint = some saved →
                TerminalModel.recover id saved replay = some live.model)) ∧
      (∀ (id : RunId) (saved : StoredCheckpoint) (replay : OutputReplay),
        ∃ count, ∀ more, count ≤ more →
          (TerminalModel.recoverWithin more id saved replay :
            Option (Option (TerminalModel vt))) =
              some (TerminalModel.recover id saved replay)) ∧
      ∀ saved : StoredCheckpoint, saved.checkpoint.resizeRevision < 2^64 →
        ((∀ id replay, ¬saved.Whole replay →
            (TerminalModel.recover id saved replay : Option (TerminalModel vt)) = none) ↔
          saved.checkpoint.resizeRevision+saved.resizes.length < 2^64 ∨ ¬saved.Readable vt) := by
  refine ⟨?_,?_,?_⟩
  · intro hvt id size hsize calls later hcalls hlater before live saved replay position hstored
      hfirst hlatest hposition hchunks
    have hkept := Derivation.kept_run hvt hcalls (Derivation.kept_start hvt id hsize)
    obtain ⟨fenced,seed,hderived⟩ := hkept.stored saved hstored
    obtain ⟨hnow,hvalid⟩ := Derivation.derived_run hvt hlater hderived
      (Derivation.stored_eq_some.mp hstored).1
    have hrecover := hnow.recover_eq hvt hfirst hlatest hposition hchunks
    have hwhole : TerminalModel.recover id saved replay =
        some { live.model with checkpoint := some saved } := by
      rw [hrecover,← hvalid]
    refine ⟨hwhole,?_⟩
    intro hcheckpoint
    rw [hwhole,← hcheckpoint]
  · intro id saved replay
    obtain ⟨count,hcount⟩ := exists_endByte_le replay.chunks
    exact ⟨count,fun more hmore => TerminalModel.recoverWithin_eq id saved replay
      fun chunk hchunk => (hcount chunk hchunk).trans hmore⟩
  · intro saved hrevision
    constructor
    · intro hrefuses
      by_contra hneither
      rw [not_or,not_lt,not_not] at hneither
      obtain ⟨hbound,hreadable⟩ := hneither
      obtain ⟨id,replay,hrecovered⟩ := TerminalModel.exists_recover hreadable
      obtain ⟨_,_,htail⟩ := hreadable.tail
      rw [hrefuses id replay (not_whole_of_overflow htail hrevision hbound)] at hrecovered
      cases hrecovered
    · intro hcondition id replay hbroken
      rw [Option.eq_none_iff_forall_ne_some]
      intro model hmodel
      rcases hcondition with hbound | hunreadable
      · exact hbroken (TerminalModel.whole_of_recover hmodel hbound)
      · exact hunreadable (TerminalModel.readable_of_recover hmodel)

/-- A parser that keeps the text it was fed. -/
def textParser : Vt100 where
  Parser := TerminalSize × ℕ × List Byte
  new := fun rows cols limit => (⟨rows,cols⟩,limit,[])
  process := fun parser data => (parser.1,parser.2.1,parser.2.2 ++ data)
  setSize := fun parser rows cols => (⟨rows,cols⟩,parser.2)
  setScrollbackLimit := fun parser limit => (parser.1,limit,parser.2.2)
  scrollbackLimit := fun parser => parser.2.1
  size := fun parser => parser.1
  isGround := fun _ => true
  basicRestoreGeometryCheckpoint := fun parser =>
    some ⟨⟨parser.1.rows,parser.1.cols,parser.2.2⟩,[],none,parser.1.rows,parser.1.cols⟩

theorem textParser_restores : textParser.Restores where
  process_nil := by
    rintro ⟨size,limit,text⟩
    simp [textParser]
  process_append := by
    intro parser xs ys
    simp [textParser]
  size_new := fun _ _ _ => rfl
  size_process := fun _ _ => rfl
  size_setSize := fun _ _ _ => rfl
  limit_new := fun _ _ _ => rfl
  limit_process := fun _ _ => rfl
  limit_setSize := fun _ _ _ => rfl
  source := by
    intro parser seed hseed
    cases Option.some.inj hseed
    rfl
  restoreSize := by
    intro parser seed hseed hsize
    cases Option.some.inj hseed
    exact hsize
  ground := fun _ _ _ => rfl
  seed_ground := fun _ _ _ _ _ => rfl
  seed_exact := by
    intro parser seed hseed hsize hlimit
    cases Option.some.inj hseed
    obtain ⟨size,limit,text⟩ := parser
    have hrows : limit = historyRows := hlimit
    simp [textParser,hrows]

/-- A byte before the fence, one after it, two resizes at one position, and a last byte. -/
def resizedHistory : List TerminalCall :=
  [.process [104],.cut,.process [105],.resize ⟨30,100⟩,.resize ⟨31,100⟩]

def resizedCheckpoint : StoredCheckpoint where
  checkpoint := ⟨⟨"run"⟩,1,0,⟨24,80⟩,⟨24,80⟩,none,1,1⟩
  restore := [104]
  resizes := [⟨2,1,⟨30,100⟩⟩,⟨2,2,⟨31,100⟩⟩]

def resizedReplay : OutputReplay := ⟨[⟨0,2,[104,105]⟩,⟨2,3,[33]⟩],0,3,false⟩

theorem recovered_is_live_resized :
    TerminalModel.recover ⟨"run"⟩ resizedCheckpoint resizedReplay =
      some (run (Derivation.step ⟨"run"⟩)
        (Derivation.start ⟨"run"⟩ ⟨24,80⟩ : Derivation textParser)
        (resizedHistory ++ [.process [33]])).model :=
  (((recovered_is_live textParser).1 textParser_restores ⟨"run"⟩ ⟨24,80⟩ (by decide)
    resizedHistory [.process [33]] (by decide) (by simp) resizedCheckpoint resizedReplay 0 rfl
    (by decide) rfl (by decide) (by decide)).2 rfl)

/-- A file at the largest revision, with one resize back to revision zero. -/
def overflowingCheckpoint : StoredCheckpoint where
  checkpoint := ⟨⟨"run"⟩,0,2^64-1,⟨24,80⟩,⟨24,80⟩,none,0,0⟩
  restore := []
  resizes := [⟨0,0,⟨30,100⟩⟩]

/-- Recovery accepts it, although its resize is out of order. -/
theorem overflowing_checkpoint_recovered :
    ¬∀ (id : RunId) (saved : StoredCheckpoint) (replay : OutputReplay), ¬saved.Whole replay →
      (TerminalModel.recover id saved replay : Option (TerminalModel textParser)) = none := by
  intro hrefuses
  have hbroken : ¬overflowingCheckpoint.Whole ⟨[],0,0,false⟩ := fun hwhole =>
    absurd (hwhole.counted 0 _ rfl) (by decide)
  have hrecovered : (TerminalModel.recover ⟨"run"⟩ overflowingCheckpoint ⟨[],0,0,false⟩ :
      Option (TerminalModel textParser)).isSome = true := by decide
  rw [hrefuses ⟨"run"⟩ overflowingCheckpoint ⟨[],0,0,false⟩ hbroken] at hrecovered
  cases hrecovered

end Terminal
end Ctxmux
