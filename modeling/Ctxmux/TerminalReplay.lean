import Ctxmux.AttachedHeader

/-!
# Checkpoints and the resizes after them

The resizes of a checkpoint continue its revision one by one, in the order of the output.
Every operation on the model keeps that, and a recovered model has the revision and the
size at which its checkpoint ends.
-/

namespace Ctxmux
namespace Terminal

open Durable (Byte RunId OutputChunk OutputReplay)

variable {vt : Vt100} {saved : StoredCheckpoint}

/-- The resizes lead from one revision and position to another; `next` is how a revision is
raised. -/
def FollowsBy (next : ℕ → ℕ) (revision' position' : ℕ) :
    (revision position : ℕ) → List TerminalResize → Prop
  | revision, position, [] => revision = revision' ∧ position ≤ position'
  | revision, position, resize::resizes =>
    resize.resizeRevision = next revision ∧ position ≤ resize.throughByte ∧
      resize.size.isZero = false ∧
        FollowsBy next revision' position' resize.resizeRevision resize.throughByte resizes

/-- The revisions of the resizes count up. -/
abbrev Follows : ℕ → ℕ → ℕ → ℕ → List TerminalResize → Prop := FollowsBy Nat.succ

/-- The size after the resizes. -/
def lastSize (size : TerminalSize) (resizes : List TerminalResize) : TerminalSize :=
  resizes.foldl (fun _ resize => resize.size) size

theorem lastSize_append (size : TerminalSize) (xs ys : List TerminalResize) :
    lastSize size (xs ++ ys) = lastSize (lastSize size xs) ys := List.foldl_append

theorem nextRevision_lt (revision : ℕ) : nextRevision revision < 2^64 :=
  Nat.mod_lt _ (by decide)

theorem nextRevision_eq {revision : ℕ} (h : revision+1 < 2^64) :
    nextRevision revision = revision+1 := Nat.mod_eq_of_lt h

section Follows

variable {next : ℕ → ℕ} {revision position revision' position' : ℕ} {xs : List TerminalResize}

theorem FollowsBy.weaken {earlier : ℕ} (h : FollowsBy next revision' position' revision position xs)
    (hle : earlier ≤ position) : FollowsBy next revision' position' revision earlier xs := by
  cases xs with
  | nil => exact ⟨h.1,hle.trans h.2⟩
  | cons resize resizes => exact ⟨h.1,hle.trans h.2.1,h.2.2⟩

theorem FollowsBy.append {last end' : ℕ} {ys : List TerminalResize}
    (hxs : FollowsBy next revision' position' revision position xs)
    (hys : FollowsBy next last end' revision' position' ys) :
    FollowsBy next last end' revision position (xs ++ ys) := by
  induction xs generalizing revision position with
  | nil =>
    obtain ⟨rfl,hle⟩ := hxs
    exact hys.weaken hle
  | cons resize resizes ih =>
    obtain ⟨hrevision,hle,hsize,hrest⟩ := hxs
    exact ⟨hrevision,hle,hsize,ih hrest⟩

theorem FollowsBy.later {end' : ℕ} (h : FollowsBy next revision' position' revision position xs)
    (hle : position' ≤ end') : FollowsBy next revision' end' revision position xs := by
  have hend : FollowsBy next revision' end' revision' position' [] := ⟨rfl,hle⟩
  have happend := h.append hend
  rwa [List.append_nil] at happend

theorem FollowsBy.revision_eq (h : Follows revision' position' revision position xs) :
    revision' = revision+xs.length := by
  induction xs generalizing revision position with
  | nil => exact h.1.symm
  | cons resize resizes ih =>
    have hrest := ih h.2.2.2
    have hrevision := h.1
    simp only [List.length_cons]
    omega

theorem FollowsBy.position_le (h : FollowsBy next revision' position' revision position xs) :
    position ≤ position' := by
  induction xs generalizing revision position with
  | nil => exact h.2
  | cons resize resizes ih => exact h.2.1.trans (ih h.2.2.2)

theorem FollowsBy.concat (h : FollowsBy next revision' position' revision position xs)
    {size : TerminalSize} (hsize : size.isZero = false) :
    FollowsBy next (next revision') position' revision position
      (xs ++ [⟨position',next revision',size⟩]) :=
  h.append ⟨rfl,le_rfl,hsize,rfl,le_rfl⟩

/-- Below their bound, revisions that are raised in `u64` count up. -/
theorem FollowsBy.counts (h : FollowsBy nextRevision revision' position' revision position xs)
    (hbound : revision+xs.length < 2^64) : Follows revision' position' revision position xs := by
  induction xs generalizing revision position with
  | nil => exact h
  | cons resize resizes ih =>
    obtain ⟨hrevision,hle,hsize,hrest⟩ := h
    rw [List.length_cons] at hbound
    rw [nextRevision_eq (by omega)] at hrevision
    exact ⟨hrevision,hle,hsize,ih hrest (by omega)⟩

end Follows

/-- The checkpoint that a model keeps or a file holds. -/
structure StoredCheckpoint.Sound (id : RunId) (latest : ℕ) (saved : StoredCheckpoint) : Prop where
  run : saved.checkpoint.runId = id
  tail : Follows (saved.checkpoint.resizeRevision+saved.resizes.length) latest
    saved.checkpoint.resizeRevision saved.checkpoint.throughByte saved.resizes
  restoreBytes : saved.checkpoint.restoreBytes = saved.restore.length
  split : saved.checkpoint.resizeAfterRestoreBytes ≤ saved.checkpoint.restoreBytes
  nonempty : saved.restore ≠ []
  bounded : saved.restore.length ≤ maxRestoreBytes
  size : saved.checkpoint.size.isZero = false
  restoreSize : saved.checkpoint.restoreSize.isZero = false
  history : ∀ rows, saved.checkpoint.restoreScrollbackRows = some rows → rows ≤ historyRows

theorem StoredCheckpoint.Sound.later {id : RunId} {latest latest' : ℕ} (h : saved.Sound id latest)
    (hle : latest ≤ latest') : saved.Sound id latest' :=
  { h with tail := h.tail.later hle }

/-- The checkpoint of a model is sound, and a valid one ends at the revision and the size
of the model. Only a full tail is not valid. -/
structure TerminalModel.Sound (id : RunId) (latest : ℕ) (model : TerminalModel vt) : Prop where
  limit : vt.scrollbackLimit model.parser = historyRows
  bounded : model.resizeRevision < 2^64
  saved : ∀ saved, model.checkpoint = some saved → saved.Sound id latest
  valid : model.geometryValid = true → ∀ saved, model.checkpoint = some saved →
    saved.checkpoint.resizeRevision+saved.resizes.length = model.resizeRevision ∧
      lastSize saved.checkpoint.size saved.resizes = model.size
  full : model.geometryValid = false → ∀ saved, model.checkpoint = some saved →
    saved.resizes.length = maxResizeTail

namespace TerminalModel

variable {id : RunId} {latest : ℕ} {model : TerminalModel vt}

theorem Sound.later {latest' : ℕ} (h : model.Sound id latest) (hle : latest ≤ latest') :
    model.Sound id latest' :=
  { h with saved := fun saved hsaved => (h.saved saved hsaved).later hle }

theorem cut_fields (model : TerminalModel vt) (id : RunId) (throughByte : ℕ) :
    (model.cut id throughByte).2.parser = model.parser ∧
      (model.cut id throughByte).2.resizeRevision = model.resizeRevision := by
  unfold cut
  cases vt.basicRestoreGeometryCheckpoint model.parser with
  | none => exact ⟨rfl,rfl⟩
  | some seed =>
    simp only
    split <;> exact ⟨rfl,rfl⟩

theorem sound_ofSeed (hvt : vt.Lawful) (hlimit : vt.scrollbackLimit model.parser = historyRows)
    {seed : BasicRestoreGeometryCheckpoint}
    (hseed : vt.basicRestoreGeometryCheckpoint model.parser = some seed)
    (hsmall : ¬maxRestoreBytes < seed.restore.restoreBytes.length+seed.finalBytes.length)
    (revision : ℕ) : (StoredCheckpoint.ofSeed id latest revision seed).Sound id latest where
  run := rfl
  tail := ⟨rfl,le_rfl⟩
  restoreBytes := rfl
  split := by
    simp only [StoredCheckpoint.ofSeed,List.length_append]
    omega
  nonempty := hvt.nonempty model.parser seed hseed
  bounded := by
    simp only [StoredCheckpoint.ofSeed,List.length_append]
    omega
  size := (hvt.nonzero model.parser seed hseed).1
  restoreSize := (hvt.nonzero model.parser seed hseed).2
  history := fun rows hrows => hlimit ▸ hvt.history model.parser seed rows hseed hrows

theorem Sound.cut (hvt : vt.Lawful) (h : model.Sound id latest) :
    (model.cut id latest).2.Sound id latest := by
  unfold TerminalModel.cut
  cases hseed : vt.basicRestoreGeometryCheckpoint model.parser with
  | none => exact h
  | some seed =>
    simp only
    split
    · exact h
    · rename_i hsmall
      refine ⟨h.limit,h.bounded,?_,?_,nofun⟩
      · intro saved hsaved
        cases Option.some.inj hsaved
        exact sound_ofSeed hvt h.limit hseed hsmall model.resizeRevision
      · intro _ saved hsaved
        cases Option.some.inj hsaved
        exact ⟨rfl,hvt.source model.parser seed hseed⟩

theorem sound_new (hvt : vt.Lawful) (id : RunId) (size : TerminalSize) :
    (TerminalModel.new id size : TerminalModel vt).Sound id 0 := by
  apply Sound.cut hvt
  exact ⟨hvt.limit_new _ _ _,by dsimp only; decide,nofun,fun _ => nofun,fun _ => nofun⟩

theorem new_fields (hvt : vt.Lawful) (id : RunId) (size : TerminalSize) :
    (TerminalModel.new id size : TerminalModel vt).resizeRevision = 0 ∧
      (TerminalModel.new id size : TerminalModel vt).size = size := by
  obtain ⟨hparser,hrevision⟩ := cut_fields
    (⟨vt.new size.rows size.cols historyRows,none,0,true⟩ : TerminalModel vt) id 0
  refine ⟨hrevision,?_⟩
  have hsize := congrArg vt.size hparser
  exact hsize.trans (hvt.size_new _ _ _)

theorem Sound.process (hvt : vt.Lawful) (h : model.Sound id latest) (data : List Byte) :
    (model.process data).Sound id latest where
  limit := (hvt.limit_process _ _).trans h.limit
  bounded := h.bounded
  saved := h.saved
  valid := by
    intro hvalid saved hsaved
    obtain ⟨hrevision,hsize⟩ := h.valid hvalid saved hsaved
    exact ⟨hrevision,hsize.trans (hvt.size_process _ _).symm⟩
  full := h.full

theorem resize_fields (hvt : vt.Lawful) (model : TerminalModel vt) (size : TerminalSize)
    (throughByte : ℕ) :
    (model.resize size throughByte).2.resizeRevision = nextRevision model.resizeRevision ∧
      (model.resize size throughByte).2.parser =
        vt.setSize model.parser size.rows size.cols ∧
      (model.resize size throughByte).2.size = size ∧
      (model.resize size throughByte).1.resizeRevision = nextRevision model.resizeRevision := by
  have hparser :
      (model.resize size throughByte).2.resizeRevision = nextRevision model.resizeRevision ∧
      (model.resize size throughByte).2.parser =
        vt.setSize model.parser size.rows size.cols := by
    unfold resize
    cases model.checkpoint with
    | none => exact ⟨rfl,rfl⟩
    | some saved =>
      simp only
      split <;> exact ⟨rfl,rfl⟩
  refine ⟨hparser.1,hparser.2,?_,rfl⟩
  have hsize := congrArg vt.size hparser.2
  exact hsize.trans (hvt.size_setSize _ _ _)

/-- A resize at the head continues the tail of the checkpoint, or invalidates it. -/
theorem Sound.resize (hvt : vt.Lawful) (h : model.Sound id latest) {size : TerminalSize}
    (hsize : size.isZero = false) (hroom : model.resizeRevision+1 < 2^64) :
    (model.resize size latest).2.Sound id latest := by
  obtain ⟨hrevision,hparser,hnew,_⟩ := resize_fields hvt model size latest
  have hnext := nextRevision_eq hroom
  rw [hnext] at hrevision
  have hbounded : (model.resize size latest).2.resizeRevision < 2^64 := hrevision ▸ hroom
  have hlimit : vt.scrollbackLimit (model.resize size latest).2.parser = historyRows := by
    rw [hparser,hvt.limit_setSize]
    exact h.limit
  cases hcheckpoint : model.checkpoint with
  | none =>
    have hnone : (model.resize size latest).2.checkpoint = none := by
      simp only [TerminalModel.resize,hcheckpoint]
    exact ⟨hlimit,hbounded,by simp [hnone],by simp [hnone],by simp [hnone]⟩
  | some old =>
    have hold := h.saved old hcheckpoint
    by_cases hfull : old.resizes.length = maxResizeTail
    · have hsaved : (model.resize size latest).2.checkpoint = some old ∧
          (model.resize size latest).2.geometryValid = false := by
        simp only [TerminalModel.resize,hcheckpoint,if_pos hfull]
        exact ⟨trivial,trivial⟩
      refine ⟨hlimit,hbounded,?_,?_,?_⟩
      · intro saved heq
        cases Option.some.inj (hsaved.1.symm.trans heq)
        exact hold
      · simp [hsaved.2]
      · intro _ saved heq
        cases Option.some.inj (hsaved.1.symm.trans heq)
        exact hfull
    · have hvalid : model.geometryValid = true := by
        by_contra hinvalid
        exact hfull (h.full (by simpa using hinvalid) old hcheckpoint)
      obtain ⟨hends,_⟩ := h.valid hvalid old hcheckpoint
      have hsaved : (model.resize size latest).2.checkpoint = some { old with
            resizes := old.resizes ++ [⟨latest,model.resizeRevision+1,size⟩] } ∧
          (model.resize size latest).2.geometryValid = true := by
        simp only [TerminalModel.resize,hcheckpoint,if_neg hfull,hnext]
        exact ⟨trivial,hvalid⟩
      refine ⟨hlimit,hbounded,?_,?_,?_⟩
      · intro saved heq
        cases Option.some.inj (hsaved.1.symm.trans heq)
        refine { hold with tail := ?_ }
        have htail := hold.tail.concat hsize
        simp only [List.length_append,List.length_singleton]
        rw [hends] at htail
        rw [← Nat.add_assoc,hends]
        exact htail
      · intro _ saved heq
        cases Option.some.inj (hsaved.1.symm.trans heq)
        rw [hrevision,hnew,lastSize_append]
        simp only [List.length_append,List.length_singleton]
        exact ⟨by omega,rfl⟩
      · simp [hsaved.2]

theorem Sound.retentionCut (hvt : vt.Lawful) (h : model.Sound id latest) (first : ℕ) :
    (model.retentionCut id first latest).2.Sound id latest := by
  unfold TerminalModel.retentionCut
  split
  · exact h.cut hvt
  · exact h

theorem retentionCut_fields (model : TerminalModel vt) (id : RunId) (first latest : ℕ) :
    (model.retentionCut id first latest).2.parser = model.parser ∧
      (model.retentionCut id first latest).2.resizeRevision = model.resizeRevision := by
  unfold retentionCut
  split
  · exact model.cut_fields id latest
  · exact ⟨rfl,rfl⟩

/-- A continuation that is offered is the sound checkpoint of the model. -/
theorem Sound.continuation (hvt : vt.Lawful) (h : model.Sound id latest) {first : ℕ}
    {checkpoint : TerminalCheckpointHeader} {resizes : List TerminalResize} {restore : List Byte}
    (hoffered : (model.continuation id first latest).1 = (.basicVt checkpoint resizes,restore)) :
    StoredCheckpoint.Sound id latest ⟨checkpoint,restore,resizes⟩ ∧ first ≤ checkpoint.throughByte ∧
      checkpoint.resizeRevision+resizes.length = model.resizeRevision := by
  have hcut := h.cut hvt
  have hrevision := (model.cut_fields id latest).2
  simp only [TerminalModel.continuation] at hoffered
  cases hsaved : (model.cut id latest).2.checkpoint with
  | none =>
    rw [hsaved] at hoffered
    cases hoffered
  | some saved =>
    rw [hsaved] at hoffered
    simp only at hoffered
    split at hoffered
    · cases hoffered
    · rename_i hvalid
      split at hoffered
      · cases hoffered
      · rename_i hfirst
        cases hoffered
        obtain ⟨hends,_⟩ := hcut.valid (by simpa using hvalid) saved hsaved
        exact ⟨hcut.saved saved hsaved,by omega,hends.trans hrevision⟩

end TerminalModel

namespace Replayed

/-- One part of the replay of a saved checkpoint. -/
structure Reaches (resizes : List TerminalResize) (position position' : ℕ)
    (state state' : Replayed vt) : Prop where
  tail : FollowsBy nextRevision state'.resizeRevision position' state.resizeRevision position resizes
  size : vt.size state'.parser = lastSize (vt.size state.parser) resizes
  limit : vt.scrollbackLimit state'.parser = vt.scrollbackLimit state.parser

variable {state state' state'' : Replayed vt} {xs ys resizes : List TerminalResize}
  {a b c cursor : ℕ}

theorem Reaches.trans (hxs : Reaches xs a b state state') (hys : Reaches ys b c state' state'') :
    Reaches (xs ++ ys) a c state state'' where
  tail := hxs.tail.append hys.tail
  size := by rw [lastSize_append,← hxs.size,hys.size]
  limit := hys.limit.trans hxs.limit

theorem Reaches.stay (hle : a ≤ b) : Reaches [] a b state state := ⟨⟨rfl,hle⟩,rfl,rfl⟩

theorem reaches_of_processRange (hvt : vt.Lawful) {chunk : OutputChunk} {last : ℕ}
    (h : state.processRange chunk cursor last = some state') (hle : cursor ≤ last) :
    Reaches [] cursor last state state' := by
  simp only [processRange,Option.bind_eq_bind,Option.bind_eq_some_iff] at h
  obtain ⟨data,_,h⟩ := h
  cases Option.some.inj h
  exact ⟨⟨rfl,hle⟩,hvt.size_process _ _,hvt.limit_process _ _⟩

theorem reaches_of_applyResize (hvt : vt.Lawful) {resize : TerminalResize}
    (h : state.applyResize resize = some state') :
    Reaches [resize] resize.throughByte resize.throughByte state state' := by
  unfold applyResize at h
  split at h
  · cases h
  · rename_i hnext
    cases Option.some.inj h
    simp only [not_or,not_not,Bool.not_eq_true] at hnext
    exact ⟨⟨hnext.1,le_rfl,hnext.2,rfl,le_rfl⟩,hvt.size_setSize _ _ _,hvt.limit_setSize _ _ _⟩

/-- A chunk takes the resizes before its end, and the others are left. -/
theorem reaches_of_applyChunk (hvt : vt.Lawful) {chunk : OutputChunk} {rest : List TerminalResize}
    (hcursor : cursor ≤ chunk.endByte)
    (h : applyChunk chunk resizes cursor state = some (state',rest)) :
    ∃ taken, resizes = taken ++ rest ∧ Reaches taken cursor chunk.endByte state state' := by
  induction resizes generalizing cursor state with
  | nil =>
    simp only [applyChunk,Option.bind_eq_bind,Option.bind_eq_some_iff] at h
    obtain ⟨next,hnext,h⟩ := h
    cases Option.some.inj h
    exact ⟨[],rfl,reaches_of_processRange hvt hnext hcursor⟩
  | cons resize resizes ih =>
    unfold applyChunk at h
    split at h
    · cases h
    · rename_i hbefore
      split at h
      · rename_i hinside
        simp only [Option.bind_eq_bind,Option.bind_eq_some_iff] at h
        obtain ⟨next,hnext,sized,hsized,h⟩ := h
        obtain ⟨taken,rfl,hrest⟩ := ih (le_of_lt hinside) h
        refine ⟨resize::taken,rfl,?_⟩
        have hfirst : Reaches [] cursor resize.throughByte state next := by
          unfold advance at hnext
          split at hnext
          · cases Option.some.inj hnext
            exact .stay (by omega)
          · exact reaches_of_processRange hvt hnext (by omega)
        exact (hfirst.trans (reaches_of_applyResize hvt hsized)).trans hrest
      · simp only [Option.bind_eq_bind,Option.bind_eq_some_iff] at h
        obtain ⟨next,hnext,h⟩ := h
        cases Option.some.inj h
        exact ⟨[],rfl,reaches_of_processRange hvt hnext hcursor⟩

theorem reaches_of_applyChunks (hvt : vt.Lawful) {chunks : List OutputChunk}
    {rest : List TerminalResize} {last : ℕ}
    (h : applyChunks chunks cursor resizes state = some (last,rest,state')) :
    ∃ taken, resizes = taken ++ rest ∧ Reaches taken cursor last state state' := by
  induction chunks generalizing cursor resizes state with
  | nil =>
    cases Option.some.inj h
    exact ⟨[],rfl,.stay le_rfl⟩
  | cons chunk chunks ih =>
    unfold applyChunks at h
    split at h
    · exact ih h
    · rename_i hafter
      split at h
      · cases h
      · simp only [Option.bind_eq_bind,Option.bind_eq_some_iff] at h
        obtain ⟨⟨next,left⟩,hnext,h⟩ := h
        obtain ⟨taken,rfl,hchunk⟩ := reaches_of_applyChunk hvt (by omega) hnext
        obtain ⟨more,rfl,hmore⟩ := ih h
        exact ⟨taken ++ more,(List.append_assoc _ _ _).symm,hchunk.trans hmore⟩

theorem reaches_of_applyTail (hvt : vt.Lawful) (h : applyTail cursor resizes state = some state') :
    Reaches resizes cursor cursor state state' := by
  induction resizes generalizing state with
  | nil =>
    cases Option.some.inj h
    exact .stay le_rfl
  | cons resize resizes ih =>
    unfold applyTail at h
    split at h
    · cases h
    · rename_i hcursor
      simp only [not_not] at hcursor
      simp only [Option.bind_eq_bind,Option.bind_eq_some_iff] at h
      obtain ⟨next,hnext,h⟩ := h
      have hfirst := reaches_of_applyResize hvt hnext
      rw [hcursor] at hfirst
      exact hfirst.trans (ih h)

end Replayed

theorem StoredCheckpoint.restored_fields (hvt : vt.Lawful) {parser : vt.Parser}
    (h : saved.restored = some parser) :
    vt.size parser = saved.checkpoint.size ∧ vt.scrollbackLimit parser = historyRows := by
  unfold StoredCheckpoint.restored at h
  by_cases hsize : saved.checkpoint.restoreSize ≠ saved.checkpoint.size
  · simp only [if_pos hsize] at h
    split at h
    · cases h
    · split at h
      · cases h
      · cases Option.some.inj h
        simp only [hvt.size_process,hvt.size_setSize,hvt.limit_process,hvt.limit_setSize,
          hvt.limit_setScrollbackLimit]
        exact ⟨trivial,trivial⟩
  · simp only [if_neg hsize] at h
    split at h
    · cases h
    · split at h
      · cases h
      · cases Option.some.inj h
        simp only [hvt.size_process,hvt.size_setScrollbackLimit,hvt.size_new,hvt.limit_process,
          hvt.limit_setScrollbackLimit]
        exact ⟨not_not.mp hsize,trivial⟩

/-- A recovered model stands at the end of the saved checkpoint, which its replay reaches. -/
theorem TerminalModel.recover_sound (hvt : vt.Lawful) {id : RunId} {replay : OutputReplay}
    {model : TerminalModel vt} (h : recover id saved replay = some model)
    (hrestore : saved.restore ≠ [])
    (hhistory : ∀ rows, saved.checkpoint.restoreScrollbackRows = some rows → rows ≤ historyRows)
    (hbound : saved.checkpoint.resizeRevision+saved.resizes.length < 2^64) :
    model.Sound id replay.latestOutputBytes ∧
      model.resizeRevision = saved.checkpoint.resizeRevision+saved.resizes.length ∧
      model.size = lastSize saved.checkpoint.size saved.resizes := by
  unfold recover at h
  split at h
  · cases h
  · rename_i haccepted
    simp only [Option.bind_eq_bind,Option.bind_eq_some_iff] at h
    obtain ⟨parser,hparser,⟨cursor,resizes,state⟩,hchunks,h⟩ := h
    split at h
    · cases h
    · rename_i hcursor
      simp only [not_not] at hcursor
      simp only [Option.bind_eq_some_iff] at h
      obtain ⟨last,htail,h⟩ := h
      cases Option.some.inj h
      obtain ⟨taken,hsplit,hreached⟩ := Replayed.reaches_of_applyChunks hvt hchunks
      have hwhole := hreached.trans (Replayed.reaches_of_applyTail hvt htail)
      rw [← hsplit,hcursor] at hwhole
      obtain ⟨hsize,hlimit⟩ := saved.restored_fields hvt hparser
      have hfollows := hwhole.tail.counts hbound
      have hrevision := hfollows.revision_eq
      have hlast : vt.size last.parser = lastSize saved.checkpoint.size saved.resizes := by
        rw [hwhole.size,hsize]
      simp only [StoredCheckpoint.refused,Bool.or_eq_true,decide_eq_true_eq,not_or,
        Bool.not_eq_true] at haccepted
      obtain ⟨⟨⟨⟨⟨⟨⟨⟨hrun,hsz⟩,hrs⟩,hsplitBytes⟩,hbytes⟩,hmax⟩,_⟩,_⟩,_⟩ := haccepted
      refine ⟨⟨hwhole.limit.trans hlimit,hrevision.trans_lt hbound,?_,?_,nofun⟩,hrevision,hlast⟩
      · intro other hother
        cases Option.some.inj hother
        exact {
          run := not_not.mp hrun
          tail := hrevision ▸ hfollows
          restoreBytes := not_not.mp hbytes
          split := by omega
          nonempty := hrestore
          bounded := by omega
          size := hsz
          restoreSize := hrs
          history := hhistory }
      · intro _ other hother
        cases Option.some.inj hother
        exact ⟨hrevision.symm,hlast.symm⟩

end Terminal
end Ctxmux
