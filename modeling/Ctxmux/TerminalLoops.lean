import Ctxmux.TerminalReplay

/-!
# The loops of a recovery

The loop on a chunk of a replay moves its cursor with every iteration, so it ends. What it
computes is the step of the replay on that chunk. A replay that gets to its end was fed
every byte after the fence, and its resizes were in order between the fence and the head.
-/

namespace Ctxmux
namespace Terminal

open Durable (Byte RunId OutputChunk OutputReplay)

variable {vt : Vt100} {saved : StoredCheckpoint} {replay : OutputReplay} {id : RunId}
  {model : TerminalModel vt}

/-- The variables of the loop on a chunk. -/
structure ChunkLoop (vt : Vt100) where
  cursor : ℕ
  resizes : List TerminalResize
  state : Replayed vt

namespace ChunkLoop

variable (chunk : OutputChunk) (loop : ChunkLoop vt)

/-- The inner loop takes the resizes at the cursor. -/
def takeResizes (cursor : ℕ) :
    List TerminalResize → Replayed vt → Option (List TerminalResize × Replayed vt)
  | [], state => some ([],state)
  | resize::resizes, state =>
    if resize.throughByte = cursor then do
      let state ← state.applyResize resize
      takeResizes cursor resizes state
    else some (resize::resizes,state)

/-- Output is fed up to the next resize or to the end of the chunk. -/
def feed : Option (ChunkLoop vt) :=
  let last := match loop.resizes.head? with
    | none => chunk.endByte
    | some resize => min resize.throughByte chunk.endByte
  if loop.resizes.head?.any (·.throughByte < loop.cursor) = true then none
  else do
    let state ← loop.state.processRange chunk loop.cursor last
    some ⟨last,loop.resizes,state⟩

/-- One iteration of the outer loop. -/
def iterate : Option (ChunkLoop vt) := do
  let (resizes,state) ← takeResizes loop.cursor loop.resizes loop.state
  feed chunk ⟨loop.cursor,resizes,state⟩

/-- The outer loop, for at most so many iterations. It is `none` when it has not ended by
then, and otherwise says how it ended. -/
def within : ℕ → ChunkLoop vt → Option (Option (ChunkLoop vt))
  | 0, loop => if loop.cursor < chunk.endByte then none else some (some loop)
  | count+1, loop =>
    if loop.cursor < chunk.endByte then
      match loop.iterate chunk with
      | none => some none
      | some next => within count next
    else some (some loop)

/-- All chunks of a replay, with so many iterations for each. -/
def chunksWithin (count : ℕ) :
    List OutputChunk → ChunkLoop vt → Option (Option (ChunkLoop vt))
  | [], loop => some (some loop)
  | chunk::chunks, loop =>
    if chunk.endByte ≤ loop.cursor then chunksWithin count chunks loop
    else if loop.cursor < chunk.startByte then some none
    else
      match within chunk count loop with
      | none => none
      | some none => some none
      | some (some next) => chunksWithin count chunks next

end ChunkLoop

/-- The recovery with so many iterations for each chunk. -/
def TerminalModel.recoverWithin (count : ℕ) (id : RunId) (saved : StoredCheckpoint)
    (replay : OutputReplay) : Option (Option (TerminalModel vt)) :=
  if saved.refused id replay = true then some none
  else
    match (saved.restored : Option vt.Parser) with
    | none => some none
    | some parser =>
      match ChunkLoop.chunksWithin count replay.chunks
        ⟨saved.checkpoint.throughByte,saved.resizes,⟨parser,saved.checkpoint.resizeRevision⟩⟩ with
      | none => none
      | some none => some none
      | some (some loop) =>
        if loop.cursor ≠ replay.latestOutputBytes then some none
        else
          match Replayed.applyTail loop.cursor loop.resizes loop.state with
          | none => some none
          | some state => some (some ⟨state.parser,some saved,state.resizeRevision,true⟩)

namespace ChunkLoop

open Replayed

variable {chunk : OutputChunk} {loop : ChunkLoop vt}

/-- What the step of the replay does with the rest of the chunk. -/
def remaining (chunk : OutputChunk) (loop : ChunkLoop vt) :
    Option (Replayed vt × List TerminalResize) :=
  if loop.cursor < chunk.endByte then applyChunk chunk loop.resizes loop.cursor loop.state
  else some (loop.state,loop.resizes)

theorem applyChunk_take {cursor : ℕ} (hcursor : cursor < chunk.endByte)
    (resizes : List TerminalResize) (state : Replayed vt) :
    applyChunk chunk resizes cursor state =
      (takeResizes cursor resizes state).bind
        fun taken => applyChunk chunk taken.1 cursor taken.2 := by
  induction resizes generalizing state with
  | nil => rfl
  | cons resize resizes ih =>
    by_cases hat : resize.throughByte = cursor
    · rw [applyChunk,if_neg (by omega),if_pos (by omega),takeResizes,if_pos hat,advance,if_pos hat]
      simp only [Option.bind_eq_bind,Option.bind_some,hat,Option.bind_assoc]
      congr 1
      funext next
      exact ih next
    · rw [takeResizes,if_neg hat]
      rfl

/-- After the inner loop no resize at the cursor is left at the front. -/
theorem takeResizes_front {cursor : ℕ} {resizes left : List TerminalResize}
    {state state' : Replayed vt} (h : takeResizes cursor resizes state = some (left,state')) :
    ∀ resize, left.head? = some resize → resize.throughByte ≠ cursor := by
  induction resizes generalizing state with
  | nil =>
    cases Option.some.inj h
    exact nofun
  | cons resize resizes ih =>
    unfold takeResizes at h
    split at h
    · simp only [Option.bind_eq_bind,Option.bind_eq_some_iff] at h
      obtain ⟨next,_,h⟩ := h
      exact ih h
    · rename_i hat
      cases Option.some.inj h
      intro other hother
      cases Option.some.inj hother
      exact hat

/-- Feeding advances the cursor within the chunk, and the rest of the chunk is the same. -/
theorem feed_spec (hcursor : loop.cursor < chunk.endByte)
    (hfront : ∀ resize, loop.resizes.head? = some resize → resize.throughByte ≠ loop.cursor) :
    applyChunk chunk loop.resizes loop.cursor loop.state =
        (feed chunk loop).bind (remaining chunk) ∧
      ∀ next, feed chunk loop = some next →
        loop.cursor < next.cursor ∧ next.cursor ≤ chunk.endByte := by
  obtain ⟨cursor,resizes,state⟩ := loop
  dsimp only at hcursor hfront ⊢
  cases resizes with
  | nil =>
    simp only [feed,applyChunk,remaining,List.head?_nil,Option.any_none,Bool.false_eq_true,
      if_false,Option.bind_eq_bind,Option.bind_assoc,Option.bind_some,lt_irrefl]
    refine ⟨trivial,?_⟩
    intro next hnext
    obtain ⟨fed,_,hfed⟩ := Option.bind_eq_some_iff.mp hnext
    cases Option.some.inj hfed
    exact ⟨hcursor,le_rfl⟩
  | cons resize resizes =>
    have hat := hfront resize rfl
    by_cases hbefore : resize.throughByte < cursor
    · simp only [feed,applyChunk,List.head?_cons,Option.any_some,decide_eq_true_eq,if_pos hbefore,
        Option.bind_none]
      exact ⟨trivial,fun _ hnext => (by cases hnext)⟩
    · by_cases hinside : resize.throughByte < chunk.endByte
      · have hlast : min resize.throughByte chunk.endByte = resize.throughByte := by omega
        simp only [feed,applyChunk,remaining,List.head?_cons,Option.any_some,decide_eq_true_eq,
          if_neg hbefore,if_pos hinside,hlast,advance,if_neg hat,if_pos,lt_irrefl,if_false,
          Option.bind_eq_bind,Option.bind_assoc,Option.bind_some]
        refine ⟨trivial,?_⟩
        intro next hnext
        obtain ⟨fed,_,hfed⟩ := Option.bind_eq_some_iff.mp hnext
        cases Option.some.inj hfed
        exact ⟨by dsimp only; omega,le_of_lt hinside⟩
      · have hlast : min resize.throughByte chunk.endByte = chunk.endByte := by omega
        simp only [feed,applyChunk,remaining,List.head?_cons,Option.any_some,decide_eq_true_eq,
          if_neg hbefore,if_neg hinside,hlast,lt_irrefl,if_false,Option.bind_eq_bind,
          Option.bind_assoc,Option.bind_some]
        refine ⟨trivial,?_⟩
        intro next hnext
        obtain ⟨fed,_,hfed⟩ := Option.bind_eq_some_iff.mp hnext
        cases Option.some.inj hfed
        exact ⟨hcursor,le_rfl⟩

theorem iterate_spec (hcursor : loop.cursor < chunk.endByte) :
    remaining chunk loop = (loop.iterate chunk).bind (remaining chunk) ∧
      ∀ next, loop.iterate chunk = some next →
        loop.cursor < next.cursor ∧ next.cursor ≤ chunk.endByte := by
  unfold remaining iterate
  rw [if_pos hcursor,applyChunk_take hcursor]
  simp only [Option.bind_eq_bind,Option.bind_assoc]
  constructor
  · cases htake : takeResizes loop.cursor loop.resizes loop.state with
    | none => rfl
    | some taken =>
      have hloop : (⟨loop.cursor,taken.1,taken.2⟩ : ChunkLoop vt).cursor < chunk.endByte := hcursor
      exact (feed_spec hloop (takeResizes_front htake)).1
  · intro next hnext
    obtain ⟨taken,htake,hnext⟩ := Option.bind_eq_some_iff.mp hnext
    have hloop : (⟨loop.cursor,taken.1,taken.2⟩ : ChunkLoop vt).cursor < chunk.endByte := hcursor
    exact (feed_spec hloop (takeResizes_front htake)).2 next hnext

/-- Induction on the iterations: each one takes the cursor further. -/
theorem within_eq {count : ℕ} (hle : loop.cursor ≤ chunk.endByte)
    (hcount : chunk.endByte-loop.cursor ≤ count) :
    within chunk count loop =
      some ((remaining chunk loop).map fun ended => ⟨chunk.endByte,ended.2,ended.1⟩) := by
  induction count generalizing loop with
  | zero =>
    have hend : ¬loop.cursor < chunk.endByte := by omega
    have hcursor : loop.cursor = chunk.endByte := by omega
    rw [within,if_neg hend,remaining,if_neg hend,Option.map_some,← hcursor]
  | succ count ih =>
    by_cases hbefore : loop.cursor < chunk.endByte
    · obtain ⟨hremaining,hnext⟩ := iterate_spec hbefore
      rw [within,if_pos hbefore,hremaining]
      cases hiterate : loop.iterate chunk with
      | none => rfl
      | some next =>
        obtain ⟨hlt,hend⟩ := hnext next hiterate
        exact ih hend (by omega)
    · have hcursor : loop.cursor = chunk.endByte := by omega
      rw [within,if_neg hbefore,remaining,if_neg hbefore,Option.map_some,← hcursor]

theorem chunksWithin_eq {count : ℕ} {chunks : List OutputChunk}
    (hcount : ∀ chunk ∈ chunks, chunk.endByte ≤ count) (cursor : ℕ)
    (resizes : List TerminalResize) (state : Replayed vt) :
    chunksWithin count chunks ⟨cursor,resizes,state⟩ =
      some ((applyChunks chunks cursor resizes state).map
        fun ended => ⟨ended.1,ended.2.1,ended.2.2⟩) := by
  induction chunks generalizing cursor resizes state with
  | nil => rfl
  | cons chunk chunks ih =>
    have hrest := ih fun other hother => hcount other (List.mem_cons_of_mem _ hother)
    have hchunk := hcount chunk List.mem_cons_self
    rw [chunksWithin,applyChunks]
    dsimp only
    split
    · exact hrest cursor resizes state
    · rename_i hafter
      split
      · rfl
      · rw [within_eq (by dsimp only; omega) (by dsimp only; omega),remaining,
          if_pos (by dsimp only; omega)]
        simp only [Option.bind_eq_bind]
        cases applyChunk chunk resizes cursor state with
        | none => rfl
        | some ended => exact hrest chunk.endByte ended.2 ended.1

end ChunkLoop

/-- With enough iterations for its chunks every recovery ends, with what `recover` says. -/
theorem TerminalModel.recoverWithin_eq (id : RunId) (saved : StoredCheckpoint)
    (replay : OutputReplay) {count : ℕ}
    (hcount : ∀ chunk ∈ replay.chunks, chunk.endByte ≤ count) :
    (recoverWithin count id saved replay : Option (Option (TerminalModel vt))) =
      some (recover id saved replay) := by
  unfold recoverWithin recover
  split
  · rfl
  · cases saved.restored with
    | none => rfl
    | some parser =>
      dsimp only
      rw [ChunkLoop.chunksWithin_eq hcount]
      simp only [Option.bind_eq_bind,Option.bind_some]
      cases Replayed.applyChunks replay.chunks saved.checkpoint.throughByte saved.resizes
        ⟨parser,saved.checkpoint.resizeRevision⟩ with
      | none => rfl
      | some ended =>
        obtain ⟨cursor,resizes,state⟩ := ended
        simp only [Option.map_some,Option.bind_some]
        split
        · rfl
        · cases Replayed.applyTail cursor resizes state <;> rfl

theorem exists_endByte_le (chunks : List OutputChunk) :
    ∃ count, ∀ chunk ∈ chunks, chunk.endByte ≤ count := by
  induction chunks with
  | nil => exact ⟨0,by simp⟩
  | cons chunk chunks ih =>
    obtain ⟨count,hcount⟩ := ih
    refine ⟨max chunk.endByte count,?_⟩
    simp only [List.mem_cons,forall_eq_or_imp]
    exact ⟨le_max_left _ _,fun other hother => (hcount other hother).trans (le_max_right _ _)⟩

/-- The chunk has the byte at a position of the output. -/
def Holds (chunk : OutputChunk) (p : ℕ) : Prop :=
  chunk.startByte ≤ p ∧ p < chunk.endByte ∧ p-chunk.startByte < chunk.data.length

namespace Replayed

variable {state state' : Replayed vt} {chunk : OutputChunk} {cursor : ℕ}

/-- Feeding a range leaves the revision, and the chunk has the bytes of the range. -/
theorem fed_of_processRange {last : ℕ} (h : state.processRange chunk cursor last = some state')
    (hcursor : chunk.startByte ≤ cursor) (hlast : last ≤ chunk.endByte) :
    state'.resizeRevision = state.resizeRevision ∧
      ∀ p, cursor ≤ p → p < last → Holds chunk p := by
  simp only [processRange,Option.bind_eq_bind,Option.bind_eq_some_iff] at h
  obtain ⟨data,hdata,h⟩ := h
  cases Option.some.inj h
  refine ⟨rfl,?_⟩
  intro p hp hp'
  unfold Output.slicedRange at hdata
  split at hdata
  · unfold Holds
    omega
  · cases hdata

theorem follows_of_applyResize {resize : TerminalResize}
    (h : state.applyResize resize = some state') :
    resize.resizeRevision = nextRevision state.resizeRevision ∧ resize.size.isZero = false ∧
      state'.resizeRevision = resize.resizeRevision := by
  unfold applyResize at h
  split at h
  · cases h
  · rename_i hnext
    cases Option.some.inj h
    simp only [not_or,not_not,Bool.not_eq_true] at hnext
    exact ⟨hnext.1,hnext.2,rfl⟩

/-- A chunk that was replayed has its bytes, and the resizes taken with it are in order. -/
theorem fed_of_applyChunk {resizes rest : List TerminalResize} (hcursor : cursor < chunk.endByte)
    (hstart : chunk.startByte ≤ cursor)
    (h : applyChunk chunk resizes cursor state = some (state',rest)) :
    (∀ p, cursor ≤ p → p < chunk.endByte → Holds chunk p) ∧ ∃ taken, resizes = taken ++ rest ∧
      FollowsBy nextRevision state'.resizeRevision chunk.endByte state.resizeRevision cursor taken := by
  induction resizes generalizing cursor state with
  | nil =>
    simp only [applyChunk,Option.bind_eq_bind,Option.bind_eq_some_iff] at h
    obtain ⟨next,hnext,h⟩ := h
    cases Option.some.inj h
    obtain ⟨hrevision,hbytes⟩ := fed_of_processRange hnext hstart le_rfl
    exact ⟨hbytes,[],rfl,hrevision.symm,le_of_lt hcursor⟩
  | cons resize resizes ih =>
    unfold applyChunk at h
    split at h
    · cases h
    · rename_i hbefore
      split at h
      · rename_i hinside
        simp only [Option.bind_eq_bind,Option.bind_eq_some_iff] at h
        obtain ⟨next,hnext,sized,hsized,h⟩ := h
        obtain ⟨hnumber,hzero,hnow⟩ := follows_of_applyResize hsized
        obtain ⟨hbytes,taken,rfl,htaken⟩ := ih hinside (by omega) h
        have hfirst : next.resizeRevision = state.resizeRevision ∧
            ∀ p, cursor ≤ p → p < resize.throughByte → Holds chunk p := by
          unfold advance at hnext
          split at hnext
          · cases Option.some.inj hnext
            exact ⟨rfl,fun p hp hp' => by omega⟩
          · exact fed_of_processRange hnext hstart (le_of_lt hinside)
        refine ⟨?_,resize::taken,rfl,hnumber.trans (congrArg nextRevision hfirst.1),by omega,hzero,
          hnow ▸ htaken⟩
        intro p hp hp'
        rcases lt_or_ge p resize.throughByte with hlt | hge
        · exact hfirst.2 p hp hlt
        · exact hbytes p hge hp'
      · simp only [Option.bind_eq_bind,Option.bind_eq_some_iff] at h
        obtain ⟨next,hnext,h⟩ := h
        cases Option.some.inj h
        obtain ⟨hrevision,hbytes⟩ := fed_of_processRange hnext hstart le_rfl
        exact ⟨hbytes,[],rfl,hrevision.symm,le_of_lt hcursor⟩

theorem fed_of_applyChunks {chunks : List OutputChunk} {resizes rest : List TerminalResize}
    {last : ℕ} (h : applyChunks chunks cursor resizes state = some (last,rest,state')) :
    (∀ p, cursor ≤ p → p < last → ∃ chunk ∈ chunks, Holds chunk p) ∧
      ∃ taken, resizes = taken ++ rest ∧
        FollowsBy nextRevision state'.resizeRevision last state.resizeRevision cursor taken := by
  induction chunks generalizing cursor resizes state with
  | nil =>
    cases Option.some.inj h
    exact ⟨fun p hp hp' => by omega,[],rfl,rfl,le_rfl⟩
  | cons chunk chunks ih =>
    unfold applyChunks at h
    split at h
    · obtain ⟨hbytes,htaken⟩ := ih h
      refine ⟨?_,htaken⟩
      intro p hp hp'
      obtain ⟨other,hother,hholds⟩ := hbytes p hp hp'
      exact ⟨other,List.mem_cons_of_mem _ hother,hholds⟩
    · rename_i hafter
      split at h
      · cases h
      · rename_i hstart
        simp only [Option.bind_eq_bind,Option.bind_eq_some_iff] at h
        obtain ⟨⟨next,left⟩,hnext,h⟩ := h
        obtain ⟨hfirst,taken,rfl,htaken⟩ := fed_of_applyChunk (by omega) (by omega) hnext
        obtain ⟨hbytes,more,rfl,hmore⟩ := ih h
        refine ⟨?_,taken ++ more,(List.append_assoc _ _ _).symm,htaken.append hmore⟩
        intro p hp hp'
        rcases lt_or_ge p chunk.endByte with hlt | hge
        · exact ⟨chunk,List.mem_cons_self,hfirst p hp hlt⟩
        · obtain ⟨other,hother,hholds⟩ := hbytes p hge hp'
          exact ⟨other,List.mem_cons_of_mem _ hother,hholds⟩

theorem follows_of_applyTail {resizes : List TerminalResize}
    (h : applyTail cursor resizes state = some state') :
    FollowsBy nextRevision state'.resizeRevision cursor state.resizeRevision cursor resizes := by
  induction resizes generalizing state with
  | nil =>
    cases Option.some.inj h
    exact ⟨rfl,le_rfl⟩
  | cons resize resizes ih =>
    unfold applyTail at h
    split at h
    · cases h
    · rename_i hcursor
      simp only [not_not] at hcursor
      simp only [Option.bind_eq_bind,Option.bind_eq_some_iff] at h
      obtain ⟨next,hnext,h⟩ := h
      obtain ⟨hnumber,hzero,hnow⟩ := follows_of_applyResize hnext
      have hrest := ih h
      rw [hnow] at hrest
      exact ⟨hnumber,by omega,hzero,hcursor.symm ▸ hrest⟩

end Replayed

/-- What must be in order in a saved tail: every byte from the fence to the head is there,
and the resizes count up from the revision of the fence, one position after the other,
between the fence and the head. -/
structure StoredCheckpoint.Whole (saved : StoredCheckpoint) (replay : OutputReplay) : Prop where
  bytes : ∀ p, saved.checkpoint.throughByte ≤ p → p < replay.latestOutputBytes →
    ∃ chunk ∈ replay.chunks, Holds chunk p
  counted : ∀ i resize, saved.resizes[i]? = some resize →
    resize.resizeRevision = saved.checkpoint.resizeRevision+i+1
  ordered : (saved.resizes.map (·.throughByte)).Pairwise (· ≤ ·)
  inside : ∀ resize ∈ saved.resizes, saved.checkpoint.throughByte ≤ resize.throughByte ∧
    resize.throughByte ≤ replay.latestOutputBytes

section Follows

variable {next : ℕ → ℕ} {revision position revision' position' : ℕ}
  {resizes : List TerminalResize}

theorem FollowsBy.counted (h : Follows revision' position' revision position resizes) (i : ℕ)
    (resize : TerminalResize) (hi : resizes[i]? = some resize) :
    resize.resizeRevision = revision+i+1 := by
  induction resizes generalizing revision position i with
  | nil => cases hi
  | cons first resizes ih =>
    cases i with
    | zero =>
      cases Option.some.inj hi
      exact h.1
    | succ i =>
      have hrest := ih h.2.2.2 i hi
      have hfirst := h.1
      omega

theorem FollowsBy.inside (h : FollowsBy next revision' position' revision position resizes) :
    ∀ resize ∈ resizes, position ≤ resize.throughByte ∧ resize.throughByte ≤ position' := by
  induction resizes generalizing revision position with
  | nil => simp
  | cons first resizes ih =>
    intro resize hresize
    rcases List.mem_cons.mp hresize with rfl | hmem
    · exact ⟨h.2.1,h.2.2.2.position_le⟩
    · obtain ⟨hafter,hend⟩ := ih h.2.2.2 resize hmem
      exact ⟨h.2.1.trans hafter,hend⟩

theorem FollowsBy.ordered (h : FollowsBy next revision' position' revision position resizes) :
    (resizes.map (·.throughByte)).Pairwise (· ≤ ·) := by
  induction resizes generalizing revision position with
  | nil => exact .nil
  | cons first resizes ih =>
    refine .cons ?_ (ih h.2.2.2)
    simp only [List.mem_map,forall_exists_index,and_imp,forall_apply_eq_imp_iff₂]
    exact fun resize hresize => (h.2.2.2.inside resize hresize).1

theorem FollowsBy.revision_lt (h : FollowsBy nextRevision revision' position' revision position
    resizes) : ∀ resize ∈ resizes, resize.resizeRevision < 2^64 := by
  induction resizes generalizing revision position with
  | nil => simp
  | cons first resizes ih =>
    intro resize hresize
    rcases List.mem_cons.mp hresize with rfl | hmem
    · exact h.1.trans_lt (nextRevision_lt _)
    · exact ih h.2.2.2 resize hmem

end Follows

/-- A recovered model had every byte of its tail, and its resizes followed one another as the
revisions are raised. -/
theorem TerminalModel.tail_of_recover (h : recover id saved replay = some model) :
    (∀ p, saved.checkpoint.throughByte ≤ p → p < replay.latestOutputBytes →
      ∃ chunk ∈ replay.chunks, Holds chunk p) ∧
    FollowsBy nextRevision model.resizeRevision replay.latestOutputBytes
      saved.checkpoint.resizeRevision saved.checkpoint.throughByte saved.resizes := by
  unfold recover at h
  split at h
  · cases h
  · simp only [Option.bind_eq_bind,Option.bind_eq_some_iff] at h
    obtain ⟨parser,_,⟨cursor,resizes,state⟩,hchunks,h⟩ := h
    split at h
    · cases h
    · rename_i hcursor
      simp only [not_not] at hcursor
      simp only [Option.bind_eq_some_iff] at h
      obtain ⟨last,htail,h⟩ := h
      cases Option.some.inj h
      obtain ⟨hbytes,taken,hsplit,htaken⟩ := Replayed.fed_of_applyChunks hchunks
      have hwhole := htaken.append (Replayed.follows_of_applyTail htail)
      rw [← hsplit,hcursor] at hwhole
      rw [hcursor] at hbytes
      exact ⟨hbytes,hwhole⟩

/-- Below the bound of its revisions a recovered model had its whole tail. -/
theorem TerminalModel.whole_of_recover (h : recover id saved replay = some model)
    (hbound : saved.checkpoint.resizeRevision+saved.resizes.length < 2^64) :
    saved.Whole replay := by
  obtain ⟨hbytes,htail⟩ := tail_of_recover h
  exact ⟨hbytes,(htail.counts hbound).counted,htail.ordered,htail.inside⟩

/-- The file alone, without a replay, gives recovery no reason to refuse it. -/
structure StoredCheckpoint.Readable (vt : Vt100) (saved : StoredCheckpoint) : Prop where
  fields : saved.refused saved.checkpoint.runId
    ⟨[],saved.checkpoint.throughByte,saved.checkpoint.throughByte,false⟩ = false
  restored : (saved.restored : Option vt.Parser).isSome = true
  tail : ∃ revision position, FollowsBy nextRevision revision position
    saved.checkpoint.resizeRevision saved.checkpoint.throughByte saved.resizes

theorem StoredCheckpoint.not_refused :
    saved.refused id replay = false ↔ saved.refused saved.checkpoint.runId
        ⟨[],saved.checkpoint.throughByte,saved.checkpoint.throughByte,false⟩ = false ∧
      saved.checkpoint.runId = id ∧ replay.firstAvailableByte ≤ saved.checkpoint.throughByte ∧
        saved.checkpoint.throughByte ≤ replay.latestOutputBytes := by
  simp only [refused,Bool.or_eq_false_iff,decide_eq_false_iff_not,not_lt,ne_eq,not_not]
  tauto

theorem TerminalModel.readable_of_recover (h : recover id saved replay = some model) :
    saved.Readable vt := by
  have htail := (tail_of_recover h).2
  unfold recover at h
  split at h
  · cases h
  · rename_i hrefused
    obtain ⟨parser,hparser,_⟩ := Option.bind_eq_some_iff.mp h
    exact ⟨(StoredCheckpoint.not_refused.mp (Bool.not_eq_true _ ▸ hrefused)).1,
      Option.isSome_iff_exists.mpr ⟨parser,hparser⟩,_,_,htail⟩

end Terminal
end Ctxmux
