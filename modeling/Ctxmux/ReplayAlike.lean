import Ctxmux.HeaderAccepted
import Ctxmux.ReplayAssembly

/-!
# The two clients, frame by frame

A header passes the checks of the Rust client exactly when the SDK takes its continuation,
and a frame that one of the two takes in a loop is taken by the other with the same effect.
-/

namespace Ctxmux
namespace Terminal

open Durable (Byte RunId OutputChunk OutputReplay)
open Frames

variable {Info : Type}

section Checks

theorem follows_of_checkResizes {latest revision position revision' : ℕ}
    {resizes : List TerminalResize} (hposition : position ≤ latest)
    (h : checkResizes latest revision position resizes = .ok revision') :
    Follows revision' latest revision position resizes := by
  induction resizes generalizing revision position with
  | nil =>
    cases h
    exact ⟨rfl,hposition⟩
  | cons resize resizes ih =>
    unfold checkResizes at h
    split at h
    · cases h
    · rename_i hchecked
      simp only [ne_eq,Bool.or_eq_true,decide_eq_true_eq,not_or,not_not,not_lt,
        Bool.not_eq_true] at hchecked
      obtain ⟨⟨⟨hrevision,hnext⟩,hlatest⟩,hsize⟩ := hchecked
      exact ⟨hrevision,hnext,hsize,ih hlatest h⟩

variable {path : String}

theorem isZero_of_terminalSize {size : TerminalSize} (h : terminalSize size path = .ok ()) :
    size.isZero = false := by
  by_contra hzero
  simp only [TerminalSize.isZero,Bool.not_eq_false,Bool.or_eq_true,beq_iff_eq] at hzero
  unfold terminalSize unsignedInteger at h
  rcases hzero with hrows | hcols
  · rw [hrows] at h
    by_cases hcols : 1 ≤ size.cols.toNat ∧ size.cols.toNat ≤ 0xffff
    · simp [bind,Except.bind,hcols] at h
    · simp [bind,Except.bind,hcols] at h
  · rw [hcols] at h
    simp [bind,Except.bind] at h

theorem follows_of_checkResizeFrames {latest revision position revision' : ℕ}
    {resizes : List TerminalResize} {index : ℕ} (hposition : position ≤ latest)
    (h : checkResizeFrames path latest index revision position resizes = .ok revision') :
    Follows revision' latest revision position resizes := by
  induction resizes generalizing revision position index with
  | nil =>
    cases h
    exact ⟨rfl,hposition⟩
  | cons resize resizes ih =>
    simp only [checkResizeFrames,bind,Except.bind] at h
    split at h
    · cases h
    split at h
    · cases h
    split at h
    · cases h
    rename_i hsize
    split at h
    · cases h
    rename_i hchecked
    simp only [ne_eq,Bool.or_eq_true,decide_eq_true_eq,not_or,not_not,not_lt] at hchecked
    obtain ⟨⟨hrevision,hnext⟩,hlatest⟩ := hchecked
    exact ⟨hrevision,hnext,isZero_of_terminalSize hsize,ih hlatest h⟩

/-- What both clients check of a seed. -/
structure Fenced (header : AttachedHeader) (checkpoint : TerminalCheckpointHeader)
    (resizes : List TerminalResize) : Prop where
  run : checkpoint.runId = header.runId
  floor : header.replay.firstAvailableByte ≤ checkpoint.throughByte
  tail : Follows header.resizeRevision header.replay.latestOutputBytes
    checkpoint.resizeRevision checkpoint.throughByte resizes
  split : checkpoint.resizeAfterRestoreBytes ≤ checkpoint.restoreBytes
  restoreBytes : 1 ≤ checkpoint.restoreBytes
  size : checkpoint.size.isZero = false
  restoreSize : checkpoint.restoreSize.isZero = false

variable {header : AttachedHeader} {checkpoint : TerminalCheckpointHeader}
  {resizes : List TerminalResize}

theorem checkTerminalSeed_eq_ok :
    Client.checkTerminalSeed header.runId header.replay.firstAvailableByte
        header.replay.latestOutputBytes header.resizeRevision checkpoint resizes = .ok () ↔
      Fenced header checkpoint resizes := by
  constructor
  · intro h
    unfold Client.checkTerminalSeed at h
    split at h
    · cases h
    rename_i hfence
    simp only [ne_eq,Bool.or_eq_true,decide_eq_true_eq,not_or,not_not,not_lt,
      Bool.not_eq_true] at hfence
    obtain ⟨⟨⟨⟨⟨⟨hrun,hlatest⟩,hfloor⟩,hbytes⟩,hsize⟩,hrestore⟩,hsplit⟩ := hfence
    split at h
    · cases h
    rename_i revision hresizes
    split at h
    · cases h
    rename_i hrevision
    have hfollows := follows_of_checkResizes hlatest hresizes
    rw [not_ne_iff.mp hrevision] at hfollows
    exact ⟨hrun,hfloor,hfollows,hsplit,Nat.one_le_iff_ne_zero.mpr hbytes,hsize,hrestore⟩
  · intro h
    have hlatest := h.tail.position_le
    have hfloor := h.floor
    have hsplit := h.split
    have hbytes := h.restoreBytes
    unfold Client.checkTerminalSeed
    rw [if_neg (by simp [h.run,h.size,h.restoreSize]; omega),checkResizes_ok h.tail]
    simp

/-- A continuation that the SDK takes passes the checks of the Rust client, and
the SDK can represent its length. -/
theorem fenced_of_terminalContinuation (hterminal : header.terminal = .basicVt checkpoint resizes)
    (h : terminalContinuation path header = .ok ()) :
    Fenced header checkpoint resizes ∧ checkpoint.restoreBytes ≤ maxSafeInteger := by
  unfold terminalContinuation at h
  rw [hterminal] at h
  simp only [bind,Except.bind] at h
  split at h
  · cases h
  split at h
  · cases h
  split at h
  · cases h
  rename_i hsize
  split at h
  · cases h
  rename_i hrestore
  split at h
  · cases h
  split at h
  · cases h
  rename_i hbytes
  split at h
  · cases h
  rename_i hsplit
  split at h
  · cases h
  rename_i hfence
  simp only [ne_eq,Bool.or_eq_true,decide_eq_true_eq,not_or,not_not,not_lt] at hfence
  obtain ⟨⟨hrun,hfloor⟩,hlatest⟩ := hfence
  split at h
  · cases h
  rename_i revision hresizes
  split at h
  · cases h
  rename_i hrevision
  have hfollows := follows_of_checkResizeFrames hlatest hresizes
  rw [not_ne_iff.mp hrevision] at hfollows
  simp only [unsignedInteger] at hbytes hsplit
  split at hbytes
  · rename_i hpositive
    split at hsplit
    · rename_i hinside
      exact ⟨⟨hrun,hfloor,hfollows,hinside.2,hpositive.1,isZero_of_terminalSize hsize,
        isZero_of_terminalSize hrestore⟩,hpositive.2⟩
    · cases hsplit
  · cases hbytes

/-- The SDK takes a continuation that passes them, if it can represent its numbers. -/
theorem terminalContinuation_of_fenced (hterminal : header.terminal = .basicVt checkpoint resizes)
    (h : Fenced header checkpoint resizes)
    (hlatest : header.replay.latestOutputBytes ≤ maxSafeInteger)
    (hrevision : header.resizeRevision ≤ maxSafeInteger)
    (hrows : ∀ rows, checkpoint.restoreScrollbackRows = some rows → rows ≤ maxSafeInteger)
    (hbytes : checkpoint.restoreBytes ≤ maxSafeInteger) :
    terminalContinuation path header = .ok () := by
  have hthrough := h.tail.position_le
  have hends := h.tail.revision_eq
  have hscrollback : checkpoint.restoreScrollbackRows.elim (.ok ()) (fun rows =>
      safeUnsignedInteger rows (path ++ ".checkpoint.restore_scrollback_rows")) = .ok () := by
    cases hsome : checkpoint.restoreScrollbackRows with
    | none => rfl
    | some rows => exact if_pos (hrows rows hsome)
  unfold terminalContinuation
  rw [hterminal]
  simp only [bind,Except.bind]
  rw [validateCursorValue_ok (by omega),validateCursorValue_ok (by omega),terminalSize_ok h.size,
    terminalSize_ok h.restoreSize,hscrollback]
  simp only [unsignedInteger]
  rw [if_pos ⟨h.restoreBytes,hbytes⟩,if_pos ⟨Nat.zero_le _,h.split⟩]
  simp only
  rw [if_neg (by simp [h.run]; have := h.floor; omega),
    checkResizeFrames_ok h.tail hlatest hrevision path 0]
  simp

end Checks

section Frames

open Sdk (validateServerFrame serverFrame)

theorem validate_output {chunk : OutputChunk} : validateServerFrame (.output chunk) = .ok () ↔
    chunk.startByte ≤ maxSafeInteger ∧ chunk.endByte ≤ maxSafeInteger ∧
      chunk.startByte < chunk.endByte ∧ chunk.endByte-chunk.startByte = chunk.data.length := by
  unfold validateServerFrame Sdk.outputChunk validateCursorValue
  by_cases hstart : chunk.startByte ≤ maxSafeInteger
  · by_cases hend : chunk.endByte ≤ maxSafeInteger
    · simp only [hstart,hend,if_true,bind,Except.bind,true_and]
      split
      · rename_i hrange
        simp only [reduceCtorEq,false_iff]
        omega
      · rename_i hrange
        simp only [true_iff]
        omega
    · simp [hstart,hend,bind,Except.bind]
  · simp [hstart,bind,Except.bind]

theorem validate_replayWindow {firstAvailableByte latestOutputBytes : ℕ} :
    validateServerFrame (.replayWindow firstAvailableByte latestOutputBytes) = .ok () ↔
      latestOutputBytes ≤ maxSafeInteger ∧ firstAvailableByte ≤ latestOutputBytes := by
  unfold validateServerFrame safeUnsignedInteger
  by_cases hfirst : firstAvailableByte ≤ maxSafeInteger
  · by_cases hlatest : latestOutputBytes ≤ maxSafeInteger
    · simp only [hfirst,hlatest,if_true,bind,Except.bind,true_and]
      split
      · rename_i hrange
        simp only [reduceCtorEq,false_iff]
        omega
      · rename_i hrange
        simp only [true_iff]
        omega
    · simp [hfirst,hlatest,bind,Except.bind]
  · simp only [hfirst,if_false,bind,Except.bind,reduceCtorEq,false_iff]
    omega

theorem validate_terminalCheckpointChunk {offset : ℕ} {data : List Byte} :
    validateServerFrame (.terminalCheckpointChunk offset data) = .ok () ↔
      offset ≤ maxSafeInteger ∧ data ≠ [] := by
  unfold validateServerFrame validateCursorValue
  by_cases hoffset : offset ≤ maxSafeInteger
  · simp only [hoffset,if_true,bind,Except.bind,true_and,List.length_eq_zero_iff]
    split <;> simp [*]
  · simp [hoffset,bind,Except.bind]

variable {σ : Type} {k : ServerFrame → Except Sdk.ReceiveError σ} {frame : ServerFrame}

theorem serverFrame_valid (h : validateServerFrame frame = .ok ()) : serverFrame frame k = k frame := by
  unfold serverFrame
  rw [h]

theorem serverFrame_invalid (h : validateServerFrame frame ≠ .ok ()) :
    ∃ e, serverFrame frame k = .error e := by
  unfold serverFrame
  cases hvalid : validateServerFrame frame with
  | error e => exact ⟨.invalidFrame e,rfl⟩
  | ok value => exact absurd hvalid h

theorem both_of_errors {α β ε δ : Type} {R : α → β → Prop} {x : Except ε α} {y : Except δ β}
    (hx : ∃ e, x = .error e) (hy : ∃ d, y = .error d) : Both R x y := by
  obtain ⟨e,rfl⟩ := hx
  obtain ⟨d,rfl⟩ := hy
  exact .error e d

/-- A frame that the SDK refuses, or whose continuation refuses it. -/
theorem serverFrame_refused (h : validateServerFrame frame = .ok () → ∃ e, k frame = .error e) :
    ∃ e, serverFrame frame k = .error e := by
  by_cases hvalid : validateServerFrame frame = .ok ()
  · rw [serverFrame_valid hvalid]
    exact h hvalid
  · exact serverFrame_invalid hvalid

/-- The loops of the restore bytes take the same chunks. -/
theorem restoreFrame_alike {restoreBytes : ℕ} (hbytes : restoreBytes ≤ maxSafeInteger)
    (restore : List Byte) (frame : ServerFrame) :
    Both Eq (Client.restoreFrame restoreBytes restore frame)
      (Sdk.restoreFrame restoreBytes restore frame) := by
  unfold Client.restoreFrame Sdk.restoreFrame
  cases frame with
  | terminalCheckpointChunk offset data =>
    dsimp only
    by_cases htaken : offset = restore.length ∧ data ≠ [] ∧ offset+data.length ≤ restoreBytes
    · obtain ⟨hoffset,hdata,hend⟩ := htaken
      have hlength := List.length_pos_of_ne_nil hdata
      rw [if_pos ⟨hoffset,hdata,hend⟩,
        serverFrame_valid (validate_terminalCheckpointChunk.mpr ⟨by omega,hdata⟩)]
      simp only
      rw [if_neg (by simp [hoffset,hdata]; omega)]
      exact .ok rfl
    · rw [if_neg htaken]
      apply both_of_errors ⟨_,rfl⟩
      apply serverFrame_refused
      intro hvalid
      obtain ⟨_,hdata⟩ := validate_terminalCheckpointChunk.mp hvalid
      simp only
      rw [if_pos ?_]
      · exact ⟨_,rfl⟩
      · by_cases hoffset : offset = restore.length
        · have hlong : ¬offset+data.length ≤ restoreBytes := fun hend => htaken ⟨hoffset,hdata,hend⟩
          simp only [Bool.or_eq_true,decide_eq_true_eq]
          have hlength := List.length_pos_of_ne_nil hdata
          right
          omega
        · simp [hoffset]
  | output chunk => exact both_of_errors ⟨_,rfl⟩ (serverFrame_refused fun _ => ⟨_,rfl⟩)
  | event => exact both_of_errors ⟨_,rfl⟩ (serverFrame_refused fun _ => ⟨_,rfl⟩)
  | replayWindow first latest =>
    exact both_of_errors ⟨_,rfl⟩ (serverFrame_refused fun _ => ⟨_,rfl⟩)
  | error message => exact both_of_errors ⟨_,rfl⟩ (serverFrame_refused fun _ => ⟨_,rfl⟩)
  | other type => exact both_of_errors ⟨_,rfl⟩ (serverFrame_refused fun _ => ⟨_,rfl⟩)

/-- The snapshot and the cursor of one client are those of the other. -/
structure SameReplay (header : AttachedFrame Info) (restore : List Byte)
    (s : ReplaySnapshot Info×ℕ) (t : Sdk.Assembly Info) : Prop where
  snapshot : s.1 = t.snapshot header restore
  expectedByte : s.2 = t.expectedByte
  latest : t.replay.latestOutputBytes = header.replay.latestOutputBytes

/-- The loops of the output take the same chunks and windows. -/
theorem replayFrame_alike {header : AttachedFrame Info} {restore : List Byte}
    (hlatest : header.replay.latestOutputBytes ≤ maxSafeInteger) {s : ReplaySnapshot Info×ℕ}
    {t : Sdk.Assembly Info} (h : SameReplay header restore s t) (frame : ServerFrame) :
    Both (SameReplay header restore) ((Client.replayFrame s frame).map Prod.fst)
      (Sdk.replayFrame header t frame) := by
  obtain ⟨snapshot,expectedByte⟩ := s
  obtain ⟨rfl,rfl,hhead⟩ := h
  unfold Client.replayFrame Sdk.replayFrame
  cases frame with
  | output chunk =>
    simp only [Sdk.Assembly.snapshot,hhead]
    by_cases htaken : chunk.startByte = t.expectedByte ∧ chunk.startByte < chunk.endByte ∧
        chunk.endByte ≤ header.replay.latestOutputBytes ∧
        chunk.endByte-chunk.startByte = chunk.data.length
    · obtain ⟨hstart,hlt,hend,hlength⟩ := htaken
      rw [if_pos ⟨hstart,hlt,hend,hlength⟩,
        serverFrame_valid (validate_output.mpr ⟨by omega,by omega,hlt,hlength⟩)]
      simp only
      rw [if_neg (by simp [hstart]; omega)]
      exact .ok ⟨by simp [Sdk.Assembly.snapshot,hhead],rfl,hhead⟩
    · rw [if_neg htaken]
      apply both_of_errors ⟨_,rfl⟩
      apply serverFrame_refused
      intro hvalid
      obtain ⟨_,_,hlt,hlength⟩ := validate_output.mp hvalid
      simp only
      rw [if_pos ?_]
      · exact ⟨_,rfl⟩
      · by_cases hstart : chunk.startByte = t.expectedByte
        · have hlong : ¬chunk.endByte ≤ header.replay.latestOutputBytes :=
            fun hend => htaken ⟨hstart,hlt,hend,hlength⟩
          simp only [Bool.or_eq_true,decide_eq_true_eq]
          right
          omega
        · simp [hstart]
  | replayWindow first latest =>
    simp only [Sdk.Assembly.snapshot,hhead]
    by_cases htaken : latest = header.replay.latestOutputBytes ∧ t.expectedByte < first ∧
        first ≤ latest
    · obtain ⟨rfl,hnewer,hbound⟩ := htaken
      rw [if_pos ⟨rfl,hnewer,hbound⟩,
        serverFrame_valid (validate_replayWindow.mpr ⟨hlatest,hbound⟩)]
      have hnew : ¬(decide (header.replay.latestOutputBytes ≠ header.replay.latestOutputBytes) ||
          decide (first ≤ t.expectedByte) ||
          decide (header.replay.latestOutputBytes < first)) = true := by
        simp
        omega
      simp only
      rw [if_neg hnew]
      cases hterminal : header.terminal with
      | basicVt checkpoint resizes => exact .error _ _
      | notRequested => exact .ok ⟨by simp [Sdk.Assembly.snapshot,hterminal],rfl,rfl⟩
      | unknown reason => exact .ok ⟨by simp [Sdk.Assembly.snapshot,hterminal],rfl,rfl⟩
      | unavailable reason => exact .ok ⟨by simp [Sdk.Assembly.snapshot,hterminal],rfl,rfl⟩
    · rw [if_neg htaken]
      apply both_of_errors ⟨_,rfl⟩
      apply serverFrame_refused
      intro hvalid
      obtain ⟨_,hbound⟩ := validate_replayWindow.mp hvalid
      simp only
      rw [if_pos ?_]
      · exact ⟨_,rfl⟩
      · by_cases hequal : latest = header.replay.latestOutputBytes
        · have hold : ¬t.expectedByte < first := fun hnewer => htaken ⟨hequal,hnewer,hbound⟩
          simp only [Bool.or_eq_true,decide_eq_true_eq]
          left
          right
          omega
        · simp [hequal]
  | terminalCheckpointChunk offset data =>
    exact both_of_errors ⟨_,rfl⟩ (serverFrame_refused fun _ => ⟨_,rfl⟩)
  | event => exact both_of_errors ⟨_,rfl⟩ (serverFrame_refused fun _ => ⟨_,rfl⟩)
  | error message => exact both_of_errors ⟨_,rfl⟩ (serverFrame_refused fun _ => ⟨_,rfl⟩)
  | other type => exact both_of_errors ⟨_,rfl⟩ (serverFrame_refused fun _ => ⟨_,rfl⟩)

end Frames
end Terminal
end Ctxmux
