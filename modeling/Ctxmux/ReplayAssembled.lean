import Ctxmux.ReplayAlike
import Ctxmux.Tiling

/-!
# Both clients assemble the same replay

On every header and on every sequence of frames both clients leave the same frames and
both fail or both return the same snapshot. A returned snapshot is whole from its last
floor to the head.
-/

namespace Ctxmux
namespace Terminal

open Durable (Byte RunId OutputChunk OutputReplay)
open Frames
open Tiling (Tiles)

variable {Info : Type} {restore : List Byte} {taken : List ServerFrame} {frame : ServerFrame}

/-- The floor of the last window that arrived. -/
def lastWindow (taken : List ServerFrame) : Option ℕ :=
  (taken.filterMap ServerFrame.windowFloor).getLast?

/-- Where the chunks of a replay begin. -/
def finalFloor (start : ℕ) (taken : List ServerFrame) : ℕ := max start ((lastWindow taken).getD 0)

/-- Where a replay begins before a window arrives. -/
def AttachedFrame.replayStart (frame : AttachedFrame Info) (afterByte : ℕ) : ℕ :=
  max (match frame.terminal with
    | .basicVt checkpoint _ => checkpoint.throughByte
    | _ => afterByte) frame.replay.firstAvailableByte

section Window

@[simp] theorem lastWindow_nil : lastWindow [] = none := rfl

theorem lastWindow_concat (taken : List ServerFrame) (frame : ServerFrame) :
    lastWindow (taken ++ [frame]) = frame.windowFloor.or (lastWindow taken) := by
  unfold lastWindow
  rw [List.filterMap_append]
  cases hfloor : frame.windowFloor with
  | none => simp [hfloor]
  | some floor => simp [hfloor]

end Window

/-- A replay on its way: what it has after the frames that were taken. -/
structure Progress (header : AttachedFrame Info) (start : ℕ) (restore : List Byte)
    (taken : List ServerFrame) (state : ReplaySnapshot Info×ℕ) : Prop where
  tiles : Tiles OutputChunk.startByte OutputChunk.endByte (finalFloor start taken)
    state.1.replay.chunks state.2
  lengths : ∀ chunk ∈ state.1.replay.chunks, chunk.data.length = chunk.endByte-chunk.startByte
  within : state.2 ≤ max start header.replay.latestOutputBytes
  latest : state.1.replay.latestOutputBytes = header.replay.latestOutputBytes
  moved : ∀ floor, lastWindow taken = some floor → start < floor ∧
    state.1.replay.firstAvailableByte = floor ∧ state.1.replay.truncated = true ∧
      state.1.run = { header.run with firstAvailableByte := floor }
  kept : lastWindow taken = none →
    state.1.replay.firstAvailableByte = header.replay.firstAvailableByte ∧
      state.1.replay.truncated = header.replay.truncated ∧ state.1.run = header.run
  terminal : state.1.terminal = header.terminal
  resizeRevision : state.1.resizeRevision = header.resizeRevision
  restore : state.1.terminalRestore = restore
  seeded : ∀ checkpoint resizes, header.terminal = .basicVt checkpoint resizes →
    lastWindow taken = none

theorem Progress.step {header : AttachedFrame Info} {start : ℕ}
    {state state' : ReplaySnapshot Info×ℕ} {complete : Bool}
    (h : Progress header start restore taken state)
    (hstep : Client.replayFrame state frame = .ok (state',complete)) :
    Progress header start restore (taken ++ [frame]) state' := by
  obtain ⟨snapshot,expectedByte⟩ := state
  unfold Client.replayFrame at hstep
  cases frame with
  | output chunk =>
    simp only at hstep
    split at hstep
    · rename_i htaken
      obtain ⟨hstart,hlt,hend,hlength⟩ := htaken
      cases hstep
      have hwindow : lastWindow (taken ++ [.output chunk]) = lastWindow taken := by
        rw [lastWindow_concat]
        rfl
      have hlatest := h.latest
      exact {
        tiles := by
          unfold finalFloor
          rw [hwindow]
          exact Tiles.concat h.tiles hstart hlt
        lengths := by
          intro other hother
          rcases List.mem_append.mp hother with hold | hnew
          · exact h.lengths other hold
          · cases List.mem_singleton.mp hnew
            exact hlength.symm
        within := (hend.trans hlatest.le).trans (le_max_right _ _)
        latest := hlatest
        moved := by
          rw [hwindow]
          exact h.moved
        kept := by
          rw [hwindow]
          exact h.kept
        terminal := h.terminal
        resizeRevision := h.resizeRevision
        restore := h.restore
        seeded := by
          rw [hwindow]
          exact h.seeded }
    · cases hstep
  | replayWindow first latest =>
    simp only at hstep
    split at hstep
    · rename_i htaken
      obtain ⟨hequal,hnewer,hbound⟩ := htaken
      split at hstep
      · cases hstep
      · rename_i hraw
        cases hstep
        have hwindow : lastWindow (taken ++ [.replayWindow first latest]) = some first := by
          rw [lastWindow_concat]
          rfl
        have hlatest := h.latest
        have hstart : start < first := by
          have hle := h.tiles.le
          unfold finalFloor at hle
          omega
        have hrun : snapshot.run.id = header.run.id ∧ snapshot.run.info = header.run.info := by
          cases hlast : lastWindow taken with
          | none => exact ⟨congrArg RunInfo.id (h.kept hlast).2.2,congrArg RunInfo.info (h.kept hlast).2.2⟩
          | some floor =>
            have hmoved := (h.moved floor hlast).2.2.2
            exact ⟨by rw [hmoved],by rw [hmoved]⟩
        exact {
          tiles := by
            unfold finalFloor
            rw [hwindow]
            exact max_eq_right hstart.le
          lengths := by simp
          within := (hbound.trans (hequal.trans hlatest).le).trans (le_max_right _ _)
          latest := hlatest
          moved := by
            intro floor hfloor
            rw [hwindow] at hfloor
            cases hfloor
            exact ⟨hstart,rfl,rfl,by rw [hrun.1,hrun.2]⟩
          kept := by
            intro hnone
            rw [hwindow] at hnone
            cases hnone
          terminal := h.terminal
          resizeRevision := h.resizeRevision
          restore := h.restore
          seeded := by
            intro checkpoint resizes hterminal
            exact (hraw checkpoint resizes (h.terminal.trans hterminal)).elim }
    · cases hstep
  | terminalCheckpointChunk offset data => cases hstep
  | event => cases hstep
  | error message => cases hstep
  | other type => cases hstep

/-- Whether the loop of the output goes on. -/
def behind (state : ReplaySnapshot Info×ℕ) : Bool :=
  decide (state.2 < state.1.replay.latestOutputBytes)

/-- The loop of the Rust client is complete exactly where it has reached the head. -/
theorem replayFrame_complete {state state' : ReplaySnapshot Info×ℕ} {complete : Bool}
    (h : Client.replayFrame state frame = .ok (state',complete)) :
    complete = !behind state' := by
  obtain ⟨snapshot,expectedByte⟩ := state
  unfold Client.replayFrame at h
  cases frame with
  | output chunk =>
    simp only at h
    split at h
    · rename_i htaken
      cases h
      simp only [behind,Bool.eq_not_iff,ne_eq,decide_eq_decide]
      omega
    · cases h
  | replayWindow first latest =>
    simp only at h
    split at h
    · rename_i htaken
      split at h
      · cases h
      · cases h
        simp only [behind,Bool.eq_not_iff,ne_eq,decide_eq_decide]
        omega
    · cases h
  | terminalCheckpointChunk offset data => cases h
  | event => cases h
  | error message => cases h
  | other type => cases h

/-- `receive_replay` of a fresh snapshot after its seed, as a `while`. -/
theorem receiveTail_eq (afterByte : ℕ) (snapshot : ReplaySnapshot Info)
    (hchunks : snapshot.replay.chunks = []) (frames : List ServerFrame) :
    Client.receiveTail afterByte snapshot frames =
      next (whileReceive behind (fun state frame => (Client.replayFrame state frame).map Prod.fst)
          (.client .closed) (snapshot,max afterByte snapshot.replay.firstAvailableByte) frames)
        fun state rest => (.ok state.1,rest) := by
  unfold Client.receiveTail
  simp only [hchunks,List.getLast?_nil,Option.any_none,List.isEmpty_nil,Bool.true_and,
    Bool.false_or,decide_eq_true_eq,Option.elim_none]
  by_cases hbehind : max afterByte snapshot.replay.firstAvailableByte <
      snapshot.replay.latestOutputBytes
  · have hmore : behind (snapshot,max afterByte snapshot.replay.firstAvailableByte) = true :=
      decide_eq_true hbehind
    rw [if_neg (by omega),if_neg (by omega),
      loopReceive_eq (fun _ _ _ _ _ => replayFrame_complete) _ hmore]
  · have hmore : behind (snapshot,max afterByte snapshot.replay.firstAvailableByte) = false :=
      decide_eq_false hbehind
    have hwhile : next (whileReceive behind
        (fun state frame => (Client.replayFrame state frame).map Prod.fst) (.client .closed)
        (snapshot,max afterByte snapshot.replay.firstAvailableByte) frames)
        (fun state rest => (.ok state.1,rest)) =
        ((.ok snapshot,frames) : Received ServerFrame Client.ReceiveError (ReplaySnapshot Info)) := by
      cases frames with
      | nil => simp only [whileReceive,hmore,next]; rfl
      | cons frame frames => simp only [whileReceive,hmore,next]; rfl
    rw [hwhile,if_pos (show snapshot.replay.latestOutputBytes ≤
      max afterByte snapshot.replay.firstAvailableByte by omega),ite_self]

theorem sdk_receiveTail_eq (afterByte : ℕ) (header : AttachedFrame Info) (restore : List Byte)
    (frames : List ServerFrame) :
    Sdk.receiveTail afterByte header restore frames =
      next (whileReceive (fun state : Sdk.Assembly Info =>
          decide (state.expectedByte < header.replay.latestOutputBytes)) (Sdk.replayFrame header)
          .closed ⟨header.run,header.replay,[],max afterByte header.replay.firstAvailableByte⟩ frames)
        fun state rest => (.ok (state.snapshot header restore),rest) := by
  unfold Sdk.receiveTail
  dsimp only
  split
  · rename_i hafter
    have hmore : decide (max afterByte header.replay.firstAvailableByte <
        header.replay.latestOutputBytes) = false := decide_eq_false (by omega)
    cases frames with
    | nil => simp only [whileReceive,hmore,next]; rfl
    | cons frame frames => simp only [whileReceive,hmore,next]; rfl
  · rfl

theorem receiveTail_alike {header : AttachedFrame Info}
    (hlatest : header.replay.latestOutputBytes ≤ maxSafeInteger) (afterByte : ℕ)
    (restore : List Byte) (frames : List ServerFrame) :
    Alike Eq
      (Client.receiveTail afterByte { Client.ofAttached header with terminalRestore := restore }
        frames)
      (Sdk.receiveTail afterByte header restore frames) := by
  rw [receiveTail_eq _ _ rfl,sdk_receiveTail_eq]
  have hstart : SameReplay header restore
      ({ Client.ofAttached header with terminalRestore := restore },
        max afterByte header.replay.firstAvailableByte)
      ⟨header.run,header.replay,[],max afterByte header.replay.firstAvailableByte⟩ :=
    ⟨rfl,rfl,rfl⟩
  have hmore : ∀ s t, SameReplay header restore s t →
      behind s = decide (t.expectedByte < header.replay.latestOutputBytes) := by
    intro s t h
    unfold behind
    rw [h.snapshot,h.expectedByte,← h.latest]
    rfl
  have hloops := Alike.whileReceive hmore (fun s t frame h _ => replayFrame_alike hlatest h frame)
    (.client .closed) .closed hstart frames
  exact hloops.next fun s t rest h => Alike.value h.snapshot rest

/-- A header without a seed. -/
def AttachedFrame.raw (header : AttachedFrame Info) : Prop :=
  ∀ checkpoint resizes, header.terminal ≠ .basicVt checkpoint resizes

theorem receiveReplay_raw {header : AttachedFrame Info} (h : header.raw)
    (afterByte restoreLimit : ℕ) (frames : List ServerFrame) :
    Client.receiveReplay afterByte (Client.ofAttached header) restoreLimit frames =
        Client.receiveTail afterByte (Client.ofAttached header) frames ∧
      Sdk.receiveReplay afterByte header restoreLimit frames =
        Sdk.receiveTail afterByte header [] frames := by
  unfold Client.receiveReplay Client.receiveTerminalSeed Sdk.receiveReplay
  have hfields : (Client.ofAttached header).terminal = header.terminal := rfl
  rw [hfields]
  cases hterminal : header.terminal with
  | basicVt checkpoint resizes => exact absurd hterminal (h checkpoint resizes)
  | notRequested => exact ⟨rfl,rfl⟩
  | unknown reason => exact ⟨rfl,rfl⟩
  | unavailable reason => exact ⟨rfl,rfl⟩

section Seed

variable {header : AttachedFrame Info} {checkpoint : TerminalCheckpointHeader}
  {resizes : List TerminalResize}

theorem receiveReplay_refused (hterminal : header.terminal = .basicVt checkpoint resizes)
    (h : ¬Fenced header.header checkpoint resizes) (afterByte restoreLimit : ℕ)
    (frames : List ServerFrame) :
    ∃ e, Client.receiveReplay afterByte (Client.ofAttached header) restoreLimit frames =
      (.error e,frames) := by
  have hfields : (Client.ofAttached header).terminal = header.terminal := rfl
  unfold Client.receiveReplay Client.receiveTerminalSeed
  rw [hfields,hterminal]
  dsimp only
  split
  · rename_i error _
    exact ⟨.client error,rfl⟩
  · rename_i hchecked
    exact (h (checkTerminalSeed_eq_ok.mp hchecked)).elim

/-- A seed that it takes: the limit, the restore bytes, and the tail behind the fence. -/
theorem receiveReplay_fenced (hterminal : header.terminal = .basicVt checkpoint resizes)
    (h : Fenced header.header checkpoint resizes) (afterByte restoreLimit : ℕ)
    (frames : List ServerFrame) :
    Client.receiveReplay afterByte (Client.ofAttached header) restoreLimit frames =
      if restoreLimit < checkpoint.restoreBytes then
        (.error (.client (.restoreLimit checkpoint.restoreBytes restoreLimit)),frames)
      else
        next (whileReceive (fun restore => decide (restore.length < checkpoint.restoreBytes))
            (Client.restoreFrame checkpoint.restoreBytes) (.client .closed) [] frames)
          fun restore rest => Client.receiveTail checkpoint.throughByte
            { Client.ofAttached header with terminalRestore := restore } rest := by
  have hfields : (Client.ofAttached header).terminal = header.terminal := rfl
  have hchecked := checkTerminalSeed_eq_ok.mpr h
  unfold Client.receiveReplay Client.receiveTerminalSeed
  rw [hfields,hterminal]
  dsimp only [Client.ofAttached,AttachedFrame.header] at hchecked ⊢
  rw [hchecked]
  dsimp only
  split
  · rfl
  · rw [next_next,hterminal]
    rfl

theorem receiveReplay_alike {path : String} (h : attachedHeader path header.header = .ok ())
    (afterByte restoreLimit : ℕ) (frames : List ServerFrame) :
    Alike Eq (Client.receiveReplay afterByte (Client.ofAttached header) restoreLimit frames)
      (Sdk.receiveReplay afterByte header restoreLimit frames) := by
  simp only [attachedHeader,bind,Except.bind] at h
  split at h
  · cases h
  rename_i hcursors
  obtain ⟨hlatest,_⟩ := cursors_of_headerCursors hcursors
  by_cases hraw : header.raw
  · obtain ⟨hclient,hsdk⟩ := receiveReplay_raw hraw afterByte restoreLimit frames
    rw [hclient,hsdk]
    exact receiveTail_alike hlatest afterByte [] frames
  · simp only [AttachedFrame.raw,not_forall,not_not] at hraw
    obtain ⟨checkpoint,resizes,hterminal⟩ := hraw
    have hheader : header.header.terminal = .basicVt checkpoint resizes := hterminal
    obtain ⟨hfenced,hbytes⟩ := fenced_of_terminalContinuation hheader h
    rw [receiveReplay_fenced hterminal hfenced]
    unfold Sdk.receiveReplay
    rw [hterminal]
    dsimp only
    split
    · exact Alike.failure _ _ _
    · have hmore : ∀ s t : List Byte, s = t →
          decide (s.length < checkpoint.restoreBytes) =
            decide (t.length < checkpoint.restoreBytes) := by
        rintro s _ rfl
        rfl
      have hbody : ∀ s t frame, s = t → decide (s.length < checkpoint.restoreBytes) = true →
          Both Eq (Client.restoreFrame checkpoint.restoreBytes s frame)
            (Sdk.restoreFrame checkpoint.restoreBytes t frame) := by
        rintro s _ frame rfl _
        exact restoreFrame_alike hbytes s frame
      have hloops := Alike.whileReceive hmore hbody (Client.ReceiveError.client .closed)
        Sdk.ReceiveError.closed rfl frames (s := [])
      apply hloops.next
      intro restore _ rest hequal
      cases hequal
      exact receiveTail_alike hlatest checkpoint.throughByte restore rest

end Seed

/-- A snapshot that is whole from its last floor to the head. The floor is that of the
last window, and where the replay starts if none arrived. -/
structure Assembled (header : AttachedFrame Info) (afterByte : ℕ) (taken : List ServerFrame)
    (snapshot : ReplaySnapshot Info) : Prop where
  tiles : Tiles OutputChunk.startByte OutputChunk.endByte
    (min (finalFloor (header.replayStart afterByte) taken) header.replay.latestOutputBytes)
    snapshot.replay.chunks header.replay.latestOutputBytes
  lengths : ∀ chunk ∈ snapshot.replay.chunks, chunk.data.length = chunk.endByte-chunk.startByte
  latest : snapshot.replay.latestOutputBytes = header.replay.latestOutputBytes
  moved : ∀ floor, lastWindow taken = some floor →
    finalFloor (header.replayStart afterByte) taken = floor ∧
      snapshot.replay.firstAvailableByte = floor ∧ snapshot.replay.truncated = true ∧
        snapshot.run = { header.run with firstAvailableByte := floor }
  kept : lastWindow taken = none →
    snapshot.replay.firstAvailableByte = header.replay.firstAvailableByte ∧
      snapshot.replay.truncated = header.replay.truncated ∧ snapshot.run = header.run
  terminal : snapshot.terminal = header.terminal
  resizeRevision : snapshot.resizeRevision = header.resizeRevision
  seeded : ∀ checkpoint resizes, header.terminal = .basicVt checkpoint resizes →
    snapshot.terminalRestore.length = checkpoint.restoreBytes ∧ lastWindow taken = none

theorem Progress.start {header : AttachedFrame Info} {seed : List ServerFrame}
    (h : lastWindow seed = none) (start : ℕ) :
    Progress header start restore seed
      ({ Client.ofAttached header with terminalRestore := restore },start) where
  tiles := by
    unfold finalFloor
    rw [h]
    exact Nat.max_eq_left (Nat.zero_le _)
  lengths := by simp [Client.ofAttached]
  within := le_max_left _ _
  latest := rfl
  moved := by
    intro floor hfloor
    rw [h] at hfloor
    cases hfloor
  kept := fun _ => ⟨rfl,rfl,rfl⟩
  terminal := rfl
  resizeRevision := rfl
  restore := rfl
  seeded := fun _ _ _ => h

/-- The loop of the output keeps the progress over the frames that it takes. -/
theorem receiveTail_kept (header : AttachedFrame Info) (restore : List Byte)
    {seed : List ServerFrame} (hseed : lastWindow seed = none) (afterByte : ℕ)
    (frames : List ServerFrame) :
    ∃ taken, frames = taken ++ (Client.receiveTail afterByte
        { Client.ofAttached header with terminalRestore := restore } frames).2 ∧
      ∀ snapshot, (Client.receiveTail afterByte
          { Client.ofAttached header with terminalRestore := restore } frames).1 = .ok snapshot →
        ∃ expectedByte, header.replay.latestOutputBytes ≤ expectedByte ∧
          Progress header (max afterByte header.replay.firstAvailableByte) restore
            (seed ++ taken) (snapshot,expectedByte) := by
  have hstep : ∀ taken state frame state',
      Progress header (max afterByte header.replay.firstAvailableByte) restore taken state →
      behind state = true → (Client.replayFrame state frame).map Prod.fst = .ok state' →
      Progress header (max afterByte header.replay.firstAvailableByte) restore
        (taken ++ [frame]) state' := by
    intro taken state frame state' hprogress _ hbody
    cases hframe : Client.replayFrame state frame with
    | error e =>
      rw [hframe] at hbody
      cases hbody
    | ok value =>
      rw [hframe] at hbody
      cases hbody
      exact hprogress.step hframe
  obtain ⟨taken,hframes,hkept⟩ := whileReceive_kept hstep (.client .closed)
    (Progress.start hseed _) frames
  rw [receiveTail_eq _ _ rfl]
  refine ⟨taken,?_,?_⟩
  · rw [next_rest fun state rest => rfl]
    exact hframes
  · intro snapshot hsnapshot
    obtain ⟨state,hstate,hvalue⟩ := next_eq_ok hsnapshot
    cases hvalue
    obtain ⟨hprogress,hends⟩ := hkept state hstate
    refine ⟨state.2,?_,hprogress⟩
    have hlatest := hprogress.latest
    simp only [behind,decide_eq_false_iff_not,not_lt] at hends
    omega

theorem Progress.assembled {header : AttachedFrame Info} {afterByte : ℕ}
    {snapshot : ReplaySnapshot Info} {expectedByte : ℕ}
    (h : Progress header (header.replayStart afterByte) restore taken (snapshot,expectedByte))
    (hends : header.replay.latestOutputBytes ≤ expectedByte)
    (hrestore : ∀ checkpoint resizes, header.terminal = .basicVt checkpoint resizes →
      restore.length = checkpoint.restoreBytes) : Assembled header afterByte taken snapshot where
  tiles := by
    have hle := h.tiles.le
    have hwithin := h.within
    have hstart : header.replayStart afterByte ≤ finalFloor (header.replayStart afterByte) taken :=
      le_max_left _ _
    by_cases hbehind : header.replayStart afterByte ≤ header.replay.latestOutputBytes
    · have hequal : expectedByte = header.replay.latestOutputBytes := by
        simp only at hwithin
        omega
      subst hequal
      rw [min_eq_left hle]
      exact h.tiles
    · have hnone : snapshot.replay.chunks = [] := h.tiles.eq_nil_iff.mpr (by
        simp only at hwithin hle ⊢
        omega)
      rw [hnone,min_eq_right (by omega)]
      rfl
  lengths := h.lengths
  latest := h.latest
  moved := by
    intro floor hfloor
    obtain ⟨hstart,hmoved⟩ := h.moved floor hfloor
    refine ⟨?_,hmoved⟩
    unfold finalFloor
    rw [hfloor]
    exact max_eq_right hstart.le
  kept := h.kept
  terminal := h.terminal
  resizeRevision := h.resizeRevision
  seeded := by
    intro checkpoint resizes hterminal
    exact ⟨(congrArg List.length h.restore).trans (hrestore checkpoint resizes hterminal),
      h.seeded checkpoint resizes hterminal⟩

/-- A chunk of the seed is no window and never fills more than was announced. -/
theorem restoreFrame_kept {restoreBytes : ℕ} {restore' : List Byte}
    (h : lastWindow taken = none ∧ restore.length ≤ restoreBytes)
    (hframe : Client.restoreFrame restoreBytes restore frame = .ok restore') :
    lastWindow (taken ++ [frame]) = none ∧ restore'.length ≤ restoreBytes := by
  unfold Client.restoreFrame at hframe
  cases frame with
  | terminalCheckpointChunk offset data =>
    simp only at hframe
    split at hframe
    · rename_i htaken
      cases hframe
      refine ⟨?_,?_⟩
      · rw [lastWindow_concat]
        exact h.1
      · rw [List.length_append]
        omega
    · cases hframe
  | output chunk => cases hframe
  | event => cases hframe
  | replayWindow first latest => cases hframe
  | error message => cases hframe
  | other type => cases hframe

/-- What the Rust client takes, and what it returns after that. -/
theorem receiveReplay_kept (header : AttachedFrame Info) (afterByte restoreLimit : ℕ)
    (frames : List ServerFrame) :
    ∃ taken, frames = taken ++
        (Client.receiveReplay afterByte (Client.ofAttached header) restoreLimit frames).2 ∧
      ∀ snapshot, (Client.receiveReplay afterByte (Client.ofAttached header) restoreLimit
          frames).1 = .ok snapshot → Assembled header afterByte taken snapshot := by
  by_cases hraw : header.raw
  · have hstart : header.replayStart afterByte = max afterByte header.replay.firstAvailableByte := by
      unfold AttachedFrame.replayStart
      cases hterminal : header.terminal with
      | basicVt checkpoint resizes => exact absurd hterminal (hraw checkpoint resizes)
      | notRequested => rfl
      | unknown reason => rfl
      | unavailable reason => rfl
    obtain ⟨taken,hframes,hkept⟩ := receiveTail_kept header [] lastWindow_nil afterByte frames
    rw [(receiveReplay_raw hraw afterByte restoreLimit frames).1]
    refine ⟨taken,hframes,?_⟩
    intro snapshot hsnapshot
    obtain ⟨expectedByte,hends,hprogress⟩ := hkept snapshot hsnapshot
    rw [← hstart] at hprogress
    exact hprogress.assembled hends fun checkpoint resizes hterminal =>
      absurd hterminal (hraw checkpoint resizes)
  · simp only [AttachedFrame.raw,not_forall,not_not] at hraw
    obtain ⟨checkpoint,resizes,hterminal⟩ := hraw
    by_cases hfenced : Fenced header.header checkpoint resizes
    · rw [receiveReplay_fenced hterminal hfenced]
      split
      · exact ⟨[],rfl,fun snapshot hsnapshot => by cases hsnapshot⟩
      · have hstart : header.replayStart afterByte =
            max checkpoint.throughByte header.replay.firstAvailableByte := by
          unfold AttachedFrame.replayStart
          rw [hterminal]
        have hstep : ∀ taken restore frame restore',
            lastWindow taken = none ∧ restore.length ≤ checkpoint.restoreBytes →
            decide (restore.length < checkpoint.restoreBytes) = true →
            Client.restoreFrame checkpoint.restoreBytes restore frame = .ok restore' →
            lastWindow (taken ++ [frame]) = none ∧ restore'.length ≤ checkpoint.restoreBytes :=
          fun _ _ _ _ h _ hframe => restoreFrame_kept h hframe
        obtain ⟨seed,hseed,hfilled⟩ := whileReceive_kept hstep (Client.ReceiveError.client .closed)
          (⟨rfl,Nat.zero_le _⟩ : lastWindow [] = none ∧ ([] : List Byte).length ≤ _) frames
        cases hloop : whileReceive (fun restore => decide (restore.length < checkpoint.restoreBytes))
            (Client.restoreFrame checkpoint.restoreBytes) (.client .closed) [] frames with
        | mk value rest =>
          rw [hloop] at hseed hfilled
          cases value with
          | error e => exact ⟨seed,hseed,fun snapshot hsnapshot => by cases hsnapshot⟩
          | ok restore =>
            obtain ⟨⟨hwindow,hbound⟩,hfull⟩ := hfilled restore rfl
            obtain ⟨taken,hframes,hkept⟩ := receiveTail_kept header restore hwindow
              checkpoint.throughByte rest
            refine ⟨seed ++ taken,?_,?_⟩
            · rw [hseed,List.append_assoc]
              exact congrArg (seed ++ ·) hframes
            · intro snapshot hsnapshot
              obtain ⟨expectedByte,hends,hprogress⟩ := hkept snapshot hsnapshot
              rw [← hstart] at hprogress
              apply hprogress.assembled hends
              intro checkpoint' resizes' hterminal'
              rw [hterminal] at hterminal'
              cases hterminal'
              simp only [decide_eq_false_iff_not,not_lt] at hfull
              exact Nat.le_antisymm hbound hfull
    · obtain ⟨e,hrefused⟩ := receiveReplay_refused hterminal hfenced afterByte restoreLimit frames
      rw [hrefused]
      exact ⟨[],rfl,fun snapshot hsnapshot => by cases hsnapshot⟩

theorem windowFloor_of_lastWindow (h : lastWindow taken = none) (hframe : frame ∈ taken) :
    frame.windowFloor = none := by
  unfold lastWindow at h
  rw [List.getLast?_eq_none_iff,List.filterMap_eq_nil_iff] at h
  exact h frame hframe

/-- For every header that the SDK takes, every cursor, limit and sequence of frames, both
clients leave the same frames and both fail or both return the same snapshot. A header
that the SDK refuses although it can represent its numbers is refused by the Rust client
before it takes a frame. What was taken gives a snapshot that is whole from its last
floor, and a window never moves a seed. -/
theorem replay_assembled_alike (header : AttachedFrame Info)
    (hwindow : header.replay.firstAvailableByte ≤ header.replay.latestOutputBytes)
    (hlatest : header.replay.latestOutputBytes < 2^53) (path : String)
    (afterByte restoreLimit : ℕ) (frames : List ServerFrame) :
    (attachedHeader path header.header = .ok () →
      Alike Eq (Client.receiveReplay afterByte (Client.ofAttached header) restoreLimit frames)
        (Sdk.receiveReplay afterByte header restoreLimit frames)) ∧
    (attachedHeader path header.header ≠ .ok () → header.resizeRevision ≤ maxSafeInteger →
      (∀ checkpoint resizes rows, header.terminal = .basicVt checkpoint resizes →
        checkpoint.restoreScrollbackRows = some rows → rows ≤ maxSafeInteger) →
      restoreLimit ≤ maxSafeInteger →
      ∃ e, Client.receiveReplay afterByte (Client.ofAttached header) restoreLimit frames =
        (.error e,frames)) ∧
    ∃ taken, frames = taken ++
        (Client.receiveReplay afterByte (Client.ofAttached header) restoreLimit frames).2 ∧
      (∀ snapshot, (Client.receiveReplay afterByte (Client.ofAttached header) restoreLimit
          frames).1 = .ok snapshot → Assembled header afterByte taken snapshot) ∧
      ((∃ checkpoint resizes, header.terminal = .basicVt checkpoint resizes) →
        (∃ frame ∈ taken, frame.windowFloor ≠ none) →
        ∃ e, (Client.receiveReplay afterByte (Client.ofAttached header) restoreLimit frames).1 =
          .error e) := by
  refine ⟨fun h => receiveReplay_alike h afterByte restoreLimit frames,?_,?_⟩
  · intro hrefused hrevision hrows hlimit
    have hcursors : headerCursors path header.header = .ok () := by
      have hsafe : header.replay.latestOutputBytes ≤ maxSafeInteger := Nat.le_sub_one_of_lt hlatest
      simp only [headerCursors,outputReplayHeader,AttachedFrame.header,bind,Except.bind]
      rw [validateCursorValue_ok (hwindow.trans hsafe),validateCursorValue_ok hsafe]
      exact validateCursorValue_ok hrevision _
    simp only [attachedHeader,hcursors,bind,Except.bind] at hrefused
    by_cases hraw : header.raw
    · refine absurd ?_ hrefused
      unfold terminalContinuation
      have hfields : header.header.terminal = header.terminal := rfl
      rw [hfields]
      cases hterminal : header.terminal with
      | basicVt checkpoint resizes => exact absurd hterminal (hraw checkpoint resizes)
      | notRequested => rfl
      | unknown reason => rfl
      | unavailable reason => rfl
    · simp only [AttachedFrame.raw,not_forall,not_not] at hraw
      obtain ⟨checkpoint,resizes,hterminal⟩ := hraw
      by_cases hfenced : Fenced header.header checkpoint resizes
      · have hlarge : ¬checkpoint.restoreBytes ≤ maxSafeInteger := fun hbytes =>
          hrefused (terminalContinuation_of_fenced hterminal hfenced (Nat.le_sub_one_of_lt hlatest)
            hrevision (fun rows => hrows checkpoint resizes rows hterminal) hbytes)
        rw [receiveReplay_fenced hterminal hfenced,if_pos (by omega)]
        exact ⟨_,rfl⟩
      · exact receiveReplay_refused hterminal hfenced afterByte restoreLimit frames
  · obtain ⟨taken,hframes,hkept⟩ := receiveReplay_kept header afterByte restoreLimit frames
    refine ⟨taken,hframes,hkept,?_⟩
    rintro ⟨checkpoint,resizes,hterminal⟩ ⟨frame,hframe,hfloor⟩
    cases hresult : (Client.receiveReplay afterByte (Client.ofAttached header) restoreLimit
        frames).1 with
    | error e => exact ⟨e,rfl⟩
    | ok snapshot =>
      have hnone := ((hkept snapshot hresult).seeded checkpoint resizes hterminal).2
      exact absurd (windowFloor_of_lastWindow hnone hframe) hfloor

/-- A raw header at byte 2 of 6: two chunks are dropped by a window to byte 5, and the last
chunk completes the replay before the frame after it. -/
def windowHeader : AttachedFrame Unit where
  run := ⟨⟨"run"⟩,2,()⟩
  replay := ⟨2,6,false⟩
  terminal := .notRequested
  resizeRevision := 3

def windowFrames : List ServerFrame :=
  [.output ⟨2,3,[104]⟩,.output ⟨3,4,[105]⟩,.replayWindow 5 6,.output ⟨5,6,[33]⟩,.event]

theorem replay_assembled_alike_moved :
    Alike Eq (Client.receiveReplay 0 (Client.ofAttached windowHeader) 0 windowFrames)
      (Sdk.receiveReplay 0 windowHeader 0 windowFrames) ∧
    Client.receiveReplay 0 (Client.ofAttached windowHeader) 0 windowFrames =
      (.ok ⟨⟨⟨"run"⟩,5,()⟩,.notRequested,[],3,⟨[⟨5,6,[33]⟩],5,6,true⟩⟩,[.event]) :=
  ⟨(replay_assembled_alike windowHeader (by decide) (by decide) "$frame.snapshot" 0 0
    windowFrames).1 (by decide +kernel),by decide +kernel⟩

end Terminal
end Ctxmux
