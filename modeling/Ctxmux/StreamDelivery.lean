import Ctxmux.StreamFlow

/-!
# Live delivery and the client's cursor

While an attachment streams, the cursor of its client is the later of two bytes: the one
that the loop has sent through and the one that the publications it has passed lead to.
Delivering an envelope keeps this, and so does a recovery, which either finds that what it
skipped was sent before or reports a gap up to the head of the Run.
-/

namespace Ctxmux
namespace Viewer

open Attachment (RunEvent LiveRunEvent LiveEventCursor Publication Carried Client Fences
  TerminalState recoverLaggedDelivery lostObservation lostTerminal lostOutputMarker lostOutputBytes
  lostResize lagGap lagService retainedBoundary terminalEvent)
open Attachment.LiveEventCursor (Behind Within)
open Durable (OutputChunk)
open Tiling

variable {pushed : List OutputChunk} {final : Option ℕ} {afterByte a m base latest cursor : ℕ}
  {c k r : LiveEventCursor} {x : Publication} {xs : List Publication} {fs gs : List Frame}

theorem follow_append (afterByte cursor : ℕ) (fs gs : List Frame) :
    follow afterByte cursor (fs ++ gs) =
      (follow afterByte cursor fs).bind fun cursor => follow afterByte cursor gs := by
  induction fs generalizing cursor with
  | nil => rfl
  | cons frame fs ih =>
    rw [List.cons_append,follow,follow]
    cases frame.follow afterByte cursor with
    | none => rfl
    | some cursor' => exact ih cursor'

theorem follow_outputs {b : ℕ} {chunks : List OutputChunk}
    (h : Tiles OutputChunk.startByte OutputChunk.endByte a chunks b) :
    follow afterByte a (chunks.map .output) = some b := by
  induction chunks generalizing a with
  | nil => exact congrArg some h
  | cons chunk chunks ih =>
    obtain ⟨hstart,-,hrest⟩ := h
    rw [List.map_cons,follow,Frame.follow,if_pos hstart]
    exact ih hrest

theorem boundary_of_mem (h : Tiles OutputChunk.startByte OutputChunk.endByte base pushed latest)
    {chunk : OutputChunk} (hchunk : chunk ∈ pushed) : Boundary pushed chunk.endByte := by
  induction pushed generalizing base with
  | nil => cases hchunk
  | cons first chunks ih =>
    obtain ⟨-,-,hrest⟩ := h
    intro other hother
    rcases List.mem_cons.mp hchunk with rfl | hin
    · rcases List.mem_cons.mp hother with rfl | hlater
      · exact .inl le_rfl
      · exact .inr (hrest.mem_bounds hlater).1
    · rcases List.mem_cons.mp hother with rfl | hlater
      · have hbounds := hrest.mem_bounds hin
        exact .inl (by omega)
      · exact ih hrest hin other hlater

theorem boundary_latest (h : Tiles OutputChunk.startByte OutputChunk.endByte base pushed latest)
    {n : ℕ} (hn : latest ≤ n) : Boundary pushed n := fun _ hchunk =>
  .inl ((h.mem_bounds hchunk).2.2.trans hn)

/-- What a client that stands at `cursor` has of a Run that has ended, when `frames` were
sent so far. -/
def Covered (final : Option ℕ) (cursor : ℕ) (frames : List Frame) : Prop :=
  (∃ f ∈ final, f ≤ cursor) ∨ frames.getLast? = some (.event .observationDiscontinuity)

/-- The last of the frames ends the attachment of a client that had everything before. -/
def Concluded (final : Option ℕ) (cursor : ℕ) (frames : List Frame) : Prop :=
  frames.getLast?.any Frame.isTerminal = true ∧ Covered final cursor frames.dropLast

/-- The client of a live attachment at `cursor`, when the loop has passed the publications up
to byte `a` and `frames` were sent. -/
def Standing (pushed : List OutputChunk) (final : Option ℕ) (latest a : ℕ) (client : Client)
    (cursor : ℕ) (frames : List Frame) : Prop :=
  match client.phase with
  | .subscribed => False
  | .streaming => cursor = max client.sent.sentThroughByte a ∧
      Boundary pushed client.sent.sentThroughByte ∧ client.sent.sentThroughByte ≤ latest ∧
      frames.any Frame.isTerminal = false
  | .held => frames.any Frame.isTerminal = false ∧ Covered final cursor frames
  | .observationClosed => frames.any Frame.isTerminal = false
  | .finished => frames.any Frame.isTerminal = true → Concluded final cursor frames

theorem Covered.after (h : Covered final cursor gs) :
    Covered final cursor (fs ++ gs) := by
  refine h.imp id fun hlast => ?_
  rw [List.getLast?_append,hlast]
  rfl

theorem Concluded.after (h : Concluded final cursor gs) :
    Concluded final cursor (fs ++ gs) := by
  obtain ⟨hlast,hcovered⟩ := h
  have hne : gs ≠ [] := by
    rintro rfl
    cases hlast
  constructor
  · rw [List.getLast?_append,List.getLast?_eq_some_getLast hne]
    rw [List.getLast?_eq_some_getLast hne] at hlast
    exact hlast
  · rw [List.dropLast_append_of_ne_nil hne]
    exact hcovered.after

/-- A terminal event behind frames that leave nothing out. -/
theorem Covered.conclude (h : Covered final cursor fs) {frame : Frame}
    (hterminal : frame.isTerminal = true) :
    Concluded final cursor (fs ++ [frame]) := by
  constructor
  · rw [List.getLast?_concat]
    exact hterminal
  · rw [List.dropLast_concat]
    exact h

theorem Standing.after {client : Client} (h : Standing pushed final latest a client cursor gs)
    (hquiet : fs.any Frame.isTerminal = false) :
    Standing pushed final latest a client cursor (fs ++ gs) := by
  have hany : (fs ++ gs).any Frame.isTerminal = gs.any Frame.isTerminal := by
    rw [List.any_append,hquiet,Bool.false_or]
  unfold Standing at h ⊢
  rw [hany]
  split at h
  · exact h
  · exact h
  · exact ⟨h.1,h.2.after⟩
  · exact h
  · exact fun hended => (h hended).after

theorem standing_end {client : Client} {event : RunEvent} {start : ℕ}
    (hfollow : follow afterByte start fs = some cursor) (hquiet : fs.any Frame.isTerminal = false)
    (hcovered : Covered final cursor fs) (hterminal : event.isTerminal = true) (busy : Bool) :
    ∃ cursor, follow afterByte start
        (fs ++ (client.endWith event busy).2.map (liveFrame pushed)) = some cursor ∧
      Standing pushed final latest a (client.endWith event busy).1 cursor
        (fs ++ (client.endWith event busy).2.map (liveFrame pushed)) := by
  cases busy with
  | true =>
    have hnothing : fs ++ (client.endWith event true).2.map (liveFrame pushed) = fs :=
      List.append_nil fs
    rw [hnothing]
    exact ⟨cursor,hfollow,hquiet,hcovered⟩
  | false =>
    have hframe : liveFrame pushed event = .event event ∧
        (Frame.event event).follow afterByte cursor = some cursor := by
      cases event with
      | exited => exact ⟨rfl,rfl⟩
      | interrupted => exact ⟨rfl,rfl⟩
      | _ => cases hterminal
    have hends : (Frame.event event).isTerminal = true := hterminal
    refine ⟨cursor,?_,fun _ => ?_⟩
    · show follow afterByte start (fs ++ [liveFrame pushed event]) = _
      rw [hframe.1,follow_append,hfollow]
      show follow afterByte cursor [Frame.event event] = _
      rw [follow,hframe.2]
      rfl
    · show Concluded final cursor (fs ++ [liveFrame pushed event])
      rw [hframe.1]
      exact hcovered.conclude hends

section Deliver

variable {client : Client} {event : RunEvent}
  (htiles : Tiles OutputChunk.startByte OutputChunk.endByte base pushed latest)
  (hphase : client.phase = .streaming)
  (hsent : Boundary pushed client.sent.sentThroughByte)
  (hle : client.sent.sentThroughByte ≤ latest)
include hphase hsent hle

theorem standing_quiet (hsame : position m x.event = m) {client' : Client} {frames : List Frame}
    (hphase' : client'.phase = client.phase)
    (hthrough : client'.sent.sentThroughByte = client.sent.sentThroughByte)
    (hquiet : ∀ frame ∈ frames, (∀ cursor, frame.follow afterByte cursor = some cursor) ∧
      frame.isTerminal = false) :
    ∃ cursor, follow afterByte (max client.sent.sentThroughByte m) frames = some cursor ∧
      Standing pushed final latest (position m x.event) client' cursor frames := by
  refine ⟨max client.sent.sentThroughByte m,?_,?_⟩
  · induction frames with
    | nil => rfl
    | cons frame frames ih =>
      rw [follow,(hquiet frame (by simp)).1]
      exact ih fun other hother => hquiet other (List.mem_cons_of_mem frame hother)
  · rw [Standing,hphase',hphase]
    refine ⟨by rw [hthrough,hsame],by rw [hthrough]; exact hsent,by rw [hthrough]; exact hle,?_⟩
    rw [List.any_eq_false]
    intro frame hframe
    rw [(hquiet frame hframe).2]
    exact Bool.false_ne_true

theorem standing_gap {latestOutputBytes : ℕ} {causes : Attachment.OutputGapCauses}
    (hmax : max (max client.sent.sentThroughByte m) latestOutputBytes =
      max client.sent.sentThroughByte (position m x.event)) (busy : Bool) :
    ∃ cursor, follow afterByte (max client.sent.sentThroughByte m)
        ((client.deliver (.gap latestOutputBytes causes) busy).2.map (liveFrame pushed)) =
          some cursor ∧
      Standing pushed final latest (position m x.event)
        (client.deliver (.gap latestOutputBytes causes) busy).1 cursor
        ((client.deliver (.gap latestOutputBytes causes) busy).2.map (liveFrame pushed)) := by
  refine ⟨max client.sent.sentThroughByte (position m x.event),?_,?_⟩
  · show (some (max (max client.sent.sentThroughByte m) latestOutputBytes)).bind _ = _
    rw [hmax]
    rfl
  · simp only [Standing,Client.deliver,hphase]
    exact ⟨trivial,hsent,hle,rfl⟩

include htiles

/-- Output that goes out begins where the client stands. -/
theorem standing_output {endByte : ℕ} (hx : Published pushed final m k x)
    (hevent : x.event = .output endByte) (busy : Bool) :
    ∃ cursor, follow afterByte (max client.sent.sentThroughByte m)
        ((client.deliver (.output endByte) busy).2.map (liveFrame pushed)) = some cursor ∧
      Standing pushed final latest (position m x.event)
        (client.deliver (.output endByte) busy).1 cursor
        ((client.deliver (.output endByte) busy).2.map (liveFrame pushed)) := by
  obtain ⟨chunk,hchunk,hstart,rfl,hlt⟩ := hx.output endByte hevent
  have hcut := hsent chunk hchunk
  rw [Client.deliver,hevent]
  split
  · rename_i hold
    refine ⟨max client.sent.sentThroughByte m,rfl,?_⟩
    rw [Standing,hphase]
    refine ⟨?_,hsent,hle,rfl⟩
    simp only [position]
    omega
  · rename_i hnew
    have hcursor : max client.sent.sentThroughByte m = chunk.startByte := by omega
    have hframe : liveFrame pushed (.output chunk.endByte) = .output chunk := by
      rw [liveFrame,find?_of_tiles htiles hchunk]
    refine ⟨chunk.endByte,?_,?_⟩
    · rw [List.map_singleton,hframe,hcursor,follow,Frame.follow,if_pos rfl]
      rfl
    · rw [Standing]
      simp only [hphase]
      refine ⟨(max_self _).symm,boundary_of_mem htiles hchunk,(htiles.mem_bounds hchunk).2.2,?_⟩
      rw [List.map_singleton,hframe]
      rfl

theorem deliver_standing (afterByte : ℕ) (hx : Published pushed final m k x)
    (hevent : x.envelope.event = some event) (busy : Bool) :
    ∃ cursor, follow afterByte (max client.sent.sentThroughByte m)
        ((client.deliver event busy).2.map (liveFrame pushed)) = some cursor ∧
      Standing pushed final latest (position m x.event) (client.deliver event busy).1 cursor
        ((client.deliver event busy).2.map (liveFrame pushed)) := by
  have hdelivered := hx.carried.delivered hevent
  have hended : x.event.isTerminal = true → Covered final (max client.sent.sentThroughByte m) [] := by
    intro hterminal
    obtain ⟨f,hf,hlow⟩ := hx.terminal hterminal
    exact .inl ⟨f,hf,hlow.trans (le_max_right _ _)⟩
  cases hkind : x.event with
  | output endByte =>
    obtain ⟨chunk,hchunk,-,-,hlt⟩ := hx.output endByte hkind
    rw [hkind] at hdelivered
    rw [← hkind]
    rcases hdelivered with rfl | rfl
    · exact standing_output htiles hphase hsent hle hx hkind busy
    · refine standing_gap hphase hsent hle ?_ busy
      rw [hkind]
      simp only [position]
      omega
  | gap latestOutputBytes causes =>
    have hlow := hx.gap latestOutputBytes causes hkind
    rw [← hkind]
    rw [hkind] at hdelivered
    obtain rfl : event = .gap latestOutputBytes causes := hdelivered.elim id id
    refine standing_gap hphase hsent hle ?_ busy
    rw [hkind]
    simp only [position]
    omega
  | exited =>
    rw [hkind] at hdelivered hended
    obtain rfl : event = .exited := hdelivered.elim id id
    exact standing_end rfl rfl (hended rfl) rfl busy
  | interrupted =>
    rw [hkind] at hdelivered hended
    obtain rfl : event = .interrupted := hdelivered.elim id id
    exact standing_end rfl rfl (hended rfl) rfl busy
  | tmux =>
    rw [hkind] at hdelivered
    rw [← hkind]
    rcases hdelivered with rfl | rfl <;>
      exact standing_quiet hphase hsent hle (by rw [hkind]; rfl) rfl rfl
        (by simp [Client.deliver,RunEvent.unfunded,liveFrame,Frame.follow,Frame.isTerminal,
          RunEvent.isTerminal])
  | observationDiscontinuity =>
    rw [← hkind]
    rw [hkind] at hdelivered
    obtain rfl : event = .observationDiscontinuity := hdelivered.elim id id
    exact standing_quiet hphase hsent hle (by rw [hkind]; rfl) rfl rfl
      (by simp [Client.deliver,liveFrame,Frame.follow,Frame.isTerminal,RunEvent.isTerminal])
  | serviceChanged revision =>
    rw [← hkind]
    rw [hkind] at hdelivered
    obtain rfl : event = .serviceChanged revision := hdelivered.elim id id
    rw [Client.deliver]
    split
    · exact standing_quiet hphase hsent hle (by rw [hkind]; rfl) rfl rfl (by simp)
    · exact standing_quiet hphase hsent hle (by rw [hkind]; rfl) rfl rfl
        (by simp [liveFrame,Frame.follow,Frame.isTerminal,RunEvent.isTerminal])
  | resized size through revision =>
    rw [← hkind]
    rw [hkind] at hdelivered
    obtain rfl : event = .resized size through revision := hdelivered.elim id id
    rw [Client.deliver]
    split
    · exact standing_quiet hphase hsent hle (by rw [hkind]; rfl) rfl rfl (by simp)
    · exact standing_quiet hphase hsent hle (by rw [hkind]; rfl) rfl rfl
        (by simp [liveFrame,Frame.follow,Frame.isTerminal,RunEvent.isTerminal])

end Deliver

section Recover

variable {sent : Fences} {terminal : Option TerminalState} {nativeService : Option ℕ} {head : ℕ}

/-- The gap of a recovery reaches to the head that `Run::info` read. -/
theorem lagGap_head (hr : Within m r) (hm : m ≤ head) :
    (lagGap ⟨terminal,head,nativeService⟩ c r sent).2 = head := by
  obtain ⟨hbytes,hmarker⟩ := hr
  simp only [lagGap]
  split <;> omega

theorem gap_standing (afterByte : ℕ) (terminal : Option TerminalState) (nativeService : Option ℕ)
    (hflow : Flow pushed final a c xs m k) (hbehind : k.Behind r)
    (hwithin : Within m r) (hm : m ≤ head) (hle : sent.sentThroughByte ≤ head)
    (hsent : Boundary pushed sent.sentThroughByte) (hhead : Boundary pushed head) :
    ∃ frames sent',
      (if (lostOutputMarker c r || lostOutputBytes r sent || lostResize r sent) = true then
        ([(lagGap ⟨terminal,head,nativeService⟩ c r sent).1],
          (⟨max sent.sentThroughByte (lagGap ⟨terminal,head,nativeService⟩ c r sent).2,
            sent.sentServiceRevision,sent.sentResizeRevision⟩ : Fences))
        else ([],sent)) = (frames,sent') ∧
      follow afterByte (max sent.sentThroughByte a) (frames.map (liveFrame pushed)) =
        some (max sent'.sentThroughByte m) ∧
      Boundary pushed sent'.sentThroughByte ∧ sent'.sentThroughByte ≤ head ∧
      (frames.map (liveFrame pushed)).any Frame.isTerminal = false := by
  have ham := hflow.le
  split
  · have hsame : (lagGap ⟨terminal,head,nativeService⟩ c r sent).2 = head :=
      lagGap_head hwithin hm
    have hevent : ∃ causes, (lagGap ⟨terminal,head,nativeService⟩ c r sent).1 =
        .gap (lagGap ⟨terminal,head,nativeService⟩ c r sent).2 causes := ⟨_,rfl⟩
    obtain ⟨causes,hevent⟩ := hevent
    rw [hsame] at hevent
    refine ⟨_,_,rfl,?_,?_,?_,?_⟩
    · rw [hevent,hsame]
      show some (max (max sent.sentThroughByte a) head) = _
      congr 1
      simp only
      omega
    · rw [hsame,max_eq_right hle]
      exact hhead
    · rw [hsame]
      exact max_le hle le_rfl
    · rw [hevent]
      rfl
  · rename_i hquiet
    simp only [Bool.or_eq_true,not_or,lostOutputMarker,lostOutputBytes,decide_eq_true_eq,
      not_lt] at hquiet
    have hreach := hflow.quiet (hbehind.outputDiscontinuityRevision.trans hquiet.1.1)
      (hbehind.outputBytes.trans hquiet.1.2)
    refine ⟨[],sent,rfl,?_,hsent,hle,rfl⟩
    show some _ = some _
    congr 1
    omega

/-- A recovery ends the attachment only behind all output of the Run. -/
theorem recovery_end (hflow : Flow pushed final a c xs m k)
    (hrevision : r.terminalRevision = k.terminalRevision) (terminal : Option TerminalState) :
    (match terminal with
      | some state =>
        if lostTerminal c r then Attachment.LagRecovery.terminal (terminalEvent state) else .proceed
      | none => .proceed) = Attachment.LagRecovery.proceed ∨
    ∃ event : RunEvent, (match terminal with
      | some state =>
        if lostTerminal c r then Attachment.LagRecovery.terminal (terminalEvent state) else .proceed
      | none => .proceed) = .terminal event ∧ event.isTerminal = true ∧ ∃ f ∈ final, f ≤ m := by
  cases terminal with
  | none => exact .inl rfl
  | some state =>
    by_cases hlost : lostTerminal c r = true
    · refine .inr ⟨terminalEvent state,if_pos hlost,?_,hflow.ended ?_⟩
      · cases state <;> rfl
      · simpa [lostTerminal,hrevision] using hlost
    · exact .inl (if_neg hlost)

/-- A recovery that lost no observation accounts for the output that it skipped. -/
theorem recover_standing (afterByte : ℕ) (terminal : Option TerminalState)
    (nativeService : Option ℕ) (hflow : Flow pushed final a c xs m k) (hbehind : k.Behind r)
    (hrevision : r.terminalRevision = k.terminalRevision)
    (hwithin : Within m r) (hm : m ≤ head) (hle : sent.sentThroughByte ≤ head)
    (hsent : Boundary pushed sent.sentThroughByte) (hhead : Boundary pushed head)
    (hobservation : lostObservation c r = false) :
    ∃ frames sent' recovery,
      recoverLaggedDelivery ⟨terminal,head,nativeService⟩ c r sent = (frames,sent',recovery) ∧
      follow afterByte (max sent.sentThroughByte a) (frames.map (liveFrame pushed)) =
        some (max sent'.sentThroughByte m) ∧
      Boundary pushed sent'.sentThroughByte ∧ sent'.sentThroughByte ≤ head ∧
      (frames.map (liveFrame pushed)).any Frame.isTerminal = false ∧
      (recovery = .proceed ∨ ∃ event, recovery = .terminal event ∧ event.isTerminal = true ∧
        ∃ f ∈ final, f ≤ m) := by
  obtain ⟨frames,sent',hgap,hfollow,hboundary,hle',hquiet⟩ :=
    gap_standing afterByte terminal nativeService hflow hbehind hwithin hm hle hsent hhead
  unfold recoverLaggedDelivery
  rw [if_neg (by simp [hobservation])]
  simp only [hgap]
  cases hservice : lagService ⟨terminal,head,nativeService⟩ c r sent' with
  | none =>
    exact ⟨frames,sent',_,rfl,hfollow,hboundary,hle',hquiet,
      recovery_end hflow hrevision terminal⟩
  | some revision =>
    refine ⟨frames ++ [.serviceChanged revision],{ sent' with sentServiceRevision := revision },
      _,rfl,?_,hboundary,hle',?_,recovery_end hflow hrevision terminal⟩
    · rw [List.map_append,follow_append,hfollow]
      rfl
    · rw [List.map_append,List.any_append,hquiet]
      rfl

/-- A recovery that lost an observation says so and ends the view. -/
theorem recover_observation (hlost : lostObservation c r = true) (sent : Fences)
    (terminal : Option TerminalState) (nativeService : Option ℕ) (head : ℕ) :
    ∃ recovery, recoverLaggedDelivery ⟨terminal,head,nativeService⟩ c r sent =
        ([.observationDiscontinuity],sent,recovery) ∧
      (recovery = .close ∨ ∃ state, recovery = .terminal (terminalEvent state)) := by
  unfold recoverLaggedDelivery
  rw [if_pos hlost]
  cases terminal with
  | none => exact ⟨_,rfl,.inl rfl⟩
  | some state => exact ⟨_,rfl,.inr ⟨state,rfl⟩⟩

end Recover

section Handle

variable {client : Client} {lost : List Publication} {head : ℕ}
  (htiles : Tiles OutputChunk.startByte OutputChunk.endByte base pushed latest)
  (hphase : client.phase = .streaming)
include htiles hphase

/-- The tail of the loop body behind frames that account for everything before. -/
theorem accept_standing {start : ℕ} (hsent : Boundary pushed client.sent.sentThroughByte)
    (hle : client.sent.sentThroughByte ≤ latest) (hx : Published pushed final m k x)
    (hfunded : x.envelope.published ≠ .snapshotNeeded)
    (hfollow : follow afterByte start fs = some (max client.sent.sentThroughByte m))
    (hquiet : fs.any Frame.isTerminal = false) (busy : Bool) :
    ∃ cursor, follow afterByte start
        (fs ++ (client.accept x.envelope busy).2.map (liveFrame pushed)) = some cursor ∧
      Standing pushed final latest (position m x.event) (client.accept x.envelope busy).1 cursor
        (fs ++ (client.accept x.envelope busy).2.map (liveFrame pushed)) := by
  unfold Client.accept
  cases hevent : x.envelope.event with
  | none =>
    unfold LiveRunEvent.event at hevent
    split at hevent
    · cases hevent
    · cases hevent
    · cases hevent
    · rename_i hneeded
      exact absurd hneeded hfunded
  | some event =>
    have hclient : ({ client with liveCursor := x.envelope.after } : Client).phase = .streaming :=
      hphase
    obtain ⟨cursor,hcursor,hstanding⟩ :=
      deliver_standing htiles hclient hsent hle afterByte hx hevent busy
    refine ⟨cursor,?_,hstanding.after hquiet⟩
    rw [follow_append,hfollow]
    exact hcursor

omit htiles hphase in
/-- Up to its boundary, a recovery has skipped the publications before the envelope, and the
envelope too if nothing is left of it. -/
theorem boundary_flow (hflow : Flow pushed final a c lost m k) (hx : Published pushed final m k x)
    (hwithin : Within a c) :
    ∃ ys m' k', Flow pushed final a c ys m' k' ∧ k'.Behind (retainedBoundary x.envelope) ∧
      (retainedBoundary x.envelope).terminalRevision = k'.terminalRevision ∧
      Within m' (retainedBoundary x.envelope) ∧ m' ≤ position m x.event ∧
      (x.envelope.published ≠ .snapshotNeeded → m' = m ∧ k' = k) ∧
      (x.envelope.published = .snapshotNeeded → m' = position m x.event) := by
  by_cases hneeded : x.envelope.published = .snapshotNeeded
  · have hconcat := hflow.concat hx
    have hsame : retainedBoundary x.envelope = x.envelope.after := if_pos hneeded
    rw [hsame]
    exact ⟨_,_,_,hconcat,.refl _,rfl,hconcat.within hwithin,le_rfl,
      fun hne => absurd hneeded hne,fun _ => rfl⟩
  · have hsame : retainedBoundary x.envelope = x.envelope.before := if_neg hneeded
    have hrevision : x.envelope.before.terminalRevision = k.terminalRevision := by
      rcases hx.carried.before with heq | heq <;> rw [heq]
      rfl
    rw [hsame]
    exact ⟨_,_,_,hflow,hx.carried.behind_before,hrevision,
      hx.carried.within_before (hflow.within hwithin),hx.le_position,fun _ => ⟨rfl,rfl⟩,
      fun heq => absurd heq hneeded⟩

/-- The loop body keeps the client where it has to stand. -/
theorem handle_standing (hsent : Boundary pushed client.sent.sentThroughByte)
    (hle : client.sent.sentThroughByte ≤ head) (hhead : Boundary pushed head)
    (hlatest : head ≤ latest) (hflow : Flow pushed final a client.liveCursor lost m k)
    (hx : Published pushed final m k x) (hlost : client.receiverLagged = false → lost = [])
    (hwithin : Within a client.liveCursor) (hreach : position m x.event ≤ head)
    (afterByte n : ℕ) (terminal : Option TerminalState) (nativeService : Option ℕ) (busy : Bool) :
    ∃ cursor, follow afterByte (max client.sent.sentThroughByte a)
        ((client.handle x.envelope n ⟨terminal,head,nativeService⟩ busy).2.map (liveFrame pushed)) =
          some cursor ∧
      Standing pushed final latest (position m x.event)
        (client.handle x.envelope n ⟨terminal,head,nativeService⟩ busy).1 cursor
        ((client.handle x.envelope n ⟨terminal,head,nativeService⟩ busy).2.map
          (liveFrame pushed)) := by
  unfold Client.handle
  by_cases hlagged : (client.receiverLagged ||
      decide (x.envelope.published = .snapshotNeeded)) = true
  · obtain ⟨ys,m',k',hys,hbehind,hrevision,hwithin',hm',hplain,hneeded⟩ :=
      boundary_flow hflow hx hwithin
    simp only [if_pos hlagged]
    cases hobservation : lostObservation client.liveCursor (retainedBoundary x.envelope) with
    | true =>
      obtain ⟨recovery,hrecover,hend⟩ := recover_observation hobservation client.sent terminal
        nativeService head
      rw [hrecover]
      rcases hend with rfl | ⟨state,rfl⟩
      · exact ⟨_,rfl,rfl⟩
      · have hterminal : (terminalEvent state).isTerminal = true := by cases state <;> rfl
        rw [List.map_append]
        exact standing_end rfl rfl (.inr rfl) hterminal busy
    | false =>
      obtain ⟨frames,sent',recovery,hrecover,hfollow,hboundary,hle',hquiet,hend⟩ :=
        recover_standing afterByte terminal nativeService hys hbehind hrevision hwithin'
          (hm'.trans hreach) hle hsent hhead hobservation
      rw [hrecover]
      rcases hend with rfl | ⟨event,rfl,hterminal,f,hf,hle''⟩
      · simp only [List.map_append]
        by_cases hfunded : x.envelope.published = .snapshotNeeded
        · have hnone : x.envelope.event = none := by rw [LiveRunEvent.event,hfunded]
          simp only [Client.accept,hnone,List.map_nil,List.append_nil]
          refine ⟨_,hfollow,?_⟩
          rw [Standing]
          simp only [hphase]
          exact ⟨by rw [hneeded hfunded],hboundary,hle'.trans hlatest,hquiet⟩
        · obtain ⟨rfl,rfl⟩ := hplain hfunded
          exact accept_standing htiles (by exact hphase) hboundary (hle'.trans hlatest) hx hfunded
            hfollow hquiet busy
      · simp only [List.map_append]
        exact standing_end hfollow hquiet (.inl ⟨f,hf,hle''.trans (le_max_right _ _)⟩) hterminal busy
  · simp only [if_neg hlagged]
    simp only [Bool.or_eq_true,decide_eq_true_eq,not_or,Bool.not_eq_true] at hlagged
    have hnil := hlost hlagged.1
    subst hnil
    obtain ⟨rfl,rfl⟩ := hflow
    have hfunded : x.envelope.published ≠ .snapshotNeeded := hlagged.2
    have hclient : ({ client with passed := n+1 } : Client).phase = .streaming := hphase
    have hstart : follow afterByte (max client.sent.sentThroughByte a) [] =
        some (max client.sent.sentThroughByte a) := rfl
    exact accept_standing htiles hclient hsent (hle.trans hlatest) hx hfunded hstart rfl busy

end Handle

/-- What delivering leaves alone. -/
structure Client.Kept (client client' : Client) : Prop where
  reader : client'.reader = client.reader
  passed : client'.passed = client.passed
  receiverLagged : client'.receiverLagged = client.receiverLagged
  liveCursor : client'.liveCursor = client.liveCursor

theorem endWith_kept (client : Client) (event : RunEvent) (busy : Bool) :
    Client.Kept client (client.endWith event busy).1 ∧
      (client.endWith event busy).1.phase ≠ .streaming := by
  cases busy <;> exact ⟨⟨rfl,rfl,rfl,rfl⟩,by simp [Client.endWith]⟩

theorem deliver_kept (client : Client) (event : RunEvent) (busy : Bool) :
    Client.Kept client (client.deliver event busy).1 := by
  unfold Client.deliver
  cases event with
  | exited => exact (endWith_kept client _ busy).1
  | interrupted => exact (endWith_kept client _ busy).1
  | output endByte => dsimp only; split <;> exact ⟨rfl,rfl,rfl,rfl⟩
  | resized size through revision => dsimp only; split <;> exact ⟨rfl,rfl,rfl,rfl⟩
  | serviceChanged revision => dsimp only; split <;> exact ⟨rfl,rfl,rfl,rfl⟩
  | _ => exact ⟨rfl,rfl,rfl,rfl⟩

theorem accept_fields (client : Client) (envelope : LiveRunEvent) (busy : Bool) :
    Client.Kept { client with liveCursor := envelope.after } (client.accept envelope busy).1 := by
  unfold Client.accept
  cases envelope.event with
  | none => exact ⟨rfl,rfl,rfl,rfl⟩
  | some event => exact deliver_kept _ event busy

theorem handle_fields (client : Client) (envelope : LiveRunEvent) (n : ℕ)
    (authoritative : Attachment.Authoritative) (busy : Bool) :
    (client.handle envelope n authoritative busy).1.reader = client.reader ∧
      (client.handle envelope n authoritative busy).1.passed = n+1 ∧
      (client.handle envelope n authoritative busy).1.receiverLagged = false ∧
      ((client.handle envelope n authoritative busy).1.phase = .streaming →
        (client.handle envelope n authoritative busy).1.liveCursor = envelope.after) := by
  unfold Client.handle
  by_cases hlagged : (client.receiverLagged ||
      decide (envelope.published = .snapshotNeeded)) = true
  · simp only [if_pos hlagged]
    obtain ⟨frames,sent,recovery⟩ := recoverLaggedDelivery authoritative client.liveCursor
      (retainedBoundary envelope) client.sent
    cases recovery with
    | close => exact ⟨rfl,rfl,rfl,by simp⟩
    | terminal event =>
      obtain ⟨hkept,hphase⟩ := endWith_kept
        { client with passed := n+1, receiverLagged := false, sent := sent } event busy
      exact ⟨hkept.reader,hkept.passed,hkept.receiverLagged,fun h => absurd h hphase⟩
    | proceed =>
      have hkept := accept_fields
        { client with passed := n+1, receiverLagged := false, sent := sent } envelope busy
      exact ⟨hkept.reader,hkept.passed,hkept.receiverLagged,fun _ => hkept.liveCursor⟩
  · simp only [if_neg hlagged]
    have hkept := accept_fields { client with passed := n+1 } envelope busy
    have hfalse : client.receiverLagged = false := by
      simp only [Bool.or_eq_true,not_or,Bool.not_eq_true] at hlagged
      exact hlagged.1
    exact ⟨hkept.reader,hkept.passed,hkept.receiverLagged.trans hfalse,fun _ => hkept.liveCursor⟩

end Viewer
end Ctxmux
