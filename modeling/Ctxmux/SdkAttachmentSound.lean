import Ctxmux.SdkAttachmentSpec

/-!
# The accounts of an SDK view

The charged bytes are the sums over what is retained and stay within the budgets. A call
waits only on an empty view that has not come to its end.
-/

namespace Ctxmux
namespace SdkView

open Attachment (OutputGapCauses)
open Durable (Byte OutputChunk)

variable {Body : Type} {p : ViewResources Body} {v : View Body}

/-- No event can follow: the stream has failed, is lost or has ended. -/
def View.settled (v : View Body) : Bool :=
  v.eventError.isSome || v.viewError.isSome || v.eventStreamEnded || v.closed

structure View.Sound (p : ViewResources Body) (v : View Body) : Prop where
  payload : v.queuedEventBytes = ((v.retained.map QueuedEvent.bytes).sum : ℕ)
  envelope : v.queuedEnvelopeBytes = ((v.retained.map QueuedEvent.envelopeBytes).sum : ℕ)
  payload_le : v.queuedEventBytes ≤ p.payloadBytes
  envelope_le : v.queuedEnvelopeBytes ≤ p.envelopeBytes
  queued : ∀ q ∈ v.events.toList, q.event.isTerminal = false
  last : ∀ q, v.events.toList.getLast? = some q → q.event.isGap = false
  spaced : v.events.toList.IsChain fun a b => ¬(a.event.isGap = true ∧ b.event.isGap = true)
  terminal : ∀ q, v.terminalEvent = some q →
    q.event.isTerminal = true ∧ v.terminalSeen = true ∧ v.viewError = none
  waiting : v.eventWaiter = true → v.retained = [] ∧ v.settled = false
  ended : v.eventStreamEnded = true → v.terminalSeen = true ∧ v.retained = [] ∧ v.viewError = none
  failed : v.closed = v.eventError.isSome

theorem View.sound_new (p : ViewResources Body) (chunks : List OutputChunk)
    (requestedAfterByte : ℕ) : (View.new chunks requestedAfterByte : View Body).Sound p where
  payload := by simp [View.new,View.retained]
  envelope := by simp [View.new,View.retained]
  payload_le := by simp [View.new]
  envelope_le := by simp [View.new]
  queued := by simp [View.new]
  last := by simp [View.new]
  spaced := by simp [View.new]
  terminal := by simp [View.new]
  waiting := by simp [View.new]
  ended := by simp [View.new]
  failed := rfl

/-- The cursors of a view. -/
structure Cursor where
  deliveredThroughByte : Option ℕ
  recoveryAfterByte : ℕ
  continuityLost : Bool

def View.cursor (v : View Body) : Cursor :=
  ⟨v.deliveredThroughByte,v.recoveryAfterByte,v.continuityLost⟩

def Cursor.advance (c : Cursor) (event : AttachmentEvent Body) : Cursor :=
  match event with
  | .plain (.output chunk) =>
    if c.continuityLost then c
    else if c.recoveryAfterByte < chunk.startByte then { c with continuityLost := true }
    else
      { c with
        deliveredThroughByte := some (max (c.deliveredThroughByte.getD 0) chunk.endByte)
        recoveryAfterByte := max c.recoveryAfterByte chunk.endByte }
  | .plain _ => c
  | .gap _ => { c with continuityLost := true }

namespace View

theorem advanceCursors_eq (v : View Body) (event : AttachmentEvent Body) :
    v.advanceCursors event =
      { v with
        deliveredThroughByte := (v.cursor.advance event).deliveredThroughByte
        recoveryAfterByte := (v.cursor.advance event).recoveryAfterByte
        continuityLost := (v.cursor.advance event).continuityLost } := by
  unfold advanceCursors Cursor.advance View.cursor
  cases event with
  | gap event => rfl
  | plain event =>
    cases event with
    | output chunk =>
      dsimp only
      split
      · rfl
      · split <;> rfl
    | exited body => rfl
    | interrupted body => rfl
    | observationDiscontinuity => rfl
    | sessionRenamed name => rfl
    | other body => rfl

theorem Sound.advanceCursors (h : v.Sound p) (event : AttachmentEvent Body) :
    (v.advanceCursors event).Sound p := by
  rw [advanceCursors_eq]
  exact ⟨h.payload,h.envelope,h.payload_le,h.envelope_le,h.queued,h.last,h.spaced,h.terminal,
    h.waiting,h.ended,h.failed⟩

theorem finishEvents_error (h : v.eventError.isSome = true ∨ v.viewError.isSome = true) :
    v.finishEvents.1 = { v with eventWaiter := v.finishEvents.1.eventWaiter } := by
  unfold finishEvents
  have herror : (v.eventError.or (v.viewError.map StreamError.unavailable)).isNone = false := by
    cases hevent : v.eventError with
    | some error => rfl
    | none =>
      cases hview : v.viewError with
      | some error => rfl
      | none => simp [hevent,hview] at h
  dsimp only
  rw [herror,Bool.or_false]

theorem finishEvents_waiter (hwaiting : v.eventWaiter = true → v.retained = []) :
    v.finishEvents.1.eventWaiter = false ∧
      v.finishEvents.2 = if v.eventWaiter then
        some ((v.eventError.or (v.viewError.map .unavailable)).elim .ended .failed) else none := by
  unfold finishEvents
  cases hwaiter : v.eventWaiter with
  | false => simp
  | true =>
    have hempty := hwaiting hwaiter
    simp only [retained,List.append_eq_nil_iff,Option.toList_eq_nil_iff,Option.map_eq_none_iff] at hempty
    obtain ⟨⟨hevents,hgap⟩,hterminal⟩ := hempty
    have hqueue : v.queueEmpty = true := (ArrayQueue.isEmpty_iff _).mpr hevents
    simp [hqueue,hgap,hterminal]

theorem handsOver_iff : v.handsOver = true ↔
    v.events.toList = [] ∧ v.pendingOutputGap = none ∧ v.eventWaiter = true := by
  unfold handsOver queueEmpty
  rw [Bool.and_eq_true,Bool.and_eq_true,ArrayQueue.isEmpty_iff,Option.isNone_iff_eq_none,and_assoc]

/-- In a sound view an event is handed over exactly when a call waits. -/
theorem Sound.handsOver (h : v.Sound p) : v.handsOver = v.eventWaiter := by
  cases hwaiter : v.eventWaiter with
  | false =>
    unfold View.handsOver
    rw [hwaiter,Bool.and_false]
  | true =>
    have hempty := (h.waiting hwaiter).1
    simp only [retained,List.append_eq_nil_iff,Option.toList_eq_nil_iff,Option.map_eq_none_iff] at hempty
    exact handsOver_iff.mpr ⟨hempty.1.1,hempty.1.2,hwaiter⟩

variable {q : QueuedEvent Body} {rest : List (QueuedEvent Body)}

theorem Sound.released (h : v.Sound p) (hretained : v.retained = q::rest) :
    v.queuedEventBytes-q.bytes = ((rest.map QueuedEvent.bytes).sum : ℕ) ∧
      v.queuedEnvelopeBytes-q.envelopeBytes = ((rest.map QueuedEvent.envelopeBytes).sum : ℕ) ∧
      v.queuedEventBytes-q.bytes ≤ p.payloadBytes ∧
      v.queuedEnvelopeBytes-q.envelopeBytes ≤ p.envelopeBytes := by
  have hpayload := h.payload
  have henvelope := h.envelope
  have hle := h.payload_le
  have hle' := h.envelope_le
  rw [hretained] at hpayload henvelope
  simp only [List.map_cons,List.sum_cons,Nat.cast_add] at hpayload henvelope
  omega

theorem Sound.waiter_false (h : v.Sound p) (hretained : v.retained = q::rest) :
    v.eventWaiter = false ∧ v.eventStreamEnded = false := by
  constructor
  · by_contra hwaiter
    have hempty := (h.waiting (Bool.not_eq_false _ ▸ hwaiter)).1
    rw [hretained] at hempty
    cases hempty
  · by_contra hended
    have hempty := (h.ended (Bool.not_eq_false _ ▸ hended)).2.1
    rw [hretained] at hempty
    cases hempty

/-- What a call that takes the first event leaves behind. -/
structure Taken (p : ViewResources Body) (v : View Body) (q : QueuedEvent Body)
    (rest : List (QueuedEvent Body)) (v' : View Body) : Prop where
  sound : v'.Sound p
  retained : v'.retained = rest
  cursor : v'.cursor = v.cursor.advance q.event
  viewError : v'.viewError = v.viewError
  closed : v'.closed = v.closed
  ended : v'.eventStreamEnded = q.event.isTerminal
  last : q.event.isTerminal = true → rest = []

theorem cursor_advanceCursors (v : View Body) (event : AttachmentEvent Body) :
    (v.advanceCursors event).cursor = v.cursor.advance event := by
  rw [advanceCursors_eq]
  rfl

/-- A view from which the first event was released, and its delivery. -/
theorem taken_of_released {v₁ : View Body} (h₁ : v₁.Sound p) (hretained : v₁.retained = rest)
    (hcursor : v₁.cursor = v.cursor) (hview : v₁.viewError = v.viewError)
    (hclosed : v₁.closed = v.closed) (hended : v₁.eventStreamEnded = q.event.isTerminal)
    (hlast : q.event.isTerminal = true → rest = []) :
    Taken p v q rest (v₁.advanceCursors q.event) where
  sound := h₁.advanceCursors q.event
  retained := by
    rw [advanceCursors_eq]
    exact hretained
  cursor := by rw [cursor_advanceCursors,hcursor]
  viewError := by
    rw [advanceCursors_eq]
    exact hview
  closed := by
    rw [advanceCursors_eq]
    exact hclosed
  ended := by
    rw [advanceCursors_eq]
    exact hended
  last := hlast

/-- What a call that takes the first event answers. -/
def TakesFirst (p : ViewResources Body) (v : View Body) (q : QueuedEvent Body)
    (rest : List (QueuedEvent Body)) (now : ℕ) : Prop :=
  ∃ v', v.nextEvent now = (v',some (.delivered (v'.presented now q.event))) ∧ Taken p v q rest v'

theorem Sound.takes_queued (h : v.Sound p) {first : QueuedEvent Body}
    {events : List (QueuedEvent Body)} (hretained : v.retained = q::rest)
    (hqueue : v.events.toList = first::events) (now : ℕ) : v.TakesFirst p q rest now := by
  obtain ⟨hpayload,henvelope,hle,hle'⟩ := h.released hretained
  obtain ⟨hwaiter,hended⟩ := h.waiter_false hretained
  obtain ⟨events',hshift,hevents⟩ := ArrayQueue.shift?_cons hqueue
  have hsplit : first = q ∧
      events ++ (v.pendingOutputGap.map QueuedGap.queued).toList ++ v.terminalEvent.toList = rest := by
    have hparts := hretained
    simp only [View.retained,hqueue,List.cons_append,List.cons.injEq] at hparts
    exact hparts
  obtain ⟨rfl,hrest⟩ := hsplit
  have hplain := h.queued first (by rw [hqueue]; exact List.mem_cons_self)
  have hsound : (releaseEvent { v with events := events' } first).Sound p := {
    payload := by simp only [releaseEvent,View.retained,hevents,hrest,hpayload]
    envelope := by simp only [releaseEvent,View.retained,hevents,hrest,henvelope]
    payload_le := hle
    envelope_le := hle'
    queued := by
      intro other hother
      simp only [releaseEvent,hevents] at hother
      exact h.queued other (by rw [hqueue]; exact List.mem_cons_of_mem _ hother)
    last := by
      intro other hother
      simp only [releaseEvent,hevents] at hother
      refine h.last other ?_
      rw [hqueue,List.getLast?_cons,hother]
      rfl
    spaced := by
      have hspaced := h.spaced
      rw [hqueue] at hspaced
      simp only [releaseEvent,hevents]
      exact hspaced.tail
    terminal := h.terminal
    waiting := fun hwait => absurd (hwaiter.symm.trans hwait) (by simp)
    ended := fun hend => absurd (hended.symm.trans hend) (by simp)
    failed := h.failed }
  refine ⟨(releaseEvent { v with events := events' } first).advanceCursors first.event,?_,?_⟩
  · unfold nextEvent
    rw [hshift]
    rfl
  · refine taken_of_released hsound ?_ rfl rfl rfl (hended.trans hplain.symm) ?_
    · simp only [releaseEvent,View.retained,hevents,hrest]
    · intro hterminal
      exact absurd (hplain.symm.trans hterminal) (by simp)

theorem Sound.takes_gap (h : v.Sound p) (hretained : v.retained = q::rest)
    (hqueue : v.events.toList = []) {gap : QueuedGap} (hgap : v.pendingOutputGap = some gap)
    (now : ℕ) : v.TakesFirst p q rest now := by
  obtain ⟨hpayload,henvelope,hle,hle'⟩ := h.released hretained
  obtain ⟨hwaiter,hended⟩ := h.waiter_false hretained
  have hsplit : gap.queued = q ∧ v.terminalEvent.toList = rest := by
    have hparts := hretained
    simp only [View.retained,hqueue,hgap,List.nil_append,Option.map_some,Option.toList_some,
      List.cons_append,List.cons.injEq] at hparts
    exact hparts
  obtain ⟨rfl,hrest⟩ := hsplit
  have hsound : (releaseEvent { v with pendingOutputGap := none } gap.queued).Sound p := {
    payload := by simpa only [releaseEvent,View.retained,hqueue,List.nil_append,Option.map_none,
      Option.toList_none,hrest] using hpayload
    envelope := by simpa only [releaseEvent,View.retained,hqueue,List.nil_append,Option.map_none,
      Option.toList_none,hrest] using henvelope
    payload_le := hle
    envelope_le := hle'
    queued := h.queued
    last := h.last
    spaced := h.spaced
    terminal := h.terminal
    waiting := fun hwait => absurd (hwaiter.symm.trans hwait) (by simp)
    ended := fun hend => absurd (hended.symm.trans hend) (by simp)
    failed := h.failed }
  refine ⟨(releaseEvent { v with pendingOutputGap := none } gap.queued).advanceCursors
    (.gap gap.event),?_,?_⟩
  · unfold nextEvent
    rw [ArrayQueue.shift?_nil hqueue,hgap]
    rfl
  · refine taken_of_released hsound ?_ rfl rfl rfl hended nofun
    simp only [releaseEvent,View.retained,hqueue,List.nil_append,Option.map_none,
      Option.toList_none,hrest]

theorem Sound.takes_terminal (h : v.Sound p) (hretained : v.retained = q::rest)
    (hqueue : v.events.toList = []) (hgap : v.pendingOutputGap = none) (now : ℕ) :
    v.TakesFirst p q rest now := by
  obtain ⟨hpayload,henvelope,hle,hle'⟩ := h.released hretained
  obtain ⟨hwaiter,_⟩ := h.waiter_false hretained
  cases hterminal : v.terminalEvent with
  | none => simp [View.retained,hqueue,hgap,hterminal] at hretained
  | some terminal =>
    have hsplit : terminal = q ∧ [] = rest := by
      have hparts := hretained
      simp only [View.retained,hqueue,hgap,hterminal,List.nil_append,Option.map_none,
        Option.toList_none,Option.toList_some,List.cons.injEq] at hparts
      exact hparts
    obtain ⟨rfl,rfl⟩ := hsplit
    obtain ⟨hisTerminal,hseen,hview⟩ := h.terminal terminal hterminal
    have hsound : (releaseEvent { v with terminalEvent := none, eventStreamEnded := true }
        terminal).Sound p := {
      payload := by simpa only [releaseEvent,View.retained,hqueue,hgap,List.nil_append,
        Option.map_none,Option.toList_none] using hpayload
      envelope := by simpa only [releaseEvent,View.retained,hqueue,hgap,List.nil_append,
        Option.map_none,Option.toList_none] using henvelope
      payload_le := hle
      envelope_le := hle'
      queued := h.queued
      last := h.last
      spaced := h.spaced
      terminal := by simp [releaseEvent]
      waiting := fun hwait => absurd (hwaiter.symm.trans hwait) (by simp)
      ended := fun _ => ⟨hseen,by simp [releaseEvent,View.retained,hqueue,hgap],hview⟩
      failed := h.failed }
    refine ⟨(releaseEvent { v with terminalEvent := none, eventStreamEnded := true }
      terminal).advanceCursors terminal.event,?_,?_⟩
    · unfold nextEvent
      rw [ArrayQueue.shift?_nil hqueue,hgap,hterminal]
      rfl
    · refine taken_of_released hsound ?_ rfl rfl rfl hisTerminal.symm fun _ => rfl
      simp [releaseEvent,View.retained,hqueue,hgap]

/-- A call on a view that retains an event takes the first one. -/
theorem Sound.nextEvent_taken (h : v.Sound p) (hretained : v.retained = q::rest) (now : ℕ) :
    v.TakesFirst p q rest now := by
  cases hqueue : v.events.toList with
  | cons first events => exact h.takes_queued hretained hqueue now
  | nil =>
    cases hgap : v.pendingOutputGap with
    | some gap => exact h.takes_gap hretained hqueue hgap now
    | none => exact h.takes_terminal hretained hqueue hgap now

end View
end SdkView
end Ctxmux
