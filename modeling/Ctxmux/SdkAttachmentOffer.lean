import Ctxmux.SdkAttachmentSound

/-!
# One event offered to an SDK view

An event that keeps the order is handed over to a waiting call, retained, merged into the
pending gap, or it ends the observation. After that every event is counted as lost.
-/

namespace Ctxmux
namespace SdkView

open Attachment (OutputGapCauses)
open Durable (Byte OutputChunk)
open Stretches (Presents)

variable {Body : Type} {p : ViewResources Body} {v : View Body}

namespace View

/-- The end of a stream, as a call finds it. -/
def endAnswer (v : View Body) : Answer Body :=
  (v.eventError.or (v.viewError.map .unavailable)).elim .ended .failed

theorem endAnswer_ended (v : View Body) (h : v.endAnswer = .ended) : v.viewError = none := by
  unfold endAnswer at h
  cases hevent : v.eventError with
  | some error => simp [hevent] at h
  | none =>
    cases hview : v.viewError with
    | some error => simp [hevent,hview] at h
    | none => rfl

theorem Sound.endAnswer_failed (h : v.Sound p) {path message : String}
    (hanswer : v.endAnswer = .failed (.invalidFrame path message)) : v.closed = true := by
  unfold endAnswer at hanswer
  rw [h.failed]
  cases hevent : v.eventError with
  | some error => rfl
  | none =>
    cases hview : v.viewError with
    | some error => simp [hevent,hview] at hanswer
    | none => simp [hevent,hview] at hanswer

theorem retained_eq_nil (h : v.retained = []) :
    v.events.toList = [] ∧ v.pendingOutputGap = none ∧ v.terminalEvent = none := by
  simp only [retained,List.append_eq_nil_iff,Option.toList_eq_nil_iff,Option.map_eq_none_iff] at h
  exact ⟨h.1.1,h.1.2,h.2⟩

/-- A call on an empty view finds the end, or it waits. -/
theorem nextEvent_empty (h : v.retained = []) (now : ℕ) :
    v.nextEvent now = if v.settled then (v,some v.endAnswer)
      else if v.eventWaiter then (v,some .busy) else ({ v with eventWaiter := true },none) := by
  obtain ⟨hevents,hgap,hterminal⟩ := retained_eq_nil h
  unfold nextEvent
  rw [ArrayQueue.shift?_nil hevents,hgap,hterminal]
  unfold settled endAnswer
  cases hevent : v.eventError with
  | some error => rfl
  | none =>
    cases hview : v.viewError with
    | some error => rfl
    | none => rfl

theorem Sound.waitFor (h : v.Sound p) (hempty : v.retained = []) (hsettled : v.settled = false) :
    Sound p { v with eventWaiter := true } :=
  ⟨h.payload,h.envelope,h.payload_le,h.envelope_le,h.queued,h.last,h.spaced,h.terminal,
    fun _ => ⟨hempty,hsettled⟩,h.ended,h.failed⟩

/-- What an event that keeps the order leaves of the fields that say how the stream
stands. -/
theorem Sound.noteEvent (h : v.Sound p) (event : RunEvent Body) : (v.noteEvent event).Sound p :=
  ⟨h.payload,h.envelope,h.payload_le,h.envelope_le,h.queued,h.last,h.spaced,
    fun q hq => ⟨(h.terminal q hq).1,by
      unfold View.noteEvent
      rw [(h.terminal q hq).2.1,Bool.true_or],(h.terminal q hq).2.2⟩,
    h.waiting,
    fun hended => ⟨by
      unfold View.noteEvent
      rw [(h.ended hended).1,Bool.true_or],(h.ended hended).2⟩,h.failed⟩

/-- The event is refused: the stream ends behind what is retained. -/
structure Refused (p : ViewResources Body) (v v' : View Body) (answer : Option (Answer Body)) :
    Prop where
  sound : v'.Sound p
  retained : v'.retained = v.retained
  cursor : v'.cursor = v.cursor
  viewError : v'.viewError = v.viewError
  ended : v'.eventStreamEnded = v.eventStreamEnded
  closed : v'.closed = true
  waited : v.eventWaiter = true → ∃ error, v'.eventError = some error ∧ answer = some (.failed error)
  answer : ∀ a, answer = some a → v.retained = [] ∧ ∃ path message,
    a = .failed (.invalidFrame path message)

theorem Sound.protocolViolation (h : v.Sound p) (hopen : v.closed = false) (message path : String) :
    Refused p v (v.protocolViolation message path).1 (v.protocolViolation message path).2 := by
  unfold View.protocolViolation
  rw [hopen,if_neg Bool.false_ne_true]
  have hwaiting : v.eventWaiter = true → v.retained = [] := fun hwait => (h.waiting hwait).1
  have hfields := finishEvents_error (v := { v with
    closed := true
    eventError := some (.invalidFrame path message) }) (.inl rfl)
  obtain ⟨hwaiter,hanswer⟩ := finishEvents_waiter (v := { v with
    closed := true
    eventError := some (.invalidFrame path message) }) hwaiting
  rw [hwaiter] at hfields
  rw [hfields,hanswer]
  exact {
    sound := ⟨h.payload,h.envelope,h.payload_le,h.envelope_le,h.queued,h.last,h.spaced,h.terminal,
      nofun,h.ended,rfl⟩
    retained := rfl
    cursor := rfl
    viewError := rfl
    ended := rfl
    closed := rfl
    answer := by
      intro a ha
      cases hwait : v.eventWaiter with
      | false => simp [hwait] at ha
      | true =>
        refine ⟨hwaiting hwait,path,message,?_⟩
        simp only [hwait,if_true,Option.some.injEq] at ha
        exact ha.symm
    waited := by
      intro hwait
      exact ⟨_,rfl,by simp [hwait]⟩ }

/-- The event is lost. -/
structure Lost (p : ViewResources Body) (v v' : View Body) (answer : Option (Answer Body)) :
    Prop where
  sound : v'.Sound p
  retained : v'.retained = v.retained
  cursor : v'.cursor = v.cursor
  viewError : v'.viewError.isSome = true
  ended : v'.eventStreamEnded = false
  closed : v'.closed = v.closed
  answer : answer = none

/-- A view on which no call waits and which has not ended loses its observation. -/
theorem Sound.loseObservation (h : v.Sound p) (hwaiter : v.eventWaiter = false)
    (hended : v.eventStreamEnded = false) (hterminal : v.terminalEvent = none)
    (event : RunEvent Body) (resource : Resource) :
    Lost p v (v.loseObservation event resource).1 (v.loseObservation event resource).2 := by
  unfold View.loseObservation
  dsimp only
  have hfields := finishEvents_error (v := { v with
    viewError := some ((v.viewError.getD
      { resource := resource
        retainedPayloadBytes := v.queuedEventBytes
        retainedEnvelopeBytes := v.queuedEnvelopeBytes
        lostEvents := 0
        lostOutputBytes := 0
        lossCountersSaturated := false }).recordDrop event) }) (.inr rfl)
  obtain ⟨hfinished,hanswer⟩ := finishEvents_waiter (v := { v with
    viewError := some ((v.viewError.getD
      { resource := resource
        retainedPayloadBytes := v.queuedEventBytes
        retainedEnvelopeBytes := v.queuedEnvelopeBytes
        lostEvents := 0
        lostOutputBytes := 0
        lossCountersSaturated := false }).recordDrop event) })
    (fun hwait => absurd (hwaiter.symm.trans hwait) (by simp))
  rw [hfinished] at hfields
  rw [hfields,hanswer]
  exact {
    sound := ⟨h.payload,h.envelope,h.payload_le,h.envelope_le,h.queued,h.last,h.spaced,
      fun q hq => absurd (hterminal.symm.trans hq) (by simp),nofun,
      fun hend => absurd (hended.symm.trans hend) (by simp),h.failed⟩
    retained := rfl
    cursor := rfl
    viewError := rfl
    ended := hended
    closed := rfl
    answer := by simp [hwaiter] }

/-- The event has a place behind what was retained. -/
structure Placed (p : ViewResources Body) (v : View Body) (a : Offered Body) (v' : View Body)
    (answer : Option (Answer Body)) : Prop where
  sound : v'.Sound p
  grows : ∀ received log, Presents Covers (received ++ v.shown) log →
    Presents Covers (received ++ v'.shown) (log ++ [a])
  cursor : v'.cursor = v.cursor
  viewError : v'.viewError = none
  ended : v'.eventStreamEnded = false
  closed : v'.closed = v.closed
  answer : answer = none

/-- A view that takes events: none of its ends has been reached and no call waits. -/
structure Filling (p : ViewResources Body) (v : View Body) : Prop where
  sound : v.Sound p
  waiter : v.eventWaiter = false
  ended : v.eventStreamEnded = false
  terminal : v.terminalEvent = none
  viewError : v.viewError = none

theorem Filling.retained (h : v.Filling p) :
    v.retained = v.events.toList ++ (v.pendingOutputGap.map QueuedGap.queued).toList := by
  unfold View.retained
  rw [h.terminal,Option.toList_none,List.append_nil]

theorem Filling.merged (h : v.Filling p) {now : ℕ} {dropped : Dropped} {a : Offered Body}
    (hfits : v.gapFits p now dropped = true) (hmergeable : a.mergeable = true)
    (hhead : a.head = dropped.latest) (hcauses : a.causes = dropped.causes) :
    Placed p v a (v.extendPendingOutputGap p now dropped).1
      (v.extendPendingOutputGap p now dropped).2 := by
  unfold View.gapFits at hfits
  unfold View.extendPendingOutputGap
  rw [decide_eq_true_eq] at hfits
  dsimp only at hfits ⊢
  rw [if_neg (not_lt.mpr hfits)]
  have hpayload := h.sound.payload
  have henvelope := h.sound.envelope
  have hle := h.sound.envelope_le
  rw [h.retained] at hpayload henvelope
  exact {
    sound := {
      payload := by
        simp only [View.retained,h.terminal,Option.map_some,Option.toList_some,Option.toList_none,
          List.append_nil,List.map_append,List.sum_append,List.map_cons,List.map_nil,
          List.sum_cons,List.sum_nil,QueuedGap.queued]
        rw [hpayload]
        cases v.pendingOutputGap <;> simp [QueuedGap.queued]
      envelope := by
        simp only [View.retained,h.terminal,Option.map_some,Option.toList_some,Option.toList_none,
          List.append_nil,List.map_append,List.sum_append,List.map_cons,List.map_nil,
          List.sum_cons,List.sum_nil,QueuedGap.queued]
        rw [henvelope]
        cases v.pendingOutputGap <;> simp [QueuedGap.queued]
      payload_le := h.sound.payload_le
      envelope_le := by
        simp only
        omega
      queued := h.sound.queued
      last := h.sound.last
      spaced := h.sound.spaced
      terminal := h.sound.terminal
      waiting := fun hwait => absurd (h.waiter.symm.trans hwait) (by simp)
      ended := fun hend => absurd (h.ended.symm.trans hend) (by simp)
      failed := h.sound.failed }
    grows := by
      intro received log hpresents
      simp only [View.shown,h.retained] at hpresents
      simp only [View.shown,View.retained,h.terminal,Option.map_some,Option.toList_some,
        Option.toList_none,List.append_nil,List.map_append,List.map_cons,List.map_nil,
        QueuedGap.queued]
      rw [← List.append_assoc]
      cases hgap : v.pendingOutputGap with
      | none =>
        simp only [hgap,Option.map_none,Option.toList_none,List.append_nil] at hpresents
        apply hpresents.snoc
        apply covers_gap_one hmergeable
        · simp [gapEvent,hhead]
        · simp [gapEvent,hcauses]
      | some gap =>
        simp only [hgap,Option.map_some,Option.toList_some,List.map_append,List.map_cons,
          List.map_nil,QueuedGap.queued] at hpresents
        rw [← List.append_assoc] at hpresents
        apply hpresents.extend
        intro front hfront
        apply hfront.merge hmergeable
        · simp [gapEvent,hhead]
        · simp [gapEvent,hcauses]
    cursor := rfl
    viewError := h.viewError
    ended := h.ended
    closed := rfl
    answer := rfl }

theorem Filling.unmerged (h : v.Filling p) {now : ℕ} {dropped : Dropped}
    (hfits : v.gapFits p now dropped = false) :
    Lost p v (v.extendPendingOutputGap p now dropped).1
      (v.extendPendingOutputGap p now dropped).2 := by
  unfold View.gapFits at hfits
  unfold View.extendPendingOutputGap
  rw [decide_eq_false_iff_not,not_le] at hfits
  dsimp only at hfits ⊢
  rw [if_pos hfits]
  exact h.sound.loseObservation h.waiter h.ended h.terminal _ _

theorem eventCapacity_iff {queued : QueuedEvent Body} : v.eventCapacity p queued = true ↔
    v.queuedEventBytes+queued.bytes ≤ p.payloadBytes ∧
      v.queuedEnvelopeBytes+queued.envelopeBytes ≤ p.envelopeBytes := by
  unfold eventCapacity
  rw [Bool.and_eq_true,decide_eq_true_eq,decide_eq_true_eq]
  omega

variable {event : PlainEvent Body}

theorem Filling.terminated (h : v.Filling p) (hseen : v.terminalSeen = true)
    (hterminal : event.isTerminal = true) (hfits : v.eventCapacity p (retainEvent p event) = true)
    (gapFits : Bool) :
    Placed p v ⟨.plain event,true,gapFits⟩
      (chargeEvent { v with terminalEvent := some (retainEvent p event) } (retainEvent p event))
      none := by
  obtain ⟨hpayload_le,henvelope_le⟩ := eventCapacity_iff.mp hfits
  have hpayload := h.sound.payload
  have henvelope := h.sound.envelope
  rw [h.retained] at hpayload henvelope
  exact {
    sound := {
      payload := by simp [chargeEvent,View.retained,hpayload,add_assoc]
      envelope := by simp [chargeEvent,View.retained,henvelope,add_assoc]
      payload_le := hpayload_le
      envelope_le := henvelope_le
      queued := h.sound.queued
      last := h.sound.last
      spaced := h.sound.spaced
      terminal := by
        intro q hq
        cases hq
        exact ⟨hterminal,hseen,h.viewError⟩
      waiting := fun hwait => absurd (h.waiter.symm.trans hwait) (by simp)
      ended := fun hend => absurd (h.ended.symm.trans hend) (by simp)
      failed := h.sound.failed }
    grows := by
      intro received log hpresents
      simp only [View.shown,h.retained] at hpresents
      have hshown : View.shown (chargeEvent { v with terminalEvent := some (retainEvent p event) }
          (retainEvent p event)) = (v.events.toList ++
            (v.pendingOutputGap.map QueuedGap.queued).toList).map QueuedEvent.event ++
              [.plain event] := by
        simp [View.shown,View.retained,chargeEvent,retainEvent]
      rw [hshown,← List.append_assoc]
      exact hpresents.snoc (.same event gapFits)
    cursor := rfl
    viewError := h.viewError
    ended := h.ended
    closed := rfl
    answer := rfl }

/-- Another event that fits goes to the queue, behind the pending gap. -/
theorem Filling.queued (h : v.Filling p) (hplain : event.isTerminal = false)
    (hfits : v.eventCapacity p (retainEvent p event) = true) (gapFits : Bool) :
    Placed p v ⟨.plain event,true,gapFits⟩
      (chargeEvent
        { v with
          events := (v.pendingOutputGap.elim v.events fun gap => v.events.push gap.queued).push
            (retainEvent p event)
          pendingOutputGap := none } (retainEvent p event))
      none := by
  obtain ⟨hpayload_le,henvelope_le⟩ := eventCapacity_iff.mp hfits
  have hpayload := h.sound.payload
  have henvelope := h.sound.envelope
  rw [h.retained] at hpayload henvelope
  have hevents : (v.pendingOutputGap.elim v.events fun gap => v.events.push gap.queued).toList =
      v.events.toList ++ (v.pendingOutputGap.map QueuedGap.queued).toList := by
    cases v.pendingOutputGap <;> simp
  exact {
    sound := {
      payload := by simp [chargeEvent,View.retained,h.terminal,hevents,hpayload,add_assoc]
      envelope := by simp [chargeEvent,View.retained,h.terminal,hevents,henvelope,add_assoc]
      payload_le := hpayload_le
      envelope_le := henvelope_le
      queued := by
        intro q hq
        simp only [chargeEvent,ArrayQueue.toList_push,hevents,List.mem_append,
          List.mem_singleton,Option.mem_toList,Option.map_eq_some_iff] at hq
        rcases hq with (hq | ⟨gap,_,rfl⟩) | rfl
        · exact h.sound.queued q hq
        · rfl
        · exact hplain
      last := by
        intro q hq
        simp only [chargeEvent,ArrayQueue.toList_push,List.getLast?_append,List.getLast?_singleton,
          Option.some_or,Option.some.injEq] at hq
        rw [← hq]
        rfl
      spaced := by
        simp only [chargeEvent,ArrayQueue.toList_push,hevents]
        apply List.IsChain.append
        · apply List.IsChain.append h.sound.spaced
          · cases v.pendingOutputGap with
            | none => exact .nil
            | some gap => exact .singleton _
          · intro q hq gap _ hgaps
            exact absurd ((h.sound.last q hq).symm.trans hgaps.1) (by simp)
        · exact .singleton _
        · intro q _ last hlast hgaps
          simp only [List.head?_cons,Option.mem_some_iff] at hlast
          rw [← hlast] at hgaps
          cases hgaps.2
      terminal := h.sound.terminal
      waiting := fun hwait => absurd (h.waiter.symm.trans hwait) (by simp)
      ended := fun hend => absurd (h.ended.symm.trans hend) (by simp)
      failed := h.sound.failed }
    grows := by
      intro received log hpresents
      simp only [View.shown,h.retained] at hpresents
      have hshown : View.shown (chargeEvent
          { v with
            events := (v.pendingOutputGap.elim v.events fun gap => v.events.push gap.queued).push
              (retainEvent p event)
            pendingOutputGap := none } (retainEvent p event)) = (v.events.toList ++
            (v.pendingOutputGap.map QueuedGap.queued).toList).map QueuedEvent.event ++
              [.plain event] := by
        simp [View.shown,View.retained,chargeEvent,retainEvent,h.terminal,hevents]
      rw [hshown,← List.append_assoc]
      exact hpresents.snoc (.same event gapFits)
    cursor := rfl
    viewError := h.viewError
    ended := h.ended
    closed := rfl
    answer := rfl }

/-- The event is handed to the call that waits. -/
structure Handed (p : ViewResources Body) (v : View Body) (now : ℕ) (a : Offered Body)
    (v' : View Body) (answer : Option (Answer Body)) : Prop where
  sound : v'.Sound p
  before : v.retained = []
  retained : v'.retained = []
  delivered : ∃ event, answer = some (.delivered (v'.presented now event)) ∧
    v'.cursor = v.cursor.advance event ∧ event.isTerminal = a.event.isTerminal ∧ Covers event [a]
  viewError : v'.viewError = none
  ended : v'.eventStreamEnded = a.event.isTerminal
  closed : v'.closed = v.closed

theorem Sound.handOver (h : v.Sound p) (hwait : v.eventWaiter = true) (hview : v.viewError = none)
    {event : RunEvent Body} (hseen : event.isTerminal = true → v.terminalSeen = true)
    (now : ℕ) (gapFits : Bool) :
    Handed p v now ⟨event,true,gapFits⟩ (v.handOver p now event).1 (v.handOver p now event).2 := by
  obtain ⟨hempty,hsettled⟩ := h.waiting hwait
  have hended : v.eventStreamEnded = false := by
    simp only [settled,Bool.or_eq_false_iff] at hsettled
    exact hsettled.1.2
  unfold View.handOver deliverEvent
  simp only [hended,Bool.false_or]
  have hsound : Sound p { v with eventWaiter := false, eventStreamEnded := event.isTerminal } :=
    ⟨h.payload,h.envelope,h.payload_le,h.envelope_le,h.queued,h.last,h.spaced,h.terminal,nofun,
      fun hterminal => ⟨hseen hterminal,hempty,hview⟩,h.failed⟩
  exact {
    sound := hsound.advanceCursors _
    before := hempty
    retained := by
      rw [advanceCursors_eq]
      exact hempty
    delivered := by
      refine ⟨_,rfl,cursor_advanceCursors _ _,?_,?_⟩
      · cases event <;> rfl
      · cases event with
        | plain event => exact .same event gapFits
        | gap latestOutputBytes causes => exact covers_gap_one rfl rfl rfl
    viewError := by
      rw [advanceCursors_eq]
      exact hview
    ended := by
      rw [advanceCursors_eq]
    closed := by
      rw [advanceCursors_eq] }

theorem eventOrder_eq_none {event : RunEvent Body} (h : v.eventOrder event = none) :
    v.terminalSeen = false ∧ (event.isTerminal = true ∨ v.observationDiscontinuitySeen = false) := by
  unfold eventOrder at h
  split at h
  · cases h
  · rename_i hseen
    split at h
    · cases h
    · rename_i hdiscontinuity
      simp only [Bool.and_eq_true,Bool.not_eq_true',not_and,Bool.not_eq_true] at hdiscontinuity
      refine ⟨by simpa using hseen,?_⟩
      cases hterminal : event.isTerminal with
      | true => exact .inl rfl
      | false => exact .inr (hdiscontinuity hterminal)

theorem Filling.offerPlain (h : v.Filling p) (now : ℕ)
    (hseen : event.isTerminal = true → v.terminalSeen = true) :
    ((v.offeredPlain p now event).placed = true ∧ Placed p v (v.offeredPlain p now event)
        (v.offerPlain p now event).1 (v.offerPlain p now event).2) ∨
      ((v.offeredPlain p now event).placed = false ∧
        Lost p v (v.offerPlain p now event).1 (v.offerPlain p now event).2) := by
  unfold View.offerPlain View.offeredPlain Offered.placed Offered.mergeable
  cases hfits : v.eventCapacity p (retainEvent p event) with
  | true =>
    left
    simp only [hfits,Bool.not_true,Bool.false_eq_true,if_false,Bool.true_or,true_and]
    cases hterminal : event.isTerminal with
    | true => exact h.terminated (hseen hterminal) hterminal hfits _
    | false => exact h.queued hterminal hfits _
  | false =>
    simp only [hfits,Bool.not_false,if_true,Bool.false_or]
    cases event with
    | output chunk =>
      cases hgap : v.gapFits p now (.output chunk) with
      | true => exact .inl ⟨hgap,h.merged hgap rfl rfl rfl⟩
      | false => exact .inr ⟨hgap,h.unmerged hgap⟩
    | exited body => exact .inr ⟨rfl,h.sound.loseObservation h.waiter h.ended h.terminal _ _⟩
    | interrupted body => exact .inr ⟨rfl,h.sound.loseObservation h.waiter h.ended h.terminal _ _⟩
    | observationDiscontinuity =>
      exact .inr ⟨rfl,h.sound.loseObservation h.waiter h.ended h.terminal _ _⟩
    | sessionRenamed name =>
      exact .inr ⟨rfl,h.sound.loseObservation h.waiter h.ended h.terminal _ _⟩
    | other body => exact .inr ⟨rfl,h.sound.loseObservation h.waiter h.ended h.terminal _ _⟩

/-- What one offered event comes to. -/
inductive Outcome (p : ViewResources Body) (v : View Body) (now : ℕ) (event : RunEvent Body)
    (v' : View Body) (answer : Option (Answer Body)) : Prop
  | refused (order : (v.eventOrder event).isSome = true) (result : Refused p v v' answer)
  | lost (order : v.eventOrder event = none) (idle : v.eventWaiter = false)
      (reason : v.viewError.isSome = true ∨ (v.offered p now event).placed = false)
      (result : Lost p v v' answer)
  | placed (order : v.eventOrder event = none) (idle : v.eventWaiter = false)
      (available : v.viewError = none) (place : (v.offered p now event).placed = true)
      (result : Placed p v (v.offered p now event) v' answer)
  | handed (order : v.eventOrder event = none) (available : v.viewError = none)
      (place : (v.offered p now event).placed = true)
      (result : Handed p v now (v.offered p now event) v' answer)

theorem Sound.offerEvent (h : v.Sound p) (hopen : v.closed = false) (now : ℕ)
    (event : RunEvent Body) :
    Outcome p v now event (v.offerEvent p now event).1 (v.offerEvent p now event).2 := by
  unfold View.offerEvent
  cases horder : v.eventOrder event with
  | some message => exact .refused (by rw [horder]; rfl) (h.protocolViolation hopen _ _)
  | none =>
    obtain ⟨hunseen,_⟩ := eventOrder_eq_none horder
    have hterminal : v.terminalEvent = none := by
      by_contra hsome
      obtain ⟨q,hq⟩ := Option.ne_none_iff_exists'.mp hsome
      exact absurd (hunseen.symm.trans (h.terminal q hq).2.1) (by simp)
    have hended : v.eventStreamEnded = false := by
      by_contra hend
      exact absurd (hunseen.symm.trans (h.ended (Bool.not_eq_false _ ▸ hend)).1) (by simp)
    have hnoted := h.noteEvent event
    have hseen : event.isTerminal = true → (v.noteEvent event).terminalSeen = true := by
      intro hevent
      unfold View.noteEvent
      rw [hevent,Bool.or_true]
    have hfields : (v.noteEvent event).viewError = v.viewError := rfl
    dsimp only
    rw [hfields]
    cases hview : v.viewError with
    | some error =>
      have hidle : v.eventWaiter = false := by
        by_contra hwait
        have hsettled := (h.waiting (Bool.not_eq_false _ ▸ hwait)).2
        simp [settled,hview] at hsettled
      refine .lost horder hidle (.inl (by rw [hview]; rfl)) ?_
      exact {
        sound := ⟨hnoted.payload,hnoted.envelope,hnoted.payload_le,hnoted.envelope_le,
          hnoted.queued,hnoted.last,hnoted.spaced,
          fun q hq => absurd (hterminal.symm.trans hq) (by simp),
          fun hwait => absurd (hidle.symm.trans hwait) (by simp),
          fun hend => absurd (hended.symm.trans hend) (by simp),hnoted.failed⟩
        retained := rfl
        cursor := rfl
        viewError := rfl
        ended := hended
        closed := rfl
        answer := rfl }
    | none =>
      dsimp only
      cases hhands : v.handsOver with
      | true =>
        have hwait : v.eventWaiter = true := (handsOver_iff.mp hhands).2.2
        have hoffered : v.offered p now event = ⟨event,true,false⟩ := by
          unfold View.offered
          rw [hhands,if_pos rfl]
        have hnotedHands : (v.noteEvent event).handsOver = true := hhands
        rw [hnotedHands,if_pos rfl]
        refine .handed horder hview (by rw [hoffered]; rfl) ?_
        rw [hoffered]
        have hhanded := hnoted.handOver hwait hview hseen now false
        exact ⟨hhanded.sound,hhanded.before,hhanded.retained,hhanded.delivered,hhanded.viewError,
          hhanded.ended,hhanded.closed⟩
      | false =>
        have hwaiter : v.eventWaiter = false := h.handsOver.symm.trans hhands
        have hnotedHands : (v.noteEvent event).handsOver = false := hhands
        have hfilling : (v.noteEvent event).Filling p := ⟨hnoted,hwaiter,hended,hterminal,hview⟩
        rw [hnotedHands,if_neg Bool.false_ne_true]
        have hlost : ∀ v' answer, Lost p (v.noteEvent event) v' answer → Lost p v v' answer :=
          fun _ _ h => ⟨h.sound,h.retained,h.cursor,h.viewError,h.ended,h.closed,h.answer⟩
        have hplaced : ∀ a v' answer, Placed p (v.noteEvent event) a v' answer →
            Placed p v a v' answer :=
          fun _ _ _ h => ⟨h.sound,h.grows,h.cursor,h.viewError,h.ended,h.closed,h.answer⟩
        cases event with
        | gap latestOutputBytes causes =>
          have hoffered : v.offered p now (.gap latestOutputBytes causes) =
              ⟨.gap latestOutputBytes causes,false,(v.noteEvent (.gap latestOutputBytes causes)).gapFits
                p now (.gap latestOutputBytes causes)⟩ := by
            unfold View.offered
            rw [hhands,if_neg Bool.false_ne_true]
          dsimp only
          cases hgap : (v.noteEvent (.gap latestOutputBytes causes)).gapFits p now
              (.gap latestOutputBytes causes) with
          | true =>
            refine .placed horder hwaiter hview (by rw [hoffered,hgap]; rfl) ?_
            rw [hoffered]
            exact hplaced _ _ _ (hfilling.merged hgap rfl rfl rfl)
          | false =>
            exact .lost horder hwaiter (.inr (by rw [hoffered,hgap]; rfl))
              (hlost _ _ (hfilling.unmerged hgap))
        | plain event =>
          have hoffered : v.offered p now (.plain event) =
              (v.noteEvent (.plain event)).offeredPlain p now event := by
            unfold View.offered
            rw [hhands,if_neg Bool.false_ne_true]
          dsimp only
          rcases hfilling.offerPlain now hseen with ⟨hplace,hresult⟩ | ⟨hplace,hresult⟩
          · refine .placed horder hwaiter hview (by rw [hoffered]; exact hplace) ?_
            rw [hoffered]
            exact hplaced _ _ _ hresult
          · exact .lost horder hwaiter (.inr (by rw [hoffered]; exact hplace)) (hlost _ _ hresult)

end View
end SdkView
end Ctxmux
