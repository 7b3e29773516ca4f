import Ctxmux.InboxSpec

/-!
# The inbox stays within its limits

The two byte counters of the inbox are the sums over what it holds, and they stay
within the payload and the envelope limit through every push, read and close.
-/

namespace Ctxmux
namespace Client
namespace EventInboxState

structure Funded (l : AttachmentEventLimits) (s : EventInboxState) : Prop where
  queued : s.queuedBytes = payloadOf s.queue
  payload : s.queuedBytes ≤ l.payloadBytes
  envelope : s.envelopePayloadBytes = envelopeOf s.queue+envelopeOf s.terminal.toList
  limit : l.inboxSize+s.capacity*l.eventSize+s.envelopePayloadBytes ≤ l.envelopeBytes
  slots : s.queue.length ≤ s.capacity

variable {l : AttachmentEventLimits} {s s' : EventInboxState} {allocates : Bool} {event : RunEvent}

theorem payloadOf_append (xs ys : List RunEvent) :
    payloadOf (xs ++ ys) = payloadOf xs+payloadOf ys := by
  simp [payloadOf]

theorem envelopeOf_append (xs ys : List RunEvent) :
    envelopeOf (xs ++ ys) = envelopeOf xs+envelopeOf ys := by
  simp [envelopeOf]

theorem payloadOf_gapEvents (s : EventInboxState) : payloadOf s.gapEvents = 0 := by
  unfold gapEvents
  split <;> rfl

theorem envelopeOf_gapEvents (s : EventInboxState) : envelopeOf s.gapEvents = 0 := by
  unfold gapEvents
  split <;> rfl

theorem length_gapEvents (s : EventInboxState) :
    s.gapEvents.length = if s.pendingGap.isSome then 1 else 0 := by
  unfold gapEvents
  split
  · next h => simp [h]
  · next h => simp [h]

theorem funded_initial (l : AttachmentEventLimits) : Funded l initial where
  queued := rfl
  payload := Nat.zero_le _
  envelope := rfl
  limit := by
    show l.inboxSize+0*l.eventSize+0 ≤ l.envelopeBytes
    simpa using l.inbox_funded
  slots := le_refl _

theorem slots_le_iff {slots extra : ℕ} (hextra : l.inboxSize+extra ≤ l.envelopeBytes) :
    slots ≤ (l.envelopeBytes-l.inboxSize-extra)/l.eventSize ↔
      l.inboxSize+slots*l.eventSize+extra ≤ l.envelopeBytes := by
  rw [Nat.le_div_iff_mul_le l.eventSize_pos]
  omega

/-- Reserved slots are backed by a capacity that the envelope limit covers together
with the payload they are for. -/
theorem reserveSlots_eq_some {additional payload : ℕ}
    (h : reserveSlots l allocates s additional payload = some s') :
    ∃ capacity, s' = { s with capacity := capacity } ∧
      s.queue.length+additional ≤ capacity ∧
      l.inboxSize+capacity*l.eventSize+(s.envelopePayloadBytes+payload) ≤ l.envelopeBytes := by
  unfold reserveSlots at h
  dsimp only at h
  split at h
  · cases h
  next hextra =>
  split at h
  · cases h
  next hmaximum =>
  have hcover : ∀ capacity,
      capacity ≤ (l.envelopeBytes-l.inboxSize-(s.envelopePayloadBytes+payload))/l.eventSize →
        l.inboxSize+capacity*l.eventSize+(s.envelopePayloadBytes+payload) ≤ l.envelopeBytes :=
    fun capacity => (slots_le_iff (not_lt.mp hextra)).mp
  split at h
  · split at h
    · cases h
      refine ⟨_,rfl,?_,hcover _ (Nat.min_le_right _ _)⟩
      apply Nat.le_min.mpr
      exact ⟨Nat.le_max_right _ _,by omega⟩
    · cases h
  · next hfits =>
    cases h
    exact ⟨s.capacity,rfl,by omega,hcover _ (by omega)⟩

theorem roomFor_eq_some (h : s.roomFor l allocates event = some s') :
    ∃ capacity, s' = { s with capacity := capacity } ∧
      s.queuedBytes+eventBytes event ≤ l.payloadBytes ∧
      s.queue.length+(1+s.gapEvents.length) ≤ capacity ∧
      l.inboxSize+capacity*l.eventSize+(s.envelopePayloadBytes+eventEnvelopePayloadBytes event) ≤
        l.envelopeBytes := by
  unfold roomFor at h
  split at h
  · cases h
  next hpayload =>
  obtain ⟨capacity,hs,hslots,hlimit⟩ := reserveSlots_eq_some h
  rw [← length_gapEvents] at hslots
  exact ⟨capacity,hs,by omega,hslots,hlimit⟩

/-- Slots are refused only where the envelope limit does not cover them or the queue
cannot grow. -/
theorem reserveSlots_isSome (additional payload : ℕ) :
    (reserveSlots l allocates s additional payload).isSome ↔
      l.inboxSize+max s.capacity (s.queue.length+additional)*l.eventSize+
          (s.envelopePayloadBytes+payload) ≤ l.envelopeBytes ∧
        (s.queue.length+additional ≤ s.capacity ∨ allocates = true) := by
  unfold reserveSlots
  dsimp only
  by_cases hextra : l.envelopeBytes < l.inboxSize+(s.envelopePayloadBytes+payload)
  · rw [if_pos hextra]
    apply iff_of_false Bool.false_ne_true
    rintro ⟨h,-⟩
    omega
  · rw [if_neg hextra,← slots_le_iff (not_lt.mp hextra),max_le_iff]
    by_cases hover : s.queue.length+additional >
        (l.envelopeBytes-l.inboxSize-(s.envelopePayloadBytes+payload))/l.eventSize ∨
      s.capacity > (l.envelopeBytes-l.inboxSize-(s.envelopePayloadBytes+payload))/l.eventSize
    · rw [if_pos hover]
      apply iff_of_false Bool.false_ne_true
      rintro ⟨⟨hcapacity,hrequired⟩,-⟩
      omega
    · rw [if_neg hover]
      rw [not_or,not_lt,not_lt] at hover
      by_cases hgrow : s.queue.length+additional > s.capacity
      · cases allocates <;> simp [hgrow,hover]
      · rw [if_neg hgrow]
        exact iff_of_true rfl ⟨⟨hover.2,hover.1⟩,Or.inl (not_lt.mp hgrow)⟩

/-- The view has room for an event exactly when the limits and the allocator say so. -/
theorem roomFor_isSome (h : Funded l s) (hnone : s.terminal = none) :
    (s.roomFor l allocates event).isSome ↔ Room l allocates s event := by
  have henvelope := h.envelope
  rw [hnone] at henvelope
  have hheld : s.envelopePayloadBytes = envelopeOf s.queue := henvelope
  unfold roomFor
  by_cases hpayload : s.queuedBytes+eventBytes event > l.payloadBytes
  · rw [if_pos hpayload]
    constructor
    · intro hsome
      cases hsome
    · intro hroom
      have := hroom.payload
      rw [← h.queued] at this
      omega
  · rw [if_neg hpayload,reserveSlots_isSome,hheld]
    rw [h.queued] at hpayload
    exact ⟨fun ⟨hlimit,hgrow⟩ => ⟨not_lt.mp hpayload,hlimit,hgrow⟩,
      fun hroom => ⟨hroom.envelope,hroom.allocated⟩⟩

theorem Funded.enqueue (h : Funded l s) (hroom : s.roomFor l allocates event = some s') :
    Funded l (s'.enqueue event) := by
  obtain ⟨capacity,rfl,hpayload,hslots,hlimit⟩ := roomFor_eq_some hroom
  have hgap : gapEvents { s with capacity := capacity } = s.gapEvents := rfl
  have hqueued := h.queued
  have henvelope := h.envelope
  constructor
  · show s.queuedBytes+eventBytes event = payloadOf ((s.queue ++ _) ++ [event])
    rw [payloadOf_append,payloadOf_append,hgap,payloadOf_gapEvents,hqueued]
    simp [payloadOf]
  · exact hpayload
  · show s.envelopePayloadBytes+eventEnvelopePayloadBytes event =
      envelopeOf ((s.queue ++ _) ++ [event])+envelopeOf s.terminal.toList
    rw [envelopeOf_append,envelopeOf_append,hgap,envelopeOf_gapEvents,henvelope]
    simp [envelopeOf]
    omega
  · show l.inboxSize+capacity*l.eventSize+(s.envelopePayloadBytes+_) ≤ _
    exact hlimit
  · show ((s.queue ++ _) ++ [event]).length ≤ capacity
    rw [List.length_append,List.length_append,hgap,List.length_singleton]
    omega

theorem Funded.mergeGap (h : Funded l s) (latest : ℕ) (causes : Attachment.OutputGapCauses) :
    Funded l (s.mergeGap latest causes) :=
  ⟨h.queued,h.payload,h.envelope,h.limit,h.slots⟩

theorem Funded.markObservationLoss (h : Funded l s) : Funded l (s.markObservationLoss l) :=
  ⟨h.queued,h.payload,h.envelope,h.limit,h.slots⟩

theorem eventBytes_of_terminal (h : event.isTerminal = true) : eventBytes event = 0 := by
  cases event with
  | exited state => rfl
  | interrupted reason => rfl
  | output chunk => cases h
  | serviceChanged service => cases h
  | resized size throughByte resizeRevision => cases h
  | tmux event => cases h
  | observationDiscontinuity => cases h
  | gap latest causes => cases h

theorem Funded.retainTerminal (h : Funded l s) (hnone : s.terminal = none)
    (hterminal : event.isTerminal = true) : Funded l (s.retainTerminal l allocates event) := by
  have hqueued := h.queued
  have henvelope := h.envelope
  have hlimit := h.limit
  have hslots := h.slots
  have hmarked : Funded l { s with sawTerminal := true } := ⟨hqueued,h.payload,henvelope,hlimit,hslots⟩
  have hzero := eventBytes_of_terminal hterminal
  rw [hnone] at henvelope
  unfold EventInboxState.retainTerminal
  dsimp only
  split
  · next s' hs =>
    split at hs
    · obtain ⟨capacity,rfl,hslots',hlimit'⟩ := reserveSlots_eq_some hs
      constructor
      · show s.queuedBytes = payloadOf (s.queue ++ [event])
        rw [payloadOf_append,hqueued]
        simp [payloadOf,hzero]
      · exact h.payload
      · show s.envelopePayloadBytes+_ = envelopeOf (s.queue ++ [event])+envelopeOf s.terminal.toList
        rw [envelopeOf_append,henvelope,hnone]
        simp [envelopeOf]
      · show l.inboxSize+capacity*l.eventSize+(s.envelopePayloadBytes+_) ≤ _
        exact hlimit'
      · show (s.queue ++ [event]).length ≤ capacity
        rw [List.length_append,List.length_singleton]
        exact hslots'
    · cases hs
  · split
    · next hfits =>
      constructor
      · exact hqueued
      · exact h.payload
      · show s.envelopePayloadBytes+_ = envelopeOf s.queue+envelopeOf [event]
        rw [henvelope]
        simp [envelopeOf]
      · show l.inboxSize+s.capacity*l.eventSize+(s.envelopePayloadBytes+_) ≤ _
        omega
      · exact hslots
    · exact hmarked.markObservationLoss

theorem Funded.accept (h : Funded l s) (hnone : s.terminal = none) :
    Funded l (s.accept l allocates event) := by
  have hflag : ∀ event' : RunEvent, Funded l { s with
      sawObservationDiscontinuity :=
        s.sawObservationDiscontinuity || event'.isDiscontinuity } := fun _ =>
    ⟨h.queued,h.payload,h.envelope,h.limit,h.slots⟩
  cases event
  case output chunk =>
    unfold EventInboxState.accept
    dsimp only
    split
    · next hroom => exact h.enqueue hroom
    · exact h.mergeGap _ _
  case gap latest causes => exact h.mergeGap latest causes
  case exited state => exact h.retainTerminal hnone rfl
  case interrupted reason => exact h.retainTerminal hnone rfl
  case serviceChanged | resized | tmux | observationDiscontinuity =>
    unfold EventInboxState.accept
    dsimp only
    split
    · next hroom => exact (hflag _).enqueue hroom
    · exact (hflag _).markObservationLoss

/-- A replaced snapshot takes the slot of the one before it. -/
theorem replaceInputProgress_eq_some (h : s.replaceInputProgress event = some s') :
    s.pendingGap = none ∧ ∃ front previous next, s.queue = front ++ [.serviceChanged previous] ∧
      event = .serviceChanged next ∧ ProgressOnly previous next ∧
      s' = { s with queue := front ++ [.serviceChanged next] } := by
  unfold replaceInputProgress at h
  split at h
  · cases h
  next hgap =>
  split at h
  · next next previous hlast =>
    split at h
    · next hprogress =>
      cases h
      refine ⟨by simpa using hgap,s.queue.dropLast,previous,next,?_,rfl,hprogress,rfl⟩
      exact (List.dropLast_append_getLast? _ hlast).symm
    · cases h
  · cases h

theorem Funded.replaceInputProgress (h : Funded l s)
    (hs : s.replaceInputProgress event = some s') : Funded l s' := by
  obtain ⟨-,front,previous,next,hqueue,-,-,rfl⟩ := replaceInputProgress_eq_some hs
  have hqueued := h.queued
  have henvelope := h.envelope
  have hslots := h.slots
  rw [hqueue] at hqueued henvelope hslots
  constructor
  · show s.queuedBytes = _
    rw [hqueued,payloadOf_append,payloadOf_append]
    rfl
  · exact h.payload
  · show s.envelopePayloadBytes = _
    rw [henvelope,envelopeOf_append,envelopeOf_append]
    rfl
  · exact h.limit
  · show (front ++ [_]).length ≤ s.capacity
    simpa using hslots

theorem Funded.next (h : Funded l s) : Funded l s.next.2 := by
  have hqueued := h.queued
  have hpayload := h.payload
  have henvelope := h.envelope
  have hlimit := h.limit
  have hslots := h.slots
  unfold EventInboxState.next
  split
  · next event queue hqueue =>
    rw [hqueue] at hqueued henvelope hslots
    have hpayload' : payloadOf (event::queue) = eventBytes event+payloadOf queue := by
      simp [payloadOf]
    have henvelope' : envelopeOf (event::queue) = eventEnvelopePayloadBytes event+envelopeOf queue := by
      simp [envelopeOf]
    rw [hpayload'] at hqueued
    rw [henvelope'] at henvelope
    constructor
    · show s.queuedBytes-eventBytes event = payloadOf queue
      omega
    · show s.queuedBytes-eventBytes event ≤ _
      omega
    · show s.envelopePayloadBytes-eventEnvelopePayloadBytes event =
        envelopeOf queue+envelopeOf s.terminal.toList
      omega
    · show l.inboxSize+s.capacity*l.eventSize+(s.envelopePayloadBytes-eventEnvelopePayloadBytes event) ≤ l.envelopeBytes
      omega
    · show queue.length ≤ s.capacity
      rw [List.length_cons] at hslots
      omega
  split
  · exact ⟨hqueued,hpayload,henvelope,hlimit,hslots⟩
  split
  · exact ⟨hqueued,hpayload,henvelope,hlimit,hslots⟩
  split
  · next event hevent =>
    rw [hevent] at henvelope
    have henvelope' : envelopeOf (some event).toList = eventEnvelopePayloadBytes event := by
      simp [envelopeOf]
    rw [henvelope'] at henvelope
    constructor
    · exact hqueued
    · exact hpayload
    · show s.envelopePayloadBytes-eventEnvelopePayloadBytes event = envelopeOf s.queue+0
      omega
    · show l.inboxSize+s.capacity*l.eventSize+(s.envelopePayloadBytes-eventEnvelopePayloadBytes event) ≤ l.envelopeBytes
      omega
    · exact hslots
  split
  · exact ⟨hqueued,hpayload,henvelope,hlimit,hslots⟩
  split
  · exact h
  · exact h

theorem Funded.close (h : Funded l s) (error : Option InboxError) : Funded l (s.close error) := by
  unfold EventInboxState.close
  split
  · exact h
  · exact ⟨h.queued,h.payload,h.envelope,h.limit,h.slots⟩

end EventInboxState
end Client
end Ctxmux
