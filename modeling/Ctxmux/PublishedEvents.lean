import Ctxmux.RunEvents
import Ctxmux.JournalDelivery

/-!
# What the publisher sends

The publisher stamps an envelope with its cursor, which a retirement of output may have
moved before, and puts in either the event itself or the marker of what is left of it.
-/

namespace Ctxmux
namespace Attachment

open Journal (Kept)

/-- The envelope that an event is sent in when the cursor of the publisher is `c`. -/
structure Carried (c : LiveEventCursor) (event : RunEvent) (envelope : LiveRunEvent) : Prop where
  before : envelope.before = c ∨ envelope.before = c.retiredOutput
  payload :
    (envelope.published = .funded event ∧ envelope.after = envelope.before.record event) ∨
    (envelope.published = event.unfunded.marker ∧
      envelope.after = envelope.before.record event.unfunded)

theorem unfunded_of_isGap {event : RunEvent} (h : event.isGap = true) : event.unfunded = event := by
  cases event with
  | gap latest causes => rfl
  | _ => cases h

theorem send_ignored {ε : Type} {s : Journal.State ε} {e : ε} (hopen : s.closed = false)
    (hcount : s.receiverCount ≠ 0) : (s.send e).2 ≠ .ignored := by
  unfold Journal.State.send
  rw [if_neg (by simp [hopen,hcount])]
  split
  · simp
  · split
    · simp
    · split <;> simp

/-- What the publisher does to a journal that a receiver needs. -/
theorem publish_carried {s s' : LiveEvents} {history : List LiveRunEvent} {event : RunEvent}
    {grow refusals : Option ℕ} {publication : Option Publication} (hkept : Kept history s.journal)
    (hopen : s.journal.closed = false)
    (h : s.publish event grow refusals = some (s',publication)) :
    (s.journal.receiverCount = 0 ∧ s' = { s with cursor := s.cursor.record event } ∧
      publication = none) ∨
    ∃ envelope, publication = some ⟨event,envelope⟩ ∧ s'.cursor = envelope.after ∧
      Kept (history ++ [envelope]) s'.journal ∧ s'.journal.readers = s.journal.readers ∧
      s'.journal.closed = false ∧ Carried s.cursor event envelope := by
  by_cases hcount : 0 < s.journal.receiverCount
  · right
    obtain ⟨hprepared,hretired,hslot⟩ := hkept.prepare LiveRunEvent.isOutput grow (!event.isGap) refusals
    simp only [LiveEvents.publish,if_pos hcount] at h
    generalize s.journal.prepare LiveRunEvent.isOutput grow (!event.isGap) refusals = prepared at *
    obtain ⟨journal,memory,retired⟩ := prepared
    simp only at h hprepared hretired hslot
    have hignored : ∀ envelope, (journal.send envelope).2 ≠ .ignored := fun envelope =>
      send_ignored (hretired.closed.trans hopen) (by rw [hretired.receiverCount]; omega)
    split at h
    · rename_i journal' hsent
      obtain ⟨rfl,rfl⟩ := Prod.mk.inj (Option.some.inj h)
      obtain ⟨-,hreaders,hclosed,hsend⟩ := hprepared.send _ hslot
      rw [hsent] at hreaders hclosed hsend
      rw [if_pos rfl] at hsend
      refine ⟨_,rfl,rfl,hsend,hreaders.trans hretired.readers,
        hclosed.trans (hretired.closed.trans hopen),?_,?_⟩
      · cases retired with
        | true => exact .inr rfl
        | false => exact .inl rfl
      · cases memory with
        | true => exact .inl ⟨rfl,rfl⟩
        | false =>
          right
          have hsame : (if (false || event.isGap) = true then event else event.unfunded) =
              event.unfunded := by
            split
            · rename_i hgap
              exact (unfunded_of_isGap (by simpa using hgap)).symm
            · rfl
          rw [hsame]
          exact ⟨rfl,rfl⟩
    · rename_i journal' hsent
      exact absurd (congrArg Prod.snd hsent) (hignored _)
    · cases h
  · left
    simp only [LiveEvents.publish,if_neg hcount] at h
    obtain ⟨rfl,rfl⟩ := Prod.mk.inj (Option.some.inj h)
    exact ⟨by omega,rfl,rfl⟩

/-- The counts of the publisher never go back. -/
structure LiveEventCursor.Behind (c d : LiveEventCursor) : Prop where
  outputBytes : c.outputBytes ≤ d.outputBytes
  outputDiscontinuityRevision : c.outputDiscontinuityRevision ≤ d.outputDiscontinuityRevision
  terminalRevision : c.terminalRevision ≤ d.terminalRevision

namespace LiveEventCursor

theorem Behind.refl (c : LiveEventCursor) : c.Behind c := ⟨le_rfl,le_rfl,le_rfl⟩

theorem Behind.trans {c d e : LiveEventCursor} (h : c.Behind d) (h' : d.Behind e) : c.Behind e :=
  ⟨h.outputBytes.trans h'.outputBytes,
    h.outputDiscontinuityRevision.trans h'.outputDiscontinuityRevision,
    h.terminalRevision.trans h'.terminalRevision⟩

theorem behind_retiredOutput (c : LiveEventCursor) : c.Behind c.retiredOutput :=
  ⟨le_rfl,Nat.le_succ _,le_rfl⟩

theorem behind_record (c : LiveEventCursor) (event : RunEvent) : c.Behind (c.record event) := by
  cases event with
  | output endByte => exact ⟨le_max_left _ _,le_rfl,le_rfl⟩
  | gap latest causes => exact ⟨le_rfl,Nat.le_succ _,le_rfl⟩
  | exited => exact ⟨le_rfl,le_rfl,Nat.le_succ _⟩
  | interrupted => exact ⟨le_rfl,le_rfl,Nat.le_succ _⟩
  | _ => exact ⟨le_rfl,le_rfl,le_rfl⟩

theorem record_terminalRevision (c : LiveEventCursor) {event : RunEvent}
    (h : event.isTerminal = false) : (c.record event).terminalRevision = c.terminalRevision := by
  cases event with
  | exited => cases h
  | interrupted => cases h
  | _ => rfl

/-- The bytes that a cursor speaks of lie at or below `n`. -/
def Within (n : ℕ) (c : LiveEventCursor) : Prop :=
  c.outputBytes ≤ n ∧ c.latestOutputDiscontinuityByte ≤ n

theorem Within.mono {n m : ℕ} {c : LiveEventCursor} (h : Within n c) (hle : n ≤ m) : Within m c :=
  ⟨h.1.trans hle,h.2.trans hle⟩

theorem Within.retiredOutput {n : ℕ} {c : LiveEventCursor} (h : Within n c) :
    Within n c.retiredOutput := ⟨h.1,max_le h.1 h.2⟩

end LiveEventCursor

@[simp] theorem unfunded_isTerminal (event : RunEvent) :
    event.unfunded.isTerminal = event.isTerminal := by
  cases event <;> rfl

namespace Carried

variable {c : LiveEventCursor} {event : RunEvent} {envelope : LiveRunEvent}

theorem behind_before (h : Carried c event envelope) : c.Behind envelope.before := by
  rcases h.before with heq | heq <;> rw [heq]
  · exact .refl c
  · exact c.behind_retiredOutput

theorem before_behind_after (h : Carried c event envelope) :
    envelope.before.Behind envelope.after := by
  rcases h.payload with ⟨-,heq⟩ | ⟨-,heq⟩ <;> rw [heq]
  · exact envelope.before.behind_record event
  · exact envelope.before.behind_record event.unfunded

theorem behind_after (h : Carried c event envelope) : c.Behind envelope.after :=
  h.behind_before.trans h.before_behind_after

theorem terminalRevision (h : Carried c event envelope) (hevent : event.isTerminal = false) :
    envelope.after.terminalRevision = c.terminalRevision := by
  have hbefore : envelope.before.terminalRevision = c.terminalRevision := by
    rcases h.before with heq | heq <;> rw [heq]
    rfl
  rcases h.payload with ⟨-,heq⟩ | ⟨-,heq⟩ <;> rw [heq,← hbefore]
  · exact LiveEventCursor.record_terminalRevision _ hevent
  · exact LiveEventCursor.record_terminalRevision _ (by simpa using hevent)

theorem within_before (h : Carried c event envelope) {n : ℕ}
    (hc : LiveEventCursor.Within n c) : LiveEventCursor.Within n envelope.before := by
  rcases h.before with heq | heq <;> rw [heq]
  · exact hc
  · exact hc.retiredOutput

/-- A receiver reads the event, or what it became without its payload. -/
theorem delivered {event' : RunEvent} (h : Carried c event envelope)
    (hevent : envelope.event = some event') : event' = event ∨ event' = event.unfunded := by
  rcases h.payload with ⟨hpublished,-⟩ | ⟨hpublished,-⟩ <;>
    rw [LiveRunEvent.event,hpublished] at hevent
  · exact .inl (Option.some.inj hevent).symm
  · right
    cases event <;> cases hevent <;> rfl

/-- An output event is either sent or counted as a discontinuity. -/
theorem output {endByte : ℕ} (h : Carried c (.output endByte) envelope) :
    (envelope.event = some (.output endByte) ∧ endByte ≤ envelope.after.outputBytes) ∨
    ((∃ causes, envelope.event = some (.gap endByte causes)) ∧
      c.outputDiscontinuityRevision < envelope.after.outputDiscontinuityRevision) := by
  have hbefore := h.behind_before.outputDiscontinuityRevision
  rcases h.payload with ⟨hpublished,hafter⟩ | ⟨hpublished,hafter⟩
  · left
    rw [LiveRunEvent.event,hpublished,hafter]
    exact ⟨rfl,le_max_right _ _⟩
  · right
    rw [LiveRunEvent.event,hpublished,hafter]
    exact ⟨⟨_,rfl⟩,Nat.lt_succ_of_le hbefore⟩

end Carried
end Attachment
end Ctxmux
