import Ctxmux.InboxFunds

/-!
# What an accepted event does to the inbox

An event that an available view takes is shown, becomes part of the pending gap,
replaces an unread progress snapshot, or ends the observation.
-/

namespace Ctxmux
namespace Client

open EventInboxState
open Attachment (OutputGapCauses)

namespace EventInboxState

/-- What the consumer will still read, in order. -/
def held (s : EventInboxState) : List RunEvent := s.queue ++ s.gapEvents ++ s.terminal.toList

/-- The observation goes on as before. -/
def Undisturbed (s s' : EventInboxState) : Prop :=
  s'.localObservation = s.localObservation ∧ s'.closed = s.closed ∧ s'.error = s.error

/-- What an accepted event does to an available view. -/
inductive Effect (l : AttachmentEventLimits) (s : EventInboxState) (a : Accepted)
    (s' : EventInboxState) : Prop
  | shown (hfits : a.fits = true) (hgap : a.event.isGap = false)
      (hheld : s'.held = s.held ++ [a.event]) (hsame : Undisturbed s s')
  | opened (ha : a.Mergeable)
      (hheld : s'.held = s.held ++ [.gap (max 0 a.head) (OutputGapCauses.none.union a.causes)])
      (hsame : Undisturbed s s')
  | widened (ha : a.Mergeable) (front : List RunEvent) (latest : ℕ) (causes : OutputGapCauses)
      (hbefore : s.held = front ++ [.gap latest causes])
      (hheld : s'.held = front ++ [.gap (max latest a.head) (causes.union a.causes)])
      (hsame : Undisturbed s s')
  | replaced (front : List RunEvent) (previous next : Service.NativeServiceSnapshot)
      (ha : a = ⟨.serviceChanged next,true⟩) (hprogress : ProgressOnly previous next)
      (hbefore : s.held = front ++ [.serviceChanged previous])
      (hheld : s'.held = front ++ [.serviceChanged next]) (hsame : Undisturbed s s')
  | lost (ha : a.retained = false) (hheld : s'.held = s.held)
      (hobservation : s'.localObservation = .lostMarkerPending) (hclosed : s'.closed = true)
      (herror : s'.error = some (lossError l)) (hterminal : s'.terminal = none)

variable {l : AttachmentEventLimits} {s s' : EventInboxState} {allocates : Bool}
  {event : RunEvent}

theorem held_of_no_terminal (h : s.terminal = none) : s.held = s.queue ++ s.gapEvents := by
  simp [held,h]

theorem held_enqueue (hnone : s.terminal = none) (event : RunEvent) :
    (s.enqueue event).held = s.held ++ [event] := by
  rw [held_of_no_terminal hnone]
  show (s.queue ++ s.gapEvents) ++ [event] ++ [] ++ s.terminal.toList = _
  simp [hnone]

theorem effect_enqueue {t : EventInboxState} {a : Accepted} (hnone : t.terminal = none)
    (hheld : t.held = s.held) (hsame : Undisturbed s t)
    (hroom : t.roomFor l allocates a.event = some s')
    (hgap : a.event.isGap = false) (hfits : a.fits = true) :
    Effect l s a (s'.enqueue a.event) := by
  obtain ⟨capacity,rfl,-⟩ := roomFor_eq_some hroom
  apply Effect.shown hfits hgap
  · have henqueue := held_enqueue (s := { t with capacity := capacity }) hnone a.event
    exact henqueue.trans (congrArg (· ++ [a.event]) hheld)
  · exact hsame

theorem effect_mergeGap (hnone : s.terminal = none) {a : Accepted} (ha : a.Mergeable) :
    Effect l s a (s.mergeGap a.head a.causes) := by
  cases hgap : s.pendingGap with
  | none =>
    apply Effect.opened ha
    · rw [held_of_no_terminal hnone]
      simp [held,gapEvents,mergeGap,hgap,hnone]
    · exact ⟨rfl,rfl,rfl⟩
  | some gap =>
    obtain ⟨latest,causes⟩ := gap
    apply Effect.widened ha s.queue latest causes
    · rw [held_of_no_terminal hnone]
      simp [gapEvents,hgap]
    · simp [held,gapEvents,mergeGap,hgap,hnone]
    · exact ⟨rfl,rfl,rfl⟩

/-- A terminal event is shown where its bytes are covered, with a slot or without. -/
theorem effect_retainTerminal (hf : Funded l s) (hnone : s.terminal = none)
    (hterminal : event.isTerminal = true) :
    Effect l s ⟨event,decide (s.Fits l allocates event)⟩
      (s.retainTerminal l allocates event) := by
  have hgap : event.isGap = false := by
    cases event <;> first | rfl | cases hterminal
  have hheld : s.envelopePayloadBytes = envelopeOf s.queue := by
    have henvelope := hf.envelope
    rwa [hnone] at henvelope
  have hfits : s.Fits l allocates event ↔ TerminalRoom l s event := by
    simp [Fits,hterminal]
  unfold EventInboxState.retainTerminal
  dsimp only
  split
  · next s' hs =>
    split at hs
    · next hfree =>
      have hcovered := (reserveSlots_isSome 1 _).mp (Option.isSome_of_eq_some hs)
      obtain ⟨capacity,rfl,-⟩ := reserveSlots_eq_some hs
      have hpending : s.pendingGap = none := hfree.1
      have hroom : TerminalRoom l s event := by
        have hslots := Nat.mul_le_mul_right l.eventSize (le_max_left s.capacity (s.queue.length+1))
        have hlimit := hcovered.1
        dsimp only at hlimit
        unfold TerminalRoom
        omega
      apply Effect.shown (decide_eq_true (hfits.mpr hroom)) hgap
      · simp [held,gapEvents,hpending,hnone]
      · exact ⟨rfl,rfl,rfl⟩
    · cases hs
  · split
    · next hfunded =>
      have hroom : TerminalRoom l s event := by
        unfold TerminalRoom
        omega
      apply Effect.shown (decide_eq_true (hfits.mpr hroom)) hgap
      · rw [held_of_no_terminal hnone]
        rfl
      · exact ⟨rfl,rfl,rfl⟩
    · next hfunded =>
      have hroom : ¬TerminalRoom l s event := by
        unfold TerminalRoom
        omega
      refine Effect.lost ?_ rfl rfl rfl rfl hnone
      have hdecided := decide_eq_false (mt hfits.mp hroom)
      cases event <;> first | exact hdecided | cases hterminal

/-- An event that is neither output nor a gap nor terminal is shown or ends the view. -/
theorem effect_other {a : Accepted} (hf : Funded l s) (hnone : s.terminal = none)
    (hlost : a.fits = false → a.retained = false) (hgap : a.event.isGap = false)
    (hfits : a.fits = true ↔ Room l allocates s a.event) (flag : Bool) :
    Effect l s a
      (match roomFor l allocates { s with sawObservationDiscontinuity := flag } a.event with
        | some t => t.enqueue a.event
        | none => markObservationLoss l { s with sawObservationDiscontinuity := flag }) := by
  let t : EventInboxState := { s with sawObservationDiscontinuity := flag }
  have hfunded : Funded l t := ⟨hf.queued,hf.payload,hf.envelope,hf.limit,hf.slots⟩
  have hroom : (t.roomFor l allocates a.event).isSome ↔ Room l allocates t a.event :=
    roomFor_isSome hfunded hnone
  have hsame : Room l allocates t a.event ↔ Room l allocates s a.event :=
    ⟨fun h => ⟨h.payload,h.envelope,h.allocated⟩,fun h => ⟨h.payload,h.envelope,h.allocated⟩⟩
  split
  · next hsome =>
    have hfit := hfits.mpr (hsame.mp (hroom.mp (Option.isSome_of_eq_some hsome)))
    exact effect_enqueue (t := t) hnone rfl ⟨rfl,rfl,rfl⟩ hsome hgap hfit
  · next hrefused =>
    refine Effect.lost (hlost ?_) rfl rfl rfl rfl hnone
    rw [← Bool.not_eq_true,hfits,← hsame,← hroom]
    exact Option.not_isSome_iff_eq_none.mpr hrefused

/-- Apart from gaps and terminal events, what does not replace the last snapshot needs
room of its own. -/
theorem fits_iff_room (hterminal : event.isTerminal = false) (hgap : event.isGap = false)
    (hadvances : ¬s.Advances event) :
    decide (s.Fits l allocates event) = true ↔ Room l allocates s event := by
  simp [Fits,hterminal,hgap,hadvances]

theorem effect_accept (hf : Funded l s) (hnone : s.terminal = none)
    (hadvances : ¬s.Advances event) :
    Effect l s ⟨event,decide (s.Fits l allocates event)⟩ (s.accept l allocates event) := by
  cases event with
  | output chunk =>
    have hfits : decide (s.Fits l allocates (.output chunk)) = true ↔
        Room l allocates s (.output chunk) := fits_iff_room rfl rfl hadvances
    have hroom : (s.roomFor l allocates (.output chunk)).isSome ↔ _ := roomFor_isSome hf hnone
    unfold accept
    dsimp only
    split
    · next hsome =>
      have hfit := hfits.mpr (hroom.mp (Option.isSome_of_eq_some hsome))
      exact effect_enqueue (a := ⟨.output chunk,_⟩) hnone rfl ⟨rfl,rfl,rfl⟩ hsome rfl hfit
    · next hrefused =>
      have ha : Accepted.Mergeable ⟨.output chunk,decide (s.Fits l allocates (.output chunk))⟩ := by
        show decide (s.Fits l allocates (.output chunk)) = false
        rw [← Bool.not_eq_true,hfits,← hroom]
        exact Option.not_isSome_iff_eq_none.mpr hrefused
      exact effect_mergeGap hnone ha
  | gap latest causes =>
    have ha : Accepted.Mergeable
      ⟨.gap latest causes,decide (s.Fits l allocates (.gap latest causes))⟩ := trivial
    exact effect_mergeGap hnone ha
  | exited state => exact effect_retainTerminal hf hnone rfl
  | interrupted reason => exact effect_retainTerminal hf hnone rfl
  | serviceChanged service =>
    exact effect_other hf hnone id rfl (fits_iff_room rfl rfl hadvances) _
  | resized size throughByte resizeRevision =>
    exact effect_other hf hnone id rfl (fits_iff_room rfl rfl hadvances) _
  | tmux event => exact effect_other hf hnone id rfl (fits_iff_room rfl rfl hadvances) _
  | observationDiscontinuity =>
    exact effect_other hf hnone id rfl (fits_iff_room rfl rfl hadvances) _

theorem advances_iff : s.Advances event ↔ (s.replaceInputProgress event).isSome := by
  unfold Advances replaceInputProgress
  cases hgap : s.pendingGap with
  | some gap => simp
  | none =>
    rw [Option.isSome_none,if_neg Bool.false_ne_true]
    split
    · next hprogress => simp [hprogress]
    · simp

theorem effect_replaceInputProgress (hnone : s.terminal = none)
    (hs : s.replaceInputProgress event = some s') :
    Effect l s ⟨event,decide (s.Fits l allocates event)⟩ s' := by
  have hadvances := advances_iff.mpr (Option.isSome_of_eq_some hs)
  obtain ⟨hgap,front,previous,next,hqueue,rfl,hprogress,rfl⟩ := replaceInputProgress_eq_some hs
  have hfits : s.Fits l allocates (.serviceChanged next) := Or.inr (Or.inl hadvances)
  refine Effect.replaced front previous next ?_ hprogress ?_ ?_ ⟨rfl,rfl,rfl⟩
  · rw [decide_eq_true hfits]
  · rw [held_of_no_terminal hnone]
    simp [gapEvents,hgap,hqueue]
  · simp [held,gapEvents,hgap,hnone]

/-- The lifecycle is noted with its events, and only a terminal event takes the slot. -/
structure Noted (s : EventInboxState) (event : RunEvent) (s' : EventInboxState) : Prop where
  sawTerminal : s'.sawTerminal = (s.sawTerminal || event.isTerminal)
  sawObservationDiscontinuity : s'.sawObservationDiscontinuity =
    (s.sawObservationDiscontinuity || event.isDiscontinuity)
  terminal : s'.terminal.isSome → event.isTerminal = true

theorem noted_of_same (hnone : s.terminal = none) (hterminal : event.isTerminal = false)
    (hdiscontinuity : event.isDiscontinuity = false) (hsaw : s'.sawTerminal = s.sawTerminal)
    (hseen : s'.sawObservationDiscontinuity = s.sawObservationDiscontinuity)
    (hslot : s'.terminal = s.terminal) : Noted s event s' where
  sawTerminal := by rw [hsaw,hterminal,Bool.or_false]
  sawObservationDiscontinuity := by rw [hseen,hdiscontinuity,Bool.or_false]
  terminal := fun h => by
    rw [hslot,hnone] at h
    cases h

theorem noted_other (hnone : s.terminal = none) (hterminal : event.isTerminal = false) :
    Noted s event
      (match roomFor l allocates { s with sawObservationDiscontinuity :=
          s.sawObservationDiscontinuity || event.isDiscontinuity } event with
        | some t => t.enqueue event
        | none => markObservationLoss l { s with sawObservationDiscontinuity :=
            s.sawObservationDiscontinuity || event.isDiscontinuity }) := by
  have hslot : s.terminal.isSome → event.isTerminal = true := fun h => by
    rw [hnone] at h
    cases h
  have hsaw : s.sawTerminal = (s.sawTerminal || event.isTerminal) := by
    rw [hterminal,Bool.or_false]
  split
  · next hroom =>
    obtain ⟨capacity,rfl,-⟩ := roomFor_eq_some hroom
    exact ⟨hsaw,rfl,hslot⟩
  · exact ⟨hsaw,rfl,hslot⟩

theorem noted_retainTerminal (hterminal : event.isTerminal = true) :
    Noted s event (s.retainTerminal l allocates event) := by
  have hdiscontinuity : event.isDiscontinuity = false := by
    cases event <;> first | rfl | cases hterminal
  have hframe : (s.retainTerminal l allocates event).sawTerminal = true ∧
      (s.retainTerminal l allocates event).sawObservationDiscontinuity =
        s.sawObservationDiscontinuity := by
    unfold EventInboxState.retainTerminal
    dsimp only
    split
    · next hs =>
      split at hs
      · obtain ⟨capacity,rfl,-⟩ := reserveSlots_eq_some hs
        exact ⟨rfl,rfl⟩
      · cases hs
    · split <;> exact ⟨rfl,rfl⟩
  refine ⟨?_,?_,fun _ => hterminal⟩
  · rw [hframe.1,hterminal,Bool.or_true]
  · rw [hframe.2,hdiscontinuity,Bool.or_false]

theorem noted_accept (hnone : s.terminal = none) :
    Noted s event (s.accept l allocates event) := by
  cases event with
  | output chunk =>
    unfold accept
    dsimp only
    split
    · next hroom =>
      obtain ⟨capacity,rfl,-⟩ := roomFor_eq_some hroom
      exact noted_of_same hnone rfl rfl rfl rfl rfl
    · exact noted_of_same hnone rfl rfl rfl rfl rfl
  | gap latest causes => exact noted_of_same hnone rfl rfl rfl rfl rfl
  | exited state => exact noted_retainTerminal rfl
  | interrupted reason => exact noted_retainTerminal rfl
  | serviceChanged service => exact noted_other hnone rfl
  | resized size throughByte resizeRevision => exact noted_other hnone rfl
  | tmux event => exact noted_other hnone rfl
  | observationDiscontinuity => exact noted_other hnone rfl

theorem noted_replaceInputProgress (hnone : s.terminal = none)
    (hs : s.replaceInputProgress event = some s') : Noted s event s' := by
  obtain ⟨-,front,previous,next,-,rfl,-,rfl⟩ := replaceInputProgress_eq_some hs
  exact noted_of_same hnone rfl rfl rfl rfl rfl

end EventInboxState

end Client
end Ctxmux
