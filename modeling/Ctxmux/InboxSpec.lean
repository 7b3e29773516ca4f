import Ctxmux.EventInbox
import Ctxmux.Machine

/-!
# What an honest view shows

An event fits the view when the two byte limits and the allocator leave room for it. A
view presents a log of accepted events when it shows them in order, with a gap in the
place of a stretch of output that did not fit or was already missing, and with the last
of several snapshots that differ only in the confirmed input progress.
-/

namespace Ctxmux
namespace Client

open Attachment (OutputGapCauses)

namespace EventInboxState

def payloadOf (events : List RunEvent) : ℕ := (events.map eventBytes).sum

def envelopeOf (events : List RunEvent) : ℕ := (events.map eventEnvelopePayloadBytes).sum

/-- The slots of the queue with one more event and the pending gap before it. -/
def slotsFor (s : EventInboxState) : ℕ :=
  s.queue.length+(1+(if s.pendingGap.isSome then 1 else 0))

/-- Both limits cover the event, and the queue has a slot for it or can grow. -/
structure Room (l : AttachmentEventLimits) (allocates : Bool) (s : EventInboxState)
    (event : RunEvent) : Prop where
  payload : payloadOf s.queue+eventBytes event ≤ l.payloadBytes
  envelope : l.inboxSize+max s.capacity s.slotsFor*l.eventSize+
    (envelopeOf s.queue+eventEnvelopePayloadBytes event) ≤ l.envelopeBytes
  allocated : s.slotsFor ≤ s.capacity ∨ allocates = true

/-- A terminal event needs no slot. -/
def TerminalRoom (l : AttachmentEventLimits) (s : EventInboxState) (event : RunEvent) : Prop :=
  l.inboxSize+s.capacity*l.eventSize+(envelopeOf s.queue+eventEnvelopePayloadBytes event) ≤
    l.envelopeBytes

/-- The last unread event is a snapshot that this one only carries further. -/
def Advances (s : EventInboxState) (event : RunEvent) : Prop :=
  s.pendingGap = none ∧
    match event, s.queue.getLast? with
    | .serviceChanged next, some (.serviceChanged previous) => ProgressOnly previous next
    | _, _ => False

/-- The view can show this event; a gap always joins the pending one. -/
def Fits (l : AttachmentEventLimits) (allocates : Bool) (s : EventInboxState)
    (event : RunEvent) : Prop :=
  if event.isTerminal then TerminalRoom l s event
  else event.isGap = true ∨ s.Advances event ∨ Room l allocates s event

instance (l : AttachmentEventLimits) (allocates : Bool) (s : EventInboxState) (event : RunEvent) :
    Decidable (Room l allocates s event) :=
  decidable_of_iff (_ ∧ _ ∧ _)
    ⟨fun h => ⟨h.1,h.2.1,h.2.2⟩,fun h => ⟨h.payload,h.envelope,h.allocated⟩⟩

instance (s : EventInboxState) (event : RunEvent) : Decidable (s.Advances event) := by
  unfold Advances
  split <;> infer_instance

instance (l : AttachmentEventLimits) (allocates : Bool) (s : EventInboxState) (event : RunEvent) :
    Decidable (Fits l allocates s event) := by
  unfold Fits TerminalRoom
  infer_instance

end EventInboxState

/-- An event that `push` took, with whether it fitted. -/
structure Accepted where
  event : RunEvent
  fits : Bool
  deriving DecidableEq, Repr

/-- An inbox with the events that it took, the calls of `close` and the results of its
reads. -/
structure Inbox where
  state : EventInboxState
  accepted : List Accepted
  closes : List (Option InboxError)
  returned : List NextResult

def Inbox.initial : Inbox := ⟨.initial,[],[],[]⟩

inductive InboxEvent where
  | push (allocates : Bool) (event : RunEvent)
  | next
  | close (error : Option InboxError)
  deriving DecidableEq, Repr

def Inbox.step (l : AttachmentEventLimits) (b : Inbox) : InboxEvent → Inbox
  | .push allocates event =>
    match b.state.push l allocates event with
    | .error _ => b
    | .ok state =>
      { b with
        state := state
        accepted := b.accepted ++ [⟨event,decide (b.state.Fits l allocates event)⟩] }
  | .next => { b with state := b.state.next.2, returned := b.returned ++ b.state.next.1.toList }
  | .close error => { b with state := b.state.close error, closes := b.closes ++ [error] }

def Inbox.run (l : AttachmentEventLimits) (b : Inbox) (es : List InboxEvent) : Inbox :=
  Machine.run (Inbox.step l) b es

namespace Accepted

/-- Output that did not fit, or a gap that the daemon reported. -/
def Mergeable (a : Accepted) : Prop :=
  match a.event with
  | .output _ => a.fits = false
  | .gap _ _ => True
  | _ => False

def head (a : Accepted) : ℕ :=
  match a.event with
  | .output chunk => chunk.endByte
  | .gap latestOutputBytes _ => latestOutputBytes
  | _ => 0

def causes (a : Accepted) : OutputGapCauses :=
  match a.event with
  | .output _ => EventInboxState.clientViewPressure
  | .gap _ causes => causes
  | _ => .none

/-- The view goes on after this event: it is shown or it is part of a gap. -/
def retained (a : Accepted) : Bool :=
  match a.event with
  | .output _ | .gap _ _ => true
  | _ => a.fits

end Accepted

def mergedHead (block : List Accepted) : ℕ := block.foldl (fun head a => max head a.head) 0

def mergedCauses (block : List Accepted) : OutputGapCauses :=
  block.foldl (fun causes a => causes.union a.causes) .none

/-- One shown event stands for a stretch of accepted events. -/
inductive Covers : RunEvent → List Accepted → Prop
  | same {e : RunEvent} (h : e.isGap = false) : Covers e [⟨e,true⟩]
  | gap {block : List Accepted} (hne : block ≠ []) (h : ∀ a ∈ block, a.Mergeable) :
      Covers (.gap (mergedHead block) (mergedCauses block)) block
  | progress {previous next : Service.NativeServiceSnapshot} {block : List Accepted}
      (h : Covers (.serviceChanged previous) block)
      (hp : EventInboxState.ProgressOnly previous next) :
      Covers (.serviceChanged next) (block ++ [⟨.serviceChanged next,true⟩])

/-- The shown events stand for the whole log, in its order. -/
def Presents (shown : List RunEvent) (log : List Accepted) : Prop :=
  ∃ blocks, List.Forall₂ Covers shown blocks ∧ blocks.flatten = log

variable {e : RunEvent} {block : List Accepted} {xs ys : List RunEvent}

theorem Covers.ne_nil (h : Covers e block) :
    block ≠ [] := by
  cases h with
  | same h => exact List.cons_ne_nil _ _
  | gap hne h => exact hne
  | progress h hp => exact List.append_ne_nil_of_right_ne_nil _ (List.cons_ne_nil _ _)

theorem Covers.of_terminal (h : Covers e block) (he : e.isTerminal = true) :
    block = [⟨e,true⟩] := by
  cases h with
  | same h => rfl
  | gap hne h => cases he
  | progress h hp => cases he

theorem mergedHead_snoc (block : List Accepted) (a : Accepted) :
    mergedHead (block ++ [a]) = max (mergedHead block) a.head := by
  simp [mergedHead,List.foldl_append]

theorem mergedCauses_snoc (block : List Accepted) (a : Accepted) :
    mergedCauses (block ++ [a]) = (mergedCauses block).union a.causes := by
  simp [mergedCauses,List.foldl_append]

theorem Covers.merge {latest : ℕ} {causes : OutputGapCauses} (h : Covers (.gap latest causes) block)
    {a : Accepted} (ha : a.Mergeable) :
    Covers (.gap (max latest a.head) (causes.union a.causes)) (block ++ [a]) := by
  cases h with
  | same h => cases h
  | gap hne h =>
    rw [← mergedHead_snoc,← mergedCauses_snoc]
    apply Covers.gap
    · exact List.append_ne_nil_of_left_ne_nil hne _
    · intro b hb
      rcases List.mem_append.mp hb with hb | hb
      · exact h b hb
      · rw [List.mem_singleton] at hb
        rwa [hb]

theorem covers_gap_one {a : Accepted} (ha : a.Mergeable) :
    Covers (.gap (max 0 a.head) (OutputGapCauses.none.union a.causes)) [a] := by
  have hgap := Covers.gap (List.cons_ne_nil a []) (fun b hb => by
    rw [List.mem_singleton] at hb
    rwa [hb])
  exact hgap

theorem presents_nil : Presents [] [] := ⟨[],List.Forall₂.nil,rfl⟩

variable {log : List Accepted}

theorem Presents.snoc {shown : List RunEvent} (h : Presents shown log) (he : Covers e block) :
    Presents (shown ++ [e]) (log ++ block) := by
  obtain ⟨blocks,hcovers,hflat⟩ := h
  refine ⟨blocks ++ [block],?_,?_⟩
  · exact List.rel_append hcovers (List.Forall₂.cons he List.Forall₂.nil)
  · rw [List.flatten_append,hflat]
    simp

theorem covers_split {blocks : List (List Accepted)} (h : List.Forall₂ Covers (xs ++ ys) blocks) :
    ∃ front back, List.Forall₂ Covers xs front ∧ List.Forall₂ Covers ys back ∧
      blocks = front ++ back := by
  induction xs generalizing blocks with
  | nil => exact ⟨[],blocks,List.Forall₂.nil,h,rfl⟩
  | cons x xs ih =>
    cases h with
    | cons hx hrest =>
      obtain ⟨front,back,hfront,hback,rfl⟩ := ih hrest
      exact ⟨_::front,back,List.Forall₂.cons hx hfront,hback,rfl⟩

/-- The last shown event and the stretch that it stands for. -/
theorem Presents.last {shown : List RunEvent} (h : Presents (shown ++ [e]) log) :
    ∃ front block, log = front ++ block ∧ Presents shown front ∧ Covers e block := by
  obtain ⟨blocks,hcovers,hflat⟩ := h
  obtain ⟨front,back,hfront,hback,rfl⟩ := covers_split hcovers
  cases hback with
  | cons he hnil =>
    cases hnil
    refine ⟨_,_,?_,⟨front,hfront,rfl⟩,he⟩
    rw [← hflat,List.flatten_append]
    simp

theorem Presents.terminal_mem (h : Presents (xs ++ e::ys) log) (he : e.isTerminal = true) :
    ∃ before after, log = before ++ ⟨e,true⟩::after := by
  obtain ⟨blocks,hcovers,hflat⟩ := h
  obtain ⟨front,back,-,hback,rfl⟩ := covers_split hcovers
  cases hback with
  | cons hblock hrest =>
    next block rest =>
    have hblock' := hblock.of_terminal he
    subst hblock'
    refine ⟨front.flatten,rest.flatten,?_⟩
    rw [← hflat]
    simp

/-- Behind a terminal event that ends the log nothing is shown. -/
theorem Presents.terminal_last (h : Presents (xs ++ e::ys) log) (he : e.isTerminal = true)
    (hlog : ∀ before a after, log = before ++ a::after → a.event.isTerminal = true → after = []) :
    ys = [] := by
  obtain ⟨blocks,hcovers,hflat⟩ := h
  obtain ⟨front,back,-,hback,rfl⟩ := covers_split hcovers
  cases hback with
  | cons hblock hrest =>
    next block rest =>
    have hblock' := hblock.of_terminal he
    subst hblock'
    have hsplit : log = front.flatten ++ ⟨e,true⟩::rest.flatten := by
      rw [← hflat]
      simp
    have hempty := hlog _ _ _ hsplit he
    cases hrest with
    | nil => rfl
    | cons hnext hmore =>
      next next more =>
      rw [List.flatten_cons,List.append_eq_nil_iff] at hempty
      exact absurd hempty.1 hnext.ne_nil

end Client
end Ctxmux
