import Ctxmux.Machine
import Ctxmux.SdkAttachment
import Ctxmux.Stretches

/-!
# What a view of an SDK attachment shows

Every event that the reader accepts is logged with what the view could do with it. What the
caller received and what is still retained stand for the log, event by event; a gap stands
for a stretch of gaps and of output that did not fit.
-/

namespace Ctxmux
namespace SdkView

open Attachment (OutputGapCauses)
open Durable (Byte OutputChunk)

variable {Body : Type}

/-- An accepted event; whether it was handed over or fit, and whether a gap that grows by
it fits. -/
structure Offered (Body : Type) where
  event : RunEvent Body
  kept : Bool
  gapFits : Bool
deriving DecidableEq,Repr

namespace Offered

/-- A gap of the daemon, or output that did not fit. -/
def mergeable (a : Offered Body) : Bool :=
  match a.event with
  | .gap _ _ => true
  | .plain (.output _) => !a.kept
  | .plain _ => false

/-- The view has a place for the event. -/
def placed (a : Offered Body) : Bool := a.kept || (a.mergeable && a.gapFits)

def head (a : Offered Body) : ℕ :=
  match a.event with
  | .gap latestOutputBytes _ => latestOutputBytes
  | .plain (.output chunk) => chunk.endByte
  | .plain _ => 0

def causes (a : Offered Body) : OutputGapCauses :=
  match a.event with
  | .gap _ causes => causes
  | .plain (.output _) => { OutputGapCauses.none with clientViewPressure := true }
  | .plain _ => .none

end Offered

def mergedHead (block : List (Offered Body)) : ℕ := block.foldl (fun head a => max head a.head) 0

def mergedCauses (block : List (Offered Body)) : OutputGapCauses :=
  block.foldl (fun causes a => causes.union a.causes) .none

/-- An event stands for itself, a gap for what was merged into it. -/
inductive Covers : AttachmentEvent Body → List (Offered Body) → Prop
  | same (event : PlainEvent Body) (gapFits : Bool) :
      Covers (.plain event) [⟨.plain event,true,gapFits⟩]
  | gap {event : AttachmentGapEvent} {block : List (Offered Body)} (nonempty : block ≠ [])
      (mergeable : ∀ a ∈ block, a.mergeable = true)
      (head : event.latestOutputBytes = mergedHead block)
      (causes : event.causes = mergedCauses block) : Covers (.gap event) block

theorem mergedHead_append (front : List (Offered Body)) (a : Offered Body) :
    mergedHead (front ++ [a]) = max (mergedHead front) a.head := by
  simp [mergedHead,List.foldl_append]

theorem mergedCauses_append (front : List (Offered Body)) (a : Offered Body) :
    mergedCauses (front ++ [a]) = (mergedCauses front).union a.causes := by
  simp [mergedCauses,List.foldl_append]

theorem covers_gap_one {event : AttachmentGapEvent} {a : Offered Body} (h : a.mergeable = true)
    (hhead : event.latestOutputBytes = max 0 a.head)
    (hcauses : event.causes = OutputGapCauses.none.union a.causes) : Covers (.gap event) [a] := by
  refine .gap (List.cons_ne_nil _ _) ?_ hhead hcauses
  intro b hb
  cases List.mem_singleton.mp hb
  exact h

theorem Covers.merge {event event' : AttachmentGapEvent} {front : List (Offered Body)}
    (h : Covers (.gap event) front) {a : Offered Body} (ha : a.mergeable = true)
    (hhead : event'.latestOutputBytes = max event.latestOutputBytes a.head)
    (hcauses : event'.causes = event.causes.union a.causes) :
    Covers (.gap event') (front ++ [a]) := by
  cases h with
  | gap hnonempty hmergeable hfront hunion =>
    refine .gap (List.append_ne_nil_of_left_ne_nil hnonempty _) ?_ ?_ ?_
    · intro b hb
      rcases List.mem_append.mp hb with hold | hnew
      · exact hmergeable b hold
      · cases List.mem_singleton.mp hnew
        exact ha
    · rw [hhead,hfront,mergedHead_append]
    · rw [hcauses,hunion,mergedCauses_append]

/-- The observation of a gap is no part of what it stands for. -/
theorem Covers.presented {v : View Body} {now : ℕ} {event : AttachmentEvent Body}
    {block : List (Offered Body)} (h : Covers event block) : Covers (v.presented now event) block := by
  cases h with
  | same event gapFits => exact .same event gapFits
  | gap hnonempty hmergeable hhead hcauses => exact .gap hnonempty hmergeable hhead hcauses

namespace View

variable (p : ViewResources Body) (v : View Body)

/-- What the caller has not received yet. -/
def retained : List (QueuedEvent Body) :=
  v.events.toList ++ (v.pendingOutputGap.map QueuedGap.queued).toList ++ v.terminalEvent.toList

def shown : List (AttachmentEvent Body) := v.retained.map QueuedEvent.event

/-- The gap that grows by the event fits. -/
def gapFits (now : ℕ) (dropped : Dropped) : Bool :=
  let event := v.gapEvent p now dropped (v.pendingOutputGap.map QueuedGap.event)
  let additional : ℤ := p.eventEnvelopeBytes (.gap event)-
    v.pendingOutputGap.elim 0 QueuedGap.envelopeBytes
  decide (additional ≤ p.envelopeBytes-v.queuedEnvelopeBytes)

/-- What the view can do with a plain event that no call waits for. -/
def offeredPlain (now : ℕ) (event : PlainEvent Body) : Offered Body :=
  { event := .plain event
    kept := v.eventCapacity p (retainEvent p event)
    gapFits := match event with
      | .output chunk => v.gapFits p now (.output chunk)
      | _ => false }

/-- What the view can do with an event that keeps the order. -/
def offered (now : ℕ) (event : RunEvent Body) : Offered Body :=
  if v.handsOver then ⟨event,true,false⟩
  else
    let v := v.noteEvent event
    match event with
    | .gap latestOutputBytes causes =>
      ⟨event,false,v.gapFits p now (.gap latestOutputBytes causes)⟩
    | .plain plain => v.offeredPlain p now plain

end View

/-- A view, the events that it accepted and the answers that its caller received. -/
structure Session (Body : Type) where
  view : View Body
  log : List (Offered Body)
  answers : List (Answer Body)

inductive Action (Body : Type) where
  | offer (now : ℕ) (event : RunEvent Body)
  | next (now : ℕ)
deriving DecidableEq,Repr

namespace Answer

def event : Answer Body → Option (AttachmentEvent Body)
  | .delivered event => some event
  | _ => none

/-- The call found the stream at its end. -/
def isOver : Answer Body → Bool
  | .ended | .failed _ => true
  | _ => false

end Answer

namespace Session

variable (p : ViewResources Body)

def start (chunks : List OutputChunk) (requestedAfterByte : ℕ) : Session Body :=
  ⟨View.new chunks requestedAfterByte,[],[]⟩

/-- The reader stops once the attachment is closed. -/
def step (s : Session Body) : Action Body → Session Body
  | .offer now event =>
    if s.view.closed then s
    else
      let (view,answer) := s.view.offerEvent p now event
      { view := view
        log := if (s.view.eventOrder event).isSome then s.log else s.log ++ [s.view.offered p now event]
        answers := s.answers ++ answer.toList }
  | .next now =>
    let (view,answer) := s.view.nextEvent now
    { s with view := view, answers := s.answers ++ answer.toList }

/-- The events that the caller received. -/
def received (s : Session Body) : List (AttachmentEvent Body) := s.answers.filterMap Answer.event

end Session

/-- Every byte of the range is in one of the chunks. -/
def Covered (chunks : List OutputChunk) (first last : ℕ) : Prop :=
  ∀ byte, first ≤ byte → byte < last → ∃ chunk ∈ chunks, chunk.startByte ≤ byte ∧ byte < chunk.endByte

/-- The output among the events. -/
def outputs (events : List (AttachmentEvent Body)) : List OutputChunk :=
  events.filterMap fun
    | .plain (.output chunk) => some chunk
    | _ => none

theorem Covered.mono {chunks : List OutputChunk} {first last : ℕ} (h : Covered chunks first last)
    (more : List OutputChunk) : Covered (chunks ++ more) first last := by
  intro byte hfirst hlast
  obtain ⟨chunk,hchunk,hbyte⟩ := h byte hfirst hlast
  exact ⟨chunk,List.mem_append_left _ hchunk,hbyte⟩

/-- A chunk that begins inside a covered range extends it. -/
theorem Covered.extend {chunks : List OutputChunk} {first last upto : ℕ} {chunk : OutputChunk}
    (h : Covered chunks first last) (hstart : chunk.startByte ≤ last)
    (hupto : upto ≤ max last chunk.endByte) : Covered (chunks ++ [chunk]) first upto := by
  intro byte hfirst hlast
  by_cases hbyte : byte < last
  · exact h.mono [chunk] byte hfirst hbyte
  · exact ⟨chunk,List.mem_append_right _ (List.mem_singleton_self _),by omega,by omega⟩

end SdkView
end Ctxmux
