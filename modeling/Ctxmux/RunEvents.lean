import Ctxmux.LiveEventJournal

/-!
# Publishing the events of a Run

The publisher of a Run keeps one cursor over everything it published and stamps each
envelope with the cursor before and after it. Under memory pressure it retires old
envelopes and replaces what it cannot fund by a marker without payload.
-/

namespace Ctxmux
namespace Attachment

open Journal (Recv Sent)

structure TerminalSize where
  rows : ℕ
  cols : ℕ
deriving DecidableEq,Repr

structure OutputGapCauses where
  liveEventPressure : Bool
  subscriberLag : Bool
  sourceDiscontinuity : Bool
  terminalCatchup : Bool
  geometryLag : Bool
  clientViewPressure : Bool
  unknown : Bool
deriving DecidableEq,Repr

namespace OutputGapCauses

def none : OutputGapCauses := ⟨false,false,false,false,false,false,false⟩

def liveEventPressureCause : OutputGapCauses := { none with liveEventPressure := true }

def subscriberLagCause : OutputGapCauses := { none with subscriberLag := true }

def geometryLagCause : OutputGapCauses := { none with geometryLag := true }

def union (a b : OutputGapCauses) : OutputGapCauses where
  liveEventPressure := a.liveEventPressure || b.liveEventPressure
  subscriberLag := a.subscriberLag || b.subscriberLag
  sourceDiscontinuity := a.sourceDiscontinuity || b.sourceDiscontinuity
  terminalCatchup := a.terminalCatchup || b.terminalCatchup
  geometryLag := a.geometryLag || b.geometryLag
  clientViewPressure := a.clientViewPressure || b.clientViewPressure
  unknown := a.unknown || b.unknown

end OutputGapCauses

/-- The payloads that no cursor and no attachment reads are left out. -/
inductive RunEvent where
  | output (endByte : ℕ)
  | serviceChanged (revision : ℕ)
  | resized (size : TerminalSize) (throughByte resizeRevision : ℕ)
  | exited
  | interrupted
  | tmux
  | observationDiscontinuity
  | gap (latestOutputBytes : ℕ) (causes : OutputGapCauses)
deriving DecidableEq,Repr

namespace RunEvent

def isGap : RunEvent → Bool
  | .gap _ _ => true
  | _ => false

def isResized : RunEvent → Bool
  | .resized _ _ _ => true
  | _ => false

def isTerminal : RunEvent → Bool
  | .exited => true
  | .interrupted => true
  | _ => false

/-- Geometry lag belongs to one connection: no owner publishes it. -/
def reportsGeometry : RunEvent → Bool
  | .gap _ causes => causes.geometryLag
  | _ => false

end RunEvent

structure GapCauseRevisions where
  liveEventPressure : ℕ
  sourceDiscontinuity : ℕ
  unknown : ℕ
deriving DecidableEq,Repr

namespace GapCauseRevisions

def record (r : GapCauseRevisions) (causes : OutputGapCauses) : GapCauseRevisions where
  liveEventPressure := if causes.liveEventPressure then r.liveEventPressure+1 else r.liveEventPressure
  sourceDiscontinuity :=
    if causes.sourceDiscontinuity then r.sourceDiscontinuity+1 else r.sourceDiscontinuity
  unknown := if causes.unknown then r.unknown+1 else r.unknown

def since (r before : GapCauseRevisions) : OutputGapCauses :=
  { OutputGapCauses.none with
    liveEventPressure := before.liveEventPressure < r.liveEventPressure
    sourceDiscontinuity := before.sourceDiscontinuity < r.sourceDiscontinuity
    unknown := before.unknown < r.unknown }

end GapCauseRevisions

/-- What was published so far. `resizeRevision` counts the published resizes. -/
structure LiveEventCursor where
  outputBytes : ℕ
  outputDiscontinuityRevision : ℕ
  latestOutputDiscontinuityByte : ℕ
  observationRevision : ℕ
  terminalRevision : ℕ
  resizeRevision : ℕ
  serviceRevision : ℕ
  gapCauses : GapCauseRevisions
deriving DecidableEq,Repr

namespace LiveEventCursor

def zero : LiveEventCursor := ⟨0,0,0,0,0,0,0,⟨0,0,0⟩⟩

def record (c : LiveEventCursor) : RunEvent → LiveEventCursor
  | .output endByte => { c with outputBytes := max c.outputBytes endByte }
  | .gap latestOutputBytes causes =>
    { c with
      outputDiscontinuityRevision := c.outputDiscontinuityRevision+1
      latestOutputDiscontinuityByte := latestOutputBytes
      gapCauses := c.gapCauses.record causes }
  | .exited => { c with terminalRevision := c.terminalRevision+1 }
  | .interrupted => { c with terminalRevision := c.terminalRevision+1 }
  | .tmux => { c with observationRevision := c.observationRevision+1 }
  | .observationDiscontinuity => { c with observationRevision := c.observationRevision+1 }
  | .serviceChanged _ => { c with serviceRevision := c.serviceRevision+1 }
  | .resized _ _ _ => { c with resizeRevision := c.resizeRevision+1 }

/-- A retired output envelope is a discontinuity of its own. -/
def retiredOutput (c : LiveEventCursor) : LiveEventCursor :=
  { c with
    outputDiscontinuityRevision := c.outputDiscontinuityRevision+1
    latestOutputDiscontinuityByte := max c.outputBytes c.latestOutputDiscontinuityByte
    gapCauses := c.gapCauses.record .liveEventPressureCause }

end LiveEventCursor

/-- An event with its funded payload, or one of the markers without heap data. -/
inductive PublishedRunEvent where
  | funded (event : RunEvent)
  | outputGap (latestOutputBytes : ℕ) (causes : OutputGapCauses)
  | observationDiscontinuity
  | snapshotNeeded
deriving DecidableEq,Repr

structure LiveRunEvent where
  published : PublishedRunEvent
  before : LiveEventCursor
  after : LiveEventCursor
deriving DecidableEq,Repr

namespace LiveRunEvent

def event (envelope : LiveRunEvent) : Option RunEvent :=
  match envelope.published with
  | .funded event => some event
  | .outputGap latestOutputBytes causes => some (.gap latestOutputBytes causes)
  | .observationDiscontinuity => some .observationDiscontinuity
  | .snapshotNeeded => none

/-- Retiring this envelope loses output. -/
def isOutput (envelope : LiveRunEvent) : Bool :=
  match envelope.event with
  | some (.output _) => true
  | some (.gap _ _) => true
  | _ => false

end LiveRunEvent

/-- What an event becomes when its payload cannot be funded. -/
def RunEvent.unfunded : RunEvent → RunEvent
  | .output endByte => .gap endByte .liveEventPressureCause
  | .tmux => .observationDiscontinuity
  | event => event

/-- The marker of an event without payload. -/
def RunEvent.marker : RunEvent → PublishedRunEvent
  | .gap latestOutputBytes causes => .outputGap latestOutputBytes causes
  | .observationDiscontinuity => .observationDiscontinuity
  | .tmux => .observationDiscontinuity
  | _ => .snapshotNeeded

/-- The publisher of a Run. A publisher without a sender has the new journal. -/
structure LiveEvents where
  journal : Journal.State LiveRunEvent
  cursor : LiveEventCursor
deriving DecidableEq,Repr

def LiveEvents.new : LiveEvents := ⟨.new,.zero⟩

/-- An event that was published with the envelope in which it was sent. -/
structure Publication where
  event : RunEvent
  envelope : LiveRunEvent
deriving DecidableEq,Repr

/-- `grow` and `refusals` are the outcomes of the memory budget, as in `prepare`. The
publication is returned if the journal took it; the publisher panics when the sequence
numbers of the journal are exhausted. -/
def LiveEvents.publish (s : LiveEvents) (event : RunEvent) (grow refusals : Option ℕ) :
    Option (LiveEvents × Option Publication) :=
  if 0 < s.journal.receiverCount then
    let (journal,prepared) := s.journal.prepare LiveRunEvent.isOutput grow (!event.isGap) refusals
    let before := if prepared.retiredOutput then s.cursor.retiredOutput else s.cursor
    let event' := if prepared.memory || event.isGap then event else event.unfunded
    let after := before.record event'
    let published := if prepared.memory then .funded event' else event'.marker
    let envelope : LiveRunEvent := ⟨published,before,after⟩
    match journal.send envelope with
    | (journal,.accepted) => some (⟨journal,after⟩,some ⟨event,envelope⟩)
    | (journal,.ignored) => some (⟨journal,after⟩,none)
    | _ => none
  else some ({ s with cursor := s.cursor.record event },none)

/-- The retained output of a Run, as far as its geometry goes. `terminal` is the revision
that the derived terminal model counts on its own. -/
structure OutputLog where
  resizeRevision : ℕ
  terminal : Option ℕ
  latestOutputBytes : ℕ
deriving DecidableEq,Repr

namespace OutputLog

/-- A log recovers the revision of its checkpoint, if the terminal can be restored. A new
log starts from zero. -/
def recoverTerminal (latestOutputBytes : ℕ) : Option ℕ → OutputLog
  | some revision => ⟨revision,some revision,latestOutputBytes⟩
  | none => ⟨0,none,latestOutputBytes⟩

/-- A `fault` of the derived terminal drops it; the revision is counted all the same. -/
def resizeTerminal (log : OutputLog) (size : TerminalSize) (fault : Bool) : OutputLog × RunEvent :=
  let resizeRevision := log.resizeRevision+1
  let through := log.latestOutputBytes
  match log.terminal with
  | some revision =>
    if fault then
      ({ log with resizeRevision := resizeRevision, terminal := none },
        .resized size through resizeRevision)
    else
      ({ log with resizeRevision := resizeRevision, terminal := some (revision+1) },
        .resized size through (revision+1))
  | none => ({ log with resizeRevision := resizeRevision },.resized size through resizeRevision)

end OutputLog

end Attachment
end Ctxmux
