import Ctxmux.RunEvents

/-!
# The delivery loop of an attachment

One attachment of a Run among any number of others. It subscribes, takes its snapshot
under the output lock and then delivers what the journal gives it; where the journal has
retired events, or could not fund one, the loop compares cursors to say what was lost.
-/

namespace Ctxmux
namespace Attachment

/-- How a Run ended. -/
inductive TerminalState where
  | exited | interrupted
deriving DecidableEq,Repr

def terminalEvent : TerminalState → RunEvent
  | .exited => .exited
  | .interrupted => .interrupted

/-- What `Run::info` reports at the time; no terminal state means running. -/
structure Authoritative where
  terminal : Option TerminalState
  latestOutputBytes : ℕ
  nativeService : Option ℕ
deriving DecidableEq,Repr

inductive LagRecovery where
  | proceed
  | close
  | terminal (event : RunEvent)
deriving DecidableEq,Repr

/-- The part of the attachment that the loop writes. -/
structure Fences where
  sentThroughByte : ℕ
  sentServiceRevision : ℕ
  sentResizeRevision : ℕ
deriving DecidableEq,Repr

def lostObservation (delivered retainedBefore : LiveEventCursor) : Bool :=
  delivered.observationRevision < retainedBefore.observationRevision

def lostTerminal (delivered retainedBefore : LiveEventCursor) : Bool :=
  delivered.terminalRevision < retainedBefore.terminalRevision

def lostOutputMarker (delivered retainedBefore : LiveEventCursor) : Bool :=
  delivered.outputDiscontinuityRevision < retainedBefore.outputDiscontinuityRevision

def lostOutputBytes (retainedBefore : LiveEventCursor) (sent : Fences) : Bool :=
  sent.sentThroughByte < retainedBefore.outputBytes

def lostResize (retainedBefore : LiveEventCursor) (sent : Fences) : Bool :=
  sent.sentResizeRevision < retainedBefore.resizeRevision

/-- The gap that a recovery reports, and the byte fence behind it. -/
def lagGap (authoritative : Authoritative) (delivered retainedBefore : LiveEventCursor)
    (sent : Fences) : RunEvent × ℕ :=
  let markerHead :=
    if lostOutputMarker delivered retainedBefore then retainedBefore.latestOutputDiscontinuityByte
    else 0
  let latest := max (max retainedBefore.outputBytes markerHead) authoritative.latestOutputBytes
  let geometry :=
    if lostResize retainedBefore sent then OutputGapCauses.geometryLagCause else OutputGapCauses.none
  (.gap latest ((OutputGapCauses.subscriberLagCause.union geometry).union
    (retainedBefore.gapCauses.since delivered.gapCauses)),latest)

/-- The service frame that a recovery sends, if the snapshot is newer than what was sent. -/
def lagService (authoritative : Authoritative) (delivered retainedBefore : LiveEventCursor)
    (sent : Fences) : Option ℕ :=
  if delivered.serviceRevision < retainedBefore.serviceRevision then
    authoritative.nativeService.filter fun revision => sent.sentServiceRevision < revision
  else none

def recoverLaggedDelivery (authoritative : Authoritative) (delivered retainedBefore : LiveEventCursor)
    (sent : Fences) : List RunEvent × Fences × LagRecovery :=
  if lostObservation delivered retainedBefore then
    ([.observationDiscontinuity],sent,
      match authoritative.terminal with
      | none => .close
      | some state => .terminal (terminalEvent state))
  else
    let (frames,sent) :=
      if lostOutputMarker delivered retainedBefore || lostOutputBytes retainedBefore sent
          || lostResize retainedBefore sent then
        let (gap,latest) := lagGap authoritative delivered retainedBefore sent
        ([gap],{ sent with sentThroughByte := max sent.sentThroughByte latest })
      else ([],sent)
    let (frames,sent) :=
      match lagService authoritative delivered retainedBefore sent with
      | some revision =>
        (frames ++ [.serviceChanged revision],{ sent with sentServiceRevision := revision })
      | none => (frames,sent)
    (frames,sent,
      match authoritative.terminal with
      | some state =>
        if lostTerminal delivered retainedBefore then .terminal (terminalEvent state) else .proceed
      | none => .proceed)

inductive AttachmentPhase where
  | subscribed | streaming | held | observationClosed | finished
deriving DecidableEq,Repr

/-- `passed` is the journal position up to which the loop has come. -/
structure Client where
  reader : ℕ
  liveCursor : LiveEventCursor
  sent : Fences
  receiverLagged : Bool
  phase : AttachmentPhase
  passed : ℕ
deriving DecidableEq,Repr

/-- A terminal event waits for the commands that are still in flight. -/
def Client.endWith (c : Client) (event : RunEvent) (busy : Bool) : Client × List RunEvent :=
  if busy then ({ c with phase := .held },[]) else ({ c with phase := .finished },[event])

/-- Deliver one event unless the client has it already. -/
def Client.deliver (c : Client) (event : RunEvent) (busy : Bool) : Client × List RunEvent :=
  match event with
  | .output endByte =>
    if endByte ≤ c.sent.sentThroughByte then (c,[])
    else ({ c with sent := { c.sent with sentThroughByte := endByte } },[event])
  | .resized _ _ resizeRevision =>
    if resizeRevision ≤ c.sent.sentResizeRevision then (c,[])
    else ({ c with sent := { c.sent with sentResizeRevision := resizeRevision } },[event])
  | .serviceChanged revision =>
    if revision ≤ c.sent.sentServiceRevision then (c,[])
    else ({ c with sent := { c.sent with sentServiceRevision := revision } },[event])
  | .exited => c.endWith event busy
  | .interrupted => c.endWith event busy
  | .tmux => (c,[event])
  | .observationDiscontinuity => (c,[event])
  | .gap _ _ => (c,[event])

/-- The cursor up to which a recovery accounts for the events. -/
def retainedBoundary (envelope : LiveRunEvent) : LiveEventCursor :=
  if envelope.published = .snapshotNeeded then envelope.after else envelope.before

/-- The tail of the loop body: the cursor moves behind the envelope. -/
def Client.accept (c : Client) (envelope : LiveRunEvent) (busy : Bool) : Client × List RunEvent :=
  let c := { c with liveCursor := envelope.after }
  match envelope.event with
  | none => (c,[])
  | some event => c.deliver event busy

/-- The body of the loop for one received envelope at a journal position. -/
def Client.handle (c : Client) (envelope : LiveRunEvent) (position : ℕ)
    (authoritative : Authoritative) (busy : Bool) : Client × List RunEvent :=
  let lagged := c.receiverLagged || envelope.published = .snapshotNeeded
  let c := { c with passed := position+1 }
  if lagged then
    let (frames,sent,recovery) :=
      recoverLaggedDelivery authoritative c.liveCursor (retainedBoundary envelope) c.sent
    let c := { c with receiverLagged := false, sent := sent }
    match recovery with
    | .close => ({ c with phase := .observationClosed },frames)
    | .terminal event =>
      let (c,last) := c.endWith event busy
      (c,frames ++ last)
    | .proceed =>
      let (c,rest) := c.accept envelope busy
      (c,frames ++ rest)
  else c.accept envelope busy

/-- A Run with its output log, its publisher, the attachment and the number of others.
`resizing` is a resize that holds the output lock and has yet to publish its event. The
publications of the current journal are remembered in order. -/
structure System where
  log : OutputLog
  events : LiveEvents
  others : ℕ
  resizing : Option RunEvent
  client : Option Client
  published : List Publication
deriving DecidableEq,Repr

/-- A Run whose log may have been recovered from a checkpoint. -/
def System.start (latestOutputBytes : ℕ) (checkpoint : Option ℕ) : System where
  log := .recoverTerminal latestOutputBytes checkpoint
  events := .new
  others := 0
  resizing := none
  client := none
  published := []

/-- Every event is one critical section; a publisher that saw no attachment publishes
nothing, so `publish` has no check of its own. It stands for every publisher but the resize. -/
inductive Event where
  | append (bytes : ℕ)
  | faultTerminal
  | resize (size : TerminalSize) (fault : Bool)
  | publishResized (grow refusals : Option ℕ)
  | publish (event : RunEvent) (grow refusals : Option ℕ)
  | subscribeOther (grow : Option ℕ)
  | receiveOther (reader : ℕ)
  | dropOther (reader : ℕ)
  | detachOther
  | takeSender
  | attach (grow : Option ℕ)
  | snapshot (authoritative : Authoritative)
  | receive (authoritative : Authoritative) (busy : Bool)
  | detach
deriving DecidableEq,Repr

namespace System

def attachments (s : System) : ℕ := s.others+(if s.client.isSome then 1 else 0)

/-- Publish and remember, unless the publisher panics. -/
def publishing (s : System) (event : RunEvent) (grow refusals : Option ℕ) : Option System :=
  match s.events.publish event grow refusals with
  | none => none
  | some (events,publication) =>
    some { s with events := events, published := s.published ++ publication.toList }

def ours (s : System) (reader : ℕ) : Bool := s.client.any (·.reader = reader)

/-- Apply a journal operation of another attachment's receiver. -/
def withOther (s : System) (reader : ℕ)
    (f : Journal.State LiveRunEvent → ℕ → Journal.State LiveRunEvent) : System :=
  if s.ours reader then s
  else
    match s.events.journal.position? reader with
    | none => s
    | some position => { s with events := { s.events with journal := f s.events.journal position } }

/-- One poll of the receiver: its new state and the frames that it sends. -/
def receive (s : System) (authoritative : Authoritative) (busy : Bool) : System × List RunEvent :=
  match s.client with
  | none => (s,[])
  | some c =>
    if c.phase ≠ .streaming then (s,[])
    else
      match s.events.journal.position? c.reader with
      | none => (s,[])
      | some position =>
        let (journal,result) := s.events.journal.tryRecv LiveRunEvent.isOutput c.reader position
        let s := { s with events := { s.events with journal := journal } }
        match result with
        | .event envelope =>
          let (c,frames) := c.handle envelope position authoritative busy
          ({ s with client := some c },frames)
        | .lagged _ => ({ s with client := some { c with receiverLagged := true } },[])
        | .closed => ({ s with client := some { c with phase := .finished } },[])
        | .empty => (s,[])
        | .panicked => (s,[])

/-- The header of the attachment, taken under the output lock. -/
def snapshot (s : System) (authoritative : Authoritative) : System :=
  match s.client,s.resizing with
  | some c,none =>
    if c.phase = .subscribed then
      { s with client := some { c with
        sent := ⟨s.log.latestOutputBytes,authoritative.nativeService.getD 0,s.log.resizeRevision⟩
        phase := if authoritative.terminal.isSome then .finished else .streaming } }
    else s
  | _,_ => s

def attach (s : System) (grow : Option ℕ) : System :=
  match s.client,s.events.journal.subscribe grow with
  | none,some (reader,journal) =>
    { s with
      events := { s.events with journal := journal }
      client := some ⟨reader,s.events.cursor,⟨0,0,0⟩,false,.subscribed,s.events.journal.next⟩ }
  | _,_ => s

def resize (s : System) (size : TerminalSize) (fault : Bool) : System :=
  if s.resizing.isSome then s
  else
    let (log,event) := s.log.resizeTerminal size fault
    if s.attachments = 0 then { s with log := log }
    else { s with log := log, resizing := some event }

def step (s : System) : Event → System
  | .append bytes =>
    if s.resizing.isSome then s
    else { s with log := { s.log with latestOutputBytes := s.log.latestOutputBytes+bytes } }
  | .faultTerminal =>
    if s.resizing.isSome then s else { s with log := { s.log with terminal := none } }
  | .resize size fault => s.resize size fault
  | .publishResized grow refusals =>
    match s.resizing with
    | none => s
    | some event =>
      match s.publishing event grow refusals with
      | none => s
      | some s' => { s' with resizing := none }
  | .publish event grow refusals =>
    if event.isResized || event.reportsGeometry then s
    else (s.publishing event grow refusals).getD s
  | .subscribeOther grow =>
    match s.events.journal.subscribe grow with
    | none => s
    | some (_,journal) =>
      { s with events := { s.events with journal := journal }, others := s.others+1 }
  | .receiveOther reader =>
    s.withOther reader fun journal position =>
      (journal.tryRecv LiveRunEvent.isOutput reader position).1
  | .dropOther reader =>
    s.withOther reader fun journal _ => journal.dropReceiver LiveRunEvent.isOutput reader
  | .detachOther => { s with others := s.others-1 }
  | .takeSender =>
    if s.attachments = 0 then
      { s with events := { s.events with journal := .new }, published := [] }
    else s
  | .attach grow => s.attach grow
  | .snapshot authoritative => s.snapshot authoritative
  | .receive authoritative busy => (s.receive authoritative busy).1
  | .detach =>
    match s.client with
    | none => s
    | some c =>
      { s with
        events := { s.events with
          journal := s.events.journal.dropReceiver LiveRunEvent.isOutput c.reader }
        client := none }

end System

end Attachment
end Ctxmux
