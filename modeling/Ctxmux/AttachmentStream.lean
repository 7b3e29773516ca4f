import Ctxmux.AttachmentLoop
import Ctxmux.AttachedHeader
import Ctxmux.ReplayPaging

/-!
# The output stream of an attachment

One attachment of a Run from its subscription to its last frame, beside everything that
may happen to the Run in between: chunks are pushed and published, the hot log is
reclaimed, the source loses bytes, the Run ends, and other attachments come and go. The
frames that were sent are remembered, and a client reads its own cursor off them.
-/

namespace Ctxmux
namespace Viewer

open Attachment (RunEvent LiveEvents LiveRunEvent LiveEventCursor OutputGapCauses Publication
  Client Fences TerminalState terminalEvent)
open Durable (Byte Codec RunId RunRow Store WellFormed Faithful OutputChunk OutputReplay
  PersistenceError)
open Output (OutputLog LogOrigin)
open Terminal (OutputReplayHeader attachmentReplayPage)

/-- Why the replay of an attachment stops. -/
inductive ReplayError where
  | storage (error : PersistenceError)
  | io (message : String)
deriving DecidableEq,Repr

/-- What the client is sent. The seed of a header is the byte at which its terminal
continuation begins. -/
inductive Frame where
  | attached (seed : Option ℕ) (replay : OutputReplayHeader)
  | output (chunk : OutputChunk)
  | replayWindow (firstAvailableByte latestOutputBytes : ℕ)
  | event (event : RunEvent)
  | error (reason : ReplayError)
deriving DecidableEq,Repr

def Frame.isTerminal : Frame → Bool
  | .event e => e.isTerminal
  | _ => false

/-- Where the cursor of the client stands behind a frame; an output frame that does not
begin at the cursor has no place in the stream. -/
def Frame.follow (afterByte cursor : ℕ) : Frame → Option ℕ
  | .attached seed replay => some (max (seed.getD afterByte) replay.firstAvailableByte)
  | .output chunk => if chunk.startByte = cursor then some chunk.endByte else none
  | .replayWindow firstAvailableByte _ => some (max cursor firstAvailableByte)
  | .event (.gap latestOutputBytes _) => some (max cursor latestOutputBytes)
  | .event (.output _) => none
  | .event _ => some cursor
  | .error _ => some cursor

def follow (afterByte : ℕ) : ℕ → List Frame → Option ℕ
  | cursor, [] => some cursor
  | cursor, frame::frames => do
    let cursor ← frame.follow afterByte cursor
    follow afterByte cursor frames

/-- A Run of a committed store. -/
structure StoredRun where
  codec : Codec
  streams : RunId → ℕ → Byte
  store : Store
  row : RunRow
  wellFormed : WellFormed codec store
  faithful : Faithful streams store.db store.files
  stored : row ∈ store.db.runs

def StoredRun.readReplayPage (r : StoredRun) (after through : ℕ) :
    Except PersistenceError OutputReplay :=
  Durable.loadReplayPage r.codec r.store r.row.id after through

/-- The durable page of `attachment_replay_page`: it is read if a store is active and the
cursor lies below the hot window. -/
def durablePage (durable : Option StoredRun) (before : OutputLog) (after through : ℕ) :
    Except PersistenceError (Option OutputReplay) :=
  match durable with
  | none => .ok none
  | some stored =>
    if after < before.firstAvailableByte then
      match stored.readReplayPage after
          (min before.firstAvailableByte (min before.latestOutputBytes through)) with
      | .ok page => .ok (some page)
      | .error error => .error error
    else .ok none

/-- Where an attachment stands. A page is read in two lock sections, and `floored` is the
log as the first of them found it; `observed` has the head that `Run::info` read. -/
inductive Stage where
  | subscribed
  | informed (terminal : Option TerminalState)
  | joined (terminal : Option TerminalState) (seed : Option ℕ) (head : ℕ)
      (floored : Option OutputLog)
  | replaying (terminal : Option TerminalState) (seeded : Bool) (cursor : ℕ)
      (floored : Option OutputLog)
  | finishing (terminal : TerminalState)
  | live
  | received (envelope : LiveRunEvent) (position : ℕ)
  | observed (envelope : LiveRunEvent) (position latestOutputBytes : ℕ)
  | closed
deriving DecidableEq,Repr

structure View where
  afterByte : ℕ
  client : Client
  stage : Stage
  frames : List Frame
deriving DecidableEq,Repr

def tailEvicted : String :=
  "terminal checkpoint original tail was evicted while replay was streaming; " ++
    "raw attachment remains available"

def terminalCatchupCause : OutputGapCauses := { OutputGapCauses.none with terminalCatchup := true }

/-- The payload of a live output event is the chunk that was pushed. -/
def liveFrame (pushed : List OutputChunk) : RunEvent → Frame
  | .output endByte =>
    match pushed.find? (·.endByte = endByte) with
    | some chunk => .output chunk
    | none => .event (.output endByte)
  | event => .event event

/-- The last frames of an attachment to a Run that had ended before its snapshot. -/
def finishTerminalSnapshot (terminal : TerminalState) (liveCursor cursorAfter : LiveEventCursor)
    (sentThroughByte : ℕ) : List RunEvent :=
  if liveCursor.observationRevision < cursorAfter.observationRevision then
    [.observationDiscontinuity,terminalEvent terminal]
  else if sentThroughByte < cursorAfter.outputBytes ∨
      liveCursor.outputDiscontinuityRevision < cursorAfter.outputDiscontinuityRevision then
    [.gap (max cursorAfter.outputBytes cursorAfter.latestOutputDiscontinuityByte)
      (terminalCatchupCause.union (cursorAfter.gapCauses.since liveCursor.gapCauses)),
      terminalEvent terminal]
  else [terminalEvent terminal]

namespace View

def send (v : View) (frames : List Frame) : View := { v with frames := v.frames ++ frames }

def ended (v : View) : Bool := v.frames.any Frame.isTerminal

/-- The cursor of the client behind all frames, if each has its place. -/
def followed (v : View) : Option ℕ := follow v.afterByte v.afterByte v.frames

/-- The end of the replay. -/
def replayDone (v : View) : Option TerminalState → View
  | some terminal => { v with stage := .finishing terminal }
  | none => { v with stage := .live, client := { v.client with phase := .streaming } }

/-- The head of the replay loop. -/
def replayFrom (v : View) (terminal : Option TerminalState) (seeded : Bool) (cursor : ℕ) : View :=
  if cursor < v.client.sent.sentThroughByte then
    { v with stage := .replaying terminal seeded cursor none }
  else v.replayDone terminal

/-- The header and the first page. A seed whose tail is no longer retained is withdrawn,
and the replay then starts at the byte that the client asked for. -/
def opening (v : View) (terminal : Option TerminalState) (seed : Option ℕ) (page : OutputReplay) :
    View :=
  let kept := seed.filter (page.firstAvailableByte ≤ ·)
  let replayStart := kept.getD v.afterByte
  let cursor := (page.chunks.getLast?).elim (max replayStart page.firstAvailableByte) (·.endByte)
  let sent := { v.client.sent with sentThroughByte := page.latestOutputBytes }
  let v := { v with client := { v.client with sent := sent } }
  (v.send (.attached kept ⟨page.firstAvailableByte,page.latestOutputBytes,page.truncated⟩::
    page.chunks.map .output)).replayFrom terminal kept.isSome cursor

/-- The body of the replay loop. -/
def replayed (v : View) (terminal : Option TerminalState) (seeded : Bool) (cursor : ℕ)
    (page : OutputReplay) : View :=
  let through := v.client.sent.sentThroughByte
  let evicted := decide (cursor < page.firstAvailableByte)
  if evicted && seeded then { v.send [.error (.io tailEvicted)] with stage := .closed }
  else
    let v := if evicted then v.send [.replayWindow (min page.firstAvailableByte through) through]
      else v
    let next := (page.chunks.getLast?).elim through (·.endByte)
    if next ≤ cursor then v.replayDone terminal
    else (v.send (page.chunks.map .output)).replayFrom terminal seeded next

end View

/-- A Run with its log, its publisher and one attachment among `others`. `pushed` are the
chunks since the log was made; `pushing` is a chunk whose push holds the output lock and
has yet to publish it. `final` is the head of what had been published when the Run ended,
and `late` is set by output that came after it. -/
structure System where
  perRunLimit : ℕ
  log : OutputLog
  pushed : List OutputChunk
  pushing : Option OutputChunk
  terminal : Option TerminalState
  final : Option ℕ
  late : Bool
  events : LiveEvents
  published : List Publication
  others : ℕ
  view : Option View

/-- The Run may have been recovered, and it may have ended before. -/
def System.start (perRunLimit : ℕ) (origin : LogOrigin) (terminal : Option TerminalState) :
    System where
  perRunLimit := perRunLimit
  log := origin.log
  pushed := []
  pushing := none
  terminal := terminal
  final := terminal.map fun _ => origin.log.latestOutputBytes
  late := false
  events := .new
  published := []
  others := 0
  view := none

/-- Every event is one critical section. `grow` and `refusals` are outcomes of the event
budget; a publisher that saw no attachment skips its event. `publish` stands for the
observations, resizes and service changes of the Run. `publish_interrupted` takes no output
lock and does not wait for the tmux reader beyond its drain timeout, so that a Run may end
in the middle of a push, and chunks may follow. -/
inductive Event where
  | push (data : List Byte) (protectedFrom : ℕ)
  | publishOutput (grow refusals : Option ℕ)
  | skipOutput
  | reclaim (dropAtLeast maximum : ℕ)
  | markSourceGap
  | publishGap (latestOutputBytes : ℕ) (causes : OutputGapCauses) (grow refusals : Option ℕ)
  | publish (event : RunEvent) (grow refusals : Option ℕ)
  | terminate (state : TerminalState)
  | publishTerminal (grow refusals : Option ℕ)
  | subscribeOther (grow : Option ℕ)
  | receiveOther (reader : ℕ)
  | dropOther (reader : ℕ)
  | detachOther
  | takeSender
  | attach (afterByte : ℕ) (grow : Option ℕ)
  | info
  | join (seed : Option ℕ) (serviceRevision resizeRevision : ℕ)
  | readFloor
  | readPage (durable : Option StoredRun)
  | receive
  | observe
  | handle (nativeService : Option ℕ) (busy : Bool)
  | release
  | finish
  | detach

namespace System

def attachments (s : System) : ℕ := s.others+(if s.view.isSome then 1 else 0)

/-- The head of what was published, or will be by nobody. -/
def settled (s : System) : ℕ := s.pushing.elim s.log.latestOutputBytes (·.startByte)

def publishing (s : System) (event : RunEvent) (grow refusals : Option ℕ) : Option System :=
  match s.events.publish event grow refusals with
  | none => none
  | some (events,publication) =>
    some { s with events := events, published := s.published ++ publication.toList }

def push (s : System) (data : List Byte) (protectedFrom : ℕ) : System :=
  if s.pushing.isSome then s
  else
    match s.log.pushProtected s.perRunLimit data protectedFrom with
    | none => s
    | some (chunk,log) =>
      { s with
        log := log
        pushed := s.pushed ++ [chunk]
        pushing := some chunk
        late := s.late || s.terminal.isSome }

def publishOutput (s : System) (grow refusals : Option ℕ) : System :=
  match s.pushing with
  | none => s
  | some chunk =>
    match s.publishing (.output chunk.endByte) grow refusals with
    | none => s
    | some s' => { s' with pushing := none }

/-- The log operations that take the output lock for themselves. -/
def effect (s : System) (event : Output.LogEvent) : System :=
  if s.pushing.isSome then s else { s with log := s.log.step s.perRunLimit event }

def publishTerminal (s : System) (grow refusals : Option ℕ) : System :=
  match s.terminal with
  | none => s
  | some state => (s.publishing (terminalEvent state) grow refusals).getD s

def ours (s : System) (reader : ℕ) : Bool := s.view.any (·.client.reader = reader)

/-- Apply a journal operation of another attachment's receiver. -/
def withOther (s : System) (reader : ℕ)
    (f : Journal.State LiveRunEvent → ℕ → Journal.State LiveRunEvent) : System :=
  if s.ours reader then s
  else
    match s.events.journal.position? reader with
    | none => s
    | some position => { s with events := { s.events with journal := f s.events.journal position } }

def attach (s : System) (afterByte : ℕ) (grow : Option ℕ) : System :=
  match s.view,s.events.journal.subscribe grow with
  | none,some (reader,journal) =>
    { s with
      events := { s.events with journal := journal }
      view := some
        { afterByte := afterByte
          client := ⟨reader,s.events.cursor,⟨0,0,0⟩,false,.subscribed,s.events.journal.next⟩
          stage := .subscribed
          frames := [] } }
  | _,_ => s

/-- A terminal continuation begins at or below the head. -/
def join (s : System) (v : View) (terminal : Option TerminalState) (seed : Option ℕ)
    (serviceRevision resizeRevision : ℕ) : View :=
  if s.pushing.isSome ∨ seed.any (s.log.latestOutputBytes < ·) then v
  else { v with
    stage := .joined terminal seed s.log.latestOutputBytes none
    client := { v.client with sent := ⟨0,serviceRevision,resizeRevision⟩ } }

/-- The first lock section of a page. -/
def readFloor (s : System) (v : View) : View :=
  if s.pushing.isSome then v
  else
    match v.stage with
    | .joined terminal seed head none => { v with stage := .joined terminal seed head (some s.log) }
    | .replaying terminal seeded cursor none =>
      { v with stage := .replaying terminal seeded cursor (some s.log) }
    | _ => v

/-- The page behind the durable read and the second lock section. -/
def page (s : System) (durable : Option StoredRun) (before : OutputLog) (after through : ℕ) :
    Except PersistenceError (Option OutputReplay) :=
  match durablePage durable before after through with
  | .ok stored => .ok (attachmentReplayPage before s.log after through stored)
  | .error error => .error error

def readPage (s : System) (v : View) (durable : Option StoredRun) : View :=
  if s.pushing.isSome then v
  else
    match v.stage with
    | .joined terminal seed head (some before) =>
      match s.page durable before (seed.getD v.afterByte) head with
      | .ok (some page) => v.opening terminal seed page
      | .ok none => v
      | .error error => { v.send [.error (.storage error)] with stage := .closed }
    | .replaying terminal seeded cursor (some before) =>
      match s.page durable before cursor v.client.sent.sentThroughByte with
      | .ok (some page) => v.replayed terminal seeded cursor page
      | .ok none => v
      | .error error => { v.send [.error (.storage error)] with stage := .closed }
    | _ => v

/-- One poll of the receiver. -/
def receive (s : System) (v : View) : System :=
  if v.stage ≠ .live ∨ v.client.phase ≠ .streaming then s
  else
    match s.events.journal.position? v.client.reader with
    | none => s
    | some position =>
      let (journal,result) :=
        s.events.journal.tryRecv LiveRunEvent.isOutput v.client.reader position
      let s := { s with events := { s.events with journal := journal } }
      match result with
      | .event envelope => { s with view := some { v with stage := .received envelope position } }
      | .lagged _ =>
        { s with view := some { v with client := { v.client with receiverLagged := true } } }
      | .closed => { s with view := some { v with client := { v.client with phase := .finished } } }
      | .empty => s
      | .panicked => s

/-- What the loop makes of the envelope, with the state of the Run as it is now. -/
def handle (s : System) (v : View) (nativeService : Option ℕ) (busy : Bool) : View :=
  match v.stage with
  | .observed envelope position latestOutputBytes =>
    let (client,events) := v.client.handle envelope position
      ⟨s.terminal,latestOutputBytes,nativeService⟩ busy
    { v.send (events.map (liveFrame s.pushed)) with stage := .live, client := client }
  | _ => v

/-- The event that was held goes out when no command is in flight any more. -/
def release (s : System) (v : View) : View :=
  match v.stage,v.client.phase,s.terminal with
  | .live,.held,some state =>
    { v.send [.event (terminalEvent state)] with client := { v.client with phase := .finished } }
  | _,_,_ => v

def finish (s : System) (v : View) : View :=
  match v.stage with
  | .finishing terminal =>
    { v.send ((finishTerminalSnapshot terminal v.client.liveCursor s.events.cursor
      v.client.sent.sentThroughByte).map (liveFrame s.pushed)) with stage := .closed }
  | _ => v

/-- One step of the attachment that changes nothing else. -/
def viewing (s : System) (f : View → View) : System := { s with view := s.view.map f }

def step (s : System) : Event → System
  | .push data protectedFrom => s.push data protectedFrom
  | .publishOutput grow refusals => s.publishOutput grow refusals
  | .skipOutput => if s.attachments = 0 then { s with pushing := none } else s
  | .reclaim dropAtLeast maximum => s.effect (.trim dropAtLeast maximum)
  | .markSourceGap => s.effect .markGap
  | .publishGap latestOutputBytes causes grow refusals =>
    if s.settled < latestOutputBytes then s
    else (s.publishing (.gap latestOutputBytes causes) grow refusals).getD s
  | .publish event grow refusals =>
    match event with
    | .output _ => s
    | .gap _ _ => s
    | .exited => s
    | .interrupted => s
    | _ => (s.publishing event grow refusals).getD s
  | .terminate state =>
    if s.terminal.isSome then s
    else { s with terminal := some state, final := some s.settled, late := s.pushing.isSome }
  | .publishTerminal grow refusals => s.publishTerminal grow refusals
  | .subscribeOther grow =>
    match s.events.journal.subscribe grow with
    | none => s
    | some (_,journal) =>
      { s with events := { s.events with journal := journal }, others := s.others+1 }
  | .receiveOther reader =>
    s.withOther reader fun journal position =>
      (journal.tryRecv LiveRunEvent.isOutput reader position).1
  | .dropOther reader =>
    s.withOther reader fun journal _ => journal.dropReceiver LiveRunEvent.isOutput reader
  | .detachOther => { s with others := s.others-1 }
  | .takeSender =>
    if s.attachments = 0 then
      { s with events := { s.events with journal := .new }, published := [] }
    else s
  | .attach afterByte grow => s.attach afterByte grow
  | .info =>
    s.viewing fun v =>
      if v.stage = .subscribed then { v with stage := .informed s.terminal } else v
  | .join seed serviceRevision resizeRevision =>
    s.viewing fun v =>
      match v.stage with
      | .informed terminal => s.join v terminal seed serviceRevision resizeRevision
      | _ => v
  | .readFloor => s.viewing s.readFloor
  | .readPage durable => s.viewing fun v => s.readPage v durable
  | .receive =>
    match s.view with
    | none => s
    | some v => s.receive v
  | .observe =>
    s.viewing fun v =>
      match v.stage with
      | .received envelope position =>
        { v with stage := .observed envelope position s.log.latestOutputBytes }
      | _ => v
  | .handle nativeService busy => s.viewing fun v => s.handle v nativeService busy
  | .release => s.viewing s.release
  | .finish => s.viewing s.finish
  | .detach =>
    match s.view with
    | none => s
    | some v =>
      { s with
        events := { s.events with
          journal := s.events.journal.dropReceiver LiveRunEvent.isOutput v.client.reader }
        view := none }

/-- Each output frame begins where the client stands, and an attachment that ended with
the Run has covered all of its output. -/
def GapHonest (s : System) : Prop :=
  ∀ v ∈ s.view, ∃ cursor ∈ v.followed,
    v.ended = true → s.log.latestOutputBytes ≤ cursor

/-- A client at `cursor` has all that was published when the Run ended, and all output if
none came late. -/
def EndsAt (s : System) (cursor : ℕ) : Prop :=
  (∃ f ∈ s.final, f ≤ cursor) ∧ (s.late = false → s.log.latestOutputBytes ≤ cursor)

/-- What holds of the stream: the frame that ends an attachment is its last, and the client
has the output of the Run, unless the frame before said that observations were lost. -/
def Honest (s : System) : Prop :=
  ∀ v ∈ s.view, ∃ cursor ∈ v.followed,
    v.ended = true → v.frames.getLast?.any Frame.isTerminal = true ∧
      (s.EndsAt cursor ∨
        v.frames.dropLast.getLast? = some (.event .observationDiscontinuity))

instance (s : System) : Decidable s.GapHonest :=
  inferInstanceAs (Decidable (∀ v ∈ s.view, ∃ cursor ∈ v.followed,
    v.ended = true → s.log.latestOutputBytes ≤ cursor))

instance (s : System) (cursor : ℕ) : Decidable (s.EndsAt cursor) :=
  inferInstanceAs (Decidable ((∃ f ∈ s.final, f ≤ cursor) ∧
    (s.late = false → s.log.latestOutputBytes ≤ cursor)))

instance (s : System) : Decidable s.Honest :=
  inferInstanceAs (Decidable (∀ v ∈ s.view, ∃ cursor ∈ v.followed,
    v.ended = true → v.frames.getLast?.any Frame.isTerminal = true ∧
      (s.EndsAt cursor ∨
        v.frames.dropLast.getLast? = some (.event .observationDiscontinuity))))

end System

/-- The header describes the page that follows it: the hot window has not left the head of
the snapshot behind, the client asks for no byte beyond that head, and a withdrawn seed
leaves no byte before the one that the client asked for. -/
def HeaderFits (afterByte : ℕ) (seed : Option ℕ) (head firstAvailableByte : ℕ) : Prop :=
  firstAvailableByte ≤ head ∧
    match seed with
    | none => afterByte ≤ head
    | some through => through < firstAvailableByte → afterByte ≤ firstAvailableByte

instance (afterByte head firstAvailableByte : ℕ) :
    (seed : Option ℕ) → Decidable (HeaderFits afterByte seed head firstAvailableByte)
  | none => inferInstanceAs (Decidable (firstAvailableByte ≤ head ∧ afterByte ≤ head))
  | some through => inferInstanceAs (Decidable (firstAvailableByte ≤ head ∧
      (through < firstAvailableByte → afterByte ≤ firstAvailableByte)))

/-- The header that a step sends fits, if it sends one. -/
def System.fits (s : System) : Event → Bool
  | .readPage durable =>
    s.view.all fun v =>
      match v.stage with
      | .joined _ seed head (some before) =>
        match s.page durable before (seed.getD v.afterByte) head with
        | .ok (some page) => HeaderFits v.afterByte seed head page.firstAvailableByte
        | _ => true
      | _ => true
  | _ => true

/-- The side condition of a step. -/
def Fits (s : System) (e : Event) : Prop := s.fits e = true

instance (s : System) (e : Event) : Decidable (Fits s e) :=
  inferInstanceAs (Decidable (s.fits e = true))

end Viewer
end Ctxmux
