import Ctxmux.TerminalModel
import Ctxmux.Machine

/-!
# The output log with its terminal model

The terminal model is derived under the lock of the output log. A derivation that unwinds
drops the model and never the log. The checkpoint of a Run is one file that its owner
replaces when an offer is accepted and its fence is durable; a daemon that starts with a
new epoch does not read it, and one that replaced its image in place does.
-/

namespace Ctxmux
namespace Terminal

open Durable (Byte RunId OutputChunk OutputReplay)
open Output (OutputLog)
open Machine

variable {vt : Vt100}

inductive NativeTerminalFaultStage where
  | process | resize | «export» | recovery
deriving DecidableEq,Repr

structure NativeTerminalFault where
  stage : NativeTerminalFaultStage
  throughByte : ℕ
deriving DecidableEq,Repr

/-- The hot bytes of a Run and what is derived from them. -/
structure TerminalLog (vt : Vt100) where
  log : OutputLog
  terminal : Option (TerminalModel vt)
  terminalAbsence : TerminalCheckpointUnavailableReason
  resizeRevision : ℕ
  checkpointDirty : Bool
  terminalFault : Option NativeTerminalFault

namespace TerminalLog

variable (output : TerminalLog vt)

/-- The first fault is kept. -/
def noteTerminalFault (stage : NativeTerminalFaultStage) : TerminalLog vt :=
  { output with
    terminalFault := output.terminalFault.or (some ⟨stage,output.log.latestOutputBytes⟩) }

def ofLog (log : OutputLog) : TerminalLog vt where
  log := log
  terminal := none
  terminalAbsence := .originUnknown
  resizeRevision := 0
  checkpointDirty := false
  terminalFault := none

/-- A Run without a terminal has no model to begin with. -/
def newNative (id : RunId) (size : Option TerminalSize) (fault : Bool) : TerminalLog vt :=
  match size with
  | none => ofLog .new
  | some size =>
    let output : TerminalLog vt := ofLog .new
    if fault then
      noteTerminalFault { output with terminalAbsence := .invalidCheckpoint } .process
    else { output with terminal := some (TerminalModel.new id size) }

/-- A derivation from the model, which a fault drops. -/
def deriveTerminal {α : Type} (stage : NativeTerminalFaultStage) (fault : Bool)
    (derive : TerminalModel vt → α × TerminalModel vt) : Option α × TerminalLog vt :=
  match output.terminal with
  | none => (none,output)
  | some terminal =>
    if fault then (none,noteTerminalFault { output with
      terminal := none
      terminalAbsence := .invalidCheckpoint
      checkpointDirty := false } stage)
    else (some (derive terminal).1,{ output with terminal := some (derive terminal).2 })

/-- The revision of the log is raised before the model is resized; an addition that
overflows ends the call. -/
def resizeTerminal (size : TerminalSize) (fault : Bool) :
    Option (TerminalResize × TerminalLog vt) :=
  if 2^64 ≤ output.resizeRevision+1 then none
  else
    let throughByte := output.log.latestOutputBytes
    let raised := { output with resizeRevision := output.resizeRevision+1 }
    let derived := raised.deriveTerminal .resize fault fun terminal =>
      terminal.resize size throughByte
    some (derived.1.getD ⟨throughByte,output.resizeRevision+1,size⟩,
      { derived.2 with checkpointDirty := derived.2.terminal.isSome })

def terminalSnapshot (id : RunId) (fault : Bool) :
    (TerminalContinuation × List Byte) × TerminalLog vt :=
  let derived := output.deriveTerminal .export fault fun terminal =>
    terminal.continuation id output.log.firstAvailableByte output.log.latestOutputBytes
  (derived.1.getD
    (if derived.2.terminalAbsence = .invalidCheckpoint then .unavailable derived.2.terminalAbsence
      else .unknown derived.2.terminalAbsence,[]),derived.2)

def terminalPressure (id : RunId) (fault : Bool) : TerminalLog vt :=
  let derived := output.deriveTerminal .export fault fun terminal =>
    terminal.retentionCut id output.log.firstAvailableByte output.log.latestOutputBytes
  if derived.1.getD false = true then { derived.2 with checkpointDirty := true } else derived.2

/-- The mark is cleared whether or not the checkpoint is then saved. -/
def takeStoredCheckpoint (fault : Bool) : Option StoredCheckpoint × TerminalLog vt :=
  if output.checkpointDirty = false then (none,output)
  else
    let derived := deriveTerminal { output with checkpointDirty := false } .export fault
      fun terminal => (terminal.stored,terminal)
    (derived.1.join,derived.2)

def markSourceGap : TerminalLog vt :=
  { output with
    log := output.log.markHistoryGap
    terminal := none
    terminalAbsence := .sourceGap }

def markHistoryGap : TerminalLog vt := { output with log := output.log.markHistoryGap }

/-- A refused push changes nothing. -/
def pushProtected (perRunLimit : ℕ) (data : List Byte) (protectedFrom : ℕ) (fault : Bool) :
    TerminalLog vt :=
  match output.log.pushProtected perRunLimit data protectedFrom with
  | none => output
  | some (_,log) =>
    (deriveTerminal { output with log := log } .process fault fun terminal =>
      ((),terminal.process data)).2

def trimFrontBounded (dropAtLeast maximum : ℕ) : TerminalLog vt :=
  match output.log.trimFrontBounded dropAtLeast maximum with
  | none => output
  | some (_,log) => { output with log := log }

/-- A resize whose effect is unknown. -/
def resizeUnknown : TerminalLog vt :=
  noteTerminalFault { output with
    terminal := none
    terminalAbsence := .invalidCheckpoint } .resize

/-- The model of the saved checkpoint, unless it has another size than the one that the
terminal confirmed. -/
def recoverTerminal (id : RunId) (saved : Option StoredCheckpoint)
    (confirmedSize : Option TerminalSize) (fault : Bool) : TerminalLog vt :=
  match saved with
  | none => output
  | some saved =>
    let recovered := if fault then none else TerminalModel.recover id saved (output.log.replay 0)
    match recovered.filter fun terminal => confirmedSize.all (terminal.size = ·) with
    | some terminal =>
      { output with terminal := some terminal, resizeRevision := terminal.resizeRevision }
    | none =>
      noteTerminalFault { output with
        terminal := none
        terminalAbsence := .invalidCheckpoint } .recovery

end TerminalLog

/-- How a daemon comes to own a Run again. A cold start has a new epoch. An image that
replaced its predecessor keeps the epoch; the predecessor first saves the checkpoint of a
running Run, or withdraws it. -/
inductive Reopening where
  | coldStart (replay : OutputReplay) (sourceGap : Option ℕ)
  | upgrade (exportFault : Bool) (replay : OutputReplay) (sourceGap : Option ℕ)
      (confirmedSize : Option TerminalSize) (recoverFault : Bool)

/-- A Run over its owners. The last two fields are history: the last confirmed resize, and
whether one was confirmed after the stored checkpoint was taken. -/
structure TerminalRun (vt : Vt100) where
  id : RunId
  output : TerminalLog vt
  file : Option StoredCheckpoint
  running : Bool
  confirmedRevision : ℕ
  confirmedSize : TerminalSize
  unsaved : Bool

/-- What becomes of an offered checkpoint. -/
inductive OfferOutcome where
  | saved | queueFull | fenceNotDurable
deriving DecidableEq,Repr

/-- What happens to a Run under one owner. -/
inductive OwnedEvent where
  | push (data : List Byte) (protectedFrom : ℕ) (fault : Bool)
  | trim (dropAtLeast maximum : ℕ)
  | pressure (fault : Bool)
  | snapshot (fault : Bool)
  | resize (size : TerminalSize) (fault : Bool)
  | resizeUnknown
  | offer (fault : Bool) (outcome : OfferOutcome)
  | sourceGap
  | historyGap
  | exit
  | prepareUpgrade (fault : Bool)

inductive TerminalEvent where
  | owned (e : OwnedEvent)
  | reopen (reopening : Reopening)

namespace TerminalRun

def start (id : RunId) (size : TerminalSize) (fault : Bool) : TerminalRun vt where
  id := id
  output := .newNative id (some size) fault
  file := none
  running := true
  confirmedRevision := 0
  confirmedSize := size
  unsaved := false

variable (run : TerminalRun vt)

/-- `prepare_terminal_checkpoint_for_upgrade`, when its save succeeds. -/
def prepareUpgrade (fault : Bool) : TerminalRun vt :=
  let snapshot := run.output.terminalSnapshot run.id fault
  { run with
    output := snapshot.2
    file := match snapshot.1.1 with
      | .basicVt _ _ => snapshot.2.terminal.bind (·.stored)
      | _ => none
    unsaved := false }

/-- Only a running Run is prepared for an upgrade. -/
def prepared (fault : Bool) : TerminalRun vt := if run.running then run.prepareUpgrade fault else run

/-- Only a running Run comes with the size that its terminal confirmed. -/
def reopen : Reopening → TerminalRun vt
  | .coldStart replay sourceGap =>
    { run with
      output := .ofLog (.fromReplay replay sourceGap)
      file := none
      running := false }
  | .upgrade exportFault replay sourceGap confirmedSize recoverFault =>
    { run.prepared exportFault with
      output := (TerminalLog.ofLog (.fromReplay replay sourceGap)).recoverTerminal run.id
        (run.prepared exportFault).file (if run.running then confirmedSize else none) recoverFault }

/-- A resize is confirmed only with a size that has no zero dimension, and only a running
Run is resized. -/
def resize (size : TerminalSize) (fault : Bool) : TerminalRun vt :=
  if run.running = true ∧ size.isZero = false then
    match run.output.resizeTerminal size fault with
    | none => run
    | some (resize,output) =>
      { run with
        output := output
        confirmedRevision := resize.resizeRevision
        confirmedSize := size
        unsaved := true }
  else run

def offer (fault : Bool) (outcome : OfferOutcome) : TerminalRun vt :=
  let taken := run.output.takeStoredCheckpoint fault
  match taken.1,outcome with
  | some saved,.saved => { run with output := taken.2, file := some saved, unsaved := false }
  | _,_ => { run with output := taken.2 }

def act (perRunLimit : ℕ) : OwnedEvent → TerminalRun vt
  | .push data protectedFrom fault =>
    { run with output := run.output.pushProtected perRunLimit data protectedFrom fault }
  | .trim dropAtLeast maximum =>
    { run with output := run.output.trimFrontBounded dropAtLeast maximum }
  | .pressure fault => { run with output := run.output.terminalPressure run.id fault }
  | .snapshot fault => { run with output := (run.output.terminalSnapshot run.id fault).2 }
  | .resize size fault => run.resize size fault
  | .resizeUnknown => { run with output := run.output.resizeUnknown }
  | .offer fault outcome => run.offer fault outcome
  | .sourceGap => { run with output := run.output.markSourceGap }
  | .historyGap => { run with output := run.output.markHistoryGap }
  | .exit => { run with running := false }
  | .prepareUpgrade fault => run.prepared fault

def step (perRunLimit : ℕ) : TerminalEvent → TerminalRun vt
  | .owned e => run.act perRunLimit e
  | .reopen reopening => run.reopen reopening

end TerminalRun
end Terminal
end Ctxmux
