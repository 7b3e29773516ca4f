import Ctxmux.WindowPrune

/-!
# Lifecycle writers

Starts (with the exact terminal candidates they replace), removals, terminal
settlement and the startup batch that marks abandoned Runs interrupted. The JSON
columns are read and written by a codec that the store takes as given.
-/

namespace Ctxmux
namespace Durable

open Tiling

inductive InterruptionReason where
  | daemonRestart | tmuxServerUnavailable | tmuxProtocolError | tmuxTargetChanged
deriving DecidableEq,Repr

inductive RunState where
  | running
  | exited (code : ℕ) (signal : Option String)
  | interrupted (reason : InterruptionReason)
deriving DecidableEq,Repr

def stateKindFor : RunState → StateKind
  | .running => .running
  | .exited .. => .exited
  | .interrupted _ => .interrupted

/-- What a state document says under `ctxmux_source_gap_after_byte`: it is no JSON, the
key is absent, or the key holds a value, an unsigned integer or something else. -/
inductive GapFact where
  | malformed (message : String)
  | absent
  | cursor (value : Option ℕ)
deriving DecidableEq,Repr

/-- The serialization of the document columns, with the round trips that the store relies on. -/
structure Codec where
  parseKey : String → Except String Unit
  decodeSpec : String → Except String Unit
  parseLineageParent : String → Except String RunId
  parseState : String → Except String RunState
  gapFact : String → GapFact
  parseUuid : String → Bool
  stateText : RunState → String
  withGap : String → ℕ → String
  parseState_stateText : ∀ st, parseState (stateText st) = .ok st
  gapFact_stateText : ∀ st, gapFact (stateText st) = .absent
  parseState_withGap : ∀ st gap, parseState (withGap (stateText st) gap) = .ok st
  gapFact_withGap : ∀ st gap, gapFact (withGap (stateText st) gap) = .cursor (some gap)

def lifecycleMetadataReserveBytes : ℕ := 128

def metadataSize (id : RunId) (creationKey spec : String) (lineage : Option String)
    (state epoch : String) : ℕ :=
  id.text.utf8ByteSize+creationKey.utf8ByteSize+spec.utf8ByteSize+
    (lineage.map (·.utf8ByteSize)).getD 0+max state.utf8ByteSize lifecycleMetadataReserveBytes+
    epoch.utf8ByteSize

structure PreparedPersistentStart where
  operationKey : String
  id : RunId
  specJson : String
  lineageJson : Option String
  stateJson : String
  epoch : String
  metadataBytes : ℕ
deriving DecidableEq,Repr

structure PersistentCandidate where
  id : RunId
  operationKey : String
  metadataBytes : ℕ
deriving DecidableEq,Repr

/-- `prepare_start` of a Run whose specification was serialized to `specJson`. -/
def prepareStart (codec : Codec) (epoch : String) (operationKey : String) (id : RunId)
    (specJson : String) (lineageJson : Option String) : PreparedPersistentStart where
  operationKey := operationKey
  id := id
  specJson := specJson
  lineageJson := lineageJson
  stateJson := codec.stateText .running
  epoch := epoch
  metadataBytes := metadataSize id operationKey specJson lineageJson (codec.stateText .running) epoch

def ensure (condition : Prop) [Decidable condition] (error : PersistenceError) :
    Except PersistenceError Unit :=
  if condition then .ok () else .error error

/-- `map_err` of a codec failure. -/
def decoded {α : Type} (result : Except String α) (failure : String → PersistenceError) :
    Except PersistenceError α :=
  match result with
  | .ok value => .ok value
  | .error message => .error (failure message)

def validateLineage (codec : Codec) (id : RunId) (selfLineage : PersistenceError)
    (failure : String → PersistenceError) : Option String → Except PersistenceError Unit
  | none => .ok ()
  | some text => do
    let parent ← decoded (codec.parseLineageParent text) failure
    ensure (parent ≠ id) selfLineage

def validatePreparedStart (codec : Codec) (epoch : String) (prepared : PreparedPersistentStart) :
    Except PersistenceError Unit := do
  decoded (codec.parseKey prepared.operationKey)
    fun e => .mutation s!"invalid Run creation operation key: {e}"
  ensure (prepared.epoch = epoch) (.mutation "prepared Run start belongs to another daemon epoch")
  decoded (codec.decodeSpec prepared.specJson)
    fun e => .corrupt s!"invalid spec for {prepared.id}: {e}"
  let state ← decoded (codec.parseState prepared.stateJson)
    fun e => .mutation s!"serialization failed: {e}"
  ensure (state = .running) (.mutation "prepared persistent Run start is not running")
  validateLineage codec prepared.id (.mutation "prepared persistent Run has self lineage")
    (fun e => .mutation s!"serialization failed: {e}") prepared.lineageJson
  ensure (metadataSize prepared.id prepared.operationKey prepared.specJson prepared.lineageJson
      prepared.stateJson prepared.epoch = prepared.metadataBytes)
    (.mutation "prepared persistent Run metadata accounting changed")

/-- `DELETE FROM runs` of one exact terminal snapshot, with the error that the caller
gives to a snapshot that does not match. -/
def deleteExact (db : Database) (candidate : PersistentCandidate) (changed : PersistenceError) :
    Except PersistenceError Database :=
  match db.run? candidate.id with
  | some row =>
    if row.creationKey = candidate.operationKey ∧ row.metadataBytes = candidate.metadataBytes ∧
        row.stateKind ≠ .running then .ok (db.deleteRun candidate.id)
    else .error changed
  | none => .error changed

def applyExactReplacement (db : Database) (prepared : PreparedPersistentStart)
    (candidates : List PersistentCandidate) : Except PersistenceError Database := do
  let db ← candidates.foldlM (fun db candidate => deleteExact db candidate
    (.mutation s!"persistent replacement candidate {candidate.id} changed while staged")) db
  db.insertRun
    { id := prepared.id, creationKey := prepared.operationKey, specJson := prepared.specJson,
      lineageJson := prepared.lineageJson, stateKind := .running, stateJson := prepared.stateJson,
      sourceEpoch := prepared.epoch, pid := none, durableFirstAvailableByte := 0,
      durableOutputBytes := 0, replayBytes := 0, replayTruncated := false,
      metadataBytes := prepared.metadataBytes }

def removeTerminal (db : Database) (candidate : PersistentCandidate) :
    Except PersistenceError Database :=
  deleteExact db candidate (.mutation
    s!"persistent removal candidate {candidate.id} does not match its exact terminal snapshot")

/-- The terminal part of an output transaction: a native Run ends by an exit. -/
structure TerminalSettlement where
  id : RunId
  actualPid : UInt32
  code : ℕ
  signal : Option String
  sourceGap : Option ℕ
deriving DecidableEq,Repr

def TerminalSettlement.stateJson (codec : Codec) (terminal : TerminalSettlement) : String :=
  let text := codec.stateText (.exited terminal.code terminal.signal)
  match terminal.sourceGap with
  | none => text
  | some cursor => codec.withGap text cursor

def settleTerminal (codec : Codec) (db : Database) (terminal : TerminalSettlement) :
    Except PersistenceError Database := do
  let row ← db.selectRun terminal.id
  let stateJson := terminal.stateJson codec
  if row.stateKind ≠ .running then
    .error (.mutation s!"Run {terminal.id} is not durable running state")
  else
    .ok (db.updateRun terminal.id fun row =>
      { row with
        stateKind := .exited
        stateJson := stateJson
        metadataBytes := metadataSize row.id row.creationKey row.specJson row.lineageJson stateJson
          row.sourceEpoch
        pid := some terminal.actualPid.toNat })

/-- One row of the batch `StartupBatch::Reconcile`. -/
def reconcileStartupRow (codec : Codec) (db : Database) (id : RunId) :
    Except PersistenceError Database :=
  match db.run? id with
  | some row =>
    if row.stateKind = .running then
      .ok (db.updateRun id fun row =>
        { row with
          stateKind := .interrupted
          stateJson := codec.stateText (.interrupted .daemonRestart)
          pid := none
          metadataBytes := metadataSize row.id row.creationKey row.specJson row.lineageJson
            (codec.stateText (.interrupted .daemonRestart)) row.sourceEpoch })
    else .error (.mutation s!"startup running Run {id} changed before reconciliation")
  | none => .error (.mutation s!"startup running Run {id} changed before reconciliation")

/-- `load_startup_running_prefix` and the batch made of it: up to `limit` running Runs
that no handoff kept alive. -/
def applyStartupBatch (codec : Codec) (db : Database) (liveSet : List RunId) (limit : ℕ) :
    Except PersistenceError Database :=
  (((db.runs.filter fun row => row.stateKind = .running ∧ row.id ∉ liveSet).map (·.id)).take
    limit).foldlM (reconcileStartupRow codec) db

namespace SampleCodec

def reasonChar : InterruptionReason → Char
  | .daemonRestart => 'd'
  | .tmuxServerUnavailable => 'u'
  | .tmuxProtocolError => 'p'
  | .tmuxTargetChanged => 'c'

def reasonOf : Char → InterruptionReason
  | 'd' => .daemonRestart
  | 'u' => .tmuxServerUnavailable
  | 'p' => .tmuxProtocolError
  | _ => .tmuxTargetChanged

def runningChars : List Char := "\x7b\"type\":\"running\"\x7d".toList

def stateChars : RunState → List Char
  | .running => runningChars
  | .exited code none => 'n'::List.replicate code '1'
  | .exited code (some signal) => 's'::(List.replicate code '1' ++ '.'::signal.toList)
  | .interrupted reason => ['i',reasonChar reason]

def gapChars (gap : ℕ) (text : List Char) : List Char :=
  'g'::(List.replicate gap '1' ++ '.'::text)

def parseBare : List Char → Except String RunState
  | 'n'::code => .ok (.exited code.length none)
  | 's'::text => .ok (.exited (text.takeWhile (· = '1')).length
      (some (String.ofList ((text.dropWhile (· = '1')).drop 1))))
  | ['i',reason] => .ok (.interrupted (reasonOf reason))
  | text => if text = runningChars then .ok .running else .error "invalid state"

def parseChars : List Char → Except String RunState
  | 'g'::text => parseBare ((text.dropWhile (· = '1')).drop 1)
  | text => parseBare text

def gapFactChars : List Char → GapFact
  | 'g'::text => .cursor (some (text.takeWhile (· = '1')).length)
  | _ => .absent

theorem parseBare_stateChars (st : RunState) : parseBare (stateChars st) = .ok st := by
  cases st with
  | running => decide
  | exited code signal =>
    cases signal <;> simp [stateChars,parseBare]
  | interrupted reason => cases reason <;> rfl

theorem stateChars_no_gap (st : RunState) :
    parseChars (stateChars st) = parseBare (stateChars st) ∧ gapFactChars (stateChars st) = .absent := by
  cases st with
  | running => exact ⟨rfl,rfl⟩
  | exited code signal => cases signal <;> exact ⟨rfl,rfl⟩
  | interrupted reason => exact ⟨rfl,rfl⟩

end SampleCodec

open SampleCodec in
/-- A codec to run the store with: the document of a running Run is the real one, the
others write their numbers in unary. -/
def sampleCodec : Codec where
  parseKey _ := .ok ()
  decodeSpec _ := .ok ()
  parseLineageParent text := .ok ⟨text⟩
  parseState text := parseChars text.toList
  gapFact text := gapFactChars text.toList
  parseUuid _ := true
  stateText st := String.ofList (stateChars st)
  withGap text gap := String.ofList (gapChars gap text.toList)
  parseState_stateText st := by
    simp [(stateChars_no_gap st).1,parseBare_stateChars]
  gapFact_stateText st := by
    simp [(stateChars_no_gap st).2]
  parseState_withGap st gap := by
    simp [gapChars,parseChars,parseBare_stateChars]
  gapFact_withGap st gap := by
    simp [gapChars,gapFactChars]

end Durable
end Ctxmux
