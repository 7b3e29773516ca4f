import Ctxmux.ManifestAccepted

/-!
# The Stop ledger survives an upgrade in place

From any drained registry the outgoing image takes a ledger that passes its checks, the
incoming image accepts every manifest that the outgoing one accepted, and the registry
it rebuilds keeps the same operations. The restored receipts are charged with their
complete diagnostics, so the two images can differ in whether they fund a fresh Stop,
and in nothing else.
-/

namespace Ctxmux
namespace Handoff

open Durable (RunId)
open Registry
open Machine

/-- The rebuilt registry `t` continues the old one `s`: it has the same snapshot, and a
request about a Run that both or neither of them retain is answered alike, unless it is
fresh and exactly one of the two budgets can fund it. `used` is what the input states
hold of the new budget. -/
structure Continues (s t : System) (operations : List HandoffStopOperation) (used : ℕ) : Prop where
  snapshot : t.handoffStopOperations = .ok operations
  replies : ∀ view conditions id key,
    (s.registry.runs.lookup id = none ↔ t.registry.runs.lookup id = none) →
      s.reply view conditions id key = t.reply view { conditions with controlUsed := used } id key ∨
        (s.Fresh id key ∧ conditions.allocation = none ∧
          ¬(s.CanFund conditions key ↔ t.CanFund { conditions with controlUsed := used } key))

/-- What the incoming image needs: the preserved budget, holding the manifest's own input
states. -/
def HandoffManifest.conditions (m : HandoffManifest) (sizes : HostSizes) : StopConditions :=
  ⟨none,m.inputControlBytes sizes,sizes.stopRecord⟩

theorem continues_of_keeps {s t : System} {operations : List HandoffStopOperation} (used : ℕ)
    (hs : Tabled s operations) (hsnapshot : Snapshot s operations) (ht : Tabled t operations) :
    Continues s t operations used := by
  obtain ⟨operations',hok,hsnapshot'⟩ := handoffStopOperations_ok ht.ledger ht.drained
  refine ⟨?_,fun view conditions id key hrun => hs.same_reply ht hrun view rfl⟩
  rw [hok,hsnapshot.unique hsnapshot' fun operation => by rw [← hs.keeps,← ht.keeps]]

/-- A drained registry hands off a ledger that passes its checks. Every manifest of the
current schema that passes the preflight is read back with equal content, and a registry
is rebuilt from it over the named Runs; if it carried that ledger, the registry continues
the old one. -/
theorem stop_ledger_survives_handoff (host : Host) (limits : Limits) (runs : RecoveredRuns)
    (events : List Event) (hdrained : (run System.step (System.recovered limits runs) events).Drained) :
    ∃ operations,
      (run System.step (System.recovered limits runs) events).handoffStopOperations =
        .ok operations ∧
      (∀ operation ∈ operations, operation.validate = .ok ()) ∧
      ∀ (m : HandoffManifest) (manifestFd : RawFd) (writes : FileWrites) (file : List Byte),
        m.schema = handoffSchema → writePreflight host manifestFd writes m = .ok file →
        host.decode ((host.encode m).flatten ++ [newline]) = .ok m →
          readManifest host manifestFd m.resources.handoffBytes file = .ok m ∧
          ∀ (incoming : Limits) (saved : SavedRuns),
            incoming.controlLimit = m.resources.controlStateBytes →
            (∀ operation ∈ m.stopOperations, operation.runId ∈ saved.runs.map (·.1)) →
              ∃ t, System.recoveredWithHandoff incoming saved m.stopOperations
                  (m.conditions host.sizes) = .done t ∧
                (∀ id, t.registry.runs.lookup id = none ↔ id ∉ saved.runs.map (·.1)) ∧
                (m.stopOperations = operations →
                  Continues (run System.step (System.recovered limits runs) events) t operations
                    (m.inputControlBytes host.sizes)) := by
  obtain ⟨howned,hledger⟩ := reached_ledger limits runs events
  obtain ⟨operations,hok,hsnapshot⟩ := handoffStopOperations_ok hledger hdrained
  refine ⟨operations,hok,fun operation hin => ?_,fun m manifestFd writes file hschema hwrite hjson =>
    ⟨readManifest_of_preflight hwrite hschema hjson,fun incoming saved hlimit hnamed => ?_⟩⟩
  · exact validate_keeps hledger hdrained.settled ((hsnapshot.keeps operation).mp hin)
  · have hfunded := funded_of_validate (writePreflight_ok hwrite).1
    obtain ⟨t,ht,htowned,htledger,htdrained,htkeeps,htruns⟩ :=
      recoveredWithHandoff_ok incoming (m.conditions host.sizes) rfl
        hfunded.valid hfunded.ids hfunded.keys hnamed (by rw [hlimit]; exact hfunded.funds)
    refine ⟨t,ht,htruns,fun hsame => ?_⟩
    rw [hsame] at htkeeps
    exact continues_of_keeps _ ⟨howned,hledger,hdrained,hsnapshot.keeps⟩ hsnapshot
      ⟨htowned,htledger,htdrained,fun operation => (htkeeps operation).symm⟩

/-- The default policy, with another control budget. -/
def defaultPolicy (controlStateBytes : ℕ) : ResourceLimits where
  liveRuns := none
  retainedRuns := none
  hotOutputBytes := 1073741824
  liveEventBytes := 67108864
  runOutputBytes := 1073741824
  metadataBytes := 67108864
  durableReplayBytes := none
  durableRunOutputBytes := none
  databaseBytes := none
  walCheckpointBytes := 8388608
  handoffBytes := 268435456
  controlStateBytes := controlStateBytes
  diagnosticQueueBytes := 67108864
  diagnosticRecordBytes := 1048576
  creationWorkers := 8
  foregroundObservationWorkers := 1
  foregroundObservationBytes := 1048576
  foregroundObservationTimeoutMs := 1000
  inputTurnCommands := 64
  inputTurnBytes := 262144
  stopAdmissionTimeoutMs := 250
  cleanupWorkers := 8
  finalizeWorkers := 8
  inputQueueCommands := 1024
  inputQueueBytes := 4194304
  inputResultEntries := 256
  inputResultBytes := 1048576
  tmuxDiscoveryBytes := 131072
  fits := by decide

/-- A policy whose control budget funds exactly two short receipts. -/
def tightPolicy : ResourceLimits := defaultPolicy 8568

def stoppedRun : RunId := ⟨"6f1c0a52-93a7-4d0e-8c55-0b1f7a2d9e01"⟩
def otherRun : RunId := ⟨"6f1c0a52-93a7-4d0e-8c55-0b1f7a2d9e02"⟩

def twoSaved : SavedRuns :=
  ⟨[(stoppedRun,"create-1",100),(otherRun,"create-2",100)],by decide,by decide⟩

def daemonLimits : Limits := ⟨16,16,67108864,8568⟩

def openView : View := fun _ => ⟨true,0,none,.ok (),.ok ()⟩

def receiptConditions : StopConditions := ⟨none,0,176⟩

/-- One Stop is admitted and settled. -/
def settledStop (result : StopResult) : List Event :=
  [.beginStop openView receiptConditions stoppedRun "stop-1",
    .settleStop ⟨stoppedRun,"stop-1",0⟩ result]

def settledDaemon (result : StopResult) : System :=
  run System.step (System.recovered daemonLimits twoSaved.recovered) (settledStop result)

def ledgerManifest (outcome : HandoffStopOutcome) : HandoffManifest :=
  .configured "6f1c0a52-93a7-4d0e-8c55-0b1f7a2d9eff" 3 ⟨2049,77⟩ 4 []
    [⟨stoppedRun,"stop-1",outcome⟩] [] tightPolicy

/-- The pieces of the serialized manifest, around the text of its one outcome. -/
def manifestPieces (outcome : List String) : List String :=
  ["\x7b\"schema\":\"ctxmux.daemon-handoff.v10\",",
  "\"epoch\":\"6f1c0a52-93a7-4d0e-8c55-0b1f7a2d9eff\",\"listener_fd\":3,",
  "\"listener_identity\":\x7b\"device\":2049,\"inode\":77\x7d,\"state_lock_fd\":4,\"runs\":[],",
  "\"stop_operations\":[\x7b\"run_id\":\"6f1c0a52-93a7-4d0e-8c55-0b1f7a2d9e01\",",
  "\"operation_key\":\"stop-1\",\"outcome\":"] ++ outcome ++
  ["\x7d],\"closed_inputs\":[],",
  "\"resources\":\x7b\"live_runs\":null,\"retained_runs\":null,\"hot_output_bytes\":1073741824,",
  "\"live_event_bytes\":67108864,\"run_output_bytes\":1073741824,\"metadata_bytes\":67108864,",
  "\"durable_replay_bytes\":null,\"durable_run_output_bytes\":null,\"database_bytes\":null,",
  "\"wal_checkpoint_bytes\":8388608,\"handoff_bytes\":268435456,\"control_state_bytes\":8568,",
  "\"diagnostic_queue_bytes\":67108864,\"diagnostic_record_bytes\":1048576,",
  "\"creation_workers\":8,\"foreground_observation_workers\":1,",
  "\"foreground_observation_bytes\":1048576,\"foreground_observation_timeout_ms\":1000,",
  "\"input_turn_commands\":64,\"input_turn_bytes\":262144,\"stop_admission_timeout_ms\":250,",
  "\"cleanup_workers\":8,\"finalize_workers\":8,\"input_queue_commands\":1024,",
  "\"input_queue_bytes\":4194304,\"input_result_entries\":256,\"input_result_bytes\":1048576,",
  "\"tmux_discovery_bytes\":131072\x7d\x7d"]

def textBytes (text : String) : List Byte := text.toByteArray.data.toList

theorem length_textBytes (text : String) : (textBytes text).length = text.utf8ByteSize :=
  Array.length_toList

def fileBytes (text : List String) : List Byte := (text.map textBytes).flatten ++ [newline]

theorem length_pieces (text : List String) :
    (text.map textBytes).flatten.length = (text.map String.utf8ByteSize).sum := by
  rw [List.length_flatten,List.map_map]
  exact congrArg List.sum (List.map_congr_left fun piece _ => length_textBytes piece)

/-- A host that serializes and reads back the one manifest. -/
def ledgerHost (m : HandoffManifest) (text : List String) : Host where
  sizes := ⟨176,256,128⟩
  encode := fun _ => text.map textBytes
  decode := fun bytes => if bytes = fileBytes text then .ok m else .error "expected value"
  parseEpoch := fun _ => .ok ()

theorem ledgerHost_decode (m : HandoffManifest) (text : List String) :
    (ledgerHost m text).decode (((ledgerHost m text).encode m).flatten ++ [newline]) = .ok m :=
  if_pos rfl

variable (outcome : HandoffStopOutcome) (text : List String)

theorem ledgerManifest_validate
    (hvalid : (⟨stoppedRun,"stop-1",outcome⟩ : HandoffStopOperation).validate = .ok ())
    (hcontrol : (⟨stoppedRun,"stop-1",outcome⟩ : HandoffStopOperation).controlMemoryBytes 176 ≤
      8568) :
    (ledgerManifest outcome).validate (ledgerHost (ledgerManifest outcome) text) 9 = .ok () := by
  have hpolicy : tightPolicy.validate ⟨176,256,128⟩ = .ok () := by decide +kernel
  have hfds : HandoffManifest.checkFds 9 [] [3,4] = .ok () := by decide +kernel
  have hsum : ((ledgerManifest outcome).stopOperations.map
      (·.controlMemoryBytes 176)).sum ≤ 8568 := by
    show (HandoffStopOperation.controlMemoryBytes ⟨stoppedRun,"stop-1",outcome⟩ 176::[]).sum ≤ 8568
    rw [List.sum_singleton]
    exact hcontrol
  have hinputs : (ledgerManifest outcome).inputControlBytes ⟨176,256,128⟩ = 0 := rfl
  have hstops : HandoffManifest.checkStops [] [] [⟨stoppedRun,"stop-1",outcome⟩] = .ok () := by
    simp [HandoffManifest.checkStops,hvalid]
  refine validate_of hpolicy rfl hfds rfl rfl ?_ hstops
  refine Nat.le_trans (Nat.min_le_left _ _) ?_
  rw [show (ledgerHost (ledgerManifest outcome) text).sizes = ⟨176,256,128⟩ from rfl,hinputs,
    Nat.zero_add]
  exact hsum

theorem ledgerManifest_preflight
    (hvalid : (⟨stoppedRun,"stop-1",outcome⟩ : HandoffStopOperation).validate = .ok ())
    (hcontrol : (⟨stoppedRun,"stop-1",outcome⟩ : HandoffStopOperation).controlMemoryBytes 176 ≤
      8568) (hlength : (text.map String.utf8ByteSize).sum < 268435456) :
    writePreflight (ledgerHost (ledgerManifest outcome) text) 9 [] (ledgerManifest outcome) =
      .ok (fileBytes text) := by
  refine writePreflight_whole (ledgerManifest_validate outcome text hvalid hcontrol) ?_
  show (text.map textBytes).flatten.length+1 ≤ 268435456
  rw [length_pieces]
  exact hlength

theorem drained_of_entries {s : System} (hsettled : s.settlements = [])
    (h : ∀ entry ∈ s.registry.runs.entries, entry.2.residency = .retained) : s.Drained :=
  ⟨hsettled,fun _ _ hentry => h _ (AList.mem_lookup_iff.mp hentry)⟩

theorem admitted_entries : ∀ entry ∈ (run System.step
    (System.recovered daemonLimits twoSaved.recovered)
    [.beginStop openView receiptConditions stoppedRun "stop-1"]).registry.runs.entries,
      entry.2.residency = .retained := by
  decide +kernel

theorem settledDaemon_drained {result : StopResult} (h : result.removes = false) :
    (settledDaemon result).Drained := by
  cases result with
  | applied receipt => exact drained_of_entries rfl admitted_entries
  | failed error disposition =>
    cases disposition with
    | notApplied => cases h
    | unknown => exact drained_of_entries rfl admitted_entries

def gracefulText : List String :=
  manifestPieces ["\x7b\"outcome\":\"accepted\",\"disposition\":\"graceful\"\x7d"]

/-- A graceful Stop is carried through a whole handoff. -/
theorem graceful_stop_survives_handoff :
    ∃ t, readManifest (ledgerHost (ledgerManifest (.accepted "graceful")) gracefulText) 9 268435456
        (fileBytes gracefulText) = .ok (ledgerManifest (.accepted "graceful")) ∧
      System.recoveredWithHandoff daemonLimits twoSaved
        [⟨stoppedRun,"stop-1",.accepted "graceful"⟩] ⟨none,0,176⟩ = .done t ∧
      Continues (settledDaemon (.applied "graceful")) t
        [⟨stoppedRun,"stop-1",.accepted "graceful"⟩] 0 := by
  have hwrite := ledgerManifest_preflight (.accepted "graceful") gracefulText (by decide) (by decide)
    (by decide +kernel)
  obtain ⟨operations,hok,-,hrest⟩ := stop_ledger_survives_handoff
    (ledgerHost (ledgerManifest (.accepted "graceful")) gracefulText) daemonLimits twoSaved.recovered
    (settledStop (.applied "graceful")) (settledDaemon_drained rfl)
  have hsnapshot : (settledDaemon (.applied "graceful")).handoffStopOperations =
      .ok [⟨stoppedRun,"stop-1",.accepted "graceful"⟩] := by decide +kernel
  have hoperations : [⟨stoppedRun,"stop-1",.accepted "graceful"⟩] = operations :=
    Except.ok.inj (hsnapshot.symm.trans hok)
  obtain ⟨hread,hrebuild⟩ := hrest _ 9 [] _ rfl hwrite (ledgerHost_decode _ _)
  obtain ⟨t,ht,-,hcontinues⟩ := hrebuild daemonLimits twoSaved rfl (by decide)
  refine ⟨t,hread,ht,?_⟩
  have hsame := hcontinues hoperations
  rw [← hoperations] at hsame
  exact hsame

/-- A diagnostic of so many bytes. -/
def diagnostic : ℕ → String
  | 0 => ""
  | n+1 => (diagnostic n).push 'x'

theorem diagnostic_size (n : ℕ) : (diagnostic n).utf8ByteSize = n := by
  induction n with
  | zero => rfl
  | succ n ih =>
    rw [diagnostic,String.utf8ByteSize_push,ih]
    rfl

def failedOutcome (message : String) : HandoffStopOutcome := .unknown ⟨.internal,message⟩ .unknown

def failedText (message : String) : List String :=
  manifestPieces ["\x7b\"outcome\":\"unknown\",\"failure\":\x7b\"error\":\x7b\"code\":\"internal\",",
    "\"message\":\"",message,
    "\"\x7d,\"disposition\":\"unknown\",\"confirmed_input_bytes\":null\x7d\x7d"]

def failedDaemon (message : String) : System :=
  settledDaemon (.failed ⟨.internal,message⟩ .unknown)

/-- The registry that the incoming image rebuilds from the failure. -/
def rebuiltDaemon (message : String) (charge : ℕ) : System :=
  (System.recovered daemonLimits twoSaved.recovered).withSettled
    ⟨some "create-1",none,true,100,.retained⟩ ⟨stoppedRun,"stop-1",failedOutcome message⟩ charge

variable {message : String}

theorem failedOutcome_charge (h : message.utf8ByteSize = 5000) :
    HandoffStopOperation.controlMemoryBytes ⟨stoppedRun,"stop-1",failedOutcome message⟩ 176 =
      5188 := by
  show saturatingAdd (stopReceiptCharge 176 "stop-1")
    (message.utf8ByteSize-resultDiagnosticReserveBytes) = 5188
  rw [h]
  decide

theorem failedDaemon_drained : (failedDaemon message).Drained := settledDaemon_drained rfl

theorem failedDaemon_snapshot : (failedDaemon message).handoffStopOperations =
    .ok (ledgerManifest (failedOutcome message)).stopOperations := rfl

theorem rebuiltDaemon_eq (h : message.utf8ByteSize = 5000) :
    System.recoveredWithHandoff daemonLimits twoSaved
      (ledgerManifest (failedOutcome message)).stopOperations ⟨none,0,176⟩ =
        .done (rebuiltDaemon message 5188) := by
  have hcheck : checkLedger (System.recovered daemonLimits twoSaved.recovered).registry [] []
      [⟨stoppedRun,"stop-1",failedOutcome message⟩] = .ok () := rfl
  have hlookup : (System.recovered daemonLimits twoSaved.recovered).registry.runs.lookup stoppedRun =
      some ⟨some "create-1",none,true,100,.retained⟩ := by decide +kernel
  have hfree : (System.recovered daemonLimits twoSaved.recovered).registry.stopRuns.lookup
      "stop-1" = none := by decide +kernel
  have hroom : ¬(System.recovered daemonLimits twoSaved.recovered).registry.controlLimit <
      0+(System.recovered daemonLimits twoSaved.recovered).registry.stopBytes+5188 := by
    decide +kernel
  show System.recoveredWithHandoff daemonLimits twoSaved
    [⟨stoppedRun,"stop-1",failedOutcome message⟩] ⟨none,0,176⟩ = _
  simp only [System.recoveredWithHandoff,restoreHandoffStopOperations,hcheck,restoreOperations,
    failedOutcome_charge h,if_neg hroom,hlookup,hfree,ne_eq,not_true_eq_false,if_false,
    rebuiltDaemon]

theorem failedText_preflight (h : message.utf8ByteSize = 5000) :
    writePreflight (ledgerHost (ledgerManifest (failedOutcome message)) (failedText message)) 9 []
      (ledgerManifest (failedOutcome message)) = .ok (fileBytes (failedText message)) := by
  refine ledgerManifest_preflight _ _ rfl (by rw [failedOutcome_charge h]; decide) ?_
  simp only [failedText,manifestPieces,List.map_append,List.map_cons,List.sum_append,List.sum_cons,h]
  decide +kernel

/-- The restored receipt is charged for its whole diagnostic: a fresh Stop that the old
image owned is refused by the new one. -/
theorem long_diagnostic_changes_answer :
    (failedDaemon (diagnostic 5000)).Drained ∧
    (failedDaemon (diagnostic 5000)).handoffStopOperations =
      .ok (ledgerManifest (failedOutcome (diagnostic 5000))).stopOperations ∧
    writePreflight (ledgerHost (ledgerManifest (failedOutcome (diagnostic 5000)))
        (failedText (diagnostic 5000))) 9 [] (ledgerManifest (failedOutcome (diagnostic 5000))) =
      .ok (fileBytes (failedText (diagnostic 5000))) ∧
    System.recoveredWithHandoff daemonLimits twoSaved
      (ledgerManifest (failedOutcome (diagnostic 5000))).stopOperations ⟨none,0,176⟩ =
        .done (rebuiltDaemon (diagnostic 5000) 5188) ∧
    (failedDaemon (diagnostic 5000)).reply openView receiptConditions otherRun "stop-2" =
      .done .owner ∧
    (rebuiltDaemon (diagnostic 5000) 5188).reply openView receiptConditions otherRun "stop-2" =
      .refused ⟨.controlBackpressure,
        "daemon control_state_bytes cannot fund a Stop receipt before its side effect"⟩ := by
  have hsize := diagnostic_size 5000
  refine ⟨failedDaemon_drained,failedDaemon_snapshot,failedText_preflight hsize,
    rebuiltDaemon_eq hsize,?_,?_⟩
  · decide +kernel
  · decide +kernel

end Handoff
end Ctxmux
