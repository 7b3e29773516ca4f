import Ctxmux.InputBook

/-!
# The input ledger in every run

What the checked subtractions and the expectations of the control ask for in each
critical section, and the invariant that grants it: the book of the lane is balanced
whenever the state lock is free.
-/

namespace Ctxmux
namespace NativeControl

open MapTotals

/-- The accounting of the queue covers one command of this size. -/
def Releases (st : ControlState) (bytes : ℕ) : Prop := 1 ≤ st.inputCommands ∧ bytes ≤ st.inputBytes

/-- The retained bytes cover the entry of a key. -/
def Removes (st : ControlState) (key : InputOperationKey) : Prop :=
  ∀ entry ∈ st.inputOperations.lookup key, entry.request.data.length ≤ st.retainedInputRequestBytes

/-- A recoverable command has its ledger entry. -/
def Retains (st : ControlState) (reply : InputReply) : Prop :=
  ∀ key channel, reply = .recoverable key channel → st.inputOperations.lookup key ≠ none

def RemovesReply (st : ControlState) (reply : InputReply) : Prop :=
  ∀ key channel, reply = .recoverable key channel → Removes st key

/-- What `reject_queued_inputs` expects of each command it pops. -/
def Rejects (error : ProtocolError) : ControlState → List InputCommand → Prop
  | _, [] => True
  | st, command::queue =>
    Releases st command.data.length ∧
    (if command.confirmed = 0 then
      RemovesReply (releaseInputCapacity st command.data.length) command.reply
    else Retains (releaseInputCapacity st command.data.length) command.reply) ∧
    Rejects error (rejectCommand st error command).1 queue

/-- What `evict_completed_input_results` expects of each key it pops. -/
def Evicts (limits : ResourceLimits) (newBytes : ℕ) : ControlState → List InputOperationKey → Prop
  | _, [] => True
  | st, key::keys =>
    resultCapacityExceeded limits st newBytes = true →
      match st.inputOperations.lookup key with
      | some (.completed _ _) =>
        Removes st key ∧ Evicts limits newBytes (removeInputOperation st key) keys
      | _ => Evicts limits newBytes st keys

/-- What the failure arm of `progress_input` expects. -/
def Fails (o : Owner) (command : InputCommand) (rest : List InputCommand) (code : ErrorCode)
    (detail : String) : Prop :=
  let st := releaseInputCapacity { o.state with inputQueue := rest } command.data.length
  let r := inputFailure st o.runId code detail
  let failure := { unknownFailure r.2 with confirmedInputBytes := some command.confirmed }
  let retained := retainUnknownInputOperation r.1 command.reply failure
  Releases o.state command.data.length ∧ Retains st command.reply ∧
    Rejects r.2
      { retained with inputScheduled := false, inputBlocked := false, inputQueue := [] }
      retained.inputQueue

/-- What the arms behind a write attempt expect. -/
def Writes (o : Owner) (t : Turn) (command : InputCommand) (rest : List InputCommand)
    (w : WriteOutcome) : Prop :=
  match attempt o (min (command.data.length-command.confirmed) (t.maxBytes-t.bytes)) w with
  | .wrote written =>
    if 0 < written || command.data.isEmpty then
      written ≤ min (command.data.length-command.confirmed) (t.maxBytes-t.bytes) ∧
      (command.confirmed+written = command.data.length →
        o.state.appliedInputBytes+command.data.length < u64Limit ∧
          Releases o.state command.data.length ∧ Retains o.state command.reply)
    else Fails o command rest .io "PTY input write returned zero"
  | .wouldBlock => True
  | .interrupted => True
  | .failed detail => Fails o command rest .io s!"PTY input I/O failure: {detail}"
  | .unwound =>
    Fails o command rest .internal "PTY input writer unwound before confirming its attempt"

/-- What one iteration of `progress_input` expects. -/
def Progresses (o : Owner) (t : Turn) (w : WriteOutcome) : Prop :=
  laneRefusal o = none →
    match o.state.inputQueue with
    | [] => True
    | command::rest =>
      Retains o.state command.reply ∧
      if cursorRefused o.state command then
        command.confirmed = 0 ∧ Releases o.state command.data.length ∧
          RemovesReply o.state command.reply
      else Writes o t command rest w

/-- What settling everything queued with one error expects. -/
def RejectsInputs (st : ControlState) (error : ProtocolError) : Prop :=
  Rejects error { st with inputScheduled := false, inputBlocked := false, inputQueue := [] }
    st.inputQueue

/-- What the guard's drop expects. -/
def Drops (loss : Option NativeServiceFailure) (o : Owner) : Prop :=
  ∀ reason, (o.ownerFailure <|> loss) = some reason → o.state.ownerFailure = none →
    RejectsInputs
      { o.state with ownerFailure := some reason, stopPending := false, childCommands := [] }
      ownerStoppedError

def Closes (o : Owner) (phase : ControlPhase) (error : ProtocolError) : Prop :=
  RejectsInputs
    { o.state with phase := phase, childOpen := false, stopPending := false, childCommands := [] }
    error

def TurnExpects (o : Owner) : TurnOp → Prop
  | .drainChildCommands => True
  | .rejectPendingStop => True
  | .commitPendingStop =>
    RejectsInputs { o.state with stopPending := false, phase := .stopping } (stoppingError o)
  | .fenceChildCommands =>
    Closes o (closedPhase o.state.phase)
      (invalidPhaseError o.runId (closedPhase o.state.phase) "write to")

/-- A control turn expects what each of its operations expects where it stands. -/
def TurnsExpect : Owner → List TurnOp → Prop
  | _, [] => True
  | o, op::ops => TurnExpects o op ∧ TurnsExpect (turnOp o op) ops

/-- Everything that the critical section of an event expects. -/
def Expects (o : Owner) : Event → Prop
  | .beginInput data funded loss => Drops loss (beginInputLocked o data funded).1
  | .beginRecoverableInput key expectedByte data funded loss =>
    Evicts o.resources data.length o.state o.state.completedInputOperations ∧
      Drops loss (beginRecoverableInput o key expectedByte data funded).1
  | .beginTurn _ _ => True
  | .progress w loss => ∀ t, o.turn = some t → t.commands < t.maxCommands ∧ t.bytes < t.maxBytes →
      Progresses o t w ∧ Drops loss (progressInput o t w)
  | .busy => True
  | .controlTurn ops loss => TurnsExpect o ops ∧ Drops loss (ops.foldl turnOp o)
  | .beginStop loss => Drops loss (beginStopLocked o).1
  | .beginSignal foregroundGroup loss => Drops loss (beginSignalLocked o foregroundGroup).1
  | .cleanupUnpublished loss =>
    RejectsInputs (pushChildCommand { o.state with phase := .stopping } .cleanupUnpublished)
      (stoppingError o) ∧ Drops loss (cleanupUnpublished o)
  | .markClosed loss =>
    Closes o (closedPhase o.state.phase)
      (invalidPhaseError o.runId (closedPhase o.state.phase) "write to") ∧
      Drops loss (markClosed o)
  | .markWaitAuthorityLost error loss =>
    Closes o .failed ⟨.backendUnavailable,error⟩ ∧ Drops loss (markWaitAuthorityLost o error)
  | .fenceOwnerLoss reason _ => Drops (some reason) o
  | .observe loss => Drops loss o
  | .detachClosedDescriptors reap owners loss => Drops loss (detachClosedDescriptors o reap owners)

variable {base : HandoffInputState} {admitted : List Admission} {settled : List Settlement}
  {wire : List (ℕ × List Byte)} {st : ControlState} {c : InputCommand} {queue : List InputCommand}
  {limits : ResourceLimits} {key : InputOperationKey} {error : ProtocolError}

/-- The ledger entry of the front command, if it is recoverable. -/
theorem Lane.front (h : Lane base admitted settled wire st (c::queue)) {channel : ℕ}
    (hr : c.reply = .recoverable key channel) :
    ∃ expected, st.inputOperations.lookup key = some (.pending ⟨expected,c.data⟩ channel) := by
  obtain ⟨expected,hl,-⟩ := h.ledger.queued_pending c.ticket (by simp) key channel hr
  exact ⟨expected,hl⟩

theorem Lane.retains (h : Lane base admitted settled wire st (c::queue)) : Retains st c.reply := by
  intro key channel hr
  obtain ⟨expected,hl⟩ := h.front hr
  rw [hl]
  simp

theorem Lane.releases (h : Lane base admitted settled wire st (c::queue)) :
    Releases st c.data.length := by
  have hcommands := h.commands
  have hbytes := h.bytes
  simp only [List.length_cons,List.map_cons,List.sum_cons] at hcommands hbytes
  exact ⟨by omega,by omega⟩

theorem Balanced.removes (h : Balanced limits st.book) (key : InputOperationKey) :
    Removes st key := by
  intro entry hl
  have hretained : st.retainedInputRequestBytes = _ := h.retained
  rw [hretained]
  exact le_total InputOperationEntry.bytes hl

/-- The front command passed its cursor check, so its request is at the cursor. -/
theorem expected_eq_applied {channel expected : ℕ} (hcursor : cursorRefused st c = false)
    (hr : c.reply = .recoverable key channel)
    (hl : st.inputOperations.lookup key = some (.pending ⟨expected,c.data⟩ channel)) :
    expected = st.appliedInputBytes := by
  simp only [cursorRefused,hr,expectedCursor,hl,InputOperationEntry.request,Bool.or_eq_false_iff,
    decide_eq_false_iff_not,not_not] at hcursor
  exact hcursor.1

theorem applied_lt_limit (hcursor : cursorRefused st c = false) :
    st.appliedInputBytes+c.data.length < u64Limit := by
  simp only [cursorRefused,Bool.or_eq_false_iff,decide_eq_false_iff_not] at hcursor
  omega

/-- A command that crossed no byte leaves the queue and the ledger. -/
theorem balanced_notApplied (h : Lane base admitted settled wire st (c::queue))
    (hb : Balanced limits st.book) :
    Balanced limits
      (removeReplyOperation (releaseInputCapacity st c.data.length) c.reply).book := by
  have hreleased := hb.release c.data.length
  cases hr : c.reply with
  | legacy channel => exact hreleased
  | recoverable key channel =>
    obtain ⟨expected,hl⟩ := h.front hr
    have hlookup : (releaseInputCapacity st c.data.length).inputOperations.lookup key =
        some (.pending ⟨expected,c.data⟩ channel) := hl
    simp only [removeReplyOperation,removeInputOperation,hlookup]
    exact hreleased.remove hl

/-- A command that may have crossed becomes unknown and poisons the lane. -/
theorem balanced_unknown (h : Lane base admitted settled wire st (c::queue))
    (hb : Balanced limits st.book) (hnone : st.inputFailure = none)
    (hcursor : cursorRefused st c = false) {poison : ProtocolError}
    (hcode : poison.code = error.code) :
    Balanced limits (retainUnknownInputOperation
      { releaseInputCapacity st c.data.length with inputFailure := some poison } c.reply
      { unknownFailure error with confirmedInputBytes := some c.confirmed }).book := by
  have hreleased := hb.release c.data.length
  have hbound := h.recorded.bounded c (by simp)
  cases hr : c.reply with
  | legacy channel => exact hreleased.poison hnone poison
  | recoverable key channel =>
    obtain ⟨expected,hl⟩ := h.front hr
    have hlookup : (releaseInputCapacity st c.data.length).inputOperations.lookup key =
        some (.pending ⟨expected,c.data⟩ channel) := hl
    have heq := expected_eq_applied hcursor hr hl
    simp only [retainUnknownInputOperation,hlookup]
    refine hreleased.become_unknown hnone hl heq hcode rfl fun n hn => ?_
    cases hn
    exact hbound

theorem balanced_rejectCommand (h : Lane base admitted settled wire st (c::queue))
    (hb : Balanced limits st.book) (hnone : c.confirmed ≠ 0 → st.inputFailure = none)
    (error : ProtocolError) : Balanced limits (rejectCommand st error c).1.book := by
  unfold rejectCommand
  split
  · exact balanced_notApplied h hb
  · rename_i hc
    exact balanced_unknown h hb (hnone hc) (h.cursor c (by simp) hc) rfl

/-- Rejecting a lane meets every expectation and keeps the book balanced. -/
theorem rejects_of_lane (error : ProtocolError) (h : Lane base admitted settled wire st queue)
    (hb : Balanced limits st.book)
    (hnone : (∃ c ∈ queue, c.confirmed ≠ 0) → st.inputFailure = none) :
    Rejects error st queue ∧ Balanced limits (rejectLoop error st queue).1.book := by
  induction queue generalizing st settled with
  | nil => exact ⟨trivial,hb⟩
  | cons c queue ih =>
    have hfront := balanced_rejectCommand h hb (fun hc => hnone ⟨c,by simp,hc⟩) error
    obtain ⟨hrest,hbalanced⟩ := ih (h.rejectCommand error) hfront fun ⟨d,hd,hne⟩ =>
      absurd (h.waiting d hd) hne
    refine ⟨⟨h.releases,?_,hrest⟩,hbalanced⟩
    split
    · exact fun key _ _ => (show Balanced limits (releaseInputCapacity st _).book from
        hb.release c.data.length).removes key
    · exact fun key channel hr => h.retains key channel hr

variable {o : Owner}

theorem Sound.unpoisoned (h : Sound base o) {command : InputCommand}
    (hc : command ∈ o.state.inputQueue) : o.state.inputFailure = none := by
  cases hf : o.state.inputFailure with
  | none => rfl
  | some error =>
    rw [h.fenced (.inr (.inl (by simp [hf])))] at hc
    cases hc

theorem rejectsInputs_of_lane (error : ProtocolError)
    (h : Lane base admitted settled wire st st.inputQueue) (hb : Balanced limits st.book)
    (hnone : ∀ c ∈ st.inputQueue, st.inputFailure = none) :
    RejectsInputs st error ∧ Balanced limits (rejectQueuedInputs st error).1.book := by
  have hlane : Lane base admitted settled wire
      { st with inputScheduled := false, inputBlocked := false, inputQueue := [] } st.inputQueue :=
    h.of_fields rfl rfl rfl rfl rfl
  exact rejects_of_lane error hlane hb fun ⟨c,hc,_⟩ => hnone c hc

section

variable (h : Sound base o) (hb : Balanced limits o.state.book)
include h hb

/-- Rejecting everything queued after a change that the lane does not read. -/
theorem Sound.rejects_and_balances (error : ProtocolError) {st : ControlState}
    (hbook : st.book = o.state.book) (hqueue : st.inputQueue = o.state.inputQueue) :
    RejectsInputs st error ∧ Balanced limits (rejectQueuedInputs st error).1.book := by
  have hlane : Lane base o.admitted o.settled o.wire st st.inputQueue := by
    rw [hqueue]
    exact h.lane.of_fields (congrArg Book.failure hbook) (congrArg Book.commands hbook)
      (congrArg Book.bytes hbook) (congrArg Book.applied hbook) (congrArg Book.operations hbook)
  have hfailure : st.inputFailure = o.state.inputFailure := congrArg Book.failure hbook
  refine rejectsInputs_of_lane error hlane (hbook ▸ hb) fun c hc => ?_
  rw [hqueue] at hc
  rw [hfailure]
  exact h.unpoisoned hc

theorem Sound.rejectsInputs {st : ControlState} (hbook : st.book = o.state.book)
    (hqueue : st.inputQueue = o.state.inputQueue) : RejectsInputs st error :=
  (h.rejects_and_balances hb error hbook hqueue).1

theorem Sound.balanced_rejectInputs {st : ControlState} (hbook : st.book = o.state.book)
    (hqueue : st.inputQueue = o.state.inputQueue) (o' : Owner) :
    Balanced limits (rejectInputs o' st error).state.book :=
  (h.rejects_and_balances hb error hbook hqueue).2

theorem drops_of_sound (loss : Option NativeServiceFailure) :
    Drops loss o ∧ Balanced limits (release loss o).state.book := by
  refine ⟨fun reason _ _ => h.rejectsInputs hb rfl rfl,?_⟩
  unfold release settleOwnerLoss
  split
  · exact hb
  · split
    · exact hb
    · apply h.balanced_rejectInputs hb
      · rfl
      · rfl

end

theorem balanced_beginInputLocked (hb : Balanced o.resources o.state.book) (data : List Byte)
    (funded : Bool) : Balanced o.resources (beginInputLocked o data funded).1.state.book := by
  unfold beginInputLocked
  split
  · exact hb
  · split
    · exact hb
    · rename_i hroom
      split
      · exact hb
      · simp only [queueFull,Bool.or_eq_true,decide_eq_true_eq,not_or,Nat.not_le,Nat.not_lt] at hroom
        exact hb.enqueue hroom.1 hroom.2

/-- Eviction meets its expectations and keeps the book balanced. -/
theorem evicts_of_balanced (newBytes : ℕ) {keys : List InputOperationKey}
    (hkeys : st.completedInputOperations = keys) (hb : Balanced limits st.book) :
    Evicts limits newBytes st keys ∧ Balanced limits (evictLoop limits newBytes st keys).book := by
  have hgeneral : ∀ (keys : List InputOperationKey) (st : ControlState),
      Balanced limits { st.book with completed := keys } →
        Evicts limits newBytes st keys ∧ Balanced limits (evictLoop limits newBytes st keys).book := by
    intro keys
    induction keys with
    | nil => exact fun st hb => ⟨trivial,hb⟩
    | cons key keys ih =>
      intro st hb
      obtain ⟨request,range,hl⟩ := (hb.keys key).mp (by simp)
      have hl' : st.inputOperations.lookup key = some (.completed request range) := hl
      have hrest := ih (removeInputOperation st key) (by
        rw [removeInputOperation_completed hl']
        exact hb.evict rfl hl)
      have hremoves : Removes st key := fun entry hentry => by
        have hretained : st.retainedInputRequestBytes = _ := hb.retained
        rw [hretained]
        exact le_total InputOperationEntry.bytes hentry
      rw [evictLoop]
      constructor
      · intro _
        rw [hl']
        exact ⟨hremoves,hrest.1⟩
      · split
        · rw [hl']
          exact hrest.2
        · exact hb
  exact hgeneral keys st (by rw [← hkeys]; exact hb)

theorem inputRequest_ok {expectedByte : ℕ} {data : List Byte} {request : InputOperationRequest}
    (h : inputRequest key expectedByte data = .ok request) :
    validateKey key = .ok () ∧ data ≠ [] ∧ request = ⟨expectedByte,data⟩ := by
  unfold inputRequest at h
  split at h
  · cases h
  · rename_i hvalid
    split at h
    · cases h
    · rename_i hdata
      cases h
      exact ⟨hvalid,by simpa using hdata,rfl⟩

theorem retainedInputResult_none {request : InputOperationRequest} {runId : String}
    (h : retainedInputResult st key request runId = .ok none) :
    st.inputOperations.lookup key = none := by
  unfold retainedInputResult at h
  split at h
  · assumption
  · split at h
    · cases h
    · split at h <;> cases h

theorem balanced_beginRecoverableInput (hb : Balanced o.resources o.state.book)
    (key : InputOperationKey) (expectedByte : ℕ) (data : List Byte) (funded : Bool) :
    Balanced o.resources (beginRecoverableInput o key expectedByte data funded).1.state.book := by
  unfold beginRecoverableInput
  split
  · exact hb
  · rename_i request hrequest
    obtain ⟨hvalid,hdata,rfl⟩ := inputRequest_ok hrequest
    unfold beginRecoverableInputLocked
    split
    · exact hb
    · exact hb
    · rename_i hretained
      have hfree := retainedInputResult_none hretained
      split
      · exact hb
      · have hevicted := (evicts_of_balanced data.length rfl hb).2
        obtain ⟨ops,completed,retained,heq,hev⟩ :=
          evictCompletedInputResults_spec o.resources o.state data.length
        have hkey : (evictCompletedInputResults o.resources o.state data.length).inputOperations.lookup
            key = none := by
          rw [heq]
          rcases hev key with he | ⟨he,-⟩
          · exact he.trans hfree
          · exact he
        simp only
        split
        · exact hevicted
        · rename_i hroom
          split
          · exact hevicted
          · simp only [resultCapacityExceeded,queueFull,Bool.or_eq_true,decide_eq_true_eq,not_or,
              Nat.not_le,Nat.not_lt] at hroom
            obtain ⟨⟨hentries,hbytes⟩,hcommands,hqueue⟩ := hroom
            have hpending : Balanced o.resources
                (retainPendingInputOperation
                  (evictCompletedInputResults o.resources o.state data.length) key
                  ⟨expectedByte,data⟩ o.admitted.length).book :=
              hevicted.admit_pending hkey hvalid hdata hentries hbytes o.admitted.length
            exact hpending.enqueue hcommands hqueue

section Progress

variable {t : Turn} {command : InputCommand} {rest : List InputCommand}

section

variable (h : Sound base o) (hb : Balanced o.resources o.state.book) (hfree : laneRefusal o = none)
  (hq : o.state.inputQueue = command::rest) (hcursor : cursorRefused o.state command = false)
include h hb hfree hq hcursor

theorem fails_and_balances (code : ErrorCode) (detail : String) :
    Fails o command rest code detail ∧
      Balanced o.resources (failWrite o command rest code detail).state.book := by
  obtain ⟨-,-,hnone⟩ := laneRefusal_none hfree
  have hfront := h.front_lane hq
  have hpopped : Lane base o.admitted o.settled o.wire { o.state with inputQueue := rest }
      (command::rest) := hfront.of_fields rfl rfl rfl rfl rfl
  have hclean : ∀ s ∈ o.settled, ¬IsUnknown s := by
    intro s hs hu
    have hp := hfront.answered.poisoned ⟨s,hs,hu⟩
    simp [hnone] at hp
  let st := releaseInputCapacity { o.state with inputQueue := rest } command.data.length
  let r := inputFailure st o.runId code detail
  let failure := { unknownFailure r.2 with confirmedInputBytes := some command.confirmed }
  have hqueue : (retainUnknownInputOperation r.1 command.reply failure).inputQueue = rest :=
    congrArg Fences.inputQueue (retainUnknownInputOperation_fences r.1 command.reply failure)
  have hlane : Lane base o.admitted (o.settled ++ [(command,.error failure)]) o.wire
      (retainUnknownInputOperation r.1 command.reply failure) rest :=
    hpopped.settle_unknown hclean r.2 _
  have hbalanced : Balanced o.resources
      (retainUnknownInputOperation r.1 command.reply failure).book :=
    balanced_unknown hpopped hb hnone hcursor rfl
  have hrest : ∀ c ∈ rest, c.confirmed = 0 := hfront.waiting
  have hrejects := rejects_of_lane r.2
    (hlane.of_fields rfl rfl rfl rfl rfl : Lane base o.admitted _ o.wire
      { retainUnknownInputOperation r.1 command.reply failure with
        inputScheduled := false, inputBlocked := false, inputQueue := [] } rest) hbalanced
    fun ⟨c,hc,hne⟩ => absurd (hrest c hc) hne
  refine ⟨⟨hfront.releases,fun key channel hr => hfront.retains key channel hr,?_⟩,?_⟩
  · show Rejects _ _ (retainUnknownInputOperation r.1 command.reply failure).inputQueue
    rw [hqueue]
    exact hrejects.1
  · show Balanced o.resources (rejectQueuedInputs _ _).1.book
    unfold rejectQueuedInputs
    rw [hqueue]
    exact hrejects.2

theorem balanced_confirmWrite (written : ℕ) :
    Balanced o.resources (confirmWrite o t command rest written).state.book := by
  obtain ⟨-,-,hnone⟩ := laneRefusal_none hfree
  have hfront := h.front_lane hq
  unfold confirmWrite
  dsimp only
  split
  · exact hb
  · have hreleased := hb.release command.data.length
    cases hr : command.reply with
    | legacy channel => exact hreleased.advance hnone command.data.length
    | recoverable key channel =>
      obtain ⟨expected,hl⟩ := hfront.front hr
      have heq := expected_eq_applied hcursor hr hl
      simp only [retainCompletedInputOperation,releaseInputCapacity,hl,InputOperationEntry.request]
      exact hreleased.complete hnone hl heq (applied_lt_limit hcursor)

theorem writes_and_balances (w : WriteOutcome) :
    Writes o t command rest w ∧ Balanced o.resources (writeFront o t command rest w).state.book := by
  have hfront := h.front_lane hq
  unfold Writes writeFront
  cases hattempt : attempt o (min (command.data.length-command.confirmed) (t.maxBytes-t.bytes)) w with
  | wrote written =>
    simp only
    split
    · refine ⟨⟨attempt_wrote_le hattempt,fun _ => ⟨applied_lt_limit hcursor,hfront.releases,
        hfront.retains⟩⟩,balanced_confirmWrite h hb hfree hq hcursor written⟩
    · exact fails_and_balances h hb hfree hq hcursor _ _
  | wouldBlock => exact ⟨trivial,hb⟩
  | interrupted => exact ⟨trivial,hb⟩
  | failed detail => exact fails_and_balances h hb hfree hq hcursor _ _
  | unwound => exact fails_and_balances h hb hfree hq hcursor _ _

end

theorem progresses_and_balances (h : Sound base o) (hb : Balanced o.resources o.state.book)
    (w : WriteOutcome) :
    Progresses o t w ∧ Balanced o.resources (progressInput o t w).state.book := by
  unfold Progresses progressInput
  cases hfree : laneRefusal o with
  | some error => exact ⟨fun hnone => (by cases hnone),hb⟩
  | none =>
    simp only [Option.isSome_none,Bool.false_eq_true,if_false,true_implies]
    cases hq : o.state.inputQueue with
    | nil => exact ⟨trivial,hb⟩
    | cons command rest =>
      have hfront := h.front_lane hq
      simp only
      cases hcursor : cursorRefused o.state command with
      | true =>
        refine ⟨⟨hfront.retains,h.confirmed_eq_zero hq hcursor,hfront.releases,
          fun key _ _ => hb.removes key⟩,?_⟩
        exact balanced_notApplied
          (hfront.of_fields rfl rfl rfl rfl rfl : Lane base o.admitted o.settled o.wire
            { o.state with inputQueue := rest } (command::rest)) hb
      | false =>
        obtain ⟨hwrites,hbalanced⟩ := writes_and_balances (t := t) h hb hfree hq hcursor w
        exact ⟨⟨hfront.retains,hwrites⟩,hbalanced⟩

end Progress

theorem closes_and_balances (h : Sound base o) (hb : Balanced limits o.state.book)
    (phase : ControlPhase) (error : ProtocolError) :
    Closes o phase error ∧ Balanced limits (closeInputs o phase error).state.book := by
  constructor
  · apply h.rejectsInputs hb
    · rfl
    · rfl
  · apply h.balanced_rejectInputs hb
    · rfl
    · rfl

theorem turnExpects_and_balances (h : Sound base o) (hb : Balanced limits o.state.book)
    (op : TurnOp) : TurnExpects o op ∧ Balanced limits (turnOp o op).state.book := by
  cases op with
  | drainChildCommands => exact ⟨trivial,hb⟩
  | rejectPendingStop => exact ⟨trivial,hb⟩
  | commitPendingStop =>
    constructor
    · apply h.rejectsInputs hb
      · rfl
      · rfl
    · show Balanced limits (commitPendingStop o).1.state.book
      unfold commitPendingStop
      dsimp only
      split
      · exact hb
      · apply h.balanced_rejectInputs hb
        · rfl
        · rfl
  | fenceChildCommands => exact closes_and_balances h hb _ _

theorem turnsExpect_and_balance (ops : List TurnOp) (h : Sound base o)
    (hb : Balanced limits o.state.book) :
    TurnsExpect o ops ∧ Balanced limits (ops.foldl turnOp o).state.book := by
  induction ops generalizing o with
  | nil => exact ⟨trivial,hb⟩
  | cons op ops ih =>
    obtain ⟨hexpects,hbalanced⟩ := turnExpects_and_balances h hb op
    obtain ⟨hrest,hlast⟩ := ih (sound_turnOp h op) hbalanced
    exact ⟨⟨hexpects,hrest⟩,hlast⟩

theorem ChildAdmission.balanced {result : Owner × Except ControlFailure Unit}
    (ha : ChildAdmission o result) (hb : Balanced limits o.state.book) :
    Balanced limits result.1.state.book := by
  cases ha <;> exact hb

theorem cleanup_and_balances (h : Sound base o) (hb : Balanced limits o.state.book) :
    RejectsInputs (pushChildCommand { o.state with phase := .stopping } .cleanupUnpublished)
      (stoppingError o) ∧ Balanced limits (cleanupUnpublished o).state.book := by
  constructor
  · apply h.rejectsInputs hb
    · rfl
    · rfl
  · unfold cleanupUnpublished
    split
    · exact hb
    · split
      · exact hb
      · dsimp only
        split
        · exact hb
        · apply h.balanced_rejectInputs hb
          · rfl
          · rfl

theorem balanced_detachClosedDescriptors (hb : Balanced limits o.state.book)
    (reap : Except String Unit) (owners : ℕ) :
    Balanced limits (detachClosedDescriptors o reap owners).state.book := by
  unfold detachClosedDescriptors
  split
  · exact hb
  · exact hb

/-- One critical section: what it expects holds, and the book stays balanced. -/
theorem expects_and_balances (h : Sound base o) (hb : Balanced o.resources o.state.book)
    (e : Event) : Expects o e ∧ Balanced o.resources (step o e).state.book := by
  cases e with
  | beginInput data funded loss =>
    exact drops_of_sound (sound_beginInputLocked h data funded)
      (balanced_beginInputLocked hb data funded) loss
  | beginRecoverableInput key expectedByte data funded loss =>
    obtain ⟨hdrops,hbalanced⟩ := drops_of_sound (sound_beginRecoverableInput h key expectedByte data funded)
      (balanced_beginRecoverableInput hb key expectedByte data funded) loss
    exact ⟨⟨(evicts_of_balanced data.length rfl hb).1,hdrops⟩,hbalanced⟩
  | beginTurn maxCommands maxBytes =>
    refine ⟨trivial,?_⟩
    simp only [step]
    split
    · exact hb
    · exact hb
  | progress w loss =>
    cases ht : o.turn with
    | none =>
      refine ⟨fun t heq => ?_,?_⟩
      · rw [ht] at heq
        cases heq
      · simp only [step,ht]
        exact hb
    | some t =>
      obtain ⟨hprogresses,hprogressed⟩ := progresses_and_balances (t := t) h hb w
      obtain ⟨hdrops,hbalanced⟩ := drops_of_sound (sound_progressInput (t := t) h w) hprogressed loss
      refine ⟨fun t' heq _ => ?_,?_⟩
      · rw [ht] at heq
        cases heq
        exact ⟨hprogresses,hdrops⟩
      · simp only [step,ht]
        split
        · exact hbalanced
        · exact hb
  | busy => exact ⟨trivial,hb⟩
  | controlTurn ops loss =>
    obtain ⟨hexpects,hturned⟩ := turnsExpect_and_balance ops h hb
    obtain ⟨hdrops,hbalanced⟩ := drops_of_sound (sound_turnOps ops h) hturned loss
    exact ⟨⟨hexpects,hdrops⟩,hbalanced⟩
  | beginStop loss =>
    have ha := beginStopLocked_admission o
    exact drops_of_sound (ha.sound h) (ha.balanced hb) loss
  | beginSignal foregroundGroup loss =>
    have ha := beginSignalLocked_admission o foregroundGroup
    exact drops_of_sound (ha.sound h) (ha.balanced hb) loss
  | cleanupUnpublished loss =>
    obtain ⟨hrejects,hcleaned⟩ := cleanup_and_balances h hb
    obtain ⟨hdrops,hbalanced⟩ := drops_of_sound (sound_cleanupUnpublished h) hcleaned loss
    exact ⟨⟨hrejects,hdrops⟩,hbalanced⟩
  | markClosed loss =>
    obtain ⟨hcloses,hclosed⟩ := closes_and_balances h hb (closedPhase o.state.phase)
      (invalidPhaseError o.runId (closedPhase o.state.phase) "write to")
    obtain ⟨hdrops,hbalanced⟩ := drops_of_sound
      (sound_closeInputs h (closedPhase_ne_opened o.state.phase) _) hclosed loss
    exact ⟨⟨hcloses,hdrops⟩,hbalanced⟩
  | markWaitAuthorityLost error loss =>
    obtain ⟨hcloses,hclosed⟩ := closes_and_balances h hb .failed ⟨.backendUnavailable,error⟩
    have hfailed : ControlPhase.failed ≠ .opened := by decide
    obtain ⟨hdrops,hbalanced⟩ := drops_of_sound (sound_closeInputs h hfailed _) hclosed loss
    exact ⟨⟨hcloses,hdrops⟩,hbalanced⟩
  | fenceOwnerLoss reason busy =>
    have hcell : Sound base { o with ownerFailure := o.ownerFailure <|> some reason } := by
      refine ⟨h.lane,h.opened,h.fenced,?_⟩
      intro _
      cases o.ownerFailure <;> rfl
    refine ⟨(drops_of_sound h hb (some reason)).1,?_⟩
    simp only [step]
    split
    · exact hb
    · exact (drops_of_sound hcell hb none).2
  | observe loss => exact drops_of_sound h hb loss
  | detachClosedDescriptors reap owners loss =>
    exact drops_of_sound (sound_detachClosedDescriptors h reap owners)
      (balanced_detachClosedDescriptors hb reap owners) loss

theorem release_resources (loss : Option NativeServiceFailure) (o : Owner) :
    (release loss o).resources = o.resources := by
  unfold release settleOwnerLoss
  split
  · rfl
  · split
    · rfl
    · rfl

theorem beginInputLocked_resources (o : Owner) (data : List Byte) (funded : Bool) :
    (beginInputLocked o data funded).1.resources = o.resources := by
  unfold beginInputLocked
  split
  · rfl
  · split
    · rfl
    · split
      · rfl
      · rfl

theorem beginRecoverableInput_resources (o : Owner) (key : InputOperationKey) (expectedByte : ℕ)
    (data : List Byte) (funded : Bool) :
    (beginRecoverableInput o key expectedByte data funded).1.resources = o.resources := by
  unfold beginRecoverableInput
  split
  · rfl
  · unfold beginRecoverableInputLocked
    split
    · rfl
    · rfl
    · split
      · rfl
      · dsimp only
        split
        · rfl
        · split
          · rfl
          · rfl

theorem progressInput_resources (o : Owner) (t : Turn) (w : WriteOutcome) :
    (progressInput o t w).resources = o.resources := by
  unfold progressInput
  split
  · rfl
  · split
    · rfl
    · split
      · rfl
      · unfold writeFront
        split
        · split
          · unfold confirmWrite
            dsimp only
            split
            · rfl
            · rfl
          · rfl
        · rfl
        · rfl
        · rfl
        · rfl

theorem turnOps_resources (ops : List TurnOp) (o : Owner) :
    (ops.foldl turnOp o).resources = o.resources := by
  induction ops generalizing o with
  | nil => rfl
  | cons op ops ih =>
    rw [List.foldl_cons,ih]
    cases op with
    | drainChildCommands => rfl
    | rejectPendingStop => rfl
    | commitPendingStop =>
      show (commitPendingStop o).1.resources = _
      unfold commitPendingStop
      dsimp only
      split
      · rfl
      · rfl
    | fenceChildCommands => rfl

theorem step_resources (o : Owner) (e : Event) : (step o e).resources = o.resources := by
  cases e with
  | beginInput data funded loss =>
    exact (release_resources loss _).trans (beginInputLocked_resources o data funded)
  | beginRecoverableInput key expectedByte data funded loss =>
    exact (release_resources loss _).trans
      (beginRecoverableInput_resources o key expectedByte data funded)
  | beginTurn maxCommands maxBytes =>
    simp only [step]
    split
    · rfl
    · rfl
  | progress w loss =>
    simp only [step]
    split
    · rfl
    · split
      · exact (release_resources loss _).trans (progressInput_resources o _ w)
      · rfl
  | busy => rfl
  | controlTurn ops loss => exact (release_resources loss _).trans (turnOps_resources ops o)
  | beginStop loss =>
    refine (release_resources loss _).trans ?_
    unfold beginStopLocked
    repeat' split
    all_goals rfl
  | beginSignal foregroundGroup loss =>
    refine (release_resources loss _).trans ?_
    unfold beginSignalLocked
    repeat' split
    all_goals rfl
  | cleanupUnpublished loss =>
    refine (release_resources loss _).trans ?_
    unfold cleanupUnpublished
    dsimp only
    repeat' split
    all_goals rfl
  | markClosed loss => exact release_resources loss _
  | markWaitAuthorityLost error loss => exact release_resources loss _
  | fenceOwnerLoss reason busy =>
    simp only [step]
    split
    · rfl
    · exact release_resources none _
  | observe loss => exact release_resources loss _
  | detachClosedDescriptors reap owners loss =>
    refine (release_resources loss _).trans ?_
    unfold detachClosedDescriptors
    split
    · rfl
    · rfl

end NativeControl
end Ctxmux
