import Ctxmux.AnswersAccepted

/-!
# The control outcomes that both clients accept
-/

namespace Ctxmux
namespace Answers

open NativeControl (Owner Byte InputOperationKey)
open Client (ControlOutcome ControlReceipt ControlFailure PendingKind RunSignal
  validateControlFailure)
open Attachment (TerminalSize)

section Fair

variable {access : Access}

theorem waitAdmission_refused {recoverable : Bool} (hreal : access.Real)
    (hshort : recoverable = false) {failure : NativeControl.ControlFailure}
    (h : waitAdmissionState access recoverable = .error failure) :
    ∃ error, failure = NativeControl.notApplied error := by
  rcases waitAdmissionState_cases hreal recoverable with ⟨o,-,hw⟩ | ⟨error,hw⟩ | ⟨ht,-⟩
  · rw [hw] at h
    cases h
  · rw [hw] at h
    cases h
    exact ⟨error,rfl⟩
  · rw [hshort] at ht
    cases ht

theorem resizeLocked_fair (o : Owner) {pty : PtyResize}
    (hpty : ∀ applied, pty = .reported applied → applied.cols ≤ 0xffff ∧ applied.rows ≤ 0xffff) :
    Fair .resize (resizeLocked o pty) := by
  unfold resizeLocked
  split
  · exact fair_notApplied _ _
  · split
    · exact legal_notApplied _ _
    · cases pty with
      | closed => exact fair_unknown _ (fun hcode => (by cases hcode))
      | resizeFailed error => exact fair_unknown _ (fun hcode => (by cases hcode))
      | readFailed error => exact fair_unknown _ (fun hcode => (by cases hcode))
      | reported applied =>
        dsimp only
        split
        · next hz =>
          have hvalid : PendingKind.resize.validate (.resize applied) = .ok (.resize ⟨applied⟩) := by
            simp [PendingKind.validate,Client.decodeResizeReceipt,hz,Except.map,Except.mapError]
          exact ⟨hpty applied rfl,_,hvalid⟩
        · exact fair_unknown _ (fun hcode => (by cases hcode))

theorem resizeAsync_fair (access : Access) (size : TerminalSize) {pty : PtyResize}
    (hpty : ∀ applied, pty = .reported applied → applied.cols ≤ 0xffff ∧ applied.rows ≤ 0xffff) :
    Fair .resize (resizeAsync access size pty) := by
  unfold resizeAsync
  split
  · exact fair_notApplied _ _
  · apply controlled_fair
    split
    · split
      · exact fair_notApplied _ _
      · exact resizeLocked_fair _ hpty
    · exact fair_notApplied _ _

theorem signalAsync_fair (hreal : access.Real) (requested : RunSignal) (group : Option ℕ)
    (reply : Option (Except String Unit)) :
    Fair (.signal requested) (signalAsync access requested group reply) := by
  unfold signalAsync
  apply controlled_fair
  split
  · next failure hw =>
    obtain ⟨error,rfl⟩ := waitAdmission_refused hreal rfl hw
    exact legal_notApplied _ error
  · rename_i o _
    split
    · next failure hb =>
      have ha := NativeControl.beginSignalLocked_admission o group
      rw [hb] at ha
      obtain ⟨error,rfl⟩ := ha.notApplied
      exact legal_notApplied _ error
    · split
      · have hvalid : (PendingKind.signal requested).validate (.signal requested) =
            .ok (.signal ⟨requested⟩) := by
          simp [PendingKind.validate,Client.decodeSignalReceipt,Except.map,Except.mapError]
        exact ⟨trivial,_,hvalid⟩
      · exact fair_unknown _ (fun hcode => (by cases hcode))
      · exact fair_unknown _ (fun hcode => (by cases hcode))

theorem stopSettlement_fair (hreal : access.Real) (reply : StopReply) :
    Fair .stop (stopSettlement access reply) := by
  unfold stopSettlement
  apply controlled_fair
  split
  · next failure hw =>
    obtain ⟨error,rfl⟩ := waitAdmission_refused hreal rfl hw
    exact legal_notApplied _ error
  · rename_i o _
    split
    · next failure hb =>
      have ha := NativeControl.beginStopLocked_admission o
      rw [hb] at ha
      obtain ⟨error,rfl⟩ := ha.notApplied
      exact legal_notApplied _ error
    · cases reply with
      | accepted disposition => exact ⟨trivial,.stop ⟨disposition⟩,rfl⟩
      | rejected error => exact fair_notApplied _ error
      | unknown error => exact fair_unknown _ (fun hcode => (nomatch hcode))
      | dropped => exact fair_unknown _ (fun hcode => (nomatch hcode))
      | timedOut => exact fair_unknown _ (fun hcode => (nomatch hcode))
      | settlementEnded => exact fair_unknown _ (fun hcode => (nomatch hcode))

theorem recoverableStop_fair (hreal : access.Real) (registryError : Option Client.ProtocolError)
    (reply : StopReply) (visible : Bool) :
    Fair .stop (recoverableStop access registryError reply visible) := by
  unfold recoverableStop
  split
  · exact fair_notApplied _ _
  · have hsettled := stopSettlement_fair hreal reply
    cases hs : stopSettlement access reply with
    | accepted receipt =>
      rw [hs] at hsettled
      dsimp only
      split
      · exact hsettled
      · exact fair_unknown _ (fun hcode => (nomatch hcode))
    | rejected failure =>
      rw [hs] at hsettled
      exact hsettled

end Fair

def Request.kind : Request → PendingKind
  | .input data | .recoverableInput _ _ data => .input data.length
  | .resize _ _ => .resize
  | .signal requested _ _ => .signal requested
  | .stop _ _ _ _ => .stop

/-- A request of one frame, on a PTY whose dimensions have 16 bits. -/
def Request.Sent : Request → Prop
  | .input data | .recoverableInput _ _ data => data.length ≤ Wire.maxFrameBytes
  | .resize _ pty =>
    ∀ applied, pty = .reported applied → applied.cols ≤ 0xffff ∧ applied.rows ≤ 0xffff
  | _ => True

theorem Request.Sent.kind_le {request : Request} (h : request.Sent) :
    request.kind.inputBytes ≤ Client.maxPendingInputBytes := by
  cases request with
  | input data => exact le_trans h (by decide)
  | recoverableInput key expectedByte data => exact le_trans h (by decide)
  | resize size pty => exact Nat.zero_le _
  | signal requested group reply => exact Nat.zero_le _
  | stop operation registryError reply visible => exact Nat.zero_le _

/-- The Rust client's check of the outcome of a short request. -/
def RustShort (kind : PendingKind) : ControlOutcome → Prop
  | .accepted receipt => ∃ valid, kind.validate receipt = .ok valid
  | .rejected failure => validateControlFailure failure = .ok ()

/-- The Rust client's check that an applied range proves its request. -/
def RustApplied (runId : String) (expectedByte bytes : ℕ) (run : RunInfo)
    (range : NativeControl.AppliedInputRange) : Prop :=
  run.id = runId ∧ range.startByte = expectedByte ∧ range.endByte = expectedByte+bytes ∧
    ∃ cursor, run.appliedInputBytes = some cursor ∧ range.endByte ≤ cursor

/-- The SDK's: its decoder takes safe integers only, and so does its sum. -/
def SdkApplied (runId : String) (expectedByte bytes : ℕ) (run : RunInfo)
    (range : NativeControl.AppliedInputRange) : Prop :=
  (∀ cursor, run.appliedInputBytes = some cursor → cursor ≤ Sdk.maxSafeInteger) ∧
    range.startByte ≤ Sdk.maxSafeInteger ∧ range.endByte ≤ Sdk.maxSafeInteger ∧
    expectedByte+bytes ≤ Sdk.maxSafeInteger ∧ run.id = runId ∧ range.startByte = expectedByte ∧
    range.endByte = expectedByte+bytes ∧
    ∃ cursor, run.appliedInputBytes = some cursor ∧ expectedByte+bytes ≤ cursor

/-- The Rust client accepts an applied range, and the SDK does so while the cursor is a safe
integer. -/
def AppliedAccepted (runId : String) (expectedByte bytes : ℕ) (run : RunInfo)
    (range : NativeControl.AppliedInputRange) : Prop :=
  RustApplied runId expectedByte bytes run range ∧
    ((∀ cursor, run.appliedInputBytes = some cursor → cursor ≤ Sdk.maxSafeInteger) →
      SdkApplied runId expectedByte bytes run range)

/-- Both clients take the answer; an applied range answers a recoverable Input only. -/
def ShortAccepted (runId : String) (request : Request) : Answer → Prop
  | .applied run range =>
    match request with
    | .recoverableInput _ expectedByte data =>
      AppliedAccepted runId expectedByte data.length run range
    | _ => False
  | .outcome outcome => RustShort request.kind outcome ∧ (sdkDecision request.kind outcome).isSome

def AttachmentAccepted (kind : PendingKind) (outcome : ControlOutcome) : Prop :=
  (rustDecision kind outcome).isSome ∧ (sdkDecision kind outcome).isSome

theorem attachment_fair {kind : PendingKind} {outcome : ControlOutcome} (h : Fair kind outcome)
    (hkind : kind.inputBytes ≤ Client.maxPendingInputBytes) : AttachmentAccepted kind outcome := by
  unfold AttachmentAccepted
  cases outcome with
  | accepted receipt =>
    obtain ⟨hwf,valid,hvalid⟩ := h
    have hrust : rustDecision kind (.accepted receipt) = some (.accepted valid) := by
      unfold rustDecision Client.resolution
      dsimp only
      rw [hvalid]
      rfl
    rw [sdk_accepted kind receipt hwf,hrust]
    exact ⟨rfl,rfl⟩
  | rejected failure =>
    rw [rust_delivers h,sdk_rejected,sdk_takes_legal h hkind]
    exact ⟨rfl,rfl⟩

theorem short_fair {runId : String} {request : Request} {outcome : ControlOutcome}
    (h : Fair request.kind outcome) (hkind : request.kind.inputBytes ≤ Client.maxPendingInputBytes) :
    ShortAccepted runId request (.outcome outcome) := by
  refine ⟨?_,(attachment_fair h hkind).2⟩
  cases outcome with
  | accepted receipt => exact h.2
  | rejected failure => exact h.1

theorem applied_accepted {access : Access} {o : Owner} {expectedByte bytes : ℕ}
    {range : NativeControl.AppliedInputRange} (h : Applied access o expectedByte bytes range) :
    AppliedAccepted access.runId expectedByte bytes (access.info o) range := by
  obtain ⟨hstart,hend,cursor,hcursor,hle⟩ := h
  refine ⟨⟨rfl,hstart,hend,cursor,hcursor,hle⟩,fun hsafe => ?_⟩
  have hbound := hsafe cursor hcursor
  exact ⟨hsafe,by omega,by omega,by omega,rfl,hstart,hend,cursor,hcursor,by omega⟩

variable {failure : ControlFailure}

theorem pressure_refused (hd : failure.disposition = .unknown)
    (hcode : failure.error.code = .controlBackpressure) :
    validateControlFailure failure ≠ .ok () := by
  unfold validateControlFailure
  rw [if_neg (fun hn => by rw [hd] at hn; cases hn.1),if_pos ⟨hcode,by rw [hd]; decide⟩]
  exact fun h => (nomatch h)

/-- The recoverable Input that is refused before its key is inspected. -/
def Request.Pressed (access : Access) : Request → Prop
  | .recoverableInput key expectedByte data =>
    access.instanceMatches = true ∧ access.runError = none ∧
      LedgerPressed access key expectedByte data
  | _ => False

/-- The attachment Stop that is refused before its key is inspected. -/
def Request.StopPressed (connection : Mux.Connection) (env : Mux.Connection.FrameEnv)
    (access : Access) : Request → Prop
  | .stop operation _ _ _ =>
    connection.observationClosed = false ∧ env.upgrade = .execute ∧
      connection.validateRecoverableStop operation = .ok () ∧ access.control = .native ∧
      env.memoryFits = false
  | _ => False

section Short

variable {access : Access} {request : Request}

theorem pinned_accepted {answer : Answer} (h : ShortAccepted access.runId request answer)
    (hkind : request.kind.inputBytes ≤ Client.maxPendingInputBytes) :
    ShortAccepted access.runId request (pinned access answer) := by
  unfold pinned
  split
  · exact short_fair (fair_notApplied _ _) hkind
  · exact h

theorem respond_pressed (h : request.Pressed access) :
    ¬ShortAccepted access.runId request (respond access request) := by
  cases request with
  | recoverableInput key expectedByte data =>
    obtain ⟨hinstance,hrun,hnative,⟨after,hlock⟩,hwaiting,input,hinput⟩ := h
    have hcontrol : access.controlError = none := by
      unfold Access.controlError
      rw [hnative]
    have hanswer : recoverableInput access key expectedByte data =
        .error (wireFailure (NativeControl.unknownFailure ⟨.controlBackpressure,
          "Native result ledger is busy and waiting-payload budget is full; application status is unknown"⟩)) := by
      unfold recoverableInput beginRecoverableInputAsync
      rw [hcontrol,hinput,hlock,hwaiting]
      rfl
    dsimp only [respond,pinned]
    rw [hinstance,hrun,hanswer]
    intro haccepted
    exact pressure_refused rfl rfl haccepted.1
  | input data => exact h.elim
  | resize size pty => exact h.elim
  | signal requested group reply => exact h.elim
  | stop operation registryError reply visible => exact h.elim

theorem respond_accepted (hreal : access.Real) (hsent : request.Sent)
    (hfree : ¬request.Pressed access) :
    ShortAccepted access.runId request (respond access request) := by
  have hkind := hsent.kind_le
  cases request with
  | input data =>
    apply pinned_accepted _ hkind
    apply short_fair _ hkind
    exact controlled_fair (resolveInput_fair hsent (beginInputAsync_begun hreal data))
  | recoverableInput key expectedByte data =>
    dsimp only [respond]
    split
    · exact short_fair (fair_notApplied _ _) hkind
    · next hinstance =>
      unfold pinned
      split
      · exact short_fair (fair_notApplied _ _) hkind
      · next hrun =>
        have hquiet : ¬LedgerPressed access key expectedByte data := by
          intro hp
          exact hfree ⟨by simpa using hinstance,hrun,hp⟩
        have hsettles := recoverableInput_settles hreal hquiet
        split
        · next o range hok =>
          rw [hok] at hsettles
          exact applied_accepted hsettles
        · next failure hfailure =>
          rw [hfailure] at hsettles
          exact short_fair hsettles hkind
  | resize size pty =>
    apply pinned_accepted _ hkind
    exact short_fair (resizeAsync_fair access size hsent) hkind
  | signal requested group reply =>
    apply pinned_accepted _ hkind
    exact short_fair (signalAsync_fair hreal requested group reply) hkind
  | stop operation registryError reply visible =>
    dsimp only [respond]
    split
    · exact short_fair (fair_notApplied _ _) hkind
    · exact short_fair (recoverableStop_fair hreal registryError reply visible) hkind

end Short

section Attached

variable {connection : Mux.Connection} {env : Mux.Connection.FrameEnv} {cancelled : Bool}
  {access : Access} {request : Request} {commandId : ℕ} {outcome : ControlOutcome}

theorem observationClosed_fair (kind : PendingKind) (stop : Bool) :
    Fair kind (.rejected (Mux.observationClosedFailure stop)) := by
  cases stop with
  | false => exact fair_notApplied kind _
  | true =>
    apply fair_unknown
    exact fun hcode => (nomatch hcode)

theorem admittedOutcome_fair (hreal : access.Real) (hsent : request.Sent) :
    Fair request.kind (admittedOutcome access request) := by
  cases request with
  | input data => exact resolveInput_fair hsent (waitAdmission_begun hreal data)
  | recoverableInput key expectedByte data => exact fair_notApplied _ _
  | resize size pty => exact resizeAsync_fair access size hsent
  | signal requested group reply => exact signalAsync_fair hreal requested group reply
  | stop operation registryError reply visible =>
    exact recoverableStop_fair hreal registryError reply visible

/-- A refused admission names the missing control, or pressure. -/
theorem pushAdmission_refused {admission : Mux.PendingAdmission}
    (h : connection.pushAdmission env admission = .error failure) :
    ∃ error, failure = Mux.controlNotApplied error ∧
      (env.control = some error ∨ (env.control = none ∧ env.memoryFits = false)) := by
  unfold Mux.Connection.pushAdmission at h
  split at h
  · next error hcontrol =>
    cases h
    exact ⟨error,rfl,Or.inl hcontrol⟩
  · next hcontrol =>
    split at h
    · cases h
    · next hmemory =>
      cases h
      exact ⟨_,rfl,Or.inr ⟨hcontrol,by simpa using hmemory⟩⟩

theorem queueInput_refused {bytes : ℕ}
    (h : connection.queueInputAdmission env commandId bytes = .error failure) :
    ∃ error, failure = Mux.controlNotApplied error := by
  unfold Mux.Connection.queueInputAdmission at h
  split at h
  · cases h
    exact ⟨_,rfl⟩
  · split at h
    · obtain ⟨error,hfailure,-⟩ := pushAdmission_refused h
      exact ⟨error,hfailure⟩
    · cases h
      exact ⟨_,rfl⟩

theorem controlError_code {error : Client.ProtocolError} (h : access.controlError = some error) :
    error.code ≠ .controlBackpressure := by
  unfold Access.controlError at h
  split at h
  · cases h
  · cases h
    exact fun hcode => (nomatch hcode)
  · cases h
    exact fun hcode => (nomatch hcode)

theorem outcome_pressed (cancelled : Bool) (commandId : ℕ)
    (h : request.StopPressed connection env access) :
    ∃ failure, attachmentOutcome connection env cancelled access request commandId =
        some (.rejected failure) ∧ failure.disposition = .unknown ∧
      failure.error.code = .controlBackpressure := by
  cases request with
  | stop operation registryError reply visible =>
    obtain ⟨hobservation,hupgrade,hvalid,hnative,hmemory⟩ := h
    have hcontrol : access.controlError = none := by
      unfold Access.controlError
      rw [hnative]
    let failure : ControlFailure :=
      { Mux.controlNotApplied
          ⟨.controlBackpressure,"daemon attachment admission-memory budget is full"⟩ with
        disposition := .unknown }
    refine ⟨failure,?_,rfl,rfl⟩
    simp [attachmentOutcome,Request.command,hobservation,hupgrade,hvalid,hcontrol,hmemory,
      Mux.Connection.pushAdmission,failure]
  | input data => exact h.elim
  | recoverableInput key expectedByte data => exact h.elim
  | resize size pty => exact h.elim
  | signal requested group reply => exact h.elim

theorem outcome_fair (hreal : access.Real) (hsent : request.Sent)
    (hfree : ¬request.StopPressed connection env access)
    (h : attachmentOutcome connection env cancelled access request commandId = some outcome) :
    Fair request.kind outcome := by
  unfold attachmentOutcome at h
  cases hcommand : request.command with
  | none =>
    rw [hcommand] at h
    cases h
  | some command =>
    rw [hcommand] at h
    dsimp only at h
    split at h
    · cases h
      exact observationClosed_fair _ _
    · next hobservation =>
      cases hupgrade : env.upgrade with
      | «sealed» =>
        rw [hupgrade] at h
        cases h
      | retry =>
        rw [hupgrade] at h
        cases h
        exact fair_notApplied _ _
      | execute =>
        rw [hupgrade] at h
        dsimp only at h
        have hadmitted : Fair request.kind (if cancelled then
            .rejected (Mux.observationClosedFailure (Mux.Connection.ControlCommand.isStop command))
            else admittedOutcome access request) := by
          split
          · exact observationClosed_fair _ _
          · exact admittedOutcome_fair hreal hsent
        cases command with
        | stop operation =>
          dsimp only at h
          split at h
          · next failure hvalid =>
            cases h
            unfold Mux.Connection.validateRecoverableStop at hvalid
            split at hvalid
            · cases hvalid
              exact fair_notApplied _ _
            · split at hvalid
              · cases hvalid
                exact fair_notApplied _ _
              · cases hvalid
          · next hvalid =>
            split at h
            · cases h
              exact hadmitted
            · next failure hpush =>
              cases h
              obtain ⟨error,rfl,herror⟩ := pushAdmission_refused hpush
              rcases herror with hcontrol | ⟨hcontrol,hmemory⟩
              · exact fair_unknown _ (controlError_code hcontrol)
              · exfalso
                apply hfree
                cases request with
                | stop operation' registryError reply visible =>
                  cases hcommand
                  refine ⟨by simpa using hobservation,hupgrade,hvalid,?_,hmemory⟩
                  have hnone : access.controlError = none := hcontrol
                  unfold Access.controlError at hnone
                  split at hnone
                  · next hnative => exact hnative
                  · cases hnone
                  · cases hnone
                | input data => cases hcommand
                | recoverableInput key expectedByte data => cases hcommand
                | resize size pty => cases hcommand
                | signal requested group reply => cases hcommand
        | input bytes =>
          dsimp only at h
          split at h
          · cases h
            exact hadmitted
          · next failure hqueue =>
            cases h
            obtain ⟨error,rfl⟩ := queueInput_refused hqueue
            exact fair_notApplied _ _
        | resize size =>
          dsimp only at h
          split at h
          · cases h
            exact hadmitted
          · next failure hpush =>
            cases h
            obtain ⟨error,rfl,-⟩ := pushAdmission_refused hpush
            exact fair_notApplied _ _
        | signal requested =>
          dsimp only at h
          split at h
          · cases h
            exact hadmitted
          · next failure hpush =>
            cases h
            obtain ⟨error,rfl,-⟩ := pushAdmission_refused hpush
            exact fair_notApplied _ _

theorem attachment_pressed {kind : PendingKind} (hd : failure.disposition = .unknown)
    (hcode : failure.error.code = .controlBackpressure) :
    ¬AttachmentAccepted kind (.rejected failure) := by
  intro haccepted
  have hrust := haccepted.1
  rw [rust_drops fun hlegal => pressure_refused hd hcode hlegal.1] at hrust
  cases hrust

end Attached

/-- The two clients decide alike on every outcome that is not contested. Both accept every
answer of the daemon, but for the two refusals under pressure. -/
theorem control_answers_accepted (access : Access) (request : Request) :
    (∀ kind outcome, WellFormed outcome → kind.inputBytes ≤ Client.maxPendingInputBytes →
      (rustDecision kind outcome = sdkDecision kind outcome ↔ ¬Contested kind outcome)) ∧
    (access.Real → request.Sent →
      (ShortAccepted access.runId request (respond access request) ↔ ¬request.Pressed access)) ∧
    ∀ connection env cancelled commandId outcome, access.Real → request.Sent →
      attachmentOutcome connection env cancelled access request commandId = some outcome →
      (AttachmentAccepted request.kind outcome ↔ ¬request.StopPressed connection env access) := by
  refine ⟨decisions_agree_iff,?_,?_⟩
  · intro hreal hsent
    constructor
    · exact fun haccepted hpressed => respond_pressed hpressed haccepted
    · exact respond_accepted hreal hsent
  · intro connection env cancelled commandId outcome hreal hsent h
    constructor
    · intro haccepted hpressed
      obtain ⟨failure,hfailure,hd,hcode⟩ := outcome_pressed cancelled commandId hpressed
      rw [hfailure] at h
      cases h
      exact attachment_pressed hd hcode haccepted
    · intro hfree
      exact attachment_fair (outcome_fair hreal hsent hfree h) hsent.kind_le

/-- A busy control, a full waiting budget and a recoverable Input of one byte. -/
def busyAccess : Access where
  runId := "run"
  instanceMatches := true
  runError := none
  control := .native
  stopped := false
  lock := .busy .ownerStopped
  funded := true
  waitingFunded := false
  later := none

def retriedInput : Request := .recoverableInput "key" 0 [97]

/-- An answer that the SDK hands to its caller and the Rust client calls a violation. -/
theorem pressure_splits_clients :
    ∃ failure, respond busyAccess retriedInput = .outcome (.rejected failure) ∧
      failure.error.code = .controlBackpressure ∧
      ¬RustShort retriedInput.kind (.rejected failure) ∧
      rustDecision retriedInput.kind (.rejected failure) = none ∧
      sdkDecision retriedInput.kind (.rejected failure) = some (.rejected failure) := by
  refine ⟨_,rfl,rfl,?_,?_,?_⟩
  · exact pressure_refused rfl rfl
  · rfl
  · rfl

/-- A control that is free, and writes the byte before the Run is read. -/
def writingAccess : Access :=
  { busyAccess with
    lock := .free (NativeControl.newWithComponents "run" ⟨4,64,4,64⟩ .empty false)
    later := some ⟨none,[.beginTurn 1 1,.progress (.wrote 1) none]⟩ }

theorem accepted_unless_pressed :
    ¬ShortAccepted busyAccess.runId retriedInput (respond busyAccess retriedInput) ∧
      ShortAccepted busyAccess.runId retriedInput
        (respond { busyAccess with waitingFunded := true } retriedInput) ∧
      respond writingAccess retriedInput = .applied ⟨"run",some 1⟩ ⟨0,1⟩ ∧
      ShortAccepted writingAccess.runId retriedInput (respond writingAccess retriedInput) := by
  have hsent : retriedInput.Sent := by
    show [(97 : Byte)].length ≤ Wire.maxFrameBytes
    decide
  refine ⟨?_,?_,rfl,?_⟩
  · rw [(control_answers_accepted busyAccess retriedInput).2.1 (fun o ho => (nomatch ho)) hsent]
    intro hfree
    exact hfree ⟨rfl,rfl,rfl,⟨_,rfl⟩,rfl,_,rfl⟩
  · have hreal : Access.Real { busyAccess with waitingFunded := true } :=
      fun o ho => (nomatch ho)
    apply ((control_answers_accepted _ retriedInput).2.1 hreal hsent).mpr
    rintro ⟨-,-,-,-,hwaiting,-⟩
    cases hwaiting
  · have hreal : Access.Real writingAccess := by
      intro o ho
      obtain rfl := Option.some.inj ho
      exact .new "run" ⟨4,64,4,64⟩ false
    apply ((control_answers_accepted _ retriedInput).2.1 hreal hsent).mpr
    rintro ⟨-,-,-,⟨_,hbusy⟩,-⟩
    cases hbusy

end Answers
end Ctxmux
