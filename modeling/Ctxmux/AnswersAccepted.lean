import Ctxmux.ControlAgreement
import Ctxmux.JsonLines

/-!
# The clients and the daemon's answers

Every answer of a daemon whose controls are reachable is accepted by both clients, but for
two refusals under pressure that keep the outcome of a retained operation open: the Rust
client takes them for a violation of the protocol.
-/

namespace Ctxmux
namespace Answers

open NativeControl (Owner InputOperationKey InputOperationRequest Byte InputResult Settlement
  Admission Spoken Reached Sayable)
open Client (ControlOutcome ControlReceipt ControlFailure PendingKind validateControlFailure)

/-- An outcome that is sound for a command of this kind. -/
def Fair (kind : PendingKind) : ControlOutcome → Prop
  | .accepted receipt => WellFormed (.accepted receipt) ∧ ∃ valid, kind.validate receipt = .ok valid
  | .rejected failure => Legal kind failure

theorem validate_notApplied {failure : ControlFailure} (hd : failure.disposition = .notApplied)
    (hc : failure.confirmedInputBytes = none) : validateControlFailure failure = .ok () := by
  simp [validateControlFailure,hd,hc]

theorem fair_notApplied (kind : PendingKind) (error : Client.ProtocolError) :
    Fair kind (.rejected (Mux.controlNotApplied error)) :=
  ⟨validate_notApplied rfl rfl,fun h => h⟩

theorem validate_unknown {failure : ControlFailure}
    (hd : failure.disposition ≠ .notApplied) (h : failure.error.code ≠ .controlBackpressure) :
    validateControlFailure failure = .ok () := by
  unfold validateControlFailure
  rw [if_neg (fun hn => hd hn.1),if_neg (fun hp => h hp.1)]

theorem fair_unknown (kind : PendingKind) {error : Client.ProtocolError}
    (h : error.code ≠ .controlBackpressure) : Fair kind (.rejected (Mux.controlUnknown error)) := by
  constructor
  · apply validate_unknown
    · exact fun hd => (nomatch hd)
    · exact h
  · exact fun hm => hm

theorem wireCode_pressure {code : NativeControl.ErrorCode}
    (h : wireCode code = .controlBackpressure) : code = .controlBackpressure := by
  cases code <;> first | rfl | cases h

theorem legal_notApplied (kind : PendingKind) (error : NativeControl.ProtocolError) :
    Legal kind (wireFailure (NativeControl.notApplied error)) :=
  ⟨validate_notApplied rfl rfl,fun h => h⟩

variable {failure : NativeControl.ControlFailure}

/-- A sayable failure of the lane is legal for an Input of at least its prefix. -/
theorem legal_wireFailure {bytes : ℕ} (hs : Sayable failure)
    (hle : ∀ confirmed, failure.confirmedInputBytes = some confirmed → confirmed ≤ bytes) :
    Legal (.input bytes) (wireFailure failure) := by
  constructor
  · cases hd : failure.disposition with
    | notApplied =>
      apply validate_notApplied
      · unfold wireFailure
        simp [hd]
      · exact hs.1 hd
    | unknown =>
      apply validate_unknown
      · unfold wireFailure
        simp [hd]
      · exact fun hcode => hs.2 hd (wireCode_pressure hcode)
  · unfold Misplaced wireFailure
    dsimp only
    cases hc : failure.confirmedInputBytes with
    | none => exact fun h => h
    | some confirmed =>
      rintro (hkind | hlt)
      · cases hkind
      · exact absurd (hle confirmed hc) (Nat.not_le.mpr hlt)

theorem legal_unknown (kind : PendingKind) {error : NativeControl.ProtocolError}
    (h : error.code ≠ .controlBackpressure) :
    Legal kind (wireFailure (NativeControl.unknownFailure error)) := by
  constructor
  · apply validate_unknown
    · exact fun hd => (nomatch hd)
    · exact fun hcode => h (wireCode_pressure hcode)
  · exact fun hm => hm

section Lane

variable {o : Owner}

theorem settled_admission (h : Spoken o) {a : Admission} (ha : a ∈ o.admitted) {s : Settlement}
    (hs : s ∈ o.settled) (hc : s.1.reply.channel = a.reply.channel) : s.1.ticket = a.ticket := by
  obtain ⟨base,hsound,-⟩ := h.sound
  obtain ⟨b,hb,hdata,hreply⟩ := hsound.admission
    (List.mem_append_left _ (List.mem_map_of_mem hs))
  have hab := hsound.admission_inj hb ha ((congrArg NativeControl.InputReply.channel hreply).trans hc)
  rw [hab] at hdata hreply
  exact (Prod.ext hdata hreply).symm

/-- What the lane answers to a command with this many bytes. -/
def FairReply (bytes : ℕ) : InputResult → Prop
  | .ok range => range.endByte = range.startByte+bytes
  | .error failure => Sayable failure ∧
      ∀ confirmed, failure.confirmedInputBytes = some confirmed → confirmed ≤ bytes

/-- An answer is a settlement of the control that the lane has come to. -/
theorem laneReply_settled (h : Spoken o) {channel : ℕ} {later : Option Later} {result : InputResult}
    (hr : laneReply o channel later = some result) :
    ∃ later', later = some later' ∧ Spoken (later'.after o) ∧
      o.admitted ⊆ (later'.after o).admitted ∧
      ∃ s ∈ (later'.after o).settled, s.1.reply.channel = channel ∧ s.2 = result := by
  unfold laneReply at hr
  cases later with
  | none => cases hr
  | some later =>
    rw [Option.bind_some] at hr
    obtain ⟨s,hfind,hresult⟩ := Option.map_eq_some_iff.mp hr
    have hext := (NativeControl.extends_release o later.loss).trans
      (NativeControl.extends_run later.events _)
    refine ⟨later,rfl,?_,hext.admitted.subset,s,List.mem_of_find?_eq_some hfind,?_,hresult⟩
    · exact Machine.run_invariant (I := Spoken) (fun o e ho => Spoken.step ho e)
        (h.release later.loss) later.events
    · have hp := List.find?_some hfind
      exact of_decide_eq_true hp

/-- Whatever the lane does after an admission, its answer is fair. -/
theorem laneReply_fair (h : Spoken o) {data : List Byte} {channel : ℕ}
    (ha : ∃ a ∈ o.admitted, a.data = data ∧ a.reply.channel = channel) (later : Option Later)
    {result : InputResult} (hr : laneReply o channel later = some result) :
    FairReply data.length result := by
  obtain ⟨a,ha,rfl,rfl⟩ := ha
  obtain ⟨later,-,hspoken,hkept,s,hs,hchannel,rfl⟩ := laneReply_settled h hr
  have hdata : s.1.data = a.data :=
    congrArg Prod.fst (settled_admission hspoken (hkept ha) hs hchannel)
  cases hs2 : s.2 with
  | ok range =>
    obtain ⟨base,hsound,-⟩ := hspoken.sound
    have hend := NativeControl.ranges_length hsound.lane.answered.ranges hs hs2
    rw [hdata] at hend
    exact hend
  | error failure =>
    refine ⟨(hspoken.answers s hs).1 failure hs2,fun confirmed hc => ?_⟩
    have hle := hspoken.confirmed_le hs hs2 hc
    rwa [hdata] at hle

/-- The range begins at the expected byte, and the cursor that the response reads has passed
it. -/
def Applied (access : Access) (o : Owner) (expectedByte bytes : ℕ)
    (range : NativeControl.AppliedInputRange) : Prop :=
  range.startByte = expectedByte ∧ range.endByte = expectedByte+bytes ∧
    ∃ cursor, (access.info o).appliedInputBytes = some cursor ∧ range.endByte ≤ cursor

theorem laneReply_applied (h : Spoken o) {access : Access} {data : List Byte}
    {key : InputOperationKey} {expectedByte channel : ℕ}
    (ha : ⟨data,some expectedByte,.recoverable key channel⟩ ∈ o.admitted)
    {range : NativeControl.AppliedInputRange}
    (hr : laneReply o channel access.later = some (.ok range)) :
    Applied access o expectedByte data.length range := by
  obtain ⟨later,hlater,hspoken,hkept,s,hs,hchannel,hresult⟩ := laneReply_settled h hr
  have hticket := settled_admission hspoken (hkept ha) hs hchannel
  obtain ⟨hstart,hend,hbelow⟩ := hspoken.range hs hresult hticket (hkept ha)
  refine ⟨hstart,hend,_,?_,hbelow⟩
  unfold Access.info
  rw [hlater]
  rfl

/-- The cursor is not behind after what the lane does later. -/
theorem Later.applied_le (later : Later) (h : Spoken o) :
    o.state.appliedInputBytes ≤ (later.after o).state.appliedInputBytes := by
  obtain ⟨base,hsound,-⟩ := h.sound
  have hext := (NativeControl.extends_release o later.loss).trans
    (NativeControl.extends_run later.events _)
  exact hsound.applied_le (Machine.run_invariant (I := NativeControl.Sound base)
    (fun o e ho => NativeControl.sound_step ho e) (NativeControl.sound_release hsound later.loss)
    later.events) hext.settled

/-- What a control retains is below the cursor of any later one. -/
theorem retained_applied (h : Spoken o) {access : Access} {key : InputOperationKey}
    {request : InputOperationRequest} {range : NativeControl.AppliedInputRange}
    (hl : o.state.inputOperations.lookup key = some (.completed request range)) :
    Applied access o request.expectedByte request.data.length range := by
  obtain ⟨hstart,hend,hbelow⟩ := h.keeps.2 key request range hl
  refine ⟨hstart,hend,_,rfl,hbelow.trans ?_⟩
  cases access.later with
  | none => exact le_rfl
  | some later => exact later.applied_le h

theorem beginInputLocked_cases (o : Owner) (data : List Byte) (funded : Bool) :
    (∃ error, NativeControl.beginInputLocked o data funded =
      (o,.error (NativeControl.notApplied error))) ∨
    NativeControl.beginInputLocked o data funded =
      (NativeControl.enqueueInput o data none (.legacy o.admitted.length),.ok o.admitted.length) := by
  unfold NativeControl.beginInputLocked
  split
  · exact Or.inl ⟨_,rfl⟩
  · split
    · exact Or.inl ⟨_,rfl⟩
    · split
      · exact Or.inl ⟨_,rfl⟩
      · exact Or.inr rfl

/-- A retained entry answers its retry; a fresh key is refused, or admitted. -/
theorem beginRecoverableInputLocked_cases (o : Owner) (key : InputOperationKey)
    (request : InputOperationRequest) (funded : Bool) :
    (∃ o' error, NativeControl.beginRecoverableInputLocked o key request funded =
      (o',.error (NativeControl.notApplied error))) ∨
    (∃ entry, o.state.inputOperations.lookup key = some entry ∧ entry.request = request ∧
      NativeControl.beginRecoverableInputLocked o key request funded = (o,.ok entry.retained)) ∨
    (∃ o' channel, ⟨request.data,some request.expectedByte,.recoverable key channel⟩ ∈ o'.admitted ∧
      NativeControl.beginRecoverableInputLocked o key request funded =
        (o',.ok (.pending channel))) := by
  cases hl : o.state.inputOperations.lookup key with
  | some entry =>
    by_cases he : entry.request = request
    · subst he
      exact Or.inr (Or.inl ⟨entry,rfl,rfl,NativeControl.retained_retry hl funded⟩)
    · left
      unfold NativeControl.beginRecoverableInputLocked NativeControl.retainedInputResult
      rw [hl]
      dsimp only
      rw [if_pos he]
      exact ⟨_,_,rfl⟩
  | none =>
    unfold NativeControl.beginRecoverableInputLocked NativeControl.retainedInputResult
    rw [hl]
    dsimp only
    split
    · exact Or.inl ⟨_,_,rfl⟩
    · split
      · exact Or.inl ⟨_,_,rfl⟩
      · split
        · exact Or.inl ⟨_,_,rfl⟩
        · refine Or.inr (Or.inr ⟨_,o.admitted.length,?_,rfl⟩)
          exact List.mem_append_right _ (List.mem_singleton.mpr rfl)

/-- What an admission leaves: a refusal without effect, or a lane that has the command. -/
structure Begun (data : List Byte) (begun : Except NativeControl.ControlFailure (Owner × ℕ)) :
    Prop where
  refused : ∀ failure, begun = .error failure → ∃ error, failure = NativeControl.notApplied error
  entered : ∀ o channel, begun = .ok (o,channel) →
    Spoken o ∧ ∃ a ∈ o.admitted, a.data = data ∧ a.reply.channel = channel

theorem begun_error (data : List Byte) (error : NativeControl.ProtocolError) :
    Begun data (.error (NativeControl.notApplied error)) where
  refused := by
    intro failure h
    cases h
    exact ⟨error,rfl⟩
  entered := by
    intro o channel h
    cases h

theorem enterInput_begun (ho : Spoken o) (data : List Byte) (funded : Bool) :
    Begun data (enterInput o data funded) := by
  obtain ⟨base,hsound,hbase⟩ := ho.sound
  have hsound' := NativeControl.sound_beginInputLocked hsound data funded
  have hsettled := NativeControl.beginInputLocked_settled o data funded
  unfold enterInput
  rcases beginInputLocked_cases o data funded with ⟨error,hb⟩ | hb
  · rw [hb]
    exact begun_error data error
  · rw [hb] at hsound' hsettled ⊢
    constructor
    · intro failure h
      cases h
    · intro o' channel h
      cases h
      have hext := NativeControl.extends_beginInputLocked o data funded
      rw [hb] at hext
      exact ⟨ho.admitted hsound hbase hsound' hext hsettled,
        _,List.mem_append_right _ (List.mem_singleton.mpr rfl),rfl,rfl⟩

end Lane

section Access

variable {access : Access} {data : List Byte} {key : InputOperationKey} {expectedByte : ℕ}

/-- The control behind the lock is one that a daemon can hold. -/
def Access.Real (access : Access) : Prop := ∀ o, access.lock.owner? = some o → Reached o

theorem waitAdmissionState_cases (hreal : access.Real) (recoverable : Bool) :
    (∃ o, Spoken o ∧ waitAdmissionState access recoverable = .ok o) ∨
    (∃ error, waitAdmissionState access recoverable = .error (NativeControl.notApplied error)) ∨
    (recoverable = true ∧ ∃ message, waitAdmissionState access recoverable =
      .error (NativeControl.unknownFailure ⟨.backendUnavailable,message⟩)) := by
  unfold waitAdmissionState
  split
  · exact Or.inr (Or.inl ⟨_,rfl⟩)
  · cases hlock : access.lock with
    | free o =>
      have ho : Reached o := hreal o (by rw [hlock]; rfl)
      exact Or.inl ⟨o,ho.spoken,rfl⟩
    | busy after =>
      cases after with
      | acquired o =>
        have ho : Reached o := hreal o (by rw [hlock]; rfl)
        exact Or.inl ⟨o,ho.spoken,rfl⟩
      | ownerStopped =>
        right
        cases recoverable with
        | false => exact Or.inl ⟨_,rfl⟩
        | true => exact Or.inr ⟨rfl,_,rfl⟩

theorem waitAdmission_begun (hreal : access.Real) (data : List Byte) :
    Begun data (beginInputAsyncFunded access data) := by
  unfold beginInputAsyncFunded
  rcases waitAdmissionState_cases hreal false with ⟨o,ho,hw⟩ | ⟨error,hw⟩ | ⟨hf,-⟩
  · rw [hw]
    exact enterInput_begun ho data true
  · rw [hw]
    exact begun_error data error
  · cases hf

theorem beginInputAsync_begun (hreal : access.Real) (data : List Byte) :
    Begun data (beginInputAsync access data) := by
  unfold beginInputAsync
  split
  · exact begun_error data _
  · split
    · next o hlock =>
      have ho : Reached o := hreal o (by rw [hlock]; rfl)
      exact enterInput_begun ho.spoken data access.funded
    · split
      · exact begun_error data _
      · exact waitAdmission_begun hreal data

theorem fair_legal (h : FairReply data.length (.error failure)) :
    Legal (.input data.length) (wireFailure failure) :=
  legal_wireFailure h.1 h.2

theorem resolveInput_fair (hsent : data.length ≤ Wire.maxFrameBytes)
    {begun : Except NativeControl.ControlFailure (Owner × ℕ)} (h : Begun data begun) :
    Fair (.input data.length) (resolveInput access begun) := by
  unfold resolveInput
  cases begun with
  | error failure =>
    obtain ⟨error,rfl⟩ := h.refused failure rfl
    exact legal_notApplied _ error
  | ok entered =>
    obtain ⟨o,channel⟩ := entered
    obtain ⟨ho,ha⟩ := h.entered o channel rfl
    dsimp only
    cases hr : laneReply o channel access.later with
    | none =>
      apply fair_unknown
      exact fun hcode => (nomatch hcode)
    | some result =>
      have hfair := laneReply_fair ho ha access.later hr
      cases result with
      | error failure => exact fair_legal hfair
      | ok range =>
        have hbytes : range.endByte-range.startByte = data.length := by
          have hend : range.endByte = range.startByte+data.length := hfair
          omega
        have hvalid : (PendingKind.input data.length).validate (.input data.length) =
            .ok (.input ⟨data.length⟩) := by
          simp [PendingKind.validate,Client.decodeInputReceipt,Except.map,Except.mapError]
        show Fair _ (.accepted (.input (range.endByte-range.startByte)))
        rw [hbytes]
        exact ⟨hsent.trans (by decide),_,hvalid⟩

theorem controlled_fair {kind : PendingKind} {owner : ControlOutcome} (h : Fair kind owner) :
    Fair kind (controlled access owner) := by
  unfold controlled
  split
  · exact fair_notApplied kind _
  · exact h

theorem inputRequest_error (h : NativeControl.inputRequest key expectedByte data = .error failure) :
    ∃ error, failure = NativeControl.notApplied error := by
  unfold NativeControl.inputRequest at h
  split at h
  · cases h
    exact ⟨_,rfl⟩
  · split at h
    · cases h
      exact ⟨_,rfl⟩
    · cases h

theorem inputRequest_ok {request : InputOperationRequest}
    (h : NativeControl.inputRequest key expectedByte data = .ok request) :
    request = ⟨expectedByte,data⟩ := by
  unfold NativeControl.inputRequest at h
  split at h
  · cases h
  · split at h
    · cases h
    · cases h
      rfl

/-- The one refusal of a recoverable Input that leaves the retained operation open. -/
def LedgerPressed (access : Access) (key : InputOperationKey) (expectedByte : ℕ)
    (data : List Byte) : Prop :=
  access.control = .native ∧ (∃ after, access.lock = .busy after) ∧
    access.waitingFunded = false ∧ ∃ request, NativeControl.inputRequest key expectedByte data = .ok request

/-- What an admission of a recoverable Input comes to. -/
inductive Recovered (access : Access) (key : InputOperationKey) (request : InputOperationRequest) :
    Except NativeControl.ControlFailure (Owner × NativeControl.PendingRecoverableInput) → Prop
  | refused (error : NativeControl.ProtocolError) :
    Recovered access key request (.error (NativeControl.notApplied error))
  | lost (message : String) : Recovered access key request
    (.error (NativeControl.unknownFailure ⟨.backendUnavailable,message⟩))
  | applied {o : Owner} {range : NativeControl.AppliedInputRange}
      (h : Applied access o request.expectedByte request.data.length range) :
    Recovered access key request (.ok (o,.ready (.ok range)))
  | unknown (o : Owner) {failure : NativeControl.ControlFailure}
      (h : FairReply request.data.length (.error failure)) :
    Recovered access key request (.ok (o,.ready (.error failure)))
  | pending {o : Owner} {channel : ℕ} (ho : Spoken o)
      (ha : ⟨request.data,some request.expectedByte,.recoverable key channel⟩ ∈ o.admitted) :
    Recovered access key request (.ok (o,.pending channel))

theorem lockedRecoverable_recovered {o : Owner} (ho : Spoken o) (key : InputOperationKey)
    (request : InputOperationRequest) (funded : Bool) :
    Recovered access key request
      (match NativeControl.beginRecoverableInputLocked o key request funded with
        | (o,.ok pending) => .ok (o,pending)
        | (_,.error failure) => .error failure) := by
  obtain ⟨base,hsound,hbase⟩ := ho.sound
  have hsound' := NativeControl.sound_beginRecoverableInputLocked hsound key request funded
  have hext := NativeControl.extends_beginRecoverableInputLocked o key request funded
  have hsettled := NativeControl.beginRecoverableInputLocked_settled o key request funded
  rcases beginRecoverableInputLocked_cases o key request funded with
    ⟨o',error,hb⟩ | ⟨entry,hl,hrequest,hb⟩ | ⟨o',channel,ha,hb⟩
  · rw [hb]
    exact .refused error
  · rw [hb]
    cases entry with
    | pending retained completion =>
      cases hrequest
      have hmem := hsound.lane.ledger.pending_queued key retained completion hl
      obtain ⟨e,he,horigin⟩ := hsound.lane.ledger.queued_pending _ hmem key completion rfl
      have hsame : retained.expectedByte = e := by
        rw [hl] at he
        injection Option.some.inj he with hrequest
        exact congrArg InputOperationRequest.expectedByte hrequest
      exact .pending ho (hsame ▸ horigin.1)
    | completed retained range =>
      cases hrequest
      exact .applied (retained_applied ho hl)
    | unknown retained failure =>
      cases hrequest
      exact .unknown o (ho.keeps.1 key retained failure hl)
  · rw [hb] at hsound' hsettled hext ⊢
    exact .pending (ho.admitted hsound hbase hsound' hext hsettled) ha

theorem beginRecoverable_recovered (hreal : access.Real) (hnative : access.control = .native)
    (hfree : ¬LedgerPressed access key expectedByte data) :
    Recovered access key ⟨expectedByte,data⟩
      (beginRecoverableInputAsync access key expectedByte data) := by
  unfold beginRecoverableInputAsync
  cases hrequest : NativeControl.inputRequest key expectedByte data with
  | error failure =>
    obtain ⟨error,rfl⟩ := inputRequest_error hrequest
    exact .refused error
  | ok request =>
    have hdata := inputRequest_ok hrequest
    subst hdata
    dsimp only [bind,Except.bind]
    cases hlock : access.lock with
    | free o =>
      have ho : Reached o := hreal o (by rw [hlock]; rfl)
      exact lockedRecoverable_recovered ho.spoken key ⟨expectedByte,data⟩ access.funded
    | busy after =>
      dsimp only
      split
      · next hw =>
        exact absurd ⟨hnative,⟨after,hlock⟩,by simpa using hw,_,hrequest⟩ hfree
      · rcases waitAdmissionState_cases hreal true with ⟨o,ho,hw⟩ | ⟨error,hw⟩ | ⟨-,message,hw⟩
        · rw [hw]
          exact lockedRecoverable_recovered ho key ⟨expectedByte,data⟩ true
        · rw [hw]
          exact .refused error
        · rw [hw]
          exact .lost message

/-- What the caller of a recoverable Input is given. -/
def Settles (access : Access) (expectedByte bytes : ℕ) :
    Except ControlFailure (Owner × NativeControl.AppliedInputRange) → Prop
  | .ok (o,range) => Applied access o expectedByte bytes range
  | .error failure => Legal (.input bytes) failure

theorem recoverableInput_settles (hreal : access.Real)
    (hfree : ¬LedgerPressed access key expectedByte data) :
    Settles access expectedByte data.length (recoverableInput access key expectedByte data) := by
  unfold recoverableInput
  cases hcontrol : access.controlError with
  | some error => exact fair_notApplied _ error
  | none =>
    have hnative : access.control = .native := by
      unfold Access.controlError at hcontrol
      split at hcontrol
      · next hn => exact hn
      · cases hcontrol
      · cases hcontrol
    dsimp only
    have hrecovered := beginRecoverable_recovered hreal hnative hfree
    generalize beginRecoverableInputAsync access key expectedByte data = begun at hrecovered
    cases hrecovered with
    | refused error => exact legal_notApplied _ error
    | lost message => exact legal_unknown _ (fun hcode => (nomatch hcode))
    | applied h => exact h
    | unknown o h => exact fair_legal h
    | pending ho ha =>
      next o channel =>
      dsimp only
      cases hr : laneReply o channel access.later with
      | none => exact legal_unknown _ (fun hcode => (nomatch hcode))
      | some result =>
        have hfair := laneReply_fair ho ⟨_,ha,rfl,rfl⟩ access.later hr
        cases result with
        | ok range => exact laneReply_applied ho ha hr
        | error failure => exact fair_legal hfair

end Access

end Answers
end Ctxmux
