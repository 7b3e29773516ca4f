import Ctxmux.AttachmentCommands

/-!
# The command table keeps its counters

What one operation of the attachment table does to its command counters: they are
the number and the byte sum of the pending Input commands, they stay within the
limits, and the capacity that a settled command gives back is there to be given.
-/

namespace Ctxmux
namespace Client

open MapTotals

namespace PendingCommand

def inputs (p : PendingCommand) : ℕ := if p.kind.isInput then 1 else 0

def bytes (p : PendingCommand) : ℕ := p.kind.inputBytes

end PendingCommand

variable {kind : PendingKind}

theorem PendingKind.inputBytes_of_not_input (h : kind.isInput = false) :
    kind.inputBytes = 0 := by
  cases kind with
  | input expectedBytes => cases h
  | resize => rfl
  | signal requested => rfl
  | stop => rfl

/-- The counters are exact, the limits hold, ids stay in the range of the wire, and
an ended attachment waits for nothing. -/
structure AttachmentState.Funded (s : AttachmentState) : Prop where
  inputs : s.pendingInputs = total PendingCommand.inputs s.pending
  bytes : s.pendingInputBytes = total PendingCommand.bytes s.pending
  commandLimit : s.pending.entries.length ≤ maxPendingCommands
  inputLimit : s.pendingInputs ≤ maxPendingInputCommands
  byteLimit : s.pendingInputBytes ≤ maxPendingInputBytes
  idPositive : 1 ≤ s.nextCommandId
  idBounded : s.nextCommandId ≤ u32Max
  ended : s.ended.isSome → s.pending = ∅

theorem funded_default : AttachmentState.default.Funded where
  inputs := rfl
  bytes := rfl
  commandLimit := Nat.zero_le _
  inputLimit := Nat.zero_le _
  byteLimit := Nat.zero_le _
  idPositive := le_refl _
  idBounded := by decide
  ended := fun h => (nomatch h)

namespace AttachmentState

variable {s s' : AttachmentState} {id : ℕ} {p : PendingCommand}

section

variable (s : AttachmentState) (id : ℕ) (p : PendingCommand)

@[simp] theorem removed_pending :
    (s.removed id p).pending = s.pending.erase id := by
  unfold removed releasePendingCapacity
  split <;> rfl

@[simp] theorem removed_nextCommandId :
    (s.removed id p).nextCommandId = s.nextCommandId := by
  unfold removed releasePendingCapacity
  split <;> rfl

@[simp] theorem removed_fence :
    (s.removed id p).fence = s.fence := by
  unfold removed releasePendingCapacity
  split <;> rfl

@[simp] theorem removed_ended :
    (s.removed id p).ended = s.ended := by
  unfold removed releasePendingCapacity
  split <;> rfl

@[simp] theorem removed_detaching :
    (s.removed id p).detaching = s.detaching := by
  unfold removed releasePendingCapacity
  split <;> rfl

theorem removed_pendingInputs :
    (s.removed id p).pendingInputs = s.pendingInputs-p.inputs := by
  unfold removed releasePendingCapacity PendingCommand.inputs
  split <;> rfl

theorem removed_pendingInputBytes :
    (s.removed id p).pendingInputBytes = s.pendingInputBytes-p.bytes := by
  unfold removed releasePendingCapacity PendingCommand.bytes
  split
  · rfl
  · next h =>
    have hzero : p.kind.inputBytes = 0 :=
      PendingKind.inputBytes_of_not_input (Bool.not_eq_true _ ▸ h)
    rw [hzero]
    rfl

end

/-- The capacity of a pending command is part of both counters. -/
theorem Funded.covers (h : s.Funded) (hp : s.pending.lookup id = some p) :
    p.inputs ≤ s.pendingInputs ∧ p.bytes ≤ s.pendingInputBytes := by
  rw [h.inputs,h.bytes]
  exact ⟨le_total _ hp,le_total _ hp⟩

theorem Funded.removed (h : s.Funded) (hp : s.pending.lookup id = some p) :
    (s.removed id p).Funded := by
  have hinputs := total_erase PendingCommand.inputs hp
  have hbytes := total_erase PendingCommand.bytes hp
  have hcount := total_erase (fun _ => 1) hp
  rw [← entries_length,← entries_length] at hcount
  have h₁ := h.inputs
  have h₂ := h.bytes
  have h₃ := h.commandLimit
  have h₄ := h.inputLimit
  have h₅ := h.byteLimit
  constructor
  · rw [removed_pendingInputs,removed_pending]
    omega
  · rw [removed_pendingInputBytes,removed_pending]
    omega
  · rw [removed_pending]
    omega
  · rw [removed_pendingInputs]
    omega
  · rw [removed_pendingInputBytes]
    omega
  · simpa using h.idPositive
  · simpa using h.idBounded
  · intro hend
    rw [removed_ended] at hend
    have hempty := h.ended hend
    rw [hempty] at hp
    cases hp

theorem of_refusal_none {observationUnavailable : Bool}
    (h : s.refusal observationUnavailable kind = none) :
    s.ended = none ∧ s.fence = none ∧ s.pending.entries.length ≠ maxPendingCommands ∧
      (kind.isInput = true → s.pendingInputs ≠ maxPendingInputCommands) ∧
      s.pendingInputBytes+kind.inputBytes ≤ maxPendingInputBytes := by
  unfold refusal at h
  split at h
  · cases h
  next hend =>
  split at h
  · cases h
  next hfence =>
  split at h
  · cases h
  split at h
  · cases h
  next hcount =>
  split at h
  · cases h
  next hinput =>
  split at h
  · cases h
  next hbytes =>
  refine ⟨?_,hfence,hcount,fun hk hi => hinput ⟨hk,hi⟩,by omega⟩
  cases hs : s.ended with
  | none => rfl
  | some ending => simp [hs] at hend

theorem Funded.registered (h : s.Funded) {observationUnavailable : Bool} (resultTx : ℕ)
    (hr : s.refusal observationUnavailable kind = none)
    (hnew : s.pending.lookup s.nextCommandId = none) : (s.registered kind resultTx).Funded := by
  obtain ⟨hend,hfence,hcount,hinput,hbytes⟩ := of_refusal_none hr
  have hinputs := total_insert_new PendingCommand.inputs hnew ⟨kind,resultTx⟩
  have hsum := total_insert_new PendingCommand.bytes hnew ⟨kind,resultTx⟩
  have hlength := total_insert_new (fun _ => 1) hnew (⟨kind,resultTx⟩ : PendingCommand)
  rw [← entries_length,← entries_length] at hlength
  have h₁ := h.inputs
  have h₂ := h.bytes
  have h₃ := h.commandLimit
  have h₄ := h.inputLimit
  have h₅ := h.idPositive
  have h₆ := h.idBounded
  constructor
  · show s.pendingInputs+_ = _
    rw [h₁]
    exact hinputs.symm
  · show s.pendingInputBytes+_ = _
    rw [h₂]
    exact hsum.symm
  · show (s.pending.insert s.nextCommandId ⟨kind,resultTx⟩).entries.length ≤ _
    omega
  · show s.pendingInputs+_ ≤ _
    split
    · next hk =>
      have := hinput hk
      omega
    · omega
  · exact hbytes
  · show 1 ≤ if s.nextCommandId = u32Max then s.nextCommandId else s.nextCommandId+1
    split <;> omega
  · show (if s.nextCommandId = u32Max then s.nextCommandId else s.nextCommandId+1) ≤ u32Max
    split <;> omega
  · intro hended
    simp [AttachmentState.registered,hend] at hended

/-- Cancelling moves only the id counter and the fence of a table without the command. -/
theorem Funded.cancelled (h : s.Funded) (hid : 1 ≤ id ∧ id ≤ u32Max) :
    (cancelUnsentCommand s id).Funded := by
  unfold cancelUnsentCommand
  split
  · exact h
  next p hp =>
  have hremoved := h.removed hp
  split
  · exact ⟨hremoved.inputs,hremoved.bytes,hremoved.commandLimit,hremoved.inputLimit,
      hremoved.byteLimit,hremoved.idPositive,hremoved.idBounded,hremoved.ended⟩
  · exact ⟨hremoved.inputs,hremoved.bytes,hremoved.commandLimit,hremoved.inputLimit,
      hremoved.byteLimit,hid.1,hid.2,hremoved.ended⟩

theorem Funded.beginDetach (h : s.Funded) (hs : Client.beginDetach s = .ok s') : s'.Funded := by
  unfold Client.beginDetach at hs
  split at hs
  · cases hs
  cases hs
  exact ⟨h.inputs,h.bytes,h.commandLimit,h.inputLimit,h.byteLimit,h.idPositive,h.idBounded,h.ended⟩

/-- The daemon's acknowledgement is taken only for a detach that began and that left
no command pending. -/
theorem finishDetach_eq_ok {s : AttachmentState} (hs : finishDetach s = .ok s') :
    s.detaching = true ∧ s.pending = ∅ ∧
      s' = { s with ended := some .detached, fence := some .closed } := by
  unfold finishDetach at hs
  split at hs
  · cases hs
  next hdetaching =>
  split at hs
  · cases hs
  next hempty =>
  cases hs
  refine ⟨by simpa using hdetaching,?_,rfl⟩
  apply AList.ext
  simpa using hempty

theorem Funded.finishDetach (h : s.Funded) (hs : Client.finishDetach s = .ok s') : s'.Funded := by
  obtain ⟨-,hempty,rfl⟩ := finishDetach_eq_ok hs
  exact ⟨h.inputs,h.bytes,h.commandLimit,h.inputLimit,h.byteLimit,h.idPositive,h.idBounded,
    fun _ => hempty⟩

end AttachmentState

theorem registerCommand_eq_ok {s s' : AttachmentState} {observationUnavailable : Bool}
    {resultTx id : ℕ} (h : registerCommand s observationUnavailable kind resultTx = .ok (id,s')) :
    s.refusal observationUnavailable kind = none ∧ id = s.nextCommandId ∧
      s' = s.registered kind resultTx := by
  unfold registerCommand at h
  split at h
  · cases h
  next hr =>
  cases h
  exact ⟨hr,rfl,rfl⟩

theorem resolveCommand_eq_ok {s s' : AttachmentState} {id resultTx : ℕ}
    {outcome : ControlOutcome} {r : PendingResolution}
    (h : resolveCommand s id outcome = .ok (s',resultTx,r)) :
    ∃ p, s.pending.lookup id = some p ∧ resolution p.kind outcome = .ok r ∧
      s' = s.removed id p ∧ resultTx = p.resultTx := by
  unfold resolveCommand at h
  split at h
  · cases h
  next p hp =>
  cases hr : resolution p.kind outcome with
  | error message =>
    rw [hr] at h
    cases h
  | ok r' =>
    rw [hr] at h
    cases h
    exact ⟨p,hp,hr,rfl,rfl⟩

end Client
end Ctxmux
