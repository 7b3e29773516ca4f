import Ctxmux.AttachmentCommands
import Ctxmux.ControlAnswers

/-!
# Control results in the two clients

What the TypeScript SDK makes of a control outcome, beside what the Rust client makes of
it. They part on the failures: the SDK takes an owner's uncertainty together with
pressure, and it does not compare a confirmed prefix with the command.
-/

namespace Ctxmux
namespace Sdk

open Client (ControlOutcome ControlReceipt ControlFailure PendingKind ValidatedReceipt
  PendingResolution)
open Attachment (TerminalSize)

def maxSafeInteger : ℕ := 2^53-1

def unsignedInteger (value maximum minimum : ℕ) : Except String Unit :=
  if minimum ≤ value ∧ value ≤ maximum then .ok ()
  else .error s!"an integer from {minimum} to {maximum}"

def safeUnsignedInteger (value : ℕ) : Except String Unit := unsignedInteger value maxSafeInteger 0

def terminalSize (size : TerminalSize) (nonzero : Bool) : Except String Unit := do
  let minimum := if nonzero then 1 else 0
  unsignedInteger size.cols 0xffff minimum
  unsignedInteger size.rows 0xffff minimum

def controlReceipt : ControlReceipt → Except String Unit
  | .input writtenBytes => unsignedInteger writtenBytes 0xffffffff 0
  | .resize appliedSize => terminalSize appliedSize true
  | .signal .interrupt => .ok ()
  | .stop .graceful | .stop .forced => .ok ()

def controlFailure (failure : ControlFailure) : Except String Unit :=
  match failure.confirmedInputBytes with
  | none => .ok ()
  | some confirmed => do
    safeUnsignedInteger confirmed
    if failure.disposition = .notApplied ∧ confirmed ≠ 0 then
      .error "zero for a command not applied"
    else .ok ()

def controlOutcome : ControlOutcome → Except String Unit
  | .accepted receipt => controlReceipt receipt
  | .rejected failure => controlFailure failure

def decodeReceipt (kind : PendingKind) (receipt : ControlReceipt) : Except String ValidatedReceipt :=
  match kind, receipt with
  | .input expectedBytes, .input writtenBytes =>
    if writtenBytes ≠ expectedBytes then
      .error "input receipt byte count differs from the command payload"
    else .ok (.input ⟨writtenBytes⟩)
  | .input _, _ => .error "input returned another receipt kind"
  | .resize, .resize appliedSize =>
    if appliedSize.cols = 0 ∨ appliedSize.rows = 0 then
      .error "resize receipt reported a zero applied dimension"
    else .ok (.resize ⟨appliedSize⟩)
  | .resize, _ => .error "resize returned another receipt kind"
  | .signal _, .signal signal => .ok (.signal ⟨signal⟩)
  | .signal _, _ => .error "signal returned another receipt kind"
  | .stop, .stop disposition => .ok (.stop ⟨disposition⟩)
  | .stop, _ => .error "stop returned another receipt kind"

/-- A frame is validated before `settleCommand` sees it; either failure ends the
attachment. -/
def settleCommand (kind : PendingKind) (outcome : ControlOutcome) :
    Except String PendingResolution := do
  controlOutcome outcome
  match outcome with
  | .rejected failure => .ok (.rejected failure)
  | .accepted receipt => (decodeReceipt kind receipt).map .accepted

end Sdk

namespace Answers

open Client (ControlOutcome ControlReceipt ControlFailure PendingKind PendingResolution
  validateControlFailure)

/-- What the wire types hold: a count of 32 bits and dimensions of 16 bits. -/
def WellFormed : ControlOutcome → Prop
  | .accepted (.input writtenBytes) => writtenBytes ≤ 0xffffffff
  | .accepted (.resize size) => size.cols ≤ 0xffff ∧ size.rows ≤ 0xffff
  | _ => True

/-- The resolution that a client hands to its caller; none is a protocol violation. -/
def rustDecision (kind : PendingKind) (outcome : ControlOutcome) : Option PendingResolution :=
  (Client.resolution kind outcome).toOption

def sdkDecision (kind : PendingKind) (outcome : ControlOutcome) : Option PendingResolution :=
  (Sdk.settleCommand kind outcome).toOption

/-- A confirmed prefix that the command of this kind cannot have. -/
def Misplaced (kind : PendingKind) (failure : ControlFailure) : Prop :=
  match failure.confirmedInputBytes with
  | none => False
  | some confirmed => kind.isInput = false ∨ kind.inputBytes < confirmed

/-- The failures that only the SDK delivers. -/
def Contested (kind : PendingKind) : ControlOutcome → Prop
  | .accepted _ => False
  | .rejected failure => Sdk.controlFailure failure = .ok () ∧
    ((failure.error.code = .controlBackpressure ∧ failure.disposition = .unknown) ∨
      Misplaced kind failure)

theorem sdk_accepted (kind : PendingKind) (receipt : ControlReceipt)
    (h : WellFormed (.accepted receipt)) :
    sdkDecision kind (.accepted receipt) = rustDecision kind (.accepted receipt) := by
  unfold sdkDecision rustDecision Sdk.settleCommand Client.resolution PendingKind.validate
  cases receipt with
  | input writtenBytes =>
    have hw : Sdk.controlOutcome (.accepted (.input writtenBytes)) = .ok () :=
      if_pos ⟨Nat.zero_le _,h⟩
    rw [hw]
    cases kind with
    | input expectedBytes =>
      by_cases he : writtenBytes = expectedBytes
      · simp [Sdk.decodeReceipt,Client.decodeInputReceipt,he,Except.map,Except.mapError,
          Except.toOption,bind,Except.bind]
      · simp [Sdk.decodeReceipt,Client.decodeInputReceipt,he,Except.map,Except.mapError,
          Except.toOption,bind,Except.bind]
    | resize => rfl
    | signal requested => rfl
    | stop => rfl
  | resize size =>
    by_cases hz : size.cols ≠ 0 ∧ size.rows ≠ 0
    · have hs : Sdk.controlOutcome (.accepted (.resize size)) = .ok () := by
        have hcols : 1 ≤ size.cols ∧ size.cols ≤ 0xffff := ⟨Nat.pos_of_ne_zero hz.1,h.1⟩
        have hrows : 1 ≤ size.rows ∧ size.rows ≤ 0xffff := ⟨Nat.pos_of_ne_zero hz.2,h.2⟩
        simp [Sdk.controlOutcome,Sdk.controlReceipt,Sdk.terminalSize,Sdk.unsignedInteger,
          hcols,hrows,bind,Except.bind]
      rw [hs]
      cases kind with
      | input expectedBytes => rfl
      | resize =>
        simp [Sdk.decodeReceipt,Client.decodeResizeReceipt,hz,Except.map,Except.mapError,
          Except.toOption,bind,Except.bind]
      | signal requested => rfl
      | stop => rfl
    · have hs : ∃ e, Sdk.controlOutcome (.accepted (.resize size)) = .error e := by
        by_cases hc : size.cols = 0
        · simp [Sdk.controlOutcome,Sdk.controlReceipt,Sdk.terminalSize,Sdk.unsignedInteger,hc,
            bind,Except.bind]
        · have hr : size.rows = 0 := by
            by_contra hr
            exact hz ⟨hc,hr⟩
          have hcols : 1 ≤ size.cols ∧ size.cols ≤ 0xffff := ⟨Nat.pos_of_ne_zero hc,h.1⟩
          simp [Sdk.controlOutcome,Sdk.controlReceipt,Sdk.terminalSize,Sdk.unsignedInteger,hr,
            hcols,bind,Except.bind]
      obtain ⟨e,hs⟩ := hs
      rw [hs]
      cases kind with
      | input expectedBytes => rfl
      | resize =>
        simp [Client.decodeResizeReceipt,hz,Except.map,Except.mapError,Except.toOption,bind,
          Except.bind]
      | signal requested => rfl
      | stop => rfl
  | signal signal =>
    cases signal
    cases kind with
    | signal requested =>
      cases requested
      rfl
    | input expectedBytes => rfl
    | resize => rfl
    | stop => rfl
  | stop disposition => cases kind <;> cases disposition <;> rfl

/-- The legality of a failure, as the Rust client sees it. -/
def Legal (kind : PendingKind) (failure : ControlFailure) : Prop :=
  validateControlFailure failure = .ok () ∧ ¬Misplaced kind failure

variable {kind : PendingKind} {failure : ControlFailure}

theorem rust_delivers (h : Legal kind failure) :
    rustDecision kind (.rejected failure) = some (.rejected failure) := by
  unfold rustDecision Client.resolution
  dsimp only
  rw [h.1]
  cases hc : failure.confirmedInputBytes with
  | none => rfl
  | some confirmed =>
    have hplaced := h.2
    unfold Misplaced at hplaced
    rw [hc] at hplaced
    cases kind with
    | input expectedBytes =>
      have hle : confirmed ≤ expectedBytes := by
        by_contra hgt
        exact hplaced (Or.inr (Nat.lt_of_not_le hgt))
      simp [hle,bind,Except.bind,Except.toOption]
    | resize => exact absurd (Or.inl rfl) hplaced
    | signal requested => exact absurd (Or.inl rfl) hplaced
    | stop => exact absurd (Or.inl rfl) hplaced

theorem rust_drops (h : ¬Legal kind failure) :
    rustDecision kind (.rejected failure) = none := by
  unfold rustDecision Client.resolution
  dsimp only
  cases hv : validateControlFailure failure with
  | error e => rfl
  | ok u =>
    have hmisplaced : Misplaced kind failure := by
      by_contra hm
      exact h ⟨hv,hm⟩
    unfold Misplaced at hmisplaced
    cases hc : failure.confirmedInputBytes with
    | none =>
      rw [hc] at hmisplaced
      exact hmisplaced.elim
    | some confirmed =>
      rw [hc] at hmisplaced
      cases kind with
      | input expectedBytes =>
        have hlt : ¬confirmed ≤ expectedBytes := by
          rcases hmisplaced with hkind | hlt
          · cases hkind
          · exact Nat.not_le.mpr hlt
        simp [hlt,bind,Except.bind,Except.toOption]
      | resize => rfl
      | signal requested => rfl
      | stop => rfl

theorem sdk_rejected (kind : PendingKind) (failure : ControlFailure) :
    sdkDecision kind (.rejected failure) =
      ((Sdk.controlFailure failure).map fun _ => PendingResolution.rejected failure).toOption := by
  unfold sdkDecision Sdk.settleCommand Sdk.controlOutcome
  dsimp only
  cases Sdk.controlFailure failure <;> rfl

theorem sdk_takes_legal (h : Legal kind failure)
    (hkind : kind.inputBytes ≤ Client.maxPendingInputBytes) :
    Sdk.controlFailure failure = .ok () := by
  unfold Sdk.controlFailure
  cases hc : failure.confirmedInputBytes with
  | none => rfl
  | some confirmed =>
    have hplaced := h.2
    unfold Misplaced at hplaced
    rw [hc] at hplaced
    have hle : confirmed ≤ kind.inputBytes := by
      by_contra hgt
      exact hplaced (Or.inr (Nat.lt_of_not_le hgt))
    have hsafe : confirmed ≤ Sdk.maxSafeInteger :=
      (hle.trans hkind).trans (by decide)
    have hzero : ¬(failure.disposition = .notApplied ∧ confirmed ≠ 0) := by
      rintro ⟨hd,hne⟩
      have hv := h.1
      unfold validateControlFailure at hv
      rw [if_pos ⟨hd,by rw [hc]; exact Nat.pos_of_ne_zero hne⟩] at hv
      cases hv
    simp [Sdk.safeUnsignedInteger,Sdk.unsignedInteger,hsafe,hzero,bind,Except.bind]

/-- A failure that the SDK takes is illegal for the Rust client in two ways only. -/
theorem validate_of_sdk (h : Sdk.controlFailure failure = .ok ())
    (hp : ¬(failure.error.code = .controlBackpressure ∧ failure.disposition = .unknown)) :
    validateControlFailure failure = .ok () := by
  unfold validateControlFailure
  have hzero : ¬(failure.disposition = .notApplied ∧ 0 < failure.confirmedInputBytes.getD 0) := by
    rintro ⟨hd,hpos⟩
    unfold Sdk.controlFailure at h
    cases hc : failure.confirmedInputBytes with
    | none => simp [hc] at hpos
    | some confirmed =>
      rw [hc] at h hpos
      have hne : confirmed ≠ 0 := Nat.pos_iff_ne_zero.mp hpos
      unfold Sdk.safeUnsignedInteger Sdk.unsignedInteger at h
      dsimp only at h
      split at h
      · simp [hd,hne,bind,Except.bind] at h
      · cases h
  have hpressure : ¬(failure.error.code = .controlBackpressure ∧
      failure.disposition ≠ .notApplied) := by
    rintro ⟨hcode,hd⟩
    apply hp
    cases hdisp : failure.disposition with
    | notApplied => exact absurd hdisp hd
    | unknown => exact ⟨hcode,rfl⟩
  rw [if_neg hzero,if_neg hpressure]

/-- The clients decide alike exactly on what is not contested. -/
theorem decisions_agree_iff (kind : PendingKind) (outcome : ControlOutcome)
    (hwf : WellFormed outcome) (hkind : kind.inputBytes ≤ Client.maxPendingInputBytes) :
    rustDecision kind outcome = sdkDecision kind outcome ↔ ¬Contested kind outcome := by
  cases outcome with
  | accepted receipt =>
    constructor
    · exact fun _ h => h
    · exact fun _ => (sdk_accepted kind receipt hwf).symm
  | rejected failure =>
    rw [sdk_rejected]
    by_cases hlegal : Legal kind failure
    · rw [rust_delivers hlegal,sdk_takes_legal hlegal hkind]
      constructor
      · rintro - ⟨-,⟨hcode,hd⟩ | hm⟩
        · have hv := hlegal.1
          unfold validateControlFailure at hv
          rw [if_neg (fun h => by rw [hd] at h; cases h.1),
            if_pos ⟨hcode,by rw [hd]; decide⟩] at hv
          cases hv
        · exact hlegal.2 hm
      · exact fun _ => rfl
    · rw [rust_drops hlegal]
      cases hs : Sdk.controlFailure failure with
      | error e =>
        constructor
        · rintro - ⟨hok,-⟩
          rw [hs] at hok
          cases hok
        · exact fun _ => rfl
      | ok u =>
        constructor
        · intro h
          cases h
        · intro hnot
          exfalso
          apply hlegal
          constructor
          · exact validate_of_sdk hs fun hp => hnot ⟨hs,Or.inl hp⟩
          · exact fun hm => hnot ⟨hs,Or.inr hm⟩

end Answers
end Ctxmux
