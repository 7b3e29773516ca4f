import Ctxmux.HandoffValid

/-!
# Two images of one control

Reply channels are numbered within an image, so the control of the new image counts
them from zero. Up to that shift the old and the new control answer alike: every
critical section takes mirrored controls to mirrored controls.
-/

namespace Ctxmux
namespace NativeControl

def InputReply.shift (k : ℕ) : InputReply → InputReply
  | .legacy reply => .legacy (reply+k)
  | .recoverable key completion => .recoverable key (completion+k)

def InputCommand.shift (k : ℕ) (command : InputCommand) : InputCommand :=
  { command with reply := command.reply.shift k }

def InputOperationEntry.shift (k : ℕ) : InputOperationEntry → InputOperationEntry
  | .pending request completion => .pending request (completion+k)
  | .completed request range => .completed request range
  | .unknown request failure => .unknown request failure

def PendingRecoverableInput.shift (k : ℕ) : PendingRecoverableInput → PendingRecoverableInput
  | .ready result => .ready result
  | .pending completion => .pending (completion+k)

def shiftSettlement (k : ℕ) (s : Settlement) : Settlement := (s.1.shift k,s.2)

/-- The ledgers agree up to the numbers of the reply channels. -/
def SameLedger (k : ℕ) (ops ops' : InputOperations) : Prop :=
  ∀ key, ops.lookup key = (ops'.lookup key).map (·.shift k)

/-- The first state is the second with its channels shifted. -/
def Mirror (k : ℕ) (s t : ControlState) : Prop :=
  ∃ ops blocked, s = { t with
    inputQueue := t.inputQueue.map (·.shift k)
    inputOperations := ops
    inputBlocked := blocked } ∧ SameLedger k ops t.inputOperations

variable {k : ℕ} {s t : ControlState} {ops ops' : InputOperations} {key : InputOperationKey}

@[simp] theorem shift_request (k : ℕ) (entry : InputOperationEntry) :
    (entry.shift k).request = entry.request := by
  cases entry <;> rfl

namespace SameLedger

theorem length (h : SameLedger k ops ops') : ops.entries.length = ops'.entries.length := by
  have hkeys : ops.keys.Perm ops'.keys := by
    refine (List.perm_ext_iff_of_nodup ops.nodupKeys ops'.nodupKeys).mpr fun key => ?_
    show key ∈ ops.keys ↔ key ∈ ops'.keys
    rw [← AList.mem_keys,← AList.mem_keys,← AList.lookup_isSome,← AList.lookup_isSome,h key]
    simp
  have hlength := hkeys.length_eq
  simpa [AList.keys,List.keys] using hlength

theorem erase (h : SameLedger k ops ops') (key : InputOperationKey) :
    SameLedger k (ops.erase key) (ops'.erase key) := by
  intro other
  by_cases heq : other = key
  · subst heq
    simp
  · rw [AList.lookup_erase_ne heq,AList.lookup_erase_ne heq]
    exact h other

theorem insert (h : SameLedger k ops ops') (key : InputOperationKey) (entry : InputOperationEntry) :
    SameLedger k (ops.insert key (entry.shift k)) (ops'.insert key entry) := by
  intro other
  by_cases heq : other = key
  · subst heq
    simp
  · rw [AList.lookup_insert_ne heq,AList.lookup_insert_ne heq]
    exact h other

end SameLedger

theorem Mirror.releaseInputCapacity (h : Mirror k s t) (bytes : ℕ) :
    Mirror k (releaseInputCapacity s bytes) (releaseInputCapacity t bytes) := by
  obtain ⟨ops,blocked,rfl,hops⟩ := h
  exact ⟨ops,blocked,rfl,hops⟩

theorem Mirror.removeInputOperation (h : Mirror k s t) (key : InputOperationKey) :
    Mirror k (removeInputOperation s key) (removeInputOperation t key) := by
  obtain ⟨ops,blocked,rfl,hops⟩ := h
  have hkey := hops key
  unfold NativeControl.removeInputOperation
  cases hl : t.inputOperations.lookup key with
  | none =>
    rw [hl] at hkey
    simp only [hkey]
    exact ⟨ops,blocked,rfl,hops⟩
  | some entry =>
    rw [hl] at hkey
    simp only [hkey,Option.map_some,shift_request]
    exact ⟨ops.erase key,blocked,rfl,hops.erase key⟩

theorem Mirror.removeReplyOperation (h : Mirror k s t) (reply : InputReply) :
    Mirror k (removeReplyOperation s (reply.shift k)) (removeReplyOperation t reply) := by
  cases reply with
  | legacy channel => exact h
  | recoverable key channel => exact h.removeInputOperation key

/-- A result that replaces the entry of its key. -/
def retainResult (st : ControlState) (key : InputOperationKey)
    (result : InputOperationRequest → InputOperationEntry)
    (completed : List InputOperationKey → List InputOperationKey) : ControlState :=
  match st.inputOperations.lookup key with
  | some entry =>
    { st with
      inputOperations := st.inputOperations.insert key (result entry.request)
      completedInputOperations := completed st.completedInputOperations }
  | none => st

section

variable (h : Mirror k s t)
include h

theorem Mirror.retainResult (key : InputOperationKey)
    (result : InputOperationRequest → InputOperationEntry)
    (hresult : ∀ request, (result request).shift k = result request)
    (completed : List InputOperationKey → List InputOperationKey) :
    Mirror k (retainResult s key result completed) (retainResult t key result completed) := by
  obtain ⟨ops,blocked,rfl,hops⟩ := h
  have hkey := hops key
  unfold NativeControl.retainResult
  cases hl : t.inputOperations.lookup key with
  | none =>
    rw [hl] at hkey
    simp only [hkey]
    exact ⟨ops,blocked,rfl,hops⟩
  | some entry =>
    rw [hl] at hkey
    simp only [hkey,Option.map_some,shift_request]
    have hinsert := hops.insert key (result entry.request)
    rw [hresult] at hinsert
    exact ⟨_,blocked,rfl,hinsert⟩

theorem Mirror.retainUnknownInputOperation (reply : InputReply) (failure : ControlFailure) :
    Mirror k (retainUnknownInputOperation s (reply.shift k) failure)
      (retainUnknownInputOperation t reply failure) := by
  cases reply with
  | legacy channel => exact h
  | recoverable key channel =>
    exact h.retainResult key (fun request => .unknown request failure) (fun _ => rfl) id

theorem Mirror.retainCompletedInputOperation (reply : InputReply) (range : AppliedInputRange) :
    Mirror k (retainCompletedInputOperation s (reply.shift k) range)
      (retainCompletedInputOperation t reply range) := by
  cases reply with
  | legacy channel => exact h
  | recoverable key channel =>
    exact h.retainResult key (fun request => .completed request range) (fun _ => rfl)
      fun keys => keys ++ [key]

theorem Mirror.poison (error : ProtocolError) :
    Mirror k { s with inputFailure := some error } { t with inputFailure := some error } := by
  obtain ⟨ops,blocked,rfl,hops⟩ := h
  exact ⟨ops,blocked,rfl,hops⟩

theorem Mirror.rejectCommand (error : ProtocolError) (command : InputCommand) :
    Mirror k (rejectCommand s error (command.shift k)).1 (rejectCommand t error command).1 ∧
      (rejectCommand s error (command.shift k)).2 = (rejectCommand t error command).2 := by
  unfold NativeControl.rejectCommand
  have hreleased := h.releaseInputCapacity command.data.length
  by_cases hconfirmed : command.confirmed = 0
  · have hshifted : (command.shift k).confirmed = 0 := hconfirmed
    simp only [if_pos hconfirmed,if_pos hshifted]
    exact ⟨hreleased.removeReplyOperation command.reply,trivial⟩
  · have hshifted : (command.shift k).confirmed ≠ 0 := hconfirmed
    simp only [if_neg hconfirmed,if_neg hshifted]
    exact ⟨(hreleased.poison error).retainUnknownInputOperation command.reply _,rfl⟩

theorem Mirror.rejectLoop (error : ProtocolError) (queue : List InputCommand) :
    Mirror k (rejectLoop error s (queue.map (·.shift k))).1 (rejectLoop error t queue).1 ∧
      (rejectLoop error s (queue.map (·.shift k))).2 =
        (rejectLoop error t queue).2.map (shiftSettlement k) := by
  induction queue generalizing s t with
  | nil => exact ⟨h,rfl⟩
  | cons command queue ih =>
    obtain ⟨hfront,hresult⟩ := h.rejectCommand error command
    obtain ⟨hrest,hresults⟩ := ih hfront
    simp only [List.map_cons,NativeControl.rejectLoop]
    exact ⟨hrest,by rw [hresults,hresult]; rfl⟩

theorem Mirror.rejectQueuedInputs (error : ProtocolError) :
    Mirror k (rejectQueuedInputs s error).1 (rejectQueuedInputs t error).1 ∧
      (rejectQueuedInputs s error).2 = (rejectQueuedInputs t error).2.map (shiftSettlement k) := by
  obtain ⟨ops,blocked,rfl,hops⟩ := h
  let emptied : ControlState := { t with inputScheduled := false, inputBlocked := false, inputQueue := [] }
  have hemptied : Mirror k { emptied with inputOperations := ops } emptied := ⟨ops,false,rfl,hops⟩
  exact hemptied.rejectLoop error t.inputQueue

theorem Mirror.resultCapacityExceeded (limits : ResourceLimits) (newBytes : ℕ) :
    resultCapacityExceeded limits s newBytes = resultCapacityExceeded limits t newBytes := by
  obtain ⟨ops,blocked,rfl,hops⟩ := h
  unfold NativeControl.resultCapacityExceeded
  simp only [hops.length]

end

theorem Mirror.evictLoop (limits : ResourceLimits) (newBytes : ℕ) (h : Mirror k s t)
    (keys : List InputOperationKey) :
    Mirror k (evictLoop limits newBytes s keys) (evictLoop limits newBytes t keys) := by
  induction keys generalizing s t with
  | nil =>
    obtain ⟨ops,blocked,rfl,hops⟩ := h
    exact ⟨ops,blocked,rfl,hops⟩
  | cons key keys ih =>
    unfold NativeControl.evictLoop
    rw [h.resultCapacityExceeded]
    split
    · have hkey : s.inputOperations.lookup key = (t.inputOperations.lookup key).map (·.shift k) := by
        obtain ⟨ops,blocked,rfl,hops⟩ := h
        exact hops key
      cases hl : t.inputOperations.lookup key with
      | none =>
        rw [hl] at hkey
        simp only [hkey]
        exact ih h
      | some entry =>
        rw [hl] at hkey
        simp only [hkey,Option.map_some]
        cases entry with
        | pending request channel => exact ih h
        | completed request range => exact ih (h.removeInputOperation key)
        | unknown request failure => exact ih h
    · obtain ⟨ops,blocked,rfl,hops⟩ := h
      exact ⟨ops,blocked,rfl,hops⟩

theorem Mirror.retainedInputResult (h : Mirror k s t) (key : InputOperationKey)
    (request : InputOperationRequest) (runId : String) :
    retainedInputResult s key request runId =
      (retainedInputResult t key request runId).map (Option.map (·.shift k)) := by
  obtain ⟨ops,blocked,rfl,hops⟩ := h
  unfold NativeControl.retainedInputResult
  simp only [hops key]
  cases t.inputOperations.lookup key with
  | none => rfl
  | some entry =>
    simp only [Option.map_some,shift_request]
    split
    · rfl
    · cases entry with
      | pending request channel => rfl
      | completed request range => rfl
      | unknown request failure => rfl

theorem Mirror.expectedCursor (h : Mirror k s t) (reply : InputReply) :
    expectedCursor s (reply.shift k) = expectedCursor t reply := by
  obtain ⟨ops,blocked,rfl,hops⟩ := h
  cases reply with
  | legacy channel => rfl
  | recoverable key channel =>
    simp only [NativeControl.expectedCursor,InputReply.shift,hops key]
    cases t.inputOperations.lookup key with
    | none => rfl
    | some entry => simp

theorem Mirror.cursorRefused (h : Mirror k s t) (command : InputCommand) :
    cursorRefused s (command.shift k) = cursorRefused t command := by
  have happlied : s.appliedInputBytes = t.appliedInputBytes := by
    obtain ⟨ops,blocked,rfl,hops⟩ := h
    rfl
  unfold NativeControl.cursorRefused
  rw [show (command.shift k).reply = command.reply.shift k from rfl,h.expectedCursor,happlied]
  rfl

end NativeControl
end Ctxmux
