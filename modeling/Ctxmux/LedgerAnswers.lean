import Ctxmux.LedgerRestored

/-!
# Answers of a drained registry

The answer to a Stop request is a function of the snapshot, of whether the Run is
retained and of whether the budget can fund a fresh receipt. Two registries with one
snapshot therefore answer alike, except to a fresh request that only one of them can
fund.
-/

namespace Ctxmux
namespace Registry

open Durable (RunId)

/-- What a caller of `begin_recoverable_stop` observes: it owns the Stop, or it waits for
the result of the operation's cell. -/
inductive StopReply where
  | owner
  | retry (result : Option StopResult)
deriving DecidableEq,Repr

namespace System

def observed (s : System) : StopAdmission → StopReply
  | .owner _ => .owner
  | .retry cell => .retry (s.results.lookup cell)

def reply (s : System) (view : View) (conditions : StopConditions) (id : RunId)
    (key : StopOperationKey) : Outcome StopReply :=
  (s.answer view conditions id key).2.map s.observed

/-- The budget can fund one more receipt. -/
def CanFund (s : System) (conditions : StopConditions) (key : StopOperationKey) : Prop :=
  conditions.controlUsed+s.registry.stopBytes+stopReceiptCharge conditions.sizes key ≤
    s.registry.controlLimit

instance (s : System) (conditions : StopConditions) (key : StopOperationKey) :
    Decidable (s.CanFund conditions key) := inferInstanceAs (Decidable (_ ≤ _))

end System

/-- The answer that a ledger gives. -/
def ledgerReply (operations : List HandoffStopOperation) (retained funded : Bool)
    (allocation : Option ProtocolError) (control : Except ProtocolError Unit) (id : RunId)
    (key : StopOperationKey) : Outcome StopReply :=
  match stopKeyError key with
  | some error => .refused error
  | none =>
    match operations.find? fun operation => operation.operationKey = key with
    | some operation =>
      if operation.runId ≠ id then
        .refused ⟨.stopOperationConflict,"native Stop operation key is already bound to another Run"⟩
      else .done (.retry (some operation.outcome.intoResult))
    | none =>
      if retained = false then .refused ⟨.runNotFound,s!"Run {id} does not exist"⟩
      else if id ∈ operations.map (·.runId) then
        .refused
          ⟨.stopOperationConflict,"Run already belongs to another native Stop operation"⟩
      else
        match allocation with
        | some error => .refused error
        | none =>
          if funded = false then
            .refused ⟨.controlBackpressure,
              "daemon control_state_bytes cannot fund a Stop receipt before its side effect"⟩
          else
            match control with
            | .error error => .refused error
            | .ok _ => .done .owner

variable {s t : System} {operations : List HandoffStopOperation} {id bound : RunId}
  {key : StopOperationKey} {entry : RegistryEntry} {record : StopOperationRecord}

/-- The registry is drained and `operations` are what it keeps. -/
structure Tabled (s : System) (operations : List HandoffStopOperation) : Prop where
  owned : Owned s
  ledger : Ledger s
  drained : s.Drained
  keeps : ∀ operation, operation ∈ operations ↔ s.Keeps operation

namespace Tabled

theorem of_record (h : Tabled s operations) (hentry : s.registry.runs.lookup id = some entry)
    (hrecord : entry.stopOperation = some record) :
    ∃ result, s.results.lookup record.cell = some result ∧
      (⟨id,record.key,result.outcome⟩ : HandoffStopOperation) ∈ operations := by
  have hrec : HasRecord s.registry ⟨id,record.key,record.cell⟩ :=
    ⟨entry,record.memory,hentry,hrecord⟩
  rcases h.ledger.standing _ hrec with hin | ⟨result,hresult,-⟩
  · rw [h.drained.settled] at hin
    cases hin
  · exact ⟨result,hresult,(h.keeps _).mpr ⟨record.cell,hrec,by simpa using hresult⟩⟩

theorem to_record (h : Tabled s operations) {operation : HandoffStopOperation}
    (hin : operation ∈ operations) :
    ∃ entry record, s.registry.runs.lookup operation.runId = some entry ∧
      entry.stopOperation = some record ∧ record.key = operation.operationKey ∧
      s.registry.stopRuns.lookup operation.operationKey = some operation.runId ∧
      s.results.lookup record.cell = some operation.outcome.intoResult := by
  obtain ⟨cell,hrec,hresult⟩ := (h.keeps operation).mp hin
  have hbound := hrec.bound h.owned.consistent
  obtain ⟨entry,memory,hentry,hrecord⟩ := hrec
  exact ⟨entry,_,hentry,hrecord,rfl,hbound,hresult⟩

theorem found (h : Tabled s operations) (hbound : s.registry.stopRuns.lookup key = some bound) :
    ∃ entry record operation, s.registry.runs.lookup bound = some entry ∧
      entry.stopOperation = some record ∧ record.key = key ∧
      (operations.find? fun operation => operation.operationKey = key) = some operation ∧
      operation.runId = bound ∧ s.results.lookup record.cell = some operation.outcome.intoResult := by
  have hindex := (h.owned.consistent.keyed.stop key bound).mp hbound
  obtain ⟨entry,hentry,hstop⟩ := Option.bind_eq_some_iff.mp hindex
  obtain ⟨record,hrecord,hkey⟩ := Option.map_eq_some_iff.mp hstop
  obtain ⟨result,hresult,hin⟩ := h.of_record hentry hrecord
  have hsome : (operations.find? fun operation => operation.operationKey = key).isSome := by
    rw [List.find?_isSome]
    exact ⟨_,hin,by simpa using hkey⟩
  obtain ⟨operation,hfound⟩ := Option.isSome_iff_exists.mp hsome
  have hmem := List.mem_of_find?_eq_some hfound
  have hsame : operation.operationKey = key := by simpa using List.find?_some hfound
  obtain ⟨entry',record',hentry',hrecord',-,hbound',hresult'⟩ := h.to_record hmem
  rw [hsame,hbound] at hbound'
  have hrun : operation.runId = bound := (Option.some.inj hbound').symm
  rw [hrun,hentry] at hentry'
  cases hentry'
  rw [hrecord] at hrecord'
  cases hrecord'
  exact ⟨entry,record,operation,hentry,hrecord,hkey,hfound,hrun,hresult'⟩

theorem not_found (h : Tabled s operations) (hfree : s.registry.stopRuns.lookup key = none) :
    (operations.find? fun operation => operation.operationKey = key) = none := by
  rw [List.find?_eq_none]
  intro operation hin hkey
  obtain ⟨entry,record,-,-,-,hbound,-⟩ := h.to_record hin
  rw [show operation.operationKey = key by simpa using hkey,hfree] at hbound
  cases hbound

theorem mem_runs (h : Tabled s operations) (hentry : s.registry.runs.lookup id = some entry) :
    id ∈ operations.map (·.runId) ↔ entry.stopOperation.isSome = true := by
  rw [List.mem_map]
  constructor
  · rintro ⟨operation,hin,rfl⟩
    obtain ⟨entry',record,hentry',hrecord,-⟩ := h.to_record hin
    rw [hentry] at hentry'
    cases hentry'
    rw [hrecord]
    rfl
  · intro hsome
    obtain ⟨record,hrecord⟩ := Option.isSome_iff_exists.mp hsome
    obtain ⟨result,-,hin⟩ := h.of_record hentry hrecord
    exact ⟨_,hin,rfl⟩

theorem reply_eq (h : Tabled s operations) (view : View) (conditions : StopConditions) (id : RunId)
    (key : StopOperationKey) :
    s.reply view conditions id key = ledgerReply operations (s.registry.runs.lookup id).isSome
      (s.CanFund conditions key) conditions.allocation (view id).nativeControl id key := by
  unfold System.reply System.answer beginRecoverableStop ledgerReply
  cases stopKeyError key with
  | some error => rfl
  | none =>
    cases hbound : s.registry.stopRuns.lookup key with
    | some bound =>
      obtain ⟨entry,record,operation,hentry,hrecord,hkey,hfound,hrun,hresult⟩ := h.found hbound
      simp only [hfound,hrun,retryStop]
      by_cases hid : bound = id
      · subst hid
        have hretained := h.drained.retained bound entry hentry
        simp [hentry,hretained,hrecord,hkey,Outcome.map,System.observed,hresult]
      · simp [hid,Outcome.map]
    | none =>
      simp only [h.not_found hbound]
      cases hentry : s.registry.runs.lookup id with
      | none => simp [Outcome.map]
      | some entry =>
        have hretained := h.drained.retained id entry hentry
        have hcontrol : (s.pinned view id).nativeControl = (view id).nativeControl := rfl
        simp only [hretained,hcontrol,ne_eq,not_true_eq_false,if_false,Option.isSome_some,
          Bool.true_eq_false,h.mem_runs hentry]
        split
        · rfl
        · cases conditions.allocation with
          | some error => rfl
          | none =>
            simp only [decide_eq_false_iff_not]
            by_cases hfund : s.CanFund conditions key
            · rw [if_neg (Nat.not_lt.mpr hfund),if_neg (not_not_intro hfund)]
              cases (view id).nativeControl with
              | error error => rfl
              | ok _ => rfl
            · rw [if_pos (Nat.lt_of_not_le hfund),if_pos hfund]
              rfl

end Tabled

/-- A request that needs a new receipt: a valid unbound key and a Run without a Stop. -/
structure System.Fresh (s : System) (id : RunId) (key : StopOperationKey) : Prop where
  valid : stopKeyError key = none
  free : s.registry.stopRuns.lookup key = none
  unstopped : ∃ entry, s.registry.runs.lookup id = some entry ∧ entry.stopOperation = none

/-- Two registries with one ledger answer alike, or only one can fund a fresh request. -/
theorem Tabled.same_reply (h : Tabled s operations) (h' : Tabled t operations)
    (hrun : s.registry.runs.lookup id = none ↔ t.registry.runs.lookup id = none) (view : View)
    {old new : StopConditions} (hallocation : old.allocation = new.allocation) :
    s.reply view old id key = t.reply view new id key ∨
      (s.Fresh id key ∧ old.allocation = none ∧ ¬(s.CanFund old key ↔ t.CanFund new key)) := by
  have hretained : (s.registry.runs.lookup id).isSome = (t.registry.runs.lookup id).isSome := by
    rw [Bool.eq_iff_iff,Option.isSome_iff_ne_none,Option.isSome_iff_ne_none,ne_eq,ne_eq,hrun]
  rw [h.reply_eq,h'.reply_eq,hretained,hallocation]
  by_cases hfund : s.CanFund old key ↔ t.CanFund new key
  · left
    simp only [hfund]
  · by_cases hfresh : s.Fresh id key ∧ new.allocation = none
    · exact .inr ⟨hfresh.1,hfresh.2,hfund⟩
    · left
      unfold ledgerReply
      cases hvalid : stopKeyError key with
      | some error => rfl
      | none =>
        cases hfree : s.registry.stopRuns.lookup key with
        | some bound =>
          obtain ⟨-,-,operation,-,-,-,hfound,-⟩ := h.found hfree
          simp only [hfound]
        | none =>
          simp only [h.not_found hfree,← hretained]
          cases hentry : s.registry.runs.lookup id with
          | none => simp only [Option.isSome_none,if_true]
          | some entry =>
            simp only [h.mem_runs hentry]
            cases hrecord : entry.stopOperation with
            | some record => simp only [Option.isSome_some,if_true]
            | none =>
              cases hnone : new.allocation with
              | some error => rfl
              | none => exact absurd ⟨⟨hvalid,hfree,entry,hentry,hrecord⟩,hnone⟩ hfresh

end Registry
end Ctxmux
