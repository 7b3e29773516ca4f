import Ctxmux.LedgerReached

/-!
# What a snapshot of the Stop ledger holds

Of a drained registry, where every Stop is settled and no Run is being collected, the
snapshot holds exactly the recorded operations with their results. It decides every
answer to a Stop request except whether the budget can fund a fresh one.
-/

namespace Ctxmux
namespace Registry

open Durable (RunId)

/-- Every Stop is settled and no Run is being collected. -/
structure System.Drained (s : System) : Prop where
  settled : s.settlements = []
  retained : ∀ id entry, s.registry.runs.lookup id = some entry → entry.residency = .retained

/-- The registry records this operation with this result. -/
def System.Keeps (s : System) (operation : HandoffStopOperation) : Prop :=
  ∃ cell, HasRecord s.registry ⟨operation.runId,operation.operationKey,cell⟩ ∧
    s.results.lookup cell = some operation.outcome.intoResult

def StopResult.outcome : StopResult → HandoffStopOutcome
  | .applied receipt => .accepted receipt
  | .failed error disposition => .unknown error disposition

@[simp] theorem intoResult_outcome (result : StopResult) : result.outcome.intoResult = result := by
  cases result with
  | applied receipt => rfl
  | failed error disposition => rfl

@[simp] theorem outcome_intoResult (outcome : HandoffStopOutcome) :
    outcome.intoResult.outcome = outcome := by
  cases outcome with
  | accepted receipt => rfl
  | unknown error disposition => rfl

/-- The operation that an entry carries, if it has one with a result. -/
def carriedOf (results : AList fun _ : ℕ => StopResult) (id : RunId) (entry : RegistryEntry) :
    Option HandoffStopOperation :=
  entry.stopOperation.bind fun record =>
    (results.lookup record.cell).map fun result => ⟨id,record.key,result.outcome⟩

variable {s : System} {operations : List HandoffStopOperation} {operation : HandoffStopOperation}

theorem validate_eq_ok : operation.validate = .ok () ↔
    stopKeyError operation.operationKey = none ∧ operation.outcome.intoResult.removes = false := by
  unfold HandoffStopOperation.validate
  cases stopKeyError operation.operationKey with
  | some error => simp
  | none =>
    cases operation.outcome with
    | accepted receipt => simp [HandoffStopOutcome.intoResult,StopResult.removes]
    | unknown error disposition =>
      cases disposition with
      | notApplied => simp [HandoffStopOutcome.intoResult,StopResult.removes]
      | unknown => simp [HandoffStopOutcome.intoResult,StopResult.removes]

theorem validate_keeps (h : Ledger s) (hs : s.settlements = []) (hkeeps : s.Keeps operation) :
    operation.validate = .ok () := by
  obtain ⟨cell,hrec,hresult⟩ := hkeeps
  refine validate_eq_ok.mpr ⟨h.valid _ hrec,?_⟩
  rcases h.standing _ hrec with hin | ⟨result,hresult',hremoves⟩
  · rw [hs] at hin
    cases hin
  · rw [hresult] at hresult'
    cases hresult'
    exact hremoves

/-- The walk meets no pending, collected or not-applied entry. -/
theorem carriedOperations_eq {results : AList fun _ : ℕ => StopResult}
    {entries : List (Sigma fun _ : RunId => RegistryEntry)}
    (h : ∀ entry ∈ entries, ∀ record, entry.2.stopOperation = some record →
      entry.2.residency = .retained ∧ stopKeyError record.key = none ∧
        ∃ result, results.lookup record.cell = some result ∧ result.removes = false) :
    carriedOperations results entries =
      .ok (entries.filterMap fun entry => carriedOf results entry.1 entry.2) := by
  induction entries with
  | nil => rfl
  | cons entry entries ih =>
    have hrest := ih fun entry' hin => h entry' (by simp [hin])
    have hone : handoffStopOperation results entry.1 entry.2 =
        .ok (carriedOf results entry.1 entry.2) := by
      unfold handoffStopOperation carriedOf
      cases hrecord : entry.2.stopOperation with
      | none => rfl
      | some record =>
        obtain ⟨hretained,hkey,result,hresult,hremoves⟩ := h entry (by simp) record hrecord
        have hvalid : (⟨entry.1,record.key,result.outcome⟩ : HandoffStopOperation).validate =
            .ok () := validate_eq_ok.mpr ⟨hkey,by simpa using hremoves⟩
        simp only [hretained,hresult,ne_eq,not_true_eq_false,if_false,Option.bind_some,
          Option.map_some]
        cases result with
        | applied receipt =>
          simp only [carry]
          rw [show (StopResult.applied receipt).outcome = .accepted receipt from rfl] at hvalid ⊢
          rw [hvalid]
        | failed error disposition =>
          cases disposition with
          | notApplied => cases hremoves
          | unknown =>
            simp only [carry]
            rw [show (StopResult.failed error .unknown).outcome = .unknown error .unknown from rfl]
              at hvalid ⊢
            rw [hvalid]
    simp only [carriedOperations,hone,hrest]
    rw [List.filterMap_cons]
    cases carriedOf results entry.1 entry.2 with
    | none => rfl
    | some carried => rfl

theorem mem_carried : operation ∈ (s.registry.runs.entries.filterMap fun entry =>
    carriedOf s.results entry.1 entry.2) ↔ s.Keeps operation := by
  rw [List.mem_filterMap]
  constructor
  · rintro ⟨entry,hentry,hsome⟩
    obtain ⟨record,hrecord,hsome⟩ := Option.bind_eq_some_iff.mp hsome
    obtain ⟨result,hresult,rfl⟩ := Option.map_eq_some_iff.mp hsome
    refine ⟨record.cell,⟨entry.2,record.memory,AList.mem_lookup_iff.mpr hentry,hrecord⟩,?_⟩
    simpa using hresult
  · rintro ⟨cell,⟨entry,memory,hentry,hrecord⟩,hresult⟩
    refine ⟨⟨operation.runId,entry⟩,AList.mem_lookup_iff.mp hentry,?_⟩
    simp only [carriedOf,hrecord,Option.bind_some,hresult,Option.map_some,outcome_intoResult]

theorem map_runId_carried (results : AList fun _ : ℕ => StopResult)
    (entries : List (Sigma fun _ : RunId => RegistryEntry)) :
    ((entries.filterMap fun entry => carriedOf results entry.1 entry.2).map (·.runId)).Sublist
      entries.keys := by
  induction entries with
  | nil => exact List.Sublist.refl _
  | cons entry entries ih =>
    rw [List.filterMap_cons]
    split
    · exact ih.trans (List.sublist_cons_self _ _)
    · rename_i carried hcarried
      obtain ⟨record,-,hsome⟩ := Option.bind_eq_some_iff.mp hcarried
      obtain ⟨result,-,rfl⟩ := Option.map_eq_some_iff.mp hsome
      exact ih.cons_cons _

instance : Std.Total RunBefore := ⟨fun a b => String.le_total a.runId.text b.runId.text⟩

instance : IsTrans HandoffStopOperation RunBefore := ⟨fun _ _ _ hab hbc => String.le_trans hab hbc⟩

/-- What a snapshot is: the kept operations, sorted by their Runs. -/
structure Snapshot (s : System) (operations : List HandoffStopOperation) : Prop where
  keeps : ∀ operation, operation ∈ operations ↔ s.Keeps operation
  sorted : operations.Pairwise RunBefore
  nodup : (operations.map (·.runId)).Nodup

theorem handoffStopOperations_ok (h : Ledger s) (hs : s.Drained) :
    ∃ operations, s.handoffStopOperations = .ok operations ∧ Snapshot s operations := by
  have hwalk : carriedOperations s.results s.registry.runs.entries = .ok _ :=
    carriedOperations_eq fun entry hentry record hrecord => by
      have hlookup := AList.mem_lookup_iff.mpr hentry
      have hrec : HasRecord s.registry ⟨entry.1,record.key,record.cell⟩ :=
        ⟨entry.2,record.memory,hlookup,hrecord⟩
      refine ⟨hs.retained entry.1 entry.2 hlookup,h.valid _ hrec,?_⟩
      rcases h.standing _ hrec with hin | hresult
      · rw [hs.settled] at hin
        cases hin
      · exact hresult
  refine ⟨_,by rw [System.handoffStopOperations,hwalk],fun operation => ?_,
    List.pairwise_insertionSort _ _,?_⟩
  · rw [List.mem_insertionSort]
    exact mem_carried
  · have hperm := (List.perm_insertionSort RunBefore (s.registry.runs.entries.filterMap fun entry =>
      carriedOf s.results entry.1 entry.2)).map (·.runId)
    exact hperm.nodup_iff.mpr ((map_runId_carried _ _).nodup s.registry.runs.nodupKeys)

theorem Snapshot.unique {s' : System} {operations' : List HandoffStopOperation}
    (h : Snapshot s operations) (h' : Snapshot s' operations')
    (hkeeps : ∀ operation, s.Keeps operation ↔ s'.Keeps operation) : operations = operations' := by
  have hperm : operations.Perm operations' := by
    refine (List.perm_ext_iff_of_nodup (.of_map _ h.nodup) (.of_map _ h'.nodup)).mpr fun operation => ?_
    rw [h.keeps,h'.keeps,hkeeps]
  refine hperm.eq_of_pairwise (fun a b ha hb hab hba => ?_) h.sorted h'.sorted
  have htext : a.runId.text = b.runId.text := String.le_antisymm hab hba
  have hid : a.runId = b.runId := by
    cases ha' : a.runId
    cases hb' : b.runId
    rw [ha',hb'] at htext
    exact congrArg RunId.mk htext
  exact List.inj_on_of_nodup_map h.nodup ha (hperm.mem_iff.mpr hb) hid

end Registry
end Ctxmux
