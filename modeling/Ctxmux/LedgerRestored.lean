import Ctxmux.LedgerSnapshot

/-!
# The restored Stop ledger

Restoring a checked list of operations over recovered Runs succeeds when the control
budget holds all of them, and the registry then keeps exactly these operations.
-/

namespace Ctxmux
namespace Registry

open Durable (RunId)

/-- How far the restoration of a ledger came: the registry keeps what was restored. -/
structure Restoring (base s : System) (restored : List HandoffStopOperation) (bytes : ℕ) :
    Prop where
  owned : Owned s
  ledger : Ledger s
  drained : s.Drained
  fenceless : s.removals = []
  keeps : ∀ operation, s.Keeps operation ↔ operation ∈ restored
  runs : ∀ id, s.registry.runs.lookup id = none ↔ base.registry.runs.lookup id = none
  limit : s.registry.controlLimit = base.registry.controlLimit
  bytes : s.registry.stopBytes = base.registry.stopBytes+bytes

variable {base s : System} {restored operations : List HandoffStopOperation}
  {operation : HandoffStopOperation} {bytes : ℕ} {entry : RegistryEntry}
  {key : StopOperationKey} {st : StopSettlement}

namespace Restoring

theorem recorded (h : Restoring base s restored bytes) (hrec : HasRecord s.registry st) :
    ∃ operation ∈ restored, operation.runId = st.id ∧ operation.operationKey = st.key := by
  rcases h.ledger.standing st hrec with hin | ⟨result,hresult,-⟩
  · rw [h.drained.settled] at hin
    cases hin
  · have hkeeps : s.Keeps ⟨st.id,st.key,result.outcome⟩ := ⟨st.cell,hrec,by simpa using hresult⟩
    exact ⟨_,(h.keeps _).mp hkeeps,rfl,rfl⟩

theorem unrecorded (h : Restoring base s restored bytes)
    (hentry : s.registry.runs.lookup operation.runId = some entry)
    (hid : operation.runId ∉ restored.map (·.runId)) : entry.stopOperation = none := by
  cases hrecord : entry.stopOperation with
  | none => rfl
  | some record =>
    have hrec : HasRecord s.registry ⟨operation.runId,record.key,record.cell⟩ :=
      ⟨entry,record.memory,hentry,hrecord⟩
    obtain ⟨other,hother,hsame,-⟩ := h.recorded hrec
    exact absurd (List.mem_map.mpr ⟨other,hother,hsame⟩) hid

theorem unbound (h : Restoring base s restored bytes)
    (hkey : key ∉ restored.map (·.operationKey)) : s.registry.stopRuns.lookup key = none := by
  cases hbound : s.registry.stopRuns.lookup key with
  | none => rfl
  | some id =>
    have hindex := (h.owned.consistent.keyed.stop key id).mp hbound
    obtain ⟨entry,hentry,hrecord⟩ := Option.bind_eq_some_iff.mp hindex
    obtain ⟨record,hstop,rfl⟩ := Option.map_eq_some_iff.mp hrecord
    have hrec : HasRecord s.registry ⟨id,record.key,record.cell⟩ :=
      ⟨entry,record.memory,hentry,hstop⟩
    obtain ⟨other,hother,-,hsame⟩ := h.recorded hrec
    exact absurd (List.mem_map.mpr ⟨other,hother,hsame⟩) hkey

theorem next (h : Restoring base s restored bytes) (hvalid : operation.validate = .ok ())
    (hentry : s.registry.runs.lookup operation.runId = some entry)
    (hid : operation.runId ∉ restored.map (·.runId))
    (hkey : operation.operationKey ∉ restored.map (·.operationKey)) (charge : ℕ) :
    Restoring base (s.withSettled entry operation charge) (operation::restored) (bytes+charge) := by
  have hrecord := h.unrecorded hentry hid
  have hfree := h.unbound hkey
  obtain ⟨hkeyValid,hremoves⟩ := validate_eq_ok.mp hvalid
  have hretained := h.drained.retained _ _ hentry
  have hcases : ∀ st, HasRecord (s.withSettled entry operation charge).registry st →
      st = ⟨operation.runId,operation.operationKey,s.nextCell⟩ ∨ HasRecord s.registry st := by
    intro st hrec
    rcases hasRecord_of_insert rfl hrec with ⟨hsame,memory,hsome⟩ | hold
    · obtain ⟨id',key',cell⟩ := st
      simp only at hsame hsome
      cases hsome
      exact .inl (by rw [hsame])
    · exact .inr hold
  have hnew : HasRecord (s.withSettled entry operation charge).registry
      ⟨operation.runId,operation.operationKey,s.nextCell⟩ := ⟨_,charge,AList.lookup_insert _,rfl⟩
  have hother : ∀ st, HasRecord s.registry st →
      HasRecord (s.withSettled entry operation charge).registry st := by
    intro st hrec
    obtain ⟨other,hmem,hsame,-⟩ := h.recorded hrec
    have hne : st.id ≠ operation.runId := fun heq =>
      hid (List.mem_map.mpr ⟨other,hmem,hsame.trans heq⟩)
    obtain ⟨entry',memory,hentry',hrecord'⟩ := hrec
    refine ⟨entry',memory,?_,hrecord'⟩
    show (s.registry.runs.insert _ _).lookup st.id = _
    rw [AList.lookup_insert_ne hne]
    exact hentry'
  have hresult : ∀ cell, cell < s.nextCell →
      (s.withSettled entry operation charge).results.lookup cell = s.results.lookup cell := by
    intro cell hcell
    show (s.results.insert _ _).lookup cell = _
    exact AList.lookup_insert_ne (Nat.ne_of_lt hcell)
  refine ⟨?_,⟨fun st hrec => ?_,fun st hrec => ?_,fun st hrec => ?_,fun st st' hrec hrec' hcell => ?_⟩,
    ⟨h.drained.settled,retained_insert rfl hretained h.drained.retained⟩,h.fenceless,
    fun other => ?_,fun id => ?_,h.limit,?_⟩
  · have hconsistent : Consistent (s.registry.stopped operation.runId entry
        (some ⟨operation.operationKey,s.nextCell,charge⟩)
        (s.registry.stopRuns.insert operation.operationKey operation.runId)
        (s.registry.stopBytes+charge)) := by
      refine h.owned.consistent.stopped hentry ?_ _
      exact h.owned.consistent.keyed.stop.insert (by rw [stopKey_of hentry,hrecord]; rfl) hfree
    have hstopped := h.owned.stopped hentry hretained
      (fun st hst => absurd (h.drained.settled ▸ hst) (by simp)) hconsistent
    refine { hstopped with
      pending := fun st hst => absurd (h.drained.settled ▸ hst) (by simp)
      unnamed := fun cell hcell => ?_ }
    have hlt : s.nextCell+1 ≤ cell := hcell
    have hne : cell ≠ s.nextCell := by omega
    show (s.results.insert s.nextCell _).lookup cell = none
    rw [AList.lookup_insert_ne hne]
    exact h.owned.unnamed cell (by omega)
  · rcases hcases st hrec with rfl | hold
    · exact .inr ⟨_,AList.lookup_insert _,hremoves⟩
    · rcases h.ledger.standing st hold with hin | ⟨result,hlookup,hkept⟩
      · exact .inl hin
      · exact .inr ⟨result,(hresult st.cell (h.ledger.issued st hold)).trans hlookup,hkept⟩
  · rcases hcases st hrec with rfl | hold
    · exact hkeyValid
    · exact h.ledger.valid st hold
  · rcases hcases st hrec with rfl | hold
    · exact Nat.lt_succ_self _
    · exact Nat.lt_succ_of_lt (h.ledger.issued st hold)
  · rcases hcases st hrec with rfl | hold
    · rcases hcases st' hrec' with rfl | hold'
      · rfl
      · exact absurd hcell.symm (Nat.ne_of_lt (h.ledger.issued st' hold'))
    · rcases hcases st' hrec' with rfl | hold'
      · exact absurd hcell (Nat.ne_of_lt (h.ledger.issued st hold))
      · exact h.ledger.distinct st st' hold hold' hcell
  · rw [List.mem_cons,← h.keeps]
    constructor
    · rintro ⟨cell,hrec,hlookup⟩
      rcases hcases _ hrec with heq | hold
      · have hcell : cell = s.nextCell := congrArg StopSettlement.cell heq
        have hrun : other.runId = operation.runId := congrArg StopSettlement.id heq
        have hsame : other.operationKey = operation.operationKey := congrArg StopSettlement.key heq
        have houtcome : other.outcome = operation.outcome := by
          rw [hcell,show (s.withSettled entry operation charge).results.lookup s.nextCell =
            some operation.outcome.intoResult from AList.lookup_insert _] at hlookup
          rw [← outcome_intoResult other.outcome,← Option.some.inj hlookup,outcome_intoResult]
        left
        cases other
        cases operation
        simp only at hrun hsame houtcome
        rw [hrun,hsame,houtcome]
      · right
        rw [hresult cell (h.ledger.issued _ hold)] at hlookup
        exact ⟨cell,hold,hlookup⟩
    · rintro (rfl | ⟨cell,hrec,hlookup⟩)
      · exact ⟨s.nextCell,hnew,AList.lookup_insert _⟩
      · exact ⟨cell,hother _ hrec,(hresult cell (h.ledger.issued _ hrec)).trans hlookup⟩
  · rw [← h.runs id]
    show (s.registry.runs.insert _ _).lookup id = none ↔ _
    by_cases heq : id = operation.runId
    · subst heq
      simp [hentry]
    · rw [AList.lookup_insert_ne heq]
  · show s.registry.stopBytes+charge = _
    rw [h.bytes]
    omega

end Restoring

theorem checkLedger_ok {registry : RegistryState} {ids : List RunId} {keys : List StopOperationKey}
    (hvalid : ∀ operation ∈ operations, operation.validate = .ok ())
    (hids : (operations.map (·.runId)).Nodup) (hkeys : (operations.map (·.operationKey)).Nodup)
    (hid : ∀ operation ∈ operations, operation.runId ∉ ids)
    (hkey : ∀ operation ∈ operations, operation.operationKey ∉ keys)
    (hruns : ∀ operation ∈ operations, ∃ entry,
      registry.runs.lookup operation.runId = some entry ∧ entry.stopOperation = none) :
    checkLedger registry ids keys operations = .ok () := by
  induction operations generalizing ids keys with
  | nil => rfl
  | cons operation operations ih =>
    obtain ⟨hfresh,hids⟩ := List.nodup_cons.mp hids
    obtain ⟨hfreshKey,hkeys⟩ := List.nodup_cons.mp hkeys
    obtain ⟨entry,hentry,hrecord⟩ := hruns operation (by simp)
    simp only [checkLedger,hvalid operation (by simp),if_neg (hid operation (by simp)),
      if_neg (hkey operation (by simp)),hentry,hrecord,Option.isSome_none,Bool.false_eq_true,if_false]
    refine ih (fun other hin => hvalid other (by simp [hin])) hids hkeys (fun other hin hmem => ?_)
      (fun other hin hmem => ?_) (fun other hin => hruns other (by simp [hin]))
    · rcases List.mem_cons.mp hmem with heq | hmem
      · exact hfresh (List.mem_map.mpr ⟨other,hin,heq⟩)
      · exact hid other (by simp [hin]) hmem
    · rcases List.mem_cons.mp hmem with heq | hmem
      · exact hfreshKey (List.mem_map.mpr ⟨other,hin,heq⟩)
      · exact hkey other (by simp [hin]) hmem

/-- The whole list is restored when the budget holds it. -/
theorem Restoring.all (h : Restoring base s restored bytes) (sizes used : ℕ)
    (hvalid : ∀ operation ∈ operations, operation.validate = .ok ())
    (hids : ((operations.reverse ++ restored).map (·.runId)).Nodup)
    (hkeys : ((operations.reverse ++ restored).map (·.operationKey)).Nodup)
    (hruns : ∀ operation ∈ operations, base.registry.runs.lookup operation.runId ≠ none)
    (hfunds : used+base.registry.stopBytes+bytes+
      (operations.map (·.controlMemoryBytes sizes)).sum ≤ base.registry.controlLimit) :
    ∃ t, restoreOperations sizes used s operations = .done t ∧
      Restoring base t (operations.reverse ++ restored)
        (bytes+(operations.map (·.controlMemoryBytes sizes)).sum) := by
  induction operations generalizing s restored bytes with
  | nil => exact ⟨s,rfl,h⟩
  | cons operation operations ih =>
    have hsplit : (operation::operations).reverse ++ restored =
        operations.reverse ++ operation::restored := by simp
    rw [List.map_cons,List.sum_cons] at hfunds
    rw [hsplit] at hids hkeys
    have hid : operation.runId ∉ restored.map (·.runId) := by
      rw [List.map_append,List.map_cons] at hids
      exact (List.nodup_cons.mp (List.nodup_append.mp hids).2.1).1
    have hkey : operation.operationKey ∉ restored.map (·.operationKey) := by
      rw [List.map_append,List.map_cons] at hkeys
      exact (List.nodup_cons.mp (List.nodup_append.mp hkeys).2.1).1
    have hpresent : s.registry.runs.lookup operation.runId ≠ none := fun hnone =>
      hruns operation (by simp) ((h.runs _).mp hnone)
    obtain ⟨entry,hentry⟩ := Option.ne_none_iff_exists'.mp hpresent
    have hroom : ¬s.registry.controlLimit <
        used+s.registry.stopBytes+operation.controlMemoryBytes sizes := by
      rw [h.limit,h.bytes]
      omega
    have hnext := h.next (hvalid operation (by simp)) hentry hid hkey
      (operation.controlMemoryBytes sizes)
    obtain ⟨t,ht,hrestored⟩ := ih hnext (fun other hin => hvalid other (by simp [hin])) hids hkeys
      (fun other hin => hruns other (by simp [hin])) (by omega)
    refine ⟨t,?_,?_⟩
    · simp only [restoreOperations,if_neg hroom,hentry,h.unbound hkey,ne_eq,not_true_eq_false,if_false]
      exact ht
    · rw [hsplit,List.map_cons,List.sum_cons,← Nat.add_assoc]
      exact hrestored

/-- Recovering rows without Stops adds their Runs and no record. -/
theorem recovered_rows {rows : List RecoveredRun} (h : ∀ row ∈ rows, row.stop = none) :
    (∀ st, HasRecord (rows.foldl recoverRun s).registry st → HasRecord s.registry st) ∧
      (∀ id, (rows.foldl recoverRun s).registry.runs.lookup id = none ↔
        s.registry.runs.lookup id = none ∧ id ∉ rows.map (·.id)) ∧
      (rows.foldl recoverRun s).registry.controlLimit = s.registry.controlLimit ∧
      (rows.foldl recoverRun s).registry.stopBytes = s.registry.stopBytes := by
  induction rows generalizing s with
  | nil => simp
  | cons row rows ih =>
    obtain ⟨hrecords,hruns,hlimit,hbytes⟩ := ih (s := recoverRun s row) fun other hin =>
      h other (by simp [hin])
    have hstop := h row (by simp)
    have hstep : recoverRun s row = { s with
        registry := { s.registry with
          runs := s.registry.runs.insert row.id ⟨some row.key,none,true,row.charge,.retained⟩
          creationRuns := s.registry.creationRuns.insert row.key row.id
          retainedMetadataBytes := s.registry.retainedMetadataBytes+row.charge } } := by
      simp only [recoverRun,hstop]
    rw [List.foldl_cons]
    refine ⟨fun st hrec => ?_,fun id => ?_,hlimit.trans (by rw [hstep]),hbytes.trans (by rw [hstep])⟩
    · have hrec' := hrecords st hrec
      rw [hstep] at hrec'
      rcases hasRecord_of_insert rfl hrec' with ⟨-,memory,hnone⟩ | hold
      · cases hnone
      · exact hold
    · rw [hruns id,hstep]
      by_cases hid : id = row.id
      · subst hid
        simp
      · rw [AList.lookup_insert_ne hid]
        simp [hid]

theorem restoring_recovered (limits : Limits) (saved : SavedRuns) :
    Restoring (System.recovered limits saved.recovered) (System.recovered limits saved.recovered) [] 0 ∧
      (∀ id, (System.recovered limits saved.recovered).registry.runs.lookup id = none ↔
        id ∉ saved.runs.map (·.1)) ∧
      (System.recovered limits saved.recovered).registry.controlLimit = limits.controlLimit ∧
      (System.recovered limits saved.recovered).registry.stopBytes = 0 := by
  have hrecovering := recovered_recovering limits saved.recovered
  have hcarried : Carried (System.recovered limits saved.recovered) :=
    (carried_empty limits).fold saved.recovered.settled
  have hrows : ∀ row ∈ saved.rows, row.stop = none := by
    intro row hrow
    obtain ⟨run,-,rfl⟩ := List.mem_map.mp hrow
    rfl
  obtain ⟨hrecords,hruns,hlimit,hbytes⟩ := recovered_rows (s := System.empty limits) hrows
  have hnone : ∀ st, ¬HasRecord (System.recovered limits saved.recovered).registry st := by
    intro st hrec
    obtain ⟨entry,memory,hentry,-⟩ := hrecords st hrec
    simp [System.empty] at hentry
  refine ⟨⟨hrecovering.owned,hcarried.ledger,⟨hrecovering.unheld.1,hcarried.retained⟩,
    hrecovering.unheld.2,fun operation => iff_of_false ?_ (by simp),fun id => Iff.rfl,rfl,rfl⟩,
    fun id => ?_,hlimit,hbytes⟩
  · rintro ⟨cell,hrec,-⟩
    exact hnone _ hrec
  · refine (hruns id).trans ?_
    have hmap : saved.rows.map (·.id) = saved.runs.map (·.1) := by
      simp [SavedRuns.rows,Function.comp_def]
    rw [hmap]
    simp [System.empty]

/-- A checked and funded ledger is restored over its Runs. -/
theorem recoveredWithHandoff_ok {saved : SavedRuns} (limits : Limits) (conditions : StopConditions)
    (hallocation : conditions.allocation = none)
    (hvalid : ∀ operation ∈ operations, operation.validate = .ok ())
    (hids : (operations.map (·.runId)).Nodup) (hkeys : (operations.map (·.operationKey)).Nodup)
    (hnamed : ∀ operation ∈ operations, operation.runId ∈ saved.runs.map (·.1))
    (hfunds : conditions.controlUsed+
      (operations.map (·.controlMemoryBytes conditions.sizes)).sum ≤ limits.controlLimit) :
    ∃ t, System.recoveredWithHandoff limits saved operations conditions = .done t ∧
      Owned t ∧ Ledger t ∧ t.Drained ∧ (∀ operation, t.Keeps operation ↔ operation ∈ operations) ∧
      ∀ id, t.registry.runs.lookup id = none ↔ id ∉ saved.runs.map (·.1) := by
  obtain ⟨hstart,hruns,hlimit,hbytes⟩ := restoring_recovered limits saved
  have hpresent : ∀ operation ∈ operations,
      (System.recovered limits saved.recovered).registry.runs.lookup operation.runId ≠ none :=
    fun operation hin hnone => (hruns _).mp hnone (hnamed operation hin)
  have hcheck : checkLedger (System.recovered limits saved.recovered).registry [] [] operations =
      .ok () := by
    refine checkLedger_ok hvalid hids hkeys (by simp) (by simp) fun operation hin => ?_
    obtain ⟨entry,hentry⟩ := Option.ne_none_iff_exists'.mp (hpresent operation hin)
    exact ⟨entry,hentry,hstart.unrecorded hentry (by simp)⟩
  obtain ⟨t,ht,hrestored⟩ := hstart.all conditions.sizes conditions.controlUsed hvalid
    (by simpa using hids) (by simpa using hkeys) hpresent (by rw [hlimit,hbytes]; omega)
  refine ⟨t,?_,hrestored.owned,hrestored.ledger,hrestored.drained,fun operation => ?_,fun id => ?_⟩
  · simp only [System.recoveredWithHandoff,restoreHandoffStopOperations,hcheck,hallocation]
    exact ht
  · rw [hrestored.keeps]
    simp
  · rw [hrestored.runs,hruns]

end Registry
end Ctxmux
