import Ctxmux.RegistryReached

/-!
# Recoverable Stops are admitted at most once

Requests and settlements interleave in any order. The log of owner admissions, those
that a handoff carried over included, is compared with the registry: an admission stands
while it is outstanding or settled as applied or unknown, and exactly the standing ones
have a record.
-/

namespace Ctxmux
namespace Registry

open Durable (RunId)
open Machine

inductive StopEvent where
  | request (view : View) (conditions : StopConditions) (id : RunId) (key : StopOperationKey)
  | settle (settlement : StopSettlement) (result : StopResult)

def StopEvent.event : StopEvent → Event
  | .request view conditions id key => .beginStop view conditions id key
  | .settle settlement result => .settleStop settlement result

namespace System

/-- How the registry answers a request now. -/
def answer (s : System) (view : View) (conditions : StopConditions) (id : RunId)
    (key : StopOperationKey) : RegistryState × Outcome StopAdmission :=
  beginRecoverableStop s.registry (s.pinned view) conditions id key s.nextCell

def stopStep (s : System) (e : StopEvent) : System := s.step e.event

/-- The owner admission that an event hands out, if any. -/
def admits (s : System) : StopEvent → List StopSettlement
  | .request view conditions id key => admitted id key (s.answer view conditions id key).2
  | .settle .. => []

/-- The owner admissions of a run, in order. -/
def owners : System → List StopEvent → List StopSettlement
  | _, [] => []
  | s, e::es => s.admits e ++ owners (s.stopStep e) es

/-- The operations that the entries record. -/
def recorded (s : System) : List StopSettlement :=
  s.registry.runs.entries.filterMap fun entry =>
    entry.2.stopOperation.map fun record => ⟨entry.1,record.key,record.cell⟩

/-- Outstanding, or settled as applied or unknown. -/
def Standing (s : System) (st : StopSettlement) : Prop :=
  st ∈ s.settlements ∨ ∃ result, s.results.lookup st.cell = some result ∧ result.removes = false

/-- Nothing but the maps stands in the way of a fresh owner. -/
structure Fundable (s : System) (view : View) (conditions : StopConditions) (id : RunId)
    (key : StopOperationKey) : Prop where
  valid : stopKeyError key = none
  free : s.registry.stopRuns.lookup key = none
  allocation : conditions.allocation = none
  funds : conditions.controlUsed+s.registry.stopBytes+stopReceiptCharge conditions.sizes key ≤
    s.registry.controlLimit
  control : (view id).nativeControl = .ok ()

end System

/-- The registry records an operation for a Run. -/
def HasRecord (s : RegistryState) (st : StopSettlement) : Prop :=
  ∃ entry memory, s.runs.lookup st.id = some entry ∧
    entry.stopOperation = some ⟨st.key,st.cell,memory⟩

/-- The log of owner admissions agrees with the records. -/
structure Logged (s : System) (log : List StopSettlement) : Prop where
  owned : Owned s
  retained : ∀ id entry, s.registry.runs.lookup id = some entry → entry.residency = .retained
  standing : ∀ st ∈ log, s.Standing st ↔ HasRecord s.registry st
  recorded : ∀ st, HasRecord s.registry st → st ∈ log ∧ stopKeyError st.key = none
  cells : (log.map (·.cell)).Nodup
  issued : ∀ st ∈ log, st.cell < s.nextCell

variable {s : System} {log : List StopSettlement} {st : StopSettlement} {r : RegistryState}

theorem HasRecord.unique {st' : StopSettlement} (h : HasRecord r st) (h' : HasRecord r st')
    (hid : st.id = st'.id) : st = st' := by
  obtain ⟨entry,memory,hentry,hrecord⟩ := h
  obtain ⟨entry',memory',hentry',hrecord'⟩ := h'
  obtain ⟨id,key,cell⟩ := st
  obtain ⟨id',key',cell'⟩ := st'
  simp only at hid hentry hentry' hrecord hrecord'
  subst hid
  rw [hentry] at hentry'
  cases hentry'
  rw [hrecord] at hrecord'
  cases hrecord'
  rfl

theorem HasRecord.bound (h : HasRecord r st) (hr : Consistent r) :
    r.stopRuns.lookup st.key = some st.id := by
  obtain ⟨entry,memory,hentry,hrecord⟩ := h
  exact hr.keyed.stop.lookup (by rw [stopKey_of hentry,hrecord]; rfl)

namespace Logged

theorem settlement_recorded (h : Logged s log) (hst : st ∈ s.settlements) :
    HasRecord s.registry st := by
  obtain ⟨entry,memory,hentry,-,hrecord⟩ := h.owned.pins st hst
  exact ⟨entry,memory,hentry,hrecord⟩

theorem recounted (h : Logged s log) : Logged { s with nextCell := s.nextCell+1 } log :=
  { h with
    owned := h.owned.recounted
    issued := fun st hst => Nat.lt_succ_of_lt (h.issued st hst) }

variable {entry : RegistryEntry} {stop : Option StopOperationRecord}
  {stopRuns : AList fun _ : StopOperationKey => RunId}

theorem hasRecord_stopped_ne {id : RunId} {bytes : ℕ} (hne : st.id ≠ id) :
    HasRecord (r.stopped id entry stop stopRuns bytes) st ↔ HasRecord r st := by
  unfold HasRecord
  rw [Owned.lookup_stopped_ne hne]

theorem hasRecord_stopped_self {bytes : ℕ} :
    HasRecord (r.stopped st.id entry stop stopRuns bytes) st ↔
      ∃ memory, stop = some ⟨st.key,st.cell,memory⟩ := by
  unfold HasRecord RegistryState.stopped
  rw [AList.lookup_insert]
  simp

theorem retained_stopped {id : RunId} {bytes : ℕ}
    (h : ∀ id entry, r.runs.lookup id = some entry → entry.residency = .retained)
    (hentry : r.runs.lookup id = some entry) : ∀ other entry',
      (r.stopped id entry stop stopRuns bytes).runs.lookup other = some entry' →
        entry'.residency = .retained := by
  intro other entry' hentry'
  by_cases heq : other = id
  · subst heq
    rw [RegistryState.stopped,AList.lookup_insert] at hentry'
    cases hentry'
    exact h other entry hentry
  · rw [Owned.lookup_stopped_ne heq] at hentry'
    exact h other entry' hentry'

theorem owner (h : Logged s log) {id : RunId} {key : StopOperationKey}
    (hentry : s.registry.runs.lookup id = some entry) (hrecord : entry.stopOperation = none)
    (hfree : s.registry.stopRuns.lookup key = none) (hvalid : stopKeyError key = none)
    (conditions : StopConditions) :
    Logged { s with
      registry := s.registry.admitStop conditions id entry key s.nextCell
      settlements := ⟨id,key,s.nextCell⟩::s.settlements
      nextCell := s.nextCell+1 } (log ++ [⟨id,key,s.nextCell⟩]) := by
  have hnone : ∀ st, st.id = id → ¬HasRecord s.registry st := by
    rintro st rfl ⟨entry',memory,hentry',hrecord'⟩
    rw [hentry] at hentry'
    cases hentry'
    rw [hrecord] at hrecord'
    cases hrecord'
  refine ⟨h.owned.owner hentry (h.retained id entry hentry) hrecord hfree conditions,
    retained_stopped h.retained hentry,fun st hst => ?_,fun st hst => ?_,?_,fun st hst => ?_⟩
  · rcases List.mem_append.mp hst with hold | hnew
    · have hlt := h.issued st hold
      have hne : st ≠ ⟨id,key,s.nextCell⟩ := by
        rintro rfl
        exact Nat.lt_irrefl _ hlt
      have hstanding : System.Standing { s with
          registry := s.registry.admitStop conditions id entry key s.nextCell
          settlements := ⟨id,key,s.nextCell⟩::s.settlements
          nextCell := s.nextCell+1 } st ↔ s.Standing st := by
        simp [System.Standing,hne]
      rw [hstanding,h.standing st hold]
      by_cases hid : st.id = id
      · subst hid
        refine iff_of_false (hnone st rfl) fun hrec => ?_
        obtain ⟨memory,hsome⟩ := hasRecord_stopped_self.mp hrec
        have hcell := congrArg (·.cell) (Option.some.inj hsome)
        simp only at hcell
        omega
      · exact (hasRecord_stopped_ne hid).symm
    · rw [List.mem_singleton] at hnew
      subst hnew
      exact iff_of_true (.inl (by simp)) ⟨_,_,AList.lookup_insert _,rfl⟩
  · by_cases hid : st.id = id
    · subst hid
      obtain ⟨memory,hsome⟩ := hasRecord_stopped_self.mp hst
      obtain ⟨id,key',cell⟩ := st
      cases hsome
      exact ⟨by simp,hvalid⟩
    · have hold := h.recorded st ((hasRecord_stopped_ne hid).mp hst)
      exact ⟨List.mem_append_left _ hold.1,hold.2⟩
  · rw [List.map_append,List.map_cons,List.map_nil,List.nodup_append]
    refine ⟨h.cells,by simp,fun cell hcell cell' hcell' => ?_⟩
    rw [List.mem_singleton] at hcell'
    obtain ⟨st,hst,rfl⟩ := List.mem_map.mp hcell
    subst hcell'
    exact Nat.ne_of_lt (h.issued st hst)
  · rcases List.mem_append.mp hst with hold | hnew
    · exact Nat.lt_succ_of_lt (h.issued st hold)
    · rw [List.mem_singleton] at hnew
      subst hnew
      exact Nat.lt_succ_self _

/-- A settlement keeps the log; its admission stands unless it was not applied. -/
theorem settled (h : Logged s log) (hst : st ∈ s.settlements) {memory : ℕ}
    (hentry : s.registry.runs.lookup st.id = some entry)
    (hrecord : entry.stopOperation = some ⟨st.key,st.cell,memory⟩) (result : StopResult) :
    Logged { s with
      registry := s.registry.settled st.id entry ⟨st.key,st.cell,memory⟩ result
      settlements := s.settlements.erase st
      results := s.results.insert st.cell result } log := by
  have hnodup : s.settlements.Nodup := List.Nodup.of_map _ h.owned.settlements
  have hrec : HasRecord s.registry st := ⟨entry,memory,hentry,hrecord⟩
  have hlog : st ∈ log := (h.recorded st hrec).1
  have hkeep : ∀ other, other ≠ st →
      (HasRecord (s.registry.settled st.id entry ⟨st.key,st.cell,memory⟩ result) other ↔
        HasRecord s.registry other) := by
    intro other hne
    unfold RegistryState.settled
    split
    · by_cases hid : other.id = st.id
      · have hother : ¬HasRecord s.registry other := fun hrec' => hne (hrec'.unique hrec hid)
        refine iff_of_false (fun hrec' => ?_) hother
        rw [← hid] at hrec'
        obtain ⟨memory',hsome⟩ := hasRecord_stopped_self.mp hrec'
        cases hsome
      · exact hasRecord_stopped_ne hid
    · exact Iff.rfl
  have hself : HasRecord (s.registry.settled st.id entry ⟨st.key,st.cell,memory⟩ result) st ↔
      result.removes = false := by
    unfold RegistryState.settled
    split
    · rename_i hremoves
      rw [hasRecord_stopped_self]
      simp [hremoves]
    · rename_i hkept
      exact iff_of_true hrec (by simpa using hkept)
  refine ⟨h.owned.settled hst hentry (h.retained st.id entry hentry) hrecord result,?_,
    fun other hother => ?_,fun other hother => ?_,h.cells,h.issued⟩
  · show ∀ id entry', (RegistryState.settled _ _ _ _ _).runs.lookup id = some entry' → _
    unfold RegistryState.settled
    split
    · exact retained_stopped h.retained hentry
    · exact h.retained
  · by_cases heq : other = st
    · subst heq
      rw [hself]
      have hout : other ∉ s.settlements.erase other := List.Nodup.not_mem_erase hnodup
      simp [System.Standing,hout]
    · rw [hkeep other heq,← h.standing other hother]
      have hcell : other.cell ≠ st.cell := fun hc =>
        heq (List.inj_on_of_nodup_map h.cells hother hlog hc)
      simp only [System.Standing]
      rw [AList.lookup_insert_ne hcell,List.mem_erase_of_ne heq]
  · by_cases heq : other = st
    · subst heq
      exact h.recorded other hrec
    · exact h.recorded other ((hkeep other heq).mp hother)

theorem step (h : Logged s log) (e : StopEvent) : Logged (s.stopStep e) (log ++ s.admits e) := by
  cases e with
  | request view conditions id key =>
    simp only [System.stopStep,System.step,StopEvent.event,System.act,System.admits,System.answer]
    rcases beginRecoverableStop_cases s.registry (s.pinned view) conditions id key s.nextCell with
      ⟨error,hout⟩ | ⟨entry,record,-,-,-,-,-,hout⟩ | ⟨entry,hentry,-,hrecord,hfree,hvalid,hout⟩
    · simp only [hout,System.admitted,List.nil_append,List.append_nil]
      exact h.recounted
    · simp only [hout,System.admitted,List.nil_append,List.append_nil]
      exact h.recounted
    · simp only [hout,System.admitted,List.singleton_append]
      exact h.owner hentry hrecord hfree hvalid conditions
  | settle settlement result =>
    simp only [System.stopStep,System.step,StopEvent.event,System.act,System.admits,List.append_nil]
    split
    · rename_i hst
      rw [if_pos (h.owned.pending settlement hst).1]
      obtain ⟨entry,memory,hentry,hretained,hrecord⟩ := h.owned.pins settlement hst
      rw [settleRecoverableStop_eq h.owned.consistent hentry hrecord rfl rfl result]
      exact h.settled hst hentry hrecord result
    · exact h

theorem reached (h : Logged s log) (events : List StopEvent) :
    Logged (run System.stopStep s events) (log ++ System.owners s events) := by
  induction events generalizing s log with
  | nil =>
    rw [System.owners,List.append_nil]
    exact h
  | cons e events ih =>
    have hrest := ih (h.step e)
    rw [List.append_assoc] at hrest
    exact hrest

end Logged

/-- What a registry without outstanding Stops carries over. -/
structure Carried (s : System) : Prop where
  retained : ∀ id entry, s.registry.runs.lookup id = some entry → entry.residency = .retained
  settled : ∀ st, HasRecord s.registry st → st.cell < s.nextCell ∧ stopKeyError st.key = none ∧
    ∃ result, s.results.lookup st.cell = some result ∧ result.removes = false
  distinct : ∀ st st', HasRecord s.registry st → HasRecord s.registry st' →
    st.cell = st'.cell → st = st'

theorem carried_empty (limits : Limits) : Carried (System.empty limits) := by
  have hnone : ∀ st, ¬HasRecord (System.empty limits).registry st := by
    rintro st ⟨entry,memory,hentry,-⟩
    simp [System.empty] at hentry
  exact ⟨by simp [System.empty],fun st h => absurd h (hnone st),fun st _ h => absurd h (hnone st)⟩

theorem hasRecord_of_insert {r' : RegistryState} {id : RunId} {entry : RegistryEntry}
    (hruns : r'.runs = r.runs.insert id entry) (h : HasRecord r' st) :
    (st.id = id ∧ ∃ memory, entry.stopOperation = some ⟨st.key,st.cell,memory⟩) ∨
      HasRecord r st := by
  obtain ⟨entry',memory,hentry,hrecord⟩ := h
  rw [hruns] at hentry
  by_cases hid : st.id = id
  · rw [hid,AList.lookup_insert] at hentry
    cases hentry
    exact .inl ⟨hid,memory,hrecord⟩
  · rw [AList.lookup_insert_ne hid] at hentry
    exact .inr ⟨entry',memory,hentry,hrecord⟩

theorem retained_insert {r' : RegistryState} {id : RunId} {entry : RegistryEntry}
    (hruns : r'.runs = r.runs.insert id entry) (hentry : entry.residency = .retained)
    (h : ∀ id entry, r.runs.lookup id = some entry → entry.residency = .retained) :
    ∀ id entry, r'.runs.lookup id = some entry → entry.residency = .retained := by
  intro other entry' hlookup
  rw [hruns] at hlookup
  by_cases hid : other = id
  · rw [hid,AList.lookup_insert] at hlookup
    cases hlookup
    exact hentry
  · rw [AList.lookup_insert_ne hid] at hlookup
    exact h other entry' hlookup

theorem Carried.next (h : Carried s) {r : RecoveredRun}
    (hstop : ∀ stop ∈ r.stop, stopKeyError stop.1 = none ∧ stop.2.2.removes = false) :
    Carried (recoverRun s r) := by
  unfold recoverRun
  cases hcarried : r.stop with
  | none =>
    have hold : ∀ st, HasRecord { s.registry with
        runs := s.registry.runs.insert r.id ⟨some r.key,none,true,r.charge,.retained⟩
        creationRuns := s.registry.creationRuns.insert r.key r.id
        retainedMetadataBytes := s.registry.retainedMetadataBytes+r.charge } st →
        HasRecord s.registry st := fun st hrec => by
      rcases hasRecord_of_insert rfl hrec with ⟨-,memory,hnone⟩ | hrec
      · cases hnone
      · exact hrec
    exact ⟨retained_insert rfl rfl h.retained,fun st hrec => h.settled st (hold st hrec),
      fun st st' hrec hrec' => h.distinct st st' (hold st hrec) (hold st' hrec')⟩
  | some stop =>
    obtain ⟨key,memory,result⟩ := stop
    obtain ⟨hvalid,hremoves⟩ := hstop (key,memory,result) hcarried
    have hcases : ∀ st, HasRecord { s.registry with
        runs := s.registry.runs.insert r.id
          ⟨some r.key,some ⟨key,s.nextCell,memory⟩,true,r.charge,.retained⟩
        creationRuns := s.registry.creationRuns.insert r.key r.id
        stopRuns := s.registry.stopRuns.insert key r.id
        retainedMetadataBytes := s.registry.retainedMetadataBytes+r.charge
        stopBytes := s.registry.stopBytes+memory } st →
        st = ⟨r.id,key,s.nextCell⟩ ∨ HasRecord s.registry st := fun st hrec => by
      rcases hasRecord_of_insert rfl hrec with ⟨hid,memory',hsome⟩ | hrec
      · obtain ⟨id,key',cell⟩ := st
        simp only at hid hsome
        cases hsome
        exact .inl (by rw [hid])
      · exact .inr hrec
    refine ⟨retained_insert rfl rfl h.retained,fun st hrec => ?_,fun st st' hrec hrec' hcell => ?_⟩
    · rcases hcases st hrec with rfl | hold
      · exact ⟨Nat.lt_succ_self _,hvalid,result,AList.lookup_insert _,hremoves⟩
      · obtain ⟨hlt,hkey,result',hresult',hkept⟩ := h.settled st hold
        refine ⟨Nat.lt_succ_of_lt hlt,hkey,result',?_,hkept⟩
        show (s.results.insert s.nextCell result).lookup st.cell = _
        rw [AList.lookup_insert_ne (Nat.ne_of_lt hlt)]
        exact hresult'
    · rcases hcases st hrec with rfl | hold
      · rcases hcases st' hrec' with rfl | hold'
        · rfl
        · exact absurd hcell.symm (Nat.ne_of_lt (h.settled st' hold').1)
      · rcases hcases st' hrec' with rfl | hold'
        · exact absurd hcell (Nat.ne_of_lt (h.settled st hold).1)
        · exact h.distinct st st' hold hold' hcell

theorem Carried.fold (h : Carried s) {rest : List RecoveredRun}
    (hstops : ∀ r ∈ rest, ∀ stop ∈ r.stop, stopKeyError stop.1 = none ∧
      stop.2.2.removes = false) : Carried (rest.foldl recoverRun s) := by
  induction rest generalizing s with
  | nil => exact h
  | cons r rest ih =>
    exact ih (h.next (hstops r (by simp))) fun r' hr' => hstops r' (by simp [hr'])

theorem mem_recorded : st ∈ s.recorded ↔ HasRecord s.registry st := by
  unfold System.recorded HasRecord
  rw [List.mem_filterMap]
  constructor
  · rintro ⟨entry,hentry,hsome⟩
    obtain ⟨record,hrecord,rfl⟩ := Option.map_eq_some_iff.mp hsome
    exact ⟨entry.2,record.memory,AList.mem_lookup_iff.mpr hentry,hrecord⟩
  · rintro ⟨entry,memory,hentry,hrecord⟩
    exact ⟨⟨st.id,entry⟩,AList.mem_lookup_iff.mp hentry,by simp [hrecord]⟩

theorem map_id_recorded (s : System) : (s.recorded.map (·.id)).Sublist s.registry.runs.keys := by
  unfold System.recorded AList.keys List.keys
  induction s.registry.runs.entries with
  | nil => simp
  | cons entry entries ih =>
    rw [List.filterMap_cons]
    split
    · exact ih.trans (List.sublist_cons_self _ _)
    · rename_i st hst
      obtain ⟨record,-,rfl⟩ := Option.map_eq_some_iff.mp hst
      exact ih.cons_cons _

/-- A recovered registry agrees with the operations that were carried over. -/
theorem logged_recovered (limits : Limits) (runs : RecoveredRuns) :
    Logged (System.recovered limits runs) (System.recovered limits runs).recorded := by
  have hrecovered := recovered_recovering limits runs
  have hcarried : Carried (System.recovered limits runs) :=
    (carried_empty limits).fold runs.settled
  refine ⟨hrecovered.owned,hcarried.retained,fun st hst => ?_,fun st hrec => ?_,?_,fun st hst => ?_⟩
  · have hrec := mem_recorded.mp hst
    exact iff_of_true (.inr (hcarried.settled st hrec).2.2) hrec
  · exact ⟨mem_recorded.mpr hrec,(hcarried.settled st hrec).2.1⟩
  · have hnodup := (map_id_recorded (System.recovered limits runs)).nodup
      (System.recovered limits runs).registry.runs.nodupKeys
    refine (List.Nodup.of_map _ hnodup).map_on fun st hst st' hst' hcell => ?_
    exact hcarried.distinct st st' (mem_recorded.mp hst) (mem_recorded.mp hst') hcell
  · exact (hcarried.settled st (mem_recorded.mp hst)).1

/-- What holds of the registry after an outstanding settlement got its result. -/
structure Settles (s s' : System) (st : StopSettlement) (result : StopResult) : Prop where
  first : s.results.lookup st.cell = none
  answered : s'.results.lookup st.cell = some result
  leaves : st ∉ s'.settlements
  kept : result.removes = false → s'.registry = s.registry
  unbound : result.removes = true → s'.registry.stopRuns.lookup st.key = none ∧
    ∃ entry, s'.registry.runs.lookup st.id = some entry ∧ entry.stopOperation = none
  fresh : result.removes = true → ∀ view conditions key, s'.Fundable view conditions st.id key →
    (s'.answer view conditions st.id key).2 = .done (.owner s'.nextCell)

/-- Recoverable Stops are applied at most once, with the log of all owner admissions. -/
structure AtMostOnce (s : System) (log : List StopSettlement) : Prop where
  one : ∀ st ∈ log, ∀ st' ∈ log, s.Standing st → s.Standing st' → st.id = st'.id → st = st'
  retry : ∀ st ∈ log, s.Standing st → ∀ view conditions,
    s.answer view conditions st.id st.key = (s.registry,.done (.retry st.cell))
  conflict : ∀ st ∈ log, s.Standing st → ∀ view conditions id key,
    ((id = st.id ∧ key ≠ st.key) ∨ (id ≠ st.id ∧ key = st.key)) →
      ∃ error, s.answer view conditions id key = (s.registry,.refused error)
  settles : ∀ st ∈ s.settlements, ∀ result, s.panics (.settleStop st result) = none ∧
    Settles s (s.stopStep (.settle st result)) st result
  refused : ∀ view conditions id key error, (s.answer view conditions id key).2 = .refused error →
    (s.answer view conditions id key).1 = s.registry
  stable : ∀ cell result, s.results.lookup cell = some result → ∀ events,
    (run System.stopStep s events).results.lookup cell = some result

namespace Logged

theorem retry (h : Logged s log) (hst : st ∈ log) (hstanding : s.Standing st) (view : View)
    (conditions : StopConditions) :
    s.answer view conditions st.id st.key = (s.registry,.done (.retry st.cell)) := by
  have hrec := (h.standing st hst).mp hstanding
  have hbound := hrec.bound h.owned.consistent
  have hvalid := (h.recorded st hrec).2
  obtain ⟨entry,memory,hentry,hrecord⟩ := hrec
  have hretained := h.retained st.id entry hentry
  simp only [System.answer,beginRecoverableStop,hvalid,hbound,retryStop,hentry]
  simp [hretained,hrecord]

theorem conflict (h : Logged s log) (hst : st ∈ log) (hstanding : s.Standing st) (view : View)
    (conditions : StopConditions) {id : RunId} {key : StopOperationKey}
    (hother : (id = st.id ∧ key ≠ st.key) ∨ (id ≠ st.id ∧ key = st.key)) :
    ∃ error, s.answer view conditions id key = (s.registry,.refused error) := by
  have hrec := (h.standing st hst).mp hstanding
  have hbound := hrec.bound h.owned.consistent
  obtain ⟨entry,memory,hentry,hrecord⟩ := hrec
  rcases beginRecoverableStop_cases s.registry (s.pinned view) conditions id key s.nextCell with
    hrefused | ⟨entry',record,hentry',-,hrecord',hkey,hbound',-⟩ |
      ⟨entry',hentry',-,hrecord',hfree,-,-⟩
  · exact hrefused
  · rcases hother with ⟨rfl,hne⟩ | ⟨hne,rfl⟩
    · rw [hentry] at hentry'
      cases hentry'
      rw [hrecord] at hrecord'
      cases hrecord'
      exact absurd hkey.symm hne
    · rw [hbound] at hbound'
      exact absurd (Option.some.inj hbound').symm hne
  · rcases hother with ⟨rfl,hne⟩ | ⟨hne,rfl⟩
    · rw [hentry] at hentry'
      cases hentry'
      rw [hrecord] at hrecord'
      cases hrecord'
    · rw [hbound] at hfree
      cases hfree

/-- A retained Run without a record is admitted to a fundable request. -/
theorem answer_owner {view : View} {conditions : StopConditions} {id : RunId} {key : StopOperationKey}
    {entry : RegistryEntry} (hentry : s.registry.runs.lookup id = some entry)
    (hretained : entry.residency = .retained) (hrecord : entry.stopOperation = none)
    (hfund : s.Fundable view conditions id key) :
    (s.answer view conditions id key).2 = .done (.owner s.nextCell) := by
  have hcontrol : (s.pinned view id).nativeControl = .ok () := hfund.control
  have hfunds := Nat.not_lt.mpr hfund.funds
  simp only [System.answer,beginRecoverableStop,hfund.valid,hfund.free,hentry,hfund.allocation,
    hcontrol]
  simp [hretained,hrecord,hfunds]

theorem settles (h : Logged s log) (hst : st ∈ s.settlements) (result : StopResult) :
    s.panics (.settleStop st result) = none ∧
      Settles s (s.stopStep (.settle st result)) st result := by
  have hnodup : s.settlements.Nodup := List.Nodup.of_map _ h.owned.settlements
  have hfirst := (h.owned.pending st hst).1
  obtain ⟨entry,memory,hentry,hretained,hrecord⟩ := h.owned.pins st hst
  have hsettle := settleRecoverableStop_eq h.owned.consistent hentry hrecord rfl rfl result
  have hact : s.act (.settleStop st result) = ({ s with
      registry := s.registry.settled st.id entry ⟨st.key,st.cell,memory⟩ result
      settlements := s.settlements.erase st
      results := s.results.insert st.cell result },none) := by
    simp only [System.act,if_pos hst,if_pos hfirst,hsettle]
    rfl
  refine ⟨by rw [System.panics,hact],?_⟩
  simp only [System.stopStep,System.step,StopEvent.event,hact]
  refine ⟨hfirst,AList.lookup_insert _,List.Nodup.not_mem_erase hnodup,fun hkept => ?_,
    fun hremoves => ?_,fun hremoves view conditions key hfund => ?_⟩
  · simp only [RegistryState.settled,hkept]
    rfl
  · simp only [RegistryState.settled,hremoves,if_true]
    exact ⟨AList.lookup_erase _ _,_,AList.lookup_insert _,rfl⟩
  · have hlookup : (s.registry.settled st.id entry ⟨st.key,st.cell,memory⟩ result).runs.lookup st.id =
        some { entry with stopOperation := none } := by
      simp only [RegistryState.settled,hremoves,if_true]
      exact AList.lookup_insert _
    exact answer_owner hlookup hretained rfl hfund

theorem stable (h : Logged s log) {cell : ℕ} {result : StopResult}
    (hresult : s.results.lookup cell = some result) (events : List StopEvent) :
    (run System.stopStep s events).results.lookup cell = some result := by
  induction events generalizing s log with
  | nil => exact hresult
  | cons e events ih =>
    refine ih (h.step e) ?_
    cases e with
    | request view conditions id key => exact hresult
    | settle settlement result' =>
      by_cases hst : settlement ∈ s.settlements
      · obtain ⟨entry,memory,hentry,hretained,hrecord⟩ := h.owned.pins settlement hst
        have hfirst := (h.owned.pending settlement hst).1
        have hsettle := settleRecoverableStop_eq h.owned.consistent hentry hrecord rfl rfl result'
        have hne : cell ≠ settlement.cell := by
          rintro rfl
          rw [hfirst] at hresult
          cases hresult
        simp only [System.stopStep,System.step,StopEvent.event,System.act,if_pos hst,if_pos hfirst,
          hsettle,System.attempt]
        rw [AList.lookup_insert_ne hne]
        exact hresult
      · simp only [System.stopStep,System.step,StopEvent.event,System.act,if_neg hst]
        exact hresult

end Logged

/-- Whatever the requests and settlements, at most one owner of a Run's Stop stands, its
key leads every later request to it, and only a Stop that was not applied is forgotten. -/
theorem stop_admitted_at_most_once (limits : Limits) (runs : RecoveredRuns)
    (events : List StopEvent) :
    AtMostOnce (run System.stopStep (System.recovered limits runs) events)
      ((System.recovered limits runs).recorded ++
        System.owners (System.recovered limits runs) events) := by
  have h := (logged_recovered limits runs).reached events
  refine ⟨fun st hst st' hst' hstanding hstanding' hid => ?_,
    fun st hst hstanding view conditions => h.retry hst hstanding view conditions,
    fun st hst hstanding view conditions id key hother => h.conflict hst hstanding view conditions hother,
    fun st hst result => h.settles hst result,fun view conditions id key error hrefused => ?_,
    fun cell result hresult more => h.stable hresult more⟩
  · exact ((h.standing st hst).mp hstanding).unique ((h.standing st' hst').mp hstanding') hid
  · rcases beginRecoverableStop_cases _ (System.pinned _ view) conditions id key _ with
      ⟨error',hout⟩ | ⟨entry,record,-,-,-,-,-,hout⟩ | ⟨entry,-,-,-,-,-,hout⟩
    · exact congrArg Prod.fst hout
    · exact congrArg Prod.fst hout
    · rw [System.answer,hout] at hrefused
      cases hrefused

end Registry
end Ctxmux
