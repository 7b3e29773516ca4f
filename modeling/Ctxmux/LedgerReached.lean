import Ctxmux.StopLedger

/-!
# The Stop records a daemon reaches

Whatever the events, a Stop record has a valid key and a cell of its own, and its
operation stands: it is outstanding, or settled as applied or unknown. Only a Stop
request and its settlement write records; every other event keeps or drops them.
-/

namespace Ctxmux
namespace Registry

open Durable (RunId)
open Machine

/-- Every recorded operation stands, under a valid key and in a cell of its own. -/
structure Ledger (s : System) : Prop where
  standing : ∀ st, HasRecord s.registry st → s.Standing st
  valid : ∀ st, HasRecord s.registry st → stopKeyError st.key = none
  issued : ∀ st, HasRecord s.registry st → st.cell < s.nextCell
  distinct : ∀ st st', HasRecord s.registry st → HasRecord s.registry st' →
    st.cell = st'.cell → st = st'

/-- The records of the new system are records of the old one, and nothing else of the
Stops changed. -/
structure Inherits (s s' : System) : Prop where
  records : ∀ st, HasRecord s'.registry st → HasRecord s.registry st
  settlements : s'.settlements = s.settlements
  results : s'.results = s.results
  nextCell : s'.nextCell = s.nextCell

variable {s s' : System} {registry registry' : RegistryState} {st : StopSettlement}

theorem Ledger.inherits (h : Ledger s) (hs : Inherits s s') : Ledger s' where
  standing := by
    intro st hrec
    have hstanding := h.standing st (hs.records st hrec)
    unfold System.Standing at hstanding ⊢
    rwa [hs.settlements,hs.results]
  valid := fun st hrec => h.valid st (hs.records st hrec)
  issued := by
    intro st hrec
    rw [hs.nextCell]
    exact h.issued st (hs.records st hrec)
  distinct := fun st st' hrec hrec' => h.distinct st st' (hs.records st hrec) (hs.records st' hrec')

theorem Inherits.refl (s : System) : Inherits s s := ⟨fun _ h => h,rfl,rfl,rfl⟩

theorem hasRecord_of_lookup
    (h : ∀ id entry, registry'.runs.lookup id = some entry → entry.stopOperation = none ∨
      ∃ old, registry.runs.lookup id = some old ∧ old.stopOperation = entry.stopOperation)
    (hrec : HasRecord registry' st) : HasRecord registry st := by
  obtain ⟨entry,memory,hentry,hrecord⟩ := hrec
  rcases h st.id entry hentry with hnone | ⟨old,hold,hsame⟩
  · rw [hnone] at hrecord
    cases hrecord
  · exact ⟨old,memory,hold,by rw [hsame,hrecord]⟩

theorem Moved.hasRecord {ids : List RunId} {new : RegistryResidency}
    (h : Moved ids new registry registry') (hrec : HasRecord registry' st) :
    HasRecord registry st := by
  refine hasRecord_of_lookup (fun id entry hentry => .inr ?_) hrec
  rw [h.lookup id] at hentry
  split at hentry
  · obtain ⟨old,hold,rfl⟩ := Option.map_eq_some_iff.mp hentry
    exact ⟨old,hold,rfl⟩
  · exact ⟨entry,hentry,rfl⟩

theorem Removed.hasRecord {ids : List RunId} (h : Removed ids registry registry')
    (hrec : HasRecord registry' st) : HasRecord registry st := by
  refine hasRecord_of_lookup (fun id entry hentry => .inr ?_) hrec
  rw [h.lookup id] at hentry
  split at hentry
  · cases hentry
  · exact ⟨entry,hentry,rfl⟩

theorem Published.hasRecord {r : RegistryReservation} {ticket : PublicationTicket}
    (h : Published r ticket registry registry') (hrec : HasRecord registry' st) :
    HasRecord registry st := by
  refine hasRecord_of_lookup (fun id entry hentry => ?_) hrec
  by_cases hid : id = r.newRunId
  · obtain ⟨charge,harrived⟩ := h.arrived
    rw [hid,harrived] at hentry
    cases hentry
    exact .inl rfl
  · rw [h.others id hid] at hentry
    split at hentry
    · cases hentry
    · exact .inr ⟨entry,hentry,rfl⟩

theorem inherits_reserve (h : Owned s) (view : View) (conditions : ReserveConditions)
    (newRunId : RunId) (operationKey : Option CreateOperationKey) (newMetadataBytes : ℕ) :
    Inherits s (s.step (.reserve view conditions newRunId operationKey newMetadataBytes)) := by
  simp only [System.step,System.act]
  split
  · rename_i hmay
    obtain ⟨hid,hids,hkeys⟩ := hmay
    rcases reservePublication_cases h.consistent (s.pinned view) conditions newMetadataBytes hid hids
      hkeys with
      ⟨error,hout⟩ | ⟨-,hout⟩ | ⟨candidates,registry,hreserved,hout⟩ | ⟨registry,error,hrestored,hout⟩
    · simp only [hout]
      exact .refl s
    · simp only [hout]
      exact .refl s
    · simp only [hout]
      refine ⟨fun st hrec => ?_,rfl,rfl,rfl⟩
      have hold : HasRecord _ st := Moved.hasRecord hreserved.moved hrec
      exact hold
    · simp only [hout]
      refine ⟨fun st hrec => ?_,rfl,rfl,rfl⟩
      obtain ⟨entry,memory,hentry,hrecord⟩ := hrec
      exact ⟨entry,memory,by rw [← hrestored.lookup st.id]; exact hentry,hrecord⟩
  · exact .refl s

theorem inherits_publishCreation (h : Owned s) (ticket : PublicationTicket) (charge : ℕ) :
    Inherits s (s.step (.publishCreation ticket charge)) := by
  simp only [System.step,System.act]
  split
  · rename_i newRunId key bytes candidates hr
    split
    · obtain ⟨registry,hok,hpublished⟩ := publishCreation_ok h.consistent hr rfl charge
      rw [hok]
      exact ⟨fun st hrec => hpublished.hasRecord hrec,rfl,rfl,rfl⟩
    · exact .refl s
  · exact .refl s

theorem inherits_publishUnkeyed (h : Owned s) (ticket : PublicationTicket) (charge : ℕ) :
    Inherits s (s.step (.publishUnkeyed ticket charge)) := by
  simp only [System.step,System.act]
  split
  · rename_i newRunId bytes candidates hr
    split
    · obtain ⟨registry,hok,hpublished⟩ := publishUnkeyed_ok h.consistent hr rfl charge
      rw [hok]
      exact ⟨fun st hrec => hpublished.hasRecord hrec,rfl,rfl,rfl⟩
    · exact .refl s
  · exact .refl s

theorem inherits_dropReservation (h : Owned s) (ticket : PublicationTicket) :
    Inherits s (s.step (.dropReservation ticket)) := by
  simp only [System.step,System.act]
  split
  · rename_i ht
    obtain ⟨r,hr⟩ := h.reservation_of ht
    obtain ⟨registry,hrestore,hmoved,-⟩ := h.consistent.restored hr
    rw [hrestore]
    refine ⟨fun st hrec => ?_,rfl,rfl,rfl⟩
    have hold : HasRecord _ st := Moved.hasRecord hmoved hrec
    exact hold
  · exact .refl s

theorem inherits_removeMemory (h : Owned s) (view : View) (id : RunId) :
    Inherits s (s.step (.removeMemory view id)) := by
  simp only [System.step,System.act]
  rcases removeMemory_cases h.consistent (s.pinned view) id with ⟨error,hout⟩ | ⟨entry,hr,hout⟩
  · simp only [hout]
    exact .refl s
  · have hremoved := removed_without h.consistent.keyed hr.lookup
    simp only [hout]
    exact ⟨fun st hrec => hremoved.hasRecord hrec,rfl,rfl,rfl⟩

theorem inherits_beginRemoval (view : View) (load : RunId → ℕ) (id : RunId) :
    Inherits s (s.step (.beginRemoval view load id)) := by
  simp only [System.step,System.act]
  rcases beginPersistentRemoval_cases s.registry (s.pinned view) load id with
    ⟨error,hout⟩ | ⟨entry,candidate,hr,hout⟩
  · simp only [hout]
    exact .refl s
  · have hmoved := moved_setResidency hr.lookup .removing
    simp only [hout]
    exact ⟨fun st hrec => hmoved.hasRecord hrec,rfl,rfl,rfl⟩

theorem inherits_commitRemoval (h : Owned s) (id : RunId) :
    Inherits s (s.step (.commitRemoval id)) := by
  simp only [System.step,System.act]
  split
  · rename_i hid
    obtain ⟨entry,hentry,hcommit⟩ := h.commitRemoval hid
    have hremoved := removed_without h.consistent.keyed hentry
    rw [hcommit]
    exact ⟨fun st hrec => hremoved.hasRecord hrec,rfl,rfl,rfl⟩
  · exact .refl s

theorem inherits_dropRemoval (h : Owned s) (id : RunId) :
    Inherits s (s.step (.dropRemoval id)) := by
  simp only [System.step,System.act]
  split
  · rename_i hid
    obtain ⟨entry,hentry,hdrop⟩ := h.dropRemoval hid
    have hmoved := moved_setResidency hentry .retained
    rw [hdrop]
    exact ⟨fun st hrec => hmoved.hasRecord hrec,rfl,rfl,rfl⟩
  · exact .refl s

namespace Ledger

theorem recounted (h : Ledger s) : Ledger { s with nextCell := s.nextCell+1 } :=
  { h with issued := fun st hrec => Nat.lt_succ_of_lt (h.issued st hrec) }

theorem owner (h : Ledger s) {id : RunId} {entry : RegistryEntry} {key : StopOperationKey}
    (hvalid : stopKeyError key = none) (conditions : StopConditions) :
    Ledger { s with
      registry := s.registry.admitStop conditions id entry key s.nextCell
      settlements := ⟨id,key,s.nextCell⟩::s.settlements
      nextCell := s.nextCell+1 } := by
  have hcases : ∀ st, HasRecord (s.registry.admitStop conditions id entry key s.nextCell) st →
      st = ⟨id,key,s.nextCell⟩ ∨ HasRecord s.registry st := by
    intro st hrec
    rcases hasRecord_of_insert rfl hrec with ⟨hid,memory,hsome⟩ | hold
    · obtain ⟨id',key',cell⟩ := st
      simp only at hid hsome
      cases hsome
      exact .inl (by rw [hid])
    · exact .inr hold
  refine ⟨fun st hrec => ?_,fun st hrec => ?_,fun st hrec => ?_,fun st st' hrec hrec' hcell => ?_⟩
  · rcases hcases st hrec with rfl | hold
    · exact .inl (by simp)
    · rcases h.standing st hold with hin | hresult
      · exact .inl (List.mem_cons_of_mem _ hin)
      · exact .inr hresult
  · rcases hcases st hrec with rfl | hold
    · exact hvalid
    · exact h.valid st hold
  · rcases hcases st hrec with rfl | hold
    · exact Nat.lt_succ_self _
    · exact Nat.lt_succ_of_lt (h.issued st hold)
  · rcases hcases st hrec with rfl | hold
    · rcases hcases st' hrec' with rfl | hold'
      · rfl
      · exact absurd hcell.symm (Nat.ne_of_lt (h.issued st' hold'))
    · rcases hcases st' hrec' with rfl | hold'
      · exact absurd hcell (Nat.ne_of_lt (h.issued st hold))
      · exact h.distinct st st' hold hold' hcell

/-- A settlement drops its record or settles its cell; the other cells are not touched. -/
theorem settled (h : Ledger s) {entry : RegistryEntry} {memory : ℕ}
    (hentry : s.registry.runs.lookup st.id = some entry)
    (hrecord : entry.stopOperation = some ⟨st.key,st.cell,memory⟩) (result : StopResult) :
    Ledger { s with
      registry := s.registry.settled st.id entry ⟨st.key,st.cell,memory⟩ result
      settlements := s.settlements.erase st
      results := s.results.insert st.cell result } := by
  have hrec : HasRecord s.registry st := ⟨entry,memory,hentry,hrecord⟩
  have hold : ∀ other,
      HasRecord (s.registry.settled st.id entry ⟨st.key,st.cell,memory⟩ result) other →
        HasRecord s.registry other ∧ (other = st → result.removes = false) := by
    intro other hother
    unfold RegistryState.settled at hother
    split at hother
    · rcases hasRecord_of_insert rfl hother with ⟨hid,memory',hnone⟩ | hother'
      · cases hnone
      · refine ⟨hother',fun heq => ?_⟩
        subst heq
        obtain ⟨memory',hnone⟩ := Logged.hasRecord_stopped_self.mp hother
        cases hnone
    · rename_i hkept
      exact ⟨hother,fun _ => by simpa using hkept⟩
  refine ⟨fun other hother => ?_,fun other hother => h.valid other (hold other hother).1,
    fun other hother => h.issued other (hold other hother).1,
    fun a b ha hb => h.distinct a b (hold a ha).1 (hold b hb).1⟩
  obtain ⟨hother',hself⟩ := hold other hother
  by_cases heq : other = st
  · subst heq
    exact .inr ⟨result,AList.lookup_insert _,hself rfl⟩
  · have hcell : other.cell ≠ st.cell := fun hcell => heq (h.distinct other st hother' hrec hcell)
    rcases h.standing other hother' with hin | ⟨result',hresult',hremoves⟩
    · exact .inl ((List.mem_erase_of_ne heq).mpr hin)
    · refine .inr ⟨result',?_,hremoves⟩
      show (s.results.insert st.cell result).lookup other.cell = _
      rw [AList.lookup_insert_ne hcell]
      exact hresult'

theorem beginStop (h : Ledger s) (view : View) (conditions : StopConditions) (id : RunId)
    (key : StopOperationKey) : Ledger (s.step (.beginStop view conditions id key)) := by
  simp only [System.step,System.act]
  rcases beginRecoverableStop_cases s.registry (s.pinned view) conditions id key s.nextCell with
    ⟨error,hout⟩ | ⟨entry,record,-,-,-,-,-,hout⟩ | ⟨entry,-,-,-,-,hvalid,hout⟩
  · simp only [hout]
    exact h.recounted
  · simp only [hout]
    exact h.recounted
  · simp only [hout]
    exact h.owner hvalid conditions

theorem settleStop (h : Ledger s) (hs : Owned s) (settlement : StopSettlement)
    (result : StopResult) : Ledger (s.step (.settleStop settlement result)) := by
  simp only [System.step,System.act]
  split
  · rename_i hst
    rw [if_pos (hs.pending settlement hst).1]
    obtain ⟨entry,memory,hentry,-,hrecord⟩ := hs.pins settlement hst
    rw [settleRecoverableStop_eq hs.consistent hentry hrecord rfl rfl result]
    exact h.settled hentry hrecord result
  · exact h

theorem step (h : Ledger s) (hs : Owned s) (e : Event) : Ledger (s.step e) := by
  cases e with
  | reserve view conditions newRunId operationKey newMetadataBytes =>
    exact h.inherits (inherits_reserve hs view conditions newRunId operationKey newMetadataBytes)
  | publishCreation ticket charge => exact h.inherits (inherits_publishCreation hs ticket charge)
  | publishUnkeyed ticket charge => exact h.inherits (inherits_publishUnkeyed hs ticket charge)
  | dropReservation ticket => exact h.inherits (inherits_dropReservation hs ticket)
  | intoUnresolved ticket =>
    simp only [System.step,System.act]
    split
    · exact h.inherits ⟨fun _ hrec => hrec,rfl,rfl,rfl⟩
    · exact h
  | persistentCandidates ticket load =>
    simp only [System.step,System.act]
    split
    · split
      · exact h
      · exact h
    · exact h
  | beginStop view conditions id key => exact h.beginStop view conditions id key
  | settleStop settlement result => exact h.settleStop hs settlement result
  | removeMemory view id => exact h.inherits (inherits_removeMemory hs view id)
  | beginRemoval view load id => exact h.inherits (inherits_beginRemoval view load id)
  | commitRemoval id => exact h.inherits (inherits_commitRemoval hs id)
  | dropRemoval id => exact h.inherits (inherits_dropRemoval hs id)

end Ledger

theorem Carried.ledger (h : Carried s) : Ledger s where
  standing := fun st hrec => .inr (h.settled st hrec).2.2
  valid := fun st hrec => (h.settled st hrec).2.1
  issued := fun st hrec => (h.settled st hrec).1
  distinct := h.distinct

/-- Every registry that a daemon reaches agrees with its owners and has a ledger. -/
theorem reached_ledger (limits : Limits) (runs : RecoveredRuns) (events : List Event) :
    Owned (run System.step (System.recovered limits runs) events) ∧
      Ledger (run System.step (System.recovered limits runs) events) := by
  have hstart : Owned (System.recovered limits runs) ∧ Ledger (System.recovered limits runs) :=
    ⟨(recovered_recovering limits runs).owned,((carried_empty limits).fold runs.settled).ledger⟩
  exact run_invariant (I := fun s => Owned s ∧ Ledger s)
    (fun s e hs => ⟨(stepped hs.1 e).owned,hs.2.step hs.1 e⟩) hstart events

end Registry
end Ctxmux
