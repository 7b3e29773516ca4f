import Ctxmux.RegistryRuns

/-!
# The registries a daemon reaches

A recovered registry agrees with its owners, of which there are none yet, and from there
every sequence of events keeps the key indexes inverse to the entries, the fences those
of the live reservations and the records within their capacity.
-/

namespace Ctxmux
namespace Registry

open Durable (RunId)
open Machine

/-- A registry without owners that has room for the Runs still to be recovered. -/
structure Recovering (s : System) (rest : List RecoveredRun) : Prop where
  owned : Owned s
  keyed : AllKeyed s.registry
  unreserved : s.registry.reservations = ∅
  unheld : s.settlements = [] ∧ s.removals = []
  ids : ∀ r ∈ rest, s.registry.runs.lookup r.id = none
  keys : ∀ r ∈ rest, s.registry.creationRuns.lookup r.key = none
  stops : ∀ r ∈ rest, ∀ stop ∈ r.stop, s.registry.stopRuns.lookup stop.1 = none

theorem recovering_empty (limits : Limits) (rest : List RecoveredRun) :
    Recovering (System.empty limits) rest where
  owned := {
    consistent := {
      keyed := ⟨InverseIndex.inverse_empty,InverseIndex.inverse_empty⟩
      fenced := by
        refine ⟨?_,?_,?_,?_,?_,?_,?_,?_⟩ <;>
          simp [System.empty,RegistryState.residency]
      accounted := by simp [System.empty] }
    tickets := List.nodup_nil
    live := by simp [System.empty]
    removals := List.nodup_nil
    removing := by simp [System.empty]
    settlements := List.nodup_nil
    cells := List.nodup_nil
    pins := by simp [System.empty]
    pending := by simp [System.empty]
    unnamed := by simp [System.empty] }
  keyed := by simp [AllKeyed,System.empty]
  unreserved := rfl
  unheld := ⟨rfl,rfl⟩
  ids := by simp [System.empty]
  keys := by simp [System.empty]
  stops := by simp [System.empty]

variable {s : System} {r : RecoveredRun} {rest : List RecoveredRun}

theorem Recovering.not_held (h : Recovering s rest) (id : RunId) : ¬s.Holds id := by
  rintro (hin | ⟨st,hst,-⟩)
  · rw [h.unheld.2] at hin
    cases hin
  · rw [h.unheld.1] at hst
    cases hst

theorem Recovering.unlisted (h : Recovering s rest) (t : PublicationTicket)
    (r' : RegistryReservation) : s.registry.reservations.lookup t ≠ some r' := by
  rw [h.unreserved]
  simp

theorem Recovering.arrived (h : Recovering s (r::rest)) :
    Owned { s with registry := s.registry.with r.id (some r.key) r.charge } := by
  refine h.owned.replace ?_ h.owned.live fun id hid => absurd hid (h.not_held id)
  refine h.owned.consistent.arrived (h.ids r (by simp)) (fun k hk => ?_)
    (fun t r' ht => absurd ht (h.unlisted t r')) (fun t r' ht => absurd ht (h.unlisted t r')) r.charge
  cases hk
  exact h.keys r (by simp)

theorem allKeyed_insert {runs : AList fun _ : RunId => RegistryEntry} {id : RunId}
    {entry : RegistryEntry} (h : ∀ id entry, runs.lookup id = some entry → entry.operationKey ≠ none)
    (hentry : entry.operationKey ≠ none) :
    ∀ other entry', (runs.insert id entry).lookup other = some entry' →
      entry'.operationKey ≠ none := by
  intro other entry' hlookup
  by_cases heq : other = id
  · subst heq
    rw [AList.lookup_insert] at hlookup
    cases hlookup
    exact hentry
  · rw [AList.lookup_insert_ne heq] at hlookup
    exact h other entry' hlookup

theorem Recovering.next (h : Recovering s (r::rest)) (hid : r.id ∉ rest.map (·.id))
    (hkey : r.key ∉ rest.map (·.key))
    (hstop : ∀ stop ∈ r.stop, ∀ r' ∈ rest, ∀ stop' ∈ r'.stop, stop'.1 ≠ stop.1) :
    Recovering (recoverRun s r) rest := by
  have harrived := h.arrived
  have hids : ∀ entry : RegistryEntry, ∀ r' ∈ rest,
      (s.registry.runs.insert r.id entry).lookup r'.id = none := fun entry r' hr' => by
    have hne : r'.id ≠ r.id := fun heq => hid (List.mem_map.mpr ⟨r',hr',heq⟩)
    rw [AList.lookup_insert_ne hne]
    exact h.ids r' (by simp [hr'])
  have hkeys : ∀ r' ∈ rest, (s.registry.creationRuns.insert r.key r.id).lookup r'.key = none := by
    intro r' hr'
    have hne : r'.key ≠ r.key := fun heq => hkey (List.mem_map.mpr ⟨r',hr',heq⟩)
    rw [AList.lookup_insert_ne hne]
    exact h.keys r' (by simp [hr'])
  unfold recoverRun
  cases hcarried : r.stop with
  | none =>
    exact ⟨harrived,allKeyed_insert h.keyed (by simp),h.unreserved,h.unheld,hids _,hkeys,
      fun r' hr' => h.stops r' (by simp [hr'])⟩
  | some stop =>
    obtain ⟨key,memory,result⟩ := stop
    have hfree : s.registry.stopRuns.lookup key = none := h.stops r (by simp) (key,memory,result) hcarried
    have hentry : (s.registry.with r.id (some r.key) r.charge).runs.lookup r.id =
        some ⟨some r.key,none,true,r.charge,.retained⟩ := AList.lookup_insert _
    have hconsistent : Consistent ((s.registry.with r.id (some r.key) r.charge).stopped r.id
        ⟨some r.key,none,true,r.charge,.retained⟩ (some ⟨key,s.nextCell,memory⟩)
        (s.registry.stopRuns.insert key r.id) (s.registry.stopBytes+memory)) := by
      refine harrived.consistent.stopped hentry ?_ _
      exact harrived.consistent.keyed.stop.insert (by rw [stopKey_of hentry]; rfl) hfree
    have hstopped := harrived.stopped hentry rfl (fun st hst => absurd (h.unheld.1 ▸ hst) (by simp))
      hconsistent
    simp only [RegistryState.stopped,RegistryState.with,AList.insert_insert,Option.elim] at hstopped
    refine ⟨{ hstopped with
        pending := fun st hst => absurd (h.unheld.1 ▸ hst) (by simp)
        unnamed := fun cell hcell => ?_ },allKeyed_insert h.keyed (by simp),h.unreserved,h.unheld,
      hids _,hkeys,fun r' hr' stop' hstop' => ?_⟩
    · have hlt : s.nextCell+1 ≤ cell := hcell
      have hne : cell ≠ s.nextCell := by omega
      show (s.results.insert s.nextCell result).lookup cell = none
      rw [AList.lookup_insert_ne hne]
      exact h.owned.unnamed cell (by omega)
    · have hne := hstop (key,memory,result) hcarried r' hr' stop' hstop'
      show (s.registry.stopRuns.insert key r.id).lookup stop'.1 = none
      rw [AList.lookup_insert_ne hne]
      exact h.stops r' (by simp [hr']) stop' hstop'

theorem Recovering.fold (h : Recovering s rest) (hids : (rest.map (·.id)).Nodup)
    (hkeys : (rest.map (·.key)).Nodup)
    (hstops : (rest.filterMap fun r => r.stop.map (·.1)).Nodup) :
    Recovering (rest.foldl recoverRun s) [] := by
  induction rest generalizing s with
  | nil => exact h
  | cons r rest ih =>
    obtain ⟨hid,hids⟩ := List.nodup_cons.mp hids
    obtain ⟨hkey,hkeys⟩ := List.nodup_cons.mp hkeys
    rw [List.foldl_cons]
    cases hcarried : r.stop with
    | none =>
      rw [List.filterMap_cons_none (by rw [hcarried]; rfl)] at hstops
      exact ih (h.next hid hkey (by simp [hcarried])) hids hkeys hstops
    | some stop =>
      rw [List.filterMap_cons_some (by rw [hcarried]; rfl)] at hstops
      obtain ⟨hfresh,hstops⟩ := List.nodup_cons.mp hstops
      refine ih (h.next hid hkey fun stop' hstop' r' hr' stop'' hstop'' heq => ?_) hids hkeys hstops
      rw [hcarried] at hstop'
      cases hstop'
      refine hfresh (List.mem_filterMap.mpr ⟨r',hr',?_⟩)
      rw [hstop'']
      exact congrArg some heq

theorem recovered_recovering (limits : Limits) (runs : RecoveredRuns) :
    Recovering (System.recovered limits runs) [] :=
  (recovering_empty limits runs.runs).fold runs.ids runs.keys runs.stops

theorem run_owned (h : Owned s) (events : List Event) : Owned (run System.step s events) :=
  run_invariant (I := Owned) (fun _ e hs => (stepped hs e).owned) h events

/-- The indexes of the registry in terms of its entries. -/
structure IndexConsistent (s : RegistryState) : Prop where
  creation : ∀ key id, s.creationRuns.lookup key = some id ↔
    ∃ entry, s.runs.lookup id = some entry ∧ entry.operationKey = some key
  stop : ∀ key id, s.stopRuns.lookup key = some id ↔
    ∃ entry record, s.runs.lookup id = some entry ∧ entry.stopOperation = some record ∧
      record.key = key
  collecting : ∀ id ticket,
    (∃ entry, s.runs.lookup id = some entry ∧ entry.residency = .collecting ticket) ↔
      ∃ r, s.reservations.lookup ticket = some r ∧ id ∈ r.candidates
  unique : ∀ id t r t' r', s.reservations.lookup t = some r → s.reservations.lookup t' = some r' →
    id ∈ r.candidates → id ∈ r'.candidates → t = t'

theorem Consistent.index {s : RegistryState} (h : Consistent s) : IndexConsistent s where
  creation := fun key id => by
    rw [h.keyed.creation key id,RegistryState.creationKey,Option.bind_eq_some_iff]
  stop := fun key id => by
    rw [h.keyed.stop key id,RegistryState.stopKey,Option.bind_eq_some_iff]
    simp only [Option.map_eq_some_iff]
    constructor
    · rintro ⟨entry,hentry,record,hrecord,hkey⟩
      exact ⟨entry,record,hentry,hrecord,hkey⟩
    · rintro ⟨entry,record,hentry,hrecord,hkey⟩
      exact ⟨entry,hentry,record,hrecord,hkey⟩
  collecting := fun id ticket => by
    rw [← h.fenced.collecting id ticket,RegistryState.residency,Option.map_eq_some_iff]
  unique := fun id t r t' r' hr hr' hin hin' => h.fenced.unique hr hr' hin hin'

/-- Without unkeyed publications every Run keeps a creation key. -/
theorem run_allKeyed (h : Owned s) (hkeyed : AllKeyed s.registry) {events : List Event}
    (hevents : ∀ e ∈ events, e.unkeyed = false) : AllKeyed (run System.step s events).registry := by
  induction events generalizing s with
  | nil => exact hkeyed
  | cons e events ih =>
    have hstep := stepped h e
    exact ih hstep.owned (hstep.keyed (hevents e (by simp)) hkeyed) fun e' he' =>
      hevents e' (by simp [he'])

/-- Naming the candidates of an owned reservation panics exactly when one has no key. -/
theorem panics_persistentCandidates {ticket : PublicationTicket} {r : RegistryReservation}
    (h : Owned s) (load : RunId → ℕ) (ht : ticket ∈ s.reservations)
    (hr : s.registry.reservations.lookup ticket = some r) :
    s.panics (.persistentCandidates ticket load) =
        some "persistent native Run has an exact creation key" ↔
      ∃ id ∈ r.candidates, s.registry.creationKey id = none := by
  constructor
  · intro hpanics
    obtain ⟨-,r',hr',hunkeyed⟩ := (stepped h _).panics _ hpanics
    rw [hr] at hr'
    cases hr'
    exact hunkeyed
  · rintro ⟨id,hid,hkey⟩
    simp only [System.panics,System.act,if_pos ht,
      persistentCandidates_unkeyed h.consistent hr hid hkey]

/-- Whatever the events, the indexes agree with the entries and the reservations, and no
event panics but a reservation when the tickets run out and, exactly, the naming of a
persistent candidate that was published without a key. -/
theorem registry_index_consistent (limits : Limits) (runs : RecoveredRuns) (events : List Event) :
    IndexConsistent (run System.step (System.recovered limits runs) events).registry ∧
    (∀ e message, (run System.step (System.recovered limits runs) events).panics e = some message →
      Meets (run System.step (System.recovered limits runs) events) message e) ∧
    (∀ ticket load r,
      ticket ∈ (run System.step (System.recovered limits runs) events).reservations →
      (run System.step (System.recovered limits runs) events).registry.reservations.lookup ticket =
        some r →
      ((run System.step (System.recovered limits runs) events).panics
          (.persistentCandidates ticket load) =
            some "persistent native Run has an exact creation key" ↔
        ∃ id ∈ r.candidates,
          (run System.step (System.recovered limits runs) events).registry.creationKey id = none)) ∧
    ((∀ e ∈ events, e.unkeyed = false) → ∀ ticket load,
      (run System.step (System.recovered limits runs) events).panics
        (.persistentCandidates ticket load) = none) := by
  have hrecovered := recovered_recovering limits runs
  have howned := run_owned hrecovered.owned events
  refine ⟨howned.consistent.index,fun e message hpanics => (stepped howned e).panics message hpanics,
    fun ticket load r ht hr => panics_persistentCandidates howned load ht hr,
    fun hevents ticket load => ?_⟩
  have hkeyed := run_allKeyed hrecovered.owned hrecovered.keyed hevents
  cases hpanics : (run System.step (System.recovered limits runs) events).panics
      (.persistentCandidates ticket load) with
  | none => rfl
  | some message =>
    obtain ⟨-,r,hr,id,hid,hnone⟩ := (stepped howned _).panics message hpanics
    obtain ⟨entry,hentry,-⟩ := howned.consistent.collecting hr hid
    rw [creationKey_of hentry] at hnone
    exact absurd hnone (hkeyed id entry hentry)

/-- A terminal Run that nobody else owns. -/
def collectableView : View := fun _ => ⟨false,0,some 0,.ok (),.ok ()⟩

def importThenReplace : List Event :=
  [.reserve collectableView ⟨0,0,none⟩ ⟨"imported"⟩ none 1,.publishUnkeyed 1 1,
    .reserve collectableView ⟨0,0,none⟩ ⟨"created"⟩ (some "key") 1]

/-- An imported Run that is chosen for a persistent replacement has no creation key. -/
theorem persistent_candidate_without_key :
    (run System.step (System.recovered ⟨1,8,100,100⟩ ⟨[],by decide,by decide,by decide,by simp⟩)
      importThenReplace).panics (.persistentCandidates 2 fun _ => 1) =
        some "persistent native Run has an exact creation key" := by
  decide

theorem run_hasRoom (h : Owned s) (hroom : HasRoom s.registry) (events : List Event) :
    HasRoom (run System.step s events).registry ∧
      (run System.step s events).registry.recordCapacity = s.registry.recordCapacity := by
  induction events generalizing s with
  | nil => exact ⟨hroom,rfl⟩
  | cons e events ih =>
    have hstep := stepped h e
    obtain ⟨hrest,hcapacity⟩ := ih hstep.owned (hstep.room hroom)
    exact ⟨hrest,hcapacity.trans hstep.capacity⟩

theorem recovered_recordCapacity (limits : Limits) (runs : RecoveredRuns) :
    (System.recovered limits runs).registry.recordCapacity = limits.recordCapacity := by
  unfold System.recovered
  have hfold : ∀ (rest : List RecoveredRun) (s : System),
      (rest.foldl recoverRun s).registry.recordCapacity = s.registry.recordCapacity := by
    intro rest
    induction rest with
    | nil => intro s; rfl
    | cons r rest ih =>
      intro s
      rw [List.foldl_cons,ih]
      unfold recoverRun
      split
      · rfl
      · rfl
  rw [hfold]
  rfl

/-- The records and the reservations that add one never pass the capacity, whatever is
published, aborted, left unresolved or removed, and the fast path of the selection
answers as the walk does. -/
theorem registry_within_capacity (limits : Limits) (runs : RecoveredRuns)
    (hfits : (System.recovered limits runs).registry.runs.keys.length ≤ limits.recordCapacity)
    (events : List Event) :
    (run System.step (System.recovered limits runs) events).registry.runs.keys.length+
      (run System.step (System.recovered limits runs) events).registry.burden ≤
        limits.recordCapacity ∧
    (run System.step (System.recovered limits runs) events).registry.runs.keys.length ≤
      limits.recordCapacity ∧
    ∀ (registry : RegistryState) (view : View) (newMetadataBytes : Option ℕ),
      (registry.selectPublicationCandidates view newMetadataBytes).result =
        (registry.scanCandidates view newMetadataBytes).result := by
  have hrecovered := recovered_recovering limits runs
  have hcapacity := recovered_recordCapacity limits runs
  have hroom : HasRoom (System.recovered limits runs).registry := by
    have hburden : (System.recovered limits runs).registry.burden = 0 := by
      rw [RegistryState.burden,hrecovered.unreserved]
      rfl
    rw [HasRoom,hburden,hcapacity]
    exact hfits
  obtain ⟨hreached,hsame⟩ := run_hasRoom hrecovered.owned hroom events
  rw [HasRoom,hsame,hcapacity] at hreached
  exact ⟨hreached,by omega,selectPublicationCandidates_result⟩

/-- A recovered Run that fills the records is replaced and the reservation holds. -/
theorem full_registry_within_capacity :
    (run System.step (System.recovered ⟨1,8,100,100⟩
      ⟨[⟨⟨"old"⟩,"old key",1,none⟩],by decide,by decide,by decide,by simp⟩)
      [.reserve collectableView ⟨0,0,none⟩ ⟨"new"⟩ (some "key") 1,.publishCreation 1 1]).registry.runs.keys =
        [⟨"new"⟩] ∧
    (run System.step (System.recovered ⟨1,8,100,100⟩
      ⟨[⟨⟨"old"⟩,"old key",1,none⟩],by decide,by decide,by decide,by simp⟩)
      [.reserve collectableView ⟨0,0,none⟩ ⟨"new"⟩ (some "key") 1,.publishCreation 1 1]).registry.runs.keys.length ≤
        1 :=
  ⟨by decide,(registry_within_capacity ⟨1,8,100,100⟩
    ⟨[⟨⟨"old"⟩,"old key",1,none⟩],by decide,by decide,by decide,by simp⟩ (by decide) _).2.1⟩

end Registry
end Ctxmux
