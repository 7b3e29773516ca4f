import Ctxmux.RegistryOwned

/-!
# Runs of the registry

One step of the daemon keeps owners and registry in agreement, meets no failed
expectation of the registry but for a persistent candidate without a creation key and
the end of the ticket numbers, and keeps the records within their capacity.
-/

namespace Ctxmux
namespace Registry

open Durable (RunId)

/-- The panics that an event can meet. -/
def Meets (s : System) (message : String) : Event → Prop
  | .reserve .. => message = "Registry publication ticket does not overflow" ∧
      u64Max ≤ s.registry.nextTicket
  | .persistentCandidates ticket _ =>
      message = "persistent native Run has an exact creation key" ∧
      ∃ r, s.registry.reservations.lookup ticket = some r ∧
        ∃ id ∈ r.candidates, s.registry.creationKey id = none
  | _ => False

/-- Every retained Run has a creation key. -/
def AllKeyed (s : RegistryState) : Prop :=
  ∀ id entry, s.runs.lookup id = some entry → entry.operationKey ≠ none

/-- The records and the publications that will add one fit. -/
def HasRoom (s : RegistryState) : Prop := s.runs.keys.length+s.burden ≤ s.recordCapacity

def Event.unkeyed : Event → Bool
  | .publishUnkeyed .. => true
  | _ => false

/-- What one event does. -/
structure Stepped (s : System) (e : Event) (out : System × Option String) : Prop where
  owned : Owned out.1
  panics : ∀ message, out.2 = some message → Meets s message e
  keyed : e.unkeyed = false → AllKeyed s.registry → AllKeyed out.1.registry
  capacity : out.1.registry.recordCapacity = s.registry.recordCapacity
  room : HasRoom s.registry → HasRoom out.1.registry

variable {s s' : System} {e : Event} {registry : RegistryState} {id : RunId}
  {ticket : PublicationTicket} {r : RegistryReservation}

theorem Stepped.same (h : Owned s') (hregistry : s'.registry = s.registry) : Stepped s e (s',none) :=
  ⟨h,fun _ hmessage => (by cases hmessage),fun _ hkeyed => hregistry ▸ hkeyed,by rw [hregistry],
    fun hroom => hregistry ▸ hroom⟩

theorem burden_insert {reservations : Reservations} (h : reservations.lookup ticket = none) :
    (reservations.insert ticket r).entries.countP (fun r => r.2.candidates = []) =
      reservations.entries.countP (fun r => r.2.candidates = [])+
        if r.candidates = [] then 1 else 0 := by
  have hmem : ticket ∉ reservations.keys := AList.lookup_eq_none.mp h
  show List.countP _ (List.kinsert ticket r reservations.entries) = _
  rw [List.kinsert_def,List.kerase_of_notMem_keys hmem,List.countP_cons]
  simp

theorem countP_kerase {entries : List (Sigma fun _ : PublicationTicket => RegistryReservation)}
    (h : entries.dlookup ticket = some r) :
    (entries.kerase ticket).countP (fun r => r.2.candidates = [])+
      (if r.candidates = [] then 1 else 0) = entries.countP (fun r => r.2.candidates = []) := by
  induction entries with
  | nil => simp at h
  | cons entry entries ih =>
    obtain ⟨t,r'⟩ := entry
    by_cases heq : ticket = t
    · subst heq
      rw [List.dlookup_cons_eq] at h
      cases h
      have hfront : List.kerase ticket (⟨ticket,r⟩::entries) = entries := List.kerase_cons_eq rfl
      rw [hfront,List.countP_cons]
      simp
    · rw [List.dlookup_cons_ne _ _ heq] at h
      have hback : List.kerase ticket (⟨t,r'⟩::entries) = ⟨t,r'⟩::entries.kerase ticket :=
        List.kerase_cons_ne heq
      rw [hback,List.countP_cons,List.countP_cons]
      have := ih h
      omega

theorem burden_erase {reservations : Reservations} (h : reservations.lookup ticket = some r) :
    (reservations.erase ticket).entries.countP (fun r => r.2.candidates = [])+
      (if r.candidates = [] then 1 else 0) =
        reservations.entries.countP (fun r => r.2.candidates = []) := countP_kerase h

theorem AllKeyed.moved {s s' : RegistryState} {ids : List RunId} {new : RegistryResidency}
    (h : AllKeyed s) (hmoved : Moved ids new s s') : AllKeyed s' := by
  intro id entry' hentry'
  obtain ⟨entry,hentry,rfl⟩ := hmoved.entry hentry'
  exact h id entry hentry

theorem AllKeyed.removed {s s' : RegistryState} {ids : List RunId} (h : AllKeyed s)
    (hremoved : Removed ids s s') : AllKeyed s' := by
  intro id entry hentry
  rw [hremoved.lookup id] at hentry
  split at hentry
  · cases hentry
  · exact h id entry hentry

theorem AllKeyed.published {s s' : RegistryState} (h : AllKeyed s)
    (hpublished : Published r ticket s s') (hkey : r.operationKey ≠ none) : AllKeyed s' := by
  intro id entry hentry
  by_cases heq : id = r.newRunId
  · subst heq
    obtain ⟨charge,harrived⟩ := hpublished.arrived
    rw [harrived] at hentry
    cases hentry
    exact hkey
  · rw [hpublished.others id heq] at hentry
    split at hentry
    · cases hentry
    · exact h id entry hentry

theorem AllKeyed.stopped {s : RegistryState} {entry : RegistryEntry}
    {stop : Option StopOperationRecord} {stopRuns : AList fun _ : StopOperationKey => RunId}
    {bytes : ℕ} (h : AllKeyed s) (hentry : s.runs.lookup id = some entry) :
    AllKeyed (s.stopped id entry stop stopRuns bytes) := by
  intro other entry' hentry'
  by_cases heq : other = id
  · subst heq
    rw [RegistryState.stopped,AList.lookup_insert] at hentry'
    cases hentry'
    exact h other entry hentry
  · rw [Owned.lookup_stopped_ne heq] at hentry'
    exact h other entry' hentry'

theorem HasRoom.published {s s' : RegistryState} (hr : s.reservations.lookup ticket = some r)
    (h : HasRoom s) (hpublished : Published r ticket s s') : HasRoom s' := by
  have hsize := hpublished.size
  have hburden := burden_erase hr
  unfold HasRoom RegistryState.burden at h ⊢
  rw [hpublished.reservations,hpublished.recordCapacity]
  by_cases hnil : r.candidates = []
  · rw [if_pos hnil] at hburden
    rw [hnil,List.length_nil] at hsize
    omega
  · have hpos := List.length_pos_of_ne_nil hnil
    rw [if_neg hnil] at hburden
    omega

theorem HasRoom.reserved {s s' : RegistryState} {view : View} (hs : Consistent s)
    (h : HasRoom s) (hreserved : Reserved r view s s') : HasRoom s' := by
  have hcapacity : s'.recordCapacity = s.recordCapacity := by
    have := congrArg (·.recordCapacity) hreserved.moved.same
    exact this
  have hsize : s'.runs.keys.length = s.runs.keys.length := hreserved.moved.size
  have hreplaces := hreserved.selected.replaces
  have hburden := burden_insert (r := r) hs.fenced.unissued
  unfold RegistryState.needsRecord RegistryState.burden at hreplaces
  unfold HasRoom RegistryState.burden at h ⊢
  rw [hreserved.reservations,hcapacity,hsize]
  by_cases hnil : r.candidates = []
  · have hroom : ¬s.recordCapacity ≤ s.runs.keys.length+
        s.reservations.entries.countP (fun r => r.2.candidates = []) := fun hle =>
      hreplaces (by simpa using hle) hnil
    rw [if_pos hnil] at hburden
    omega
  · rw [if_neg hnil] at hburden
    omega

/-- A change that keeps the number of records and the reservations. -/
theorem HasRoom.resized {s s' : RegistryState} (h : HasRoom s)
    (hsize : s'.runs.keys.length ≤ s.runs.keys.length) (hreservations : s'.reservations = s.reservations)
    (hcapacity : s'.recordCapacity = s.recordCapacity) : HasRoom s' := by
  unfold HasRoom RegistryState.burden at h ⊢
  rw [hreservations,hcapacity]
  omega

theorem HasRoom.dropped {s s' : RegistryState} (hr : s.reservations.lookup ticket = some r)
    (h : HasRoom s)
    (hmoved : Moved r.candidates .retained
      { s with reservations := s.reservations.erase ticket } s') : HasRoom s' := by
  have hburden := burden_erase hr
  have hsize : s'.runs.keys.length = s.runs.keys.length := hmoved.size
  have hreservations : s'.reservations = s.reservations.erase ticket := by rw [hmoved.same]
  have hcapacity : s'.recordCapacity = s.recordCapacity := by rw [hmoved.same]
  unfold HasRoom RegistryState.burden at h ⊢
  rw [hreservations,hcapacity,hsize]
  omega

theorem stepped_reserve (h : Owned s) (view : View) (conditions : ReserveConditions)
    (newRunId : RunId) (operationKey : Option CreateOperationKey) (newMetadataBytes : ℕ) :
    Stepped s (.reserve view conditions newRunId operationKey newMetadataBytes)
      (s.act (.reserve view conditions newRunId operationKey newMetadataBytes)) := by
  simp only [System.act]
  split
  · rename_i hmay
    obtain ⟨hid,hids,hkeys⟩ := hmay
    rcases reservePublication_cases h.consistent (s.pinned view) conditions newMetadataBytes hid hids
      hkeys with
      ⟨error,hout⟩ | ⟨hmax,hout⟩ | ⟨candidates,registry,hreserved,hout⟩ | ⟨registry,error,hrestored,hout⟩
    · simp only [hout]
      exact .same h rfl
    · simp only [hout]
      refine ⟨h,fun message hmessage => ?_,fun _ hkeyed => hkeyed,rfl,fun hroom => hroom⟩
      cases hmessage
      exact ⟨rfl,hmax⟩
    · simp only [hout]
      refine ⟨h.reserved hreserved,fun message hmessage => (by cases hmessage),
        fun _ hkeyed => ?_,?_,fun hroom => hroom.reserved h.consistent hreserved⟩
      · have hmoved := AllKeyed.moved
          (s := { s.registry with nextTicket := s.registry.nextTicket+1 }) hkeyed hreserved.moved
        exact fun id entry hentry => hmoved id entry hentry
      · have hcapacity := congrArg (·.recordCapacity) hreserved.moved.same
        exact hcapacity
    · simp only [hout]
      refine ⟨h.replace hrestored.consistent (by rw [hrestored.reservations]; exact h.live)
        fun id _ => hrestored.lookup id,fun message hmessage => (by cases hmessage),
        fun _ hkeyed id entry hentry => ?_,hrestored.recordCapacity,fun hroom => ?_⟩
      · exact hkeyed id entry (by rw [← hrestored.lookup id]; exact hentry)
      · exact hroom.resized (by rw [hrestored.size]) hrestored.reservations hrestored.recordCapacity
  · exact .same h rfl

theorem stepped_publish (h : Owned s) (ht : ticket ∈ s.reservations)
    (hr : s.registry.reservations.lookup ticket = some r) {result : Except String RegistryState}
    (hresult : ∃ registry, result = .ok registry ∧ Published r ticket s.registry registry)
    (hkey : e.unkeyed = false → r.operationKey ≠ none) :
    Stepped s e (s.attempt result fun registry =>
      { s with registry := registry, reservations := s.reservations.erase ticket }) := by
  obtain ⟨registry,rfl,hpublished⟩ := hresult
  exact ⟨h.published ht hr hpublished,fun message hmessage => (by cases hmessage),
    fun hunkeyed hkeyed => hkeyed.published hpublished (hkey hunkeyed),hpublished.recordCapacity,
    fun hroom => hroom.published hr hpublished⟩

theorem stepped_publishCreation (h : Owned s) (ticket : PublicationTicket) (charge : ℕ) :
    Stepped s (.publishCreation ticket charge) (s.act (.publishCreation ticket charge)) := by
  simp only [System.act]
  cases hr : s.registry.reservations.lookup ticket with
  | none => exact .same h rfl
  | some r =>
    obtain ⟨newRunId,operationKey,metadata,candidates⟩ := r
    cases operationKey with
    | none => exact .same h rfl
    | some key =>
      simp only
      split
      · rename_i ht
        exact stepped_publish h ht hr (publishCreation_ok h.consistent hr rfl charge) (by simp)
      · exact .same h rfl

theorem stepped_publishUnkeyed (h : Owned s) (ticket : PublicationTicket) (charge : ℕ) :
    Stepped s (.publishUnkeyed ticket charge) (s.act (.publishUnkeyed ticket charge)) := by
  simp only [System.act]
  cases hr : s.registry.reservations.lookup ticket with
  | none => exact .same h rfl
  | some r =>
    obtain ⟨newRunId,operationKey,metadata,candidates⟩ := r
    cases operationKey with
    | some key => exact .same h rfl
    | none =>
      simp only
      split
      · rename_i ht
        exact stepped_publish h ht hr (publishUnkeyed_ok h.consistent hr rfl charge)
          (by simp [Event.unkeyed])
      · exact .same h rfl

theorem stepped_dropReservation (h : Owned s) (ticket : PublicationTicket) :
    Stepped s (.dropReservation ticket) (s.act (.dropReservation ticket)) := by
  simp only [System.act]
  split
  · rename_i ht
    obtain ⟨r,hr⟩ := h.reservation_of ht
    obtain ⟨registry,hrestore,hmoved,hconsistent⟩ := h.consistent.restored hr
    rw [hrestore]
    refine ⟨h.dropped ht hr hconsistent hmoved,fun message hmessage => (by cases hmessage),
      fun _ hkeyed => ?_,?_,fun hroom => hroom.dropped hr hmoved⟩
    · exact AllKeyed.moved
        (s := { s.registry with reservations := s.registry.reservations.erase ticket }) hkeyed hmoved
    · show registry.recordCapacity = _
      rw [hmoved.same]
  · exact .same h rfl

theorem mapM_error {α β : Type} {f : α → Except String β} {message : String} {xs : List α}
    (h : xs.mapM f = .error message) : ∃ x ∈ xs, f x = .error message := by
  induction xs with
  | nil => cases h
  | cons x xs ih =>
    rw [List.mapM_cons] at h
    cases hx : f x with
    | error message' =>
      rw [hx] at h
      cases h
      exact ⟨x,by simp,hx⟩
    | ok y =>
      rw [ok_then hx] at h
      cases hxs : xs.mapM f with
      | error message' =>
        rw [hxs] at h
        cases h
        obtain ⟨z,hz,hfz⟩ := ih hxs
        exact ⟨z,by simp [hz],hfz⟩
      | ok ys =>
        rw [ok_then hxs] at h
        cases h

/-- The only candidate that cannot be named durably has no creation key. -/
theorem persistentCandidates_error (h : Consistent s.registry) {load : RunId → ℕ} {message : String}
    (hr : s.registry.reservations.lookup ticket = some r)
    (herror : persistentCandidates s.registry load ticket = .error message) :
    message = "persistent native Run has an exact creation key" ∧
      ∃ id ∈ r.candidates, s.registry.creationKey id = none := by
  simp only [persistentCandidates,hr] at herror
  rw [ok_then (panicUnless_of (h.fenced.metadata ticket r hr) _)] at herror
  obtain ⟨id,hid,hcandidate⟩ := mapM_error herror
  obtain ⟨entry,hentry,-⟩ := h.collecting hr hid
  simp only [persistentCandidate,hentry,h.accounted id entry hentry] at hcandidate
  cases hkey : entry.operationKey with
  | some key =>
    rw [hkey] at hcandidate
    cases hcandidate
  | none =>
    rw [hkey] at hcandidate
    cases hcandidate
    exact ⟨rfl,id,hid,by rw [creationKey_of hentry,hkey]⟩

/-- A candidate that cannot be named ends the walk with a failure. -/
theorem mapM_of_error {α β : Type} {f : α → Except String β} {x : α} {message : String}
    {xs : List α} (hx : x ∈ xs) (h : f x = .error message) :
    ∃ message', xs.mapM f = .error message' := by
  induction xs with
  | nil => cases hx
  | cons y ys ih =>
    rw [List.mapM_cons]
    cases hy : f y with
    | error message' => exact ⟨message',rfl⟩
    | ok z =>
      have hne : x ≠ y := fun heq => by
        rw [heq,hy] at h
        cases h
      obtain ⟨message',hys⟩ := ih (List.mem_of_ne_of_mem hne hx)
      rw [ok_then rfl,hys]
      exact ⟨message',rfl⟩

/-- A candidate without a creation key cannot be named durably. -/
theorem persistentCandidates_unkeyed (h : Consistent s.registry) {load : RunId → ℕ}
    (hr : s.registry.reservations.lookup ticket = some r) (hid : id ∈ r.candidates)
    (hkey : s.registry.creationKey id = none) :
    persistentCandidates s.registry load ticket =
      .error "persistent native Run has an exact creation key" := by
  obtain ⟨entry,hentry,-⟩ := h.collecting hr hid
  have hcandidate : persistentCandidate s.registry load id =
      .error "persistent native Run has an exact creation key" := by
    rw [creationKey_of hentry] at hkey
    simp only [persistentCandidate,hentry,hkey]
  obtain ⟨message,hfailed⟩ := mapM_of_error hid hcandidate
  have herror : persistentCandidates s.registry load ticket = .error message := by
    simp only [persistentCandidates,hr]
    rw [ok_then (panicUnless_of (h.fenced.metadata ticket r hr) _),hfailed]
  rw [herror,(persistentCandidates_error h hr herror).1]

theorem stepped_persistentCandidates (h : Owned s) (ticket : PublicationTicket) (load : RunId → ℕ) :
    Stepped s (.persistentCandidates ticket load) (s.act (.persistentCandidates ticket load)) := by
  simp only [System.act]
  split
  · rename_i ht
    obtain ⟨r,hr⟩ := h.reservation_of ht
    cases hresult : persistentCandidates s.registry load ticket with
    | ok _ => exact .same h rfl
    | error message =>
      refine ⟨h,fun message' hmessage => ?_,fun _ hkeyed => hkeyed,rfl,fun hroom => hroom⟩
      cases hmessage
      obtain ⟨hmessage,hunkeyed⟩ := persistentCandidates_error h.consistent hr hresult
      exact ⟨hmessage,r,hr,hunkeyed⟩
  · exact .same h rfl

theorem stepped_beginStop (h : Owned s) (view : View) (conditions : StopConditions) (id : RunId)
    (key : StopOperationKey) :
    Stepped s (.beginStop view conditions id key) (s.act (.beginStop view conditions id key)) := by
  simp only [System.act]
  rcases beginRecoverableStop_cases s.registry (s.pinned view) conditions id key s.nextCell with
    ⟨error,hout⟩ | ⟨entry,record,-,-,-,-,-,hout⟩ | ⟨entry,hentry,hretained,hrecord,hfree,-,hout⟩
  · simp only [hout]
    exact .same h.recounted rfl
  · simp only [hout]
    exact .same h.recounted rfl
  · simp only [hout]
    refine ⟨h.owner hentry hretained hrecord hfree conditions,
      fun message hmessage => (by cases hmessage),fun _ hkeyed => hkeyed.stopped hentry,rfl,
      fun hroom => hroom.resized (Nat.le_of_eq (length_keys_insert hentry)) rfl rfl⟩

theorem stepped_settleStop (h : Owned s) (settlement : StopSettlement) (result : StopResult) :
    Stepped s (.settleStop settlement result) (s.act (.settleStop settlement result)) := by
  simp only [System.act]
  split
  · rename_i hst
    rw [if_pos (h.pending settlement hst).1]
    obtain ⟨entry,memory,hentry,hretained,hrecord⟩ := h.pins settlement hst
    rw [settleRecoverableStop_eq h.consistent hentry hrecord rfl rfl result]
    refine ⟨h.settled hst hentry hretained hrecord result,
      fun message hmessage => (by cases hmessage),fun _ hkeyed => ?_,?_,fun hroom => ?_⟩
    · show AllKeyed (RegistryState.settled _ _ _ _ _)
      unfold RegistryState.settled
      split
      · exact hkeyed.stopped hentry
      · exact hkeyed
    · show (RegistryState.settled _ _ _ _ _).recordCapacity = _
      unfold RegistryState.settled
      split
      · rfl
      · rfl
    · show HasRoom (RegistryState.settled _ _ _ _ _)
      unfold RegistryState.settled
      split
      · exact hroom.resized (Nat.le_of_eq (length_keys_insert hentry)) rfl rfl
      · exact hroom
  · exact .same h rfl

theorem Removed.hasRoom {s s' : RegistryState} (hremoved : Removed [id] s s') (h : HasRoom s) :
    HasRoom s' := by
  have hsize := hremoved.size
  exact h.resized (by omega) hremoved.reservations hremoved.recordCapacity

theorem stepped_removeMemory (h : Owned s) (view : View) (id : RunId) :
    Stepped s (.removeMemory view id) (s.act (.removeMemory view id)) := by
  simp only [System.act]
  rcases removeMemory_cases h.consistent (s.pinned view) id with ⟨error,hout⟩ | ⟨entry,hr,hout⟩
  · simp only [hout]
    exact .same h rfl
  · have hremoved := removed_without h.consistent.keyed hr.lookup
    simp only [hout]
    refine ⟨h.removed (h.not_held hr.lookup hr.retained hr.unowned) ?_ (by rw [hr.lookup]; simp)
      hremoved,fun message hmessage => (by cases hmessage),fun _ hkeyed => hkeyed.removed hremoved,
      hremoved.recordCapacity,hremoved.hasRoom⟩
    rw [residency_of hr.lookup,hr.retained]
    simp

theorem stepped_beginRemoval (h : Owned s) (view : View) (load : RunId → ℕ) (id : RunId) :
    Stepped s (.beginRemoval view load id) (s.act (.beginRemoval view load id)) := by
  simp only [System.act]
  rcases beginPersistentRemoval_cases s.registry (s.pinned view) load id with
    ⟨error,hout⟩ | ⟨entry,candidate,hr,hout⟩
  · simp only [hout]
    exact .same h rfl
  · have hmoved := moved_setResidency hr.lookup .removing
    simp only [hout]
    exact ⟨h.fenced (h.not_held hr.lookup hr.retained hr.unowned) hr.lookup hr.retained,
      fun message hmessage => (by cases hmessage),fun _ hkeyed => hkeyed.moved hmoved,rfl,
      fun hroom => hroom.resized (Nat.le_of_eq hmoved.size) rfl rfl⟩

/-- A removal that is held can be committed and dropped. -/
theorem Owned.commitRemoval (h : Owned s) (hid : id ∈ s.removals) :
    ∃ entry, s.registry.runs.lookup id = some entry ∧
      commitRemoval s.registry id = .ok (s.registry.without id entry) := by
  obtain ⟨entry,hentry,-⟩ := entry_of_residency (h.removing id hid)
  have hfenced : (s.registry.runs.lookup id).map (·.residency) = some .removing :=
    h.removing id hid
  refine ⟨entry,hentry,?_⟩
  rw [Registry.commitRemoval,ok_then (panicUnless_of hfenced _),
    ok_then (removeRegistryEntry_eq h.consistent.keyed hentry)]

theorem Owned.dropRemoval (h : Owned s) (hid : id ∈ s.removals) :
    ∃ entry, s.registry.runs.lookup id = some entry ∧
      dropRemoval s.registry id = .ok (s.registry.setResidency id entry .retained) := by
  obtain ⟨entry,hentry,hresidency⟩ := entry_of_residency (h.removing id hid)
  refine ⟨entry,hentry,?_⟩
  simp only [Registry.dropRemoval,hentry]
  rw [ok_then (panicUnless_of hresidency _)]

theorem stepped_commitRemoval (h : Owned s) (id : RunId) :
    Stepped s (.commitRemoval id) (s.act (.commitRemoval id)) := by
  simp only [System.act]
  split
  · rename_i hid
    obtain ⟨entry,hentry,hcommit⟩ := h.commitRemoval hid
    have hremoved := removed_without h.consistent.keyed hentry
    obtain ⟨hrest,hunheld⟩ := h.unfenced hid
    rw [hcommit]
    refine ⟨hrest.removed hunheld ?_ (by rw [hentry]; simp) hremoved,
      fun message hmessage => (by cases hmessage),fun _ hkeyed => hkeyed.removed hremoved,
      hremoved.recordCapacity,hremoved.hasRoom⟩
    show ∀ t, s.registry.residency id ≠ _
    rw [h.removing id hid]
    simp
  · exact .same h rfl

theorem stepped_dropRemoval (h : Owned s) (id : RunId) :
    Stepped s (.dropRemoval id) (s.act (.dropRemoval id)) := by
  simp only [System.act]
  split
  · rename_i hid
    obtain ⟨entry,hentry,hdrop⟩ := h.dropRemoval hid
    have hmoved := moved_setResidency hentry .retained
    obtain ⟨hrest,hunheld⟩ := h.unfenced hid
    rw [hdrop]
    refine ⟨hrest.moved hunheld ?_ (by rw [hentry]; simp) (by simp) hmoved,
      fun message hmessage => (by cases hmessage),fun _ hkeyed => hkeyed.moved hmoved,rfl,
      fun hroom => hroom.resized (Nat.le_of_eq hmoved.size) rfl rfl⟩
    show ∀ t, s.registry.residency id ≠ _
    rw [h.removing id hid]
    simp
  · exact .same h rfl

theorem stepped (h : Owned s) (e : Event) : Stepped s e (s.act e) := by
  cases e with
  | reserve view conditions newRunId operationKey newMetadataBytes =>
    exact stepped_reserve h view conditions newRunId operationKey newMetadataBytes
  | publishCreation ticket charge => exact stepped_publishCreation h ticket charge
  | publishUnkeyed ticket charge => exact stepped_publishUnkeyed h ticket charge
  | dropReservation ticket => exact stepped_dropReservation h ticket
  | intoUnresolved ticket =>
    simp only [System.act]
    split
    · rename_i ht
      exact .same (h.unresolved ht) rfl
    · exact .same h rfl
  | persistentCandidates ticket load => exact stepped_persistentCandidates h ticket load
  | beginStop view conditions id key => exact stepped_beginStop h view conditions id key
  | settleStop settlement result => exact stepped_settleStop h settlement result
  | removeMemory view id => exact stepped_removeMemory h view id
  | beginRemoval view load id => exact stepped_beginRemoval h view load id
  | commitRemoval id => exact stepped_commitRemoval h id
  | dropRemoval id => exact stepped_dropRemoval h id

end Registry
end Ctxmux
