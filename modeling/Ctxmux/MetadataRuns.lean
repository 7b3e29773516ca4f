import Ctxmux.MetadataFunding

/-!
# The metadata budget in every state

The daemon reserves and publishes creations with the amounts that their specifications
give, beside all other events of the registry. The total stays the sum of the charges
and within the capacity, whichever of the reservations are published in which order.
-/

namespace Ctxmux
namespace Registry

open Durable (RunId)
open Machine MapTotals

/-- The registry and its owners, with the creation behind every ticket. -/
structure Budgeted (host : Host) where
  system : System
  creations : PublicationTicket → Option (Funding)

/-- The registry events without those that reserve or publish. -/
def Event.funds : Event → Bool
  | .reserve .. | .publishCreation .. | .publishUnkeyed .. => true
  | .dropReservation .. | .intoUnresolved .. | .persistentCandidates .. | .beginStop ..
  | .settleStop .. | .removeMemory .. | .beginRemoval .. | .commitRemoval .. | .dropRemoval .. =>
    false

inductive BudgetEvent (host : Host) where
  | reserve (view : View) (conditions : ReserveConditions) (newRunId : RunId)
      (operationKey : CreateOperationKey) (creation : Funding)
  | publish (ticket : PublicationTicket)
  | other (event : Event)

/-- A registry that starts within a valid limit. -/
structure BudgetStart where
  limits : Limits
  runs : RecoveredRuns
  valid : limits.metadataCapacity ≤ i64Max
  within : (runs.runs.map (·.charge)).sum ≤ limits.metadataCapacity

variable {host : Host}

namespace Budgeted

def reserve (b : Budgeted host) (view : View) (conditions : ReserveConditions) (newRunId : RunId)
    (operationKey : CreateOperationKey) (creation : Funding) : Budgeted host where
  system := b.system.step (.reserve view conditions newRunId
    (if creation.keyed then some operationKey else none) (creation.reserved host))
  creations := Function.update b.creations (b.system.registry.nextTicket+1) (some creation)

def publish (b : Budgeted host) (ticket : PublicationTicket) : Budgeted host :=
  match b.creations ticket with
  | none => b
  | some creation =>
    if creation.keyed then
      { b with system := b.system.step (.publishCreation ticket (creation.charge host)) }
    else { b with system := b.system.step (.publishUnkeyed ticket (creation.charge host)) }

def step (b : Budgeted host) : BudgetEvent host → Budgeted host
  | .reserve view conditions newRunId operationKey creation =>
    b.reserve view conditions newRunId operationKey creation
  | .publish ticket => b.publish ticket
  | .other event => if event.funds then b else { b with system := b.system.step event }

def recovered (host : Host) (start : BudgetStart) : Budgeted host where
  system := .recovered start.limits start.runs
  creations := fun _ => none

end Budgeted

variable {s s' : System} {registry : RegistryState} {ticket : PublicationTicket}
  {r : RegistryReservation}

theorem reservePublication_scalars (s : RegistryState) (view : View)
    (conditions : ReserveConditions) (newRunId : RunId) (operationKey : Option CreateOperationKey)
    (new : Option ℕ) :
    (reservePublication s view conditions newRunId operationKey new).1.retainedMetadataBytes =
      s.retainedMetadataBytes ∧
    (reservePublication s view conditions newRunId operationKey new).1.metadataCapacity =
      s.metadataCapacity := by
  unfold reservePublication
  split
  · exact ⟨rfl,rfl⟩
  · split
    · exact ⟨rfl,rfl⟩
    · split
      · exact ⟨rfl,rfl⟩
      · cases (s.selectPublicationCandidates view new).result with
        | error error => exact ⟨rfl,rfl⟩
        | ok candidates =>
          cases conditions.allocation with
          | some error => exact ⟨rfl,rfl⟩
          | none =>
            simp only
            split
            · exact ⟨rfl,rfl⟩
            · cases hfence : candidates.foldlM (fenceCandidate (s.nextTicket+1))
                { s with nextTicket := s.nextTicket+1 } with
              | error message => exact ⟨rfl,rfl⟩
              | ok fenced =>
                have hscalars := foldlM_moveResidency_scalars hfence
                cases detachAll view candidates with
                | ok _ => exact hscalars
                | error error =>
                  simp only
                  split
                  · rename_i restored hrestore
                    have hrestored := restoreReservation_scalars hrestore
                    exact ⟨hrestored.1.trans hscalars.1,hrestored.2.trans hscalars.2⟩
                  · exact hscalars

theorem reservePublication_done {s s' : RegistryState} {view : View}
    {conditions : ReserveConditions} {newRunId : RunId} {operationKey : Option CreateOperationKey}
    {new : Option ℕ}
    (h : reservePublication s view conditions newRunId operationKey new = (s',.done ticket)) :
    ∃ candidates, (s.selectPublicationCandidates view new).result = .ok candidates ∧
      s'.reservations.lookup ticket = some ⟨newRunId,operationKey,new,candidates⟩ := by
  unfold reservePublication at h
  split at h
  · cases h
  · split at h
    · cases h
    · split at h
      · cases h
      · cases hselect : (s.selectPublicationCandidates view new).result with
        | error error =>
          simp only [hselect] at h
          cases h
        | ok candidates =>
          simp only [hselect] at h
          cases hallocation : conditions.allocation with
          | some error =>
            simp only [hallocation] at h
            cases h
          | none =>
            simp only [hallocation] at h
            split at h
            · cases h
            · split at h
              · cases h
              · split at h
                · cases h
                  exact ⟨candidates,rfl,AList.lookup_insert _⟩
                · split at h
                  · cases h
                  · cases h

/-- A change that keeps the account and adds no reservation. -/
structure Kept (registry registry' : RegistryState) : Prop where
  metered : Metered registry'
  capacity : registry'.metadataCapacity = registry.metadataCapacity
  live : ∀ t r, registry'.reservations.lookup t = some r → registry.reservations.lookup t = some r

theorem Kept.refl (h : Metered registry) : Kept registry registry := ⟨h,rfl,fun _ _ hr => hr⟩

theorem Kept.same {registry' : RegistryState} (h : Metered registry)
    (hsame : SameCharges registry registry')
    (hreservations : registry'.reservations = registry.reservations) : Kept registry registry' :=
  ⟨h.same hsame hreservations,hsame.capacity,fun _ _ hr => hreservations ▸ hr⟩

theorem Kept.removed {id : RunId} {entry : RegistryEntry} (h : Metered registry)
    (hs : Consistent registry) (hentry : registry.runs.lookup id = some entry)
    (hid : ∀ t, registry.residency id ≠ some (.collecting t)) :
    Kept registry (registry.without id entry) :=
  ⟨h.removed hs hentry hid,rfl,fun _ _ hr => hr⟩

theorem kept_dropReservation (h : Owned s) (hm : Metered s.registry) (ticket : PublicationTicket) :
    Kept s.registry (s.step (.dropReservation ticket)).registry := by
  simp only [System.step,System.act]
  split
  · rename_i ht
    obtain ⟨r,hr⟩ := h.reservation_of ht
    obtain ⟨registry,hrestore,hmoved,hconsistent⟩ := h.consistent.restored hr
    simp only [System.attempt,hrestore]
    have hcharges := hmoved.sameCharges
    have hsame : SameCharges s.registry registry :=
      ⟨hcharges.entries,hcharges.retained,hcharges.capacity⟩
    have hreservations : registry.reservations = s.registry.reservations.erase ticket := by
      rw [hmoved.same]
    exact ⟨hm.dropped hr hsame hreservations,hsame.capacity,fun t r' hr' => by
      rw [hreservations] at hr'
      exact (lookup_erase_eq_some.mp hr').2⟩
  · exact .refl hm

theorem kept_beginStop (hm : Metered s.registry) (view : View) (conditions : StopConditions)
    (id : RunId) (key : StopOperationKey) :
    Kept s.registry (s.step (.beginStop view conditions id key)).registry := by
  simp only [System.step,System.act]
  rcases beginRecoverableStop_cases s.registry (s.pinned view) conditions id key s.nextCell with
    ⟨error,hout⟩ | ⟨entry,record,-,-,-,-,-,hout⟩ | ⟨entry,hentry,-,-,-,-,hout⟩
  · simp only [hout]
    exact .refl hm
  · simp only [hout]
    exact .refl hm
  · simp only [hout]
    exact .same hm (sameCharges_stopped hentry _ _ _) rfl

theorem kept_settleStop (h : Owned s) (hm : Metered s.registry) (settlement : StopSettlement)
    (result : StopResult) :
    Kept s.registry (s.step (.settleStop settlement result)).registry := by
  simp only [System.step,System.act]
  split
  · rename_i hst
    rw [if_pos (h.pending settlement hst).1]
    obtain ⟨entry,memory,hentry,hretained,hrecord⟩ := h.pins settlement hst
    rw [settleRecoverableStop_eq h.consistent hentry hrecord rfl rfl result]
    show Kept s.registry (RegistryState.settled _ _ _ _ _)
    unfold RegistryState.settled
    split
    · exact .same hm (sameCharges_stopped hentry _ _ _) rfl
    · exact .refl hm
  · exact .refl hm

theorem kept_removeMemory (h : Owned s) (hm : Metered s.registry) (view : View) (id : RunId) :
    Kept s.registry (s.step (.removeMemory view id)).registry := by
  simp only [System.step,System.act]
  rcases removeMemory_cases h.consistent (s.pinned view) id with ⟨error,hout⟩ | ⟨entry,hr,hout⟩
  · simp only [hout]
    exact .refl hm
  · simp only [hout]
    refine .removed hm h.consistent hr.lookup ?_
    rw [residency_of hr.lookup,hr.retained]
    simp

theorem kept_beginRemoval (hm : Metered s.registry) (view : View) (load : RunId → ℕ)
    (id : RunId) : Kept s.registry (s.step (.beginRemoval view load id)).registry := by
  simp only [System.step,System.act]
  rcases beginPersistentRemoval_cases s.registry (s.pinned view) load id with
    ⟨error,hout⟩ | ⟨entry,candidate,hr,hout⟩
  · simp only [hout]
    exact .refl hm
  · simp only [hout]
    exact .same hm (moved_setResidency hr.lookup .removing).sameCharges rfl

theorem kept_commitRemoval (h : Owned s) (hm : Metered s.registry) (id : RunId) :
    Kept s.registry (s.step (.commitRemoval id)).registry := by
  simp only [System.step,System.act]
  split
  · rename_i hid
    obtain ⟨entry,hentry,hcommit⟩ := h.commitRemoval hid
    rw [hcommit]
    refine Kept.removed hm h.consistent hentry ?_
    rw [h.removing id hid]
    simp
  · exact .refl hm

theorem kept_dropRemoval (h : Owned s) (hm : Metered s.registry) (id : RunId) :
    Kept s.registry (s.step (.dropRemoval id)).registry := by
  simp only [System.step,System.act]
  split
  · rename_i hid
    obtain ⟨entry,hentry,hdrop⟩ := h.dropRemoval hid
    rw [hdrop]
    exact Kept.same hm (moved_setResidency hentry .retained).sameCharges rfl
  · exact .refl hm

theorem kept_other (h : Owned s) (hm : Metered s.registry) {e : Event} (he : e.funds = false) :
    Kept s.registry (s.step e).registry := by
  cases e with
  | reserve => cases he
  | publishCreation => cases he
  | publishUnkeyed => cases he
  | dropReservation ticket => exact kept_dropReservation h hm ticket
  | intoUnresolved ticket =>
    simp only [System.step,System.act]
    split
    · exact .refl hm
    · exact .refl hm
  | persistentCandidates ticket load =>
    simp only [System.step,System.act]
    split
    · cases persistentCandidates s.registry load ticket with
      | ok _ => exact .refl hm
      | error message => exact .refl hm
    · exact .refl hm
  | beginStop view conditions id key => exact kept_beginStop hm view conditions id key
  | settleStop settlement result => exact kept_settleStop h hm settlement result
  | removeMemory view id => exact kept_removeMemory h hm view id
  | beginRemoval view load id => exact kept_beginRemoval hm view load id
  | commitRemoval id => exact kept_commitRemoval h hm id
  | dropRemoval id => exact kept_dropRemoval h hm id

/-- A publication that charges no more than was reserved. -/
theorem kept_published (h : Owned s) (hm : Metered s.registry)
    (hr : s.registry.reservations.lookup ticket = some r) {charge : ℕ}
    (hcharge : charge ≤ r.newMetadataBytes.getD 0) {t : RegistryState}
    (hconsume : consumeReservation s.registry ticket r.newRunId r.operationKey =
      .ok (t,r.operationKey)) :
    t.runs.lookup r.newRunId = none ∧
      Kept s.registry (t.with r.newRunId r.operationKey charge) := by
  have hkeyed : Keyed { s.registry with reservations := s.registry.reservations.erase ticket } :=
    ⟨h.consistent.keyed.creation,h.consistent.keyed.stop⟩
  have hdischarged : Discharged r.candidates
      { s.registry with reservations := s.registry.reservations.erase ticket } t := by
    have hold : ∀ id ∈ r.candidates, ∃ entry, s.registry.runs.lookup id = some entry ∧
        entry.residency = .collecting ticket := fun id hin => h.consistent.collecting hr hin
    refine foldlM_discharged hkeyed hm.charged (h.consistent.fenced.nodup ticket r hr) hold ?_
    simp only [consumeReservation,hr] at hconsume
    rw [ok_then (panicUnless_of trivial _),ok_then (panicUnless_of trivial _)] at hconsume
    cases hfold : r.candidates.foldlM (consumeCandidate ticket)
        { s.registry with reservations := s.registry.reservations.erase ticket } with
    | error message =>
      rw [hfold] at hconsume
      cases hconsume
    | ok t' =>
      rw [ok_then hfold] at hconsume
      cases hconsume
      rfl
  have hfresh : s.registry.runs.lookup r.newRunId = none :=
    residency_eq_none.mp (h.consistent.fenced.fresh ticket r hr)
  have hout : r.newRunId ∉ r.candidates := fun hmem => by
    obtain ⟨entry,hentry,-⟩ := h.consistent.collecting hr hmem
    rw [hfresh] at hentry
    cases hentry
  have hid : t.runs.lookup r.newRunId = none := (hdischarged.others _ hout).trans hfresh
  refine ⟨hid,hm.published h.consistent hr hdischarged hid hcharge,hdischarged.capacity,?_⟩
  intro t' r' hr'
  have hreservations : t.reservations = s.registry.reservations.erase ticket :=
    hdischarged.reservations
  have hlive : t.reservations.lookup t' = some r' := hr'
  rw [hreservations] at hlive
  exact (lookup_erase_eq_some.mp hlive).2

/-- What the account asks of the registry and its owners. -/
structure Accounted (b : Budgeted host) : Prop where
  owned : Owned b.system
  metered : Metered b.system.registry
  valid : b.system.registry.metadataCapacity ≤ i64Max
  funds : ∀ t r, b.system.registry.reservations.lookup t = some r →
    ∃ creation, b.creations t = some creation ∧
      r.newMetadataBytes = some (creation.reserved host)

variable {b : Budgeted host}

theorem Accounted.charge_eq {t : PublicationTicket} {creation : Funding} (h : Accounted b)
    (hr : b.system.registry.reservations.lookup t = some r)
    (hamount : r.newMetadataBytes = some (creation.reserved host)) :
    creation.charge host = creation.reserved host := by
  have hfunded := h.metered.funded
  have hvalid := h.valid
  have hadded : b.system.registry.addedBy r ≤ b.system.registry.outstandingMetadataBytes :=
    le_total _ hr
  have hle := h.metered.candidates_le (h.owned.consistent.fenced.nodup t r hr)
  refine Funding.charge_eq ?_
  simp only [RegistryState.addedBy,hamount,Option.elim_some] at hadded
  simp only [i64Max,u64Max] at hvalid ⊢
  omega

theorem Accounted.publish (h : Accounted b) (ticket : PublicationTicket) :
    Accounted (b.publish ticket) ∧
      (b.publish ticket).system.registry.metadataCapacity = b.system.registry.metadataCapacity := by
  have hstepped : ∀ e, Kept b.system.registry (b.system.step e).registry →
      Accounted { b with system := b.system.step e } := fun e hkept =>
    { owned := (stepped h.owned e).owned
      metered := hkept.metered
      valid := hkept.capacity.trans_le h.valid
      funds := fun t r hr => h.funds t r (hkept.live t r hr) }
  have hkept : ∀ creation, b.creations ticket = some creation →
      Kept b.system.registry (b.system.step (.publishCreation ticket
        (creation.charge host))).registry ∧
      Kept b.system.registry (b.system.step (.publishUnkeyed ticket
        (creation.charge host))).registry := by
    intro creation hcreation
    simp only [System.step,System.act]
    cases hr : b.system.registry.reservations.lookup ticket with
    | none => exact ⟨.refl h.metered,.refl h.metered⟩
    | some r =>
      obtain ⟨found,hfound,hamount⟩ := h.funds ticket r hr
      rw [hcreation] at hfound
      cases hfound
      have hcharge : creation.charge host ≤ r.newMetadataBytes.getD 0 := by
        rw [hamount,Option.getD_some,h.charge_eq hr hamount]
      obtain ⟨t,hconsume,-,-⟩ := h.owned.consistent.consumed hr
      obtain ⟨hid,hpublished⟩ := kept_published h.owned h.metered hr hcharge hconsume
      obtain ⟨newRunId,operationKey,metadata,candidates⟩ := r
      cases operationKey with
      | none =>
        refine ⟨.refl h.metered,?_⟩
        simp only
        split
        · rw [publishUnkeyed_eq rfl hconsume hid]
          exact hpublished
        · exact .refl h.metered
      | some key =>
        refine ⟨?_,.refl h.metered⟩
        simp only
        split
        · rw [publishCreation_eq h.owned.consistent hr rfl hconsume]
          exact hpublished
        · exact .refl h.metered
  unfold Budgeted.publish
  cases hcreation : b.creations ticket with
  | none => exact ⟨h,rfl⟩
  | some creation =>
    obtain ⟨hkeyed,hunkeyed⟩ := hkept creation hcreation
    simp only
    split
    · exact ⟨hstepped _ hkeyed,hkeyed.capacity⟩
    · exact ⟨hstepped _ hunkeyed,hunkeyed.capacity⟩

theorem step_reserve_registry (s : System) (view : View) (conditions : ReserveConditions)
    (newRunId : RunId) (operationKey : Option CreateOperationKey) (new : ℕ) :
    (s.step (.reserve view conditions newRunId operationKey new)).registry =
      if s.MayReserve newRunId operationKey then
        (reservePublication s.registry (s.pinned view) conditions newRunId operationKey
          (some new)).1
      else s.registry := by
  simp only [System.step,System.act]
  split
  · cases hout : (reservePublication s.registry (s.pinned view) conditions newRunId operationKey
      (some new)).2 with
    | done ticket => simp only
    | refused error => simp only
    | panicked message => simp only
  · rfl

/-- What reserving does to the account: nothing, or one more funded reservation. -/
theorem metered_reserve (h : Owned s) (hm : Metered s.registry)
    (hcapacity : s.registry.metadataCapacity ≤ i64Max) (view : View)
    (conditions : ReserveConditions) (newRunId : RunId)
    (operationKey : Option CreateOperationKey) (new : ℕ) :
    Metered (s.step (.reserve view conditions newRunId operationKey new)).registry ∧
    (s.step (.reserve view conditions newRunId operationKey new)).registry.metadataCapacity =
      s.registry.metadataCapacity ∧
    ∀ t r, (s.step (.reserve view conditions newRunId operationKey new)).registry.reservations.lookup
      t = some r → s.registry.reservations.lookup t = some r ∨
        (t = s.registry.nextTicket+1 ∧ r.newMetadataBytes = some new) := by
  rw [step_reserve_registry]
  split
  · rename_i hmay
    obtain ⟨hid,hids,hkeys⟩ := hmay
    have hscalars := reservePublication_scalars s.registry (s.pinned view) conditions newRunId
      operationKey (some new)
    rcases reservePublication_cases h.consistent (s.pinned view) conditions new hid hids
      hkeys with
      ⟨error,hout⟩ | ⟨hmax,hout⟩ | ⟨candidates,registry,hreserved,hout⟩ | ⟨registry,error,hrestored,hout⟩
    · rw [hout]
      exact ⟨hm,rfl,fun _ _ hr => .inl hr⟩
    · rw [hout]
      exact ⟨hm,rfl,fun _ _ hr => .inl hr⟩
    · obtain ⟨chosen,hresult,hlookup⟩ := reservePublication_done hout
      rw [hreserved.reservations,AList.lookup_insert] at hlookup
      cases hlookup
      have hmoved := hreserved.moved.sameCharges
      have hsame : SameCharges s.registry registry := ⟨hmoved.entries,hmoved.retained,hmoved.capacity⟩
      have hfits := hm.fits hcapacity
        (r := ⟨newRunId,operationKey,some new,candidates⟩) rfl hreserved.selected.nodup
        (funded_of_result hresult)
      rw [hout]
      refine ⟨hm.reserved h.consistent.fenced.unissued hsame hreserved.reservations hfits,
        hsame.capacity,fun t r hr => ?_⟩
      have hr' : registry.reservations.lookup t = some r := hr
      rw [hreserved.reservations] at hr'
      rcases lookup_insert_eq_some.mp hr' with ⟨rfl,rfl⟩ | ⟨-,hlive⟩
      · exact .inr ⟨rfl,rfl⟩
      · exact .inl hlive
    · rw [hout] at hscalars ⊢
      have hsame : SameCharges s.registry registry :=
        ⟨fun id => by rw [hrestored.lookup id],hscalars.1,hscalars.2⟩
      refine ⟨hm.same hsame hrestored.reservations,hscalars.2,fun t r hr => .inl ?_⟩
      rw [← hrestored.reservations]
      exact hr
  · exact ⟨hm,rfl,fun _ _ hr => .inl hr⟩

/-- The amount of a reservation is funded beside all others. -/
theorem Accounted.reserve (h : Accounted b) (view : View) (conditions : ReserveConditions)
    (newRunId : RunId) (operationKey : CreateOperationKey) (creation : Funding) :
    Accounted (b.reserve view conditions newRunId operationKey creation) ∧
      (b.reserve view conditions newRunId operationKey creation).system.registry.metadataCapacity =
        b.system.registry.metadataCapacity := by
  have hnone := h.owned.consistent.fenced.unissued
  obtain ⟨hmetered,hcapacity,hlive⟩ := metered_reserve h.owned h.metered h.valid view conditions
    newRunId (if creation.keyed then some operationKey else none) (creation.reserved host)
  refine ⟨⟨(stepped h.owned _).owned,hmetered,hcapacity.trans_le h.valid,fun t r hr => ?_⟩,hcapacity⟩
  rcases hlive t r hr with hold | ⟨rfl,hamount⟩
  · have hne : t ≠ b.system.registry.nextTicket+1 := fun heq => by
      rw [heq,hnone] at hold
      cases hold
    obtain ⟨found,hfound,hamount⟩ := h.funds t r hold
    exact ⟨found,(Function.update_of_ne hne _ _).trans hfound,hamount⟩
  · exact ⟨creation,Function.update_self _ _ _,hamount⟩

theorem Accounted.step (h : Accounted b) (event : BudgetEvent host) :
    Accounted (b.step event) ∧
      (b.step event).system.registry.metadataCapacity = b.system.registry.metadataCapacity := by
  cases event with
  | reserve view conditions newRunId operationKey creation =>
    exact h.reserve view conditions newRunId operationKey creation
  | publish ticket => exact h.publish ticket
  | other event =>
    simp only [Budgeted.step]
    split
    · exact ⟨h,rfl⟩
    · rename_i hfunds
      have hkept := kept_other h.owned h.metered (Bool.not_eq_true _ ▸ hfunds)
      exact
        ⟨{ owned := (stepped h.owned event).owned
           metered := hkept.metered
           valid := hkept.capacity.trans_le h.valid
           funds := fun t r hr => h.funds t r (hkept.live t r hr) },hkept.capacity⟩

theorem recoverRun_charged {r : RecoveredRun}
    (h : s.registry.retainedMetadataBytes = s.registry.chargedMetadataBytes)
    (hid : s.registry.runs.lookup r.id = none) :
    (recoverRun s r).registry.retainedMetadataBytes =
      (recoverRun s r).registry.chargedMetadataBytes ∧
    (recoverRun s r).registry.retainedMetadataBytes =
      s.registry.retainedMetadataBytes+r.charge ∧
    (recoverRun s r).registry.metadataCapacity = s.registry.metadataCapacity := by
  have hinsert := fun entry => total_insert_new (·.metadataCharge) hid entry
  unfold recoverRun
  cases hstop : r.stop with
  | none =>
    have htotal := hinsert ⟨some r.key,none,true,r.charge,.retained⟩
    refine ⟨?_,rfl,rfl⟩
    simp only [RegistryState.chargedMetadataBytes] at h htotal ⊢
    omega
  | some stop =>
    obtain ⟨key,memory,result⟩ := stop
    have htotal := hinsert ⟨some r.key,some ⟨key,s.nextCell,memory⟩,true,r.charge,.retained⟩
    refine ⟨?_,rfl,rfl⟩
    simp only [RegistryState.chargedMetadataBytes] at h htotal ⊢
    omega

theorem lookup_recoverRun {r : RecoveredRun} {id : RunId} (h : id ≠ r.id) :
    (recoverRun s r).registry.runs.lookup id = s.registry.runs.lookup id := by
  unfold recoverRun
  split
  · exact AList.lookup_insert_ne h
  · exact AList.lookup_insert_ne h

/-- Induction on the recovered Runs, whose ids are all new. -/
theorem foldl_recoverRun_charged {rest : List RecoveredRun}
    (h : s.registry.retainedMetadataBytes = s.registry.chargedMetadataBytes)
    (hids : (rest.map (·.id)).Nodup) (hnew : ∀ r ∈ rest, s.registry.runs.lookup r.id = none) :
    (rest.foldl recoverRun s).registry.retainedMetadataBytes =
      (rest.foldl recoverRun s).registry.chargedMetadataBytes ∧
    (rest.foldl recoverRun s).registry.retainedMetadataBytes =
      s.registry.retainedMetadataBytes+(rest.map (·.charge)).sum ∧
    (rest.foldl recoverRun s).registry.metadataCapacity = s.registry.metadataCapacity := by
  induction rest generalizing s with
  | nil => exact ⟨h,by simp,rfl⟩
  | cons r rest ih =>
    obtain ⟨hid,hids⟩ := List.nodup_cons.mp hids
    obtain ⟨hcharged,hretained,hcapacity⟩ := recoverRun_charged h (hnew r (by simp))
    obtain ⟨hcharged',hretained',hcapacity'⟩ := ih hcharged hids fun r' hr' => by
      have hne : r'.id ≠ r.id := fun heq => hid (List.mem_map.mpr ⟨r',hr',heq⟩)
      rw [lookup_recoverRun hne]
      exact hnew r' (by simp [hr'])
    rw [List.foldl_cons]
    refine ⟨hcharged',?_,hcapacity'.trans hcapacity⟩
    rw [hretained',hretained,List.map_cons,List.sum_cons]
    omega

theorem accounted_recovered (host : Host) (start : BudgetStart) :
    Accounted (Budgeted.recovered host start) ∧
      (Budgeted.recovered host start).system.registry.metadataCapacity =
        start.limits.metadataCapacity := by
  have hrecovering := recovered_recovering start.limits start.runs
  obtain ⟨hcharged,hretained,hcapacity⟩ := foldl_recoverRun_charged
    (s := System.empty start.limits) rfl start.runs.ids fun r _ => by simp [System.empty]
  have hnone : (System.recovered start.limits start.runs).registry.reservations = ∅ :=
    hrecovering.unreserved
  have hwithin := start.within
  refine ⟨⟨hrecovering.owned,⟨hcharged,?_⟩,hcapacity.trans_le start.valid,fun t r hr => ?_⟩,
    hcapacity⟩
  · show (System.recovered start.limits start.runs).registry.retainedMetadataBytes+
      total _ (System.recovered start.limits start.runs).registry.reservations ≤ _
    rw [hnone,total_empty]
    have hcapacity' : (System.recovered start.limits start.runs).registry.metadataCapacity =
        start.limits.metadataCapacity := hcapacity
    have hretained' : (System.recovered start.limits start.runs).registry.retainedMetadataBytes =
        0+(start.runs.runs.map (·.charge)).sum := hretained
    show _ ≤ (System.recovered start.limits start.runs).registry.metadataCapacity
    omega
  · have hlive : (System.recovered start.limits start.runs).registry.reservations.lookup t =
        some r := hr
    rw [hnone] at hlive
    cases hlive

/-- What the metadata budget promises of a state. -/
structure MetadataBudget (capacity : ℕ) (b : Budgeted host) : Prop where
  charged : b.system.registry.retainedMetadataBytes =
    total (·.metadataCharge) b.system.registry.runs
  unsaturated : ∀ id entry, b.system.registry.runs.lookup id = some entry →
    entry.metadataCharge ≤ b.system.registry.retainedMetadataBytes
  funded : b.system.registry.retainedMetadataBytes+
    b.system.registry.outstandingMetadataBytes ≤ capacity
  charges : ∀ t r, b.system.registry.reservations.lookup t = some r → ∃ creation new,
    b.creations t = some creation ∧ r.newMetadataBytes = some new ∧
      creation.charge host ≤ new
  published : ∀ tickets : List PublicationTicket,
    (run Budgeted.step b (tickets.map .publish)).system.registry.retainedMetadataBytes ≤ capacity

theorem run_accounted {capacity : ℕ} (events : List (BudgetEvent host)) {b : Budgeted host}
    (h : Accounted b ∧ b.system.registry.metadataCapacity = capacity) :
    Accounted (run Budgeted.step b events) ∧
      (run Budgeted.step b events).system.registry.metadataCapacity = capacity :=
  run_invariant (I := fun b => Accounted b ∧ b.system.registry.metadataCapacity = capacity)
    (fun _ event h => ⟨(h.1.step event).1,(h.1.step event).2.trans h.2⟩) h events

/-- In every state that the events reach the retained total is the sum of the charges, and
with what the live reservations add it is within the capacity, so that publishing any of
them in any order stays there. -/
theorem metadata_budget_respected (host : Host) (start : BudgetStart)
    (events : List (BudgetEvent host)) :
    MetadataBudget start.limits.metadataCapacity
      (run Budgeted.step (Budgeted.recovered host start) events) := by
  obtain ⟨h,hcapacity⟩ := run_accounted events (accounted_recovered host start)
  have hfunded := h.metered.funded
  rw [hcapacity] at hfunded
  exact
    { charged := h.metered.charged
      unsaturated := fun id entry hentry => by
        rw [h.metered.charged]
        exact le_total (·.metadataCharge) hentry
      funded := hfunded
      charges := fun t r hr => by
        obtain ⟨creation,hcreation,hamount⟩ := h.funds t r hr
        exact ⟨creation,_,hcreation,hamount,(h.charge_eq hr hamount).le⟩
      published := fun tickets => by
        obtain ⟨hafter,hcapacity'⟩ := run_accounted (tickets.map .publish) ⟨h,hcapacity⟩
        have hwithin := hafter.metered.funded
        rw [hcapacity'] at hwithin
        exact (Nat.le_add_right _ _).trans hwithin }

/-- A host whose allocations are as long as what they hold. -/
def exactHost : Host := ⟨id,id,24,48,8,512,256⟩

def smallStart : BudgetStart where
  limits := ⟨4,4,2000,100⟩
  runs := ⟨[⟨⟨"recovered"⟩,"first",300,none⟩],by decide,by decide,by decide,by simp⟩
  valid := by decide
  within := by decide

def shellSpec : RunSpec := ⟨⟨"sh",16⟩,[],0,none,[],[],0⟩

/-- A persistent creation is funded, and one that asks for more than the address space has
is refused. -/
def fundedEvents : List (BudgetEvent exactHost) :=
  [.reserve (fun _ => ⟨true,1,none,.ok (),.ok ()⟩) ⟨0,0,none⟩ ⟨"created"⟩ "second"
      (.persistent shellSpec ⟨36,8,40,none,7,36⟩),
    .reserve (fun _ => ⟨true,1,none,.ok (),.ok ()⟩) ⟨0,0,none⟩ ⟨"refused"⟩ "third"
      (.persistent shellSpec ⟨2^64,8,40,none,7,36⟩),
    .publish 1]

theorem metadata_budget_respected_small :
    MetadataBudget 2000 (run Budgeted.step (Budgeted.recovered exactHost smallStart) fundedEvents) ∧
      (run Budgeted.step (Budgeted.recovered exactHost smallStart)
        fundedEvents).system.registry.retainedMetadataBytes = 806 :=
  ⟨metadata_budget_respected exactHost smallStart fundedEvents,by decide⟩

end Registry
end Ctxmux
