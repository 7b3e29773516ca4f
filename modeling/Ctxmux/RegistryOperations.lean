import Ctxmux.RegistryConsistent

/-!
# What each operation of the registry can do

One lemma for each operation says every way in which it can end in a consistent
registry, with the state it leaves. The events of the callers are then cases of these.
-/

namespace Ctxmux
namespace Registry

open Durable (RunId)
open InverseIndex

variable {s s' t : RegistryState} {id : RunId} {ticket : PublicationTicket}
  {r : RegistryReservation} {entry : RegistryEntry}

/-- A table read off the entries after one entry was written. -/
theorem insert_keys {α : Type} (f : RegistryEntry → Option α) (runs : Runs) (id : RunId)
    (entry : RegistryEntry) :
    (fun other => ((runs.insert id entry).lookup other).bind f) =
      Function.update (fun other => (runs.lookup other).bind f) id (f entry) := by
  funext other
  by_cases heq : other = id
  · subst heq
    simp
  · rw [Function.update_of_ne heq,AList.lookup_insert_ne heq]

theorem insert_residency (runs : Runs) (id : RunId) (entry : RegistryEntry) :
    (fun other => ((runs.insert id entry).lookup other).map (·.residency)) =
      Function.update (fun other => (runs.lookup other).map (·.residency)) id
        (some entry.residency) := by
  funext other
  by_cases heq : other = id
  · subst heq
    simp
  · rw [Function.update_of_ne heq,AList.lookup_insert_ne heq]

theorem insert_accounted {runs : Runs}
    (h : ∀ id entry, runs.lookup id = some entry → entry.metadataBytes = true)
    (hentry : entry.metadataBytes = true) :
    ∀ other entry', (runs.insert id entry).lookup other = some entry' →
      entry'.metadataBytes = true := by
  intro other entry' hlookup
  by_cases heq : other = id
  · subst heq
    rw [AList.lookup_insert] at hlookup
    rwa [← Option.some.inj hlookup]
  · rw [AList.lookup_insert_ne heq] at hlookup
    exact h other entry' hlookup

/-- The registry after a new entry arrived with its key. -/
def RegistryState.with (s : RegistryState) (id : RunId) (key : Option CreateOperationKey)
    (charge : ℕ) : RegistryState :=
  { s with
    retainedMetadataBytes := s.retainedMetadataBytes+charge
    runs := s.runs.insert id ⟨key,none,true,charge,.retained⟩
    creationRuns := key.elim s.creationRuns fun key => s.creationRuns.insert key id }

theorem Consistent.arrived (h : Consistent s) (hid : s.runs.lookup id = none)
    {key : Option CreateOperationKey} (hfree : ∀ k ∈ key, s.FreeKey k)
    (hids : ∀ t r, s.reservations.lookup t = some r → r.newRunId ≠ id)
    (hkeys : ∀ t r, s.reservations.lookup t = some r → ∀ k ∈ key, r.operationKey ≠ some k)
    (charge : ℕ) : Consistent (s.with id key charge) := by
  have hcreation : s.creationKey id = none := by simp [RegistryState.creationKey,hid]
  have hstop : s.stopKey id = none := by simp [RegistryState.stopKey,hid]
  refine ⟨⟨?_,?_⟩,?_,insert_accounted h.accounted rfl⟩
  · show Inverse _ fun other => ((s.runs.insert id _).lookup other).bind _
    rw [insert_keys]
    cases key with
    | none => exact h.keyed.creation.forget hcreation
    | some k => exact h.keyed.creation.insert hcreation (hfree k rfl)
  · show Inverse _ fun other => ((s.runs.insert id _).lookup other).bind _
    rw [insert_keys]
    exact h.keyed.stop.forget hstop
  · show Fenced (fun other => ((s.runs.insert id _).lookup other).map _) _ _ _
    rw [insert_residency]
    have hnone : ∀ t, s.residency id ≠ some (.collecting t) := by
      rw [residency_eq_none.mpr hid]
      simp
    have hretained : ∀ t, some RegistryResidency.retained ≠ some (.collecting t) := by simp
    refine (h.fenced.set hnone hretained fun _ => hids).keys fun t r hr k hk hold => ?_
    cases key with
    | none => exact hold
    | some k' =>
      have hne : k ≠ k' := fun heq => hkeys t r hr k' rfl (heq ▸ hk)
      show (s.creationRuns.insert k' id).lookup k = none
      rw [AList.lookup_insert_ne hne]
      exact hold

/-- The registry after a Run's Stop record was written. -/
def RegistryState.stopped (s : RegistryState) (id : RunId) (entry : RegistryEntry)
    (stop : Option StopOperationRecord) (stopRuns : AList fun _ : StopOperationKey => RunId)
    (stopBytes : ℕ) : RegistryState :=
  { s with
    runs := s.runs.insert id { entry with stopOperation := stop }
    stopRuns := stopRuns
    stopBytes := stopBytes }

/-- Writing a Stop record keeps everything but the Stop key of its Run. -/
theorem Consistent.stopped (h : Consistent s) (hentry : s.runs.lookup id = some entry)
    {stop : Option StopOperationRecord} {stopRuns : AList fun _ : StopOperationKey => RunId}
    (hstop : Inverse stopRuns (Function.update s.stopKey id (stop.map (·.key)))) (bytes : ℕ) :
    Consistent (s.stopped id entry stop stopRuns bytes) := by
  refine ⟨⟨?_,?_⟩,?_,insert_accounted h.accounted (h.accounted id entry hentry)⟩
  · show Inverse _ fun other => ((s.runs.insert id _).lookup other).bind _
    rw [insert_keys]
    have hsame : Function.update s.creationKey id entry.operationKey = s.creationKey := by
      rw [← creationKey_of hentry,Function.update_eq_self]
    exact hsame.symm ▸ h.keyed.creation
  · show Inverse _ fun other => ((s.runs.insert id _).lookup other).bind _
    rw [insert_keys]
    exact hstop
  · show Fenced (fun other => ((s.runs.insert id _).lookup other).map _) _ _ _
    rw [insert_residency]
    have hsame : Function.update s.residency id (some entry.residency) = s.residency := by
      rw [← residency_of hentry,Function.update_eq_self]
    exact hsame.symm ▸ h.fenced

/-- What a publication did. -/
structure Published (r : RegistryReservation) (ticket : PublicationTicket) (s s' : RegistryState) :
    Prop where
  consistent : Consistent s'
  arrived : ∃ charge, s'.runs.lookup r.newRunId =
    some ⟨r.operationKey,none,true,charge,.retained⟩
  others : ∀ id, id ≠ r.newRunId → s'.runs.lookup id =
    if id ∈ r.candidates then none else s.runs.lookup id
  reservations : s'.reservations = s.reservations.erase ticket
  size : s'.runs.keys.length+r.candidates.length = s.runs.keys.length+1
  recordCapacity : s'.recordCapacity = s.recordCapacity

theorem length_keys_insert_new {β : RunId → Type} {m : AList β} {new : β id}
    (h : m.lookup id = none) : (m.insert id new).keys.length = m.keys.length+1 := by
  have hmem : id ∉ m.keys := AList.lookup_eq_none.mp h
  rw [AList.keys_insert,List.length_cons,List.erase_of_not_mem hmem]

/-- The entry of a published reservation takes its place. -/
theorem Consistent.published (h : Consistent s) (hr : s.reservations.lookup ticket = some r)
    (ht : Consistent t)
    (hremoved : Removed r.candidates { s with reservations := s.reservations.erase ticket } t)
    (charge : ℕ) : t.runs.lookup r.newRunId = none ∧
      Published r ticket s (t.with r.newRunId r.operationKey charge) := by
  have hid : t.runs.lookup r.newRunId = none := by
    rw [hremoved.lookup]
    split
    · rfl
    · exact residency_eq_none.mp (h.fenced.fresh ticket r hr)
  have hother : ∀ t' r', t.reservations.lookup t' = some r' →
      t' ≠ ticket ∧ s.reservations.lookup t' = some r' := fun t' r' ht' => by
    rw [hremoved.reservations] at ht'
    exact lookup_erase_eq_some.mp ht'
  refine ⟨hid,?_,⟨charge,AList.lookup_insert _⟩,fun id hne => ?_,hremoved.reservations,?_,
    hremoved.recordCapacity⟩
  · refine ht.arrived hid (fun k hk => ?_) (fun t' r' ht' heq => ?_) (fun t' r' ht' k hk heq => ?_)
      charge
    · exact hremoved.freeKey ⟨h.keyed.creation,h.keyed.stop⟩ (h.fenced.free ticket r hr k hk)
    · obtain ⟨hne,hr'⟩ := hother t' r' ht'
      exact hne (h.fenced.newIds t' r' ticket r hr' hr heq)
    · obtain ⟨hne,hr'⟩ := hother t' r' ht'
      exact hne (h.fenced.newKeys ticket r t' r' hr hr' k hk heq).symm
  · show (t.runs.insert r.newRunId _).lookup id = _
    rw [AList.lookup_insert_ne hne,hremoved.lookup]
  · have hsize := hremoved.size
    show (t.runs.insert r.newRunId _).keys.length+_ = _
    rw [length_keys_insert_new hid]
    simp only at hsize
    omega

/-- A publication is the consumption of its reservation and the arrival of the entry. -/
theorem publishCreation_eq (h : Consistent s) {key : CreateOperationKey}
    (hr : s.reservations.lookup ticket = some r) (hkey : r.operationKey = some key)
    (hconsume : consumeReservation s ticket r.newRunId r.operationKey = .ok (t,r.operationKey))
    (charge : ℕ) : publishCreation s ticket r.newRunId key charge =
      .ok (t.with r.newRunId r.operationKey charge) := by
  have hfree : s.creationRuns.lookup key = none := h.fenced.free ticket r hr key hkey
  have hfresh : s.runs.lookup r.newRunId = none :=
    residency_eq_none.mp (h.fenced.fresh ticket r hr)
  rw [hkey] at hconsume
  rw [publishCreation,ok_then (panicUnless_of hfree _),ok_then (panicUnless_of hfresh _),
    ok_then hconsume,hkey]
  rfl

theorem publishCreation_ok (h : Consistent s) {key : CreateOperationKey}
    (hr : s.reservations.lookup ticket = some r) (hkey : r.operationKey = some key) (charge : ℕ) :
    ∃ s', publishCreation s ticket r.newRunId key charge = .ok s' ∧ Published r ticket s s' := by
  obtain ⟨t,hconsume,hremoved,ht⟩ := h.consumed hr
  obtain ⟨hid,hpublished⟩ := h.published hr ht hremoved charge
  exact ⟨_,publishCreation_eq h hr hkey hconsume charge,hpublished⟩

theorem publishUnkeyed_eq (hkey : r.operationKey = none)
    (hconsume : consumeReservation s ticket r.newRunId r.operationKey = .ok (t,r.operationKey))
    (hid : t.runs.lookup r.newRunId = none) (charge : ℕ) :
    publishUnkeyed s ticket r.newRunId charge = .ok (t.with r.newRunId r.operationKey charge) := by
  rw [hkey] at hconsume
  rw [publishUnkeyed,ok_then hconsume,hkey]
  simp only [panicUnless,hid]
  rfl

theorem publishUnkeyed_ok (h : Consistent s) (hr : s.reservations.lookup ticket = some r)
    (hkey : r.operationKey = none) (charge : ℕ) :
    ∃ s', publishUnkeyed s ticket r.newRunId charge = .ok s' ∧ Published r ticket s s' := by
  obtain ⟨t,hconsume,hremoved,ht⟩ := h.consumed hr
  obtain ⟨hid,hpublished⟩ := h.published hr ht hremoved charge
  exact ⟨_,publishUnkeyed_eq hkey hconsume hid charge,hpublished⟩

/-- What a reservation did: its candidates are fenced under the new ticket. -/
structure Reserved (r : RegistryReservation) (view : View) (s s' : RegistryState) : Prop where
  selected : Selected s view r.newMetadataBytes r.candidates
  moved : Moved r.candidates (.collecting (s.nextTicket+1))
    { s with nextTicket := s.nextTicket+1 } { s' with reservations := s.reservations }
  consistent : Consistent s'
  reservations : s'.reservations = s.reservations.insert (s.nextTicket+1) r

/-- A reservation that was restored leaves every entry as it was. -/
structure Restored (s s' : RegistryState) : Prop where
  consistent : Consistent s'
  lookup : ∀ id, s'.runs.lookup id = s.runs.lookup id
  reservations : s'.reservations = s.reservations
  size : s'.runs.keys.length = s.runs.keys.length
  recordCapacity : s'.recordCapacity = s.recordCapacity

theorem erase_insert_of_unissued (h : s.reservations.lookup ticket = none) :
    (s.reservations.insert ticket r).erase ticket = s.reservations := by
  have hmem : ticket ∉ s.reservations.keys := AList.lookup_eq_none.mp h
  refine AList.ext ?_
  show List.kerase ticket (List.kinsert ticket r s.reservations.entries) = s.reservations.entries
  rw [List.kinsert_def,List.kerase_of_notMem_keys hmem]
  exact List.kerase_cons_eq rfl

theorem Reserved.restored {view : View} (h : Consistent s) (hreserved : Reserved r view s s')
    (ht : Moved r.candidates .retained
      { s' with reservations := s'.reservations.erase (s.nextTicket+1) } t)
    (hconsistent : Consistent t) : Restored s t := by
  have hsame := hreserved.moved.same
  have htsame := ht.same
  refine ⟨hconsistent,fun id => ?_,?_,?_,?_⟩
  · rw [ht.lookup id]
    have hfence := hreserved.moved.lookup id
    simp only at hfence ⊢
    rw [hfence]
    by_cases hin : id ∈ r.candidates
    · obtain ⟨entry,hentry,hretained,-⟩ := (hreserved.selected.collectable id hin).retained
      rw [if_pos hin,if_pos hin,hentry]
      simp [← hretained]
    · rw [if_neg hin,if_neg hin]
  · rw [htsame]
    show s'.reservations.erase (s.nextTicket+1) = _
    rw [hreserved.reservations,erase_insert_of_unissued h.fenced.unissued]
  · rw [ht.size]
    exact hreserved.moved.size
  · rw [htsame]
    have hcapacity := congrArg (·.recordCapacity) hsame
    exact hcapacity

theorem reservePublication_cases (h : Consistent s) (view : View) (conditions : ReserveConditions)
    {newRunId : RunId} {operationKey : Option CreateOperationKey} (newMetadataBytes : ℕ)
    (hid : s.runs.lookup newRunId = none)
    (hids : ∀ r ∈ s.reservations.entries, r.2.newRunId ≠ newRunId)
    (hkeys : ∀ key ∈ operationKey, s.FreeKey key ∧
      ∀ r ∈ s.reservations.entries, r.2.operationKey ≠ some key) :
    (∃ error, reservePublication s view conditions newRunId operationKey (some newMetadataBytes) =
      (s,.refused error)) ∨
    (u64Max ≤ s.nextTicket ∧ reservePublication s view conditions newRunId operationKey
      (some newMetadataBytes) = (s,.panicked "Registry publication ticket does not overflow")) ∨
    (∃ candidates s', Reserved ⟨newRunId,operationKey,some newMetadataBytes,candidates⟩ view s s' ∧
      reservePublication s view conditions newRunId operationKey (some newMetadataBytes) =
        (s',.done (s.nextTicket+1))) ∨
    (∃ s' error, Restored s s' ∧ reservePublication s view conditions newRunId operationKey
      (some newMetadataBytes) = (s',.refused error)) := by
  have hbound : ¬∃ key ∈ operationKey, s.creationRuns.lookup key ≠ none := by
    rintro ⟨key,hmem,hne⟩
    exact hne (hkeys key hmem).1
  have hmem : ∀ t r, s.reservations.lookup t = some r →
      (⟨t,r⟩ : Sigma _) ∈ s.reservations.entries := fun t r ht => AList.mem_lookup_iff.mp ht
  simp only [reservePublication,if_neg (not_not_intro hid),if_neg hbound]
  split
  · exact .inl ⟨_,rfl⟩
  · cases hresult : (s.selectPublicationCandidates view (some newMetadataBytes)).result with
    | error error => exact .inl ⟨error,rfl⟩
    | ok candidates =>
      cases conditions.allocation with
      | some error => exact .inl ⟨error,rfl⟩
      | none =>
        have hselected := selected_of_result hresult
        have hretained : ∀ id ∈ candidates, ∃ entry, s.runs.lookup id = some entry ∧
            entry.residency = .retained := fun id hin => by
          obtain ⟨entry,hentry,hres,-⟩ := (hselected.collectable id hin).retained
          exact ⟨entry,hentry,hres⟩
        simp only
        split
        · rename_i hmax
          exact .inr (.inl ⟨hmax,rfl⟩)
        · obtain ⟨fenced,hfold,hmoved⟩ := foldlM_moveResidency
            (s := { s with nextTicket := s.nextTicket+1 })
            "selected collection candidate remains retained" "candidate is Retained"
            (.collecting (s.nextTicket+1)) hselected.nodup hretained
          rw [show candidates.foldlM (fenceCandidate (s.nextTicket+1)) _ = _ from hfold]
          have hreservations : fenced.reservations = s.reservations := by rw [hmoved.same]
          have hreserved : Reserved ⟨newRunId,operationKey,some newMetadataBytes,candidates⟩ view s
              { fenced with
                reservations := fenced.reservations.insert (s.nextTicket+1)
                  ⟨newRunId,operationKey,some newMetadataBytes,candidates⟩ } := by
            refine ⟨hselected,?_,?_,by rw [hreservations]⟩
            · have hsame : ({ fenced with reservations := s.reservations } : RegistryState) = fenced := by
                rw [← hreservations]
              exact hsame.symm ▸ hmoved
            · exact h.reserved (r := ⟨newRunId,operationKey,some newMetadataBytes,candidates⟩)
                hselected.nodup (fun id hin => by
                  obtain ⟨entry,hentry,hres⟩ := hretained id hin
                  rw [residency_of hentry,hres]) hid (fun key hk => (hkeys key hk).1)
                (fun t r ht => hids _ (hmem t r ht))
                (fun t r ht key hk => (hkeys key hk).2 _ (hmem t r ht)) rfl hmoved
          cases detachAll view candidates with
          | ok _ => exact .inr (.inr (.inl ⟨candidates,_,hreserved,rfl⟩))
          | error error =>
            have hlive := AList.lookup_insert (a := s.nextTicket+1)
              (b := (⟨newRunId,operationKey,some newMetadataBytes,candidates⟩ : RegistryReservation))
              fenced.reservations
            obtain ⟨t,hrestore,ht,hconsistent⟩ := hreserved.consistent.restored hlive
            simp only [hrestore]
            exact .inr (.inr (.inr ⟨t,_,hreserved.restored h ht hconsistent,rfl⟩))

/-- The record that an owner admission writes. -/
def RegistryState.admitStop (s : RegistryState) (conditions : StopConditions) (id : RunId)
    (entry : RegistryEntry) (key : StopOperationKey) (cell : ℕ) : RegistryState :=
  s.stopped id entry (some ⟨key,cell,stopReceiptCharge conditions.sizes key⟩)
    (s.stopRuns.insert key id) (s.stopBytes+stopReceiptCharge conditions.sizes key)

theorem retryStop_cases (s : RegistryState) (id bound : RunId) (key : StopOperationKey) :
    (∃ error, retryStop s id bound key = .refused error) ∨
    ∃ entry record, bound = id ∧ s.runs.lookup id = some entry ∧ entry.residency = .retained ∧
      entry.stopOperation = some record ∧ record.key = key ∧
      retryStop s id bound key = .done (.retry record.cell) := by
  unfold retryStop
  split
  · exact .inl ⟨_,rfl⟩
  · rename_i hid
    cases hentry : s.runs.lookup id with
    | none => exact .inl ⟨_,rfl⟩
    | some entry =>
      simp only
      split
      · exact .inl ⟨_,rfl⟩
      · rename_i hretained
        cases hrecord : entry.stopOperation with
        | none => exact .inl ⟨_,rfl⟩
        | some record =>
          simp only
          split
          · exact .inl ⟨_,rfl⟩
          · rename_i hkey
            exact .inr ⟨entry,record,not_not.mp hid,rfl,not_not.mp hretained,hrecord,
              not_not.mp hkey,rfl⟩

theorem beginRecoverableStop_cases (s : RegistryState) (view : View) (conditions : StopConditions)
    (id : RunId) (key : StopOperationKey) (cell : ℕ) :
    (∃ error, beginRecoverableStop s view conditions id key cell = (s,.refused error)) ∨
    (∃ entry record, s.runs.lookup id = some entry ∧ entry.residency = .retained ∧
      entry.stopOperation = some record ∧ record.key = key ∧ s.stopRuns.lookup key = some id ∧
      beginRecoverableStop s view conditions id key cell = (s,.done (.retry record.cell))) ∨
    (∃ entry, s.runs.lookup id = some entry ∧ entry.residency = .retained ∧
      entry.stopOperation = none ∧ s.stopRuns.lookup key = none ∧ stopKeyError key = none ∧
      beginRecoverableStop s view conditions id key cell =
        (s.admitStop conditions id entry key cell,.done (.owner cell))) := by
  simp only [beginRecoverableStop]
  cases hvalid : stopKeyError key with
  | some error => exact .inl ⟨error,rfl⟩
  | none =>
    cases hbound : s.stopRuns.lookup key with
    | some bound =>
      rcases retryStop_cases s id bound key with
        ⟨error,herror⟩ | ⟨entry,record,rfl,hentry,hretained,hrecord,hkey,hretry⟩
      · exact .inl ⟨error,by simp only [herror]⟩
      · exact .inr (.inl ⟨entry,record,hentry,hretained,hrecord,hkey,rfl,by simp only [hretry]⟩)
    | none =>
      cases hentry : s.runs.lookup id with
      | none => exact .inl ⟨_,rfl⟩
      | some entry =>
        simp only
        split
        · exact .inl ⟨_,rfl⟩
        · rename_i hretained
          split
          · exact .inl ⟨_,rfl⟩
          · rename_i hrecord
            cases conditions.allocation with
            | some error => exact .inl ⟨_,rfl⟩
            | none =>
              simp only
              split
              · exact .inl ⟨_,rfl⟩
              · cases (view id).nativeControl with
                | error error => exact .inl ⟨_,rfl⟩
                | ok _ =>
                  exact .inr (.inr ⟨entry,rfl,not_not.mp hretained,by simpa using hrecord,trivial,trivial,
                    rfl⟩)

theorem Consistent.admitStop (h : Consistent s) (hentry : s.runs.lookup id = some entry)
    (hrecord : entry.stopOperation = none) {key : StopOperationKey}
    (hfree : s.stopRuns.lookup key = none) (conditions : StopConditions) (cell : ℕ) :
    Consistent (s.admitStop conditions id entry key cell) := by
  refine h.stopped hentry ?_ _
  exact h.keyed.stop.insert (by rw [stopKey_of hentry,hrecord]; rfl) hfree

/-- The registry after a settlement. -/
def RegistryState.settled (s : RegistryState) (id : RunId) (entry : RegistryEntry)
    (record : StopOperationRecord) (result : StopResult) : RegistryState :=
  if result.removes then
    s.stopped id entry none (s.stopRuns.erase record.key) (s.stopBytes-record.memory)
  else s

theorem settleRecoverableStop_eq (h : Consistent s) {settlement : StopSettlement}
    {record : StopOperationRecord} (hentry : s.runs.lookup settlement.id = some entry)
    (hrecord : entry.stopOperation = some record) (hkey : record.key = settlement.key)
    (hcell : record.cell = settlement.cell) (result : StopResult) :
    settleRecoverableStop s settlement result =
      .ok (s.settled settlement.id entry record result) := by
  have hbound : s.stopRuns.lookup settlement.key = some settlement.id := by
    rw [← hkey]
    exact h.keyed.stop.lookup (by rw [stopKey_of hentry,hrecord]; rfl)
  simp only [settleRecoverableStop,hentry,hrecord]
  rw [ok_then (panicUnless_of hkey _),ok_then (panicUnless_of hcell _),RegistryState.settled]
  split
  · rw [ok_then (panicUnless_of hbound _),hkey]
    rfl
  · rfl

theorem Consistent.settled (h : Consistent s) {record : StopOperationRecord}
    (hentry : s.runs.lookup id = some entry) (hrecord : entry.stopOperation = some record)
    (result : StopResult) : Consistent (s.settled id entry record result) := by
  unfold RegistryState.settled
  split
  · refine h.stopped hentry ?_ _
    exact h.keyed.stop.erase (by rw [stopKey_of hentry,hrecord]; rfl)
  · exact h

/-- An entry that the daemon may remove. -/
structure Removable (s : RegistryState) (view : View) (id : RunId) (entry : RegistryEntry) :
    Prop where
  lookup : s.runs.lookup id = some entry
  retained : entry.residency = .retained
  unowned : (view id).owners = 0

theorem validateRemovableEntry_cases (s : RegistryState) (view : View) (id : RunId) :
    (∃ error, validateRemovableEntry s view id = .error error) ∨
    ∃ entry, validateRemovableEntry s view id = .ok entry ∧ Removable s view id entry := by
  unfold validateRemovableEntry
  cases hentry : s.runs.lookup id with
  | none => exact .inl ⟨_,rfl⟩
  | some entry =>
    cases herror : removalError id entry (view id) with
    | some error =>
      simp only [herror]
      exact .inl ⟨error,rfl⟩
    | none =>
      simp only [herror]
      refine .inr ⟨entry,rfl,hentry,?_,?_⟩
      · by_contra hne
        simp [removalError,hne] at herror
      · by_contra hne
        unfold removalError at herror
        split at herror
        · cases herror
        · split at herror
          · cases herror
          · simp at herror

theorem removeMemory_cases (h : Consistent s) (view : View) (id : RunId) :
    (∃ error, removeMemory s view id = (s,.refused error)) ∨
    ∃ entry, Removable s view id entry ∧
      removeMemory s view id = (s.without id entry,.done ()) := by
  unfold removeMemory
  rcases validateRemovableEntry_cases s view id with ⟨error,herror⟩ | ⟨entry,hok,hremovable⟩
  · simp only [herror]
    exact .inl ⟨error,rfl⟩
  · simp only [hok]
    cases (view id).detach with
    | error error => exact .inl ⟨_,rfl⟩
    | ok _ =>
      simp only [removeRegistryEntry_eq h.keyed hremovable.lookup]
      exact .inr ⟨entry,hremovable,rfl⟩

theorem beginPersistentRemoval_cases (s : RegistryState) (view : View) (load : RunId → ℕ)
    (id : RunId) :
    (∃ error, beginPersistentRemoval s view load id = (s,.refused error)) ∨
    ∃ entry candidate, Removable s view id entry ∧ beginPersistentRemoval s view load id =
      (s.setResidency id entry .removing,.done candidate) := by
  unfold beginPersistentRemoval
  rcases validateRemovableEntry_cases s view id with ⟨error,herror⟩ | ⟨entry,hok,hremovable⟩
  · simp only [herror]
    exact .inl ⟨error,rfl⟩
  · simp only [hok]
    cases entry.operationKey with
    | none => exact .inl ⟨_,rfl⟩
    | some key =>
      by_cases hbytes : entry.metadataBytes = false
      · simp only [hbytes]
        exact .inl ⟨_,rfl⟩
      · cases (view id).detach with
        | error error =>
          simp only [hbytes]
          exact .inl ⟨_,rfl⟩
        | ok _ =>
          simp only [hbytes]
          exact .inr ⟨entry,_,hremovable,rfl⟩

theorem moved_setResidency (hentry : s.runs.lookup id = some entry) (new : RegistryResidency) :
    Moved [id] new s (s.setResidency id entry new) := by
  refine ⟨rfl,fun other => ?_,length_keys_insert hentry⟩
  show (s.runs.insert id _).lookup other = _
  by_cases heq : other = id
  · subst heq
    rw [AList.lookup_insert,if_pos (by simp),hentry]
    rfl
  · rw [AList.lookup_insert_ne heq,if_neg (by simpa using heq)]

end Registry
end Ctxmux
