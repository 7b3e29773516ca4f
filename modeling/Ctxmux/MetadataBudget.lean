import Ctxmux.RegistryReached
import Ctxmux.MapTotals

/-!
# The metadata account of the registry

The retained total is the sum of the charges of the entries, and together with what the
live reservations will add it stays within the capacity. Every change of the registry
either keeps all charges, removes some entries with theirs, or adds one entry that a
reservation has funded.
-/

namespace Ctxmux
namespace Registry

open Durable (RunId)
open MapTotals

variable {s s' : RegistryState} {id : RunId} {ticket : PublicationTicket} {r : RegistryReservation}
  {entry : RegistryEntry}

namespace RegistryState

def chargedMetadataBytes (s : RegistryState) : ℕ := total (·.metadataCharge) s.runs

/-- What the publication of a reservation adds beyond what its candidates free. -/
def addedBy (s : RegistryState) (r : RegistryReservation) : ℕ :=
  r.newMetadataBytes.elim 0 (· - (r.candidates.map s.metadataCharge).sum)

def outstandingMetadataBytes (s : RegistryState) : ℕ := total s.addedBy s.reservations

end RegistryState

/-- The account of a registry within its capacity. -/
structure Metered (s : RegistryState) : Prop where
  charged : s.retainedMetadataBytes = s.chargedMetadataBytes
  funded : s.retainedMetadataBytes+s.outstandingMetadataBytes ≤ s.metadataCapacity

theorem metadataCharge_of (h : s.runs.lookup id = some entry) :
    s.metadataCharge id = entry.metadataCharge := by
  simp [RegistryState.metadataCharge,h]

/-- Reservations add the same when the charges of their candidates stay. -/
theorem outstanding_congr {reservations : Reservations}
    (h : ∀ t r, reservations.lookup t = some r → ∀ id ∈ r.candidates,
      s'.metadataCharge id = s.metadataCharge id) :
    total s'.addedBy reservations = total s.addedBy reservations := by
  apply total_congr
  intro t
  cases hr : reservations.lookup t with
  | none => rfl
  | some r =>
    have hsum : r.candidates.map s'.metadataCharge = r.candidates.map s.metadataCharge :=
      List.map_congr_left (h t r hr)
    simp only [Option.map_some,RegistryState.addedBy,hsum]

/-- A change that keeps every charge and the scalars of the account. -/
structure SameCharges (s s' : RegistryState) : Prop where
  entries : ∀ id, (s'.runs.lookup id).map (·.metadataCharge) =
    (s.runs.lookup id).map (·.metadataCharge)
  retained : s'.retainedMetadataBytes = s.retainedMetadataBytes
  capacity : s'.metadataCapacity = s.metadataCapacity

theorem SameCharges.charge (h : SameCharges s s') : s'.metadataCharge = s.metadataCharge := by
  funext id
  have hid := congrArg (Option.elim · 0 fun charge => charge) (h.entries id)
  rw [Option.elim_map,Option.elim_map] at hid
  exact hid

theorem SameCharges.charged (h : SameCharges s s') :
    s'.chargedMetadataBytes = s.chargedMetadataBytes := total_congr h.entries

theorem SameCharges.outstanding (h : SameCharges s s') (reservations : Reservations) :
    total s'.addedBy reservations = total s.addedBy reservations :=
  outstanding_congr fun _ _ _ id _ => by rw [h.charge]

theorem Moved.sameCharges {ids : List RunId} {new : RegistryResidency} (h : Moved ids new s s') :
    SameCharges s s' where
  entries id := by
    rw [h.lookup id]
    split
    · rw [Option.map_map]
      rfl
    · rfl
  retained := by rw [h.same]
  capacity := by rw [h.same]

theorem sameCharges_stopped (hentry : s.runs.lookup id = some entry)
    (stop : Option StopOperationRecord) (stopRuns : AList fun _ : StopOperationKey => RunId)
    (stopBytes : ℕ) : SameCharges s (s.stopped id entry stop stopRuns stopBytes) where
  entries other := by
    show ((s.runs.insert id _).lookup other).map _ = _
    by_cases hother : other = id
    · subst hother
      rw [AList.lookup_insert,hentry]
      rfl
    · rw [AList.lookup_insert_ne hother]
  retained := rfl
  capacity := rfl

namespace Metered

/-- The account stays when every charge and every reservation does. -/
theorem same (h : Metered s) (hsame : SameCharges s s')
    (hreservations : s'.reservations = s.reservations) : Metered s' where
  charged := by rw [hsame.retained,hsame.charged,h.charged]
  funded := by
    have hfunded := h.funded
    rw [RegistryState.outstandingMetadataBytes,hreservations,hsame.outstanding,hsame.retained,
      hsame.capacity]
    exact hfunded

/-- A reservation that ends without a publication gives its share back. -/
theorem dropped (h : Metered s) (hr : s.reservations.lookup ticket = some r)
    (hsame : SameCharges s s') (hreservations : s'.reservations = s.reservations.erase ticket) :
    Metered s' where
  charged := by rw [hsame.retained,hsame.charged,h.charged]
  funded := by
    have hfunded := h.funded
    have herase := total_erase s.addedBy hr
    rw [RegistryState.outstandingMetadataBytes,hreservations,hsame.outstanding,hsame.retained,
      hsame.capacity]
    simp only [RegistryState.outstandingMetadataBytes] at hfunded
    omega

theorem reserved (h : Metered s) (hr : s.reservations.lookup ticket = none)
    (hsame : SameCharges s s') (hreservations : s'.reservations = s.reservations.insert ticket r)
    (hfits : s.retainedMetadataBytes+s.outstandingMetadataBytes+s.addedBy r ≤ s.metadataCapacity) :
    Metered s' where
  charged := by rw [hsame.retained,hsame.charged,h.charged]
  funded := by
    have hinsert := total_insert_new s.addedBy hr r
    rw [RegistryState.outstandingMetadataBytes,hreservations,hsame.outstanding,hsame.retained,
      hsame.capacity,hinsert]
    simp only [RegistryState.outstandingMetadataBytes] at hfits
    omega

end Metered

/-- Entries left with their charges; the account is exact. -/
structure Discharged (ids : List RunId) (s s' : RegistryState) : Prop where
  charged : s'.retainedMetadataBytes = s'.chargedMetadataBytes
  retained : s'.retainedMetadataBytes+(ids.map s.metadataCharge).sum = s.retainedMetadataBytes
  others : ∀ id, id ∉ ids → s'.runs.lookup id = s.runs.lookup id
  capacity : s'.metadataCapacity = s.metadataCapacity
  reservations : s'.reservations = s.reservations

theorem discharged_without (h : s.retainedMetadataBytes = s.chargedMetadataBytes)
    (hentry : s.runs.lookup id = some entry) : Discharged [id] s (s.without id entry) := by
  have herase := total_erase (·.metadataCharge) hentry
  have hcharge := metadataCharge_of hentry
  have htotal : total (·.metadataCharge) (s.runs.erase id)+entry.metadataCharge =
      s.retainedMetadataBytes := by rw [h]; exact herase
  exact
    { charged := by
        simp only [RegistryState.without,RegistryState.chargedMetadataBytes]
        omega
      retained := by
        simp only [RegistryState.without,List.map_cons,List.map_nil,List.sum_cons,List.sum_nil,
          hcharge]
        omega
      others := fun other hother => by
        have hne : other ≠ id := fun heq => hother (by simp [heq])
        exact AList.lookup_erase_ne hne
      capacity := rfl
      reservations := rfl }

/-- Induction on the candidates: what they are charged leaves with them. -/
theorem foldlM_discharged {ids : List RunId} (hk : Keyed s)
    (h : s.retainedMetadataBytes = s.chargedMetadataBytes) (hids : ids.Nodup)
    (hold : ∀ id ∈ ids, ∃ entry, s.runs.lookup id = some entry ∧
      entry.residency = .collecting ticket)
    (hfold : ids.foldlM (consumeCandidate ticket) s = .ok s') : Discharged ids s s' := by
  induction ids generalizing s with
  | nil =>
    cases hfold
    exact ⟨h,by simp,fun _ _ => rfl,rfl,rfl⟩
  | cons x xs ih =>
    obtain ⟨hnot,hxs⟩ := List.nodup_cons.mp hids
    obtain ⟨entry,hentry,hres⟩ := hold x (by simp)
    have hremoved := removed_without hk hentry
    have hfirst := discharged_without h hentry
    have hconsume : consumeCandidate ticket s x = .ok (s.without x entry) := by
      rw [consumeCandidate,ok_then (removeRegistryEntry_eq hk hentry)]
      simp only [panicUnless,hres]
      rfl
    rw [List.foldlM_cons,ok_then hconsume] at hfold
    have hlookup : ∀ id ∈ xs, (s.without x entry).runs.lookup id = s.runs.lookup id :=
      fun id hid => hfirst.others id fun hmem => hnot (List.mem_singleton.mp hmem ▸ hid)
    have hrest := ih hremoved.keyed hfirst.charged hxs (fun id hid => by
      rw [hlookup id hid]
      exact hold id (by simp [hid])) hfold
    have hsum : xs.map (s.without x entry).metadataCharge = xs.map s.metadataCharge :=
      List.map_congr_left fun id hid => by simp only [RegistryState.metadataCharge,hlookup id hid]
    have hretained := hrest.retained
    have hretained' := hfirst.retained
    rw [hsum] at hretained
    simp only [List.map_cons,List.map_nil,List.sum_cons,List.sum_nil] at hretained' ⊢
    exact
      { charged := hrest.charged
        retained := by simp only [List.map_cons,List.sum_cons]; omega
        others := fun id hid => by
          have hx : id ∉ [x] := fun hmem => hid (by simp [List.mem_singleton.mp hmem])
          have hxs' : id ∉ xs := fun hmem => hid (by simp [hmem])
          rw [hrest.others id hxs',hfirst.others id hx]
        capacity := hrest.capacity.trans hfirst.capacity
        reservations := hrest.reservations.trans hfirst.reservations }

namespace Metered

/-- An entry that no reservation fences leaves with its charge. -/
theorem removed (h : Metered s) (hs : Consistent s) (hentry : s.runs.lookup id = some entry)
    (hid : ∀ t, s.residency id ≠ some (.collecting t)) : Metered (s.without id entry) := by
  have hdischarged := discharged_without h.charged hentry
  have hsame : total (s.without id entry).addedBy s.reservations = total s.addedBy s.reservations := by
    apply outstanding_congr
    intro t r hr other hother
    have hne : other ∉ [id] := fun hmem => by
      rw [List.mem_singleton.mp hmem] at hother
      exact hid t ((hs.fenced.collecting id t).mpr ⟨r,hr,hother⟩)
    simp only [RegistryState.metadataCharge,hdischarged.others other hne]
  have hretained := hdischarged.retained
  have hfunded := h.funded
  refine ⟨hdischarged.charged,?_⟩
  simp only [RegistryState.outstandingMetadataBytes,hdischarged.reservations,hsame,
    hdischarged.capacity] at hfunded ⊢
  omega

/-- A publication charges no more than its reservation has funded. -/
theorem published (h : Metered s) (hs : Consistent s)
    (hr : s.reservations.lookup ticket = some r) {t : RegistryState}
    (hdischarged : Discharged r.candidates { s with reservations := s.reservations.erase ticket } t)
    (hid : t.runs.lookup r.newRunId = none) {charge : ℕ}
    (hcharge : charge ≤ r.newMetadataBytes.getD 0) :
    Metered (t.with r.newRunId r.operationKey charge) := by
  have hinsert := total_insert_new (·.metadataCharge) hid
    (⟨r.operationKey,none,true,charge,.retained⟩ : RegistryEntry)
  have hreservations : t.reservations = s.reservations.erase ticket := hdischarged.reservations
  have hsame : total (t.with r.newRunId r.operationKey charge).addedBy t.reservations =
      total s.addedBy t.reservations := by
    apply outstanding_congr
    intro t' r' hr' other hother
    rw [hreservations] at hr'
    obtain ⟨hne,hlive⟩ := lookup_erase_eq_some.mp hr'
    have hout : other ∉ r.candidates := fun hmem =>
      hne (hs.fenced.unique hr hlive hmem hother).symm
    obtain ⟨entry,hentry,-⟩ := hs.collecting hlive hother
    have hfresh : s.runs.lookup r.newRunId = none :=
      residency_eq_none.mp (hs.fenced.fresh ticket r hr)
    have hnew : other ≠ r.newRunId := fun heq => by
      rw [heq,hfresh] at hentry
      cases hentry
    have hkept := hdischarged.others other hout
    show ((t.runs.insert r.newRunId _).lookup other).elim 0 _ = _
    rw [AList.lookup_insert_ne hnew,hkept]
    rfl
  have herase := total_erase s.addedBy hr
  have hretained := hdischarged.retained
  have hfunded := h.funded
  have hcharged := hdischarged.charged
  have hcapacity : t.metadataCapacity = s.metadataCapacity := hdischarged.capacity
  have hadded : charge-(r.candidates.map s.metadataCharge).sum ≤ s.addedBy r := by
    unfold RegistryState.addedBy
    cases hnew : r.newMetadataBytes with
    | none =>
      rw [hnew,Option.getD_none] at hcharge
      simp only [Option.elim_none]
      omega
    | some new =>
      rw [hnew,Option.getD_some] at hcharge
      simp only [Option.elim_some]
      omega
  refine ⟨?_,?_⟩
  · simp only [RegistryState.with,RegistryState.chargedMetadataBytes] at hcharged hinsert ⊢
    omega
  · have hcharges : (r.candidates.map
        ({ s with reservations := s.reservations.erase ticket } : RegistryState).metadataCharge).sum =
        (r.candidates.map s.metadataCharge).sum := rfl
    rw [hcharges] at hretained
    simp only at hretained
    have houtstanding : (t.with r.newRunId r.operationKey charge).outstandingMetadataBytes =
        total s.addedBy (s.reservations.erase ticket) := by
      rw [← hreservations]
      exact hsame
    rw [houtstanding]
    simp only [RegistryState.with,RegistryState.outstandingMetadataBytes,hcapacity] at hfunded ⊢
    omega

end Metered
end Registry
end Ctxmux
