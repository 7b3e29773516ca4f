import Ctxmux.RegistryFences
import Ctxmux.RegistrySelection

/-!
# The registry stays consistent

The key indexes are inverse to the entries, the fences are those of the live
reservations, and every entry has an accounting owner. Each operation that the callers
may invoke succeeds without a failed expectation and keeps the registry consistent.
-/

namespace Ctxmux
namespace Registry

open Durable (RunId)
open InverseIndex

def RegistryState.residency (s : RegistryState) (id : RunId) : Option RegistryResidency :=
  (s.runs.lookup id).map (·.residency)

def RegistryState.FreeKey (s : RegistryState) (key : CreateOperationKey) : Prop :=
  s.creationRuns.lookup key = none

structure Consistent (s : RegistryState) : Prop where
  keyed : Keyed s
  fenced : Fenced s.residency s.FreeKey s.reservations s.nextTicket
  accounted : ∀ id entry, s.runs.lookup id = some entry → entry.metadataBytes = true

variable {s s' : RegistryState} {id : RunId} {ticket : PublicationTicket} {r : RegistryReservation}
  {entry : RegistryEntry} {ids : List RunId} {new : RegistryResidency}

theorem residency_of (hentry : s.runs.lookup id = some entry) :
    s.residency id = some entry.residency := by
  simp [RegistryState.residency,hentry]

theorem entry_of_residency {residency : RegistryResidency} (h : s.residency id = some residency) :
    ∃ entry, s.runs.lookup id = some entry ∧ entry.residency = residency :=
  Option.map_eq_some_iff.mp h

theorem residency_eq_none : s.residency id = none ↔ s.runs.lookup id = none :=
  Option.map_eq_none_iff

theorem Moved.residency (h : Moved ids new s s') (hids : ∀ id ∈ ids, s.runs.lookup id ≠ none) :
    s'.residency = fun id => if id ∈ ids then some new else s.residency id := by
  funext id
  unfold RegistryState.residency
  rw [h.lookup id]
  by_cases hin : id ∈ ids
  · obtain ⟨entry,hentry⟩ := Option.ne_none_iff_exists'.mp (hids id hin)
    simp [hin,hentry]
  · simp [hin]

theorem Moved.accounted (h : Moved ids new s s')
    (hs : ∀ id entry, s.runs.lookup id = some entry → entry.metadataBytes = true) :
    ∀ id entry, s'.runs.lookup id = some entry → entry.metadataBytes = true := by
  intro id entry' hentry'
  obtain ⟨entry,hentry,rfl⟩ := h.entry hentry'
  exact hs id entry hentry

theorem Removed.residency (h : Removed ids s s') :
    s'.residency = fun id => if id ∈ ids then none else s.residency id := by
  funext id
  unfold RegistryState.residency
  rw [h.lookup id]
  by_cases hin : id ∈ ids
  · simp [hin]
  · simp [hin]

theorem Removed.freeKey (h : Removed ids s s') (hk : Keyed s) {key : CreateOperationKey}
    (hfree : s.FreeKey key) : s'.FreeKey key := by
  cases hbound : s'.creationRuns.lookup key with
  | none => exact hbound
  | some id =>
    have hkey := (h.keyed.creation key id).mp hbound
    unfold RegistryState.creationKey at hkey
    rw [h.lookup id] at hkey
    split at hkey
    · cases hkey
    · have hold := (hk.creation key id).mpr hkey
      rw [hfree] at hold
      cases hold

theorem Removed.accounted (h : Removed ids s s')
    (hs : ∀ id entry, s.runs.lookup id = some entry → entry.metadataBytes = true) :
    ∀ id entry, s'.runs.lookup id = some entry → entry.metadataBytes = true := by
  intro id entry hentry
  rw [h.lookup id] at hentry
  split at hentry
  · cases hentry
  · exact hs id entry hentry

namespace Consistent

theorem collecting (h : Consistent s) (hr : s.reservations.lookup ticket = some r)
    (hin : id ∈ r.candidates) :
    ∃ entry, s.runs.lookup id = some entry ∧ entry.residency = .collecting ticket :=
  entry_of_residency ((h.fenced.collecting id ticket).mpr ⟨r,hr,hin⟩)

/-- A reservation of distinct retained candidates, for a fresh Run and a free key. -/
theorem reserved (h : Consistent s) (hnodup : r.candidates.Nodup)
    (hretained : ∀ id ∈ r.candidates, s.residency id = some .retained)
    (hid : s.runs.lookup r.newRunId = none) (hkey : ∀ key ∈ r.operationKey, s.FreeKey key)
    (hids : ∀ t r', s.reservations.lookup t = some r' → r'.newRunId ≠ r.newRunId)
    (hkeys : ∀ t r', s.reservations.lookup t = some r' → ∀ key ∈ r.operationKey,
      r'.operationKey ≠ some key)
    (hmetadata : r.newMetadataBytes.isSome)
    (hmoved : Moved r.candidates (.collecting (s.nextTicket+1))
      { s with nextTicket := s.nextTicket+1 } s') :
    Consistent { s' with reservations := s'.reservations.insert (s.nextTicket+1) r } := by
  have hpresent : ∀ id ∈ r.candidates, s.runs.lookup id ≠ none := fun id hin hnone => by
    have := hretained id hin
    rw [residency_eq_none.mpr hnone] at this
    cases this
  have hkeyed : Keyed s' := hmoved.keyed ⟨h.keyed.creation,h.keyed.stop⟩
  refine ⟨⟨hkeyed.creation,hkeyed.stop⟩,?_,hmoved.accounted h.accounted⟩
  have hfenced := h.fenced.reserve hnodup hretained (residency_eq_none.mpr hid) hkey hids hkeys
    hmetadata
  have hresidency := hmoved.residency hpresent
  have hsame := hmoved.same
  have hreservations : s'.reservations = s.reservations := by rw [hsame]
  have hticket : s'.nextTicket = s.nextTicket+1 := by rw [hsame]
  have hfree : s'.FreeKey = s.FreeKey := by
    funext key
    unfold RegistryState.FreeKey
    rw [hsame]
  show Fenced s'.residency s'.FreeKey _ s'.nextTicket
  rw [hresidency,hfree,hreservations,hticket]
  exact hfenced

theorem restored (h : Consistent s) (hr : s.reservations.lookup ticket = some r) :
    ∃ s', restoreReservation s ticket = .ok s' ∧
      Moved r.candidates .retained { s with reservations := s.reservations.erase ticket } s' ∧
      Consistent s' := by
  obtain ⟨s',hfold,hmoved⟩ := foldlM_moveResidency
    (s := { s with reservations := s.reservations.erase ticket })
    "uncommitted candidate remains in the Registry" "candidate is Collecting under the ticket"
    .retained (h.fenced.nodup ticket r hr) fun id hin => h.collecting hr hin
  refine ⟨s',?_,hmoved,hmoved.keyed ⟨h.keyed.creation,h.keyed.stop⟩,?_,
    hmoved.accounted h.accounted⟩
  · simp only [restoreReservation,hr]
    exact hfold
  · have hresidency := hmoved.residency fun id hin => by
      obtain ⟨entry,hentry,-⟩ := h.collecting hr hin
      exact Option.ne_none_iff_exists'.mpr ⟨entry,hentry⟩
    have hsame := hmoved.same
    have hreservations : s'.reservations = s.reservations.erase ticket := by rw [hsame]
    have hticket : s'.nextTicket = s.nextTicket := by rw [hsame]
    have hfree : s'.FreeKey = s.FreeKey := by
      funext key
      unfold RegistryState.FreeKey
      rw [hsame]
    rw [hresidency,hfree,hreservations,hticket]
    exact h.fenced.release hr (by simp)

theorem consumed (h : Consistent s) (hr : s.reservations.lookup ticket = some r) :
    ∃ s', consumeReservation s ticket r.newRunId r.operationKey = .ok (s',r.operationKey) ∧
      Removed r.candidates { s with reservations := s.reservations.erase ticket } s' ∧
      Consistent s' := by
  have hkeyed : Keyed { s with reservations := s.reservations.erase ticket } :=
    ⟨h.keyed.creation,h.keyed.stop⟩
  obtain ⟨s',hfold,hremoved⟩ := foldlM_consumeCandidate hkeyed (h.fenced.nodup ticket r hr)
    fun id hin => h.collecting hr hin
  refine ⟨s',?_,hremoved,hremoved.keyed,?_,hremoved.accounted h.accounted⟩
  · simp only [consumeReservation,hr]
    rw [ok_then (panicUnless_of trivial _),ok_then (panicUnless_of trivial _),ok_then hfold]
  · rw [hremoved.residency,hremoved.reservations,hremoved.nextTicket]
    exact (h.fenced.release hr (by simp)).keys fun t r' _ key _ hfree =>
      hremoved.freeKey hkeyed hfree

theorem removed (h : Consistent s) (hid : ∀ t, s.residency id ≠ some (.collecting t))
    (hpresent : s.runs.lookup id ≠ none) (hremoved : Removed [id] s s') : Consistent s' := by
  refine ⟨hremoved.keyed,?_,hremoved.accounted h.accounted⟩
  have hupdate : s'.residency = Function.update s.residency id none := by
    rw [hremoved.residency]
    funext other
    by_cases heq : other = id
    · subst heq
      simp
    · simp [heq]
  rw [hupdate,hremoved.reservations,hremoved.nextTicket]
  exact (h.fenced.set hid (by simp) fun hnone => absurd (residency_eq_none.mp hnone) hpresent).keys
    fun t r' _ key _ hfree => hremoved.freeKey h.keyed hfree

/-- An entry moves between two residencies that are not fences. -/
theorem moved (h : Consistent s) (hid : ∀ t, s.residency id ≠ some (.collecting t))
    (hpresent : s.runs.lookup id ≠ none) (hnew : ∀ t, new ≠ .collecting t)
    (hmoved : Moved [id] new s s') : Consistent s' := by
  refine ⟨hmoved.keyed h.keyed,?_,hmoved.accounted h.accounted⟩
  have hupdate : s'.residency = Function.update s.residency id (some new) := by
    rw [hmoved.residency fun other hin => by
      rw [List.mem_singleton] at hin
      rwa [hin]]
    funext other
    by_cases heq : other = id
    · subst heq
      simp
    · simp [heq]
  have hfree : s'.FreeKey = s.FreeKey := by
    funext key
    unfold RegistryState.FreeKey
    rw [hmoved.same]
  have hreservations : s'.reservations = s.reservations := by rw [hmoved.same]
  have hticket : s'.nextTicket = s.nextTicket := by rw [hmoved.same]
  rw [hupdate,hfree,hreservations,hticket]
  exact h.fenced.set hid (fun t heq => hnew t (Option.some.inj heq)) fun hnone =>
    absurd (residency_eq_none.mp hnone) hpresent

end Consistent

end Registry
end Ctxmux
