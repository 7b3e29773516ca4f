import Ctxmux.RegistryIndex

/-!
# The fences of live reservations

A Run is fenced under a ticket exactly when the live reservation with that ticket lists
it. The rules follow the residencies of all Runs as one function: a reservation fences
its candidates, an ended reservation releases them to one residency (or none, when they
leave), and every other change concerns one Run that is not fenced.
-/

namespace Ctxmux
namespace Registry

open Durable (RunId)

structure Fenced (residency : RunId → Option RegistryResidency) (free : CreateOperationKey → Prop)
    (reservations : Reservations) (nextTicket : ℕ) : Prop where
  collecting : ∀ id ticket, residency id = some (.collecting ticket) ↔
    ∃ r, reservations.lookup ticket = some r ∧ id ∈ r.candidates
  nodup : ∀ ticket r, reservations.lookup ticket = some r → r.candidates.Nodup
  issued : ∀ ticket r, reservations.lookup ticket = some r → ticket ≤ nextTicket
  fresh : ∀ ticket r, reservations.lookup ticket = some r → residency r.newRunId = none
  free : ∀ ticket r, reservations.lookup ticket = some r → ∀ key ∈ r.operationKey, free key
  newIds : ∀ t r t' r', reservations.lookup t = some r → reservations.lookup t' = some r' →
    r.newRunId = r'.newRunId → t = t'
  newKeys : ∀ t r t' r', reservations.lookup t = some r → reservations.lookup t' = some r' →
    ∀ key ∈ r.operationKey, r'.operationKey = some key → t = t'
  metadata : ∀ ticket r, reservations.lookup ticket = some r → r.newMetadataBytes.isSome

variable {residency : RunId → Option RegistryResidency} {free : CreateOperationKey → Prop}
  {reservations : Reservations} {nextTicket : ℕ} {ticket t : PublicationTicket}
  {r r' : RegistryReservation} {id : RunId}

theorem lookup_erase_eq_some :
    (reservations.erase ticket).lookup t = some r' ↔ t ≠ ticket ∧ reservations.lookup t = some r' := by
  by_cases heq : t = ticket
  · subst heq
    simp
  · rw [AList.lookup_erase_ne heq]
    simp [heq]

theorem lookup_insert_eq_some :
    (reservations.insert ticket r).lookup t = some r' ↔
      (t = ticket ∧ r' = r) ∨ (t ≠ ticket ∧ reservations.lookup t = some r') := by
  by_cases heq : t = ticket
  · subst heq
    simp [eq_comm]
  · rw [AList.lookup_insert_ne heq]
    simp [heq]

namespace Fenced

section

variable (h : Fenced residency free reservations nextTicket)
include h

theorem unissued :
    reservations.lookup (nextTicket+1) = none := by
  cases hr : reservations.lookup (nextTicket+1) with
  | none => rfl
  | some r => exact absurd (h.issued _ r hr) (Nat.not_succ_le_self nextTicket)

theorem reserve (hnodup : r.candidates.Nodup)
    (hretained : ∀ id ∈ r.candidates, residency id = some .retained)
    (hid : residency r.newRunId = none) (hkey : ∀ key ∈ r.operationKey, free key)
    (hids : ∀ t r', reservations.lookup t = some r' → r'.newRunId ≠ r.newRunId)
    (hkeys : ∀ t r', reservations.lookup t = some r' → ∀ key ∈ r.operationKey,
      r'.operationKey ≠ some key) (hmetadata : r.newMetadataBytes.isSome) :
    Fenced (fun id => if id ∈ r.candidates then some (.collecting (nextTicket+1)) else residency id)
      free (reservations.insert (nextTicket+1) r) (nextTicket+1) := by
  have hnew : ∀ t r', (reservations.insert (nextTicket+1) r).lookup t = some r' →
      (t = nextTicket+1 ∧ r' = r) ∨ reservations.lookup t = some r' := fun t r' ht =>
    (lookup_insert_eq_some.mp ht).imp_right (·.2)
  have hold : ∀ t r', reservations.lookup t = some r' → t ≠ nextTicket+1 := by
    rintro t r' ht rfl
    exact Nat.not_succ_le_self nextTicket (h.issued _ r' ht)
  refine ⟨fun id t => ?_,fun t r' ht => ?_,fun t r' ht => ?_,fun t r' ht => ?_,fun t r' ht => ?_,
    fun t r₁ t' r₂ ht ht' heq => ?_,fun t r₁ t' r₂ ht ht' key hk heq => ?_,fun t r' ht => ?_⟩
  · by_cases hin : id ∈ r.candidates
    · simp only [if_pos hin,Option.some.injEq,RegistryResidency.collecting.injEq]
      constructor
      · rintro rfl
        exact ⟨r,AList.lookup_insert _,hin⟩
      · rintro ⟨r',hr',hin'⟩
        rcases hnew t r' hr' with ⟨rfl,-⟩ | hlookup
        · rfl
        · have := (h.collecting id t).mpr ⟨r',hlookup,hin'⟩
          rw [hretained id hin] at this
          cases this
    · simp only [if_neg hin]
      rw [h.collecting id t]
      constructor
      · rintro ⟨r',hr',hin'⟩
        exact ⟨r',lookup_insert_eq_some.mpr (.inr ⟨hold t r' hr',hr'⟩),hin'⟩
      · rintro ⟨r',hr',hin'⟩
        rcases hnew t r' hr' with ⟨rfl,rfl⟩ | hlookup
        · exact absurd hin' hin
        · exact ⟨r',hlookup,hin'⟩
  · rcases hnew t r' ht with ⟨rfl,rfl⟩ | hlookup
    · exact hnodup
    · exact h.nodup t r' hlookup
  · rcases hnew t r' ht with ⟨rfl,rfl⟩ | hlookup
    · exact Nat.le_refl _
    · exact Nat.le_succ_of_le (h.issued t r' hlookup)
  · have hnone : residency r'.newRunId = none := by
      rcases hnew t r' ht with ⟨rfl,rfl⟩ | hlookup
      · exact hid
      · exact h.fresh t r' hlookup
    have hout : r'.newRunId ∉ r.candidates := fun hin => by
      rw [hretained _ hin] at hnone
      cases hnone
    simp only [if_neg hout,hnone]
  · rcases hnew t r' ht with ⟨rfl,rfl⟩ | hlookup
    · exact hkey
    · exact h.free t r' hlookup
  · rcases hnew t r₁ ht with ⟨rfl,rfl⟩ | hlookup
    · rcases hnew t' r₂ ht' with ⟨rfl,rfl⟩ | hlookup'
      · rfl
      · exact absurd heq.symm (hids t' r₂ hlookup')
    · rcases hnew t' r₂ ht' with ⟨rfl,rfl⟩ | hlookup'
      · exact absurd heq (hids t r₁ hlookup)
      · exact h.newIds t r₁ t' r₂ hlookup hlookup' heq
  · rcases hnew t r₁ ht with ⟨rfl,rfl⟩ | hlookup
    · rcases hnew t' r₂ ht' with ⟨rfl,rfl⟩ | hlookup'
      · rfl
      · exact absurd heq (hkeys t' r₂ hlookup' key hk)
    · rcases hnew t' r₂ ht' with ⟨rfl,rfl⟩ | hlookup'
      · exact absurd hk (hkeys t r₁ hlookup key heq)
      · exact h.newKeys t r₁ t' r₂ hlookup hlookup' key hk heq
  · rcases hnew t r' ht with ⟨rfl,rfl⟩ | hlookup
    · exact hmetadata
    · exact h.metadata t r' hlookup

/-- A reservation ends and all its candidates take one residency, or leave. -/
theorem release (hr : reservations.lookup ticket = some r) {residency' : Option RegistryResidency}
    (hresidency : ∀ t, residency' ≠ some (.collecting t)) :
    Fenced (fun id => if id ∈ r.candidates then residency' else residency id) free
      (reservations.erase ticket) nextTicket := by
  have hold : ∀ t r', (reservations.erase ticket).lookup t = some r' →
      reservations.lookup t = some r' := fun t r' ht => (lookup_erase_eq_some.mp ht).2
  refine ⟨fun id t => ?_,fun t r' ht => h.nodup t r' (hold t r' ht),
    fun t r' ht => h.issued t r' (hold t r' ht),fun t r' ht => ?_,
    fun t r' ht => h.free t r' (hold t r' ht),
    fun t r₁ t' r₂ ht ht' => h.newIds t r₁ t' r₂ (hold t r₁ ht) (hold t' r₂ ht'),
    fun t r₁ t' r₂ ht ht' => h.newKeys t r₁ t' r₂ (hold t r₁ ht) (hold t' r₂ ht'),
    fun t r' ht => h.metadata t r' (hold t r' ht)⟩
  · by_cases hin : id ∈ r.candidates
    · have hfence := (h.collecting id ticket).mpr ⟨r,hr,hin⟩
      simp only [if_pos hin]
      refine iff_of_false (hresidency t) ?_
      rintro ⟨r',hr',hin'⟩
      obtain ⟨hne,hlookup⟩ := lookup_erase_eq_some.mp hr'
      have hother := (h.collecting id t).mpr ⟨r',hlookup,hin'⟩
      rw [hfence] at hother
      cases hother
      exact hne rfl
    · simp only [if_neg hin]
      rw [h.collecting id t]
      constructor
      · rintro ⟨r',hr',hin'⟩
        refine ⟨r',lookup_erase_eq_some.mpr ⟨fun heq => ?_,hr'⟩,hin'⟩
        subst heq
        rw [hr] at hr'
        cases hr'
        exact hin hin'
      · rintro ⟨r',hr',hin'⟩
        exact ⟨r',hold t r' hr',hin'⟩
  · have hnone := h.fresh t r' (hold t r' ht)
    have hout : r'.newRunId ∉ r.candidates := fun hin => by
      rw [(h.collecting _ ticket).mpr ⟨r,hr,hin⟩] at hnone
      cases hnone
    simp only [if_neg hout,hnone]

/-- One Run that is not fenced takes another residency, arrives or leaves. -/
theorem set (hid : ∀ t, residency id ≠ some (.collecting t)) {residency' : Option RegistryResidency}
    (hresidency : ∀ t, residency' ≠ some (.collecting t))
    (harrives : residency id = none → ∀ t r, reservations.lookup t = some r → r.newRunId ≠ id) :
    Fenced (Function.update residency id residency') free reservations nextTicket := by
  refine ⟨fun other t => ?_,h.nodup,h.issued,fun t r ht => ?_,h.free,h.newIds,h.newKeys,h.metadata⟩
  · rw [← h.collecting other t]
    by_cases heq : other = id
    · subst heq
      rw [Function.update_self]
      exact iff_of_false (hresidency t) (hid t)
    · rw [Function.update_of_ne heq]
  · have hnone := h.fresh t r ht
    by_cases heq : r.newRunId = id
    · rw [heq] at hnone
      exact absurd heq (harrives hnone t r ht)
    · rw [Function.update_of_ne heq,hnone]

theorem keys {free' : CreateOperationKey → Prop}
    (hfree : ∀ t r, reservations.lookup t = some r → ∀ key ∈ r.operationKey, free key → free' key) :
    Fenced residency free' reservations nextTicket :=
  { h with free := fun t r ht key hkey => hfree t r ht key hkey (h.free t r ht key hkey) }

theorem unique (hr : reservations.lookup ticket = some r) (hr' : reservations.lookup t = some r')
    (hin : id ∈ r.candidates) (hin' : id ∈ r'.candidates) :
    ticket = t := by
  have hone := (h.collecting id ticket).mpr ⟨r,hr,hin⟩
  have hother := (h.collecting id t).mpr ⟨r',hr',hin'⟩
  rw [hone] at hother
  cases hother
  rfl

end

end Fenced
end Registry
end Ctxmux
