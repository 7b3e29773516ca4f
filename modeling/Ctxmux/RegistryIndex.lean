import Ctxmux.InverseIndex
import Ctxmux.RegistryMachine

/-!
# What the operations of the registry do to its maps

Each operation is described by what it does to lookups. Moving entries between
residencies and removing entries with their keys are the two kinds of change that
reservations, publications and removals are made of.
-/

namespace Ctxmux
namespace Registry

open Durable (RunId)
open InverseIndex

variable {s s' : RegistryState} {id : RunId} {ticket : PublicationTicket} {β : RunId → Type}
  {ids : List RunId}

theorem panicUnless_of {condition : Prop} [Decidable condition] (h : condition) (message : String) :
    panicUnless condition message = .ok () := if_pos h

theorem ok_then {α β : Type} {x : Except String α} {a : α} {f : α → Except String β}
    (h : x = .ok a) : (x >>= f) = f a := by
  rw [h]
  rfl

def RegistryState.creationKey (s : RegistryState) (id : RunId) : Option CreateOperationKey :=
  (s.runs.lookup id).bind (·.operationKey)

def RegistryState.stopKey (s : RegistryState) (id : RunId) : Option StopOperationKey :=
  (s.runs.lookup id).bind fun entry => entry.stopOperation.map (·.key)

/-- The two key indexes are inverse to the keys of the entries. -/
structure Keyed (s : RegistryState) : Prop where
  creation : Inverse s.creationRuns s.creationKey
  stop : Inverse s.stopRuns s.stopKey

/-- The listed entries took another residency, nothing else changed. -/
structure Moved (ids : List RunId) (new : RegistryResidency) (s s' : RegistryState) : Prop where
  same : s' = { s with runs := s'.runs }
  lookup : ∀ id, s'.runs.lookup id = if id ∈ ids then
    (s.runs.lookup id).map fun entry => { entry with residency := new } else s.runs.lookup id
  size : s'.runs.keys.length = s.runs.keys.length

theorem length_keys_insert {m : AList β} {id : RunId} {old new : β id} (h : m.lookup id = some old) :
    (m.insert id new).keys.length = m.keys.length := by
  have hmem : id ∈ m.keys := AList.mem_keys.mp (AList.lookup_isSome.mp (by rw [h]; rfl))
  rw [AList.keys_insert,List.length_cons,List.length_erase_of_mem hmem]
  have := List.length_pos_of_mem hmem
  omega

/-- Moving distinct entries that all have the expected residency. -/
theorem foldlM_moveResidency (missing wrong : String) {old : RegistryResidency}
    (new : RegistryResidency) (hids : ids.Nodup)
    (hold : ∀ id ∈ ids, ∃ entry, s.runs.lookup id = some entry ∧ entry.residency = old) :
    ∃ s', ids.foldlM (moveResidency missing wrong old new) s = .ok s' ∧ Moved ids new s s' := by
  induction ids generalizing s with
  | nil => exact ⟨s,rfl,rfl,by simp,rfl⟩
  | cons x xs ih =>
    obtain ⟨hnot,hxs⟩ := List.nodup_cons.mp hids
    obtain ⟨entry,hentry,hres⟩ := hold x (by simp)
    have hmove : moveResidency missing wrong old new s x = .ok (s.setResidency x entry new) := by
      simp only [moveResidency,hentry]
      rw [ok_then (panicUnless_of hres wrong)]
    have hother : ∀ id, id ≠ x → (s.setResidency x entry new).runs.lookup id = s.runs.lookup id :=
      fun id hne => AList.lookup_insert_ne hne
    obtain ⟨s',hfold,hmoved⟩ := ih (s := s.setResidency x entry new) hxs fun id hid => by
      rw [hother id fun heq => hnot (heq ▸ hid)]
      exact hold id (by simp [hid])
    refine ⟨s',?_,?_,fun id => ?_,?_⟩
    · rw [List.foldlM_cons,ok_then hmove,hfold]
    · have hsame := hmoved.same
      exact hsame
    · rw [hmoved.lookup id]
      by_cases hx : id = x
      · subst hx
        rw [if_neg hnot,if_pos (by simp),hentry]
        exact AList.lookup_insert _
      · rw [hother id hx]
        simp [hx]
    · rw [hmoved.size]
      exact length_keys_insert hentry

theorem Moved.entry {new : RegistryResidency} (h : Moved ids new s s') {id : RunId}
    {entry' : RegistryEntry} (hentry : s'.runs.lookup id = some entry') :
    ∃ entry, s.runs.lookup id = some entry ∧
      entry' = { entry with residency := if id ∈ ids then new else entry.residency } := by
  rw [h.lookup id] at hentry
  split at hentry
  · rename_i hin
    obtain ⟨entry,hold,rfl⟩ := Option.map_eq_some_iff.mp hentry
    exact ⟨entry,hold,by rw [if_pos hin]⟩
  · rename_i hout
    exact ⟨entry',hentry,by rw [if_neg hout]⟩

theorem Moved.keyed {new : RegistryResidency} (h : Moved ids new s s') (hk : Keyed s) :
    Keyed s' := by
  have hcreation : s'.creationRuns = s.creationRuns := by rw [h.same]
  have hstop : s'.stopRuns = s.stopRuns := by rw [h.same]
  have hcreationKey : s'.creationKey = s.creationKey := by
    funext id
    unfold RegistryState.creationKey
    rw [h.lookup id]
    split
    · cases s.runs.lookup id <;> rfl
    · rfl
  have hstopKey : s'.stopKey = s.stopKey := by
    funext id
    unfold RegistryState.stopKey
    rw [h.lookup id]
    split
    · cases s.runs.lookup id <;> rfl
    · rfl
  exact ⟨by rw [hcreation,hcreationKey]; exact hk.creation,by rw [hstop,hstopKey]; exact hk.stop⟩

/-- The listed entries left with their keys, nothing else changed. -/
structure Removed (ids : List RunId) (s s' : RegistryState) : Prop where
  keyed : Keyed s'
  lookup : ∀ id, s'.runs.lookup id = if id ∈ ids then none else s.runs.lookup id
  size : s'.runs.keys.length+ids.length = s.runs.keys.length
  reservations : s'.reservations = s.reservations
  nextTicket : s'.nextTicket = s.nextTicket
  recordCapacity : s'.recordCapacity = s.recordCapacity

theorem length_keys_erase {m : AList β} {id : RunId} {old : β id} (h : m.lookup id = some old) :
    (m.erase id).keys.length+1 = m.keys.length := by
  have hmem : id ∈ m.keys := AList.mem_keys.mp (AList.lookup_isSome.mp (by rw [h]; rfl))
  rw [AList.keys_erase,List.length_erase_of_mem hmem]
  have := List.length_pos_of_mem hmem
  omega

theorem lookup_erase {m : AList β} (id other : RunId) :
    (m.erase id).lookup other = if other ∈ [id] then none else m.lookup other := by
  by_cases heq : other = id
  · subst heq
    simp
  · rw [AList.lookup_erase_ne heq,if_neg (by simpa using heq)]

/-- A table read off the entries loses the removed Run. -/
theorem erase_keys {α : Type} (f : RegistryEntry → Option α) (runs : Runs) (id : RunId) :
    (fun other => ((runs.erase id).lookup other).bind f) =
      Function.update (fun other => (runs.lookup other).bind f) id none := by
  funext other
  by_cases heq : other = id
  · subst heq
    simp
  · rw [Function.update_of_ne heq,AList.lookup_erase_ne heq]

/-- The state after an entry left with its keys. -/
def RegistryState.without (s : RegistryState) (id : RunId) (entry : RegistryEntry) :
    RegistryState :=
  { s with
    runs := s.runs.erase id
    retainedMetadataBytes := s.retainedMetadataBytes-entry.metadataCharge
    creationRuns := entry.operationKey.elim s.creationRuns fun key => s.creationRuns.erase key
    stopRuns := entry.stopOperation.elim s.stopRuns fun stop => s.stopRuns.erase stop.key
    stopBytes := s.stopBytes-entry.stopOperation.elim 0 (·.memory) }

theorem creationKey_of {entry : RegistryEntry} (hentry : s.runs.lookup id = some entry) :
    s.creationKey id = entry.operationKey := by
  simp [RegistryState.creationKey,hentry]

theorem stopKey_of {entry : RegistryEntry} (hentry : s.runs.lookup id = some entry) :
    s.stopKey id = entry.stopOperation.map (·.key) := by
  simp [RegistryState.stopKey,hentry]

theorem removed_without (hk : Keyed s) {entry : RegistryEntry}
    (hentry : s.runs.lookup id = some entry) : Removed [id] s (s.without id entry) := by
  have hcreation := hk.creation.leave id
  have hstop := hk.stop.leave id
  rw [creationKey_of hentry] at hcreation
  rw [stopKey_of hentry] at hstop
  refine ⟨⟨?_,?_⟩,lookup_erase id,length_keys_erase hentry,rfl,rfl,rfl⟩
  · show Inverse _ fun other => ((s.runs.erase id).lookup other).bind _
    rw [erase_keys]
    exact hcreation
  · show Inverse _ fun other => ((s.runs.erase id).lookup other).bind _
    rw [erase_keys]
    have hruns : (s.without id entry).stopRuns =
        (entry.stopOperation.map (·.key)).elim s.stopRuns fun key => s.stopRuns.erase key := by
      cases hrecord : entry.stopOperation with
      | none => simp [RegistryState.without,hrecord]
      | some record => simp [RegistryState.without,hrecord]
    rw [hruns]
    exact hstop

theorem removeRegistryEntry_eq (hk : Keyed s) {entry : RegistryEntry}
    (hentry : s.runs.lookup id = some entry) :
    removeRegistryEntry s id = .ok (s.without id entry,entry) := by
  have hcreation : ∀ key, entry.operationKey = some key → s.creationRuns.lookup key = some id :=
    fun key hkey => hk.creation.lookup ((creationKey_of hentry).trans hkey)
  have hstop : ∀ record, entry.stopOperation = some record →
      s.stopRuns.lookup record.key = some id := fun record hrecord =>
    hk.stop.lookup (by rw [stopKey_of hentry,hrecord]; rfl)
  obtain ⟨operationKey,stopOperation,_,_,_⟩ := entry
  simp only [removeRegistryEntry,hentry,RegistryState.without,panicUnless,bind,Except.bind]
  cases operationKey with
  | none =>
    cases stopOperation with
    | none => rfl
    | some record =>
      simp only [if_pos (hstop record rfl)]
      rfl
  | some key =>
    cases stopOperation with
    | none =>
      simp only [if_pos (hcreation key rfl)]
      rfl
    | some record =>
      simp only [if_pos (hcreation key rfl),if_pos (hstop record rfl)]
      rfl

theorem removed_nil (hk : Keyed s) : Removed [] s s := ⟨hk,by simp,rfl,rfl,rfl,rfl⟩

theorem Removed.trans {x : RunId} {t : RegistryState} (h : Removed [x] s t) (h' : Removed ids t s') :
    Removed (x::ids) s s' := by
  refine ⟨h'.keyed,fun id => ?_,?_,?_,?_,?_⟩
  · rw [h'.lookup id,h.lookup id]
    by_cases hx : id = x
    · simp [hx]
    · simp [hx]
  · have hsize := h.size
    have hsize' := h'.size
    simp only [List.length_cons,List.length_nil] at hsize ⊢
    omega
  · rw [h'.reservations,h.reservations]
  · rw [h'.nextTicket,h.nextTicket]
  · rw [h'.recordCapacity,h.recordCapacity]

/-- Consuming distinct candidates of a ticket removes them. -/
theorem foldlM_consumeCandidate (hk : Keyed s) (hids : ids.Nodup)
    (hold : ∀ id ∈ ids, ∃ entry, s.runs.lookup id = some entry ∧
      entry.residency = .collecting ticket) :
    ∃ s', ids.foldlM (consumeCandidate ticket) s = .ok s' ∧ Removed ids s s' := by
  induction ids generalizing s with
  | nil => exact ⟨s,rfl,removed_nil hk⟩
  | cons x xs ih =>
    obtain ⟨hnot,hxs⟩ := List.nodup_cons.mp hids
    obtain ⟨entry,hentry,hres⟩ := hold x (by simp)
    have hremoved := removed_without hk hentry
    have hconsume : consumeCandidate ticket s x = .ok (s.without x entry) := by
      rw [consumeCandidate,ok_then (removeRegistryEntry_eq hk hentry)]
      simp only [panicUnless,hres]
      rfl
    obtain ⟨s',hfold,hrest⟩ := ih (s := s.without x entry) hremoved.keyed hxs fun id hid => by
      have hne : id ≠ x := fun heq => hnot (heq ▸ hid)
      rw [hremoved.lookup id,if_neg (by simpa using hne)]
      exact hold id (by simp [hid])
    refine ⟨s',?_,hremoved.trans hrest⟩
    rw [List.foldlM_cons,ok_then hconsume,hfold]

end Registry
end Ctxmux
