import Ctxmux.RegistryIndex

/-!
# The choice of replacement candidates

The candidates of a publication are distinct retained Runs that nobody else owns, and
there is one whenever the records are full. The fast path answers what the walk over
all records would answer.
-/

namespace Ctxmux
namespace Registry

open Durable (RunId)

variable {s : RegistryState} {view : View} {newMetadataBytes : Option ℕ}

theorem takeCandidates_fst (needsRecord : Bool) (toFund : ℕ) (charge : RunId → ℕ)
    (ids taken : List RunId) (funded : ℕ) :
    ∃ n, (takeCandidates needsRecord toFund charge ids taken funded).1 = taken ++ ids.take n := by
  induction ids generalizing taken funded with
  | nil => exact ⟨0,by simp [takeCandidates]⟩
  | cons id ids ih =>
    rw [takeCandidates]
    split
    · exact ⟨0,by simp⟩
    · obtain ⟨n,hn⟩ := ih (taken ++ [id]) (saturatingAdd funded (charge id))
      exact ⟨n+1,by rw [hn]; simp⟩

theorem takeCandidates_idle (charge : RunId → ℕ) (ids : List RunId) :
    takeCandidates false 0 charge ids [] 0 = ([],0) := by
  cases ids with
  | nil => rfl
  | cons id ids => simp [takeCandidates]

theorem selectPublicationCandidates_result (s : RegistryState) (view : View)
    (newMetadataBytes : Option ℕ) :
    (s.selectPublicationCandidates view newMetadataBytes).result =
      (s.scanCandidates view newMetadataBytes).result := by
  unfold RegistryState.selectPublicationCandidates
  split
  · rename_i hidle
    simp only [RegistryState.scanCandidates,hidle.1,hidle.2,takeCandidates_idle]
    simp
  · rfl

/-- The Runs that the walk considers. -/
def RegistryState.eligible (s : RegistryState) (view : View) (newMetadataBytes : Option ℕ) :
    List (ℕ × RunId) :=
  s.runs.entries.filterMap fun entry =>
    if entry.2.residency ≠ .retained ∨ (view entry.1).owners ≠ 0 ∨
        (newMetadataBytes.isSome ∧ entry.2.metadataBytes = false) then none
    else (view entry.1).collectionOrdinal.map fun ordinal => (ordinal,entry.1)

theorem map_snd_eligible (s : RegistryState) (view : View) (newMetadataBytes : Option ℕ) :
    ((s.eligible view newMetadataBytes).map (·.2)).Sublist s.runs.keys := by
  unfold RegistryState.eligible AList.keys List.keys
  induction s.runs.entries with
  | nil => simp
  | cons entry entries ih =>
    rw [List.filterMap_cons]
    split
    · exact ih.trans (List.sublist_cons_self _ _)
    · rename_i pair hpair
      split at hpair
      · cases hpair
      · obtain ⟨ordinal,-,rfl⟩ := Option.map_eq_some_iff.mp hpair
        exact ih.cons_cons _

theorem orderedCandidates_perm (s : RegistryState) (view : View) (newMetadataBytes : Option ℕ) :
    (s.orderedCandidates view newMetadataBytes).Perm
      ((s.eligible view newMetadataBytes).map (·.2)) :=
  (List.perm_insertionSort CollectsFirst _).map _

/-- What the walk knows of a candidate. -/
structure Collectable (s : RegistryState) (view : View) (newMetadataBytes : Option ℕ) (id : RunId) :
    Prop where
  retained : ∃ entry, s.runs.lookup id = some entry ∧ entry.residency = .retained ∧
    (newMetadataBytes.isSome → entry.metadataBytes = true)
  unowned : (view id).owners = 0

theorem collectable_of_mem {id : RunId} (h : id ∈ s.orderedCandidates view newMetadataBytes) :
    Collectable s view newMetadataBytes id := by
  rw [(orderedCandidates_perm s view newMetadataBytes).mem_iff,List.mem_map] at h
  obtain ⟨pair,hpair,rfl⟩ := h
  obtain ⟨entry,hentry,hsome⟩ := List.mem_filterMap.mp hpair
  split at hsome
  · cases hsome
  · rename_i hok
    push Not at hok
    obtain ⟨ordinal,-,rfl⟩ := Option.map_eq_some_iff.mp hsome
    refine ⟨⟨entry.2,AList.mem_lookup_iff.mpr hentry,hok.1,fun hnew => ?_⟩,hok.2.1⟩
    simpa using hok.2.2 hnew

structure Selected (s : RegistryState) (view : View) (newMetadataBytes : Option ℕ)
    (candidates : List RunId) : Prop where
  nodup : candidates.Nodup
  collectable : ∀ id ∈ candidates, Collectable s view newMetadataBytes id
  replaces : s.needsRecord = true → candidates ≠ []

theorem selected_of_result {candidates : List RunId}
    (h : (s.selectPublicationCandidates view newMetadataBytes).result = .ok candidates) :
    Selected s view newMetadataBytes candidates := by
  rw [selectPublicationCandidates_result] at h
  simp only [RegistryState.scanCandidates] at h
  split at h
  · cases h
  · rename_i hfunded
    split at h
    · cases h
    · obtain ⟨n,hn⟩ := takeCandidates_fst s.needsRecord (s.metadataToFund newMetadataBytes)
        s.metadataCharge (s.orderedCandidates view newMetadataBytes) [] 0
      rw [List.nil_append] at hn
      have hcandidates := (Except.ok.inj h).symm
      rw [hn] at hcandidates
      subst hcandidates
      refine ⟨?_,fun id hid => collectable_of_mem (List.mem_of_mem_take hid),fun hneeds hnil => ?_⟩
      · refine List.Sublist.nodup (List.take_sublist _ _) ?_
        rw [(orderedCandidates_perm s view newMetadataBytes).nodup_iff]
        exact (map_snd_eligible s view newMetadataBytes).nodup s.runs.nodupKeys
      · exact hfunded (.inl ⟨hneeds,by rw [hn,hnil]⟩)

end Registry
end Ctxmux
