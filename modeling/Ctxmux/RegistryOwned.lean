import Ctxmux.RegistryOperations

/-!
# Owners and the registry agree

Every ticket, fence and settlement that an owner holds is backed by the registry, and an
owner's Run is never collected from under it. One step keeps this, whatever the event,
so no event meets a failed expectation in the registry.
-/

namespace Ctxmux
namespace Registry

open Durable (RunId)

/-- The Run of a settlement is retained with the record of that settlement. -/
def Pinned (s : RegistryState) (st : StopSettlement) : Prop :=
  ∃ entry memory, s.runs.lookup st.id = some entry ∧ entry.residency = .retained ∧
    entry.stopOperation = some ⟨st.key,st.cell,memory⟩

structure Owned (s : System) : Prop where
  consistent : Consistent s.registry
  tickets : (s.reservations ++ s.unresolved).Nodup
  live : ∀ t ∈ s.reservations ++ s.unresolved, s.registry.reservations.lookup t ≠ none
  removals : s.removals.Nodup
  removing : ∀ id ∈ s.removals, s.registry.residency id = some .removing
  settlements : (s.settlements.map (·.id)).Nodup
  cells : (s.settlements.map (·.cell)).Nodup
  pins : ∀ st ∈ s.settlements, Pinned s.registry st
  pending : ∀ st ∈ s.settlements, s.results.lookup st.cell = none ∧ st.cell < s.nextCell
  unnamed : ∀ cell, s.nextCell ≤ cell → s.results.lookup cell = none

variable {s : System} {registry : RegistryState} {id : RunId} {ticket : PublicationTicket}

/-- A Run that somebody holds. -/
def System.Holds (s : System) (id : RunId) : Prop :=
  id ∈ s.removals ∨ ∃ st ∈ s.settlements, st.id = id

namespace Owned

/-- The registry changes and keeps the Runs that somebody holds. -/
theorem replace (h : Owned s) (hconsistent : Consistent registry)
    (hlive : ∀ t ∈ s.reservations ++ s.unresolved, registry.reservations.lookup t ≠ none)
    (hkeep : ∀ id, s.Holds id → registry.runs.lookup id = s.registry.runs.lookup id) :
    Owned { s with registry := registry } := by
  refine { h with
    consistent := hconsistent
    live := hlive
    removing := fun id hid => ?_
    pins := fun st hst => ?_ }
  · show (registry.runs.lookup id).map _ = _
    rw [hkeep id (.inl hid)]
    exact h.removing id hid
  · obtain ⟨entry,memory,hentry,hrest⟩ := h.pins st hst
    exact ⟨entry,memory,by rw [hkeep st.id (.inr ⟨st,hst,rfl⟩)]; exact hentry,hrest⟩

theorem not_collecting (h : Owned s) (hid : s.Holds id) (t : PublicationTicket) :
    s.registry.residency id ≠ some (.collecting t) := by
  intro hcollecting
  rcases hid with hid | ⟨st,hst,rfl⟩
  · rw [h.removing id hid] at hcollecting
    cases hcollecting
  · obtain ⟨entry,memory,hentry,hretained,-⟩ := h.pins st hst
    rw [residency_of hentry,hretained] at hcollecting
    cases hcollecting

theorem present (h : Owned s) (hid : s.Holds id) : s.registry.residency id ≠ none := by
  intro hnone
  rcases hid with hid | ⟨st,hst,rfl⟩
  · rw [h.removing id hid] at hnone
    cases hnone
  · obtain ⟨entry,memory,hentry,-⟩ := h.pins st hst
    rw [residency_of hentry] at hnone
    cases hnone

variable {entry : RegistryEntry} {r : RegistryReservation}

/-- A retained Run that the pinned view shows unowned is not held. -/
theorem not_held (h : Owned s) {view : View} (hentry : s.registry.runs.lookup id = some entry)
    (hretained : entry.residency = .retained) (hunowned : (s.pinned view id).owners = 0) :
    ¬s.Holds id := by
  rintro (hid | ⟨st,hst,rfl⟩)
  · have hremoving := h.removing id hid
    rw [residency_of hentry,hretained] at hremoving
    cases hremoving
  · have hcount : s.settlements.countP (fun st' => st'.id = st.id) = 0 := by
      have : (view st.id).owners+s.settlements.countP (fun st' => st'.id = st.id) = 0 := hunowned
      omega
    have := List.countP_eq_zero.mp hcount st hst
    simp at this

section

variable (h : Owned s) (ht : ticket ∈ s.reservations)
include h ht

theorem reservation_of :
    ∃ r, s.registry.reservations.lookup ticket = some r :=
  Option.ne_none_iff_exists'.mp (h.live ticket (by simp [ht]))

/-- The other owned tickets stay live when one reservation ends. -/
theorem live_erase (hreservations : registry.reservations = s.registry.reservations.erase ticket) :
    ∀ t ∈ s.reservations.erase ticket ++ s.unresolved, registry.reservations.lookup t ≠ none := by
  intro t hmem
  have hnodup := List.nodup_append.mp h.tickets
  have hne : t ≠ ticket := by
    rintro rfl
    rcases List.mem_append.mp hmem with hin | hin
    · exact (List.Nodup.not_mem_erase hnodup.1) hin
    · exact hnodup.2.2 t ht t hin rfl
  have hold : t ∈ s.reservations ++ s.unresolved := by
    rcases List.mem_append.mp hmem with hin | hin
    · exact List.mem_append_left _ (List.mem_of_mem_erase hin)
    · exact List.mem_append_right _ hin
  rw [hreservations,AList.lookup_erase_ne hne]
  exact h.live t hold

/-- An owned reservation ends: its ticket leaves with it. -/
theorem ended (hconsistent : Consistent registry)
    (hreservations : registry.reservations = s.registry.reservations.erase ticket)
    (hkeep : ∀ id, s.Holds id → registry.runs.lookup id = s.registry.runs.lookup id) :
    Owned { s with registry := registry, reservations := s.reservations.erase ticket } := by
  have hrest : Owned { s with reservations := s.reservations.erase ticket } :=
    { h with
      tickets := h.tickets.sublist (List.Sublist.append (List.erase_sublist) (List.Sublist.refl _))
      live := fun t hmem => by
        have hold : t ∈ s.reservations ++ s.unresolved := by
          rcases List.mem_append.mp hmem with hin | hin
          · exact List.mem_append_left _ (List.mem_of_mem_erase hin)
          · exact List.mem_append_right _ hin
        exact h.live t hold }
  exact hrest.replace hconsistent (h.live_erase ht hreservations) hkeep

theorem published (hr : s.registry.reservations.lookup ticket = some r)
    (hpublished : Published r ticket s.registry registry) :
    Owned { s with registry := registry, reservations := s.reservations.erase ticket } := by
  refine h.ended ht hpublished.consistent hpublished.reservations fun id hid => ?_
  have hne : id ≠ r.newRunId := by
    rintro rfl
    exact h.present hid (h.consistent.fenced.fresh ticket r hr)
  have hout : id ∉ r.candidates := fun hin =>
    h.not_collecting hid ticket ((h.consistent.fenced.collecting id ticket).mpr ⟨r,hr,hin⟩)
  rw [hpublished.others id hne,if_neg hout]

theorem dropped (hr : s.registry.reservations.lookup ticket = some r)
    (hconsistent : Consistent registry)
    (hmoved : Moved r.candidates .retained
      { s.registry with reservations := s.registry.reservations.erase ticket } registry) :
    Owned { s with registry := registry, reservations := s.reservations.erase ticket } := by
  refine h.ended ht hconsistent (by rw [hmoved.same]) fun id hid => ?_
  have hout : id ∉ r.candidates := fun hin =>
    h.not_collecting hid ticket ((h.consistent.fenced.collecting id ticket).mpr ⟨r,hr,hin⟩)
  rw [hmoved.lookup id,if_neg hout]

theorem unresolved :
    Owned { s with
      reservations := s.reservations.erase ticket
      unresolved := ticket::s.unresolved } := by
  have hperm : (s.reservations.erase ticket ++ ticket::s.unresolved).Perm
      (s.reservations ++ s.unresolved) := by
    refine List.perm_middle.trans ?_
    rw [← List.cons_append]
    exact (List.perm_cons_erase ht).symm.append_right _
  exact { h with
    tickets := hperm.nodup_iff.mpr h.tickets
    live := fun t hmem => h.live t (hperm.mem_iff.mp hmem) }

end

theorem reserved (h : Owned s) {view : View}
    (hreserved : Reserved r (s.pinned view) s.registry registry) :
    Owned { s with
      registry := registry
      reservations := (s.registry.nextTicket+1)::s.reservations } := by
  have hnew : s.registry.nextTicket+1 ∉ s.reservations ++ s.unresolved := fun hmem =>
    h.live _ hmem h.consistent.fenced.unissued
  have hlive : ∀ t ∈ s.reservations ++ s.unresolved, registry.reservations.lookup t ≠ none := by
    intro t hmem
    have hne : t ≠ s.registry.nextTicket+1 := fun heq => hnew (heq ▸ hmem)
    rw [hreserved.reservations,AList.lookup_insert_ne hne]
    exact h.live t hmem
  have hkeep : ∀ id, s.Holds id → registry.runs.lookup id = s.registry.runs.lookup id := by
    intro id hid
    have hlookup := hreserved.moved.lookup id
    have hout : id ∉ r.candidates := fun hin => by
      have hcollectable := hreserved.selected.collectable id hin
      obtain ⟨entry,hentry,hretained,-⟩ := hcollectable.retained
      exact h.not_held hentry hretained hcollectable.unowned hid
    rwa [if_neg hout] at hlookup
  have hreplaced := h.replace hreserved.consistent hlive hkeep
  refine { hreplaced with
    tickets := List.nodup_cons.mpr ⟨hnew,h.tickets⟩
    live := fun t hmem => ?_ }
  rcases List.mem_cons.mp hmem with rfl | hold
  · show registry.reservations.lookup _ ≠ none
    rw [hreserved.reservations,AList.lookup_insert]
    simp
  · exact hlive t hold

theorem removed (h : Owned s) (hid : ¬s.Holds id)
    (hcollecting : ∀ t, s.registry.residency id ≠ some (.collecting t))
    (hpresent : s.registry.runs.lookup id ≠ none) (hremoved : Removed [id] s.registry registry) :
    Owned { s with registry := registry } := by
  refine h.replace (h.consistent.removed hcollecting hpresent hremoved)
    (by rw [hremoved.reservations]; exact h.live) fun other hother => ?_
  have hne : other ∉ [id] := fun hin => hid (List.mem_singleton.mp hin ▸ hother)
  rw [hremoved.lookup other,if_neg hne]

theorem moved (h : Owned s) (hid : ¬s.Holds id) {new : RegistryResidency}
    (hcollecting : ∀ t, s.registry.residency id ≠ some (.collecting t))
    (hpresent : s.registry.runs.lookup id ≠ none) (hnew : ∀ t, new ≠ .collecting t)
    (hmoved : Moved [id] new s.registry registry) : Owned { s with registry := registry } := by
  have hreservations : registry.reservations = s.registry.reservations := by rw [hmoved.same]
  refine h.replace (h.consistent.moved hcollecting hpresent hnew hmoved)
    (by rw [hreservations]; exact h.live) fun other hother => ?_
  have hne : other ∉ [id] := fun hin => hid (List.mem_singleton.mp hin ▸ hother)
  rw [hmoved.lookup other,if_neg hne]

theorem unfenced (h : Owned s) (hid : id ∈ s.removals) :
    Owned { s with removals := s.removals.erase id } ∧
      ¬({ s with removals := s.removals.erase id } : System).Holds id := by
  refine ⟨{ h with
    removals := h.removals.sublist List.erase_sublist
    removing := fun other hother => h.removing other (List.mem_of_mem_erase hother) },?_⟩
  rintro (hin | ⟨st,hst,rfl⟩)
  · exact List.Nodup.not_mem_erase h.removals hin
  · obtain ⟨entry,memory,hentry,hretained,-⟩ := h.pins st hst
    have hremoving := h.removing st.id hid
    rw [residency_of hentry,hretained] at hremoving
    cases hremoving

theorem fenced (h : Owned s) (hid : ¬s.Holds id) (hentry : s.registry.runs.lookup id = some entry)
    (hretained : entry.residency = .retained) :
    Owned { s with
      registry := s.registry.setResidency id entry .removing
      removals := id::s.removals } := by
  have hmoved := moved_setResidency hentry .removing
  have hold := h.moved hid (by rw [residency_of hentry,hretained]; simp) (by rw [hentry]; simp)
    (by simp) hmoved
  refine { hold with
    removals := List.nodup_cons.mpr ⟨fun hin => hid (.inl hin),h.removals⟩
    removing := fun other hother => ?_ }
  rcases List.mem_cons.mp hother with rfl | hin
  · show ((s.registry.runs.insert other _).lookup other).map _ = _
    rw [AList.lookup_insert]
    rfl
  · exact hold.removing other hin

/-- A Stop without an owner changes only the count of cells. -/
theorem recounted (h : Owned s) : Owned { s with nextCell := s.nextCell+1 } :=
  { h with
    pending := fun st hst => ⟨(h.pending st hst).1,Nat.lt_succ_of_lt (h.pending st hst).2⟩
    unnamed := fun cell hcell => h.unnamed cell (Nat.le_of_succ_le hcell) }

theorem lookup_stopped_ne {r : RegistryState} {stop : Option StopOperationRecord}
    {stopRuns : AList fun _ : StopOperationKey => RunId} {bytes : ℕ} {other : RunId}
    (hne : other ≠ id) :
    (r.stopped id entry stop stopRuns bytes).runs.lookup other = r.runs.lookup other :=
  AList.lookup_insert_ne hne

/-- Writing the Stop record of a retained Run whose settlement nobody holds. -/
theorem stopped (h : Owned s) {stop : Option StopOperationRecord}
    {stopRuns : AList fun _ : StopOperationKey => RunId} {bytes : ℕ}
    (hentry : s.registry.runs.lookup id = some entry) (hretained : entry.residency = .retained)
    (hunheld : ∀ st ∈ s.settlements, st.id ≠ id)
    (hconsistent : Consistent (s.registry.stopped id entry stop stopRuns bytes)) :
    Owned { s with registry := s.registry.stopped id entry stop stopRuns bytes } := by
  refine h.replace hconsistent h.live fun other hother => lookup_stopped_ne fun heq => ?_
  subst heq
  rcases hother with hin | ⟨st,hst,heq⟩
  · have hremoving := h.removing other hin
    rw [residency_of hentry,hretained] at hremoving
    cases hremoving
  · exact hunheld st hst heq

theorem owner (h : Owned s) {key : StopOperationKey}
    (hentry : s.registry.runs.lookup id = some entry) (hretained : entry.residency = .retained)
    (hrecord : entry.stopOperation = none) (hfree : s.registry.stopRuns.lookup key = none)
    (conditions : StopConditions) :
    Owned { s with
      registry := s.registry.admitStop conditions id entry key s.nextCell
      settlements := ⟨id,key,s.nextCell⟩::s.settlements
      nextCell := s.nextCell+1 } := by
  have hunheld : ∀ st ∈ s.settlements, st.id ≠ id := by
    rintro st hst rfl
    obtain ⟨entry',memory,hentry',-,hrecord'⟩ := h.pins st hst
    rw [hentry] at hentry'
    cases hentry'
    rw [hrecord] at hrecord'
    cases hrecord'
  have hold := (h.stopped hentry hretained hunheld
    (h.consistent.admitStop hentry hrecord hfree conditions s.nextCell)).recounted
  have hfresh : s.nextCell ∉ s.settlements.map (·.cell) := fun hmem => by
    obtain ⟨st,hst,heq⟩ := List.mem_map.mp hmem
    have := (h.pending st hst).2
    omega
  refine { hold with
    settlements := ?_
    cells := List.nodup_cons.mpr ⟨hfresh,h.cells⟩
    pins := fun st hst => ?_
    pending := fun st hst => ?_ }
  · refine List.nodup_cons.mpr ⟨fun hmem => ?_,h.settlements⟩
    obtain ⟨st,hst,heq⟩ := List.mem_map.mp hmem
    exact hunheld st hst heq
  · rcases List.mem_cons.mp hst with rfl | hin
    · exact ⟨_,_,AList.lookup_insert _,hretained,rfl⟩
    · exact hold.pins st hin
  · rcases List.mem_cons.mp hst with rfl | hin
    · exact ⟨h.unnamed s.nextCell (Nat.le_refl _),Nat.lt_succ_self _⟩
    · exact hold.pending st hin

theorem settled (h : Owned s) {settlement : StopSettlement} (hst : settlement ∈ s.settlements)
    {memory : ℕ} (hentry : s.registry.runs.lookup settlement.id = some entry)
    (hretained : entry.residency = .retained)
    (hrecord : entry.stopOperation = some ⟨settlement.key,settlement.cell,memory⟩)
    (result : StopResult) :
    Owned { s with
      registry := s.registry.settled settlement.id entry
        ⟨settlement.key,settlement.cell,memory⟩ result
      settlements := s.settlements.erase settlement
      results := s.results.insert settlement.cell result } := by
  have hnodup : s.settlements.Nodup := List.Nodup.of_map _ h.settlements
  have hother : ∀ st ∈ s.settlements.erase settlement, st.id ≠ settlement.id ∧
      st.cell ≠ settlement.cell := by
    intro st hmem
    obtain ⟨hne,hin⟩ := (List.Nodup.mem_erase_iff hnodup).mp hmem
    exact ⟨fun heq => hne (List.inj_on_of_nodup_map h.settlements hin hst heq),
      fun heq => hne (List.inj_on_of_nodup_map h.cells hin hst heq)⟩
  have hrest : Owned { s with
      settlements := s.settlements.erase settlement
      results := s.results.insert settlement.cell result } :=
    { h with
      settlements := h.settlements.sublist (List.erase_sublist.map _)
      cells := h.cells.sublist (List.erase_sublist.map _)
      pins := fun st hmem => h.pins st (List.mem_of_mem_erase hmem)
      pending := fun st hmem => by
        have hpending := h.pending st (List.mem_of_mem_erase hmem)
        exact ⟨by rw [AList.lookup_insert_ne (hother st hmem).2]; exact hpending.1,hpending.2⟩
      unnamed := fun cell hcell => by
        have hlt : settlement.cell < s.nextCell := (h.pending settlement hst).2
        have hcell' : s.nextCell ≤ cell := hcell
        have hne : cell ≠ settlement.cell := by omega
        show (s.results.insert settlement.cell result).lookup cell = none
        rw [AList.lookup_insert_ne hne]
        exact h.unnamed cell hcell }
  have hconsistent := h.consistent.settled hentry hrecord result
  unfold RegistryState.settled at hconsistent ⊢
  split
  · rename_i hremoves
    rw [if_pos hremoves] at hconsistent
    exact hrest.stopped hentry hretained (fun st hmem => (hother st hmem).1) hconsistent
  · exact hrest

end Owned
end Registry
end Ctxmux
