import Ctxmux.OverlapAccounting

/-!
# The fences of unpublished Runs

Every operation keeps the account of the slots and no release fails. A key whose Run
was started and is neither published nor proven cleaned up stays closed.
-/

namespace Ctxmux
namespace Overlap

open Durable (RunId)
open Machine

variable {ρ : Type} [DecidableEq ρ]

namespace Creations

variable {maxOwned : ℕ} {s : Creations ρ} {view : CleanupView} {pending : PendingPublication ρ}
  {cleanups : CleanupState ρ}

omit [DecidableEq ρ] in
theorem Recorded.congr {s' : Creations ρ} (h : Recorded s) (hstarted : s'.started = s.started)
    (hpendings : s'.pendings = s.pendings) (hsettled : s'.settled = s.settled)
    (hfenced : s'.fencedBy = s.fencedBy) : Recorded s' := by
  obtain ⟨distinct,armed,once,unsettled,known,handed⟩ := h
  rw [← hstarted,← hpendings,← hsettled,← hfenced] at *
  exact ⟨distinct,armed,once,unsettled,known,handed⟩

omit [DecidableEq ρ] in
/-- The fences depend on the history and on the owners of the keys. -/
theorem Fenced.congr {s' : Creations ρ} (h : Fenced s) (hstarted : s'.started = s.started)
    (hpendings : s'.pendings = s.pendings) (hsettled : s'.settled = s.settled)
    (hfenced : s'.fencedBy = s.fencedBy) (hentries : s'.cleanups.entries = s.cleanups.entries) :
    Fenced s' := by
  have hrecorded := h.toRecorded.congr hstarted hpendings hsettled hfenced
  obtain ⟨_,keys,inhabited,owners,kept,founded,closed⟩ := h
  unfold CleanupState.fence at closed
  rw [← hentries] at keys inhabited owners kept founded closed
  rw [← hfenced] at owners kept founded closed
  rw [← hsettled] at owners kept
  rw [← hstarted,← hpendings] at kept
  exact ⟨hrecorded,keys,inhabited,owners,kept,founded,closed⟩

omit [DecidableEq ρ] in
theorem Fenced.arm (h : Fenced s) (hnew : ∀ other ∈ s.started, other.run ≠ pending.run)
    (reservations : List CreateOperationKey) :
    Fenced { s with
      reservations := reservations
      pendings := pending::s.pendings
      started := pending::s.started } where
  distinct := by
    refine List.nodup_cons.mpr ⟨?_,h.distinct⟩
    intro hmem
    obtain ⟨other,hother,hrun⟩ := List.mem_map.mp hmem
    exact hnew other hother hrun
  armed := by
    intro other hother
    rcases List.mem_cons.mp hother with rfl | hother
    · exact List.mem_cons_self
    · exact List.mem_cons_of_mem _ (h.armed other hother)
  once := by
    refine List.nodup_cons.mpr ⟨?_,h.once⟩
    exact fun hmem => hnew pending (h.armed pending hmem) rfl
  unsettled := by
    intro other hother hsettled
    rcases List.mem_cons.mp hother with rfl | hother
    · obtain ⟨old,hold,hrun⟩ := h.known _ hsettled
      exact hnew old hold hrun
    · exact h.unsettled other hother hsettled
  known := by
    intro run hrun
    obtain ⟨old,hold,hsame⟩ := h.known run hrun
    exact ⟨old,List.mem_cons_of_mem _ hold,hsame⟩
  handed := by
    intro other hother
    obtain ⟨hstarted,hleft⟩ := h.handed other hother
    refine ⟨List.mem_cons_of_mem _ hstarted,?_⟩
    intro hmem
    rcases List.mem_cons.mp hmem with rfl | hmem
    · exact hnew other hstarted rfl
    · exact hleft hmem
  keys := h.keys
  inhabited := h.inhabited
  owners := h.owners
  kept := by
    intro other hother
    rcases List.mem_cons.mp hother with rfl | hother
    · exact .inr (.inl List.mem_cons_self)
    · rcases h.kept other hother with hsettled | hpending | hfenced
      · exact .inl hsettled
      · exact .inr (.inl (List.mem_cons_of_mem _ hpending))
      · exact .inr (.inr hfenced)
  founded := h.founded
  closed := h.closed

theorem Fenced.settle (h : Fenced s) (hmem : pending ∈ s.pendings)
    (hentries : cleanups.entries = s.cleanups.entries) (reservations : List CreateOperationKey) :
    Fenced { s with
      cleanups := cleanups
      reservations := reservations
      pendings := s.pendings.erase pending
      settled := pending.run::s.settled } := by
  have hstarted := h.armed pending hmem
  have hclosed := h.closed
  unfold CleanupState.fence at hclosed
  exact {
    distinct := h.distinct
    armed := fun other hother => h.armed other (List.mem_of_mem_erase hother)
    once := h.once.erase pending
    unsettled := by
      intro other hother hsettled
      obtain ⟨hne,hother⟩ := h.once.mem_erase_iff.mp hother
      rcases List.mem_cons.mp hsettled with hrun | hsettled
      · exact hne (h.eq_of_run (h.armed other hother) hstarted hrun)
      · exact h.unsettled other hother hsettled
    known := by
      intro run hrun
      rcases List.mem_cons.mp hrun with rfl | hrun
      · exact ⟨pending,hstarted,rfl⟩
      · exact h.known run hrun
    handed := by
      intro other hother
      obtain ⟨hother,hleft⟩ := h.handed other hother
      exact ⟨hother,fun hin => hleft (List.mem_of_mem_erase hin)⟩
    keys := by
      rw [hentries]
      exact h.keys
    inhabited := by
      rw [hentries]
      exact h.inhabited
    owners := by
      rw [hentries]
      intro fence hfence owner howner
      obtain ⟨hsettled,other,hother,hkey,hrun⟩ := h.owners fence hfence owner howner
      refine ⟨?_,other,hother,hkey,hrun⟩
      intro hin
      rcases List.mem_cons.mp hin with hsame | hin
      · obtain ⟨hbegun,hleft⟩ := h.handed other hother
        exact hleft (h.eq_of_run hbegun hstarted (hrun.trans hsame) ▸ hmem)
      · exact hsettled hin
    kept := by
      rw [hentries]
      intro other hother
      rcases h.kept other hother with hsettled | hpending | hfenced
      · exact .inl (List.mem_cons_of_mem _ hsettled)
      · by_cases heq : other = pending
        · exact .inl (heq ▸ List.mem_cons_self)
        · exact .inr (.inl ((List.mem_erase_of_ne heq).mpr hpending))
      · exact .inr (.inr hfenced)
    founded := by
      rw [hentries]
      exact h.founded
    closed := by
      unfold CleanupState.fence
      rw [hentries]
      exact hclosed }

/-- A transfer leaves the Run with the owners of its key. -/
theorem Fenced.transferred (h : Fenced s) (hmem : pending ∈ s.pendings) (reason : String) :
    Fenced (s.transferred pending reason) where
  distinct := h.distinct
  armed := fun other hother => h.armed other (List.mem_of_mem_erase hother)
  once := h.once.erase pending
  unsettled := fun other hother => h.unsettled other (List.mem_of_mem_erase hother)
  known := h.known
  handed := by
    intro other hother
    rcases List.mem_append.mp hother with hother | hother
    · obtain ⟨hother,hleft⟩ := h.handed other hother
      exact ⟨hother,fun hin => hleft (List.mem_of_mem_erase hin)⟩
    · cases List.mem_singleton.mp hother
      exact ⟨h.armed pending hmem,fun hin => (h.once.mem_erase_iff.mp hin).1 rfl⟩
  keys := CleanupState.keys_transfer h.keys
  inhabited := fun _ hfence => CleanupState.owners_ne_nil_transfer h.inhabited hfence
  owners := by
    intro fence hfence owner howner
    rcases CleanupState.mem_owners_transfer hfence howner with ⟨before,hbefore,hkey,hold⟩ |
      ⟨hkey,rfl⟩
    · obtain ⟨hsettled,other,hother,hkeys,hrun⟩ := h.owners before hbefore owner hold
      exact ⟨hsettled,other,List.mem_append_left _ hother,hkeys.trans hkey,hrun⟩
    · exact ⟨h.unsettled pending hmem,pending,List.mem_append_right _ (List.mem_singleton_self _),
        hkey.symm,rfl⟩
  kept := by
    intro other hstarted
    rcases h.kept other hstarted with hsettled | hpending | ⟨hfenced,fence,hfence,hkey,owner,
      howner,hrun⟩
    · exact .inl hsettled
    · by_cases heq : other = pending
      · subst heq
        obtain ⟨after,hafter,hkey,howner⟩ :=
          s.cleanups.exists_transferred other.key other.request ⟨other.run,reason⟩
        exact .inr (.inr ⟨List.mem_append_right _ (List.mem_singleton.mpr rfl),after,hafter,hkey,_,
          howner,rfl⟩)
      · exact .inr (.inl ((List.mem_erase_of_ne heq).mpr hpending))
    · obtain ⟨after,hafter,hkeys,hleft⟩ := CleanupState.exists_transfer hfence
      exact .inr (.inr ⟨List.mem_append_left _ hfenced,after,hafter,hkeys.trans hkey,owner,
        hleft owner howner,hrun⟩)
  founded := by
    intro after hafter
    simp only [Creations.transferred]
    rcases CleanupState.mem_transfer hafter with ⟨fence,hfence,hkey,hrequest⟩ |
      ⟨hopen,hkey,hrequest⟩
    · obtain ⟨first,hfirst,hasked⟩ := h.founded fence hfence
      rw [hkey] at hfirst
      rw [List.find?_append,hfirst]
      exact ⟨first,rfl,hasked.trans hrequest⟩
    · have hnone : s.fencedBy.find? (·.key = after.key) = none := by
        rw [List.find?_eq_none]
        intro other hother hsame
        have hsame : other.key = after.key := of_decide_eq_true hsame
        have hclosed := h.closed other hother
        rw [hsame,hkey,hopen] at hclosed
        exact absurd hclosed (by simp)
      rw [List.find?_append,hnone]
      exact ⟨pending,by simp [hkey],hrequest.symm⟩
  closed := by
    intro other hother
    rcases List.mem_append.mp hother with hother | hother
    · obtain ⟨fence,hfence,hkey⟩ := CleanupState.fence_isSome.mp (h.closed other hother)
      obtain ⟨after,hafter,hkeys,_⟩ := CleanupState.exists_transfer hfence
      exact CleanupState.fence_isSome.mpr ⟨after,hafter,hkeys.trans hkey⟩
    · cases List.mem_singleton.mp hother
      obtain ⟨after,hafter,hkey,_⟩ :=
        s.cleanups.exists_transferred pending.key pending.request ⟨pending.run,reason⟩
      exact CleanupState.fence_isSome.mpr ⟨after,hafter,hkey⟩

/-- A transfer moves the slot of a pending publication to the owners of its key. -/
theorem Balanced.transferred (h : Balanced maxOwned s) (hmem : pending ∈ s.pendings)
    (reason : String) :
    Balanced maxOwned (s.transferred pending reason) where
  toFenced := h.toFenced.transferred hmem reason
  slots := by
    have hslots := h.slots
    have hpos := List.length_pos_of_mem hmem
    have hlength := List.length_erase_of_mem hmem
    have howners := CleanupState.length_owners_transfer h.keys pending.key pending.request
      ⟨pending.run,reason⟩
    simp only [Creations.transferred,nativeOwners,CleanupState.transfer_owned,
      CleanupState.transfer_tmuxEntries] at hslots ⊢
    omega
  limit := CleanupState.transfer_maxOwned.trans h.limit
  bounded := CleanupState.transfer_owned.trans_le h.bounded

/-- A reservation takes one slot that is free after the prune, or is refused. -/
theorem Balanced.reserve (h : Balanced maxOwned s) (view : CleanupView) :
    ∃ out, s.cleanups.reserve view = .ok out ∧
      ((∃ error, out.2 = .error error ∧ Balanced maxOwned (s.pruned view out.1)) ∨
        out.2 = .ok () ∧ ∃ cleanups, out.1 = { cleanups with owned := cleanups.owned+1 } ∧
          cleanups.owned < maxOwned ∧ Balanced maxOwned (s.pruned view cleanups)) := by
  obtain ⟨cleanups,hprune,_,hbalanced⟩ := h.pruneReaped view
  simp only [CleanupState.reserve,hprune,bind,Except.bind]
  have hlimit : cleanups.maxOwned = maxOwned := hbalanced.limit
  by_cases hfull : cleanups.maxOwned ≤ cleanups.owned
  · rw [if_pos hfull]
    exact ⟨_,rfl,.inl ⟨_,rfl,hbalanced⟩⟩
  · rw [if_neg hfull]
    exact ⟨_,rfl,.inr ⟨rfl,cleanups,rfl,by omega,hbalanced⟩⟩

theorem Balanced.granted (h : Balanced maxOwned (s.pruned view cleanups))
    (hfree : cleanups.owned < maxOwned) (key : CreateOperationKey) :
    Balanced maxOwned { s.pruned view { cleanups with owned := cleanups.owned+1 } with
      reservations := key::s.reservations } where
  toFenced := h.toFenced.congr rfl rfl rfl rfl rfl
  slots := by
    have hslots := h.slots
    simp only [pruned,nativeOwners,List.length_cons] at hslots ⊢
    omega
  limit := h.limit
  bounded := hfree

theorem Balanced.grantedTmux (h : Balanced maxOwned (s.pruned view cleanups))
    (hfree : cleanups.owned < maxOwned) :
    Balanced maxOwned { s.pruned view { cleanups with owned := cleanups.owned+1 } with
      tmuxReservations := s.tmuxReservations+1 } where
  toFenced := h.toFenced.congr rfl rfl rfl rfl rfl
  slots := by
    have hslots := h.slots
    simp only [pruned,nativeOwners] at hslots ⊢
    omega
  limit := h.limit
  bounded := hfree

/-- The event keeps the account and does not panic. -/
def Passes (maxOwned : ℕ) (out : Creations ρ×Option String) : Prop :=
  Balanced maxOwned out.1 ∧ out.2 = none

omit [DecidableEq ρ] in
theorem Balanced.guarded (h : Balanced maxOwned s) {q : Prop} [Decidable q]
    {out : Creations ρ×Option String} (hout : q → Passes maxOwned out) :
    Passes maxOwned (if q then out else (s,none)) := by
  split
  · exact hout ‹q›
  · exact ⟨h,rfl⟩

omit [DecidableEq ρ] in
/-- One slot can be released as long as there is a holder. -/
theorem releaseSlots_one {state : CleanupState ρ} (h : 1 ≤ state.owned) (message : String) :
    releaseSlots 1 message state = .ok { state with owned := state.owned-1 } := by
  unfold releaseSlots
  rw [if_pos h]

section

variable (h : Balanced maxOwned s)
include h

theorem Balanced.resolveFence (view : CleanupView) (key : CreateOperationKey) (request : ρ) :
    Passes maxOwned (s.act (.resolveFence view key request)) := by
  obtain ⟨cleanups,hprune,_,hbalanced⟩ := h.pruneReaped view
  simp only [Creations.act,CleanupState.resolveFence,hprune,bind,Except.bind,attempt]
  exact ⟨hbalanced,rfl⟩

theorem Balanced.pruneAndReport (view : CleanupView) :
    Passes maxOwned (s.act (.pruneAndReport view)) := by
  obtain ⟨cleanups,hprune,_,hbalanced⟩ := h.pruneReaped view
  simp only [Creations.act,CleanupState.pruneAndReport,hprune,bind,Except.bind,attempt]
  exact ⟨hbalanced,rfl⟩

theorem Balanced.reserved (view : CleanupView) (key : CreateOperationKey) :
    Passes maxOwned (s.act (.reserve view key)) := by
  obtain ⟨out,hreserve,⟨error,herror,hbalanced⟩ | ⟨hok,cleanups,hout,hfree,hbalanced⟩⟩ :=
    h.reserve view
  · simp only [Creations.act,hreserve,attempt,herror,Creations.granted]
    exact ⟨hbalanced,rfl⟩
  · simp only [Creations.act,hreserve,attempt,hok,Creations.granted,hout]
    exact ⟨hbalanced.granted hfree key,rfl⟩

theorem Balanced.reservedTmux (view : CleanupView) :
    Passes maxOwned (s.act (.reserveTmux view)) := by
  obtain ⟨out,hreserve,⟨error,herror,hbalanced⟩ | ⟨hok,cleanups,hout,hfree,hbalanced⟩⟩ :=
    h.reserve view
  · simp only [Creations.act,hreserve,attempt,herror,Creations.granted]
    exact ⟨hbalanced,rfl⟩
  · simp only [Creations.act,hreserve,attempt,hok,Creations.granted,hout]
    exact ⟨hbalanced.grantedTmux hfree,rfl⟩

theorem Balanced.dropReservation (key : CreateOperationKey) :
    Passes maxOwned (s.act (.dropReservation key)) := by
  apply h.guarded
  intro hmem
  have hslots := h.slots
  have hbounded := h.bounded
  have hpos := List.length_pos_of_mem hmem
  have hlength := List.length_erase_of_mem hmem
  have howned : 1 ≤ s.cleanups.owned := by omega
  simp only [CleanupState.dropReservation,releaseSlots_one howned,attempt]
  refine ⟨?_,rfl⟩
  exact {
    toFenced := h.toFenced.congr rfl rfl rfl rfl rfl
    slots := by
      simp only [nativeOwners] at hslots ⊢
      omega
    limit := h.limit
    bounded := by
      simp only
      omega }

theorem Balanced.dropTmuxReservation :
    Passes maxOwned (s.act .dropTmuxReservation) := by
  apply h.guarded
  intro hpos
  have hslots := h.slots
  have hbounded := h.bounded
  have howned : 1 ≤ s.cleanups.owned := by omega
  simp only [CleanupState.dropTmuxReservation,releaseSlots_one howned,attempt]
  refine ⟨?_,rfl⟩
  exact {
    toFenced := h.toFenced.congr rfl rfl rfl rfl rfl
    slots := by
      simp only [nativeOwners] at hslots ⊢
      omega
    limit := h.limit
    bounded := by
      simp only
      omega }

theorem Balanced.arm (key : CreateOperationKey) (request : ρ) (run : RunId) :
    Passes maxOwned (s.act (.arm key request run)) := by
  apply h.guarded
  rintro ⟨hmem,hnew⟩
  have hslots := h.slots
  have hpos := List.length_pos_of_mem hmem
  have hlength := List.length_erase_of_mem hmem
  refine ⟨?_,rfl⟩
  exact {
    toFenced := h.toFenced.arm hnew _
    slots := by
      simp only [nativeOwners,List.length_cons] at hslots ⊢
      omega
    limit := h.limit
    bounded := h.bounded }

theorem Balanced.publish (pending : PendingPublication ρ) :
    Passes maxOwned (s.act (.publish pending)) := by
  apply h.guarded
  intro hmem
  have hslots := h.slots
  have hpos := List.length_pos_of_mem hmem
  have hlength := List.length_erase_of_mem hmem
  refine ⟨?_,rfl⟩
  exact {
    toFenced := h.toFenced.settle hmem rfl _
    slots := by
      simp only [nativeOwners,List.length_cons] at hslots ⊢
      omega
    limit := h.limit
    bounded := h.bounded }

theorem Balanced.cleanupUnpublished (pending : PendingPublication ρ) (result : Except String Unit) :
    Passes maxOwned (s.act (.cleanupUnpublished pending result)) := by
  apply h.guarded
  intro hmem
  cases result with
  | error error => exact ⟨h.transferred hmem error,rfl⟩
  | ok _ =>
    have hslots := h.slots
    have hbounded := h.bounded
    have hpos := List.length_pos_of_mem hmem
    have hlength := List.length_erase_of_mem hmem
    have howned : 1 ≤ s.cleanups.owned := by omega
    simp only [CleanupState.dropReservation,releaseSlots_one howned,attempt]
    refine ⟨?_,rfl⟩
    exact {
      toFenced := h.toFenced.settle hmem (by rfl) _
      slots := by
        simp only [nativeOwners] at hslots ⊢
        omega
      limit := h.limit
      bounded := by
        simp only
        omega }

theorem Balanced.unwind (pending : PendingPublication ρ) (cleanupRequest : Except String Unit) :
    Passes maxOwned (s.act (.unwind pending cleanupRequest)) :=
  h.guarded fun hmem => ⟨h.transferred hmem _,rfl⟩

theorem Balanced.armTmux (run : RunId) :
    Passes maxOwned (s.act (.armTmux run)) := by
  apply h.guarded
  intro hpos
  have hslots := h.slots
  refine ⟨?_,rfl⟩
  exact {
    toFenced := h.toFenced.congr rfl rfl rfl rfl rfl
    slots := by
      simp only [nativeOwners,List.length_cons] at hslots ⊢
      omega
    limit := h.limit
    bounded := h.bounded }

theorem Balanced.publishTmux (run : RunId) :
    Passes maxOwned (s.act (.publishTmux run)) := by
  apply h.guarded
  intro hmem
  have hslots := h.slots
  have hpos := List.length_pos_of_mem hmem
  have hlength := List.length_erase_of_mem hmem
  refine ⟨?_,rfl⟩
  exact {
    toFenced := h.toFenced.congr rfl rfl rfl rfl rfl
    slots := by
      simp only [nativeOwners] at hslots ⊢
      omega
    limit := h.limit
    bounded := h.bounded }

theorem Balanced.transferTmux (run : RunId) (reason : String) :
    Passes maxOwned (s.act (.transferTmux run reason)) := by
  apply h.guarded
  intro hmem
  have hslots := h.slots
  have hpos := List.length_pos_of_mem hmem
  have hlength := List.length_erase_of_mem hmem
  refine ⟨?_,rfl⟩
  exact {
    toFenced := h.toFenced.congr rfl rfl rfl rfl rfl
    slots := by
      simp only [nativeOwners,CleanupState.transferTmux,List.length_append,
        List.length_singleton] at hslots ⊢
      omega
    limit := h.limit
    bounded := h.bounded }

theorem Balanced.act (e : CreationEvent ρ) :
    Passes maxOwned (s.act e) := by
  cases e with
  | resolveFence view key request => exact h.resolveFence view key request
  | reserve view key => exact h.reserved view key
  | dropReservation key => exact h.dropReservation key
  | arm key request run => exact h.arm key request run
  | publish pending => exact h.publish pending
  | cleanupUnpublished pending result => exact h.cleanupUnpublished pending result
  | unwind pending cleanupRequest => exact h.unwind pending cleanupRequest
  | reserveTmux view => exact h.reservedTmux view
  | dropTmuxReservation => exact h.dropTmuxReservation
  | armTmux run => exact h.armTmux run
  | publishTmux run => exact h.publishTmux run
  | transferTmux run reason => exact h.transferTmux run reason
  | pruneAndReport view => exact h.pruneAndReport view

end

theorem Balanced.run (maxOwned : ℕ) (es : List (CreationEvent ρ)) :
    Balanced maxOwned (run step (new maxOwned) es) :=
  run_invariant (I := Balanced maxOwned) (fun _ e h => (h.act e).1) (balanced_new maxOwned) es

/-- A key with a Run that is not proven cleaned up is refused. -/
theorem Balanced.resolveFence_refuses (h : Balanced maxOwned s) (hmem : pending ∈ s.started)
    (hsettled : pending.run ∉ s.settled) (hpending : pending ∉ s.pendings)
    (hview : proven (view.native pending.run) = false) (request : ρ) : ∃ first cleanups,
      s.fencedBy.find? (·.key = pending.key) = some first ∧
        s.cleanups.resolveFence view pending.key request = .ok (cleanups,.error
          (if first.request = request then ⟨.backendUnavailable,
            "Run creation is fenced while unpublished native owners remain active"⟩
          else ⟨.creationConflict,
            "Run creation operation key is fenced for a different request"⟩)) := by
  obtain ⟨cleanups,hprune,hentries,hbalanced⟩ := h.pruneReaped view
  rcases h.kept pending hmem with hin | hin | ⟨_,fence,hfence,hkey,owner,howner,hrun⟩
  · exact absurd hin hsettled
  · exact absurd hin hpending
  obtain ⟨after,hafter,hkeys,_⟩ := CleanupState.exists_retained hfence howner (hrun ▸ hview)
  rw [← hentries] at hafter
  obtain ⟨last,hlast⟩ := Option.isSome_iff_exists.mp
    (CleanupState.fence_isSome.mpr ⟨after,hafter,hkeys.trans hkey⟩)
  obtain ⟨hkept,hsame⟩ := CleanupState.mem_of_fence hlast
  obtain ⟨before,hbefore,_,heq⟩ := CleanupState.mem_retained.mp (hentries ▸ hkept)
  obtain ⟨first,hfirst,hrequest⟩ := h.founded before hbefore
  have hbeforeKey : before.key = pending.key := by rw [← hsame,heq]
  have hlastRequest : last.request = first.request := by rw [hrequest,heq]
  refine ⟨first,cleanups,hbeforeKey ▸ hfirst,?_⟩
  simp only [CleanupState.resolveFence,hprune,bind,Except.bind,hlast,hlastRequest]
  by_cases hask : first.request = request
  · rw [if_pos hask,if_pos hask]
  · rw [if_neg hask,if_neg hask]

/-- The account of the slots, and the fences of the started Runs. -/
structure Accounted (maxOwned : ℕ) (s : Creations ρ) : Prop where
  owned : s.cleanups.owned =
    (s.reservations.length+s.pendings.length+(s.tmuxReservations+s.tmuxPendings.length))+
      s.nativeOwners.length+s.cleanups.tmuxEntries.length
  bounded : s.cleanups.owned ≤ maxOwned
  released : ∀ e, s.panics e = none
  kept : ∀ pending ∈ s.started, pending.run ∉ s.settled → pending ∉ s.pendings →
    ∃ fence ∈ s.cleanups.entries, fence.key = pending.key ∧
      ∃ owner ∈ fence.owners, owner.run = pending.run
  closed : ∀ pending ∈ s.started, pending.run ∉ s.settled → pending ∉ s.pendings →
    ∀ view : CleanupView, proven (view.native pending.run) = false → ∀ request,
      ∃ first cleanups, s.fencedBy.find? (·.key = pending.key) = some first ∧
        s.cleanups.resolveFence view pending.key request = .ok (cleanups,.error
          (if first.request = request then ⟨.backendUnavailable,
            "Run creation is fenced while unpublished native owners remain active"⟩
          else ⟨.creationConflict,
            "Run creation operation key is fenced for a different request"⟩))

/-- In every state that any order of the operations reaches, the owned slots are the
untransferred reservations and the cleanup owners, within the limit, no release fails,
and a key is refused as long as one of its Runs is not proven cleaned up. -/
theorem overlap_slots_accounted (maxOwned : ℕ) (es : List (CreationEvent ρ)) :
    Accounted maxOwned (Machine.run step (new maxOwned) es) := by
  have h := Balanced.run maxOwned es
  have hslots := h.slots
  exact {
    owned := by omega
    bounded := h.bounded
    released := fun e => (h.act e).2
    kept := by
      intro pending hmem hsettled hpending
      rcases h.kept pending hmem with hin | hin | ⟨_,hfence⟩
      · exact absurd hin hsettled
      · exact absurd hin hpending
      · exact hfence
    closed := fun pending hmem hsettled hpending view hview request =>
      h.resolveFence_refuses hmem hsettled hpending hview request }

end Creations
end Overlap
end Ctxmux
