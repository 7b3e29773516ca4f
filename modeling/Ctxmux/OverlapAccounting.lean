import Ctxmux.OverlapSlots

/-!
# Every slot has one holder

The owned slots are those of the live reservations, the pending publications and the
cleanup owners. A transferred Run stays with the owners of its key until it is proven
cleaned up, and until then the key is fenced under the request that closed it.
-/

namespace Ctxmux
namespace Overlap

open Durable (RunId)
open Machine

variable {ρ : Type}

namespace CleanupState

variable {state : CleanupState ρ} {fence : PendingCleanupOwners ρ}

theorem mem_of_fence {key : CreateOperationKey} (h : state.fence key = some fence) :
    fence ∈ state.entries ∧ fence.key = key := by
  refine ⟨List.mem_of_find?_eq_some h,?_⟩
  have hkey := List.find?_some h
  exact of_decide_eq_true hkey

theorem fence_isSome {key : CreateOperationKey} :
    (state.fence key).isSome = true ↔ ∃ fence ∈ state.entries, fence.key = key := by
  simp [fence,List.find?_isSome]

theorem key_ne_of_fence {key : CreateOperationKey} (h : state.fence key = none)
    (hmem : fence ∈ state.entries) : fence.key ≠ key := by
  have hnone := List.find?_eq_none.mp h fence hmem
  simpa using hnone

section Prune

variable {view : CleanupView}

theorem length_reapable_add (view : RunId → Except String Unit) (entries : List CleanupEntry) :
    (reapable view entries).length+(unreaped view entries).length = entries.length :=
  (List.length_eq_length_filter_add fun entry : CleanupEntry => proven (view entry.run)).symm

theorem mem_retained : fence ∈ state.retained view ↔
    ∃ before ∈ state.entries, unreaped view.native before.owners ≠ [] ∧
      fence = { before with owners := unreaped view.native before.owners } := by
  simp only [retained,List.mem_filter,List.mem_map,decide_eq_true_eq]
  constructor
  · rintro ⟨⟨before,hmem,rfl⟩,hne⟩
    exact ⟨before,hmem,hne,rfl⟩
  · rintro ⟨before,hmem,hne,rfl⟩
    exact ⟨⟨before,hmem,rfl⟩,hne⟩

theorem keys_retained_sublist (state : CleanupState ρ) (view : CleanupView) :
    ((state.retained view).map (·.key)).Sublist (state.entries.map (·.key)) := by
  have hfilter := (List.filter_sublist (p := fun fence : PendingCleanupOwners ρ => fence.owners ≠ [])
    (l := state.entries.map fun fence =>
      { fence with owners := unreaped view.native fence.owners })).map (·.key)
  rw [List.map_map] at hfilter
  exact hfilter

theorem length_reaped_add (state : CleanupState ρ) (view : CleanupView) :
    (state.reaped view).length+((state.retained view).flatMap (·.owners)).length =
      (state.entries.flatMap (·.owners)).length := by
  unfold reaped retained
  induction state.entries with
  | nil => rfl
  | cons fence entries ih =>
    have hsplit := length_reapable_add view.native fence.owners
    rw [List.flatMap_cons,List.map_cons,List.flatMap_cons,List.length_append,List.length_append]
    by_cases hempty : unreaped view.native fence.owners = []
    · rw [List.filter_cons_of_neg (by simp [hempty])]
      rw [hempty,List.length_nil] at hsplit
      omega
    · rw [List.filter_cons_of_pos (by simp [hempty]),List.flatMap_cons,List.length_append]
      simp only
      omega

/-- An owner that is not proven cleaned up is left under its fence. -/
theorem exists_retained (hmem : fence ∈ state.entries) {owner : CleanupEntry}
    (howner : owner ∈ fence.owners) (hview : proven (view.native owner.run) = false) :
    ∃ after ∈ state.retained view, after.key = fence.key ∧ owner ∈ after.owners := by
  have hleft : owner ∈ unreaped view.native fence.owners := by
    simp only [unreaped,List.mem_filter]
    exact ⟨howner,by simp [hview]⟩
  exact ⟨_,mem_retained.mpr ⟨fence,hmem,List.ne_nil_of_mem hleft,rfl⟩,rfl,hleft⟩

end Prune

section Transfer

variable {key : CreateOperationKey} {request : ρ} {owner : CleanupEntry}
  {after : PendingCleanupOwners ρ}

theorem transfer_owned : (state.transfer key request owner).owned = state.owned := by
  unfold transfer
  cases state.fence key <;> rfl

theorem transfer_maxOwned : (state.transfer key request owner).maxOwned = state.maxOwned := by
  unfold transfer
  cases state.fence key <;> rfl

theorem transfer_tmuxEntries :
    (state.transfer key request owner).tmuxEntries = state.tmuxEntries := by
  unfold transfer
  cases state.fence key <;> rfl

theorem exists_transfer (hmem : fence ∈ state.entries) :
    ∃ after ∈ (state.transfer key request owner).entries, after.key = fence.key ∧
      ∀ entry ∈ fence.owners, entry ∈ after.owners := by
  unfold transfer
  cases state.fence key with
  | none => exact ⟨fence,List.mem_append_left _ hmem,rfl,fun _ h => h⟩
  | some _ =>
    refine ⟨_,List.mem_map_of_mem hmem,?_,?_⟩
    · split <;> rfl
    · intro entry hentry
      split
      · exact List.mem_append_left _ hentry
      · exact hentry

theorem exists_transferred (state : CleanupState ρ) (key : CreateOperationKey) (request : ρ)
    (owner : CleanupEntry) : ∃ after ∈ (state.transfer key request owner).entries,
      after.key = key ∧ owner ∈ after.owners := by
  unfold transfer
  cases h : state.fence key with
  | none => exact ⟨_,List.mem_append_right _ (List.mem_singleton.mpr rfl),rfl,
      List.mem_singleton.mpr rfl⟩
  | some fence =>
    obtain ⟨hmem,hkey⟩ := mem_of_fence h
    refine ⟨_,List.mem_map_of_mem hmem,?_,?_⟩
    · rw [if_pos hkey]
      exact hkey
    · rw [if_pos hkey]
      exact List.mem_append_right _ (List.mem_singleton.mpr rfl)

theorem mem_transfer (h : after ∈ (state.transfer key request owner).entries) :
    (∃ fence ∈ state.entries, fence.key = after.key ∧ fence.request = after.request) ∨
      state.fence key = none ∧ after.key = key ∧ after.request = request := by
  unfold transfer at h
  cases hfence : state.fence key with
  | none =>
    rw [hfence] at h
    rcases List.mem_append.mp h with h | h
    · exact .inl ⟨after,h,rfl,rfl⟩
    · cases List.mem_singleton.mp h
      exact .inr ⟨rfl,rfl,rfl⟩
  | some _ =>
    rw [hfence] at h
    obtain ⟨fence,hmem,rfl⟩ := List.mem_map.mp h
    refine .inl ⟨fence,hmem,?_,?_⟩ <;> split <;> rfl

/-- An owner was there under the key, or it is the one that was transferred. -/
theorem mem_owners_transfer (h : after ∈ (state.transfer key request owner).entries)
    {entry : CleanupEntry} (hentry : entry ∈ after.owners) :
    (∃ fence ∈ state.entries, fence.key = after.key ∧ entry ∈ fence.owners) ∨
      after.key = key ∧ entry = owner := by
  unfold transfer at h
  cases hfence : state.fence key with
  | none =>
    rw [hfence] at h
    rcases List.mem_append.mp h with h | h
    · exact .inl ⟨after,h,rfl,hentry⟩
    · cases List.mem_singleton.mp h
      exact .inr ⟨rfl,List.mem_singleton.mp hentry⟩
  | some _ =>
    rw [hfence] at h
    obtain ⟨fence,hmem,rfl⟩ := List.mem_map.mp h
    by_cases hkey : fence.key = key
    · rw [if_pos hkey] at hentry ⊢
      rcases List.mem_append.mp hentry with hentry | hentry
      · exact .inl ⟨fence,hmem,rfl,hentry⟩
      · exact .inr ⟨hkey,List.mem_singleton.mp hentry⟩
    · rw [if_neg hkey] at hentry ⊢
      exact .inl ⟨fence,hmem,rfl,hentry⟩

theorem owners_ne_nil_transfer (h : ∀ fence ∈ state.entries, fence.owners ≠ [])
    (hafter : after ∈ (state.transfer key request owner).entries) :
    after.owners ≠ [] := by
  unfold transfer at hafter
  cases hfence : state.fence key with
  | none =>
    rw [hfence] at hafter
    rcases List.mem_append.mp hafter with hafter | hafter
    · exact h after hafter
    · cases List.mem_singleton.mp hafter
      exact List.cons_ne_nil _ _
  | some _ =>
    rw [hfence] at hafter
    obtain ⟨fence,hmem,rfl⟩ := List.mem_map.mp hafter
    by_cases hkey : fence.key = key
    · rw [if_pos hkey]
      exact List.append_ne_nil_of_right_ne_nil _ (List.cons_ne_nil _ _)
    · rw [if_neg hkey]
      exact h fence hmem

theorem keys_transfer (h : (state.entries.map (·.key)).Nodup) :
    ((state.transfer key request owner).entries.map (·.key)).Nodup := by
  unfold transfer
  cases hfence : state.fence key with
  | none =>
    simp only [List.map_append,List.map_cons,List.map_nil]
    apply List.Nodup.append h (List.nodup_singleton _)
    intro other hother hlast
    obtain ⟨fence,hmem,rfl⟩ := List.mem_map.mp hother
    exact key_ne_of_fence hfence hmem (List.mem_singleton.mp hlast)
  | some _ =>
    have hkeys : (state.entries.map fun fence => if fence.key = key then
        { fence with owners := fence.owners ++ [owner] } else fence).map (·.key) =
          state.entries.map (·.key) := by
      rw [List.map_map]
      apply List.map_congr_left
      intro fence _
      simp only [Function.comp_apply]
      split <;> rfl
    exact hkeys ▸ h

theorem length_owners_transfer (h : (state.entries.map (·.key)).Nodup)
    (key : CreateOperationKey) (request : ρ) (owner : CleanupEntry) :
    ((state.transfer key request owner).entries.flatMap (·.owners)).length =
      (state.entries.flatMap (·.owners)).length+1 := by
  unfold transfer
  cases hfence : state.fence key with
  | none => simp [List.flatMap_append]
  | some fence =>
    obtain ⟨hmem,hkey⟩ := mem_of_fence hfence
    simp only
    clear hfence
    generalize state.entries = entries at h hmem ⊢
    induction entries with
    | nil => cases hmem
    | cons first rest ih =>
      obtain ⟨hfirst,hrest⟩ := List.nodup_cons.mp h
      rw [List.map_cons,List.flatMap_cons,List.flatMap_cons,List.length_append,List.length_append]
      rcases List.mem_cons.mp hmem with rfl | hmem
      · have hsame : (rest.map fun fence => if fence.key = key then
            { fence with owners := fence.owners ++ [owner] } else fence) = rest := by
          conv_rhs => rw [← List.map_id rest]
          apply List.map_congr_left
          intro other hother
          exact if_neg fun heq => hfirst (List.mem_map.mpr ⟨other,hother,heq.trans hkey.symm⟩)
        rw [hsame,if_pos hkey,List.length_append,List.length_singleton]
        omega
      · have hne : first.key ≠ key := fun heq => hfirst
          (List.mem_map.mpr ⟨fence,hmem,hkey.trans heq.symm⟩)
        rw [if_neg hne,ih hrest hmem]
        omega

end Transfer
end CleanupState

namespace Creations

variable [DecidableEq ρ] {maxOwned : ℕ} {s : Creations ρ} {view : CleanupView}

/-- The history: every Run is started once, and it is pending, settled or transferred. -/
structure Recorded (s : Creations ρ) : Prop where
  distinct : (s.started.map (·.run)).Nodup
  armed : ∀ pending ∈ s.pendings, pending ∈ s.started
  once : s.pendings.Nodup
  unsettled : ∀ pending ∈ s.pendings, pending.run ∉ s.settled
  known : ∀ run ∈ s.settled, ∃ pending ∈ s.started, pending.run = run
  handed : ∀ pending ∈ s.fencedBy, pending ∈ s.started ∧ pending ∉ s.pendings

/-- Where a started Run is: published or proven cleaned up, pending, or with the owners
of its key. The fence of a key has the request of the first transfer that closed it. -/
structure Fenced (s : Creations ρ) : Prop extends Recorded s where
  keys : (s.cleanups.entries.map (·.key)).Nodup
  inhabited : ∀ fence ∈ s.cleanups.entries, fence.owners ≠ []
  owners : ∀ fence ∈ s.cleanups.entries, ∀ owner ∈ fence.owners, owner.run ∉ s.settled ∧
    ∃ pending ∈ s.fencedBy, pending.key = fence.key ∧ pending.run = owner.run
  kept : ∀ pending ∈ s.started, pending.run ∈ s.settled ∨ pending ∈ s.pendings ∨
    pending ∈ s.fencedBy ∧ ∃ fence ∈ s.cleanups.entries, fence.key = pending.key ∧
      ∃ owner ∈ fence.owners, owner.run = pending.run
  founded : ∀ fence ∈ s.cleanups.entries, ∃ first,
    s.fencedBy.find? (·.key = fence.key) = some first ∧ first.request = fence.request
  closed : ∀ pending ∈ s.fencedBy, (s.cleanups.fence pending.key).isSome = true

/-- The slots and their holders. -/
structure Balanced (maxOwned : ℕ) (s : Creations ρ) : Prop extends Fenced s where
  slots : s.cleanups.owned = s.reservations.length+s.pendings.length+s.nativeOwners.length+
    (s.tmuxReservations+s.tmuxPendings.length+s.cleanups.tmuxEntries.length)
  limit : s.cleanups.maxOwned = maxOwned
  bounded : s.cleanups.owned ≤ maxOwned

omit [DecidableEq ρ] in
theorem balanced_new (maxOwned : ℕ) : Balanced maxOwned (new maxOwned : Creations ρ) where
  distinct := List.nodup_nil
  armed := by simp [new]
  once := List.nodup_nil
  unsettled := by simp [new]
  known := by simp [new]
  handed := by simp [new]
  keys := List.nodup_nil
  inhabited := by simp [new]
  owners := by simp [new]
  kept := by simp [new]
  founded := by simp [new]
  closed := by simp [new]
  slots := rfl
  limit := rfl
  bounded := Nat.zero_le _

omit [DecidableEq ρ] in
theorem Recorded.eq_of_run (h : Recorded s) {a b : PendingPublication ρ} (ha : a ∈ s.started)
    (hb : b ∈ s.started) (hrun : a.run = b.run) : a = b :=
  List.inj_on_of_nodup_map h.distinct ha hb hrun

section Prune

theorem mem_settledBy {run : RunId} : run ∈ s.settledBy view ↔
    ∃ pending ∈ s.started, pending ∉ s.pendings ∧ proven (view.native pending.run) = true ∧
      pending.run = run := by
  simp only [settledBy,List.mem_map,List.mem_filter,Bool.and_eq_true,decide_eq_true_eq,and_assoc]

theorem proven_of_settledBy {run : RunId} (h : run ∈ s.settledBy view) :
    proven (view.native run) = true := by
  obtain ⟨pending,_,_,hproven,rfl⟩ := mem_settledBy.mp h
  exact hproven

variable {cleanups : CleanupState ρ}

theorem mem_fencedBy_pruned {pending : PendingPublication ρ} :
    pending ∈ (s.pruned view cleanups).fencedBy ↔ pending ∈ s.fencedBy ∧
      ∃ other ∈ s.fencedBy, other.key = pending.key ∧ other.run ∉ s.settledBy view ++ s.settled := by
  simp only [pruned,List.mem_filter,List.any_eq_true,Bool.and_eq_true,decide_eq_true_eq]

/-- The first transfer of a key that stays closed is not forgotten. -/
theorem find_fencedBy_pruned {key : CreateOperationKey}
    (h : ∃ other ∈ s.fencedBy, other.key = key ∧ other.run ∉ s.settledBy view ++ s.settled) :
    (s.pruned view cleanups).fencedBy.find? (·.key = key) = s.fencedBy.find? (·.key = key) := by
  simp only [pruned]
  rw [List.find?_filter]
  congr 1
  funext pending
  by_cases hkey : pending.key = key
  · have hany : (s.fencedBy.any fun other =>
        other.key = pending.key && other.run ∉ s.settledBy view ++ s.settled) = true := by
      simp only [List.any_eq_true,Bool.and_eq_true,decide_eq_true_eq,hkey]
      exact h
    rw [hany]
    simp
  · simp [hkey]

theorem Recorded.prune (h : Recorded s) (view : CleanupView) (cleanups : CleanupState ρ) :
    Recorded (s.pruned view cleanups) where
  distinct := h.distinct
  armed := h.armed
  once := h.once
  unsettled := by
    intro pending hpending hsettled
    rcases List.mem_append.mp hsettled with hnew | hold
    · obtain ⟨other,hother,hleft,_,hrun⟩ := mem_settledBy.mp hnew
      have hsame := h.eq_of_run hother (h.armed pending hpending) hrun
      exact hleft (hsame ▸ hpending)
    · exact h.unsettled pending hpending hold
  known := by
    intro run hrun
    rcases List.mem_append.mp hrun with hnew | hold
    · obtain ⟨pending,hpending,_,_,hsame⟩ := mem_settledBy.mp hnew
      exact ⟨pending,hpending,hsame⟩
    · exact h.known run hold
  handed := fun pending hpending => h.handed pending (mem_fencedBy_pruned.mp hpending).1

/-- The owners that a prune leaves are not settled by it. -/
theorem Fenced.owners_prune (h : Fenced s) {fence : PendingCleanupOwners ρ}
    (hfence : fence ∈ s.cleanups.entries) {owner : CleanupEntry}
    (howner : owner ∈ unreaped view.native fence.owners) :
    owner.run ∉ s.settledBy view ++ s.settled ∧
      ∃ pending ∈ s.fencedBy, pending.key = fence.key ∧ pending.run = owner.run := by
  simp only [unreaped,List.mem_filter,Bool.not_eq_true'] at howner
  obtain ⟨hsettled,hpending⟩ := h.owners fence hfence owner howner.1
  refine ⟨?_,hpending⟩
  intro hmem
  rcases List.mem_append.mp hmem with hnew | hold
  · rw [proven_of_settledBy hnew] at howner
    cases howner.2
  · exact hsettled hold

/-- A transferred Run that is not settled is left with the owners of its key. -/
theorem Fenced.kept_prune (h : Fenced s) {pending : PendingPublication ρ}
    (hpending : pending ∈ s.fencedBy) (hsettled : pending.run ∉ s.settledBy view ++ s.settled) :
    ∃ fence ∈ s.cleanups.retained view, fence.key = pending.key ∧
      ∃ owner ∈ fence.owners, owner.run = pending.run := by
  obtain ⟨hstarted,hleft⟩ := h.handed pending hpending
  rcases h.kept pending hstarted with hold | hin | ⟨_,fence,hfence,hkey,owner,howner,hrun⟩
  · exact absurd (List.mem_append_right _ hold) hsettled
  · exact absurd hin hleft
  · cases hview : proven (view.native owner.run) with
    | true =>
      rw [hrun] at hview
      exact absurd (List.mem_append_left _ (mem_settledBy.mpr ⟨pending,hstarted,hleft,hview,rfl⟩))
        hsettled
    | false =>
      obtain ⟨after,hafter,hkeys,howners⟩ := CleanupState.exists_retained hfence howner hview
      exact ⟨after,hafter,hkeys.trans hkey,owner,howners,hrun⟩

theorem Fenced.prune (h : Fenced s) (hentries : cleanups.entries = s.cleanups.retained view) :
    Fenced (s.pruned view cleanups) where
  toRecorded := h.toRecorded.prune view cleanups
  keys := by
    simp only [pruned,hentries]
    exact h.keys.sublist (s.cleanups.keys_retained_sublist view)
  inhabited := by
    intro fence hfence
    simp only [pruned,hentries] at hfence
    obtain ⟨before,_,hne,rfl⟩ := CleanupState.mem_retained.mp hfence
    exact hne
  owners := by
    intro fence hfence owner howner
    simp only [pruned,hentries] at hfence
    obtain ⟨before,hbefore,_,rfl⟩ := CleanupState.mem_retained.mp hfence
    obtain ⟨hsettled,pending,hpending,hkey,hrun⟩ := h.owners_prune hbefore howner
    refine ⟨hsettled,pending,?_,hkey,hrun⟩
    exact mem_fencedBy_pruned.mpr ⟨hpending,pending,hpending,rfl,hrun ▸ hsettled⟩
  kept := by
    intro pending hstarted
    by_cases hsettled : pending.run ∈ s.settledBy view ++ s.settled
    · exact .inl hsettled
    · rcases h.kept pending hstarted with hold | hin | ⟨hfenced,_⟩
      · exact absurd (List.mem_append_right _ hold) hsettled
      · exact .inr (.inl hin)
      · refine .inr (.inr ⟨mem_fencedBy_pruned.mpr ⟨hfenced,pending,hfenced,rfl,hsettled⟩,?_⟩)
        simp only [pruned,hentries]
        exact h.kept_prune hfenced hsettled
  founded := by
    intro fence hfence
    simp only [pruned,hentries] at hfence
    obtain ⟨before,hbefore,hne,rfl⟩ := CleanupState.mem_retained.mp hfence
    obtain ⟨first,hfirst,hrequest⟩ := h.founded before hbefore
    obtain ⟨owner,howner⟩ := List.exists_mem_of_ne_nil _ hne
    obtain ⟨hsettled,pending,hpending,hkey,hrun⟩ := h.owners_prune hbefore howner
    refine ⟨first,?_,hrequest⟩
    rw [find_fencedBy_pruned ⟨pending,hpending,hkey,hrun ▸ hsettled⟩]
    exact hfirst
  closed := by
    intro pending hpending
    obtain ⟨_,other,hother,hkey,hsettled⟩ := mem_fencedBy_pruned.mp hpending
    obtain ⟨fence,hfence,hsame,_⟩ := h.kept_prune hother hsettled
    apply CleanupState.fence_isSome.mpr
    simp only [pruned,hentries]
    exact ⟨fence,hfence,hsame.trans hkey⟩

theorem Balanced.pruneReaped (h : Balanced maxOwned s) (view : CleanupView) :
    ∃ cleanups, s.cleanups.pruneReaped view = .ok cleanups ∧
      cleanups.entries = s.cleanups.retained view ∧ Balanced maxOwned (s.pruned view cleanups) := by
  have hnative := s.cleanups.length_reaped_add view
  have htmux := CleanupState.length_reapable_add view.tmux s.cleanups.tmuxEntries
  have hslots := h.slots
  have hbounded := h.bounded
  simp only [nativeOwners] at hslots
  refine ⟨_,if_pos (by simp only; omega),rfl,?_⟩
  exact {
    toFenced := h.toFenced.prune rfl
    slots := by
      simp only [pruned,nativeOwners]
      omega
    limit := h.limit
    bounded := by
      simp only [pruned]
      omega }

end Prune

end Creations
end Overlap
end Ctxmux
