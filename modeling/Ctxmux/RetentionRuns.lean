import Ctxmux.RetentionPass

/-!
# The total in every state

Every operation on the budget keeps the account, so in each state that a sequence of
them reaches a reclamation pass brings the total to its limit, or as near to it as the
protected cursors allow.
-/

namespace Ctxmux
namespace Retention

open Output
open Durable (Byte)
open Machine

variable {ι : Type} [LinearOrder ι]

/-- In a sorted list the smaller of two elements stands first. -/
theorem rel_of_lt_of_pairwise {κ : Type} [LinearOrder κ] {R : κ → κ → Prop} {keys : List κ}
    {a b : κ} (hsorted : keys.Pairwise (· ≤ ·)) (hR : keys.Pairwise R) (ha : a ∈ keys)
    (hb : b ∈ keys) (hlt : a < b) : R a b := by
  induction keys with
  | nil => cases ha
  | cons key keys ih =>
    obtain ⟨hleast,hsorted⟩ := List.pairwise_cons.mp hsorted
    obtain ⟨hfirst,hR⟩ := List.pairwise_cons.mp hR
    rcases List.mem_cons.mp hb with rfl | hrest
    · rcases List.mem_cons.mp ha with rfl | ha
      · exact absurd hlt (lt_irrefl _)
      · exact absurd hlt (not_lt.mpr (hleast a ha))
    · rcases List.mem_cons.mp ha with rfl | ha
      · exact hfirst b hrest
      · exact ih hsorted hR ha hrest

namespace RetentionBudget

variable {budget next : RetentionBudget ι}

theorem lookup_of_mem {entry : Sigma fun _ : ι => Run}
    (h : entry ∈ budget.participants.entries) :
    budget.participants.lookup entry.1 = some entry.2 :=
  AList.mem_lookup_iff.mpr h

theorem victims_perm (budget : RetentionBudget ι) (except : ι) :
    (budget.victims except).Perm budget.participants.keys := by
  have hsorted := (List.perm_insertionSort (· ≤ ·)
    (budget.participants.entries.map fun entry => victimKey except entry.1 entry.2)).map
      VictimKey.runId
  rw [List.map_map] at hsorted
  exact hsorted

theorem victims_nodup (budget : RetentionBudget ι) (except : ι) :
    (budget.victims except).Nodup :=
  (budget.victims_perm except).nodup_iff.mpr budget.participants.keys_nodup

theorem sum_reclaimableOf (budget : RetentionBudget ι) (except : ι) :
    ((budget.victims except).map budget.reclaimableOf).sum =
      MapTotals.total Run.reclaimableOutputBytes budget.participants := by
  have hperm := ((budget.victims_perm except).map budget.reclaimableOf).sum_eq
  rw [hperm]
  simp only [AList.keys,List.keys,List.map_map,MapTotals.total]
  congr 1
  apply List.map_congr_left
  intro entry hentry
  simp only [Function.comp_apply,reclaimableOf,lookup_of_mem hentry,Option.elim_some]

theorem victims_before {except x y : ι} {p q : Run} (hx : budget.participants.lookup x = some p)
    (hy : budget.participants.lookup y = some q)
    (hlt : victimKey except x p < victimKey except y q) {R : ι → ι → Prop}
    (hR : (budget.victims except).Pairwise R) : R x y := by
  have hmem : ∀ id run, budget.participants.lookup id = some run → victimKey except id run ∈
      (budget.participants.entries.map fun entry => victimKey except entry.1 entry.2).insertionSort
        (· ≤ ·) := by
    intro id run hrun
    rw [List.mem_insertionSort]
    exact List.mem_map.mpr ⟨⟨id,run⟩,AList.mem_lookup_iff.mp hrun,rfl⟩
  unfold victims at hR
  have hkeys := List.pairwise_map.mp hR
  have hrel := rel_of_lt_of_pairwise (List.pairwise_insertionSort (· ≤ ·) _) hkeys (hmem x p hx)
    (hmem y q hy) hlt
  exact hrel

/-- What a pass from an accounted state does. -/
structure Reclaimed (except : ι) (budget next : RetentionBudget ι) : Prop where
  accounted : next.total = MapTotals.total (·.output.retainedBytes) next.participants
  same : ∀ id, budget.participants.lookup id = none ↔ next.participants.lookup id = none
  fenced : ∀ id run after, budget.participants.lookup id = some run →
    next.participants.lookup id = some after →
    after.output.latestOutputBytes = run.output.latestOutputBytes ∧
    run.output.firstAvailableByte ≤ after.output.firstAvailableByte ∧
    after.output.firstAvailableByte ≤
      max run.output.firstAvailableByte run.protection.protectedFrom
  ordered : ∀ x y p q, budget.participants.lookup x = some p →
    budget.participants.lookup y = some q → victimKey except x p < victimKey except y q →
    0 < freedOf budget next y → freedOf budget next x = p.reclaimableOutputBytes
  exact : budget.limit < budget.total → next.total = max budget.limit
    (budget.total-MapTotals.total Run.reclaimableOutputBytes budget.participants)
  idle : budget.total ≤ budget.limit → next = budget

theorem Drained.fenced {ids : List ι} {remaining : ℕ} (h : Drained ids remaining budget next)
    {id : ι} {run after : Run} (hrun : budget.participants.lookup id = some run)
    (hafter : next.participants.lookup id = some after) :
    after.output.latestOutputBytes = run.output.latestOutputBytes ∧
    run.output.firstAvailableByte ≤ after.output.firstAvailableByte ∧
    after.output.firstAvailableByte ≤
      max run.output.firstAvailableByte run.protection.protectedFrom := by
  obtain ⟨freed,found,hfound,htrimmed,hfreed⟩ := h.trimmed id run hrun
  rw [hafter] at hfound
  cases hfound
  have hfirst := htrimmed.first
  have hreclaimable : run.reclaimableOutputBytes ≤
      run.protection.protectedFrom-run.output.firstAvailableByte := by
    unfold Run.reclaimableOutputBytes
    split
    · exact Nat.zero_le _
    · exact min_le_right _ _
  exact ⟨htrimmed.head,by omega,by omega⟩

theorem Drained.same {ids : List ι} {remaining : ℕ} (h : Drained ids remaining budget next) (id : ι)
    :
    budget.participants.lookup id = none ↔ next.participants.lookup id = none := by
  refine ⟨h.absent id,fun hnone => ?_⟩
  cases hrun : budget.participants.lookup id with
  | none => rfl
  | some run =>
    obtain ⟨_,_,hfound,-⟩ := h.trimmed id run hrun
    rw [hnone] at hfound
    cases hfound

section

variable (h : Accounted budget)
include h

theorem reclaimExcess_spec (except : ι) :
    ∃ next, budget.reclaimExcess except = some next ∧ Accounted next ∧
      Reclaimed except budget next := by
  by_cases hfits : budget.total ≤ budget.limit
  · have hdrained := h.undrained (budget.victims except) (Nat.zero_min _)
    refine ⟨budget,if_pos hfits,h,?_⟩
    exact
      { accounted := h.total
        same := fun _ => Iff.rfl
        fenced := fun _ _ _ => hdrained.fenced
        ordered := fun x y p q hx hy hlt hpositive => absurd hpositive (by simp [freedOf])
        exact := fun hover => absurd hover (not_lt.mpr hfits)
        idle := fun _ => rfl }
  · obtain ⟨next,hloop,hdrained⟩ := reclaimLoop_spec h (budget.victims_nodup except)
      (budget.total-budget.limit)
    refine ⟨next,(if_neg hfits).trans hloop,hdrained.accounted,?_⟩
    exact
      { accounted := hdrained.accounted.total
        same := hdrained.same
        fenced := fun _ _ _ => hdrained.fenced
        ordered := fun x y p q hx hy hlt hpositive => by
          have hdrain := victims_before hx hy hlt hdrained.ordered hpositive
          rw [hdrain,reclaimableOf,hx,Option.elim_some]
        exact := fun hover => by
          have htotal := hdrained.total
          rw [sum_reclaimableOf] at htotal
          omega
        idle := fun hfits' => absurd hfits' hfits }

theorem recordOutputLocked_spec {id : ι} {run : Run}
    (hrun : budget.participants.lookup id = some run) {data : List Byte}
    (hnext : budget.recordOutputLocked id run data = some next) : Accounted next := by
  obtain ⟨stream,limit,hlimit,hlog⟩ := h.logs id run hrun
  obtain ⟨⟨chunk,output⟩,hpush,hset⟩ := Option.bind_eq_some_iff.mp hnext
  have hok : ¬(data = [] ∨ u64Max < stream.head+data.length) := fun hrefused => by
    have hnone : run.output.pushProtected budget.perRunLimit data run.protection.protectedFrom =
        none := if_pos (by rw [hlog.head]; exact hrefused)
    rw [hnone] at hpush
    cases hpush
  obtain ⟨freed,pushed,hpushed,hsound,hfreed,hretained,-⟩ := hlog.push budget.perRunLimit hlimit
    (fun hdata => hok (.inl hdata)) (not_lt.mp fun hmax => hok (.inr hmax))
    run.protection.protectedFrom
  rw [hpush] at hpushed
  cases hpushed
  cases hset
  have hle := h.retained_le hrun
  refine h.set hrun ⟨_,limit,hlimit,hsound⟩ ?_
  simp only [add]
  omega

theorem recordOutput_spec (id : ι) (data : List Byte)
    (hnext : budget.recordOutput id data = some next) :
    Accounted next := by
  unfold recordOutput at hnext
  cases hrun : budget.participants.lookup id with
  | none =>
    simp only [hrun] at hnext
    cases hnext
    exact h
  | some run =>
    simp only [hrun] at hnext
    by_cases hdata : data = []
    · rw [if_pos hdata] at hnext
      cases hnext
      exact h
    · rw [if_neg hdata] at hnext
      obtain ⟨pushed,hpushed,hreclaim⟩ := Option.bind_eq_some_iff.mp hnext
      have hpushed := recordOutputLocked_spec h hrun hpushed
      obtain ⟨final,hfinal,haccounted,-⟩ := reclaimExcess_spec hpushed id
      rw [hreclaim] at hfinal
      cases hfinal
      exact haccounted

theorem register_spec (id : ι) (origin : LogOrigin) (protection : Protection) :
    Accounted (budget.register id origin protection) := by
  unfold register
  cases hrun : budget.participants.lookup id with
  | some run => exact h
  | none =>
    exact
      { total := by
          have hinsert := MapTotals.total_insert_new (·.output.retainedBytes) hrun
            ⟨origin.log,protection,0,false⟩
          have hsum := h.total
          simp only at hinsert
          simp only [setRun,add]
          omega
        logs := fun other found hfound => by
          by_cases hother : other = id
          · subst hother
            rw [lookup_setRun_self] at hfound
            cases hfound
            exact sound_origin origin
          · rw [lookup_setRun_ne hother] at hfound
            exact h.logs other found hfound }

theorem dropRun_spec (id : ι) : Accounted (budget.dropRun id) := by
  unfold dropRun
  cases hrun : budget.participants.lookup id with
  | none => exact h
  | some run =>
    exact
      { total := by
          have herase := MapTotals.total_erase (·.output.retainedBytes) hrun
          have hsum := h.total
          simp only [sub]
          omega
        logs := fun other found hfound => by
          by_cases hother : other = id
          · subst hother
            have hgone : (budget.participants.erase other).lookup other = none :=
              AList.lookup_erase _ _
            rw [show (_ : RetentionBudget ι).participants.lookup other = none from hgone] at hfound
            cases hfound
          · have hkept : (budget.participants.erase id).lookup other =
                budget.participants.lookup other := AList.lookup_erase_ne hother
            exact h.logs other found (hkept ▸ hfound) }

theorem observe_spec (id : ι) (protection : Protection) (attachments : ℕ) (busy : Bool) :
    Accounted (budget.observe id protection attachments busy) := by
  unfold observe
  cases hrun : budget.participants.lookup id with
  | none => exact h
  | some run =>
    have hsound : Sound (⟨run.output,protection,attachments,busy⟩ : Run).output :=
      h.logs id run hrun
    exact h.set hrun hsound rfl

theorem Accounted.step (event : BudgetEvent ι) :
    Accounted (budget.step event) := by
  have hsome : ∀ next, budget.effect event = some next → Accounted next := by
    intro next hnext
    cases event with
    | register id origin protection =>
      cases hnext
      exact register_spec h id origin protection
    | recordOutput id data => exact recordOutput_spec h id data hnext
    | reclaimExcess except =>
      obtain ⟨final,hfinal,haccounted,-⟩ := reclaimExcess_spec h except
      have hsame : budget.reclaimExcess except = some next := hnext
      rw [hsame] at hfinal
      cases hfinal
      exact haccounted
    | dropRun id =>
      cases hnext
      exact dropRun_spec h id
    | observe id protection attachments busy =>
      cases hnext
      exact observe_spec h id protection attachments busy
  unfold RetentionBudget.step
  cases heffect : budget.effect event with
  | none => exact h
  | some next => exact hsome next heffect

end

theorem accounted_new (limit perRunLimit : ℕ) :
    Accounted (withLimits limit perRunLimit : RetentionBudget ι) where
  total := rfl
  logs _ _ hrun := by cases hrun

/-- In every state of every sequence of operations the total is the sum of the retained
bytes, no subtraction from it saturates, and a reclamation pass evicts in the order of
the victim keys, below the fences and no more than it has to. -/
theorem retention_budget_exact (limit perRunLimit : ℕ) (events : List (BudgetEvent ι)) :
    Always RetentionBudget.step
      (fun budget =>
        budget.total = MapTotals.total (·.output.retainedBytes) budget.participants ∧
        (∀ id run, budget.participants.lookup id = some run →
          run.output.retainedBytes ≤ budget.total) ∧
        ∀ except, ∃ next, budget.reclaimExcess except = some next ∧
          Reclaimed except budget next ∧
          ∀ turns, ∃ mid, reclaimLoop ((budget.victims except).take turns)
              (budget.total-budget.limit) budget = some mid ∧
            ∀ id run, mid.participants.lookup id = some run →
              run.output.retainedBytes ≤ mid.total)
      (withLimits limit perRunLimit) events := by
  refine always_of_invariant (I := Accounted) (fun budget event h => Accounted.step h event) ?_
    (accounted_new limit perRunLimit) events
  intro budget h
  refine ⟨h.total,fun id run hrun => h.retained_le hrun,fun except => ?_⟩
  obtain ⟨next,hnext,-,hreclaimed⟩ := reclaimExcess_spec h except
  refine ⟨next,hnext,hreclaimed,fun turns => ?_⟩
  have hids := (budget.victims_nodup except).sublist (List.take_sublist turns _)
  obtain ⟨mid,hmid,hdrained⟩ := reclaimLoop_spec h hids (budget.total-budget.limit)
  exact ⟨mid,hmid,fun id run hrun => hdrained.accounted.retained_le hrun⟩

end RetentionBudget
end Retention
end Ctxmux
