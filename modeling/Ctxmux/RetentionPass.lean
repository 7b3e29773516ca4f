import Ctxmux.RetentionBudget

/-!
# What a reclamation pass does

A victim gives what is asked for or its whole reclaimable part, so the loop over the
sorted victims drains each one before it touches the next, and the total follows the
retained bytes of the live logs exactly.
-/

namespace Ctxmux
namespace Retention

open Output
open Durable (Byte)
open Machine

variable {ι : Type} [LinearOrder ι]

/-- A log that represents the stream of some Run. -/
def Sound (log : OutputLog) : Prop :=
  ∃ stream limit, replayCacheBlockBytes ≤ limit ∧ Represents stream limit log

theorem sound_origin (origin : LogOrigin) : Sound origin.log :=
  ⟨origin.stream,origin.blockLimit,origin.block_le,origin.represents⟩

/-- The Run with some of its oldest bytes gone. -/
structure Trimmed (freed : ℕ) (run next : Run) : Prop where
  protection : next.protection = run.protection
  attachments : next.attachments = run.attachments
  busy : next.busy = run.busy
  head : next.output.latestOutputBytes = run.output.latestOutputBytes
  first : next.output.firstAvailableByte = run.output.firstAvailableByte+freed
  retained : next.output.retainedBytes+freed = run.output.retainedBytes

theorem Trimmed.refl (run : Run) : Trimmed 0 run run := ⟨rfl,rfl,rfl,rfl,rfl,rfl⟩

/-- A victim gives what is asked for, or all it may give. -/
theorem Run.reclaimOutput_spec {run : Run} (h : Sound run.output) (dropAtLeast : ℕ) :
    ∃ freed next, run.reclaimOutput dropAtLeast = some (freed,next) ∧
      freed = min dropAtLeast run.reclaimableOutputBytes ∧ Sound next.output ∧
      Trimmed freed run next := by
  obtain ⟨stream,limit,hlimit,hlog⟩ := h
  by_cases hbusy : run.busy = true
  · refine ⟨0,run,if_pos hbusy,?_,⟨stream,limit,hlimit,hlog⟩,Trimmed.refl run⟩
    have hzero : run.reclaimableOutputBytes = 0 := if_pos hbusy
    rw [hzero,Nat.min_zero]
  · obtain ⟨freed,next,htrim,hnext,hfreed,hkept,hhead⟩ := hlog.trim dropAtLeast
      (run.protection.protectedFrom-run.output.firstAvailableByte)
    obtain ⟨-,-,-,hbefore⟩ := hlog.suffix.floor
    obtain ⟨-,-,-,hafter⟩ := hnext.suffix.floor
    have hreclaimable : run.reclaimableOutputBytes = min run.output.retainedBytes
        (run.protection.protectedFrom-run.output.firstAvailableByte) := if_neg hbusy
    refine ⟨freed,{ run with output := next },?_,by omega,⟨stream,limit,hlimit,hnext⟩,?_⟩
    · rw [Run.reclaimOutput,if_neg hbusy,htrim]
      rfl
    · exact
        { protection := rfl
          attachments := rfl
          busy := rfl
          head := hhead
          first := by simp only; omega
          retained := hkept }

namespace RetentionBudget

/-- The total is the sum over the live logs, which are all sound. -/
structure Accounted (budget : RetentionBudget ι) : Prop where
  total : budget.total = MapTotals.total (·.output.retainedBytes) budget.participants
  logs : ∀ id run, budget.participants.lookup id = some run → Sound run.output

variable {budget : RetentionBudget ι} {id : ι} {run next : Run}

theorem Accounted.retained_le (h : Accounted budget)
    (hrun : budget.participants.lookup id = some run) :
    run.output.retainedBytes ≤ budget.total :=
  h.total ▸ MapTotals.le_total (·.output.retainedBytes) hrun

theorem lookup_setRun_self (budget : RetentionBudget ι) (id : ι) (run : Run) :
    (budget.setRun id run).participants.lookup id = some run := AList.lookup_insert _

theorem lookup_setRun_ne {other : ι} (hne : other ≠ id) (budget : RetentionBudget ι) (run : Run) :
    (budget.setRun id run).participants.lookup other = budget.participants.lookup other :=
  AList.lookup_insert_ne hne

/-- A new value of one Run keeps the account when the total moves with it. -/
theorem Accounted.set (h : Accounted budget) (hrun : budget.participants.lookup id = some run)
    (hnext : Sound next.output) {total : ℕ}
    (htotal : total+run.output.retainedBytes = budget.total+next.output.retainedBytes) :
    Accounted ({ budget with total := total }.setRun id next) where
  total := by
    have herase := MapTotals.total_erase (·.output.retainedBytes) hrun
    have hinsert := MapTotals.total_insert (·.output.retainedBytes) budget.participants id next
    have hsum := h.total
    simp only [setRun]
    omega
  logs other found hfound := by
    by_cases hother : other = id
    · subst hother
      rw [lookup_setRun_self] at hfound
      cases hfound
      exact hnext
    · rw [lookup_setRun_ne hother] at hfound
      exact h.logs other found hfound

theorem reclaimOutput_absent (hrun : budget.participants.lookup id = none) (dropAtLeast : ℕ) :
    budget.reclaimOutput id dropAtLeast = some (0,budget) := by
  simp only [reclaimOutput,hrun]

theorem reclaimOutput_present (h : Accounted budget)
    (hrun : budget.participants.lookup id = some run) (dropAtLeast : ℕ) :
    ∃ freed next, budget.reclaimOutput id dropAtLeast =
        some (freed,(budget.sub freed).setRun id next) ∧
      freed = min dropAtLeast run.reclaimableOutputBytes ∧ Trimmed freed run next ∧
      Accounted ((budget.sub freed).setRun id next) ∧ freed ≤ budget.total := by
  obtain ⟨freed,next,hreclaim,hfreed,hsound,htrimmed⟩ :=
    Run.reclaimOutput_spec (h.logs id run hrun) dropAtLeast
  have hle := h.retained_le hrun
  have hretained := htrimmed.retained
  refine ⟨freed,next,?_,hfreed,htrimmed,?_,by omega⟩
  · simp only [reclaimOutput,hrun,hreclaim]
    rfl
  · exact h.set hrun hsound (by omega)

/-- What the loop over some victims leaves. -/
structure Drained (ids : List ι) (remaining : ℕ) (budget next : RetentionBudget ι) : Prop where
  accounted : Accounted next
  limit : next.limit = budget.limit
  perRunLimit : next.perRunLimit = budget.perRunLimit
  others : ∀ id, id ∉ ids → next.participants.lookup id = budget.participants.lookup id
  absent : ∀ id, budget.participants.lookup id = none → next.participants.lookup id = none
  trimmed : ∀ id run, budget.participants.lookup id = some run →
    ∃ freed after, next.participants.lookup id = some after ∧ Trimmed freed run after ∧
      freed ≤ run.reclaimableOutputBytes
  total : next.total+min remaining (ids.map budget.reclaimableOf).sum = budget.total
  ordered : ids.Pairwise fun x y =>
    0 < freedOf budget next y → freedOf budget next x = budget.reclaimableOf x
  idle : remaining = 0 → next = budget

theorem Accounted.undrained (h : Accounted budget) (ids : List ι) {remaining : ℕ}
    (hnone : min remaining (ids.map budget.reclaimableOf).sum = 0) :
    Drained ids remaining budget budget where
  accounted := h
  limit := rfl
  perRunLimit := rfl
  others _ _ := rfl
  absent _ hid := hid
  trimmed _ run hrun := ⟨0,run,hrun,Trimmed.refl run,Nat.zero_le _⟩
  total := by omega
  ordered := by
    apply List.pairwise_of_forall
    intro x y hy
    have : freedOf budget budget y = 0 := Nat.sub_self _
    omega
  idle _ := rfl

theorem reclaimableOf_of_ne {other : ι} (hne : other ≠ id) (budget : RetentionBudget ι) (run : Run)
    (freed : ℕ) :
    ((budget.sub freed).setRun id run).reclaimableOf other = budget.reclaimableOf other := by
  simp only [reclaimableOf,lookup_setRun_ne hne,sub]

theorem retainedOf_of_ne {other : ι} (hne : other ≠ id) (budget : RetentionBudget ι) (run : Run)
    (freed : ℕ) :
    ((budget.sub freed).setRun id run).retainedOf other = budget.retainedOf other := by
  simp only [retainedOf,lookup_setRun_ne hne,sub]

/-- The turn of a present victim, and the loop over the others behind it. -/
theorem Drained.cons {ids : List ι} {remaining freed : ℕ} {final : RetentionBudget ι}
    (hrun : budget.participants.lookup id = some run)
    (hfreed : freed = min remaining run.reclaimableOutputBytes) (htrimmed : Trimmed freed run next)
    (hle : freed ≤ budget.total) (hid : id ∉ ids) (hpositive : remaining ≠ 0)
    (h : Drained ids (remaining-freed) ((budget.sub freed).setRun id next) final) :
    Drained (id::ids) remaining budget final := by
  have hmid : final.participants.lookup id = some next := by
    rw [h.others id hid,lookup_setRun_self]
  have hreclaimable : budget.reclaimableOf id = run.reclaimableOutputBytes := by
    simp only [reclaimableOf,hrun,Option.elim_some]
  have hown : freedOf budget final id = freed := by
    have hretained := htrimmed.retained
    simp only [freedOf,retainedOf,hrun,hmid,Option.elim_some]
    omega
  have hne : ∀ other ∈ ids, other ≠ id := fun other hother heq => hid (heq ▸ hother)
  have hothers : ∀ other ∈ ids, freedOf ((budget.sub freed).setRun id next) final other =
      freedOf budget final other := fun other hother => by
    simp only [freedOf,retainedOf_of_ne (hne other hother)]
  have hrest : ids.map ((budget.sub freed).setRun id next).reclaimableOf =
      ids.map budget.reclaimableOf :=
    List.map_congr_left fun other hother => reclaimableOf_of_ne (hne other hother) budget next freed
  exact
    { accounted := h.accounted
      limit := h.limit
      perRunLimit := h.perRunLimit
      others := fun other hother => by
        rw [List.mem_cons,not_or] at hother
        rw [h.others other hother.2,lookup_setRun_ne hother.1]
        rfl
      absent := fun other hother => by
        have hother' : other ≠ id := fun heq => by
          rw [heq,hrun] at hother
          cases hother
        exact h.absent other (by rw [lookup_setRun_ne hother']; exact hother)
      trimmed := fun other found hfound => by
        by_cases hother : other = id
        · subst hother
          rw [hrun] at hfound
          cases hfound
          exact ⟨freed,next,hmid,htrimmed,by omega⟩
        · exact h.trimmed other found (by rw [lookup_setRun_ne hother]; exact hfound)
      total := by
        have htotal := h.total
        rw [hrest] at htotal
        simp only [setRun,sub] at htotal
        simp only [List.map_cons,List.sum_cons,hreclaimable]
        omega
      ordered := by
        refine List.Pairwise.cons ?_ ?_
        · intro other hother hpositive
          rw [hown,hreclaimable]
          by_contra hpart
          have hspent : remaining-freed = 0 := by omega
          have hsame := h.idle hspent
          rw [← hothers other hother,hsame] at hpositive
          exact absurd hpositive (by simp [freedOf])
        · refine h.ordered.imp_of_mem ?_
          intro x y hx hy hxy hpositive
          rw [hothers x hx,hothers y hy,reclaimableOf_of_ne (hne x hx)] at hxy
          exact hxy hpositive
      idle := fun hzero => absurd hzero hpositive }

theorem Drained.cons_absent {ids : List ι} {remaining : ℕ} {final : RetentionBudget ι}
    (hrun : budget.participants.lookup id = none) (h : Drained ids remaining budget final) :
    Drained (id::ids) remaining budget final := by
  have hnone : budget.reclaimableOf id = 0 := by simp only [reclaimableOf,hrun,Option.elim_none]
  exact
    { h with
      others := fun other hother => h.others other fun hmem => hother (List.mem_cons_of_mem _ hmem)
      total := by
        have htotal := h.total
        simp only [List.map_cons,List.sum_cons,hnone]
        omega
      ordered := by
        refine List.Pairwise.cons ?_ h.ordered
        intro other _ _
        simp only [freedOf,retainedOf,hrun,hnone,Option.elim_none]
        omega }

/-- Induction on the victims: the loop never fails and drains them in their order. -/
theorem reclaimLoop_spec (h : Accounted budget) {ids : List ι} (hids : ids.Nodup)
    (remaining : ℕ) :
    ∃ final, reclaimLoop ids remaining budget = some final ∧
      Drained ids remaining budget final := by
  induction ids generalizing budget remaining with
  | nil => exact ⟨budget,rfl,h.undrained [] (by simp)⟩
  | cons id ids ih =>
    obtain ⟨hid,hids⟩ := List.nodup_cons.mp hids
    by_cases hzero : remaining = 0
    · exact ⟨budget,if_pos hzero,h.undrained (id::ids) (by omega)⟩
    · rw [reclaimLoop,if_neg hzero]
      cases hrun : budget.participants.lookup id with
      | none =>
        obtain ⟨final,hloop,hdrained⟩ := ih h hids remaining
        refine ⟨final,?_,?_⟩
        · rw [reclaimOutput_absent hrun]
          exact hloop
        · exact hdrained.cons_absent hrun
      | some run =>
        obtain ⟨freed,next,hturn,hfreed,htrimmed,hnext,hle⟩ := reclaimOutput_present h hrun remaining
        obtain ⟨final,hloop,hdrained⟩ := ih hnext hids (remaining-freed)
        refine ⟨final,?_,hdrained.cons hrun hfreed htrimmed hle hid hzero⟩
        rw [hturn]
        exact hloop

end RetentionBudget
end Retention
end Ctxmux
