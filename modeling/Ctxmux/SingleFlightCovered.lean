import Ctxmux.SingleFlight

/-!
# Who answers for the excess

While nobody has read the excess, some caller in flight will. Once the holder has read
it, the excess is what the holder still sheds, or a caller that it has not counted is still
in flight: one that added its bytes since, or that held the output lock of a victim. A run in
which no such caller loses the election ends within the limit.
-/

namespace Ctxmux
namespace Retention

open Output
open Durable (Byte)
open Machine

variable {κ ι : Type} [DecidableEq κ] [LinearOrder ι]

namespace RetentionBudget

variable {budget next : RetentionBudget ι} {id : ι} {run : Run}

/-- Every Run is memory-only and its owner locks are free. -/
def MemoryOnly (budget : RetentionBudget ι) : Prop :=
  ∀ id run, budget.participants.lookup id = some run →
    run.protection = .memoryOnly ∧ run.busy = false

theorem MemoryOnly.set (h : MemoryOnly budget) {total : ℕ} (hprotection : run.protection = .memoryOnly)
    (hbusy : run.busy = false) : MemoryOnly ({ budget with total := total }.setRun id run) := by
  intro other found hfound
  by_cases hother : other = id
  · subst hother
    rw [lookup_setRun_self] at hfound
    cases hfound
    exact ⟨hprotection,hbusy⟩
  · rw [lookup_setRun_ne hother] at hfound
    exact h other found hfound

theorem reclaimable_eq_retained (hsound : Sound run.output) (hprotection : run.protection = .memoryOnly)
    (hbusy : run.busy = false) : run.reclaimableOutputBytes = run.output.retainedBytes := by
  obtain ⟨stream,limit,-,hlog⟩ := hsound
  obtain ⟨-,-,-,hretained⟩ := hlog.suffix.floor
  have hbounded := hlog.bounded
  have hreclaimable : run.reclaimableOutputBytes = min run.output.retainedBytes
      (run.protection.protectedFrom-run.output.firstAvailableByte) := if_neg (by simp [hbusy])
  rw [hreclaimable,hprotection]
  simp only [Protection.protectedFrom]
  omega

theorem total_eq_zero (h : Accounted budget) (hzero : ∀ id, budget.retainedOf id = 0) :
    budget.total = 0 := by
  rw [h.total,MapTotals.total]
  apply List.sum_eq_zero
  intro bytes hbytes
  obtain ⟨entry,hentry,rfl⟩ := List.mem_map.mp hbytes
  have hlookup := lookup_of_mem hentry
  have hretained := hzero entry.1
  simp only [retainedOf,hlookup,Option.elim_some] at hretained
  exact hretained

theorem retainedOf_of_not_mem (h : id ∉ budget.participants.keys) : budget.retainedOf id = 0 := by
  have hnone : budget.participants.lookup id = none := AList.lookup_eq_none.mpr h
  simp only [retainedOf,hnone,Option.elim_none]

/-- The Run keeps its owner, and the account goes with its log. -/
structure Relogged (budget : RetentionBudget ι) (id : ι) (run : Run) (next : RetentionBudget ι) :
    Prop where
  accounted : Accounted next
  shape : ∃ total output, next = { budget with total := total }.setRun id { run with output := output }

theorem Relogged.memory (h : Relogged budget id run next) (hmemory : MemoryOnly budget)
    (hrun : budget.participants.lookup id = some run) : MemoryOnly next := by
  obtain ⟨total,output,rfl⟩ := h.shape
  obtain ⟨hprotection,hbusy⟩ := hmemory id run hrun
  exact hmemory.set hprotection hbusy

theorem Relogged.limit (h : Relogged budget id run next) : next.limit = budget.limit := by
  obtain ⟨total,output,rfl⟩ := h.shape
  rfl

/-- New bytes are counted with the log that holds them. -/
theorem relogged_of_pushCounted (h : Accounted budget) (hrun : budget.participants.lookup id = some run)
    {data : List Byte} (hpush : budget.pushCounted id run data = some next) :
    Relogged budget id run next := by
  obtain ⟨stream,limit,hlimit,hlog⟩ := h.logs id run hrun
  unfold pushCounted at hpush
  split at hpush
  · cases hpush
  · rename_i hok
    rw [not_or,not_lt] at hok
    cases hpush
    have hafter := hlog.admitted hlimit hok.1 (hlog.head ▸ hok.2)
    have hbounded : run.output.retainedBytes+data.length ≤ u64Max := by
      obtain ⟨-,-,-,hretained⟩ := hlog.suffix.floor
      omega
    refine ⟨h.set hrun ⟨_,limit,hlimit,hafter⟩ ?_,_,_,rfl⟩
    simp only [OutputLog.admitted,min_eq_left hbounded]
    omega

theorem relogged_of_trimOwn (h : Accounted budget) (hrun : budget.participants.lookup id = some run)
    (htrim : budget.trimOwn id run = some next) :
    Relogged budget id run next ∧ next.total ≤ budget.total ∧
      ∀ other, budget.retainedOf other = 0 → next.retainedOf other = 0 := by
  obtain ⟨stream,limit,hlimit,hlog⟩ := h.logs id run hrun
  obtain ⟨freed,output,htrimmed,hsound,-,hretained,-⟩ := hlog.trim
    (run.output.retainedBytes-budget.perRunLimit)
    (run.protection.protectedFrom-run.output.firstAvailableByte)
  unfold trimOwn at htrim
  rw [htrimmed] at htrim
  cases htrim
  have hle := h.retained_le hrun
  refine ⟨⟨h.set hrun ⟨stream,limit,hlimit,hsound⟩ (by simp only; omega),_,_,rfl⟩,
    Nat.sub_le _ _,fun other hzero => ?_⟩
  by_cases hother : other = id
  · subst hother
    simp only [retainedOf,hrun,lookup_setRun_self,Option.elim_some] at hzero ⊢
    omega
  · simp only [retainedOf,lookup_setRun_ne hother] at hzero ⊢
    exact hzero

/-- Both halves together are the push of a sequential caller. -/
theorem recordOutputLocked_eq (h : Accounted budget)
    (hrun : budget.participants.lookup id = some run) (data : List Byte) :
    budget.recordOutputLocked id run data = (budget.pushCounted id run data).bind fun next =>
      next.trimOwn id { run with output := run.output.admitted data } := by
  obtain ⟨stream,limit,hlimit,hlog⟩ := h.logs id run hrun
  unfold recordOutputLocked pushCounted OutputLog.pushProtected
  split
  · rfl
  · rename_i hok
    rw [not_or,not_lt] at hok
    have hafter := hlog.admitted hlimit hok.1 (hlog.head ▸ hok.2)
    obtain ⟨freed,output,htrimmed,-,-,hretained,-⟩ := hafter.trim
      ((run.output.admitted data).retainedBytes-budget.perRunLimit)
      (run.protection.protectedFrom-(run.output.admitted data).firstAvailableByte)
    have hbounded : run.output.retainedBytes+data.length ≤ u64Max := by
      obtain ⟨-,-,-,hsuffix⟩ := hlog.suffix.floor
      omega
    have hcounted : (run.output.admitted data).retainedBytes =
        run.output.retainedBytes+data.length := min_eq_left hbounded
    have hfreed : run.output.retainedBytes+data.length-output.retainedBytes = freed := by omega
    simp only [Option.bind_eq_bind,htrimmed,Option.bind_some,trimOwn,add,setRun,hfreed,sub,
      AList.insert_insert]

theorem register_empty (budget : RetentionBudget ι) (id : ι) (truncated : Bool) :
    (budget.register id (if truncated then .withInitialTruncation else .new) .memoryOnly).total =
      budget.total ∧
    (budget.register id (if truncated then .withInitialTruncation else .new) .memoryOnly).limit =
      budget.limit ∧
    ∀ other, budget.retainedOf other = 0 →
      (budget.register id (if truncated then .withInitialTruncation else .new)
        .memoryOnly).retainedOf other = 0 := by
  have hempty : (if truncated then LogOrigin.withInitialTruncation else .new).log.retainedBytes =
      0 := by cases truncated <;> rfl
  unfold register
  cases hrun : budget.participants.lookup id with
  | some run => exact ⟨rfl,rfl,fun _ hzero => hzero⟩
  | none =>
    refine ⟨by simp only [setRun,add,hempty]; rfl,rfl,fun other hzero => ?_⟩
    by_cases hother : other = id
    · subst hother
      simp only [retainedOf,lookup_setRun_self,Option.elim_some,hempty]
    · simp only [retainedOf,lookup_setRun_ne hother]
      exact hzero

theorem MemoryOnly.register (h : MemoryOnly budget) (id : ι) (origin : LogOrigin) :
    MemoryOnly (budget.register id origin .memoryOnly) := by
  unfold RetentionBudget.register
  cases hrun : budget.participants.lookup id with
  | some run => exact h
  | none => exact h.set rfl rfl

/-- The turn of a victim whose bytes can all be reclaimed. -/
theorem reclaimOutput_memoryOnly (h : Accounted budget) (hmemory : MemoryOnly budget) (id : ι)
    (remaining : ℕ) :
    ∃ freed next, budget.reclaimOutput id remaining = some (freed,next) ∧ Accounted next ∧
      MemoryOnly next ∧ next.limit = budget.limit ∧ next.total+freed = budget.total ∧
      freed ≤ remaining ∧ (freed < remaining → next.retainedOf id = 0) ∧
      ∀ other, other ≠ id → next.retainedOf other = budget.retainedOf other := by
  cases hrun : budget.participants.lookup id with
  | none =>
    refine ⟨0,budget,reclaimOutput_absent hrun remaining,h,hmemory,rfl,rfl,Nat.zero_le _,?_,
      fun _ _ => rfl⟩
    intro _
    simp only [retainedOf,hrun,Option.elim_none]
  | some run =>
    obtain ⟨hprotection,hbusy⟩ := hmemory id run hrun
    obtain ⟨freed,after,hturn,hfreed,htrimmed,hnext,hle⟩ := reclaimOutput_present h hrun remaining
    have hall := reclaimable_eq_retained (h.logs id run hrun) hprotection hbusy
    have hretained := htrimmed.retained
    refine ⟨freed,_,hturn,hnext,?_,rfl,?_,by omega,?_,?_⟩
    · exact hmemory.set (htrimmed.protection.trans hprotection) (htrimmed.busy.trans hbusy)
    · simp only [setRun,sub]
      omega
    · intro hpart
      simp only [retainedOf,lookup_setRun_self,Option.elim_some]
      omega
    · intro other hother
      exact retainedOf_of_ne hother budget after freed

end RetentionBudget

namespace Flight

open RetentionBudget

variable {flight : Flight κ ι} {caller : κ} {phase : Phase ι}

omit [LinearOrder ι] in
@[simp] theorem setPhase_budget (flight : Flight κ ι) (caller : κ) (phase : Phase ι) :
    (flight.setPhase caller phase).budget = flight.budget := rfl

omit [LinearOrder ι] in
@[simp] theorem setPhase_reclaiming (flight : Flight κ ι) (caller : κ) (phase : Phase ι) :
    (flight.setPhase caller phase).reclaiming = flight.reclaiming := rfl

omit [LinearOrder ι] in
@[simp] theorem setPhase_phase_self (flight : Flight κ ι) (caller : κ) (phase : Phase ι) :
    (flight.setPhase caller phase).phase caller = phase := by simp [setPhase]

omit [LinearOrder ι] in
theorem setPhase_phase_ne {other : κ} (h : other ≠ caller) (flight : Flight κ ι)
    (phase : Phase ι) : (flight.setPhase caller phase).phase other = flight.phase other := by
  simp [setPhase,h]

omit [LinearOrder ι] in
theorem output_of_holds (h : phase.holds = true) : phase.output = none := by
  cases phase <;> first | rfl | cases h

omit [LinearOrder ι] in
theorem owes_of_output {id : ι} (h : phase.output = some id) :
    phase.owes = true ∧ phase.holds = false := by
  cases phase <;> first | exact ⟨rfl,rfl⟩ | cases h

/-- A caller that the holder has not counted is still in flight. -/
def Pending (flight : Flight κ ι) : Prop :=
  ∃ caller, (flight.phase caller).owes = true ∧ flight.missed caller = true

/-- What the holder sheds covers the excess over the limit. -/
def Shedding (flight : Flight κ ι) : Phase ι → Prop
  | .measured excess => flight.Pending ∨ flight.budget.total ≤ flight.budget.limit+excess
  | .sweeping victims remaining => flight.Pending ∨
      flight.budget.total ≤ flight.budget.limit+remaining ∧
        (remaining = 0 ∨ ∀ id, id ∉ victims → flight.budget.retainedOf id = 0)
  | .returned | .locked _ _ | .admitted _ | .recorded _ | .released | .overBudget | .elected =>
    ∃ caller, (flight.phase caller).owes = true

/-- Somebody answers for the excess. -/
def Answered (flight : Flight κ ι) : Prop :=
  match flight.reclaiming with
  | none => ∃ caller, (flight.phase caller).owes = true
  | some holder => flight.Shedding (flight.phase holder)

structure Covered (limit : ℕ) (flight : Flight κ ι) : Prop where
  accounted : Accounted flight.budget
  memory : MemoryOnly flight.budget
  fixed : flight.budget.limit = limit
  lock : ∀ caller, (flight.phase caller).holds = true ↔ flight.reclaiming = some caller
  outputs : ∀ id caller, flight.outputOwner id = some caller →
    (flight.phase caller).output = some id
  answered : flight.budget.total ≤ flight.budget.limit ∨ flight.Answered

omit [DecidableEq κ] in
/-- The part of the holder stays covered while the retained bytes only get fewer. -/
theorem Shedding.mono {next : Flight κ ι} (hlimit : next.budget.limit = flight.budget.limit)
    (htotal : next.budget.total ≤ flight.budget.total)
    (hzero : ∀ id, flight.budget.retainedOf id = 0 → next.budget.retainedOf id = 0)
    (hpending : flight.Pending → next.Pending)
    (howes : (∃ caller, (flight.phase caller).owes = true) →
      ∃ caller, (next.phase caller).owes = true) (h : flight.Shedding phase) :
    next.Shedding phase := by
  cases phase with
  | measured excess => exact h.imp hpending fun hcovers => by rw [hlimit]; exact htotal.trans hcovers
  | sweeping victims remaining =>
    refine h.imp hpending fun hcovers => ⟨?_,hcovers.2.imp_right fun hgone id hid =>
      hzero id (hgone id hid)⟩
    rw [hlimit]
    exact htotal.trans hcovers.1
  | returned => exact howes h
  | locked id data => exact howes h
  | admitted id => exact howes h
  | recorded id => exact howes h
  | released => exact howes h
  | overBudget => exact howes h
  | elected => exact howes h

omit [DecidableEq κ] in
/-- Callers in flight move on without the reclaiming lock, and no bytes are added. -/
theorem Covered.move {limit : ℕ} {next : Flight κ ι} (h : Covered limit flight)
    (haccounted : Accounted next.budget) (hmemory : MemoryOnly next.budget)
    (hlimit : next.budget.limit = flight.budget.limit)
    (htotal : next.budget.total ≤ flight.budget.total)
    (hzero : ∀ id, flight.budget.retainedOf id = 0 → next.budget.retainedOf id = 0)
    (hreclaiming : next.reclaiming = flight.reclaiming)
    (hmissed : next.missed = flight.missed)
    (hphase : ∀ caller, next.phase caller = flight.phase caller ∨
      (flight.phase caller).holds = false ∧ (next.phase caller).holds = false ∧
        (next.phase caller).owes = true)
    (houtputs : ∀ id caller, next.outputOwner id = some caller →
      (next.phase caller).output = some id) : Covered limit next where
  accounted := haccounted
  memory := hmemory
  fixed := hlimit.trans h.fixed
  lock caller := by
    rw [hreclaiming,← h.lock caller]
    rcases hphase caller with hsame | ⟨hbefore,hafter,-⟩
    · rw [hsame]
    · rw [hbefore,hafter]
  outputs := houtputs
  answered := by
    have howed : ∀ caller, (flight.phase caller).owes = true → (next.phase caller).owes = true :=
      fun caller howes => by
        rcases hphase caller with hsame | ⟨-,-,hnext⟩
        · rw [hsame]
          exact howes
        · exact hnext
    have howes : (∃ caller, (flight.phase caller).owes = true) →
        ∃ caller, (next.phase caller).owes = true := fun ⟨caller,hcaller⟩ =>
      ⟨caller,howed caller hcaller⟩
    have hpending : flight.Pending → next.Pending := fun ⟨caller,hcaller,hlate⟩ =>
      ⟨caller,howed caller hcaller,by rw [hmissed]; exact hlate⟩
    refine h.answered.imp (fun hfits => ?_) fun hanswered => ?_
    · rw [hlimit]
      exact htotal.trans hfits
    · unfold Answered at hanswered ⊢
      rw [hreclaiming]
      cases hholder : flight.reclaiming with
      | none =>
        rw [hholder] at hanswered
        exact howes hanswered
      | some holder =>
        rw [hholder] at hanswered
        have hheld := (h.lock holder).mpr hholder
        have hsame : next.phase holder = flight.phase holder := by
          rcases hphase holder with hsame | ⟨hbefore,-,-⟩
          · exact hsame
          · rw [hbefore] at hheld
            cases hheld
        simp only [hsame]
        exact hanswered.mono hlimit htotal hzero hpending howes

theorem Covered.outputs_setPhase {limit : ℕ} (h : Covered limit flight)
    (hsame : phase.output = (flight.phase caller).output) (id : ι) (other : κ)
    (howner : flight.outputOwner id = some other) :
    ((flight.setPhase caller phase).phase other).output = some id := by
  have houtput := h.outputs id other howner
  by_cases hother : other = caller
  · subst hother
    rw [setPhase_phase_self,hsame]
    exact houtput
  · rw [setPhase_phase_ne hother]
    exact houtput

theorem Covered.advance {limit : ℕ} (h : Covered limit flight)
    (hcaller : (flight.phase caller).holds = false) (hholds : phase.holds = false)
    (howes : phase.owes = true) (houtput : phase.output = (flight.phase caller).output) :
    Covered limit (flight.setPhase caller phase) := by
  refine h.move h.accounted h.memory rfl le_rfl (fun _ hzero => hzero) rfl rfl (fun other => ?_)
    (h.outputs_setPhase houtput)
  by_cases hother : other = caller
  · subst hother
    rw [setPhase_phase_self]
    exact .inr ⟨hcaller,hholds,howes⟩
  · exact .inl (setPhase_phase_ne hother _ _)

/-- A caller returns: under the limit, or as a loser that the holder has counted. -/
theorem Covered.leave {limit : ℕ} (h : Covered limit flight)
    (hcaller : (flight.phase caller).holds = false) (houtput : (flight.phase caller).output = none)
    (hcounted : flight.budget.total ≤ flight.budget.limit ∨
      flight.reclaiming.isSome = true ∧ flight.missed caller = false) :
    Covered limit (flight.setPhase caller .returned) where
  accounted := h.accounted
  memory := h.memory
  fixed := h.fixed
  lock other := by
    by_cases hother : other = caller
    · subst hother
      have hlock := h.lock other
      rw [hcaller] at hlock
      rw [setPhase_phase_self,setPhase_reclaiming,← hlock]
      rfl
    · rw [setPhase_phase_ne hother,setPhase_reclaiming]
      exact h.lock other
  outputs := h.outputs_setPhase houtput.symm
  answered := by
    rcases hcounted with hfits | ⟨hheld,hmissed⟩
    · exact .inl hfits
    · refine h.answered.imp id fun hanswered => ?_
      obtain ⟨holder,hreclaiming⟩ := Option.isSome_iff_exists.mp hheld
      unfold Answered at hanswered ⊢
      rw [setPhase_reclaiming]
      simp only [hreclaiming] at hanswered ⊢
      have hholder := (h.lock holder).mpr hreclaiming
      have hne : holder ≠ caller := fun heq => by
        rw [heq,hcaller] at hholder
        cases hholder
      rw [setPhase_phase_ne hne]
      have hpending : flight.Pending → (flight.setPhase caller .returned).Pending := by
        rintro ⟨other,howed,hother⟩
        have hother' : other ≠ caller := fun heq => by
          rw [heq,hmissed] at hother
          cases hother
        exact ⟨other,by rw [setPhase_phase_ne hother',howed],hother⟩
      cases hphase : flight.phase holder with
      | measured excess =>
        rw [hphase] at hanswered
        exact hanswered.imp hpending id
      | sweeping victims remaining =>
        rw [hphase] at hanswered
        exact hanswered.imp hpending id
      | elected => exact ⟨holder,by rw [setPhase_phase_ne hne,hphase]; rfl⟩
      | returned => rw [hphase] at hholder; cases hholder
      | locked id data => rw [hphase] at hholder; cases hholder
      | admitted id => rw [hphase] at hholder; cases hholder
      | recorded id => rw [hphase] at hholder; cases hholder
      | released => rw [hphase] at hholder; cases hholder
      | overBudget => rw [hphase] at hholder; cases hholder

theorem Covered.hold {limit : ℕ} (h : Covered limit flight)
    (hcaller : flight.reclaiming = some caller) (hholds : phase.holds = true)
    (hshedding : flight.budget.total ≤ flight.budget.limit ∨
      (flight.setPhase caller phase).Shedding phase) :
    Covered limit (flight.setPhase caller phase) where
  accounted := h.accounted
  memory := h.memory
  fixed := h.fixed
  lock other := by
    by_cases hother : other = caller
    · subst hother
      simp only [setPhase_phase_self,setPhase_reclaiming,hholds,hcaller]
    · rw [setPhase_phase_ne hother,setPhase_reclaiming]
      exact h.lock other
  outputs := h.outputs_setPhase ((output_of_holds hholds).trans
    (output_of_holds ((h.lock caller).mpr hcaller)).symm)
  answered := by
    refine hshedding.imp id fun hshedding => ?_
    unfold Answered
    simp only [setPhase_reclaiming,hcaller,setPhase_phase_self]
    exact hshedding

omit [LinearOrder ι] in
theorem Pending.hold (h : flight.Pending) (hcaller : (flight.phase caller).owes = false) :
    (flight.setPhase caller phase).Pending := by
  obtain ⟨other,howed,hmissed⟩ := h
  have hother : other ≠ caller := fun heq => by
    rw [heq,hcaller] at howed
    cases howed
  exact ⟨other,by rw [setPhase_phase_ne hother,howed],hmissed⟩

omit [DecidableEq κ] in
theorem Covered.holder {limit : ℕ} (h : Covered limit flight)
    (hphase : (flight.phase caller).holds = true) : flight.reclaiming = some caller :=
  (h.lock caller).mp hphase

omit [DecidableEq κ] in
theorem Covered.shedding {limit : ℕ} (h : Covered limit flight)
    (hphase : (flight.phase caller).holds = true) :
    flight.budget.total ≤ flight.budget.limit ∨ flight.Shedding (flight.phase caller) := by
  refine h.answered.imp id fun hanswered => ?_
  unfold Answered at hanswered
  simpa only [h.holder hphase] using hanswered

section

variable {limit : ℕ} (h : Covered limit flight)
include h

omit [DecidableEq κ] in
theorem Covered.start (id : ι) (truncated : Bool) :
    Covered limit (flight.start id truncated) := by
  obtain ⟨htotal,hlimit,hzero⟩ := register_empty flight.budget id truncated
  exact h.move (register_spec h.accounted id _ _) (h.memory.register id _) hlimit htotal.le hzero
    rfl rfl (fun _ => .inl rfl) h.outputs

theorem Covered.lockOutput (caller : κ) (id : ι) (data : List Byte) :
    Covered limit (flight.lockOutput caller id data) := by
  unfold Flight.lockOutput
  split
  case h_2 => exact h
  case h_1 run hphase hrun hfree =>
    split
    · exact h
    · refine h.move h.accounted h.memory rfl le_rfl (fun _ hzero => hzero) rfl rfl
        (fun other => ?_) fun locked other howner => ?_
      · by_cases hother : other = caller
        · subst hother
          rw [setPhase_phase_self,hphase]
          exact .inr ⟨rfl,rfl,rfl⟩
        · exact .inl (setPhase_phase_ne hother _ _)
      · by_cases hlocked : locked = id
        · subst hlocked
          simp only [Function.update_self] at howner
          cases howner
          rw [setPhase_phase_self]
          rfl
        · simp only [Function.update_of_ne hlocked] at howner
          have houtput := h.outputs locked other howner
          have hother : other ≠ caller := fun heq => by
            rw [heq,hphase] at houtput
            cases houtput
          rw [setPhase_phase_ne hother]
          exact houtput

/-- New bytes are the business of the caller that adds them. -/
theorem Covered.pushCounted (caller : κ) :
    Covered limit (flight.pushCounted caller) := by
  unfold Flight.pushCounted
  split
  case h_2 => exact h
  case h_1 id data hphase =>
    have hcaller : (flight.phase caller).holds = false := by rw [hphase]; rfl
    split
    · exact h
    · rename_i budget hpush
      obtain ⟨run,hrun,hpush⟩ := Option.bind_eq_some_iff.mp hpush
      have hrelogged := relogged_of_pushCounted h.accounted hrun hpush
      exact
        { accounted := hrelogged.accounted
          memory := hrelogged.memory h.memory hrun
          fixed := hrelogged.limit.trans h.fixed
          lock := fun other => by
            by_cases hother : other = caller
            · subst hother
              have hlock := h.lock other
              rw [hcaller] at hlock
              simp only [setPhase_phase_self,setPhase_reclaiming,← hlock]
              rfl
            · simp only [setPhase_phase_ne hother,setPhase_reclaiming]
              exact h.lock other
          outputs := h.outputs_setPhase (by rw [hphase]; rfl)
          answered := by
            right
            have howes : ((flight.setPhase caller (.admitted id)).phase caller).owes = true := by
              rw [setPhase_phase_self]
              rfl
            unfold Answered
            simp only [setPhase_reclaiming]
            cases hreclaiming : flight.reclaiming with
            | none => exact ⟨caller,howes⟩
            | some holder =>
              have hholder := (h.lock holder).mpr hreclaiming
              have hne : holder ≠ caller := fun heq => by
                rw [heq,hcaller] at hholder
                cases hholder
              simp only [setPhase_phase_ne hne]
              have hmissed : (flight.phase holder).fixed = true →
                  Function.update flight.missed caller (flight.holder.any Phase.fixed) caller =
                    true := fun hfixed => by
                simp [Flight.holder,hreclaiming,hfixed]
              cases hheld : flight.phase holder with
              | measured excess => exact .inl ⟨caller,howes,hmissed (by rw [hheld]; rfl)⟩
              | sweeping victims remaining =>
                exact .inl ⟨caller,howes,hmissed (by rw [hheld]; rfl)⟩
              | returned => exact ⟨caller,howes⟩
              | locked id data => exact ⟨caller,howes⟩
              | admitted id => exact ⟨caller,howes⟩
              | recorded id => exact ⟨caller,howes⟩
              | released => exact ⟨caller,howes⟩
              | overBudget => exact ⟨caller,howes⟩
              | elected => exact ⟨caller,howes⟩ }

theorem Covered.trimOwn (caller : κ) :
    Covered limit (flight.trimOwn caller) := by
  unfold Flight.trimOwn
  split
  case h_2 => exact h
  case h_1 id hphase =>
    split
    · exact h
    · rename_i budget htrim
      obtain ⟨run,hrun,htrim⟩ := Option.bind_eq_some_iff.mp htrim
      obtain ⟨hrelogged,htotal,hzero⟩ := relogged_of_trimOwn h.accounted hrun htrim
      refine h.move hrelogged.accounted (hrelogged.memory h.memory hrun) hrelogged.limit htotal hzero
        rfl rfl (fun other => ?_) (h.outputs_setPhase (by rw [hphase]; rfl))
      by_cases hother : other = caller
      · subst hother
        simp only [setPhase_phase_self,hphase]
        exact .inr ⟨rfl,rfl,rfl⟩
      · exact .inl (setPhase_phase_ne hother _ _)

theorem Covered.dropOutput (caller : κ) :
    Covered limit (flight.dropOutput caller) := by
  unfold Flight.dropOutput
  split
  case h_2 => exact h
  case h_1 id hphase =>
    refine h.move h.accounted h.memory rfl le_rfl (fun _ hzero => hzero) rfl rfl (fun other => ?_)
      fun locked other howner => ?_
    · by_cases hother : other = caller
      · subst hother
        simp only [setPhase_phase_self,hphase]
        exact .inr ⟨rfl,rfl,rfl⟩
      · exact .inl (setPhase_phase_ne hother _ _)
    · by_cases hlocked : locked = id
      · subst hlocked
        simp only [Function.update_self] at howner
        cases howner
      · simp only [Function.update_of_ne hlocked] at howner
        have houtput := h.outputs locked other howner
        have hother : other ≠ caller := fun heq => by
          rw [heq,hphase] at houtput
          exact hlocked (Option.some.inj houtput).symm
        rw [setPhase_phase_ne hother]
        exact houtput

theorem Covered.loadTotal (caller : κ) :
    Covered limit (flight.loadTotal caller) := by
  unfold Flight.loadTotal
  split
  case h_1 hphase =>
    have hcaller : (flight.phase caller).holds = false := by rw [hphase]; rfl
    split
    · rename_i hfits
      exact h.leave hcaller (by rw [hphase]; rfl) (.inl hfits)
    · exact h.advance hcaller rfl rfl (by rw [hphase]; rfl)
  case h_2 => exact h

theorem Covered.tryLock {caller : κ} (htimely : flight.Timely (.tryLock caller)) :
    Covered limit (flight.tryLock caller) := by
  unfold Flight.tryLock
  split
  case h_1 hphase hfree =>
    exact
      { accounted := h.accounted
        memory := h.memory
        fixed := h.fixed
        lock := fun other => by
          by_cases hother : other = caller
          · subst hother
            simp only [setPhase_phase_self,Phase.holds]
          · have hnone := h.lock other
            rw [hfree] at hnone
            simp only [setPhase_phase_ne hother,hnone,reduceCtorEq,Option.some.injEq,false_iff]
            exact fun heq => hother heq.symm
        outputs := h.outputs_setPhase (by rw [hphase]; rfl)
        answered := by
          right
          unfold Answered
          simp only [setPhase_phase_self]
          exact ⟨caller,by simp only [setPhase_phase_self]; rfl⟩ }
  case h_2 holder hphase hheld =>
    have hcaller : (flight.phase caller).holds = false := by rw [hphase]; rfl
    have hsome : flight.reclaiming.isSome = true := by rw [hheld]; rfl
    exact h.leave hcaller (by rw [hphase]; rfl) (.inr ⟨hsome,htimely hphase hsome⟩)
  case h_3 => exact h

theorem Covered.loadExcess (caller : κ) :
    Covered limit (flight.loadExcess caller) := by
  unfold Flight.loadExcess
  split
  case h_1 hphase =>
    have hholder : flight.reclaiming = some caller := h.holder (by rw [hphase]; rfl)
    split
    · rename_i hnone
      exact h.hold hholder rfl (.inl (by omega))
    · refine h.hold hholder rfl (.inr (.inr ?_))
      simp only [setPhase_budget]
      omega
  case h_2 => exact h

theorem Covered.collect (caller : κ) (order : List ι) :
    Covered limit (flight.collect caller order) := by
  unfold Flight.collect
  split
  case h_1 excess hphase =>
    have hholds : (flight.phase caller).holds = true := by rw [hphase]; rfl
    have howes : (flight.phase caller).owes = false := by rw [hphase]; rfl
    split
    · rename_i hperm
      refine h.hold (h.holder hholds) rfl ?_
      have hshedding := h.shedding hholds
      rw [hphase] at hshedding
      refine hshedding.imp id fun hcovers => ?_
      refine hcovers.imp (fun hpending => hpending.hold howes) fun hcovers => ⟨hcovers,.inr ?_⟩
      intro id hid
      exact retainedOf_of_not_mem fun hkey => hid (hperm.mem_iff.mpr hkey)
    · exact h
  case h_2 => exact h

/-- A victim whose output lock is taken is left to the caller that holds the lock. -/
theorem Covered.passOver {victim : ι} {victims : List ι} {remaining : ℕ}
    (hphase : flight.phase caller = .sweeping (victim::victims) remaining) {owner : κ}
    (howner : flight.outputOwner victim = some owner) :
    Covered limit { flight.setPhase caller (.sweeping victims remaining) with
      missed := Function.update flight.missed owner true } := by
  have hholds : (flight.phase caller).holds = true := by rw [hphase]; rfl
  obtain ⟨howes,hfree⟩ := owes_of_output (h.outputs victim owner howner)
  have hne : owner ≠ caller := fun heq => by
    rw [heq,hholds] at hfree
    cases hfree
  have hheld := h.holder hholds
  exact
    { accounted := h.accounted
      memory := h.memory
      fixed := h.fixed
      lock := fun other => by
        by_cases hother : other = caller
        · subst hother
          simp only [setPhase_phase_self,setPhase_reclaiming,hheld]
          exact ⟨fun _ => trivial,fun _ => rfl⟩
        · simp only [setPhase_phase_ne hother,setPhase_reclaiming]
          exact h.lock other
      outputs := h.outputs_setPhase (by rw [hphase]; rfl)
      answered := by
        right
        unfold Answered
        simp only [setPhase_reclaiming,hheld,setPhase_phase_self]
        refine .inl ⟨owner,?_,Function.update_self _ _ _⟩
        simp only [setPhase_phase_ne hne]
        exact howes }

theorem Covered.trim (caller : κ) :
    Covered limit (flight.trim caller) := by
  unfold Flight.trim
  split
  case h_1 victim victims remaining hphase =>
    have hholds : (flight.phase caller).holds = true := by rw [hphase]; rfl
    have howes : (flight.phase caller).owes = false := by rw [hphase]; rfl
    split
    · exact h
    split
    · rename_i owner howner
      exact h.passOver hphase howner
    · obtain ⟨freed,budget,hturn,haccounted,hmemory,hlimit,htotal,hle,hdrained,hothers⟩ :=
        reclaimOutput_memoryOnly h.accounted h.memory victim remaining
      simp only [hturn]
      have hshedding := h.shedding hholds
      rw [hphase] at hshedding
      exact
        { accounted := haccounted
          memory := hmemory
          fixed := hlimit.trans h.fixed
          lock := fun other => by
            by_cases hother : other = caller
            · subst hother
              rw [setPhase_phase_self,setPhase_reclaiming]
              exact ⟨fun _ => h.holder hholds,fun _ => rfl⟩
            · rw [setPhase_phase_ne hother,setPhase_reclaiming]
              exact h.lock other
          outputs := h.outputs_setPhase (by rw [hphase]; rfl)
          answered := by
            simp only [setPhase_budget,hlimit]
            rcases hshedding with hfits | hpending | ⟨hcovers,hgone⟩
            · exact .inl (by omega)
            · right
              unfold Answered
              simp only [setPhase_reclaiming,h.holder hholds,setPhase_phase_self]
              have hpending' : ({ flight with budget := budget } : Flight κ ι).Pending := hpending
              exact .inl (hpending'.hold howes)
            · right
              unfold Answered
              simp only [setPhase_reclaiming,h.holder hholds,setPhase_phase_self]
              refine .inr ⟨?_,?_⟩
              · simp only [setPhase_budget,hlimit]
                omega
              · by_cases hspent : freed = remaining
                · exact .inl (by omega)
                · right
                  intro id hid
                  simp only [setPhase_budget]
                  by_cases hvictim : id = victim
                  · subst hvictim
                    exact hdrained (by omega)
                  · rw [hothers id hvictim]
                    rcases hgone with hzero | hgone
                    · omega
                    · exact hgone id (by simp [hvictim,hid]) }
  case h_2 => exact h

theorem Covered.unlock (caller : κ) :
    Covered limit (flight.unlock caller) := by
  unfold Flight.unlock
  split
  case h_1 victims remaining hphase =>
    have hholds : (flight.phase caller).holds = true := by rw [hphase]; rfl
    split
    · rename_i hdone
      have hshedding := h.shedding hholds
      rw [hphase] at hshedding
      exact
        { accounted := h.accounted
          memory := h.memory
          fixed := h.fixed
          lock := fun other => by
            by_cases hother : other = caller
            · subst hother
              simp only [setPhase_phase_self]
              exact ⟨nofun,nofun⟩
            · have hlock := h.lock other
              rw [h.holder hholds] at hlock
              simp only [setPhase_phase_ne hother,hlock,Option.some.injEq,reduceCtorEq,iff_false]
              exact fun heq => hother heq.symm
          outputs := h.outputs_setPhase (by rw [hphase]; rfl)
          answered := by
            rcases hshedding with hfits | ⟨other,howed,-⟩ | ⟨hcovers,hgone⟩
            · exact .inl hfits
            · right
              have hother : other ≠ caller := fun heq => by
                rw [heq,hphase] at howed
                cases howed
              exact ⟨other,by simp only [setPhase_phase_ne hother,howed]⟩
            · left
              simp only [setPhase_budget]
              rcases hgone with hzero | hgone
              · omega
              · rcases hdone with hempty | hzero
                · have hnothing := total_eq_zero h.accounted fun id => hgone id (by simp [hempty])
                  omega
                · omega }
    · exact h
  case h_2 => exact h

theorem Covered.step {event : FlightEvent κ ι} (htimely : flight.Timely event) :
    Covered limit (flight.step event) := by
  cases event with
  | start id truncated => exact h.start id truncated
  | lockOutput caller id data => exact h.lockOutput caller id data
  | pushCounted caller => exact h.pushCounted caller
  | trimOwn caller => exact h.trimOwn caller
  | dropOutput caller => exact h.dropOutput caller
  | loadTotal caller => exact h.loadTotal caller
  | tryLock caller => exact h.tryLock htimely
  | loadExcess caller => exact h.loadExcess caller
  | collect caller order => exact h.collect caller order
  | trim caller => exact h.trim caller
  | unlock caller => exact h.unlock caller

end

omit [DecidableEq κ] in
theorem covered_new (limit perRunLimit : ℕ) :
    Covered limit (new limit perRunLimit : Flight κ ι) where
  accounted := accounted_new limit perRunLimit
  memory _ _ hrun := by cases hrun
  fixed := rfl
  lock _ := ⟨nofun,nofun⟩
  outputs _ _ := nofun
  answered := .inl (Nat.zero_le _)

omit [DecidableEq κ] in
/-- When all calls have returned nobody is left to answer for an excess. -/
theorem Covered.quiet {limit : ℕ} (h : Covered limit flight) (hquiet : flight.Quiet) :
    flight.budget.total ≤ limit := by
  rw [← h.fixed]
  rcases h.answered with hfits | hanswered
  · exact hfits
  · unfold Answered at hanswered
    cases hreclaiming : flight.reclaiming with
    | none =>
      simp only [hreclaiming] at hanswered
      obtain ⟨caller,howed⟩ := hanswered
      rw [hquiet caller] at howed
      cases howed
    | some holder =>
      have hheld := (h.lock holder).mpr hreclaiming
      rw [hquiet holder] at hheld
      cases hheld

/-- If no caller loses the election to a holder that had read the excess before the caller
added its bytes, or that had passed over the Run whose output lock the caller held, the total is
within the limit whenever all calls have returned. -/
theorem single_flight_leaves_no_excess {limit perRunLimit : ℕ} {events : List (FlightEvent κ ι)}
    (htimely : Along Flight.step Timely (new limit perRunLimit : Flight κ ι) events)
    (hquiet : (run Flight.step (new limit perRunLimit : Flight κ ι) events).Quiet) :
    (run Flight.step (new limit perRunLimit : Flight κ ι) events).budget.total ≤ limit :=
  (run_invariant_along (I := Covered limit) (fun _ _ h ht => Covered.step h ht)
    (covered_new limit perRunLimit) htimely).quiet hquiet

/-- The steps of a call up to the drop of its output lock. -/
def pushed (caller : Bool) (id : ℕ) (data : List Byte) : List (FlightEvent Bool ℕ) :=
  [.lockOutput caller id data,.pushCounted caller,.trimOwn caller,.dropOutput caller]

/-- Two calls on two Runs; the second records after the first has recorded, and loses. -/
def timelyCalls : List (FlightEvent Bool ℕ) :=
  [.start 1 false,.start 2 false] ++ pushed false 1 [1,2,3,4,5,6] ++ [.loadTotal false,.tryLock false] ++
    pushed true 2 [1,2,3] ++ [.loadTotal true,.loadExcess false,.tryLock true,.collect false [1,2],
    .trim false,.unlock false]

theorem single_flight_timely_calls :
    Along Flight.step Timely (new 5 100) timelyCalls ∧
    (run Flight.step (new 5 100) timelyCalls).Quiet ∧
    (run Flight.step (new 5 100) timelyCalls).budget.total ≤ 5 :=
  ⟨by decide +kernel,by decide +kernel,
    single_flight_leaves_no_excess (by decide +kernel) (by decide +kernel)⟩

/-- The second call records after the first has read the excess, and loses. -/
def lateCalls : List (FlightEvent Bool ℕ) :=
  [.start 1 false,.start 2 false] ++ pushed false 1 [1,2,3,4,5,6] ++
    [.loadTotal false,.tryLock false,.loadExcess false] ++ pushed true 2 [1,2,3] ++
    [.loadTotal true,.tryLock true,.collect false [1,2],.trim false,.unlock false]

/-- The second call still holds its output lock when the first comes to its Run, and loses. -/
def heldCalls : List (FlightEvent Bool ℕ) :=
  [.start 1 false,.start 2 false] ++ pushed false 1 [1,2,3] ++
    [.lockOutput true 2 [1,2,3,4,5,6],.pushCounted true,.trimOwn true,.loadTotal false,.tryLock false,
    .loadExcess false,.collect false [1,2],.trim false,.trim false,.dropOutput true,.loadTotal true,
    .tryLock true,.unlock false]

theorem late_loser_is_not_covered :
    ((run Flight.step (new 5 100) lateCalls).Quiet ∧
      ¬(run Flight.step (new 5 100) lateCalls).budget.total ≤ 5) ∧
    (run Flight.step (new 5 100) heldCalls).Quiet ∧
      ¬(run Flight.step (new 5 100) heldCalls).budget.total ≤ 5 := by
  decide +kernel

end Flight
end Retention
end Ctxmux
