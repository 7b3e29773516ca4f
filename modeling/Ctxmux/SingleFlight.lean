import Ctxmux.RetentionRuns

/-!
# Concurrent callers of the retention budget

Callers record output and reclaim the excess in atomic steps. A caller pushes its bytes under
the output lock of its Run and drops that lock before it reclaims. One of them holds the
`reclaiming` lock at a time; a caller that finds it taken returns. The holder reads the
excess once and then trims victims until that amount is freed; a victim whose output lock is
taken frees nothing.
-/

namespace Ctxmux
namespace Retention

open Output
open Durable (Byte)
open Machine

variable {κ ι : Type} [DecidableEq κ] [LinearOrder ι]

/-- Where a call of `record_output` stands. -/
inductive Phase (ι : Type) where
  | returned
  | locked (id : ι) (data : List Byte)
  | admitted (id : ι)
  | recorded (id : ι)
  | released
  | overBudget
  | elected
  | measured (excess : ℕ)
  | sweeping (victims : List ι) (remaining : ℕ)
deriving DecidableEq,Repr

namespace Phase

/-- The call holds the `reclaiming` lock. -/
def holds : Phase ι → Bool
  | .elected | .measured _ | .sweeping _ _ => true
  | .returned | .locked _ _ | .admitted _ | .recorded _ | .released | .overBudget => false

/-- The call has read the excess it will shed. -/
def fixed : Phase ι → Bool
  | .measured _ | .sweeping _ _ => true
  | .returned | .locked _ _ | .admitted _ | .recorded _ | .released | .overBudget | .elected => false

/-- The call will still look at the total, or return under the limit. -/
def owes : Phase ι → Bool
  | .locked _ _ | .admitted _ | .recorded _ | .released | .overBudget | .elected => true
  | .returned | .measured _ | .sweeping _ _ => false

/-- The Run whose output lock the call holds. -/
def output : Phase ι → Option ι
  | .locked id _ | .admitted id | .recorded id => some id
  | .returned | .released | .overBudget | .elected | .measured _ | .sweeping _ _ => none

end Phase

namespace RetentionBudget

/-- The first half of `push_protected`: the new bytes are in the log and counted. -/
def pushCounted (budget : RetentionBudget ι) (id : ι) (run : Run) (data : List Byte) :
    Option (RetentionBudget ι) :=
  if data = [] ∨ u64Max < run.output.latestOutputBytes+data.length then none
  else some ((budget.add data.length).setRun id { run with output := run.output.admitted data })

/-- The second half: the log's own retention subtracts what it drops. -/
def trimOwn (budget : RetentionBudget ι) (id : ι) (run : Run) : Option (RetentionBudget ι) := do
  let (freed,output) ← run.output.trimFrontBounded (run.output.retainedBytes-budget.perRunLimit)
    (run.protection.protectedFrom-run.output.firstAvailableByte)
  some ((budget.sub freed).setRun id { run with output := output })

end RetentionBudget

/-- The budget and its callers. `missed` is history: the present holder had read the excess
before the caller added its bytes, or it passed over the Run whose output lock the caller
held. -/
structure Flight (κ ι : Type) where
  budget : RetentionBudget ι
  reclaiming : Option κ
  outputOwner : ι → Option κ
  phase : κ → Phase ι
  missed : κ → Bool

inductive FlightEvent (κ ι : Type) where
  | start (id : ι) (truncated : Bool)
  | lockOutput (caller : κ) (id : ι) (data : List Byte)
  | pushCounted (caller : κ)
  | trimOwn (caller : κ)
  | dropOutput (caller : κ)
  | loadTotal (caller : κ)
  | tryLock (caller : κ)
  | loadExcess (caller : κ)
  | collect (caller : κ) (order : List ι)
  | trim (caller : κ)
  | unlock (caller : κ)
deriving DecidableEq,Repr

namespace Flight

def new (limit perRunLimit : ℕ) : Flight κ ι where
  budget := .withLimits limit perRunLimit
  reclaiming := none
  outputOwner := fun _ => none
  phase := fun _ => .returned
  missed := fun _ => false

def setPhase (flight : Flight κ ι) (caller : κ) (phase : Phase ι) : Flight κ ι :=
  { flight with phase := Function.update flight.phase caller phase }

/-- The phase of the lock holder. -/
def holder (flight : Flight κ ι) : Option (Phase ι) := flight.reclaiming.map flight.phase

/-- A memory-only Run registers with an empty log. -/
def start (flight : Flight κ ι) (id : ι) (truncated : Bool) : Flight κ ι :=
  let origin : LogOrigin := if truncated then .withInitialTruncation else .new
  { flight with budget := flight.budget.register id origin .memoryOnly }

/-- A call waits for the output lock of its Run. Empty output returns at once. -/
def lockOutput (flight : Flight κ ι) (caller : κ) (id : ι) (data : List Byte) : Flight κ ι :=
  match flight.phase caller, flight.budget.participants.lookup id, flight.outputOwner id with
  | .returned, some _, none =>
    if data = [] then flight
    else
      { flight.setPhase caller (.locked id data) with
        outputOwner := Function.update flight.outputOwner id (some caller) }
  | _, _, _ => flight

/-- A push beyond the largest head panics, and its call does not return. -/
def pushCounted (flight : Flight κ ι) (caller : κ) : Flight κ ι :=
  match flight.phase caller with
  | .locked id data =>
    match (flight.budget.participants.lookup id).bind fun run => flight.budget.pushCounted id run data with
    | none => flight
    | some budget =>
      { flight.setPhase caller (.admitted id) with
        budget := budget
        missed := Function.update flight.missed caller (flight.holder.any Phase.fixed) }
  | _ => flight

def trimOwn (flight : Flight κ ι) (caller : κ) : Flight κ ι :=
  match flight.phase caller with
  | .admitted id =>
    match (flight.budget.participants.lookup id).bind fun run => flight.budget.trimOwn id run with
    | none => flight
    | some budget => { flight.setPhase caller (.recorded id) with budget := budget }
  | _ => flight

/-- The output lock is dropped before the excess is looked at. -/
def dropOutput (flight : Flight κ ι) (caller : κ) : Flight κ ι :=
  match flight.phase caller with
  | .recorded id =>
    { flight.setPhase caller .released with
      outputOwner := Function.update flight.outputOwner id none }
  | _ => flight

/-- The fast path of `reclaim_to`. -/
def loadTotal (flight : Flight κ ι) (caller : κ) : Flight κ ι :=
  match flight.phase caller with
  | .released =>
    if flight.budget.total ≤ flight.budget.limit then flight.setPhase caller .returned
    else flight.setPhase caller .overBudget
  | _ => flight

/-- A loser of the election returns. -/
def tryLock (flight : Flight κ ι) (caller : κ) : Flight κ ι :=
  match flight.phase caller, flight.reclaiming with
  | .overBudget, none => { flight.setPhase caller .elected with reclaiming := some caller }
  | .overBudget, some _ => flight.setPhase caller .returned
  | _, _ => flight

/-- Without an excess the winner only drops the lock. -/
def loadExcess (flight : Flight κ ι) (caller : κ) : Flight κ ι :=
  match flight.phase caller with
  | .elected =>
    if flight.budget.total-flight.budget.limit = 0 then flight.setPhase caller (.sweeping [] 0)
    else flight.setPhase caller (.measured (flight.budget.total-flight.budget.limit))
  | _ => flight

/-- The sort keys are cached one by one while others record, so the live Runs come in
any order. -/
def collect (flight : Flight κ ι) (caller : κ) (order : List ι) : Flight κ ι :=
  match flight.phase caller with
  | .measured excess =>
    if order.Perm flight.budget.participants.keys then flight.setPhase caller (.sweeping order excess)
    else flight
  | _ => flight

/-- The output lock of a victim is only tried. -/
def trim (flight : Flight κ ι) (caller : κ) : Flight κ ι :=
  match flight.phase caller with
  | .sweeping (victim::victims) remaining =>
    if remaining = 0 then flight
    else
      match flight.outputOwner victim with
      | some owner =>
        { flight.setPhase caller (.sweeping victims remaining) with
          missed := Function.update flight.missed owner true }
      | none =>
        match flight.budget.reclaimOutput victim remaining with
        | none => flight
        | some (freed,budget) =>
          { flight with budget := budget }.setPhase caller (.sweeping victims (remaining-freed))
  | _ => flight

def unlock (flight : Flight κ ι) (caller : κ) : Flight κ ι :=
  match flight.phase caller with
  | .sweeping victims remaining =>
    if victims = [] ∨ remaining = 0 then
      { flight.setPhase caller .returned with
        reclaiming := none
        missed := fun _ => false }
    else flight
  | _ => flight

/-- A step that the phase of its caller does not allow changes nothing. -/
def step (flight : Flight κ ι) : FlightEvent κ ι → Flight κ ι
  | .start id truncated => flight.start id truncated
  | .lockOutput caller id data => flight.lockOutput caller id data
  | .pushCounted caller => flight.pushCounted caller
  | .trimOwn caller => flight.trimOwn caller
  | .dropOutput caller => flight.dropOutput caller
  | .loadTotal caller => flight.loadTotal caller
  | .tryLock caller => flight.tryLock caller
  | .loadExcess caller => flight.loadExcess caller
  | .collect caller order => flight.collect caller order
  | .trim caller => flight.trim caller
  | .unlock caller => flight.unlock caller

/-- No caller loses the election to a holder that read the excess before the caller added
its bytes, or that passed over the caller's Run because the caller held its output lock. -/
def Timely (flight : Flight κ ι) : FlightEvent κ ι → Prop
  | .tryLock caller => flight.phase caller = .overBudget → flight.reclaiming.isSome = true →
      flight.missed caller = false
  | _ => True

instance (flight : Flight κ ι) : (event : FlightEvent κ ι) → Decidable (flight.Timely event)
  | .tryLock caller => inferInstanceAs (Decidable (flight.phase caller = .overBudget →
      flight.reclaiming.isSome = true → flight.missed caller = false))
  | .start _ _ | .lockOutput _ _ _ | .pushCounted _ | .trimOwn _ | .dropOutput _ | .loadTotal _
  | .loadExcess _ | .collect _ _ | .trim _ | .unlock _ => inferInstanceAs (Decidable True)

/-- Every call has returned. -/
def Quiet (flight : Flight κ ι) : Prop := ∀ caller, flight.phase caller = .returned

instance [Fintype κ] (flight : Flight κ ι) : Decidable flight.Quiet :=
  inferInstanceAs (Decidable (∀ caller, flight.phase caller = .returned))

end Flight
end Retention
end Ctxmux
