import Ctxmux.OutputRun
import Ctxmux.MapTotals
import Mathlib.Data.Prod.Lex
import Mathlib.Data.List.Sort

/-!
# The hot retention budget

One total counts the bytes that all live output logs retain. A pass over the limit
trims the Runs in the order of their victim keys, each up to its protected cursor, until
the excess is gone. Operations run one at a time; a Run whose owner locks are taken
during a pass is busy and gives nothing.
-/

namespace Ctxmux
namespace Retention

open Output
open Durable (Byte)
open Machine

variable {ι : Type} [LinearOrder ι]

/-- Whether the bytes of a Run are kept for the durable store. -/
inductive Protection where
  | memoryOnly
  | persistentCapable (durableHead : Option ℕ)
deriving DecidableEq,Repr

/-- Bytes below this cursor can be reclaimed. A Run that lost its persistence protects
everything. -/
def Protection.protectedFrom : Protection → ℕ
  | .memoryOnly => u64Max
  | .persistentCapable none => 0
  | .persistentCapable (some head) => head

structure Run where
  output : OutputLog
  protection : Protection
  attachments : ℕ
  busy : Bool
deriving DecidableEq,Repr

namespace Run

/-- A busy owner is no claim about residency, and is ordered behind all known ones. -/
def retainedOutputBytes (run : Run) : WithBot ℕ :=
  if run.busy then ⊥ else run.output.retainedBytes

def reclaimableOutputBytes (run : Run) : ℕ :=
  if run.busy then 0
  else min run.output.retainedBytes (run.protection.protectedFrom-run.output.firstAvailableByte)

def isAttached (run : Run) : Bool := decide (run.attachments ≠ 0)

/-- The bytes reclaimed and the Run without them. -/
def reclaimOutput (run : Run) (dropAtLeast : ℕ) : Option (ℕ × Run) :=
  if run.busy then some (0,run)
  else do
    let (freed,output) ← run.output.trimFrontBounded dropAtLeast
      (run.protection.protectedFrom-run.output.firstAvailableByte)
    some (freed,{ run with output := output })

end Run

/-- The sort key of a victim: the triggering Run last, unattached before attached, the
largest first, ties by id. -/
abbrev VictimKey (ι : Type) := Bool ×ₗ Bool ×ₗ (WithBot ℕ)ᵒᵈ ×ₗ ι

def victimKey (except id : ι) (run : Run) : VictimKey ι :=
  toLex (decide (id = except),toLex (run.isAttached,
    toLex (OrderDual.toDual run.retainedOutputBytes,id)))

def VictimKey.runId (key : VictimKey ι) : ι := (ofLex (ofLex (ofLex key).2).2).2

structure RetentionBudget (ι : Type) where
  limit : ℕ
  perRunLimit : ℕ
  total : ℕ
  participants : AList fun _ : ι => Run

namespace RetentionBudget

def withLimits (limit perRunLimit : ℕ) : RetentionBudget ι := ⟨limit,perRunLimit,0,∅⟩

def add (budget : RetentionBudget ι) (bytes : ℕ) : RetentionBudget ι :=
  { budget with total := budget.total+bytes }

/-- The subtraction saturates. -/
def sub (budget : RetentionBudget ι) (bytes : ℕ) : RetentionBudget ι :=
  { budget with total := budget.total-bytes }

def setRun (budget : RetentionBudget ι) (id : ι) (run : Run) : RetentionBudget ι :=
  { budget with participants := budget.participants.insert id run }

def victims (budget : RetentionBudget ι) (except : ι) : List ι :=
  ((budget.participants.entries.map fun entry => victimKey except entry.1 entry.2).insertionSort
    (· ≤ ·)).map VictimKey.runId

/-- The turn of one victim. Each trim subtracts what it frees. -/
def reclaimOutput (budget : RetentionBudget ι) (id : ι) (dropAtLeast : ℕ) :
    Option (ℕ × RetentionBudget ι) :=
  match budget.participants.lookup id with
  | none => some (0,budget)
  | some run => do
    let (freed,run) ← run.reclaimOutput dropAtLeast
    some (freed,(budget.sub freed).setRun id run)

/-- The loop over the sorted victims. -/
def reclaimLoop : List ι → (remaining : ℕ) → RetentionBudget ι → Option (RetentionBudget ι)
  | [], _, budget => some budget
  | victim::victims, remaining, budget =>
    if remaining = 0 then some budget
    else do
      let (freed,budget) ← budget.reclaimOutput victim remaining
      reclaimLoop victims (remaining-freed) budget

def reclaimTo (budget : RetentionBudget ι) (except : ι) (target : ℕ) :
    Option (RetentionBudget ι) :=
  if budget.total ≤ target then some budget
  else reclaimLoop (budget.victims except) (budget.total-target) budget

def reclaimExcess (budget : RetentionBudget ι) (except : ι) : Option (RetentionBudget ι) :=
  budget.reclaimTo except budget.limit

/-- `record_output_locked` as the budget sees it: the new bytes are added, then the log's
own retention subtracts what it drops. -/
def recordOutputLocked (budget : RetentionBudget ι) (id : ι) (run : Run) (data : List Byte) :
    Option (RetentionBudget ι) := do
  let (_,output) ← run.output.pushProtected budget.perRunLimit data run.protection.protectedFrom
  let freed := run.output.retainedBytes+data.length-output.retainedBytes
  some (((budget.add data.length).sub freed).setRun id { run with output := output })

def recordOutput (budget : RetentionBudget ι) (id : ι) (data : List Byte) :
    Option (RetentionBudget ι) :=
  match budget.participants.lookup id with
  | none => some budget
  | some run =>
    if data = [] then some budget
    else do
      let budget ← budget.recordOutputLocked id run data
      budget.reclaimExcess id

/-- A new or recovered Run registers itself with its log already counted. -/
def register (budget : RetentionBudget ι) (id : ι) (origin : LogOrigin) (protection : Protection) :
    RetentionBudget ι :=
  match budget.participants.lookup id with
  | some _ => budget
  | none => (budget.add origin.log.retainedBytes).setRun id ⟨origin.log,protection,0,false⟩

def dropRun (budget : RetentionBudget ι) (id : ι) : RetentionBudget ι :=
  match budget.participants.lookup id with
  | none => budget
  | some run =>
    { budget with participants := budget.participants.erase id }.sub run.output.retainedBytes

/-- The durable head, the attachments and the locks of a Run change on their own. -/
def observe (budget : RetentionBudget ι) (id : ι) (protection : Protection) (attachments : ℕ)
    (busy : Bool) : RetentionBudget ι :=
  match budget.participants.lookup id with
  | none => budget
  | some run => budget.setRun id ⟨run.output,protection,attachments,busy⟩

end RetentionBudget

inductive BudgetEvent (ι : Type) where
  | register (id : ι) (origin : LogOrigin) (protection : Protection)
  | recordOutput (id : ι) (data : List Byte)
  | reclaimExcess (except : ι)
  | dropRun (id : ι)
  | observe (id : ι) (protection : Protection) (attachments : ℕ) (busy : Bool)

namespace RetentionBudget

/-- Nothing is the panic of a push beyond `u64::MAX`, which changes nothing. -/
def effect (budget : RetentionBudget ι) : BudgetEvent ι → Option (RetentionBudget ι)
  | .register id origin protection => some (budget.register id origin protection)
  | .recordOutput id data => budget.recordOutput id data
  | .reclaimExcess except => budget.reclaimExcess except
  | .dropRun id => some (budget.dropRun id)
  | .observe id protection attachments busy => some (budget.observe id protection attachments busy)

def step (budget : RetentionBudget ι) (event : BudgetEvent ι) : RetentionBudget ι :=
  (budget.effect event).getD budget

/-- What a Run retains, and nothing for a Run that is gone. -/
def retainedOf (budget : RetentionBudget ι) (id : ι) : ℕ :=
  (budget.participants.lookup id).elim 0 (·.output.retainedBytes)

def reclaimableOf (budget : RetentionBudget ι) (id : ι) : ℕ :=
  (budget.participants.lookup id).elim 0 (·.reclaimableOutputBytes)

/-- What a Run retains less than before. -/
def freedOf (before after : RetentionBudget ι) (id : ι) : ℕ :=
  before.retainedOf id-after.retainedOf id

end RetentionBudget
end Retention
end Ctxmux
