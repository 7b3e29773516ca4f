import Mathlib.Data.List.TakeWhile
import Mathlib.Tactic

/-!
# The queues of the persistence actor

The commands that the actor owns, the dependency test between two lifecycle commands, and
the functions that take a command from a queue or put one back.
-/

namespace Ctxmux
namespace Persist

abbrev RunId := ℕ

/-- What the queues read of a command. A replay is its last byte and its payload; a
prepared start is its Run and the candidates it evicts. -/
inductive Command where
  | stageStart (id : RunId) (candidates : List RunId)
  | removeTerminal (candidate : RunId)
  | finalize (id : RunId) (latest : ℕ)
  | readReplay (id : RunId)
  | terminalCheckpoint (id : RunId)
  | append (id : RunId) (latest payload : ℕ)
  | barrier
  | lifecycleWake
  | shutdown
  deriving DecidableEq, Repr

/-- A command with the number it was accepted under, whether it still owns its lifecycle
permit, and whether its caller has been answered. -/
structure Queued where
  serial : ℕ
  command : Command
  permit : Bool
  answered : Bool
  deriving DecidableEq, Repr

namespace Command

/-- The commands that `lifecycle_permit_mut` accepts. -/
def isLifecycle : Command → Bool
  | .stageStart _ _ | .removeTerminal _ | .finalize _ _ | .readReplay _ => true
  | _ => false

def isAppend : Command → Bool
  | .append _ _ _ => true
  | _ => false

def isAppendOf (id : RunId) : Command → Bool
  | .append other _ _ => other = id
  | _ => false

def isFinalizeOf (id : RunId) : Command → Bool
  | .finalize other _ => other = id
  | _ => false

/-- The commands that a blocked actor may still answer from its pending queue. -/
def isAnswerable : Command → Bool
  | .barrier | .readReplay _ | .lifecycleWake | .shutdown => true
  | _ => false

/-- The Runs that a command names, as target or as candidate. -/
def names : Command → List RunId
  | .stageStart id candidates => id::candidates
  | .removeTerminal candidate => [candidate]
  | .finalize id _ | .terminalCheckpoint id => [id]
  | _ => []

end Command

def lifecycleTouches : Command → RunId → Bool
  | .stageStart target candidates, id => target = id || candidates.any fun candidate => candidate = id
  | .removeTerminal candidate, id => candidate = id
  | .finalize target _, id | .terminalCheckpoint target, id => target = id
  | _, _ => false

def lifecycleConflicts : Command → Command → Bool
  | .stageStart id candidates, later =>
    lifecycleTouches later id || candidates.any fun candidate => lifecycleTouches later candidate
  | .removeTerminal candidate, later => lifecycleTouches later candidate
  | .finalize id _, later => lifecycleTouches later id
  | _, _ => false

/-- Two commands name a common Run. -/
def Dependent (a b : Command) : Prop := ∃ id, id ∈ a.names ∧ id ∈ b.names

theorem lifecycleTouches_iff (c : Command) (id : RunId) :
    lifecycleTouches c id = true ↔ id ∈ c.names := by
  cases c <;> simp [lifecycleTouches,Command.names,eq_comm (a := id)]

theorem lifecycleConflicts_iff {a : Command} (h : a.isLifecycle = true) (b : Command) :
    lifecycleConflicts a b = true ↔ Dependent a b := by
  cases a with
  | stageStart id candidates =>
    simp [lifecycleConflicts,lifecycleTouches_iff,Dependent,Command.names]
  | removeTerminal candidate =>
    simp [lifecycleConflicts,lifecycleTouches_iff,Dependent,Command.names]
  | finalize id latest =>
    simp [lifecycleConflicts,lifecycleTouches_iff,Dependent,Command.names]
  | readReplay id => simp [lifecycleConflicts,Dependent,Command.names]
  | _ => cases h

theorem lifecycleConflicts_comm {a b : Command} (ha : a.isLifecycle = true)
    (hb : b.isLifecycle = true) : lifecycleConflicts a b = lifecycleConflicts b a := by
  rw [Bool.eq_iff_iff,lifecycleConflicts_iff ha,lifecycleConflicts_iff hb]
  constructor
  · rintro ⟨id,h,h'⟩
    exact ⟨id,h',h⟩
  · rintro ⟨id,h,h'⟩
    exact ⟨id,h',h⟩

/-- The command at an index depends on none of those before it. -/
def independentAt (pending : List Queued) (index : ℕ) : Bool :=
  match pending[index]? with
  | some later =>
    (pending.take index).all fun earlier => !lifecycleConflicts earlier.command later.command
  | none => false

/-- After a page the first command past the front that depends on none before it has its
turn; without one, and without a page, the front has. -/
def turnIndex (pending : List Queued) (yielded : Bool) : ℕ :=
  if yielded then
    ((List.range pending.length).tail.find? fun index => independentAt pending index).getD 0
  else 0

/-- `pending.remove(next)`. -/
def takeTurn (pending : List Queued) (yielded : Bool) : Option (Queued × List Queued) :=
  match pending[turnIndex pending yielded]? with
  | some command => some (command,pending.eraseIdx (turnIndex pending yielded))
  | none => none

theorem turnIndex_independent {pending : List Queued} (yielded : Bool) (h : pending ≠ []) :
    independentAt pending (turnIndex pending yielded) = true := by
  have hzero : independentAt pending 0 = true := by
    cases pending with
    | nil => exact absurd rfl h
    | cons q pending => rfl
  unfold turnIndex
  split
  · cases hfind : (List.range pending.length).tail.find? fun index => independentAt pending index with
    | none => exact hzero
    | some index =>
      exact List.find?_some (p := fun index => independentAt pending index) hfind
  · exact hzero

theorem takeTurn_spec {pending rest : List Queued} {yielded : Bool} {q : Queued}
    (h : takeTurn pending yielded = some (q,rest)) :
    ∃ before after, pending = before ++ q::after ∧ rest = before ++ after ∧
      ∀ earlier ∈ before, lifecycleConflicts earlier.command q.command = false := by
  unfold takeTurn at h
  split at h
  · next found hget =>
    have hne : pending ≠ [] := by
      intro hnil
      rw [hnil] at hget
      cases hget
    have hindependent := turnIndex_independent yielded hne
    generalize turnIndex pending yielded = index at h hget hindependent
    have hpair := Option.some.inj h
    rw [Prod.mk.injEq] at hpair
    obtain ⟨hq,hrest⟩ := hpair
    subst hq
    obtain ⟨hlt,hgetElem⟩ := List.getElem?_eq_some_iff.mp hget
    refine ⟨pending.take index,pending.drop (index+1),?_,?_,?_⟩
    · rw [← hgetElem,List.getElem_cons_drop,List.take_append_drop]
    · rw [← hrest,List.eraseIdx_eq_take_drop_succ]
    · intro earlier hearlier
      unfold independentAt at hindependent
      rw [hget] at hindependent
      have hall := List.all_eq_true.mp hindependent earlier hearlier
      simpa using hall
  · cases h

theorem takeTurn_none {pending : List Queued} {yielded : Bool}
    (h : takeTurn pending yielded = none) : pending = [] := by
  by_contra hne
  have hindependent := turnIndex_independent yielded hne
  unfold takeTurn at h
  split at h
  · cases h
  · next hget =>
    unfold independentAt at hindependent
    rw [hget] at hindependent
    cases hindependent

/-- A continuation goes behind independent work, never behind a dependent command. -/
def requeueLifecycleContinuation (pending : List Queued) (command : Queued) : List Queued :=
  let independent := fun later : Queued => !lifecycleConflicts command.command later.command
  pending.takeWhile independent ++ command::pending.dropWhile independent

theorem requeue_spec (pending : List Queued) (command : Queued) :
    ∃ before after, pending = before ++ after ∧
      requeueLifecycleContinuation pending command = before ++ command::after ∧
      ∀ earlier ∈ before, lifecycleConflicts command.command earlier.command = false := by
  refine ⟨_,_,(List.takeWhile_append_dropWhile).symm,rfl,?_⟩
  intro earlier hearlier
  have hindependent := List.mem_takeWhile_imp hearlier
  simpa using hindependent

/-- Remove the first command that satisfies a test. -/
def takeFirst (test : Command → Bool) : List Queued → Option (Queued × List Queued)
  | [] => none
  | q::queue =>
    if test q.command then some (q,queue)
    else (takeFirst test queue).map fun r => (r.1,q::r.2)

theorem takeFirst_spec {test : Command → Bool} {queue rest : List Queued} {q : Queued}
    (h : takeFirst test queue = some (q,rest)) :
    test q.command = true ∧ ∃ before after, queue = before ++ q::after ∧ rest = before ++ after ∧
      ∀ earlier ∈ before, test earlier.command = false := by
  induction queue generalizing rest with
  | nil => cases h
  | cons head queue ih =>
    rw [takeFirst] at h
    split at h
    · next htest =>
      cases h
      exact ⟨htest,[],queue,rfl,rfl,fun _ h => (nomatch h)⟩
    · next htest =>
      obtain ⟨⟨q',rest'⟩,hfound,hpair⟩ := Option.map_eq_some_iff.mp h
      cases hpair
      obtain ⟨hq,before,after,rfl,hrest,hbefore⟩ := ih hfound
      refine ⟨hq,head::before,after,rfl,by rw [hrest]; rfl,?_⟩
      intro earlier hearlier
      rcases List.mem_cons.mp hearlier with rfl | hmem
      · simpa using htest
      · exact hbefore earlier hmem

/-- The first queued append of a Run: from the pending queue, else from the append channel,
whose other commands are then brought under the pending queue. -/
def takeRequiredAppend (id : RunId) (pending channel : List Queued) :
    Option Queued × List Queued × List Queued :=
  match takeFirst (Command.isAppendOf id) pending with
  | some (q,pending) => (some q,pending,channel)
  | none =>
    let others := fun q : Queued => !q.command.isAppendOf id
    match channel.dropWhile others with
    | q::rest => (some q,pending ++ channel.takeWhile others,rest)
    | [] => (none,pending ++ channel,[])

/-- Answer every queued Finalize of a Run whose original transaction is settled. -/
def settleOriginalFinalize (queue : List Queued) (id : RunId) : List Queued :=
  queue.filter fun q => !q.command.isFinalizeOf id

end Persist
end Ctxmux
