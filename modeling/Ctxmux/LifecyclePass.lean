import Ctxmux.LifecycleView

/-!
# One pass with a command in hand

What the account of the lane becomes when the command that the pass has taken is carried
out, requeued, put back, parked or answered, and when the actor returns.
-/

namespace Ctxmux
namespace Persist
namespace Actor

def lane (a : Actor) : List Queued :=
  a.pendingLifecycle.toList ++ a.lifecyclePending ++ a.lifecycle

def batchItems (a : Actor) : List Queued :=
  match a.phase with
  | .collecting batch | .writing batch => batch.items
  | _ => []

def held (queue : List Queued) : List Queued := queue.filter fun q => q.command.isLifecycle

def view (a : Actor) : View where
  lane := a.lane
  held := held a.pending
  log := a.log
  admitted := a.admitted
  accepted := a.accepted
  slots := a.slots
  overflow := a.overflow
  waiting := a.waiting.length

/-- A command without a permit and with its caller still waiting. -/
def Plain (q : Queued) : Prop :=
  q.command.isLifecycle = false ∧ q.permit = false ∧ q.answered = false

/-- What the other queues hold: only lifecycle commands wait with permits, only a Finalize
stays after its answer, and then the failure fence stays as well. -/
structure Rest (a : Actor) : Prop where
  alive : a.exited = false
  waiting : ∀ command ∈ a.waiting, command.isLifecycle = true
  pending : ∀ q ∈ a.pending, q.command.isLifecycle = true ∨ Plain q
  appends : ∀ q ∈ a.appends, Plain q
  batch : ∀ q ∈ a.batchItems, Plain q
  answered : ∀ q ∈ a.pending, q.answered = true → ∃ id latest, q.command = .finalize id latest
  parked : ∀ q ∈ a.pending, q.answered = true →
    a.failure = true ∧ a.capacityBlocked = true ∧ a.store.reconciliationPending = false

structure Sound (a : Actor) : Prop where
  tracked : Tracked a.view [] []
  rest : Rest a
  slot : a.phase = .parked → a.pendingLifecycle = none ∧ a.lifecyclePending = []

/-- The pass has this command in its hands. -/
structure Holding (a : Actor) (q : Queued) : Prop where
  tracked : Tracked a.view (held [q]) []
  plain : q.command.isLifecycle = true ∨ Plain q
  rest : Rest a
  slot : a.pendingLifecycle = none
  top : a.phase = .top

variable {a b : Actor} {q : Queued} {id : RunId}

theorem held_of_lifecycle (h : q.command.isLifecycle = true) : held [q] = [q] := by
  simp [held,h]

theorem held_of_plain (h : Plain q) : held [q] = [] := by
  simp [held,h.1]

theorem held_append (x y : List Queued) : held (x ++ y) = held x ++ held y := List.filter_append x y

theorem held_eq_nil {queue : List Queued} (h : ∀ q ∈ queue, Plain q) : held queue = [] := by
  rw [held,List.filter_eq_nil_iff]
  intro q hq
  rw [(h q hq).1]
  exact Bool.false_ne_true

section

variable (a : Actor) (permit : Bool)

theorem view_returnPermit :
    (a.returnPermit permit).view = a.view.returnPermit permit := by
  unfold returnPermit View.returnPermit
  cases permit with
  | false => rfl
  | true =>
    show View.mk _ _ _ _ _ _ _ _ = if a.slots < _ then _ else _
    simp only [if_true]
    split <;> rfl

theorem returnPermit_frame :
    a.returnPermit permit =
      { a with
        slots := (a.returnPermit permit).slots, overflow := (a.returnPermit permit).overflow } := by
  unfold returnPermit
  split
  · split <;> rfl
  · rfl

@[simp] theorem returnPermit_waiting :
    (a.returnPermit permit).waiting = a.waiting := by
  rw [returnPermit_frame]

@[simp] theorem returnPermit_lifecycle :
    (a.returnPermit permit).lifecycle = a.lifecycle := by
  rw [returnPermit_frame]

@[simp] theorem returnPermit_appends :
    (a.returnPermit permit).appends = a.appends := by
  rw [returnPermit_frame]

@[simp] theorem returnPermit_phase :
    (a.returnPermit permit).phase = a.phase := by
  rw [returnPermit_frame]

@[simp] theorem returnPermit_lifecyclePending :
    (a.returnPermit permit).lifecyclePending = a.lifecyclePending := by
  rw [returnPermit_frame]

@[simp] theorem returnPermit_pendingLifecycle :
    (a.returnPermit permit).pendingLifecycle = a.pendingLifecycle := by
  rw [returnPermit_frame]

@[simp] theorem returnPermit_pending :
    (a.returnPermit permit).pending = a.pending := by
  rw [returnPermit_frame]

@[simp] theorem returnPermit_capacityBlocked :
    (a.returnPermit permit).capacityBlocked = a.capacityBlocked := by
  rw [returnPermit_frame]

@[simp] theorem returnPermit_failure :
    (a.returnPermit permit).failure = a.failure := by
  rw [returnPermit_frame]

@[simp] theorem returnPermit_store :
    (a.returnPermit permit).store = a.store := by
  rw [returnPermit_frame]

@[simp] theorem returnPermit_exited :
    (a.returnPermit permit).exited = a.exited := by
  rw [returnPermit_frame]

@[simp] theorem returnPermit_accepted :
    (a.returnPermit permit).accepted = a.accepted := by
  rw [returnPermit_frame]

@[simp] theorem returnPermit_admitted :
    (a.returnPermit permit).admitted = a.admitted := by
  rw [returnPermit_frame]

@[simp] theorem returnPermit_log :
    (a.returnPermit permit).log = a.log := by
  rw [returnPermit_frame]

end

theorem Rest.returnPermit (h : Rest a) (permit : Bool) : Rest (a.returnPermit permit) := by
  rw [returnPermit_frame]
  exact { h with }

theorem Rest.unanswered_of_running (h : Rest a) (hf : a.failure = false) :
    ∀ q ∈ a.pending, q.answered = false := by
  intro q hq
  cases hanswered : q.answered with
  | false => rfl
  | true =>
    rw [(h.parked q hq hanswered).1] at hf
    cases hf

theorem Rest.unanswered_of_pending (h : Rest a) (hr : a.store.reconciliationPending = true) :
    ∀ q ∈ a.pending, q.answered = false := by
  intro q hq
  cases hanswered : q.answered with
  | false => rfl
  | true =>
    rw [(h.parked q hq hanswered).2.2] at hr
    cases hr

/-- The fields that `Rest` reads. -/
def restFields (a : Actor) :
    Bool × List Command × List Queued × List Queued × List Queued × Bool × Bool × Store :=
  (a.exited,a.waiting,a.pending,a.appends,a.batchItems,a.failure,a.capacityBlocked,a.store)

theorem Rest.congr (h : Rest a) (hfields : b.restFields = a.restFields) : Rest b := by
  simp only [restFields,Prod.mk.injEq] at hfields
  obtain ⟨halive,hwaiting,hpending,happends,hbatch,hfailure,hblocked,hstore⟩ := hfields
  constructor
  · rw [halive]
    exact h.alive
  · rw [hwaiting]
    exact h.waiting
  · rw [hpending]
    exact h.pending
  · rw [happends]
    exact h.appends
  · rw [hbatch]
    exact h.batch
  · rw [hpending]
    exact h.answered
  · rw [hpending,hfailure,hblocked,hstore]
    exact h.parked

/-- Flags, the store and the phase may change while no answered command is kept. -/
theorem Rest.of_unanswered (h : Rest a) (hnone : ∀ q ∈ b.pending, q.answered = false)
    (halive : b.exited = a.exited) (hwaiting : b.waiting = a.waiting)
    (happends : ∀ q ∈ b.appends, Plain q) (hbatch : ∀ q ∈ b.batchItems, Plain q)
    (hpending : ∀ q ∈ b.pending, q.command.isLifecycle = true ∨ Plain q) : Rest b where
  alive := halive.trans h.alive
  waiting := fun command hc => h.waiting command (hwaiting ▸ hc)
  pending := hpending
  appends := happends
  batch := hbatch
  answered := fun q hq ha => by
    rw [hnone q hq] at ha
    cases ha
  parked := fun q hq ha => by
    rw [hnone q hq] at ha
    cases ha

theorem Holding.fresh (h : Holding a q) : q.answered = false := by
  rcases h.plain with hkind | hplain
  · have htracked := h.tracked
    rw [held_of_lifecycle hkind] at htracked
    exact htracked.fresh q (by simp)
  · exact hplain.2.2

theorem view_putBackLast (a : Actor) (q : Queued) :
    (a.putBackLast q).view =
      { a.view with
        held := a.view.held ++ held [q], log := a.view.log ++ [.putBack q.serial] } := by
  show View.mk a.lane (held (a.pending ++ [q])) (a.log ++ [.putBack q.serial]) a.admitted a.accepted
    a.slots a.overflow a.waiting.length = _
  rw [held_append]
  rfl

theorem Rest.putBackLast (h : Rest a) (hplain : q.command.isLifecycle = true ∨ Plain q)
    (hopen : q.answered = false) : Rest (a.putBackLast q) where
  alive := h.alive
  waiting := h.waiting
  pending := fun e he => by
    rcases List.mem_append.mp he with he | he
    · exact h.pending e he
    · rw [List.mem_singleton.mp he]
      exact hplain
  appends := h.appends
  batch := h.batch
  answered := fun e he ha => by
    rcases List.mem_append.mp he with he | he
    · exact h.answered e he ha
    · rw [List.mem_singleton.mp he,hopen] at ha
      cases ha
  parked := fun e he ha => by
    rcases List.mem_append.mp he with he | he
    · exact h.parked e he ha
    · rw [List.mem_singleton.mp he,hopen] at ha
      cases ha

theorem Holding.putBackLast (h : Holding a q) : Sound (a.putBackLast q) where
  tracked := by
    rw [view_putBackLast]
    rcases h.plain with hkind | hplain
    · have htracked := h.tracked
      rw [held_of_lifecycle hkind] at htracked ⊢
      exact htracked.putBack
    · have htracked := h.tracked
      rw [held_of_plain hplain] at htracked ⊢
      rw [List.append_nil]
      exact htracked.note (.putBack q.serial) rfl fun _ _ heq => (nomatch heq)
  rest := h.rest.putBackLast h.plain h.fresh
  slot := fun hparked => by
    have htop : (a.putBackLast q).phase = a.phase := rfl
    rw [htop,h.top] at hparked
    cases hparked

theorem batchItems_top (h : a.phase = .top) : a.batchItems = [] := by
  unfold batchItems
  rw [h]

/-- While no failure is latched, flags and the store may change under the pass. -/
theorem Holding.running (h : Holding a q) (hf : a.failure = false) (hview : b.view = a.view)
    (hpending : b.pending = a.pending) (halive : b.exited = a.exited)
    (hwaiting : b.waiting = a.waiting) (happends : b.appends = a.appends)
    (hslot : b.pendingLifecycle = a.pendingLifecycle) (hphase : b.phase = a.phase) :
    Holding b q where
  tracked := by
    rw [hview]
    exact h.tracked
  plain := h.plain
  rest := by
    have hnone := h.rest.unanswered_of_running hf
    refine h.rest.of_unanswered ?_ halive hwaiting ?_ ?_ ?_
    · rw [hpending]
      exact hnone
    · rw [happends]
      exact h.rest.appends
    · rw [batchItems_top (hphase.trans h.top)]
      exact fun _ hq => (nomatch hq)
    · rw [hpending]
      exact h.rest.pending
  slot := hslot.trans h.slot
  top := hphase.trans h.top

theorem Holding.current (h : Holding a q) (hkind : q.command.isLifecycle = true) :
    Tracked a.view [q] [] := by
  have htracked := h.tracked
  rwa [held_of_lifecycle hkind] at htracked

theorem not_parked (htop : b.phase = .top) :
    b.phase = .parked → b.pendingLifecycle = none ∧ b.lifecyclePending = [] := by
  intro hparked
  rw [htop] at hparked
  cases hparked

theorem Holding.finish (h : Holding a q) (hkind : q.command.isLifecycle = true) :
    Sound (a.finish q) where
  tracked := by
    unfold Actor.finish
    rw [view_returnPermit]
    exact (h.current hkind).finish
  rest := Rest.returnPermit (a := a.record _) { h.rest with } q.permit
  slot := by
    apply not_parked
    unfold Actor.finish
    rw [returnPermit_frame]
    exact h.top

theorem Holding.answerReconciled (h : Holding a q) (hkind : q.command.isLifecycle = true) :
    Sound (a.answerReconciled q) where
  tracked := by
    unfold Actor.answerReconciled
    rw [view_returnPermit]
    exact (h.current hkind).leave.reconciled
  rest := Rest.returnPermit (a := a.record _) { h.rest with } q.permit
  slot := by
    apply not_parked
    unfold Actor.answerReconciled
    rw [returnPermit_frame]
    exact h.top

theorem view_park (a : Actor) (q : Queued) :
    (a.park q).view =
      ({ a.view with
        held := a.view.held ++ held [{ q with permit := false }]
        log := a.view.log ++ [Entry.putBack q.serial] }).returnPermit q.permit := by
  unfold Actor.park
  rw [view_putBackLast,view_returnPermit]
  have hframe : (a.view.returnPermit q.permit).held = a.view.held ∧
      (a.view.returnPermit q.permit).log = a.view.log := by
    unfold Persist.View.returnPermit
    split
    · split <;> exact ⟨rfl,rfl⟩
    · exact ⟨rfl,rfl⟩
  rw [hframe.1,hframe.2]
  exact View.returnPermit_put _ _ _ _

theorem Holding.park (h : Holding a q) (hkind : q.command.isLifecycle = true) :
    Sound (a.park q) where
  tracked := by
    have hheld : held [{ q with permit := false }] = [{ q with permit := false }] :=
      held_of_lifecycle hkind
    rw [view_park,hheld]
    exact (h.current hkind).park
  rest := (h.rest.returnPermit q.permit).putBackLast (Or.inl hkind) h.fresh
  slot := by
    apply not_parked
    show (a.returnPermit q.permit).phase = .top
    rw [returnPermit_frame]
    exact h.top

theorem Holding.carried (h : Holding a q) (hkind : q.command.isLifecycle = true) :
    Holding (a.record (.carried q.serial false)) q where
  tracked := by
    rw [held_of_lifecycle hkind]
    exact (h.current hkind).carry
  plain := h.plain
  rest := { h.rest with }
  slot := h.slot
  top := h.top

theorem Holding.noted (h : Holding a q) (entry : Entry) (hdone : entry.done = none)
    (hcarried : ∀ serial finished, entry ≠ .carried serial finished) :
    Holding (a.record entry) q where
  tracked := h.tracked.note entry hdone hcarried
  plain := h.plain
  rest := { h.rest with }
  slot := h.slot
  top := h.top

/-- Flags may change under a settled pass as long as a kept answer keeps its fence. -/
theorem Sound.flags (h : Sound a) (hview : b.view = a.view) (hpending : b.pending = a.pending)
    (halive : b.exited = a.exited) (hwaiting : b.waiting = a.waiting)
    (happends : b.appends = a.appends) (hbatch : b.batchItems = a.batchItems)
    (hparked : ∀ q ∈ a.pending, q.answered = true →
      b.failure = true ∧ b.capacityBlocked = true ∧ b.store.reconciliationPending = false)
    (hslot : b.phase = .parked → b.pendingLifecycle = none ∧ b.lifecyclePending = []) :
    Sound b where
  tracked := by
    rw [hview]
    exact h.tracked
  rest := by
    refine ⟨halive.trans h.rest.alive,?_,?_,?_,?_,?_,?_⟩
    · rw [hwaiting]
      exact h.rest.waiting
    · rw [hpending]
      exact h.rest.pending
    · rw [happends]
      exact h.rest.appends
    · rw [hbatch]
      exact h.rest.batch
    · rw [hpending]
      exact h.rest.answered
    · rw [hpending]
      exact hparked
  slot := hslot

/-- The failed terminal commit waits with the debt of its Run. -/
theorem Holding.retainFailed (h : Holding a q) (hkind : q.command.isLifecycle = true) :
    Sound (a.retainFailed q) := by
  have hparked := h.park hkind
  refine hparked.flags rfl rfl rfl rfl rfl rfl ?_ ?_
  · intro e he ha
    have hfence := hparked.rest.parked e he ha
    exact ⟨hfence.1,rfl,hfence.2.2⟩
  · apply not_parked
    show (a.returnPermit q.permit).phase = .top
    rw [returnPermit_frame]
    exact h.top

theorem Rest.retain (h : Rest a) {latest : ℕ} (hcommand : q.command = .finalize id latest)
    (hf : a.failure = true) (hb : a.capacityBlocked = true)
    (hr : a.store.reconciliationPending = false) : Rest (a.putBackLast q) where
  alive := h.alive
  waiting := h.waiting
  pending := fun e he => by
    rcases List.mem_append.mp he with he | he
    · exact h.pending e he
    · left
      rw [List.mem_singleton.mp he,hcommand]
      rfl
  appends := h.appends
  batch := h.batch
  answered := fun e he ha => by
    rcases List.mem_append.mp he with he | he
    · exact h.answered e he ha
    · rw [List.mem_singleton.mp he]
      exact ⟨id,latest,hcommand⟩
  parked := fun _ _ _ => ⟨hf,hb,hr⟩

/-- A permanent fault answers the Finalize and keeps it behind the failure fence. -/
theorem Holding.retainAnswered (h : Holding a q) {latest : ℕ}
    (hcommand : q.command = .finalize id latest) (hr : a.store.reconciliationPending = false) :
    Sound (a.retainAnswered q) := by
  have hkind : q.command.isLifecycle = true := by
    rw [hcommand]
    rfl
  have hfinished := h.finish hkind
  have hnamed := (h.current hkind).named q (by simp)
  constructor
  · have hdone : Tracked ((a.record (.carried q.serial true)).view.returnPermit q.permit) [] [] := by
      have htracked := hfinished.tracked
      unfold Actor.finish at htracked
      rwa [view_returnPermit] at htracked
    show Tracked (Actor.putBackLast
      ((Actor.record { a with failure := true } (.carried q.serial true)).returnPermit q.permit)
      { q with permit := false, answered := true }).view [] []
    have hheld : held [{ q with permit := false, answered := true }] =
        [{ q with permit := false, answered := true }] := held_of_lifecycle hkind
    rw [view_putBackLast,view_returnPermit,hheld]
    refine hdone.retain (q := { q with permit := false, answered := true }) hkind ?_ rfl rfl
    rw [View.returnPermit_admitted]
    exact hnamed
  · have hfenced : Rest { a with failure := true, capacityBlocked := true } := by
      refine { h.rest with parked := ?_ }
      intro e he ha
      exact ⟨rfl,rfl,hr⟩
    have hretained := hfenced.retain (q := { q with permit := false, answered := true })
      hcommand rfl rfl hr
    apply hretained.congr
    simp [restFields,batchItems,Actor.retainAnswered,Actor.retainFailed,Actor.park,
      Actor.putBackLast,Actor.record]
  · apply not_parked
    show ((({ a with failure := true }).record (.carried q.serial true)).returnPermit
      q.permit).phase = .top
    rw [returnPermit_frame]
    exact h.top

/-- The actor has returned: every permit it owned is back. -/
structure Closed (a : Actor) : Prop where
  exited : a.exited = true
  history : History a.log a.admitted
  once : (doneSerials a.log).Nodup
  empty : a.lane ++ a.pending = []
  permits : a.slots+a.waiting.length = lifecycleQueueCapacity+1
  sound : a.overflow = false

def Kept (a : Actor) : Prop := Sound a ∨ Closed a

theorem returnPermits_eq (queue : List Queued) (a : Actor)
    (hroom : a.slots+heldPermits queue ≤ lifecycleQueueCapacity+1) :
    a.returnPermits queue = { a with slots := a.slots+heldPermits queue } := by
  induction queue generalizing a with
  | nil => rfl
  | cons q queue ih =>
    have hcons : heldPermits (q::queue) = (if q.permit then 1 else 0)+heldPermits queue := by
      have hsplit := heldPermits_append [q] queue
      rwa [heldPermits_singleton] at hsplit
    rw [hcons] at hroom ⊢
    have hstep : a.returnPermit q.permit =
        { a with slots := a.slots+(if q.permit then 1 else 0) } := by
      unfold returnPermit
      cases hp : q.permit with
      | false => rfl
      | true =>
        rw [hp,if_pos rfl] at hroom
        rw [if_pos rfl,if_pos (by omega),if_pos rfl]
    have htail := ih (a.returnPermit q.permit) (by rw [hstep]; dsimp only; omega)
    show (a.returnPermit q.permit).returnPermits queue = _
    rw [htail,hstep]
    dsimp only
    rw [Nat.add_assoc]

theorem heldPermits_held {queue : List Queued}
    (h : ∀ q ∈ queue, q.command.isLifecycle = true ∨ Plain q) :
    heldPermits (held queue) = heldPermits queue := by
  induction queue with
  | nil => rfl
  | cons q queue ih =>
    have hsplit := heldPermits_append [q] queue
    have hsplit' := heldPermits_append (held [q]) (held queue)
    rw [← held_append] at hsplit'
    change heldPermits (held (q::queue)) = _ at hsplit'
    change heldPermits (q::queue) = _ at hsplit
    rw [hsplit,hsplit',ih fun e he => h e (List.mem_cons_of_mem _ he)]
    rcases h q List.mem_cons_self with hkind | hplain
    · rw [held_of_lifecycle hkind]
    · rw [held_of_plain hplain,heldPermits_singleton,hplain.2.1]
      rfl

/-- All permits in the hands of the actor return when it does. -/
theorem closed_exit {current : List Queued} (htracked : Tracked a.view (held current) [])
    (hcurrent : ∀ q ∈ current, q.command.isLifecycle = true ∨ Plain q) (hrest : Rest a) :
    Closed (a.exit current) := by
  have hpermits := htracked.permits
  have hcount : heldPermits (current ++ a.pendingLifecycle.toList ++ a.lifecyclePending ++
      a.lifecycle ++ a.pending) =
        heldPermits (held current ++ a.view.lane ++ a.view.held ++ []) := by
    have hlane : heldPermits a.view.lane = heldPermits a.pendingLifecycle.toList+
        heldPermits a.lifecyclePending+heldPermits a.lifecycle := by
      show heldPermits (a.pendingLifecycle.toList ++ a.lifecyclePending ++ a.lifecycle) = _
      rw [heldPermits_append,heldPermits_append]
    have hheld : heldPermits a.view.held = heldPermits a.pending :=
      heldPermits_held hrest.pending
    simp only [heldPermits_append,List.append_nil]
    rw [hlane,hheld,heldPermits_held hcurrent]
    omega
  have hslots : a.view.slots = a.slots := rfl
  have hwaiting : a.view.waiting = a.waiting.length := rfl
  have heq := returnPermits_eq (current ++ a.pendingLifecycle.toList ++ a.lifecyclePending ++
      a.lifecycle ++ a.pending) a (by rw [hcount]; omega)
  unfold Actor.exit
  rw [heq]
  refine ⟨rfl,htracked.history,(List.nodup_append.mp htracked.serial_nodup).2.1,rfl,?_,
    htracked.sound⟩
  show a.slots+_+a.waiting.length = _
  rw [hcount]
  omega

theorem Holding.exit (h : Holding a q) : Closed (a.exit [q]) := by
  refine closed_exit h.tracked ?_ h.rest
  intro e he
  rw [List.mem_singleton.mp he]
  exact h.plain

theorem Sound.exit (h : Sound a) : Closed (a.exit []) :=
  closed_exit h.tracked (fun _ hq => (nomatch hq)) h.rest

theorem checkCandidates_frame (a : Actor) (candidates : List RunId) :
    a.checkCandidates candidates =
      { a with
        capacityBlocked := (a.checkCandidates candidates).capacityBlocked
        capacityProgress := (a.checkCandidates candidates).capacityProgress } := by
  unfold checkCandidates
  split <;> rfl

theorem Holding.stageStart (h : Holding a q) {candidates : List RunId}
    (hcommand : q.command = .stageStart id candidates) (hf : a.failure = false)
    (outcome : StartOutcome) : Kept (a.stageStart q id candidates outcome) := by
  have hkind : q.command.isLifecycle = true := by
    rw [hcommand]
    rfl
  cases outcome with
  | stopped => exact Or.inr h.exit
  | committed =>
    left
    apply Holding.finish _ hkind
    rw [checkCandidates_frame]
    exact h.running hf rfl rfl rfl rfl rfl rfl rfl
  | notCommitted fatal =>
    left
    apply Holding.finish _ hkind
    rw [checkCandidates_frame]
    exact h.running hf rfl rfl rfl rfl rfl rfl rfl
  | unknown applied =>
    left
    cases applied with
    | false => exact Holding.finish (h.running hf rfl rfl rfl rfl rfl rfl rfl) hkind
    | true => exact Holding.finish (h.running hf rfl rfl rfl rfl rfl rfl rfl) hkind

theorem Holding.removeTerminal (h : Holding a q) {candidate : RunId}
    (hcommand : q.command = .removeTerminal candidate) (hf : a.failure = false)
    (outcome : RemovalOutcome) : Kept (a.removeTerminal q candidate outcome) := by
  have hkind : q.command.isLifecycle = true := by
    rw [hcommand]
    rfl
  cases outcome with
  | stopped => exact Or.inr h.exit
  | removed => exact Or.inl (Holding.finish (h.running hf rfl rfl rfl rfl rfl rfl rfl) hkind)
  | notRemoved => exact Or.inl (h.finish hkind)
  | unknown applied => exact Or.inl (Holding.finish (h.running hf rfl rfl rfl rfl rfl rfl rfl) hkind)

/-- A committed page requeues the Finalize behind independent work. -/
theorem Holding.page (h : Holding a q) (hkind : q.command.isLifecycle = true) :
    Sound { a.record (.carried q.serial false) with
      yielded := true
      lifecyclePending := requeueLifecycleContinuation a.lifecyclePending q } := by
  have hcarried := h.carried hkind
  obtain ⟨before,after,hsplit,hrequeued,hindependent⟩ := requeue_spec a.lifecyclePending q
  refine ⟨?_,{ h.rest with },not_parked h.top⟩
  have hlane : (a.record (.carried q.serial false)).view.lane = before ++ (after ++ a.lifecycle) := by
    show a.pendingLifecycle.toList ++ a.lifecyclePending ++ a.lifecycle = _
    rw [h.slot,hsplit]
    simp
  have htracked := (hcarried.current hkind).requeue hlane hindependent
  have hview : View.mk (before ++ q::(after ++ a.lifecycle)) (held a.pending)
      (a.log ++ [.carried q.serial false]) a.admitted a.accepted a.slots a.overflow
        a.waiting.length =
      Actor.view { a.record (.carried q.serial false) with
        yielded := true
        lifecyclePending := requeueLifecycleContinuation a.lifecyclePending q } := by
    unfold view lane
    dsimp only [Actor.record]
    rw [h.slot,hrequeued]
    simp
  rw [← hview]
  exact htracked

theorem Holding.finalizeTurn (h : Holding a q) {latest : ℕ}
    (hcommand : q.command = .finalize id latest) (hf : a.failure = false)
    (hr : a.store.reconciliationPending = false) (outcome : WriteOutcome) :
    Kept (a.finalizeTurn q id latest outcome) := by
  have hkind : q.command.isLifecycle = true := by
    rw [hcommand]
    rfl
  cases outcome with
  | stopped => exact Or.inr h.exit
  | committed =>
    left
    have hcommitted : Holding
        { a with
          store := a.store.advance id latest, capacityBlocked := false
          capacityProgress := true } q := h.running hf rfl rfl rfl rfl rfl rfl rfl
    have hnoted := hcommitted.noted (.finalized q.serial) rfl fun _ _ heq => (nomatch heq)
    exact hnoted.finish hkind
  | page => exact Or.inl (h.page hkind)
  | debt recheck =>
    left
    have hblocked : Holding ((a.record (.carried q.serial false)).blockOn recheck) q :=
      (h.carried hkind).running hf rfl rfl rfl rfl rfl rfl rfl
    have hparked := hblocked.park hkind
    refine hparked.flags rfl rfl rfl rfl rfl rfl hparked.rest.parked ?_
    apply not_parked
    show ((Actor.blockOn _ _).returnPermit q.permit).phase = .top
    rw [returnPermit_phase]
    exact h.top
  | failed => exact Or.inl (h.retainAnswered hcommand hr)
  | unknown applied =>
    left
    cases applied with
    | false =>
      have hlatched : Holding (a.latchUnknown ⟨true,none,none⟩) q :=
        h.running hf rfl rfl rfl rfl rfl rfl rfl
      exact (hlatched.carried hkind).retainFailed hkind
    | true =>
      have hlatched : Holding
          ({ a with store := a.store.advance id latest }.latchUnknown ⟨true,some id,none⟩) q :=
        h.running hf rfl rfl rfl rfl rfl rfl rfl
      have hnoted := hlatched.noted (.finalized q.serial) rfl fun _ _ heq => (nomatch heq)
      exact (hnoted.carried hkind).retainFailed hkind

/-- A pass that took a plain command leaves the lane alone. -/
theorem Holding.settled (h : Holding a q) (hplain : Plain q) : Sound a where
  tracked := by
    have htracked := h.tracked
    rwa [held_of_plain hplain] at htracked
  rest := h.rest
  slot := not_parked h.top

theorem Holding.plain_of (h : Holding a q) (hkind : q.command.isLifecycle = false) : Plain q := by
  rcases h.plain with hlifecycle | hplain
  · rw [hkind] at hlifecycle
    cases hlifecycle
  · exact hplain

theorem Holding.startBatch (h : Holding a q) (hplain : Plain q) : Sound (a.startBatch q) where
  tracked := (h.settled hplain).tracked
  rest := by
    refine { h.rest with batch := ?_ }
    intro e he
    rw [show e = q from List.mem_singleton.mp he]
    exact hplain
  slot := fun hparked => (nomatch hparked)

theorem Holding.execute (h : Holding a q) (env : Env) : Kept (a.execute env q) := by
  unfold Actor.execute
  split
  · next hcommand => exact Or.inl (h.finish (by rw [hcommand]; rfl))
  · next hcommand => exact Or.inl (h.settled (h.plain_of (by rw [hcommand]; rfl)))
  · next hcommand => exact Or.inl (h.settled (h.plain_of (by rw [hcommand]; rfl)))
  · next id candidates hcommand =>
    split
    · exact Or.inl (h.finish (by rw [hcommand]; rfl))
    · next hf => exact h.stageStart hcommand (by simpa using hf) env.start
  · next candidate hcommand =>
    split
    · exact Or.inl (h.finish (by rw [hcommand]; rfl))
    · next hf => exact h.removeTerminal hcommand (by simpa using hf) env.removal
  · next hcommand => exact Or.inl (h.startBatch (h.plain_of (by rw [hcommand]; rfl)))
  · next id latest hcommand =>
    have hkind : q.command.isLifecycle = true := by
      rw [hcommand]
      rfl
    split
    · exact Or.inl (h.park hkind)
    split
    · next hr _ => exact Or.inl (h.retainAnswered hcommand (by simpa using hr))
    · next hr hf =>
      exact h.finalizeTurn hcommand (by simpa using hf) (by simpa using hr) env.finalize
  · next hcommand =>
    left
    have hsettled := h.settled (h.plain_of (by rw [hcommand]; rfl))
    exact ⟨hsettled.tracked.note (.barrier q.serial _) rfl fun _ _ heq => (nomatch heq),
      { hsettled.rest with },hsettled.slot⟩
  · exact Or.inr h.exit

/-- A pass either ends in a kept state, or goes on with the command in hand. -/
def Pass.Ok (q : Queued) : Pass → Prop
  | .ended a => Kept a
  | .goes a => Holding a q

theorem Pass.Ok.andThen {p : Pass} (h : Pass.Ok q p) {f : Actor → Pass}
    (hf : ∀ a, Holding a q → Pass.Ok q (f a)) : Pass.Ok q (p.andThen f) := by
  cases p with
  | ended a => exact h
  | goes a => exact hf a h

theorem Holding.putFront (h : Holding a q) :
    Sound { a.record (.putBack q.serial) with pending := q::a.pending } := by
  have hview : Actor.view { a.record (.putBack q.serial) with pending := q::a.pending } =
      { a.view with held := held [q] ++ a.view.held, log := a.view.log ++ [.putBack q.serial] } := by
    show View.mk a.lane (held ([q] ++ a.pending)) _ _ _ _ _ _ = _
    rw [held_append]
    rfl
  constructor
  · rw [hview]
    rcases h.plain with hkind | hplain
    · have htracked := h.current hkind
      rw [held_of_lifecycle hkind]
      exact htracked.putFront
    · have htracked := h.tracked
      rw [held_of_plain hplain] at htracked ⊢
      exact htracked.note (.putBack q.serial) rfl fun _ _ heq => (nomatch heq)
  · have hopen := h.fresh
    refine { h.rest with pending := ?_, answered := ?_, parked := ?_ }
    · intro e he
      rcases List.mem_cons.mp he with rfl | he
      · exact h.plain
      · exact h.rest.pending e he
    · intro e he ha
      rcases List.mem_cons.mp he with rfl | he
      · rw [hopen] at ha
        cases ha
      · exact h.rest.answered e he ha
    · intro e he ha
      rcases List.mem_cons.mp he with rfl | he
      · rw [hopen] at ha
        cases ha
      · exact h.rest.parked e he ha
  · exact not_parked h.top

theorem answerReconciled_queues (a : Actor) (q : Queued) (pending lanes : List Queued) :
    Actor.answerReconciled { a with pending := pending, lifecyclePending := lanes } q =
      { a.answerReconciled q with pending := pending, lifecyclePending := lanes } := by
  unfold answerReconciled returnPermit
  dsimp only [record]
  by_cases hp : q.permit = true
  · by_cases hroom : a.slots < lifecycleQueueCapacity+1
    · simp only [hp,hroom,if_true]
    · simp only [hp,hroom,if_true,if_false]
  · simp only [hp]
    rfl

theorem foldl_answerReconciled_queues (settled : List Queued) (a : Actor)
    (pending lanes : List Queued) :
    settled.foldl answerReconciled { a with pending := pending, lifecyclePending := lanes } =
      { settled.foldl answerReconciled a with pending := pending, lifecyclePending := lanes } := by
  induction settled generalizing a with
  | nil => rfl
  | cons q settled ih =>
    rw [List.foldl_cons,List.foldl_cons,answerReconciled_queues]
    exact ih (a.answerReconciled q)

theorem answerReconciled_frame (a : Actor) (q : Queued) :
    a.answerReconciled q =
      { a with
        log := a.log ++ [.reconciled q.serial]
        slots := (a.answerReconciled q).slots, overflow := (a.answerReconciled q).overflow } := by
  unfold answerReconciled
  rw [returnPermit_frame]
  rfl

theorem Rest.answerReconciled (h : Rest a) (q : Queued) : Rest (a.answerReconciled q) := by
  rw [answerReconciled_frame]
  exact { h with }

/-- The leaving commands are answered one after the other. -/
theorem tracked_foldl_answerReconciled {current : List Queued} (settled : List Queued) (a : Actor)
    (h : Tracked a.view current settled) (hrest : Rest a) (hslot : a.pendingLifecycle = none)
    (htop : a.phase = .top) :
    Tracked (settled.foldl answerReconciled a).view current [] ∧
      Rest (settled.foldl answerReconciled a) ∧
      (settled.foldl answerReconciled a).pendingLifecycle = none ∧
      (settled.foldl answerReconciled a).phase = .top := by
  induction settled generalizing a with
  | nil => exact ⟨h,hrest,hslot,htop⟩
  | cons q settled ih =>
    apply ih (a.answerReconciled q)
    · show Tracked ((a.record (.reconciled q.serial)).returnPermit q.permit).view _ _
      rw [view_returnPermit]
      exact h.reconciled
    · exact hrest.answerReconciled q
    · rw [answerReconciled_frame]
      exact hslot
    · rw [answerReconciled_frame]
      exact htop

theorem isLifecycle_of_isFinalizeOf {c : Command} (h : c.isFinalizeOf id = true) :
    c.isLifecycle = true := by
  cases c with
  | finalize other latest => rfl
  | _ => cases h

theorem filter_held (queue : List Queued) (id : RunId) :
    (held queue).filter (fun q => q.command.isFinalizeOf id) =
      queue.filter fun q => q.command.isFinalizeOf id := by
  unfold held
  rw [List.filter_filter]
  apply List.filter_congr
  intro q _
  cases hf : q.command.isFinalizeOf id with
  | false => rfl
  | true =>
    rw [isLifecycle_of_isFinalizeOf hf]
    rfl

theorem settle_held (queue : List Queued) (id : RunId) :
    held (settleOriginalFinalize queue id) = settleOriginalFinalize (held queue) id := by
  unfold held settleOriginalFinalize
  rw [List.filter_filter,List.filter_filter]
  apply List.filter_congr
  intro q _
  exact Bool.and_comm _ _

theorem settle_perm (queue : List Queued) (id : RunId) :
    (settleOriginalFinalize queue id ++ queue.filter fun q => q.command.isFinalizeOf id).Perm
      queue := by
  refine List.perm_append_comm.trans ?_
  exact List.filter_append_perm (fun q => q.command.isFinalizeOf id) queue

theorem Holding.settleFinalizes (h : Holding a q) (hr : ∀ e ∈ a.pending, e.answered = false)
    (id : RunId) : Holding (a.settleFinalizes id) q := by
  have hunfold : a.settleFinalizes id =
      ((a.pending ++ a.lifecyclePending).filter fun e => e.command.isFinalizeOf id).foldl
        Actor.answerReconciled
        { a with
          pending := settleOriginalFinalize a.pending id
          lifecyclePending := settleOriginalFinalize a.lifecyclePending id } := by
    rw [foldl_answerReconciled_queues]
    unfold Actor.settleFinalizes
    dsimp only
    have hsame : ∀ settled : List Queued, (settled.foldl Actor.answerReconciled a).pending = a.pending ∧
        (settled.foldl Actor.answerReconciled a).lifecyclePending = a.lifecyclePending := by
      intro settled
      have hqueues := foldl_answerReconciled_queues settled a a.pending a.lifecyclePending
      change settled.foldl Actor.answerReconciled a = _ at hqueues
      rw [hqueues]
      exact ⟨rfl,rfl⟩
    rw [(hsame _).1,(hsame _).2]
  rw [hunfold]
  have hrest : Rest
      { a with
        pending := settleOriginalFinalize a.pending id
        lifecyclePending := settleOriginalFinalize a.lifecyclePending id } := by
    refine { h.rest with pending := ?_, answered := ?_, parked := ?_ }
    · exact fun e he => h.rest.pending e (List.mem_filter.mp he).1
    · exact fun e he => h.rest.answered e (List.mem_filter.mp he).1
    · exact fun e he => h.rest.parked e (List.mem_filter.mp he).1
  have htracked : Tracked (Actor.view
      { a with
        pending := settleOriginalFinalize a.pending id
        lifecyclePending := settleOriginalFinalize a.lifecyclePending id }) (held [q])
      ((a.pending ++ a.lifecyclePending).filter fun e => e.command.isFinalizeOf id) := by
    have hlane : a.view.lane = a.lifecyclePending ++ a.lifecycle := by
      show a.pendingLifecycle.toList ++ a.lifecyclePending ++ a.lifecycle = _
      rw [h.slot]
      rfl
    have hview : Actor.view
        { a with
          pending := settleOriginalFinalize a.pending id
          lifecyclePending := settleOriginalFinalize a.lifecyclePending id } =
        { a.view with
          lane := settleOriginalFinalize a.lifecyclePending id ++ a.lifecycle
          held := settleOriginalFinalize (held a.pending) id } := by
      show View.mk _ _ _ _ _ _ _ _ = View.mk _ _ _ _ _ _ _ _
      rw [settle_held,h.slot]
      rfl
    rw [hview]
    refine h.tracked.move _ _ ?_ ?_ ?_ ?_
    · rw [hlane,List.filter_append,List.append_nil]
      have hheld := settle_perm (held a.pending) id
      rw [filter_held] at hheld
      have hlanes := settle_perm a.lifecyclePending id
      rw [List.perm_iff_count] at hheld hlanes ⊢
      intro e
      have h₁ := hheld e
      have h₂ := hlanes e
      simp only [List.count_append] at h₁ h₂ ⊢
      show _ = _+(_+_)+(held a.pending).count e
      omega
    · intro e he
      rcases List.mem_append.mp he with he | he
      · apply h.tracked.fresh e
        rw [hlane,List.append_nil]
        rcases List.mem_append.mp he with he | he
        · exact List.mem_append_left _ he
        · apply List.mem_append_right
          rcases List.mem_append.mp he with he | he
          · exact List.mem_append_left _ (List.mem_filter.mp he).1
          · exact List.mem_append_right _ he
      · rcases List.mem_append.mp (List.mem_filter.mp he).1 with he | he
        · exact hr e he
        · apply h.tracked.fresh e
          rw [hlane]
          simp [he]
    · have hordered := h.tracked.ordered
      rw [hlane] at hordered
      have hsublist : (settleOriginalFinalize a.lifecyclePending id ++ a.lifecycle).Sublist
          (a.lifecyclePending ++ a.lifecycle) := List.filter_sublist.append (List.Sublist.refl _)
      exact List.Pairwise.sublist ((List.Sublist.refl _).append hsublist) hordered
    · exact fun e he => h.tracked.excused e (List.mem_filter.mp he).1
  obtain ⟨htracked',hrest',hslot',htop'⟩ :=
    tracked_foldl_answerReconciled _ _ htracked hrest h.slot h.top
  exact ⟨htracked',h.plain,hrest',hslot',htop'⟩

end Actor
end Persist
end Ctxmux
