import Ctxmux.LifecyclePass

/-!
# Dependent lifecycle commands keep their order

Every step of the senders and of the actor keeps the account of the lane, so in every run
a command has its turns only after what it depends on, unless that was put back.
-/

namespace Ctxmux
namespace Persist
namespace Actor

variable {a b : Actor} {q : Queued} {pending : List Queued} {batch : Batch} {command : Command}

/-- Flags and the store may change in a pass while no answered command is kept. -/
theorem Holding.unlatched (h : Holding a q) (hnone : ∀ e ∈ a.pending, e.answered = false)
    (hview : b.view = a.view) (hpending : b.pending = a.pending) (halive : b.exited = a.exited)
    (hwaiting : b.waiting = a.waiting) (happends : b.appends = a.appends)
    (hslot : b.pendingLifecycle = a.pendingLifecycle) (hphase : b.phase = a.phase) :
    Holding b q where
  tracked := by
    rw [hview]
    exact h.tracked
  plain := h.plain
  rest := by
    refine h.rest.of_unanswered ?_ halive hwaiting ?_ ?_ ?_
    · rw [hpending]
      exact hnone
    · rw [happends]
      exact h.rest.appends
    · rw [batchItems_top (hphase.trans h.top)]
      exact fun _ hq => (nomatch hq)
    · rw [hpending]
      exact h.rest.pending
  slot := hslot.trans h.slot
  top := hphase.trans h.top

theorem Holding.reconciled (h : Holding a q) (hr : a.store.reconciliationPending = true)
    (startCommits : Bool) : Sound (a.reconciled q startCommits) := by
  have hnone := h.rest.unanswered_of_pending hr
  have hlifted : Holding
      { a with
        failure := false
        recoveryRetry := false
        capacityBlocked := false
        capacityProgress := true
        store := applyReconciled a.store startCommits } q :=
    h.unlatched hnone rfl rfl rfl rfl rfl rfl rfl
  unfold Actor.reconciled
  dsimp only
  split
  · next id _ =>
    have hsettled := hlifted.settleFinalizes hnone id
    split
    · next hfinalize => exact hsettled.answerReconciled (isLifecycle_of_isFinalizeOf hfinalize)
    · exact hsettled.putFront
  · exact hlifted.putFront

theorem Holding.reconcileTurn (h : Holding a q) (env : Env) : Pass.Ok q (a.reconcileTurn env q) := by
  unfold Actor.reconcileTurn
  split
  · next hguard =>
    have hr : a.store.reconciliationPending = true := by
      simp only [Bool.and_eq_true] at hguard
      exact hguard.1.1
    split
    · exact Or.inl (h.reconciled hr _)
    · exact h
    · exact h
    · exact h.unlatched (h.rest.unanswered_of_pending hr) rfl rfl rfl rfl rfl rfl rfl
  · exact h

theorem Holding.gatherPrefix (h : Holding a q) : Holding (a.gatherPrefix q) q := by
  unfold Actor.gatherPrefix
  split
  · have hheld : held (a.pending ++ a.appends) = held a.pending := by
      rw [held_append,held_eq_nil h.rest.appends,List.append_nil]
    refine ⟨?_,h.plain,?_,h.slot,h.top⟩
    · have hview : Actor.view { a with pending := a.pending ++ a.appends, appends := [] } =
          a.view := by
        show View.mk _ (held (a.pending ++ a.appends)) _ _ _ _ _ _ = _
        rw [hheld]
        rfl
      rw [hview]
      exact h.tracked
    · refine { h.rest with pending := ?_, appends := ?_, answered := ?_, parked := ?_ }
      · intro e he
        rcases List.mem_append.mp he with he | he
        · exact h.rest.pending e he
        · exact Or.inr (h.rest.appends e he)
      · exact fun _ he => (nomatch he)
      · intro e he ha
        rcases List.mem_append.mp he with he | he
        · exact h.rest.answered e he ha
        · rw [(h.rest.appends e he).2.2] at ha
          cases ha
      · intro e he ha
        rcases List.mem_append.mp he with he | he
        · exact h.rest.parked e he ha
        · rw [(h.rest.appends e he).2.2] at ha
          cases ha
  · exact h

theorem Holding.checkIdentity (h : Holding a q) (env : Env) :
    Pass.Ok q (a.checkIdentity env q) := by
  unfold Actor.checkIdentity
  split
  · next hguard =>
    have hf : a.failure = false := by
      simp only [Bool.and_eq_true,Bool.not_eq_true'] at hguard
      exact hguard.1.1
    split
    · exact Or.inl (Holding.putBackLast (h.running hf rfl rfl rfl rfl rfl rfl rfl))
    · exact h
    · exact h.running hf rfl rfl rfl rfl rfl rfl rfl
  · exact h

theorem Holding.checkFunding (h : Holding a q) (env : Env) : Pass.Ok q (a.checkFunding env q) := by
  unfold Actor.checkFunding
  split
  · next hguard =>
    have hf : a.failure = false := by
      simp only [Bool.and_eq_true,Bool.not_eq_true'] at hguard
      exact hguard.1.1
    exact Or.inl (Holding.putBackLast (h.running hf rfl rfl rfl rfl rfl rfl rfl))
  · exact h

theorem Holding.waitBehindDebt (h : Holding a q) : Pass.Ok q (a.waitBehindDebt q) := by
  unfold Actor.waitBehindDebt
  split
  · exact Or.inl h.putBackLast
  · next hcommand =>
    split
    · exact Or.inl (h.park (by rw [hcommand]; rfl))
    · exact h
  · exact h

theorem Holding.blockedTurn (h : Holding a q) (env : Env) : Pass.Ok q (a.blockedTurn env q) := by
  unfold Actor.blockedTurn
  split
  · apply (h.gatherPrefix.checkIdentity env).andThen
    intro b hb
    apply (hb.checkFunding env).andThen
    intro c hc
    exact hc.waitBehindDebt
  · exact h

theorem isAppendOf_plain {c : Command} {id : RunId} (h : c.isAppendOf id = true) :
    c.isLifecycle = false := by
  cases c with
  | append other latest payload => rfl
  | _ => cases h

/-- What taking a required append does to the queues: it only takes one append and moves
appends under the pending queue. -/
theorem takeRequiredAppend_spec (id : RunId) {channel : List Queued}
    (hpending : ∀ q ∈ pending, q.command.isLifecycle = true ∨ Plain q)
    (hchannel : ∀ q ∈ channel, Plain q) :
    held (takeRequiredAppend id pending channel).2.1 = held pending ∧
    (∀ q ∈ (takeRequiredAppend id pending channel).2.1, q ∈ pending ∨ Plain q) ∧
    (∀ q ∈ (takeRequiredAppend id pending channel).2.2, Plain q) ∧
    ∀ q, (takeRequiredAppend id pending channel).1 = some q → Plain q := by
  unfold takeRequiredAppend
  split
  · next found rest hfound =>
    obtain ⟨htest,before,after,hsplit,hrest,-⟩ := takeFirst_spec hfound
    have hplain : Plain found := by
      rcases hpending found (by rw [hsplit]; simp) with hkind | hplain
      · rw [isAppendOf_plain htest] at hkind
        cases hkind
      · exact hplain
    refine ⟨?_,?_,hchannel,?_⟩
    · rw [hsplit,hrest,held_append,held_append]
      congr 1
      show held after = held ([found] ++ after)
      rw [held_append,held_of_plain hplain]
      rfl
    · intro e he
      left
      rw [hsplit]
      change e ∈ rest at he
      rw [hrest] at he
      rcases List.mem_append.mp he with he | he
      · exact List.mem_append_left _ he
      · exact List.mem_append_right _ (List.mem_cons_of_mem _ he)
    · intro e he
      cases he
      exact hplain
  · dsimp only
    split
    · next found rest hdrop =>
      have hmem : ∀ e ∈ found::rest, Plain e := by
        intro e he
        apply hchannel
        rw [← hdrop] at he
        exact (List.dropWhile_sublist _).subset he
      have htaken : ∀ e ∈ channel.takeWhile fun q => !q.command.isAppendOf id, Plain e :=
        fun e he => hchannel e ((List.takeWhile_sublist _).subset he)
      refine ⟨?_,?_,?_,?_⟩
      · rw [held_append,held_eq_nil htaken,List.append_nil]
      · intro e he
        rcases List.mem_append.mp he with he | he
        · exact Or.inl he
        · exact Or.inr (htaken e he)
      · exact fun e he => hmem e (List.mem_cons_of_mem _ he)
      · intro e he
        cases he
        exact hmem found List.mem_cons_self
    · refine ⟨?_,?_,fun _ he => (nomatch he),fun _ he => (nomatch he)⟩
      · rw [held_append,held_eq_nil hchannel,List.append_nil]
      · intro e he
        rcases List.mem_append.mp he with he | he
        · exact Or.inl he
        · exact Or.inr (hchannel e he)

theorem Rest.required (h : Rest a) {appends : List Queued}
    (hpending : ∀ q ∈ pending, q ∈ a.pending ∨ Plain q) (happends : ∀ q ∈ appends, Plain q)
    (slot : Option Queued) :
    Rest { a with pending := pending, appends := appends, pendingLifecycle := slot } := by
  refine { h with pending := ?_, appends := happends, answered := ?_, parked := ?_ }
  · intro e he
    rcases hpending e he with he | he
    · exact h.pending e he
    · exact Or.inr he
  · intro e he ha
    rcases hpending e he with he | he
    · exact h.answered e he ha
    · rw [he.2.2] at ha
      cases ha
  · intro e he ha
    rcases hpending e he with he | he
    · exact h.parked e he ha
    · rw [he.2.2] at ha
      cases ha

theorem takeRequiredAppend_isAppend {id : RunId} {channel : List Queued} {q : Queued}
    (h : (takeRequiredAppend id pending channel).1 = some q) : q.command.isAppendOf id = true := by
  unfold takeRequiredAppend at h
  split at h
  · next hfound =>
    cases h
    exact (takeFirst_spec hfound).1
  · dsimp only at h
    split at h
    · next found rest hdrop =>
      cases h
      have hne : channel.dropWhile (fun q => !q.command.isAppendOf id) ≠ [] := by
        rw [hdrop]
        exact List.cons_ne_nil _ _
      have hhead := List.head_dropWhile_not (fun q : Queued => !q.command.isAppendOf id) hne
      simp only [hdrop,List.head_cons,Bool.not_eq_false'] at hhead
      exact hhead
    · cases h

/-- The Finalize in hand is set aside and the batch of its Run begins. -/
theorem Holding.aside (h : Holding a q) (hkind : q.command.isLifecycle = true) {id : RunId}
    {append : Queued} (happend : (takeRequiredAppend id a.pending a.appends).1 = some append)
    (env : Env) :
    Kept (Actor.execute
      { a with
        pending := (takeRequiredAppend id a.pending a.appends).2.1
        appends := (takeRequiredAppend id a.pending a.appends).2.2
        pendingLifecycle := some q } env append) := by
  obtain ⟨hheld,hpending,happends,hplain⟩ :=
    takeRequiredAppend_spec id h.rest.pending h.rest.appends
  have hcommand : ∃ other latest payload, append.command = .append other latest payload := by
    have htest := takeRequiredAppend_isAppend happend
    cases hc : append.command with
    | append other latest payload => exact ⟨other,latest,payload,rfl⟩
    | _ =>
      rw [hc] at htest
      cases htest
  obtain ⟨other,latest,payload,hcommand⟩ := hcommand
  unfold Actor.execute
  rw [hcommand]
  left
  refine ⟨?_,?_,fun hparked => (nomatch hparked)⟩
  · have htracked := (h.current hkind).setAside
    have hview : Actor.view (Actor.startBatch
        { a with
          pending := (takeRequiredAppend id a.pending a.appends).2.1
          appends := (takeRequiredAppend id a.pending a.appends).2.2
          pendingLifecycle := some q } append) = { a.view with lane := q::a.view.lane } := by
      show View.mk _ (held (takeRequiredAppend id a.pending a.appends).2.1) _ _ _ _ _ _ =
        View.mk (q::(a.pendingLifecycle.toList ++ a.lifecyclePending ++ a.lifecycle)) _ _ _ _ _ _ _
      rw [hheld,h.slot]
      rfl
    rw [hview]
    exact htracked
  · refine { h.rest.required hpending happends (some q) with batch := ?_ }
    intro e he
    rw [show e = append from List.mem_singleton.mp he]
    exact hplain append happend

theorem Holding.requireAppend (h : Holding a q) (env : Env) :
    Kept ((a.requireAppend env q).2.execute env (a.requireAppend env q).1) := by
  unfold Actor.requireAppend
  split
  · next id latest hcommand =>
    have hkind : q.command.isLifecycle = true := by
      rw [hcommand]
      rfl
    split
    · obtain ⟨hheld,hpending,happends,-⟩ :=
        takeRequiredAppend_spec id h.rest.pending h.rest.appends
      split
      · next append pending appends heq =>
        have haside := h.aside hkind (show (takeRequiredAppend id a.pending a.appends).1 = some append by rw [heq]) env
        rw [heq] at haside
        exact haside
      · next pending appends heq =>
        rw [heq] at hheld hpending happends
        have hholding : Holding { a with pending := pending, appends := appends } q := by
          refine ⟨?_,h.plain,?_,h.slot,h.top⟩
          · have hview : Actor.view { a with pending := pending, appends := appends } = a.view := by
              show View.mk _ (held pending) _ _ _ _ _ _ = _
              rw [hheld]
              rfl
            rw [hview]
            exact h.tracked
          · exact h.rest.required hpending happends a.pendingLifecycle
        exact hholding.execute env
    · exact h.execute env
  · exact h.execute env

theorem Holding.pass (h : Holding a q) (env : Env) : Kept (a.pass env q) := by
  have hstart : Holding { a with yielded := false, phase := .top } q :=
    ⟨h.tracked,h.plain,{ h.rest with batch := fun _ hq => (nomatch hq) },h.slot,rfl⟩
  have hturns : Pass.Ok q
      ((Actor.reconcileTurn { a with yielded := false, phase := .top } env q).andThen
        fun b => b.blockedTurn env q) :=
    (hstart.reconcileTurn env).andThen fun b hb => hb.blockedTurn env
  unfold Actor.pass
  dsimp only
  split
  · next b heq =>
    rw [heq] at hturns
    exact hturns
  · next b heq =>
    rw [heq] at hturns
    exact Holding.requireAppend hturns env

theorem Sound.prepare (h : Sound a) (htop : a.phase = .top) :
    Sound a.armRetry.settleQuiet.reclaimSlot.fillLane ∧
      a.armRetry.settleQuiet.reclaimSlot.fillLane.phase = .top ∧
      a.armRetry.settleQuiet.reclaimSlot.fillLane.pendingLifecycle = none := by
  have harmed : Sound a.armRetry ∧ a.armRetry.phase = .top := by
    unfold armRetry
    split
    · next hguard =>
      have hr : a.store.reconciliationPending = true := by
        simp only [Bool.and_eq_true] at hguard
        exact hguard.1
      refine ⟨h.flags rfl rfl rfl rfl rfl rfl ?_ (not_parked htop),htop⟩
      intro e he ha
      rw [h.rest.unanswered_of_pending hr e he] at ha
      cases ha
    · exact ⟨h,htop⟩
  have hquiet : Sound a.armRetry.settleQuiet ∧ a.armRetry.settleQuiet.phase = .top := by
    obtain ⟨hsound,hphase⟩ := harmed
    generalize a.armRetry = b at hsound hphase
    unfold settleQuiet
    split
    · exact ⟨hsound.flags rfl rfl rfl rfl rfl rfl hsound.rest.parked (not_parked hphase),hphase⟩
    · exact ⟨hsound,hphase⟩
  obtain ⟨hsound,hphase⟩ := hquiet
  generalize a.armRetry.settleQuiet = b at hsound hphase
  refine ⟨?_,hphase,rfl⟩
  have hview : b.reclaimSlot.fillLane.view = b.view := by
    show View.mk (([] : List Queued) ++ (b.pendingLifecycle.toList ++ b.lifecyclePending ++
        b.lifecycle.take _) ++ b.lifecycle.drop _) _ _ _ _ _ _ _ =
      View.mk (b.pendingLifecycle.toList ++ b.lifecyclePending ++ b.lifecycle) _ _ _ _ _ _ _
    rw [List.nil_append,List.append_assoc _ (List.take _ _),List.take_append_drop]
    rfl
  exact hsound.flags hview rfl rfl rfl rfl rfl hsound.rest.parked (not_parked hphase)

theorem Rest.shrink (h : Rest a) (hsub : ∀ q ∈ pending, q ∈ a.pending) :
    Rest { a with pending := pending } :=
  { h with
    pending := fun e he => h.pending e (hsub e he)
    answered := fun e he => h.answered e (hsub e he)
    parked := fun e he => h.parked e (hsub e he) }

/-- Taking a command of the pending queue, with an empty lane. -/
theorem Sound.takePending (h : Sound a) (htop : a.phase = .top) (hslot : a.pendingLifecycle = none)
    (hlane : a.lane = []) {before after : List Queued} (hsplit : a.pending = before ++ q::after)
    (hopen : q.answered = false) : Holding { a with pending := before ++ after } q := by
  have hq : q ∈ a.pending := by simp [hsplit]
  refine ⟨?_,h.rest.pending q hq,?_,hslot,htop⟩
  · have hview : Actor.view { a with pending := before ++ after } =
        { a.view with held := held before ++ held after } := by
      show View.mk _ (held (before ++ after)) _ _ _ _ _ _ = _
      rw [held_append]
      rfl
    rw [hview]
    rcases h.rest.pending q hq with hkind | hplain
    · rw [held_of_lifecycle hkind]
      apply h.tracked.takeHeld _ hlane hopen
      show held a.pending = held before ++ q::held after
      have hcons : q::after = [q] ++ after := rfl
      rw [hsplit,held_append,hcons,held_append,held_of_lifecycle hkind]
      rfl
    · rw [held_of_plain hplain]
      have hsame : held before ++ held after = a.view.held := by
        show _ = held a.pending
        have hcons : q::after = [q] ++ after := rfl
        rw [hsplit,held_append,hcons,held_append,held_of_plain hplain]
        rfl
      rw [hsame]
      exact h.tracked
  · apply h.rest.shrink
    intro e he
    rw [hsplit]
    rcases List.mem_append.mp he with he | he
    · exact List.mem_append_left _ he
    · exact List.mem_append_right _ (List.mem_cons_of_mem _ he)

theorem Sound.takePendingTurn (h : Sound a) (htop : a.phase = .top)
    (hslot : a.pendingLifecycle = none) (hlane : a.lane = []) (htake : a.takePending = some (q,b)) :
    Holding b q := by
  unfold Actor.takePending at htake
  split at htake
  · obtain ⟨⟨found,rest⟩,hfound,heq⟩ := Option.map_eq_some_iff.mp htake
    cases heq
    obtain ⟨htest,before,after,hsplit,hrest,-⟩ := takeFirst_spec hfound
    dsimp only at hrest htest ⊢
    rw [hrest]
    apply h.takePending htop hslot hlane hsplit
    cases hanswered : found.answered with
    | false => rfl
    | true =>
      obtain ⟨id,latest,hcommand⟩ := h.rest.answered found (by simp [hsplit]) hanswered
      rw [hcommand] at htest
      cases htest
  · next hblocked =>
    split at htake
    · next rest hpending =>
      cases htake
      have hsplit : a.pending = [] ++ q::rest := hpending
      have hopen : q.answered = false := by
        cases hanswered : q.answered with
        | false => rfl
        | true =>
          have hfence := h.rest.parked q (by simp [hpending]) hanswered
          exact absurd hfence.2.1 hblocked
      exact h.takePending htop hslot hlane hsplit hopen
    · cases htake

theorem Sound.receive (h : Sound a) (hslot : a.pendingLifecycle = none)
    (htake : a.receive = some (q,b)) :
    Tracked b.view (held [q]) [] ∧ Plain q ∧ Rest { b with phase := .top } ∧
      b.pendingLifecycle = none := by
  unfold Actor.receive at htake
  split at htake
  · next found rest happends =>
    cases htake
    have hplain : Plain q := h.rest.appends q (by simp [happends])
    refine ⟨?_,hplain,?_,hslot⟩
    · rw [held_of_plain hplain]
      exact h.tracked
    · refine { h.rest with appends := ?_, batch := fun _ hq => (nomatch hq) }
      intro e he
      apply h.rest.appends
      rw [happends]
      exact List.mem_cons_of_mem _ he
  · cases htake

theorem fillLane_nil (a : Actor) (h : a.fillLane.lifecyclePending = []) :
    a.fillLane.lifecycle = [] := by
  have hsplit : a.lifecyclePending ++
      a.lifecycle.take (lifecycleQueueCapacity-a.lifecyclePending.length) = [] := h
  obtain ⟨hlane,htake⟩ := List.append_eq_nil_iff.mp hsplit
  rw [hlane] at htake
  have hempty : a.lifecycle = [] := by
    rcases List.take_eq_nil_iff.mp htake with hzero | hnil
    · cases hzero
    · exact hnil
  show a.lifecycle.drop _ = []
  rw [hempty]
  exact List.drop_nil

theorem Sound.takeLane (h : Sound a) (htop : a.phase = .top) (hslot : a.pendingLifecycle = none)
    {rest : List Queued} (htake : takeTurn a.lifecyclePending a.yielded = some (q,rest)) :
    Holding { a with lifecyclePending := rest } q := by
  obtain ⟨before,after,hsplit,hrest,hindependent⟩ := takeTurn_spec htake
  have hlane : a.view.lane = before ++ q::(after ++ a.lifecycle) := by
    show a.pendingLifecycle.toList ++ a.lifecyclePending ++ a.lifecycle = _
    rw [hslot,hsplit]
    simp
  have hkind : q.command.isLifecycle = true := h.tracked.kinds q (by simp [hlane])
  refine ⟨?_,Or.inl hkind,{ h.rest with },hslot,htop⟩
  have hview : Actor.view { a with lifecyclePending := rest } =
      { a.view with lane := before ++ (after ++ a.lifecycle) } := by
    show View.mk (a.pendingLifecycle.toList ++ rest ++ a.lifecycle) _ _ _ _ _ _ _ = _
    rw [hslot,hrest]
    simp [view]
  rw [held_of_lifecycle hkind,hview]
  exact h.tracked.takeLane hlane hindependent

/-- Whatever the actor chooses, it has it in its hands. -/
theorem Sound.choose (h : Sound a) (htop : a.phase = .top) (hslot : a.pendingLifecycle = none)
    (hfilled : a.lifecyclePending = [] → a.lifecycle = []) (hchoose : a.choose = some (q,b)) :
    Holding { b with phase := .top } q := by
  unfold Actor.choose at hchoose
  split at hchoose
  · next found rest htake =>
    cases hchoose
    have hholding := h.takeLane htop hslot htake
    exact ⟨hholding.tracked,hholding.plain,{ hholding.rest with batch := fun _ hq => (nomatch hq) },
      hholding.slot,rfl⟩
  · next hnone =>
    have hempty := takeTurn_none hnone
    have hlane : a.lane = [] := by
      unfold lane
      rw [hslot,hempty,hfilled hempty]
      rfl
    split at hchoose
    · next r htake =>
      cases hchoose
      have hholding := h.takePendingTurn htop hslot hlane htake
      exact ⟨hholding.tracked,hholding.plain,
        { hholding.rest with batch := fun _ hq => (nomatch hq) },hholding.slot,rfl⟩
    · obtain ⟨htracked,hplain,hrest,hslot'⟩ := h.receive hslot hchoose
      exact ⟨htracked,Or.inr hplain,hrest,hslot',rfl⟩

theorem Sound.idleTurn (h : Sound a) (htop : a.phase = .top) (hslot : a.pendingLifecycle = none)
    (hlane : a.lifecyclePending = []) (outcome : IdleOutcome) : Kept (a.idleTurn outcome) := by
  have hbatch : ∀ b : Actor, b.phase = .parked → b.batchItems = a.batchItems := by
    intro b hb
    rw [batchItems_top htop]
    unfold batchItems
    rw [hb]
  have hparked : ∀ b : Actor, b.view = a.view → b.pending = a.pending → b.exited = a.exited →
      b.waiting = a.waiting → b.appends = a.appends → b.phase = .parked →
      b.pendingLifecycle = a.pendingLifecycle → b.lifecyclePending = a.lifecyclePending →
      (∀ q ∈ a.pending, q.answered = true →
        b.failure = true ∧ b.capacityBlocked = true ∧ b.store.reconciliationPending = false) →
      Sound b := by
    intro b hview hpending halive hwaiting happends hphase hpl hlp hfence
    refine h.flags hview hpending halive hwaiting happends (hbatch b hphase) hfence ?_
    exact fun _ => ⟨hpl.trans hslot,hlp.trans hlane⟩
  unfold Actor.idleTurn
  split
  · exact Or.inl (hparked _ rfl rfl rfl rfl rfl rfl rfl rfl h.rest.parked)
  · next hguard =>
    have hf : a.failure = false := by
      simp only [Bool.or_eq_true,not_or,Bool.not_eq_true] at hguard
      exact hguard.1
    have hnone := h.rest.unanswered_of_running hf
    have hvacuous : ∀ {P : Prop} (q : Queued), q ∈ a.pending → q.answered = true → P := by
      intro P q hq ha
      rw [hnone q hq] at ha
      cases ha
    cases outcome with
    | quiet => exact Or.inl (hparked _ rfl rfl rfl rfl rfl rfl rfl rfl h.rest.parked)
    | compacted =>
      exact Or.inl (h.flags rfl rfl rfl rfl rfl rfl h.rest.parked (not_parked htop))
    | debt recheck => exact Or.inl (hparked _ rfl rfl rfl rfl rfl rfl rfl rfl hvacuous)
    | transient stopped =>
      cases stopped with
      | false => exact Or.inl h
      | true => exact Or.inr h.exit
    | failed => exact Or.inl (hparked _ rfl rfl rfl rfl rfl rfl rfl rfl hvacuous)
    | unknown => exact Or.inl (hparked _ rfl rfl rfl rfl rfl rfl rfl rfl hvacuous)

theorem Sound.wakeUp (h : Sound a) (hphase : a.phase = .parked) {timeout : Bool}
    (hwake : a.wakeUp timeout = some (q,b)) : Holding { b with phase := .top } q := by
  obtain ⟨hslot,-⟩ := h.slot hphase
  unfold Actor.wakeUp at hwake
  split at hwake
  · next r htake =>
    cases hwake
    obtain ⟨htracked,hplain,hrest,hslot'⟩ := h.receive hslot htake
    exact ⟨htracked,Or.inr hplain,hrest,hslot',rfl⟩
  · split at hwake
    · cases hwake
      have hplain : Plain ⟨a.accepted,.lifecycleWake,false,false⟩ := ⟨rfl,rfl,rfl⟩
      refine ⟨?_,Or.inr hplain,{ h.rest with batch := fun _ hq => (nomatch hq) },hslot,rfl⟩
      rw [held_of_plain hplain]
      refine { h.tracked with bounded := ?_ }
      intro serial hserial
      have := h.tracked.bounded serial hserial
      show serial < a.accepted+1
      exact Nat.lt_succ_of_lt this
    · cases hwake

theorem Sound.turn (h : Sound a) (env : Env) : Kept (a.turn env) := by
  unfold Actor.turn
  split
  · next htop =>
    obtain ⟨hsound,hphase,hslot⟩ := h.prepare htop
    have hfilled := fillLane_nil a.armRetry.settleQuiet.reclaimSlot
    dsimp only
    generalize a.armRetry.settleQuiet.reclaimSlot.fillLane = b at hsound hphase hslot hfilled
    split
    · next q c hchoose =>
      have hholding := hsound.choose hphase hslot hfilled hchoose
      exact hholding.pass env
    · next hnone =>
      have hlane : b.lifecyclePending = [] := by
        unfold Actor.choose at hnone
        split at hnone
        · cases hnone
        · next htake => exact takeTurn_none htake
      exact hsound.idleTurn hphase hslot hlane env.idle
  · next hparked =>
    split
    · next q b hwake => exact (h.wakeUp hparked hwake).pass env
    · exact Or.inl h
  · exact Or.inl h

theorem held_cons_plain (hplain : Plain q) (queue : List Queued) : held (q::queue) = held queue := by
  have hcons : q::queue = [q] ++ queue := rfl
  rw [hcons,held_append,held_of_plain hplain]
  rfl

theorem Rest.front (h : Rest a) {queue : List Queued} (hqueue : ∀ q ∈ queue, Plain q) :
    Rest { a with pending := queue ++ a.pending } := by
  refine { h with pending := ?_, answered := ?_, parked := ?_ }
  · intro e he
    rcases List.mem_append.mp he with he | he
    · exact Or.inr (hqueue e he)
    · exact h.pending e he
  · intro e he ha
    rcases List.mem_append.mp he with he | he
    · rw [(hqueue e he).2.2] at ha
      cases ha
    · exact h.answered e he ha
  · intro e he ha
    rcases List.mem_append.mp he with he | he
    · rw [(hqueue e he).2.2] at ha
      cases ha
    · exact h.parked e he ha

theorem Sound.write (h : Sound a) (hitems : ∀ q ∈ batch.items, Plain q) :
    Sound { a with phase := .writing batch } :=
  ⟨h.tracked,{ h.rest with batch := hitems },fun hparked => (nomatch hparked)⟩

theorem Sound.joinBatch (h : Sound a) (hitems : ∀ q ∈ batch.items, Plain q) (hplain : Plain q) :
    Sound (a.joinBatch batch q) := by
  have hput : Sound { a with pending := q::a.pending, phase := .writing batch } := by
    have hrest : Rest { a with pending := [q] ++ a.pending } :=
      h.rest.front fun e he => by rw [List.mem_singleton.mp he]; exact hplain
    refine ⟨?_,{ hrest with batch := hitems },fun hparked => (nomatch hparked)⟩
    have hview : Actor.view { a with pending := q::a.pending, phase := .writing batch } =
        a.view := by
      show View.mk _ (held (q::a.pending)) _ _ _ _ _ _ = _
      rw [held_cons_plain hplain]
      rfl
    rw [hview]
    exact h.tracked
  unfold Actor.joinBatch
  split
  · split
    · refine ⟨h.tracked,{ h.rest with batch := ?_ },fun hparked => (nomatch hparked)⟩
      intro e he
      rcases List.mem_append.mp (show e ∈ batch.items ++ [q] from he) with he | he
      · exact hitems e he
      · rw [List.mem_singleton.mp he]
        exact hplain
    · exact hput
  · exact hput

theorem Sound.gatherRequired (h : Sound a) (hphase : a.phase = .collecting batch) (id : RunId) :
    Sound (a.gatherRequired batch id) := by
  have hitems : ∀ q ∈ batch.items, Plain q := by
    have hbatch := h.rest.batch
    unfold batchItems at hbatch
    rwa [hphase] at hbatch
  unfold Actor.gatherRequired
  split
  · obtain ⟨hheld,hpending,happends,hplain⟩ :=
      takeRequiredAppend_spec id h.rest.pending h.rest.appends
    have hmoved : Sound
        { a with
          pending := (takeRequiredAppend id a.pending a.appends).2.1
          appends := (takeRequiredAppend id a.pending a.appends).2.2 } := by
      refine ⟨?_,h.rest.required hpending happends a.pendingLifecycle,h.slot⟩
      have hview : Actor.view
          { a with
            pending := (takeRequiredAppend id a.pending a.appends).2.1
            appends := (takeRequiredAppend id a.pending a.appends).2.2 } = a.view := by
        show View.mk _ (held (takeRequiredAppend id a.pending a.appends).2.1) _ _ _ _ _ _ = _
        rw [hheld]
        rfl
      rw [hview]
      exact h.tracked
    split
    · next q pending appends heq =>
      rw [heq] at hmoved
      exact hmoved.joinBatch hitems (hplain q (by rw [heq]))
    · next pending appends heq =>
      rw [heq] at hmoved
      exact hmoved.write hitems
  · exact h.write hitems

theorem Sound.gatherNext (h : Sound a) (hphase : a.phase = .collecting batch) (expired : Bool) :
    Sound (a.gatherNext batch expired) := by
  have hitems : ∀ q ∈ batch.items, Plain q := by
    have hbatch := h.rest.batch
    unfold batchItems at hbatch
    rwa [hphase] at hbatch
  unfold Actor.gatherNext
  split
  · exact h.write hitems
  split
  · next q pending hpending =>
    by_cases hplain : Plain q
    · have hmoved : Sound { a with pending := pending } := by
        refine ⟨?_,h.rest.shrink fun e he => by rw [hpending]; exact List.mem_cons_of_mem _ he,
          h.slot⟩
        have hview : Actor.view { a with pending := pending } = a.view := by
          show View.mk _ (held pending) _ _ _ _ _ _ = View.mk _ (held a.pending) _ _ _ _ _ _
          rw [hpending,held_cons_plain hplain]
          rfl
        rw [hview]
        exact h.tracked
      exact hmoved.joinBatch hitems hplain
    · have hkind : q.command.isLifecycle = true :=
        (h.rest.pending q (by simp [hpending])).resolve_right hplain
      have hrestored : Actor.joinBatch { a with pending := pending } batch q =
          { a with phase := .writing batch } := by
        unfold Actor.joinBatch
        split
        · next hcommand =>
          rw [hcommand] at hkind
          cases hkind
        · dsimp only
          rw [← hpending]
      rw [hrestored]
      exact h.write hitems
  · split
    · next q appends happends =>
      have hplain : Plain q := h.rest.appends q (by simp [happends])
      have hmoved : Sound { a with appends := appends } := by
        refine ⟨h.tracked,{ h.rest with appends := ?_ },h.slot⟩
        intro e he
        apply h.rest.appends
        rw [happends]
        exact List.mem_cons_of_mem _ he
      exact hmoved.joinBatch hitems hplain
    · exact h

theorem Sound.collect (h : Sound a) (expired : Bool) : Sound (a.collect expired) := by
  unfold Actor.collect
  split
  · next batch hphase =>
    have hitems : ∀ q ∈ batch.items, Plain q := by
      have hbatch := h.rest.batch
      unfold batchItems at hbatch
      rwa [hphase] at hbatch
    split
    · exact h.write hitems
    · next hguard =>
      have hlane : a.lifecyclePending = [] := by
        simp only [Bool.or_eq_true,not_or,Bool.not_eq_true,Bool.not_eq_false',
          List.isEmpty_iff] at hguard
        exact hguard.2
      split
      · next q lifecycle hslot hlifecycle =>
        have hview : Actor.view
            { a with
              pendingLifecycle := some q, lifecycle := lifecycle, phase := .writing batch } =
            a.view := by
          show View.mk ([q] ++ a.lifecyclePending ++ lifecycle) _ _ _ _ _ _ _ =
            View.mk (a.pendingLifecycle.toList ++ a.lifecyclePending ++ a.lifecycle) _ _ _ _ _ _ _
          rw [hslot,hlane,hlifecycle]
          rfl
        refine ⟨?_,{ h.rest with batch := hitems },fun hparked => (nomatch hparked)⟩
        rw [hview]
        exact h.tracked
      · split
        · exact h.gatherRequired hphase _
        · exact h.write hitems
      · exact h.gatherNext hphase expired
  · exact h

/-- The items of a batch go back in front of the pending queue. -/
theorem Sound.returnItems (h : Sound a) {items : List Queued} (hitems : ∀ q ∈ items, Plain q) :
    Sound { a with pending := items ++ a.pending, phase := .top } := by
  have hview : Actor.view { a with pending := items ++ a.pending, phase := .top } = a.view := by
    show View.mk _ (held (items ++ a.pending)) _ _ _ _ _ _ = _
    rw [held_append,held_eq_nil hitems]
    rfl
  refine ⟨?_,{ h.rest.front hitems with batch := fun _ hq => (nomatch hq) },not_parked rfl⟩
  rw [hview]
  exact h.tracked

theorem Sound.failBatch (h : Sound a) (hitems : ∀ q ∈ batch.items, Plain q) :
    Sound (a.failBatch batch) := by
  have hreturned := h.returnItems hitems
  refine hreturned.flags rfl rfl rfl rfl rfl rfl ?_ (not_parked rfl)
  intro e he ha
  exact ⟨rfl,rfl,(hreturned.rest.parked e he ha).2.2⟩

/-- While no failure is latched, the results of a batch only touch flags, the store and the
items. -/
theorem Sound.writeBatch (h : Sound a) (hphase : a.phase = .writing batch) (hf : a.failure = false)
    (outcome : WriteOutcome) : Kept (a.writeBatch batch outcome) := by
  have hitems : ∀ q ∈ batch.items, Plain q := by
    have hbatch := h.rest.batch
    unfold batchItems at hbatch
    rwa [hphase] at hbatch
  have hreturned := h.returnItems hitems
  have hvacuous : ∀ {P : Prop} (q : Queued), q ∈ batch.items ++ a.pending → q.answered = true → P := by
    intro P q hq ha
    rw [hreturned.rest.unanswered_of_running hf q hq] at ha
    cases ha
  cases outcome with
  | stopped => exact Or.inr h.exit
  | committed =>
    left
    have hrecorded := h.tracked.note (.appended (serials batch.items)) rfl fun _ _ heq => (nomatch heq)
    refine ⟨hrecorded,?_,not_parked rfl⟩
    refine h.rest.of_unanswered (h.rest.unanswered_of_running hf) rfl rfl h.rest.appends ?_
      h.rest.pending
    exact fun _ hq => (nomatch hq)
  | page => exact Or.inl (hreturned.flags rfl rfl rfl rfl rfl rfl hvacuous (not_parked rfl))
  | debt recheck => exact Or.inl (hreturned.flags rfl rfl rfl rfl rfl rfl hvacuous (not_parked rfl))
  | failed => exact Or.inl (h.failBatch hitems)
  | unknown applied =>
    exact Or.inl (hreturned.flags rfl rfl rfl rfl rfl rfl hvacuous (not_parked rfl))

theorem Sound.writeTurn (h : Sound a) (env : WriteEnv) : Kept (a.write env) := by
  unfold Actor.write
  split
  · next batch hphase =>
    have hitems : ∀ q ∈ batch.items, Plain q := by
      have hbatch := h.rest.batch
      unfold batchItems at hbatch
      rwa [hphase] at hbatch
    have hchecked : Sound
        { a with failure := a.failure || (a.capacityDebt && env.missingFailed) } := by
      refine h.flags rfl rfl rfl rfl rfl rfl ?_ h.slot
      intro e he ha
      obtain ⟨hf,hb,hr⟩ := h.rest.parked e he ha
      refine ⟨?_,hb,hr⟩
      show (a.failure || _) = true
      rw [hf]
      rfl
    dsimp only
    split
    · exact Or.inl (hchecked.failBatch hitems)
    · next hf =>
      have hnoted := hchecked.tracked.note (.presented (serials batch.items)) rfl
        fun _ _ heq => (nomatch heq)
      have hpresented : Sound (Actor.record
          { a with failure := a.failure || (a.capacityDebt && env.missingFailed) }
          (.presented (serials batch.items))) := ⟨hnoted,{ hchecked.rest with },hchecked.slot⟩
      have hrunning : (a.failure || (a.capacityDebt && env.missingFailed)) = false :=
        Bool.eq_false_iff.mpr hf
      exact hpresented.writeBatch hphase hrunning env.append
  · exact Or.inl h

theorem Sound.acquire (h : Sound a) (command : Command) : Sound (a.acquire command) := by
  unfold Actor.acquire
  split
  · next hguard =>
    rw [Bool.and_eq_true,decide_eq_true_eq] at hguard
    obtain ⟨hkind,hslots⟩ := hguard
    refine ⟨?_,{ h.rest with waiting := ?_ },h.slot⟩
    · have htracked := h.tracked.acquire hslots
      have hview : Actor.view { a with slots := a.slots-1, waiting := a.waiting ++ [command] } =
          { a.view with slots := a.view.slots-1, waiting := a.view.waiting+1 } := by
        show View.mk _ _ _ _ _ _ _ (a.waiting ++ [command]).length = View.mk _ _ _ _ _ _ _ _
        rw [List.length_append]
        rfl
      rw [hview]
      exact htracked
    · intro other hother
      rcases List.mem_append.mp hother with hother | hother
      · exact h.rest.waiting other hother
      · rw [List.mem_singleton.mp hother]
        exact hkind
  · exact h

theorem waiting_pos {index : ℕ} (h : a.waiting[index]? = some command) :
    index < a.waiting.length := (List.getElem?_eq_some_iff.mp h).1

theorem Sound.enter (h : Sound a) (index : ℕ) : Sound (a.enter index) := by
  unfold Actor.enter
  split
  · next command hget =>
    have hlt := waiting_pos hget
    have hkind := h.rest.waiting command (List.mem_of_getElem? hget)
    split
    · refine ⟨?_,{ h.rest with waiting := ?_ },h.slot⟩
      · have htracked := h.tracked.enter (Nat.zero_lt_of_lt hlt) hkind
        have hview : Actor.view
            { a with
              waiting := a.waiting.eraseIdx index
              lifecycle := a.lifecycle ++ [⟨a.accepted,command,true,false⟩]
              accepted := a.accepted+1
              admitted := a.admitted ++ [(a.accepted,command)] } =
            { a.view with
              waiting := a.view.waiting-1
              lane := a.view.lane ++ [⟨a.view.accepted,command,true,false⟩]
              accepted := a.view.accepted+1
              admitted := a.view.admitted ++ [(a.view.accepted,command)] } := by
          show View.mk (_ ++ (a.lifecycle ++ _)) _ _ _ _ _ _ (a.waiting.eraseIdx index).length =
            View.mk _ _ _ _ _ _ _ _
          rw [List.length_eraseIdx_of_lt hlt,← List.append_assoc]
          rfl
        rw [hview]
        exact htracked
      · exact fun other hother => h.rest.waiting other (List.mem_of_mem_eraseIdx hother)
    · exact h
  · exact h

theorem Sound.abandon (h : Sound a) (index : ℕ) : Sound (a.abandon index) := by
  unfold Actor.abandon
  split
  · next command hget =>
    have hlt := waiting_pos hget
    have hview : Actor.view { a with waiting := a.waiting.eraseIdx index } =
        { a.view with waiting := a.view.waiting-1 } := by
      show View.mk _ _ _ _ _ _ _ (a.waiting.eraseIdx index).length = View.mk _ _ _ _ _ _ _ _
      rw [List.length_eraseIdx_of_lt hlt]
      rfl
    have hrest : Rest { a with waiting := a.waiting.eraseIdx index } := by
      refine { h.rest with waiting := ?_ }
      exact fun other hother => h.rest.waiting other (List.mem_of_mem_eraseIdx hother)
    refine ⟨?_,hrest.returnPermit true,?_⟩
    · rw [view_returnPermit,hview]
      exact h.tracked.abandon (Nat.zero_lt_of_lt hlt)
    · simp only [returnPermit_phase,returnPermit_pendingLifecycle,returnPermit_lifecyclePending]
      exact h.slot
  · exact h

theorem Closed.abandon (h : Closed a) (index : ℕ) : Closed (a.abandon index) := by
  unfold Actor.abandon
  split
  · next command hget =>
    have hlt := waiting_pos hget
    have hpermits := h.permits
    have hroom : a.slots < lifecycleQueueCapacity+1 := by omega
    unfold Actor.returnPermit
    rw [if_pos rfl,if_pos hroom]
    refine ⟨h.exited,h.history,h.once,h.empty,?_,h.sound⟩
    show a.slots+1+(a.waiting.eraseIdx index).length = _
    rw [List.length_eraseIdx_of_lt hlt]
    omega
  · exact h

theorem Sound.enqueue (h : Sound a) (hkind : command.isLifecycle = false) :
    Sound (a.enqueue command) := by
  unfold Actor.enqueue
  split
  · refine ⟨{ h.tracked with bounded := ?_ },{ h.rest with appends := ?_ },h.slot⟩
    · intro serial hserial
      have := h.tracked.bounded serial hserial
      exact Nat.lt_succ_of_lt this
    · intro e he
      rcases List.mem_append.mp he with he | he
      · exact h.rest.appends e he
      · rw [List.mem_singleton.mp he]
        exact ⟨hkind,rfl,rfl⟩
  · exact h

theorem Sound.credit (h : Sound a) : Sound a.credit := by
  unfold Actor.credit
  split
  · exact ⟨h.tracked,{ h.rest with },h.slot⟩
  · exact h

theorem Sound.appendSend (h : Sound a) (hkind : command.isLifecycle = false) :
    Sound (a.appendSend command) := by
  unfold Actor.appendSend
  split
  · have hspent : Sound { a with credited := a.credited-1 } := ⟨h.tracked,{ h.rest with },h.slot⟩
    exact hspent.enqueue hkind
  · exact h

theorem Sound.refuse (h : Sound a) : Sound a.refuse := by
  unfold Actor.refuse
  split
  · exact ⟨h.tracked,{ h.rest with },h.slot⟩
  · exact h

theorem Closed.refuse (h : Closed a) : Closed a.refuse := by
  unfold Actor.refuse
  split
  · exact ⟨h.exited,h.history,h.once,h.empty,h.permits,h.sound⟩
  · exact h

/-- What one step of the senders or of the actor keeps. -/
theorem Kept.step (h : Kept a) (event : Event) : Kept (a.step event) := by
  rcases h with h | h
  · have halive := h.rest.alive
    cases event with
    | acquire command => exact Or.inl (by simpa only [Actor.step,halive,Bool.false_eq_true,if_false] using h.acquire command)
    | enter index => exact Or.inl (by simpa only [Actor.step,halive,Bool.false_eq_true,if_false] using h.enter index)
    | abandon index => exact Or.inl (h.abandon index)
    | wake => exact Or.inl (by simpa only [Actor.step,halive,Bool.false_eq_true,if_false] using h.enqueue rfl)
    | credit => exact Or.inl (by simpa only [Actor.step,halive,Bool.false_eq_true,if_false] using h.credit)
    | append id latest bytes =>
      exact Or.inl (by simpa only [Actor.step,halive,Bool.false_eq_true,if_false] using h.appendSend rfl)
    | refused => exact Or.inl h.refuse
    | send command =>
      left
      unfold Actor.step
      dsimp only
      split
      · exact h
      · next hguard =>
        simp only [Bool.or_eq_true,not_or,Bool.not_eq_true] at hguard
        exact h.enqueue hguard.1.2
    | turn env => simpa only [Actor.step,halive,Bool.false_eq_true,if_false] using h.turn env
    | collect expired => exact Or.inl (by simpa only [Actor.step,halive,Bool.false_eq_true,if_false] using h.collect expired)
    | write env => simpa only [Actor.step,halive,Bool.false_eq_true,if_false] using h.writeTurn env
  · right
    have hexited := h.exited
    cases event with
    | abandon index => exact h.abandon index
    | refused => exact h.refuse
    | send command => simpa only [Actor.step,hexited,Bool.true_or,if_true] using h
    | _ => simpa only [Actor.step,hexited,if_true] using h

theorem initial_sound (head : RunId → Option ℕ) : Sound (initial head) where
  tracked :=
    { kinds := fun _ hq => (nomatch hq)
      fresh := fun _ hq => (nomatch hq)
      ordered := List.Pairwise.nil
      accounted := List.Perm.refl _
      named := fun _ hq => (nomatch hq)
      excused := fun _ hq => (nomatch hq)
      increasing := List.Pairwise.nil
      bounded := fun _ hq => (nomatch hq)
      history := by
        intro before serial finished after heq
        cases before <;> cases heq
      permits := rfl
      sound := rfl }
  rest :=
    { alive := rfl
      waiting := fun _ hq => (nomatch hq)
      pending := fun _ hq => (nomatch hq)
      appends := fun _ hq => (nomatch hq)
      batch := fun _ hq => (nomatch hq)
      answered := fun _ hq => (nomatch hq)
      parked := fun _ hq => (nomatch hq) }
  slot := fun hparked => (nomatch hparked)

theorem run_kept (head : RunId → Option ℕ) (es : List Event) : Kept ((initial head).run es) :=
  Machine.run_invariant (I := Kept) (fun _ event h => h.step event) (Or.inl (initial_sound head)) es

/-- The permits that are out of the slot channel. -/
def circulating (a : Actor) : ℕ := a.waiting.length+heldPermits (a.lane ++ a.pending)

/-- What holds of the lifecycle commands in every state: dependent ones have their turns in
the order of their admission unless the earlier one was put back, none is lost or answered
twice, and every permit finds its slot. -/
structure Orderly (a : Actor) : Prop where
  order : History a.log a.admitted
  once : (doneSerials a.log).Nodup
  kept : a.exited = false → ∀ entry ∈ a.admitted, entry.1 ∈ doneSerials a.log ∨
    ∃ q ∈ a.lane ++ a.pending, q.serial = entry.1 ∧ q.command = entry.2 ∧ q.answered = false
  permits : a.circulating ≤ lifecycleQueueCapacity+1
  room : a.overflow = false

theorem Sound.kept (h : Sound a) {entry : ℕ × Command} (hentry : entry ∈ a.admitted) :
    entry.1 ∈ doneSerials a.log ∨
      ∃ q ∈ a.lane ++ a.pending, q.serial = entry.1 ∧ q.command = entry.2 ∧ q.answered = false := by
  have hserial : entry.1 ∈ a.view.admitted.map Prod.fst := List.mem_map.mpr ⟨_,hentry,rfl⟩
  rcases List.mem_append.mp (h.tracked.accounted.mem_iff.mpr hserial) with hopen | hdone
  · right
    obtain ⟨q,hq,heq⟩ := List.mem_map.mp hopen
    obtain ⟨hmem,hunanswered⟩ := List.mem_filter.mp hq
    refine ⟨q,?_,heq,?_,by simpa using hunanswered⟩
    · rw [List.nil_append,List.append_nil] at hmem
      rcases List.mem_append.mp hmem with hmem | hmem
      · exact List.mem_append_left _ hmem
      · exact List.mem_append_right _ (List.mem_filter.mp hmem).1
    · apply h.tracked.command_unique (h.tracked.named q hmem)
      rw [heq]
      exact hentry
  · exact Or.inl hdone

theorem Sound.orderly (h : Sound a) : Orderly a where
  order := h.tracked.history
  once := (List.nodup_append.mp h.tracked.serial_nodup).2.1
  kept := fun _ _ hentry => h.kept hentry
  permits := by
    have hpermits := h.tracked.permits
    rw [List.nil_append,List.append_nil,heldPermits_append] at hpermits
    have hheld : heldPermits a.view.held = heldPermits a.pending := heldPermits_held h.rest.pending
    unfold circulating
    rw [heldPermits_append]
    change a.slots+a.waiting.length+(heldPermits a.lane+heldPermits a.view.held) = _ at hpermits
    omega
  room := h.tracked.sound

theorem Closed.orderly (h : Closed a) : Orderly a where
  order := h.history
  once := h.once
  kept := fun halive => by
    rw [h.exited] at halive
    cases halive
  permits := by
    have hpermits := h.permits
    have hnone : heldPermits (a.lane ++ a.pending) = 0 := by
      rw [h.empty]
      rfl
    unfold circulating
    omega
  room := h.sound

/-- Dependent lifecycle commands keep their order, in every run. -/
theorem lifecycle_order (head : RunId → Option ℕ) (es : List Event) :
    Orderly ((initial head).run es) := by
  rcases run_kept head es with hsound | hclosed
  · exact hsound.orderly
  · exact hclosed.orderly

/-- A pass in which the retained transaction is settled and everything else succeeds. -/
def settlingEnv (start : StartOutcome) : Env :=
  ⟨true,.settled true,.valid,false,true,false,.quiet,start,.removed,.committed⟩

/-- A start of unknown outcome; behind it a start that evicts the Run 3, and the removal of
the Run 3. The pass of the second start settles the first one and puts the second back. -/
def overtakenEvents : List Event :=
  [.acquire (.stageStart 1 []),.enter 0,.turn (settlingEnv (.unknown true)),
    .acquire (.stageStart 2 [3]),.enter 0,.acquire (.removeTerminal 3),.enter 0,
    .turn (settlingEnv .committed),.turn (settlingEnv .committed)]

/-- One permit more than the capacity of the lane is in circulation, and the removal has its
turn before the start it depends on, which was admitted before it and is still waiting. -/
theorem permits_exceed_and_start_overtaken :
    lifecycleQueueCapacity < circulating
      ((initial fun _ => none).run (List.replicate 9 (.acquire (.readReplay 0)))) ∧
    ((initial fun id => if id = 3 then some 0 else none).run overtakenEvents).admitted =
      [(0,.stageStart 1 []),(1,.stageStart 2 [3]),(2,.removeTerminal 3)] ∧
    lifecycleConflicts (.stageStart 2 [3]) (.removeTerminal 3) = true ∧
    ((initial fun id => if id = 3 then some 0 else none).run overtakenEvents).log =
      [.carried 0 true,.putBack 1,.carried 2 true] := by
  decide

end Actor
end Persist
end Ctxmux
