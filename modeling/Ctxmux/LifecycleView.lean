import Ctxmux.PersistenceActor

/-!
# What the lifecycle lane keeps

The commands that the actor holds are in the lane, on the pending queue, or in the hands
of the current pass. The account below says where each admitted command is, that the lane
keeps dependent commands in the order of their admission, and where every permit is.
-/

namespace Ctxmux
namespace Persist

/-- The serials that were answered, in the order of their answers. -/
def Entry.done : Entry → Option ℕ
  | .carried serial true | .reconciled serial => some serial
  | _ => none

def Entry.returned : Entry → Option ℕ
  | .putBack serial => some serial
  | _ => none

def doneSerials (log : List Entry) : List ℕ := log.filterMap Entry.done
def putBackSerials (log : List Entry) : List ℕ := log.filterMap Entry.returned

/-- Every turn of a command comes after its dependencies: what was admitted before it and
names a common Run is answered, or was put back; and no turn follows an answer. -/
def History (log : List Entry) (admitted : List (ℕ × Command)) : Prop :=
  ∀ before serial finished after, log = before ++ .carried serial finished::after →
    serial ∉ doneSerials before ∧
    ∃ command, (serial,command) ∈ admitted ∧
      ∀ earlier ∈ admitted, earlier.1 < serial → Dependent earlier.2 command →
        earlier.1 ∈ doneSerials before ∨ earlier.1 ∈ putBackSerials before

theorem doneSerials_append (l m : List Entry) :
    doneSerials (l ++ m) = doneSerials l ++ doneSerials m := List.filterMap_append

theorem putBackSerials_append (l m : List Entry) :
    putBackSerials (l ++ m) = putBackSerials l ++ putBackSerials m := List.filterMap_append

variable {log : List Entry} {admitted : List (ℕ × Command)}

theorem append_singleton_split {before after : List Entry} {entry other : Entry}
    (h : log ++ [entry] = before ++ other::after) :
    (before = log ∧ entry = other) ∨ ∃ rest, log = before ++ other::rest := by
  rcases List.eq_nil_or_concat after with rfl | ⟨rest,last,rfl⟩
  · obtain ⟨hlog,hentry⟩ := List.append_inj' h rfl
    exact Or.inl ⟨hlog.symm,(List.cons.inj hentry).1⟩
  · right
    refine ⟨rest,?_⟩
    have hassoc : before ++ other::(rest ++ [last]) = before ++ other::rest ++ [last] := by simp
    rw [List.concat_eq_append,hassoc] at h
    exact (List.append_inj' h rfl).1

theorem History.note (h : History log admitted) {entry : Entry}
    (hentry : ∀ serial finished, entry ≠ .carried serial finished) :
    History (log ++ [entry]) admitted := by
  intro before serial finished after heq
  rcases append_singleton_split heq with ⟨-,hcarried⟩ | ⟨rest,hlog⟩
  · exact absurd hcarried (hentry serial finished)
  · exact h before serial finished rest hlog

theorem History.carry (h : History log admitted) {serial : ℕ} {command : Command} (finished : Bool)
    (hopen : serial ∉ doneSerials log) (hadmitted : (serial,command) ∈ admitted)
    (hearlier : ∀ earlier ∈ admitted, earlier.1 < serial → Dependent earlier.2 command →
      earlier.1 ∈ doneSerials log ∨ earlier.1 ∈ putBackSerials log) :
    History (log ++ [.carried serial finished]) admitted := by
  intro before serial' finished' after heq
  rcases append_singleton_split heq with ⟨hbefore,hcarried⟩ | ⟨rest,hlog⟩
  · injection hcarried with hserial
    subst hserial
    subst hbefore
    exact ⟨hopen,command,hadmitted,hearlier⟩
  · exact h before serial' finished' rest hlog

/-- A command admitted later than every turn changes nothing. -/
theorem History.enter (h : History log admitted) {serial : ℕ}
    (hlater : ∀ s ∈ admitted.map Prod.fst, s < serial) (command : Command) :
    History log (admitted ++ [(serial,command)]) := by
  intro before carried finished after heq
  obtain ⟨hopen,named,hnamed,hearlier⟩ := h before carried finished after heq
  refine ⟨hopen,named,List.mem_append_left _ hnamed,?_⟩
  intro earlier hmem hlt hdependent
  rcases List.mem_append.mp hmem with hmem | hmem
  · exact hearlier earlier hmem hlt hdependent
  · rw [List.mem_singleton.mp hmem] at hlt
    have hbefore := hlater carried (List.mem_map.mpr ⟨_,hnamed,rfl⟩)
    exact absurd hlt (by dsimp only; omega)

def InOrder (x y : Queued) : Prop :=
  lifecycleConflicts x.command y.command = true → x.serial < y.serial

/-- The parts of the actor that the order of its lifecycle commands depends on. -/
structure View where
  lane : List Queued
  held : List Queued
  log : List Entry
  admitted : List (ℕ × Command)
  accepted : ℕ
  slots : ℕ
  overflow : Bool
  waiting : ℕ

def unanswered (queue : List Queued) : List ℕ :=
  (queue.filter fun q => !q.answered).map (·.serial)

def heldPermits (queue : List Queued) : ℕ := queue.countP fun q => q.permit

/-- The account of a view while a pass has `current` in its hands and `leaving` is about
to be answered. -/
structure Tracked (v : View) (current leaving : List Queued) : Prop where
  kinds : ∀ q ∈ current ++ v.lane ++ v.held ++ leaving, q.command.isLifecycle = true
  fresh : ∀ q ∈ current ++ v.lane ++ leaving, q.answered = false
  ordered : (current ++ v.lane).Pairwise InOrder
  accounted : (unanswered (current ++ v.lane ++ v.held ++ leaving) ++ doneSerials v.log).Perm
    (v.admitted.map Prod.fst)
  named : ∀ q ∈ current ++ v.lane ++ v.held ++ leaving, (q.serial,q.command) ∈ v.admitted
  excused : ∀ q ∈ v.held, q.serial ∈ putBackSerials v.log
  increasing : (v.admitted.map Prod.fst).Pairwise (· < ·)
  bounded : ∀ serial ∈ v.admitted.map Prod.fst, serial < v.accepted
  history : History v.log v.admitted
  permits : v.slots+v.waiting+heldPermits (current ++ v.lane ++ v.held ++ leaving) =
    lifecycleQueueCapacity+1
  sound : v.overflow = false

theorem unanswered_perm {x y : List Queued} (h : x.Perm y) :
    (unanswered x).Perm (unanswered y) := (h.filter _).map _

theorem heldPermits_perm {x y : List Queued} (h : x.Perm y) : heldPermits x = heldPermits y := h.countP_eq _

namespace Tracked

variable {v : View} {current leaving : List Queued}

theorem serial_nodup (h : Tracked v current leaving) :
    (unanswered (current ++ v.lane ++ v.held ++ leaving) ++ doneSerials v.log).Nodup := by
  rw [h.accounted.nodup_iff]
  exact h.increasing.imp fun hlt => ne_of_lt hlt

/-- Commands change places: the account only needs the order and the excuses anew. -/
theorem move (h : Tracked v current leaving) (lane held : List Queued)
    {current' leaving' : List Queued}
    (hperm : (current' ++ lane ++ held ++ leaving').Perm (current ++ v.lane ++ v.held ++ leaving))
    (hfresh : ∀ q ∈ current' ++ lane ++ leaving', q.answered = false)
    (hordered : (current' ++ lane).Pairwise InOrder)
    (hexcused : ∀ q ∈ held, q.serial ∈ putBackSerials v.log) :
    Tracked { v with lane := lane, held := held } current' leaving' where
  kinds := fun q hq => h.kinds q (hperm.mem_iff.mp hq)
  fresh := hfresh
  ordered := hordered
  accounted := ((unanswered_perm hperm).append_right _).trans h.accounted
  named := fun q hq => h.named q (hperm.mem_iff.mp hq)
  excused := hexcused
  increasing := h.increasing
  bounded := h.bounded
  history := h.history
  permits := by
    rw [heldPermits_perm hperm]
    exact h.permits
  sound := h.sound

/-- An entry that neither answers nor carries a command. -/
theorem note (h : Tracked v current leaving) (entry : Entry) (hdone : entry.done = none)
    (hcarried : ∀ serial finished, entry ≠ .carried serial finished) :
    Tracked { v with log := v.log ++ [entry] } current leaving where
  kinds := h.kinds
  fresh := h.fresh
  ordered := h.ordered
  accounted := by
    have hnone : doneSerials [entry] = [] := by
      unfold doneSerials
      rw [List.filterMap_cons_none hdone]
      rfl
    rw [doneSerials_append,hnone,List.append_nil]
    exact h.accounted
  named := h.named
  excused := fun q hq => by
    rw [putBackSerials_append]
    exact List.mem_append_left _ (h.excused q hq)
  increasing := h.increasing
  bounded := h.bounded
  history := h.history.note hcarried
  permits := h.permits
  sound := h.sound

theorem not_done (h : Tracked v current leaving) {q : Queued}
    (hq : q ∈ current ++ v.lane ++ v.held ++ leaving) (hopen : q.answered = false) :
    q.serial ∉ doneSerials v.log := by
  intro hdone
  have hmem : q.serial ∈ unanswered (current ++ v.lane ++ v.held ++ leaving) := by
    apply List.mem_map.mpr
    exact ⟨q,List.mem_filter.mpr ⟨hq,by rw [hopen]; rfl⟩,rfl⟩
  exact (List.disjoint_of_nodup_append h.serial_nodup) hmem hdone

theorem command_unique (h : Tracked v current leaving) {serial : ℕ} {x y : Command}
    (hx : (serial,x) ∈ v.admitted) (hy : (serial,y) ∈ v.admitted) : x = y := by
  have hnodup : (v.admitted.map Prod.fst).Nodup := h.increasing.imp fun hlt => ne_of_lt hlt
  have hsame := List.inj_on_of_nodup_map hnodup hx hy rfl
  exact congrArg Prod.snd hsame

/-- What the command in hand depends on is answered or was put back. -/
theorem dependencies {q : Queued} (h : Tracked v [q] []) :
    ∀ earlier ∈ v.admitted, earlier.1 < q.serial → Dependent earlier.2 q.command →
      earlier.1 ∈ doneSerials v.log ∨ earlier.1 ∈ putBackSerials v.log := by
  intro earlier hadmitted hlt hdependent
  have hserial : earlier.1 ∈ v.admitted.map Prod.fst := List.mem_map.mpr ⟨_,hadmitted,rfl⟩
  rcases List.mem_append.mp (h.accounted.mem_iff.mpr hserial) with hopen | hdone
  · obtain ⟨e,he,heq⟩ := List.mem_map.mp hopen
    have hmem := (List.mem_filter.mp he).1
    have hcommand : e.command = earlier.2 := by
      apply h.command_unique (h.named e hmem)
      rw [heq]
      exact hadmitted
    have hmem' : e ∈ [q] ++ v.lane ++ v.held := by simpa using hmem
    rcases List.mem_append.mp hmem' with hlane | hheld
    · rcases List.mem_append.mp hlane with hcurrent | hlane
      · rw [List.mem_singleton.mp hcurrent] at heq
        omega
      · have hpair : InOrder q e := (List.pairwise_cons.mp h.ordered).1 e hlane
        have hkind := h.kinds q (by simp)
        have hconflict : lifecycleConflicts q.command e.command = true := by
          rw [lifecycleConflicts_iff hkind,hcommand]
          obtain ⟨id,hid,hid'⟩ := hdependent
          exact ⟨id,hid',hid⟩
        have := hpair hconflict
        omega
    · right
      rw [← heq]
      exact h.excused e hheld
  · exact Or.inl hdone

theorem carry {q : Queued} (h : Tracked v [q] []) :
    Tracked { v with log := v.log ++ [.carried q.serial false] } [q] [] where
  kinds := h.kinds
  fresh := h.fresh
  ordered := h.ordered
  accounted := by
    have hnone : doneSerials (v.log ++ [.carried q.serial false]) = doneSerials v.log := by
      rw [doneSerials_append]
      exact List.append_nil _
    rw [hnone]
    exact h.accounted
  named := h.named
  excused := fun e he => by
    rw [putBackSerials_append]
    exact List.mem_append_left _ (h.excused e he)
  increasing := h.increasing
  bounded := h.bounded
  history := h.history.carry false (h.not_done (by simp) (h.fresh q (by simp)))
    (h.named q (by simp)) h.dependencies
  permits := h.permits
  sound := h.sound

end Tracked

/-- The slot channel of a view takes a permit back. -/
def View.returnPermit (v : View) (permit : Bool) : View :=
  if permit then
    if v.slots < lifecycleQueueCapacity+1 then { v with slots := v.slots+1 }
    else { v with overflow := true }
  else v

theorem View.returnPermit_of_room {v : View} {permit : Bool}
    (h : permit = true → v.slots < lifecycleQueueCapacity+1) :
    v.returnPermit permit = { v with slots := v.slots+(if permit then 1 else 0) } := by
  unfold returnPermit
  cases permit with
  | false => rfl
  | true => exact if_pos (h rfl)

theorem View.returnPermit_put (v : View) (permit : Bool) (queue : List Queued) (log : List Entry) :
    { v.returnPermit permit with held := queue, log := log } =
      ({ v with held := queue, log := log }).returnPermit permit := by
  unfold returnPermit
  split
  · dsimp only
    split <;> rfl
  · rfl

theorem View.returnPermit_admitted (v : View) (permit : Bool) :
    (v.returnPermit permit).admitted = v.admitted := by
  unfold returnPermit
  split
  · split <;> rfl
  · rfl

theorem unanswered_append (x y : List Queued) : unanswered (x ++ y) = unanswered x ++ unanswered y := by
  unfold unanswered
  rw [List.filter_append,List.map_append]

theorem heldPermits_append (x y : List Queued) :
    heldPermits (x ++ y) = heldPermits x+heldPermits y :=
  List.countP_append

theorem heldPermits_singleton (q : Queued) : heldPermits [q] = if q.permit then 1 else 0 := by
  simp [heldPermits,List.countP_cons]

theorem unanswered_singleton {q : Queued} (h : q.answered = false) : unanswered [q] = [q.serial] := by
  simp [unanswered,h]

namespace Tracked

variable {v : View} {current leaving before after : List Queued} {q : Queued}

theorem room (h : Tracked v current leaving) (hq : q ∈ current ++ v.lane ++ v.held ++ leaving)
    (hp : q.permit = true) : v.slots < lifecycleQueueCapacity+1 := by
  have hpos : 0 < heldPermits (current ++ v.lane ++ v.held ++ leaving) :=
    List.countP_pos_iff.mpr ⟨q,hq,hp⟩
  have := h.permits
  omega

/-- A leaving command is answered and its permit returned. -/
theorem release (h : Tracked v current (q::leaving)) {entry : Entry}
    (hdone : entry.done = some q.serial) (hhistory : History (v.log ++ [entry]) v.admitted) :
    Tracked ({ v with log := v.log ++ [entry] }.returnPermit q.permit) current leaving := by
  have hroom : q.permit = true → v.slots < lifecycleQueueCapacity+1 :=
    fun hp => h.room (by simp) hp
  rw [View.returnPermit_of_room (v := { v with log := v.log ++ [entry] }) hroom]
  have hsub : ∀ e ∈ current ++ v.lane ++ v.held ++ leaving,
      e ∈ current ++ v.lane ++ v.held ++ q::leaving := by
    intro e he
    rcases List.mem_append.mp he with he | he
    · exact List.mem_append_left _ he
    · exact List.mem_append_right _ (List.mem_cons_of_mem _ he)
  have hopen : q.answered = false := h.fresh q (by simp)
  have hentry : doneSerials [entry] = [q.serial] := by
    unfold doneSerials
    rw [List.filterMap_cons_some hdone]
    rfl
  constructor
  · exact fun e he => h.kinds e (hsub e he)
  · intro e he
    apply h.fresh e
    rcases List.mem_append.mp he with he | he
    · exact List.mem_append_left _ he
    · exact List.mem_append_right _ (List.mem_cons_of_mem _ he)
  · exact h.ordered
  · refine List.Perm.trans ?_ h.accounted
    show (unanswered (current ++ v.lane ++ v.held ++ leaving) ++ doneSerials (v.log ++ [entry])).Perm _
    have hcons : q::leaving = [q] ++ leaving := rfl
    rw [doneSerials_append,hentry,hcons,unanswered_append _ leaving,
      ← List.append_assoc (current ++ v.lane ++ v.held),unanswered_append _ leaving,
      unanswered_append _ [q],unanswered_singleton hopen]
    generalize unanswered (current ++ v.lane ++ v.held) = x
    generalize unanswered leaving = y
    generalize doneSerials v.log = z
    have hswap : (y ++ z ++ [q.serial]).Perm ([q.serial] ++ (y ++ z)) := List.perm_append_comm
    have hleft : x ++ y ++ (z ++ [q.serial]) = x ++ (y ++ z ++ [q.serial]) := by simp
    have hright : x ++ [q.serial] ++ y ++ z = x ++ ([q.serial] ++ (y ++ z)) := by simp
    rw [hleft,hright]
    exact hswap.append_left x
  · exact fun e he => h.named e (hsub e he)
  · intro e he
    rw [putBackSerials_append]
    exact List.mem_append_left _ (h.excused e he)
  · exact h.increasing
  · exact h.bounded
  · exact hhistory
  · have hpermits := h.permits
    have hcons : q::leaving = [q] ++ leaving := rfl
    rw [hcons,heldPermits_append,heldPermits_append [q],heldPermits_singleton] at hpermits
    show v.slots+(if q.permit then 1 else 0)+v.waiting+
      heldPermits (current ++ v.lane ++ v.held ++ leaving) = lifecycleQueueCapacity+1
    rw [heldPermits_append]
    omega
  · exact h.sound

theorem leave (h : Tracked v [q] []) : Tracked v [] [q] := by
  refine h.move v.lane v.held ?_ ?_ ?_ h.excused
  · simp only [List.nil_append,List.append_nil,List.singleton_append]
    exact List.perm_append_comm
  · intro e he
    apply h.fresh e
    rw [List.append_nil]
    rcases List.mem_append.mp he with he | he
    · exact List.mem_append_right _ he
    · exact List.mem_append_left _ he
  · exact (List.pairwise_cons.mp h.ordered).2

theorem finish (h : Tracked v [q] []) :
    Tracked ({ v with log := v.log ++ [Entry.carried q.serial true] }.returnPermit q.permit) [] [] :=
  h.leave.release rfl (h.history.carry true (h.not_done (by simp) (h.fresh q (by simp)))
    (h.named q (by simp)) h.dependencies)

theorem reconciled (h : Tracked v current (q::leaving)) :
    Tracked ({ v with log := v.log ++ [Entry.reconciled q.serial] }.returnPermit q.permit) current
      leaving :=
  h.release rfl (h.history.note fun _ _ heq => (nomatch heq))

/-- A permit in the pending queue is given up while its command stays. -/
theorem dropPermit (h : Tracked { v with held := v.held ++ [q] } current leaving) :
    Tracked ({ v with held := v.held ++ [{ q with permit := false }] }.returnPermit q.permit)
      current leaving := by
  have hroom : q.permit = true → v.slots < lifecycleQueueCapacity+1 := by
    intro hp
    have hmem : q ∈ current ++ v.lane ++ (v.held ++ [q]) ++ leaving := by simp
    have hlt := h.room hmem hp
    exact hlt
  rw [View.returnPermit_of_room (v := { v with held := v.held ++ [{ q with permit := false }] })
    hroom]
  have hmem : ∀ e ∈ current ++ v.lane ++ (v.held ++ [{ q with permit := false }]) ++ leaving,
      ∃ e' ∈ current ++ v.lane ++ (v.held ++ [q]) ++ leaving,
        e'.serial = e.serial ∧ e'.command = e.command := by
    intro e he
    simp only [List.mem_append,List.mem_singleton] at he ⊢
    rcases he with (hcl | he | he) | he
    · exact ⟨e,Or.inl (Or.inl hcl),rfl,rfl⟩
    · exact ⟨e,Or.inl (Or.inr (Or.inl he)),rfl,rfl⟩
    · rw [he]
      exact ⟨q,Or.inl (Or.inr (Or.inr rfl)),rfl,rfl⟩
    · exact ⟨e,Or.inr he,rfl,rfl⟩
  have hunanswered : unanswered (v.held ++ [{ q with permit := false }]) =
      unanswered (v.held ++ [q]) := by
    cases hq : q.answered <;> simp [unanswered,hq]
  constructor
  · intro e he
    obtain ⟨e',he',-,hcommand⟩ := hmem e he
    rw [← hcommand]
    exact h.kinds e' he'
  · exact h.fresh
  · exact h.ordered
  · have haccounted := h.accounted
    dsimp only at haccounted ⊢
    rw [unanswered_append,unanswered_append] at haccounted ⊢
    rw [hunanswered]
    exact haccounted
  · intro e he
    obtain ⟨e',he',hserial,hcommand⟩ := hmem e he
    rw [← hserial,← hcommand]
    exact h.named e' he'
  · intro e he
    rcases List.mem_append.mp he with he | he
    · exact h.excused e (List.mem_append_left _ he)
    · rw [List.mem_singleton.mp he]
      exact h.excused q (List.mem_append_right _ (List.mem_singleton_self _))
  · exact h.increasing
  · exact h.bounded
  · exact h.history
  · have hpermits := h.permits
    dsimp only at hpermits ⊢
    simp only [heldPermits_append,heldPermits_singleton] at hpermits ⊢
    simp only [Bool.false_eq_true,if_false]
    omega
  · exact h.sound

/-- The command in hand goes to the end of the pending queue. -/
theorem putBack (h : Tracked v [q] []) :
    Tracked { v with held := v.held ++ [q], log := v.log ++ [.putBack q.serial] } [] [] := by
  have hnoted := h.note (.putBack q.serial) rfl fun _ _ heq => (nomatch heq)
  refine hnoted.move v.lane (v.held ++ [q]) ?_ ?_ ?_ ?_
  · simp only [List.nil_append,List.append_nil,List.singleton_append]
    rw [← List.append_assoc]
    exact List.perm_append_comm
  · intro e he
    apply h.fresh e
    simp only [List.nil_append,List.append_nil] at he
    simp [he]
  · exact (List.pairwise_cons.mp h.ordered).2
  · intro e he
    rcases List.mem_append.mp he with he | he
    · exact hnoted.excused e he
    · rw [List.mem_singleton.mp he]
      show q.serial ∈ putBackSerials (v.log ++ [.putBack q.serial])
      rw [putBackSerials_append]
      exact List.mem_append_right _ (List.mem_singleton_self _)

/-- The command in hand goes to the front of the pending queue. -/
theorem putFront (h : Tracked v [q] []) :
    Tracked { v with held := q::v.held, log := v.log ++ [.putBack q.serial] } [] [] := by
  have hback := h.putBack
  refine hback.move v.lane (q::v.held) ?_ hback.fresh hback.ordered ?_
  · simp only [List.nil_append,List.append_nil]
    exact (List.perm_append_singleton q v.held).symm.append_left v.lane
  · intro e he
    apply hback.excused e
    show e ∈ v.held ++ [q]
    rcases List.mem_cons.mp he with rfl | he
    · exact List.mem_append_right _ (List.mem_singleton_self _)
    · exact List.mem_append_left _ he

theorem park (h : Tracked v [q] []) :
    Tracked ({ v with
      held := v.held ++ [{ q with permit := false }]
      log := v.log ++ [Entry.putBack q.serial] }.returnPermit q.permit) [] [] :=
  dropPermit (v := { v with log := v.log ++ [.putBack q.serial] }) h.putBack

theorem retain (h : Tracked v [] []) (hkind : q.command.isLifecycle = true)
    (hnamed : (q.serial,q.command) ∈ v.admitted) (hanswered : q.answered = true)
    (hpermit : q.permit = false) :
    Tracked { v with held := v.held ++ [q], log := v.log ++ [.putBack q.serial] } [] [] := by
  have hnoted := h.note (.putBack q.serial) rfl fun _ _ heq => (nomatch heq)
  constructor
  · intro e he
    simp only [List.nil_append,List.append_nil,List.mem_append,List.mem_singleton] at he
    rcases he with he | he | rfl
    · exact h.kinds e (by simp [he])
    · exact h.kinds e (by simp [he])
    · exact hkind
  · exact h.fresh
  · exact h.ordered
  · have haccounted := hnoted.accounted
    simp only [List.nil_append,List.append_nil] at haccounted ⊢
    have hsame : unanswered (v.lane ++ (v.held ++ [q])) = unanswered (v.lane ++ v.held) := by
      simp [unanswered,hanswered]
    rw [hsame]
    exact haccounted
  · intro e he
    simp only [List.nil_append,List.append_nil,List.mem_append,List.mem_singleton] at he
    rcases he with he | he | rfl
    · exact h.named e (by simp [he])
    · exact h.named e (by simp [he])
    · exact hnamed
  · intro e he
    rcases List.mem_append.mp he with he | he
    · exact hnoted.excused e he
    · rw [List.mem_singleton.mp he]
      show q.serial ∈ putBackSerials (v.log ++ [.putBack q.serial])
      rw [putBackSerials_append]
      exact List.mem_append_right _ (List.mem_singleton_self _)
  · exact h.increasing
  · exact h.bounded
  · exact hnoted.history
  · have hpermits := h.permits
    dsimp only at hpermits ⊢
    simp only [heldPermits_append,heldPermits_singleton,hpermit] at hpermits ⊢
    simpa using hpermits
  · exact h.sound

/-- A command of the lane that depends on none before it is taken. -/
theorem takeLane (h : Tracked v [] []) (hlane : v.lane = before ++ q::after)
    (hindependent : ∀ earlier ∈ before, lifecycleConflicts earlier.command q.command = false) :
    Tracked { v with lane := before ++ after } [q] [] := by
  have hq : q ∈ v.lane := by simp [hlane]
  have hordered : (before ++ q::after).Pairwise InOrder := by
    have hpairs := h.ordered
    rwa [List.nil_append,hlane] at hpairs
  refine h.move (before ++ after) v.held ?_ ?_ ?_ h.excused
  · rw [hlane]
    simp only [List.nil_append,List.append_nil,List.singleton_append]
    exact (List.perm_middle.symm).append_right v.held
  · intro e he
    apply h.fresh e
    simp only [List.append_nil,List.singleton_append,List.mem_cons,List.mem_append] at he
    rcases he with rfl | he | he
    · simp [hq]
    · simp [hlane,he]
    · simp [hlane,he]
  · obtain ⟨hbefore,hrest,hcross⟩ := List.pairwise_append.mp hordered
    obtain ⟨hhead,hafter⟩ := List.pairwise_cons.mp hrest
    rw [List.singleton_append,List.pairwise_cons]
    constructor
    · intro e he hconflict
      rcases List.mem_append.mp he with he | he
      · have hkind : e.command.isLifecycle = true := h.kinds e (by simp [hlane,he])
        have hkind' : q.command.isLifecycle = true := h.kinds q (by simp [hq])
        rw [lifecycleConflicts_comm hkind' hkind,hindependent e he] at hconflict
        cases hconflict
      · exact hhead e he hconflict
    · exact List.pairwise_append.mpr ⟨hbefore,hafter,fun x hx y hy =>
        hcross x hx y (List.mem_cons_of_mem _ hy)⟩

theorem takeHeld (h : Tracked v [] []) (hheld : v.held = before ++ q::after) (hlane : v.lane = [])
    (hopen : q.answered = false) :
    Tracked { v with held := before ++ after } [q] [] := by
  refine h.move v.lane (before ++ after) ?_ ?_ ?_ ?_
  · rw [hlane,hheld]
    simp only [List.nil_append,List.append_nil,List.singleton_append]
    exact List.perm_middle.symm
  · intro e he
    rw [hlane] at he
    simp only [List.append_nil,List.mem_singleton] at he
    rw [he]
    exact hopen
  · rw [hlane]
    exact List.pairwise_singleton _ _
  · intro e he
    apply h.excused e
    rw [hheld]
    rcases List.mem_append.mp he with he | he
    · exact List.mem_append_left _ he
    · exact List.mem_append_right _ (List.mem_cons_of_mem _ he)

/-- The command in hand is set aside in front of the lane. -/
theorem setAside (h : Tracked v [q] []) : Tracked { v with lane := q::v.lane } [] [] := by
  refine h.move (q::v.lane) v.held ?_ ?_ h.ordered h.excused
  · simp only [List.nil_append,List.append_nil,List.cons_append]
    exact List.Perm.refl _
  · intro e he
    apply h.fresh e
    simpa using he

/-- The command in hand is requeued behind commands that do not depend on it. -/
theorem requeue (h : Tracked v [q] []) (hlane : v.lane = before ++ after)
    (hindependent : ∀ e ∈ before, lifecycleConflicts q.command e.command = false) :
    Tracked { v with lane := before ++ q::after } [] [] := by
  have hordered : (q::(before ++ after)).Pairwise InOrder := by
    have hpairs := h.ordered
    rwa [List.singleton_append,hlane] at hpairs
  obtain ⟨hhead,hrest⟩ := List.pairwise_cons.mp hordered
  obtain ⟨hbefore,hafter,hcross⟩ := List.pairwise_append.mp hrest
  refine h.move (before ++ q::after) v.held ?_ ?_ ?_ h.excused
  · rw [hlane]
    simp only [List.nil_append,List.append_nil,List.singleton_append]
    exact (List.perm_middle).append_right v.held
  · intro e he
    apply h.fresh e
    rw [hlane]
    simp only [List.nil_append,List.append_nil,List.mem_append,List.mem_cons] at he
    rcases he with he | rfl | he
    · simp [he]
    · simp
    · simp [he]
  · rw [List.nil_append,List.pairwise_append]
    refine ⟨hbefore,?_,?_⟩
    · rw [List.pairwise_cons]
      exact ⟨fun e he => hhead e (List.mem_append_right _ he),hafter⟩
    · intro x hx y hy
      rcases List.mem_cons.mp hy with rfl | hy
      · intro hconflict
        have hkind : x.command.isLifecycle = true := h.kinds x (by simp [hlane,hx])
        have hkind' : y.command.isLifecycle = true := h.kinds y (by simp)
        rw [lifecycleConflicts_comm hkind hkind',hindependent x hx] at hconflict
        cases hconflict
      · exact hcross x hx y hy

theorem acquire (h : Tracked v [] []) (hslots : 0 < v.slots) :
    Tracked { v with slots := v.slots-1, waiting := v.waiting+1 } [] [] := by
  refine { h with permits := ?_ }
  have hpermits := h.permits
  dsimp only
  omega

theorem abandon (h : Tracked v [] []) (hwaiting : 0 < v.waiting) :
    Tracked ({ v with waiting := v.waiting-1 }.returnPermit true) [] [] := by
  have hpermits := h.permits
  have hroom : true = true → v.slots < lifecycleQueueCapacity+1 := fun _ => by omega
  rw [View.returnPermit_of_room (v := { v with waiting := v.waiting-1 }) hroom]
  refine { h with permits := ?_ }
  dsimp only
  rw [if_pos rfl]
  omega

/-- A waiting sender's command enters the lane behind everything admitted before. -/
theorem enter (h : Tracked v [] []) (hwaiting : 0 < v.waiting) {command : Command}
    (hkind : command.isLifecycle = true) :
    Tracked
      { v with
        waiting := v.waiting-1
        lane := v.lane ++ [⟨v.accepted,command,true,false⟩]
        accepted := v.accepted+1
        admitted := v.admitted ++ [(v.accepted,command)] } [] [] := by
  have hmem : ∀ e ∈ v.lane ++ [(⟨v.accepted,command,true,false⟩ : Queued)] ++ v.held,
      e ∈ v.lane ++ v.held ∨ e = ⟨v.accepted,command,true,false⟩ := by
    intro e he
    simp only [List.mem_append,List.mem_singleton] at he ⊢
    tauto
  constructor
  · intro e he
    simp only [List.nil_append,List.append_nil] at he
    rcases hmem e he with he | rfl
    · exact h.kinds e (by simpa using he)
    · exact hkind
  · intro e he
    simp only [List.nil_append,List.append_nil,List.mem_append,List.mem_singleton] at he
    rcases he with he | rfl
    · exact h.fresh e (by simp [he])
    · rfl
  · rw [List.nil_append,List.pairwise_append]
    refine ⟨h.ordered,List.pairwise_singleton _ _,?_⟩
    intro x hx y hy _
    rw [List.mem_singleton.mp hy]
    exact h.bounded x.serial (List.mem_map.mpr ⟨_,h.named x (by simp [hx]),rfl⟩)
  · have haccounted := h.accounted
    simp only [List.nil_append,List.append_nil] at haccounted ⊢
    rw [List.map_append,List.map_singleton]
    have hnew : (unanswered (v.lane ++ [(⟨v.accepted,command,true,false⟩ : Queued)] ++ v.held)).Perm
        (unanswered (v.lane ++ v.held) ++ [v.accepted]) := by
      rw [unanswered_append,unanswered_append,unanswered_singleton rfl,unanswered_append,
        List.append_assoc,List.append_assoc]
      exact List.perm_append_comm.append_left _
    refine (hnew.append_right _).trans ?_
    rw [List.append_assoc]
    refine ((List.perm_append_comm).append_left _).trans ?_
    rw [← List.append_assoc]
    exact haccounted.append_right _
  · intro e he
    simp only [List.nil_append,List.append_nil] at he
    rcases hmem e he with he | rfl
    · exact List.mem_append_left _ (h.named e (by simpa using he))
    · exact List.mem_append_right _ (List.mem_singleton_self _)
  · exact h.excused
  · rw [List.map_append,List.map_singleton,List.pairwise_append]
    refine ⟨h.increasing,List.pairwise_singleton _ _,?_⟩
    intro x hx y hy
    rw [List.mem_singleton.mp hy]
    exact h.bounded x hx
  · intro serial hserial
    rw [List.map_append,List.map_singleton] at hserial
    rcases List.mem_append.mp hserial with hserial | hserial
    · have := h.bounded serial hserial
      dsimp only
      omega
    · rw [List.mem_singleton.mp hserial]
      exact Nat.lt_succ_self _
  · exact h.history.enter h.bounded command
  · have hpermits := h.permits
    dsimp only at hpermits ⊢
    simp only [heldPermits_append,heldPermits_singleton] at hpermits ⊢
    simp only [if_true]
    omega
  · exact h.sound

end Tracked

end Persist
end Ctxmux
