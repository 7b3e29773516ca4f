import Ctxmux.ClientControl
import Ctxmux.SessionWalk

/-!
# Stopping a session

A Stop signals the group of the leader, waits until the leader has ended and a census counts
no other member, and takes the leader's status last of all; a Run whose leader ended by
itself is finished in the same way. The processes go on between any two system calls.
-/

namespace Ctxmux
namespace Native

open Kernel
open Census (Member Still Asked Sees)
open Client (StopDisposition)

inductive SessionOperation where
  | stop | finish
deriving DecidableEq,Repr

inductive StopPhase where
  | resting
  | signalling (operation : SessionOperation) (forced : Bool)
  | polling (forced : Bool)
  | counting (operation : SessionOperation) (forced : Bool)
  | walking (operation : SessionOperation) (forced : Bool) (census : Census)
  | pausing (operation : SessionOperation) (forced : Bool)
  | ending (forced : Bool)
  | stopped (disposition : StopDisposition)
  | failed (message : String)
deriving DecidableEq,Repr

namespace StopPhase

/-- No operation is on its way. -/
def idle : StopPhase → Bool
  | .resting | .stopped _ | .failed _ => true
  | _ => false

/-- The operation has seen that the leader ended. -/
def seen : StopPhase → Bool
  | .counting _ _ | .walking _ _ _ | .ending _ | .signalling .finish _ | .pausing .finish _ => true
  | _ => false

/-- Whether the operation has sent the signal that cannot be refused. -/
def forced? : StopPhase → Option Bool
  | .signalling _ _ => some false
  | .polling forced | .counting _ forced | .walking _ forced _ | .pausing _ forced
    | .ending forced => some forced
  | .stopped disposition => some (disposition = .forced)
  | _ => none

/-- The census that is under way. -/
def census? : StopPhase → Option Census
  | .walking _ _ census => some census
  | _ => none

end StopPhase

/-- The pid that a step would give away. -/
def KernelEvent.child : KernelEvent → Option Pid
  | .fork _ child | .cloneParent _ child => some child
  | _ => none

/-- A session and the operation on it. The last two fields record whether the operation has
forced, and the statuses that the daemon has taken. -/
structure StopState where
  kernel : Kernel
  leaderReaped : Bool
  phase : StopPhase
  killed : Bool
  taken : List Taken

/-- The steps of the processes and the turns of the daemon; `census` is one call of a
census. -/
inductive StopEvent where
  | kernel (e : KernelEvent)
  | begin (operation : SessionOperation) (error : Option String)
  | signal (error : Option String)
  | observe (error : Option String)
  | census
  | censusFails (error : String)
  | pause (expired : Bool)
  | reap (error : Option String)

namespace StopState

def start (k : Kernel) : StopState := ⟨k,false,.resting,false,[]⟩

def nativeSession (leader : Pid) (text : String) : String :=
  "native session " ++ toString leader ++ " " ++ text

/-- `leader_is_terminal`, which leaves the status where it is. -/
def leaderIsTerminal (k : Kernel) (leader : Pid) : Bool := (k.find leader).any (·.zombie)

def fail (s : StopState) (message : String) : StopState := { s with phase := .failed message }

/-- `require_waitable_anchor`. -/
def anchored (leader : Pid) (s : StopState) (error : Option String) (next : StopState) :
    StopState :=
  if s.leaderReaped then
    s.fail (nativeSession leader "lost its waitable leader incarnation anchor")
  else match error with
    | some message => s.fail message
    | none => next

/-- A process is gone once its status is taken. -/
def taking (s : StopState) : Option Taken → StopState
  | some t => { s with kernel := s.kernel.remove t.process.pid, taken := s.taken ++ [t] }
  | none => s

/-- What `stop` and `finish_after_direct_exit` make of a census. -/
def afterCensus (operation : SessionOperation) (forced : Bool) (members : List Pid) : StopPhase :=
  if members = [] then .ending forced
  else if operation = .finish ∧ forced = false then .signalling .finish true
  else .pausing operation forced

def call (daemon leader : Pid) (s : StopState) (operation : SessionOperation) (forced : Bool)
    (c : Census) : StopState :=
  match c with
  | .counted members => { s with phase := afterCensus operation forced members }
  | c => { s.taking (c.takes s.kernel daemon) with
      phase := .walking operation forced (c.next s.kernel leader) }

def step (daemon leader : Pid) (s : StopState) (e : StopEvent) : StopState :=
  match e with
  | .kernel e => { s with kernel := s.kernel.step daemon e }
  | .begin operation error =>
    if s.phase.idle then
      s.anchored leader error <| match operation with
        | .stop => { s with phase := .signalling .stop false, killed := false }
        | .finish =>
          if leaderIsTerminal s.kernel leader then
            { s with phase := .counting .finish false, killed := false }
          else s.fail (nativeSession leader "leader was not terminal at natural-exit cleanup")
    else s
  | .signal error =>
    match s.phase with
    | .signalling operation forced =>
      s.anchored leader error { s with
        killed := forced
        phase := match operation with
          | .stop => .polling forced
          | .finish => .pausing .finish forced }
    | _ => s
  | .observe error =>
    match s.phase with
    | .polling forced =>
      s.anchored leader error { s with
        phase := if leaderIsTerminal s.kernel leader then .counting .stop forced
          else .pausing .stop forced }
    | _ => s
  | .census =>
    match s.phase with
    | .counting operation forced =>
      s.anchored leader none { s with
        phase := .walking operation forced (.start s.kernel daemon leader) }
    | .walking operation forced c => s.call daemon leader operation forced c
    | _ => s
  | .censusFails error =>
    match s.phase with
    | .walking _ _ c => if c.fallible then s.fail error else s
    | _ => s
  | .pause expired =>
    match s.phase with
    | .pausing .stop forced =>
      if expired then
        if forced then
          s.fail (nativeSession leader "remained live after graceful and forced Stop phases")
        else { s with phase := .signalling .stop true }
      else { s with phase := .polling forced }
    | .pausing .finish forced =>
      if expired then s.fail (nativeSession leader "retained descendants after direct-child exit")
      else { s with phase := .counting .finish forced }
    | _ => s
  | .reap error =>
    match s.phase with
    | .ending forced =>
      s.anchored leader error <|
        if leaderIsTerminal s.kernel leader then
          { s.taking ((s.kernel.find leader).map fun q => ⟨q,q⟩) with
            leaderReaped := true
            phase := .stopped (if forced then .forced else .graceful) }
        else
          s.fail (nativeSession leader "leader cannot be reaped before terminal observation")
    | _ => s

variable {daemon leader : Pid} {k : Kernel} {s : StopState}

theorem leaderIsTerminal_iff (hk : k.pids.Nodup) : leaderIsTerminal k leader = true ↔
    ∃ q ∈ k, q.pid = leader ∧ q.zombie = true := by
  simp only [leaderIsTerminal,Option.any_eq_true]
  constructor
  · rintro ⟨q,hfind,hzombie⟩
    obtain ⟨hq,hpid⟩ := mem_of_find hfind
    exact ⟨q,hq,hpid,hzombie⟩
  · rintro ⟨q,hq,rfl,hzombie⟩
    exact ⟨q,find_of_mem hk hq,hzombie⟩

/-- A child of the daemon that ended stays until the daemon takes its status. -/
theorem zombie_step (hk : k.pids.Nodup) {q : Process} (hq : q ∈ k) (hzombie : q.zombie = true)
    (hparent : q.parent = daemon) (e : KernelEvent) :
    ∃ r ∈ k.step daemon e, r.pid = q.pid ∧ r.zombie = true := by
  have hmap : ∀ f : Process → Process, (f q).pid = q.pid → (f q).zombie = true →
      ∃ r ∈ k.map f, r.pid = q.pid ∧ r.zombie = true := fun f hpid hended =>
    ⟨f q,List.mem_map_of_mem hq,hpid,hended⟩
  cases e with
  | fork parent child =>
    dsimp only [Kernel.step]
    split
    · split
      · exact ⟨q,hq,rfl,hzombie⟩
      · exact ⟨q,subset_spawn hq,rfl,hzombie⟩
    · exact ⟨q,hq,rfl,hzombie⟩
  | cloneParent caller child =>
    dsimp only [Kernel.step]
    split
    · split
      · exact ⟨q,hq,rfl,hzombie⟩
      · exact ⟨q,subset_spawn hq,rfl,hzombie⟩
    · exact ⟨q,hq,rfl,hzombie⟩
  | setsid pid =>
    dsimp only [Kernel.step]
    split
    · split
      · exact ⟨q,hq,rfl,hzombie⟩
      · apply hmap <;> split <;> first | rfl | exact hzombie
    · exact ⟨q,hq,rfl,hzombie⟩
  | setSubreaper pid on =>
    dsimp only [Kernel.step]
    split
    · exact ⟨q,hq,rfl,hzombie⟩
    · apply hmap <;> split <;> first | rfl | exact hzombie
  | exit pid =>
    dsimp only [Kernel.step]
    split
    · split
      · exact ⟨q,hq,rfl,hzombie⟩
      · exact hmap _ rfl (by simp [hzombie])
    · exact ⟨q,hq,rfl,hzombie⟩
  | wait pid =>
    dsimp only [Kernel.step]
    split
    · rename_i p hfind
      obtain ⟨hp,rfl⟩ := mem_of_find hfind
      split
      · rename_i hgone
        have hne : q.pid ≠ p.pid := fun heq =>
          hgone.2 (eq_of_pid hk hq hp heq ▸ hparent)
        exact ⟨q,List.mem_filter.mpr ⟨hq,by simpa using hne⟩,rfl,hzombie⟩
      · exact ⟨q,hq,rfl,hzombie⟩
    · exact ⟨q,hq,rfl,hzombie⟩

theorem terminal_step (h : Held daemon leader k) (hterminal : leaderIsTerminal k leader = true)
    (e : KernelEvent) : leaderIsTerminal (k.step daemon e) leader = true := by
  obtain ⟨q,hq,hpid,-,hparent⟩ := h.leads
  obtain ⟨r,hr,hrpid,hzombie⟩ := (leaderIsTerminal_iff h.nodup).mp hterminal
  obtain rfl := eq_of_pid h.nodup hr hq (hrpid.trans hpid.symm)
  obtain ⟨z,hz,hzpid,hended⟩ := zombie_step h.nodup hq hzombie hparent e
  exact (leaderIsTerminal_iff (h.step e).nodup).mpr ⟨z,hz,hzpid.trans hpid,hended⟩

/-- A status was taken of a child of the daemon that had ended, and that was in the session
when it was last looked at. -/
def Own (daemon leader : Pid) (t : Taken) : Prop :=
  t.seen.pid = t.process.pid ∧ t.seen.session = leader ∧ t.process.zombie = true ∧
    t.process.parent = daemon

def leaders (leader : Pid) (taken : List Taken) : ℕ := taken.countP (·.process.pid = leader)

theorem leaders_concat (xs : List Taken) (t : Taken) :
    leaders leader (xs ++ [t]) = leaders leader xs + if t.process.pid = leader then 1 else 0 := by
  simp [leaders,List.countP_append,List.countP_cons]

structure Inv (daemon leader : Pid) (s : StopState) : Prop where
  held : s.leaderReaped = false → Held daemon leader s.kernel
  busy : s.phase.idle = false → s.leaderReaped = false
  ended : s.phase.seen = true → leaderIsTerminal s.kernel leader = true
  forced : ∀ f, s.phase.forced? = some f → s.killed = f
  asked : ∀ c, s.phase.census? = some c → Asked leader c
  own : ∀ t ∈ s.taken, Own daemon leader t
  once : leaders leader s.taken = if s.leaderReaped then 1 else 0
  stopped : ∀ d, s.phase = .stopped d → s.leaderReaped = true

theorem Inv.start (h : Spawned daemon leader k) : Inv daemon leader (start k) where
  held _ := h.held
  busy _ := rfl
  ended he := (by cases he)
  forced f hf := (by cases hf)
  asked c hc := (by cases hc)
  own q hq := absurd hq List.not_mem_nil
  once := rfl
  stopped d hd := (by cases hd)

section

variable (h : Inv daemon leader s)
include h

theorem Inv.fail (message : String) :
    Inv daemon leader (s.fail message) :=
  { h with
    busy := fun hi => (by cases hi)
    ended := fun he => (by cases he)
    forced := fun f hf => (by cases hf)
    asked := fun c hc => (by cases hc)
    stopped := fun d hd => (by cases hd) }

theorem Inv.anchored (error : Option String) {next : StopState}
    (hnext : s.leaderReaped = false → Inv daemon leader next) :
    Inv daemon leader (s.anchored leader error next) := by
  unfold StopState.anchored
  split
  · exact h.fail _
  · rename_i hreaped
    split
    · exact h.fail _
    · exact hnext (by simpa using hreaped)

/-- The operation goes on to a phase that promises no more than is known. -/
theorem Inv.proceed (hheld : s.leaderReaped = false) {phase : StopPhase} {killed : Bool}
    (hseen : phase.seen = true → leaderIsTerminal s.kernel leader = true)
    (hforced : ∀ f, phase.forced? = some f → killed = f)
    (hasked : ∀ c, phase.census? = some c → Asked leader c) (hgoes : ∀ d, phase ≠ .stopped d) :
    Inv daemon leader { s with phase := phase, killed := killed } :=
  { h with
    busy := fun _ => hheld
    ended := hseen
    forced := hforced
    asked := hasked
    stopped := fun d hd => absurd hd (hgoes d) }

theorem Inv.kernel (e : KernelEvent) :
    Inv daemon leader { s with kernel := s.kernel.step daemon e } :=
  { h with
    held := fun hr => (h.held hr).step e
    ended := fun he => by
      have hbusy : s.phase.idle = false := by
        cases hphase : s.phase <;> simp [StopPhase.seen,StopPhase.idle,hphase] at he ⊢
      exact terminal_step (h.held (h.busy hbusy)) (h.ended he) e }

theorem Inv.begin (operation : SessionOperation) (error : Option String) :
    Inv daemon leader (s.step daemon leader (.begin operation error)) := by
  dsimp only [StopState.step]
  split
  · apply h.anchored
    intro hheld
    cases operation with
    | stop =>
      exact h.proceed hheld (fun he => (by cases he)) (fun f hf => (by cases hf; rfl))
        (fun c hc => (by cases hc)) (fun d hd => (by cases hd))
    | finish =>
      dsimp only
      split
      · rename_i hterminal
        exact h.proceed hheld (fun _ => hterminal) (fun f hf => (by cases hf; rfl))
          (fun c hc => (by cases hc)) (fun d hd => (by cases hd))
      · exact h.fail _
  · exact h

theorem Inv.signal (error : Option String) :
    Inv daemon leader (s.step daemon leader (.signal error)) := by
  dsimp only [StopState.step]
  split
  · rename_i operation forced hphase
    apply h.anchored
    intro hheld
    cases operation with
    | stop =>
      exact h.proceed hheld (fun he => (by cases he)) (fun f hf => (by cases hf; rfl))
        (fun c hc => (by cases hc)) (fun d hd => (by cases hd))
    | finish =>
      exact h.proceed hheld (fun _ => h.ended (by rw [hphase]; rfl))
        (fun f hf => (by cases hf; rfl)) (fun c hc => (by cases hc)) (fun d hd => (by cases hd))
  · exact h

theorem Inv.observe (error : Option String) :
    Inv daemon leader (s.step daemon leader (.observe error)) := by
  dsimp only [StopState.step]
  split
  · rename_i forced hphase
    apply h.anchored
    intro hheld
    have hkilled : s.killed = forced := h.forced forced (by rw [hphase]; rfl)
    split
    · rename_i hterminal
      exact h.proceed hheld (fun _ => hterminal) (fun f hf => (by cases hf; exact hkilled))
        (fun c hc => (by cases hc)) (fun d hd => (by cases hd))
    · exact h.proceed hheld (fun he => (by cases he)) (fun f hf => (by cases hf; exact hkilled))
        (fun c hc => (by cases hc)) (fun d hd => (by cases hd))
  · exact h

/-- The status of an orphan that was asked for is not the leader's. -/
theorem Inv.taking (hheld : s.leaderReaped = false) {c : Census}
    (hcensus : s.phase.census? = some c) {t : Taken} (ht : c.takes s.kernel daemon = some t) :
    Inv daemon leader (s.taking (some t)) := by
  obtain ⟨candidates,rest,rfl,hfind,hzombie,hparent⟩ := Census.takes_iff.mp ht
  obtain ⟨hsession,hne⟩ := h.asked _ hcensus
  obtain ⟨hmem,hpid⟩ := mem_of_find hfind
  have hk := h.held hheld
  have hother : t.process.pid ≠ leader := fun heq => hne (hpid.symm.trans heq)
  refine
    { h with
      held := fun _ => ?_
      ended := fun he => ?_
      own := fun u hu => ?_
      once := ?_ }
  · apply hk.filter
    · intro q _ hleader _
      simpa [hleader] using hother.symm
    · intro q hq hlive
      have hdiffers : q.pid ≠ t.process.pid := fun heq => by
        rw [eq_of_pid hk.nodup hq hmem heq,hzombie] at hlive
        cases hlive
      simpa using hdiffers
  · obtain ⟨z,hz,hzpid,hended⟩ := (leaderIsTerminal_iff hk.nodup).mp (h.ended he)
    have hstays : z ∈ s.kernel.remove t.process.pid :=
      List.mem_filter.mpr ⟨hz,by simpa [hzpid] using hother.symm⟩
    have hnodup : (s.kernel.remove t.process.pid).pids.Nodup :=
      hk.nodup.sublist (List.filter_sublist.map _)
    exact (leaderIsTerminal_iff hnodup).mpr ⟨z,hstays,hzpid,hended⟩
  · rcases List.mem_append.mp hu with hold | hnew
    · exact h.own u hold
    · rw [List.mem_singleton.mp hnew]
      exact ⟨hpid.symm,hsession,hzombie,hparent⟩
  · show leaders leader (s.taken ++ [t]) = _
    rw [leaders_concat,if_neg hother,h.once]
    rfl

theorem Inv.call {operation : SessionOperation} {forced : Bool} {c : Census}
    (hphase : s.phase = .walking operation forced c) :
    Inv daemon leader (s.call daemon leader operation forced c) := by
  have hheld : s.leaderReaped = false := h.busy (by rw [hphase]; rfl)
  have hkilled : s.killed = forced := h.forced forced (by rw [hphase]; rfl)
  have hended := h.ended (by rw [hphase]; rfl)
  have hwalks : ∀ t : StopState, Inv daemon leader t → t.leaderReaped = false →
      leaderIsTerminal t.kernel leader = true → t.killed = forced →
      Inv daemon leader { t with phase := .walking operation forced (c.next s.kernel leader) } :=
    fun t ht hr hterminal hk => ht.proceed hr (fun _ => hterminal)
      (fun f hf => (by cases hf; exact hk))
      (fun c' hc => (by cases hc; exact Census.asked_next s.kernel c)) (fun d hd => (by cases hd))
  have hcalls : Inv daemon leader { s.taking (c.takes s.kernel daemon) with
      phase := .walking operation forced (c.next s.kernel leader) } := by
    cases htakes : c.takes s.kernel daemon with
    | none => exact hwalks s h hheld hended hkilled
    | some t =>
      have htaken := h.taking hheld (by rw [hphase]; rfl) htakes
      exact hwalks _ htaken hheld (htaken.ended (by
        show s.phase.seen = true
        rw [hphase]
        rfl)) hkilled
  cases c with
  | counted members =>
    refine h.proceed hheld (fun _ => hended) ?_ ?_ ?_
    · intro f hf
      unfold afterCensus at hf
      split at hf
      · cases hf
        exact hkilled
      · split at hf
        · rename_i hfirst
          cases hf
          rw [hkilled,hfirst.2]
        · cases hf
          exact hkilled
    · intro c hc
      unfold afterCensus at hc
      split at hc
      · cases hc
      · split at hc <;> cases hc
    · intro d
      unfold afterCensus
      split
      · exact fun heq => (by cases heq)
      · split <;> exact fun heq => (by cases heq)
  | _ => exact hcalls

theorem Inv.census :
    Inv daemon leader (s.step daemon leader .census) := by
  dsimp only [StopState.step]
  split
  · rename_i operation forced hphase
    apply h.anchored
    intro hheld
    have hkilled : s.killed = forced := h.forced forced (by rw [hphase]; rfl)
    exact h.proceed hheld (fun _ => h.ended (by rw [hphase]; rfl))
      (fun f hf => (by cases hf; exact hkilled))
      (fun c hc => (by cases hc; exact Census.asked_start)) (fun d hd => (by cases hd))
  · rename_i operation forced c hphase
    exact h.call hphase
  · exact h

theorem Inv.censusFails (error : String) :
    Inv daemon leader (s.step daemon leader (.censusFails error)) := by
  dsimp only [StopState.step]
  split
  · split
    · exact h.fail _
    · exact h
  · exact h

theorem Inv.pause (expired : Bool) :
    Inv daemon leader (s.step daemon leader (.pause expired)) := by
  dsimp only [StopState.step]
  split
  · rename_i forced hphase
    have hheld : s.leaderReaped = false := h.busy (by rw [hphase]; rfl)
    have hkilled : s.killed = forced := h.forced forced (by rw [hphase]; rfl)
    split
    · split
      · exact h.fail _
      · rename_i hgraceful
        have hfirst : s.killed = false := by simpa [hkilled] using hgraceful
        exact h.proceed hheld (fun he => (by cases he)) (fun f hf => (by cases hf; exact hfirst))
          (fun c hc => (by cases hc)) (fun d hd => (by cases hd))
    · exact h.proceed hheld (fun he => (by cases he)) (fun f hf => (by cases hf; exact hkilled))
        (fun c hc => (by cases hc)) (fun d hd => (by cases hd))
  · rename_i forced hphase
    have hheld : s.leaderReaped = false := h.busy (by rw [hphase]; rfl)
    have hkilled : s.killed = forced := h.forced forced (by rw [hphase]; rfl)
    split
    · exact h.fail _
    · exact h.proceed hheld (fun _ => h.ended (by rw [hphase]; rfl))
        (fun f hf => (by cases hf; exact hkilled)) (fun c hc => (by cases hc))
        (fun d hd => (by cases hd))
  · exact h

/-- The leader's status is the last that is taken, and it is taken once. -/
theorem Inv.reap (error : Option String) :
    Inv daemon leader (s.step daemon leader (.reap error)) := by
  dsimp only [StopState.step]
  split
  · rename_i forced hphase
    apply h.anchored
    intro hheld
    have hkilled : s.killed = forced := h.forced forced (by rw [hphase]; rfl)
    split
    · rename_i hterminal
      have hk := h.held hheld
      obtain ⟨l,hl,hlpid,hsession,hparent⟩ := hk.leads
      obtain ⟨z,hz,hzpid,hzombie⟩ := (leaderIsTerminal_iff hk.nodup).mp hterminal
      obtain rfl := eq_of_pid hk.nodup hz hl (hzpid.trans hlpid.symm)
      have hfind : s.kernel.find leader = some z := hlpid ▸ find_of_mem hk.nodup hl
      rw [hfind]
      exact
        { held := fun hr => (by cases hr)
          busy := fun hi => (by cases hi)
          ended := fun he => (by cases he)
          forced := fun f hf => by
            cases hf
            cases forced <;> simp [StopState.taking,hkilled]
          asked := fun c hc => (by cases hc)
          own := fun t ht => by
            rcases List.mem_append.mp ht with hold | hnew
            · exact h.own t hold
            · rw [List.mem_singleton.mp hnew]
              exact ⟨rfl,hsession,hzombie,hparent⟩
          once := by
            show leaders leader (s.taken ++ [⟨z,z⟩]) = _
            rw [leaders_concat,if_pos hlpid,h.once,hheld]
            rfl
          stopped := fun d hd => rfl }
    · exact h.fail _
  · exact h

theorem Inv.step (e : StopEvent) :
    Inv daemon leader (s.step daemon leader e) := by
  cases e with
  | kernel e => exact h.kernel e
  | begin operation error => exact h.begin operation error
  | signal error => exact h.signal error
  | observe error => exact h.observe error
  | census => exact h.census
  | censusFails error => exact h.censusFails error
  | pause expired => exact h.pause expired
  | reap error => exact h.reap error

end

/-- Where a process comes from: it was there, or a live process has just made it. -/
theorem mem_step {e : KernelEvent} {r : Process} (hr : r ∈ k.step daemon e) :
    (∃ q ∈ k, q.pid = r.pid ∧
      (r.session = q.session ∨ r.session = r.pid)) ∨
    ∃ q ∈ k, q.zombie = false ∧ r.session = q.session ∧ e.child = some r.pid := by
  have hsame : r ∈ k → ∃ q ∈ k, q.pid = r.pid ∧ (r.session = q.session ∨ r.session = r.pid) :=
    fun hmem => ⟨r,hmem,rfl,.inl rfl⟩
  cases e with
  | fork parent child =>
    dsimp only [Kernel.step] at hr
    split at hr
    · rename_i q hfind
      split at hr
      · exact .inl (hsame hr)
      · rename_i hlive
        rcases mem_spawn hr with hmem | ⟨rfl,-⟩
        · exact .inl (hsame hmem)
        · exact .inr ⟨q,(mem_of_find hfind).1,by simpa using hlive,rfl,rfl⟩
    · exact .inl (hsame hr)
  | cloneParent caller child =>
    dsimp only [Kernel.step] at hr
    split at hr
    · rename_i q hfind
      split at hr
      · exact .inl (hsame hr)
      · rename_i hlive
        rcases mem_spawn hr with hmem | ⟨rfl,-⟩
        · exact .inl (hsame hmem)
        · exact .inr ⟨q,(mem_of_find hfind).1,by simpa using hlive,rfl,rfl⟩
    · exact .inl (hsame hr)
  | setsid pid =>
    left
    dsimp only [Kernel.step] at hr
    split at hr
    · split at hr
      · exact hsame hr
      · obtain ⟨q,hq,rfl⟩ := List.mem_map.mp hr
        by_cases hpid : q.pid = pid
        · exact ⟨q,hq,by simp [hpid],.inr (by simp [hpid])⟩
        · exact ⟨q,hq,by simp [hpid],.inl (by simp [hpid])⟩
    · exact hsame hr
  | setSubreaper pid on =>
    left
    dsimp only [Kernel.step] at hr
    split at hr
    · exact hsame hr
    · obtain ⟨q,hq,rfl⟩ := List.mem_map.mp hr
      by_cases hpid : q.pid = pid
      · exact ⟨q,hq,by simp [hpid],.inl (by simp [hpid])⟩
      · exact ⟨q,hq,by simp [hpid],.inl (by simp [hpid])⟩
  | exit pid =>
    left
    dsimp only [Kernel.step] at hr
    split at hr
    · split at hr
      · exact hsame hr
      · obtain ⟨q,hq,rfl⟩ := List.mem_map.mp hr
        exact ⟨q,hq,rfl,.inl rfl⟩
    · exact hsame hr
  | wait pid =>
    left
    dsimp only [Kernel.step] at hr
    split at hr
    · split at hr
      · exact hsame (List.mem_filter.mp hr).1
      · exact hsame hr
    · exact hsame hr

/-- Nobody deserts, no member is born or moved while a census is under way, and the pid of a
leader that is gone is not given away again. -/
def Quiet (daemon leader : Pid) (s : StopState) : StopEvent → Prop
  | .kernel e => Stays leader s.kernel e ∧
      (s.phase.census?.isSome = true → Still leader s.kernel (s.kernel.step daemon e)) ∧
      (s.leaderReaped = true → e.child ≠ some leader)
  | _ => True

instance (daemon leader : Pid) (s : StopState) : (e : StopEvent) →
    Decidable (Quiet daemon leader s e)
  | .kernel e => inferInstanceAs (Decidable (Stays leader s.kernel e ∧
      (s.phase.census?.isSome = true → Still leader s.kernel (s.kernel.step daemon e)) ∧
      (s.leaderReaped = true → e.child ≠ some leader)))
  | .begin _ _ | .signal _ | .observe _ | .census | .censusFails _ | .pause _ | .reap _ =>
    inferInstanceAs (Decidable True)

/-- In such a session: a census has seen everybody behind it, an empty count leaves the
leader alone, and without the leader nobody is left. -/
structure Clean (daemon leader : Pid) (s : StopState) : Prop where
  rooted : s.leaderReaped = false → Rooted daemon leader s.kernel
  sees : ∀ c, s.phase.census? = some c → Sees daemon leader s.kernel c
  alone : ∀ f, s.phase = .ending f → ∀ q ∈ s.kernel, ¬Member leader q
  gone : s.leaderReaped = true → ∀ q ∈ s.kernel, q.session ≠ leader ∧ q.pid ≠ leader

theorem Clean.phase (h : Clean daemon leader s) {phase : StopPhase} {killed : Bool}
    (hcensus : phase.census? = none) (hphase : ∀ f, phase ≠ .ending f) :
    Clean daemon leader { s with phase := phase, killed := killed } :=
  { h with
    sees := fun c hc => (by rw [show phase.census? = some c from hc] at hcensus; cases hcensus)
    alone := fun f hf => absurd hf (hphase f) }

theorem Clean.fail (h : Clean daemon leader s) (message : String) :
    Clean daemon leader (s.fail message) := h.phase rfl fun f hf => (by cases hf)

theorem Clean.anchored (h : Clean daemon leader s) (error : Option String) {next : StopState}
    (hnext : s.leaderReaped = false → Clean daemon leader next) :
    Clean daemon leader (s.anchored leader error next) := by
  unfold StopState.anchored
  split
  · exact h.fail _
  · rename_i hreaped
    split
    · exact h.fail _
    · exact hnext (by simpa using hreaped)

section

variable (hinv : Inv daemon leader s) (h : Clean daemon leader s)
include hinv h

theorem Clean.kernel {e : KernelEvent} (hquiet : Quiet daemon leader s (.kernel e)) :
    Clean daemon leader { s with kernel := s.kernel.step daemon e } where
  rooted hr := (h.rooted hr).step (hinv.held hr) e hquiet.1
  sees c hc := (h.sees c hc).still (hquiet.2.1 (Option.isSome_iff_exists.mpr ⟨c,hc⟩))
  alone f hf r hr hmember := by
    have hf' : s.phase = .ending f := hf
    have hheld := hinv.held (hinv.busy (by rw [hf']; rfl))
    have hterminal := hinv.ended (by rw [hf']; rfl)
    obtain ⟨z,hz,hzpid,hzombie⟩ := (leaderIsTerminal_iff hheld.nodup).mp hterminal
    rcases mem_step hr with ⟨q,hq,hpid,hsame | hown⟩ | ⟨q,hq,hlive,hsame,-⟩
    · exact h.alone f hf q hq ⟨hsame.symm.trans hmember.1,hpid ▸ hmember.2⟩
    · exact hmember.2 (hown.symm.trans hmember.1)
    · -- whoever makes a member is one, and only the leader is left, which has ended
      have hqpid : q.pid = leader := by
        by_contra hne
        exact h.alone f hf q hq ⟨hsame.symm.trans hmember.1,hne⟩
      rw [eq_of_pid hheld.nodup hq hz (hqpid.trans hzpid.symm),hzombie] at hlive
      cases hlive
  gone hr r hmem := by
    rcases mem_step hmem with ⟨q,hq,hpid,hsame | hown⟩ | ⟨q,hq,-,hsame,hchild⟩
    · obtain ⟨hsession,hne⟩ := h.gone hr q hq
      exact ⟨hsame ▸ hsession,hpid ▸ hne⟩
    · have hne := (h.gone hr q hq).2
      exact ⟨fun heq => hne (hpid.trans (hown.symm.trans heq)),hpid ▸ hne⟩
    · refine ⟨hsame ▸ (h.gone hr q hq).1,fun heq => ?_⟩
      exact hquiet.2.2 hr (by rw [hchild,heq])

/-- A process whose status is taken was no parent of a member. -/
theorem Clean.taking (hheld : s.leaderReaped = false) {c : Census} {t : Taken}
    (ht : c.takes s.kernel daemon = some t) {phase : StopPhase}
    (hsees : ∀ c', phase.census? = some c' → Sees daemon leader s.kernel c')
    (hphase : ∀ f, phase ≠ .ending f) :
    Clean daemon leader { s.taking (some t) with phase := phase } where
  rooted _ := by
    obtain ⟨-,-,-,hfind,hzombie,-⟩ := Census.takes_iff.mp ht
    exact (h.rooted hheld).remove (hinv.held hheld).nodup (mem_of_find hfind).1 hzombie
  sees c' hc := (hsees c' hc).still fun r hr hmember =>
    ⟨r,(List.mem_filter.mp hr).1,hmember,rfl,rfl⟩
  alone f hf := absurd hf (hphase f)
  gone hr := absurd (hr.symm.trans hheld) (by decide)

theorem Clean.call {operation : SessionOperation} {forced : Bool} {c : Census}
    (hphase : s.phase = .walking operation forced c) :
    Clean daemon leader (s.call daemon leader operation forced c) := by
  have hheld : s.leaderReaped = false := hinv.busy (by rw [hphase]; rfl)
  have hsees := h.sees c (by rw [hphase]; rfl)
  have hnext : ∀ c', (StopPhase.walking operation forced (c.next s.kernel leader)).census? =
      some c' → Sees daemon leader s.kernel c' := fun c' hc => by
    cases hc
    exact hsees.next (hinv.held hheld).nodup (h.rooted hheld)
  have hcalls : Clean daemon leader { s.taking (c.takes s.kernel daemon) with
      phase := .walking operation forced (c.next s.kernel leader) } := by
    cases htakes : c.takes s.kernel daemon with
    | none => exact { h with sees := hnext, alone := fun f hf => (by cases hf) }
    | some t => exact h.taking hinv hheld htakes hnext fun f hf => (by cases hf)
  cases c with
  | counted members =>
    refine { h with sees := fun c hc => ?_, alone := fun f hf q hq hmember => ?_ }
    · have hc : (afterCensus operation forced members).census? = some c := hc
      unfold afterCensus at hc
      split at hc
      · cases hc
      · split at hc <;> cases hc
    · have hf : afterCensus operation forced members = .ending f := hf
      unfold afterCensus at hf
      split at hf
      · rename_i hnone
        have hin : q.pid ∈ members := hsees q hq hmember
        rw [hnone] at hin
        exact List.not_mem_nil hin
      · split at hf <;> cases hf
  | _ => exact hcalls

theorem Clean.step (e : StopEvent) (hquiet : Quiet daemon leader s e) :
    Clean daemon leader (s.step daemon leader e) := by
  cases e with
  | kernel e => exact h.kernel hinv hquiet
  | begin operation error =>
    dsimp only [StopState.step]
    split
    · apply h.anchored
      intro hheld
      cases operation with
      | stop => exact h.phase rfl fun f hf => (by cases hf)
      | finish =>
        dsimp only
        split
        · exact h.phase rfl fun f hf => (by cases hf)
        · exact h.fail _
    · exact h
  | signal error =>
    dsimp only [StopState.step]
    split
    · rename_i operation forced hphase
      apply h.anchored
      intro hheld
      cases operation <;> exact h.phase rfl fun f hf => (by cases hf)
    · exact h
  | observe error =>
    dsimp only [StopState.step]
    split
    · apply h.anchored
      intro hheld
      split <;> exact h.phase rfl fun f hf => (by cases hf)
    · exact h
  | census =>
    dsimp only [StopState.step]
    split
    · apply h.anchored
      intro hheld
      exact
        { h with
          sees := fun c hc => (by cases hc; exact Census.sees_start (hinv.held hheld))
          alone := fun f hf => (by cases hf) }
    · rename_i operation forced c hphase
      exact h.call hinv hphase
    · exact h
  | censusFails error =>
    dsimp only [StopState.step]
    split
    · split
      · exact h.fail _
      · exact h
    · exact h
  | pause expired =>
    dsimp only [StopState.step]
    split
    · split
      · split
        · exact h.fail _
        · exact h.phase rfl fun f hf => (by cases hf)
      · exact h.phase rfl fun f hf => (by cases hf)
    · split
      · exact h.fail _
      · exact h.phase rfl fun f hf => (by cases hf)
    · exact h
  | reap error =>
    dsimp only [StopState.step]
    split
    · rename_i forced hphase
      apply h.anchored
      intro hheld
      split
      · rename_i hterminal
        have hk := hinv.held hheld
        obtain ⟨z,hz,hzpid,-⟩ := (leaderIsTerminal_iff hk.nodup).mp hterminal
        rw [← hzpid,find_of_mem hk.nodup hz]
        exact
          { rooted := fun hr => (by cases hr)
            sees := fun c hc => (by cases hc)
            alone := fun f hf => (by cases hf)
            gone := fun _ q hq => by
              obtain ⟨hmem,hne⟩ := List.mem_filter.mp hq
              have hne' : q.pid ≠ z.pid := by simpa using hne
              have hother := h.alone forced hphase q hmem
              rw [hzpid] at hne' ⊢
              exact ⟨fun hsession => hother ⟨hsession,hne'⟩,hne'⟩ }
      · exact h.fail _
    · exact h

end

end StopState

open StopState

/-- Whatever the processes of a session do between the system calls of a Stop or of the end
of its leader: until the leader's status is taken the leader keeps its pid and its session
as a child of the daemon; the daemon takes the status of the leader at most once, and
otherwise only those of its own children that ended and were members when it last looked; a
Stop that was graceful has not forced. When no member leaves the session with a child in it,
none is born or moved to another parent while a census is under way, and the leader's pid is
not used again, nobody is left of the session once an operation has succeeded, and nobody
comes back. -/
theorem stop_empties_session (daemon leader : Pid) (k₀ : Kernel) (h : Spawned daemon leader k₀)
    (es : List StopEvent) :
    let s := Machine.run (StopState.step daemon leader) (StopState.start k₀) es
    (s.leaderReaped = false →
      ∃ q ∈ s.kernel, q.pid = leader ∧ q.session = leader ∧ q.parent = daemon) ∧
    (∀ t ∈ s.taken, t.seen.pid = t.process.pid ∧ t.seen.session = leader ∧
      t.process.zombie = true ∧ t.process.parent = daemon) ∧
    s.taken.countP (·.process.pid = leader) = (if s.leaderReaped then 1 else 0) ∧
    (∀ d, s.phase = .stopped d → s.leaderReaped = true ∧ (s.killed = true ↔ d = .forced)) ∧
    (Machine.Along (StopState.step daemon leader) (Quiet daemon leader) (StopState.start k₀) es →
      s.leaderReaped = true → ∀ q ∈ s.kernel, q.session ≠ leader) := by
  intro s
  have hinv : Inv daemon leader s :=
    Machine.run_invariant (fun _ e h => h.step e) (Inv.start h) es
  refine ⟨fun hr => (hinv.held hr).leads,hinv.own,hinv.once,fun d hd => ⟨hinv.stopped d hd,?_⟩,?_⟩
  · rw [hinv.forced _ (by rw [hd]; rfl)]
    simp
  · intro hquiet hreaped q hq
    have hstart : Clean daemon leader (StopState.start k₀) :=
      { rooted := fun _ => h.rooted
        sees := fun c hc => (by cases hc)
        alone := fun f hf => (by cases hf)
        gone := fun hr => (by cases hr) }
    have hstep : ∀ s e, Inv daemon leader s ∧ Clean daemon leader s → Quiet daemon leader s e →
        Inv daemon leader (s.step daemon leader e) ∧ Clean daemon leader (s.step daemon leader e) :=
      fun s e h hquiet => ⟨h.1.step e,h.2.step h.1 e hquiet⟩
    have hclean := Machine.run_invariant_along hstep ⟨Inv.start h,hstart⟩ hquiet
    exact (hclean.2.gone hreaped q hq).1

/-- Some calls of a census. -/
def calls (n : ℕ) : List StopEvent := List.replicate n .census

/-- A Stop, to which the leader answers at once and its child when the census looks. -/
def promptStop : List StopEvent :=
  [.kernel (.fork 20 21),.begin .stop none,.signal none,.kernel (.exit 20),.observe none] ++
    calls 3 ++ [.kernel (.exit 21)] ++ calls 13 ++ [.reap none]

theorem stop_empties_session_prompt :
    let s := Machine.run (StopState.step 10 20) (StopState.start justSpawned) promptStop
    s.phase = .stopped .graceful ∧ s.taken.map (·.process.pid) = [21,20] ∧
      ∀ q ∈ s.kernel, q.session ≠ 20 := by
  intro s
  exact ⟨by decide,by decide,(stop_empties_session 10 20 justSpawned justSpawned_spawned
    promptStop).2.2.2.2 (by decide) (by decide)⟩

/-- The daemon's children are read before a member ends whose own were read before it forked:
its child moves to the daemon behind the census, which counts nobody, and the Stop succeeds
while that child lives. -/
theorem stop_misses_moved :
    let s := Machine.run (StopState.step 10 20) (StopState.start justSpawned)
      ([.kernel (.fork 20 21),.begin .stop none,.signal none,.kernel (.exit 20),.observe none] ++
        calls 6 ++ [.kernel (.fork 21 22),.kernel (.exit 21)] ++ calls 10 ++ [.reap none])
    s.phase = .stopped .graceful ∧ (⟨22,10,20,false,false⟩ : Process) ∈ s.kernel := by
  decide

end Native
end Ctxmux
