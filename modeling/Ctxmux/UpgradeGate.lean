import Mathlib.Logic.Function.Basic
import Ctxmux.Machine

/-!
# The gate that an upgrade closes

A request holds a permit from its admission until it is answered or its client has gone.
What it has put into the queue of a Run's native control outlives it there. An upgrade in
place waits until no permit is held, seals the gate, waits for the creations that have lost
their client, reads the registry, and then, in a turn of the native owner, reads the control
of one Run after the other and gives up when one has work left; up to the moment when the
descriptors leave the daemon it can open the gate again.
-/

namespace Ctxmux
namespace Upgrade

inductive UpgradeRequestPhase where
  | openPhase | draining | sealed
deriving DecidableEq,Repr

structure UpgradeRequestGate where
  phase : UpgradeRequestPhase
  active : ℕ
deriving DecidableEq,Repr

inductive UpgradeRequestAdmission where
  | execute | retry | sealed
deriving DecidableEq,Repr

def UpgradeRequestGate.admit (gate : UpgradeRequestGate) :
    UpgradeRequestAdmission × UpgradeRequestGate :=
  match gate.phase with
  | .openPhase => (.execute,{ gate with active := gate.active+1 })
  | .draining => (.retry,{ gate with active := gate.active+1 })
  | .sealed => (.sealed,gate)

structure UpgradeRequestPermit where
  request : ℕ
  executes : Bool
deriving DecidableEq,Repr

/-- What is handed over: the changes of the registry and of its Stop ledger, and for each Run
the work that its native control has done. -/
structure Handed where
  registry : List ℕ
  controls : List (ℕ × List ℕ)
deriving DecidableEq,Repr

/-- How far a call of `perform_exec_upgrade` has come: `fenced` holds the fence of the gate,
`quiet` has seen the creations end, `turning` has read the registry and has the controls of
the Runs in `rest` still to read, and `checked` once that nobody has cancelled it;
`extracted` has committed the fence. -/
inductive Attempt where
  | idle | draining | fenced | quiet
  | turning (handed : Handed) (rest : List ℕ) (checked : Bool)
  | extracted (handed : Handed)
  | beforeExtract (message : String)
  | afterExtract (message : String)
deriving DecidableEq,Repr

namespace Attempt

/-- The attempt holds the fence and has not committed it. -/
def fencing : Attempt → Bool
  | .fenced | .quiet | .turning _ _ _ => true
  | _ => false

/-- The attempt is between the closing of the gate and its end. -/
def engaged : Attempt → Bool
  | .draining | .fenced | .quiet | .turning _ _ _ | .extracted _ => true
  | _ => false

/-- No creation is on its way any more. -/
def settled : Attempt → Bool
  | .quiet | .turning _ _ _ | .extracted _ => true
  | _ => false

end Attempt

/-- The gate, the requests and the calls that upgrade. `runs` are the Runs of the registry and
`queued` the work in the queues of their native controls, each with the request it is from;
`changes` are the requests that changed the registry and `applied` the work that was done, in
order. `committed` is what the attempt that extracted has handed over. -/
structure UpgradeSystem where
  gate : UpgradeRequestGate
  creationFlights : ℕ
  permits : List UpgradeRequestPermit
  flying : List ℕ
  runs : List ℕ
  queued : List (ℕ × ℕ)
  attempts : ℕ → Attempt
  cancelled : ℕ → Bool
  next : ℕ
  admitted : List ℕ
  changes : List ℕ
  applied : List (ℕ × ℕ)
  committed : Option Handed
  replaced : Option ℕ
  panicked : Bool

inductive UpgradeEvent where
  | arrive
  | launch (request : ℕ)
  | change (request : ℕ) (run : Option ℕ)
  | enqueue (request run : ℕ)
  | apply (run request : ℕ)
  | discard (run request : ℕ)
  | land (request : ℕ)
  | release (request : ℕ)
  | begin (attempt : ℕ) (error : Option String) (expired : Bool)
  | wake (attempt : ℕ) (expired : Bool)
  | settle (attempt : ℕ) (error : Option String) (expired : Bool)
  | snapshot (attempt : ℕ) (error : Option String)
  | inspect (attempt : ℕ) (error : Option String)
  | check (attempt : ℕ)
  | extract (attempt : ℕ) (error : Option String)
  | finish (attempt : ℕ) (error : Option String)
  | cancel (attempt : ℕ)

namespace UpgradeSystem

def start : UpgradeSystem where
  gate := ⟨.openPhase,0⟩
  creationFlights := 0
  permits := []
  flying := []
  runs := []
  queued := []
  attempts _ := .idle
  cancelled _ := false
  next := 0
  admitted := []
  changes := []
  applied := []
  committed := none
  replaced := none
  panicked := false

def setAttempt (s : UpgradeSystem) (j : ℕ) (a : Attempt) : UpgradeSystem :=
  { s with attempts := Function.update s.attempts j a }

def setPhase (s : UpgradeSystem) (phase : UpgradeRequestPhase) : UpgradeSystem :=
  { s with gate := { s.gate with phase := phase } }

def arrive (s : UpgradeSystem) : UpgradeSystem :=
  match s.gate.admit with
  | (.execute,gate) => { s with
      gate := gate
      permits := s.permits ++ [⟨s.next,true⟩]
      admitted := s.admitted ++ [s.next]
      next := s.next+1 }
  | (.retry,gate) => { s with
      gate := gate
      permits := s.permits ++ [⟨s.next,false⟩]
      next := s.next+1 }
  | (.sealed,gate) => { s with gate := gate, next := s.next+1 }

/-- The creation thread of a request outlives the request when its client goes away. -/
def launch (s : UpgradeSystem) (request : ℕ) : UpgradeSystem :=
  if ⟨request,true⟩ ∈ s.permits then
    { s with flying := s.flying ++ [request], creationFlights := s.creationFlights+1 }
  else s

/-- A change of the registry, which may publish a Run. -/
def change (s : UpgradeSystem) (request : ℕ) (run : Option ℕ) : UpgradeSystem :=
  if ⟨request,true⟩ ∈ s.permits ∨ request ∈ s.flying then
    { s with changes := s.changes ++ [request], runs := s.runs ++ run.toList }
  else s

/-- An Input, a Resize or a Signal is accepted by the native control of a Run. -/
def enqueue (s : UpgradeSystem) (request run : ℕ) : UpgradeSystem :=
  if ⟨request,true⟩ ∈ s.permits ∧ run ∈ s.runs then
    { s with queued := s.queued ++ [(run,request)] }
  else s

/-- The native owner or an input drain does what is queued, whoever waits for it. -/
def apply (s : UpgradeSystem) (run request : ℕ) : UpgradeSystem :=
  if (run,request) ∈ s.queued then
    { s with queued := s.queued.erase (run,request), applied := s.applied ++ [(run,request)] }
  else s

/-- Queued work that comes to nothing. -/
def discard (s : UpgradeSystem) (run request : ℕ) : UpgradeSystem :=
  { s with queued := s.queued.erase (run,request) }

/-- The work that the native control of a Run has done. -/
def appliedTo (applied : List (ℕ × ℕ)) (run : ℕ) : List ℕ :=
  (applied.filter (·.1 = run)).map (·.2)

/-- The drop of a creation flight, which counts down and must not underflow. -/
def land (s : UpgradeSystem) (request : ℕ) : UpgradeSystem :=
  if request ∈ s.flying then
    if s.creationFlights = 0 then { s with panicked := true }
    else { s with
      flying := s.flying.erase request
      creationFlights := s.creationFlights-1 }
  else s

/-- The drop of a permit, which counts down and must not underflow. -/
def release (s : UpgradeSystem) (request : ℕ) : UpgradeSystem :=
  if s.permits.any (·.request = request) then
    if s.gate.active = 0 then { s with panicked := true }
    else { s with
      permits := s.permits.eraseP (·.request = request)
      gate := { s.gate with active := s.gate.active-1 } }
  else s

/-- The drop of a fence that was not committed. -/
def dropFence (s : UpgradeSystem) (j : ℕ) (message : String) : UpgradeSystem :=
  if s.gate.phase = .sealed then (s.setAttempt j (.beforeExtract message)).setPhase .openPhase
  else { s with panicked := true }

/-- One turn of the loop of `begin_drain`, with the lock held. -/
def drainTurn (s : UpgradeSystem) (j : ℕ) (expired : Bool) : UpgradeSystem :=
  if s.gate.active ≠ 0 then
    if expired then
      (s.setAttempt j (.beforeExtract ("timed out waiting for " ++ toString s.gate.active ++
        " admitted request(s) to finish"))).setPhase .openPhase
    else s.setAttempt j .draining
  else (s.setAttempt j .fenced).setPhase .sealed

def cancelMessage : String := "exec-in-place upgrade cancelled"

/-- The reversible checks before the gate, and `begin_drain` up to its first wait. -/
def beginAttempt (s : UpgradeSystem) (j : ℕ) (error : Option String) (expired : Bool) :
    UpgradeSystem :=
  if s.attempts j ≠ .idle then s
  else if s.cancelled j then s.setAttempt j (.beforeExtract cancelMessage)
  else match error with
    | some message => s.setAttempt j (.beforeExtract message)
    | none =>
      if s.gate.phase ≠ .openPhase then s.setAttempt j
        (.beforeExtract "another exec-in-place upgrade is already draining requests")
      else (s.setPhase .draining).drainTurn j expired

/-- The check of the store, and `CreationFlightOwner::wait_until`. -/
def settle (s : UpgradeSystem) (j : ℕ) (error : Option String) (expired : Bool) :
    UpgradeSystem :=
  match s.attempts j with
  | .fenced =>
    match error with
    | some message => s.dropFence j message
    | none =>
      if s.creationFlights = 0 then s.setAttempt j .quiet
      else if expired then
        s.dropFence j "in-flight creation still owns unpublished native resources"
      else s
  | _ => s

/-- The registry and the Stop ledger are read. -/
def snapshot (s : UpgradeSystem) (j : ℕ) (error : Option String) : UpgradeSystem :=
  match s.attempts j with
  | .quiet =>
    match error with
    | some message => s.dropFence j message
    | none => s.setAttempt j (.turning ⟨s.changes,[]⟩ s.runs false)
  | _ => s

def crossingControl (run : ℕ) : String :=
  "Run " ++ toString run ++ " still has a crossing native control at handoff"

/-- `handoff_input_state` of the next Run, in the turn of the native owner. -/
def inspect (s : UpgradeSystem) (j : ℕ) (error : Option String) : UpgradeSystem :=
  match s.attempts j with
  | .turning handed (run::rest) checked =>
    match error with
    | some message => s.dropFence j message
    | none =>
      if s.queued.any (·.1 = run) then s.dropFence j (crossingControl run)
      else s.setAttempt j (.turning
        { handed with controls := handed.controls ++ [(run,appliedTo s.applied run)] } rest checked)
  | _ => s

/-- The owner's preflight asks once whether the attempt was cancelled. -/
def check (s : UpgradeSystem) (j : ℕ) : UpgradeSystem :=
  match s.attempts j with
  | .turning handed rest _ =>
    if s.cancelled j then s.dropFence j cancelMessage
    else s.setAttempt j (.turning handed rest true)
  | _ => s

/-- The rest of the owner's turn: the extraction, and the commit of the fence. -/
def extract (s : UpgradeSystem) (j : ℕ) (error : Option String) : UpgradeSystem :=
  match s.attempts j with
  | .turning handed [] true =>
    match error with
    | some message => s.dropFence j message
    | none => { s.setAttempt j (.extracted handed) with committed := some handed }
  | _ => s

/-- The barrier and the replacement of the image. -/
def finish (s : UpgradeSystem) (j : ℕ) (error : Option String) : UpgradeSystem :=
  match s.attempts j with
  | .extracted _ =>
    match error with
    | some message => s.setAttempt j (.afterExtract message)
    | none =>
      if s.cancelled j then s.setAttempt j (.afterExtract cancelMessage)
      else { s with replaced := some j }
  | _ => s

/-- One step of a request, of an attempt or of the user; nothing follows the replacement of
the image. -/
def step (s : UpgradeSystem) (e : UpgradeEvent) : UpgradeSystem :=
  if s.replaced.isSome then s
  else match e with
  | .arrive => s.arrive
  | .launch request => s.launch request
  | .change request run => s.change request run
  | .enqueue request run => s.enqueue request run
  | .apply run request => s.apply run request
  | .discard run request => s.discard run request
  | .land request => s.land request
  | .release request => s.release request
  | .begin j error expired => s.beginAttempt j error expired
  | .wake j expired => if s.attempts j = .draining then s.drainTurn j expired else s
  | .settle j error expired => s.settle j error expired
  | .snapshot j error => s.snapshot j error
  | .inspect j error => s.inspect j error
  | .check j => s.check j
  | .extract j error => s.extract j error
  | .finish j error => s.finish j error
  | .cancel j => { s with cancelled := Function.update s.cancelled j true }

/-- What was read is what is there, and a Run whose control was read has no work left. -/
structure Reads (changes runs : List ℕ) (queued applied : List (ℕ × ℕ)) (handed : Handed)
    (rest : List ℕ) : Prop where
  registry : handed.registry = changes
  runs : ∀ run ∈ runs, run ∈ rest ∨ ∃ p ∈ handed.controls, p.1 = run
  controls : ∀ p ∈ handed.controls, p.2 = appliedTo applied p.1 ∧ ∀ w ∈ queued, w.1 ≠ p.1

structure Inv (s : UpgradeSystem) : Prop where
  active : s.gate.active = s.permits.length
  flights : s.creationFlights = s.flying.length
  sole : ∀ i j, (s.attempts i).engaged = true → (s.attempts j).engaged = true → i = j
  draining : s.gate.phase = .draining ↔ ∃ j, s.attempts j = .draining
  fence : s.gate.phase = .sealed ↔
    (∃ j, (s.attempts j).fencing = true) ∨ s.committed.isSome = true
  closed : s.gate.phase = .sealed → s.permits = []
  settled : (∃ j, (s.attempts j).settled = true) ∨ s.committed.isSome = true → s.flying = []
  turning : ∀ j l rest checked, s.attempts j = .turning l rest checked → Reads s.changes s.runs s.queued s.applied l rest
  extracted : ∀ j l, s.attempts j = .extracted l → s.committed = some l
  committed : ∀ l, s.committed = some l →
    Reads s.changes s.runs s.queued s.applied l [] ∧ ∀ j, (s.attempts j).fencing = false
  permitted : ∀ p ∈ s.permits, p.executes = true → p.request ∈ s.admitted
  flown : s.flying ⊆ s.admitted
  changed : s.changes ⊆ s.admitted
  waiting : ∀ w ∈ s.queued, w.1 ∈ s.runs ∧ w.2 ∈ s.admitted
  worked : ∀ w ∈ s.applied, w.1 ∈ s.runs ∧ w.2 ∈ s.admitted
  sound : s.panicked = false
  replaced : ∀ j, s.replaced = some j → s.cancelled j = false ∧ s.committed.isSome = true

theorem Inv.start : Inv start where
  active := rfl
  flights := rfl
  sole i j hi := (by cases hi)
  draining := ⟨fun h => (by cases h),fun ⟨j,hj⟩ => (by cases hj)⟩
  fence := ⟨fun h => (by cases h),fun h => (by rcases h with ⟨j,hj⟩ | h; cases hj; cases h)⟩
  closed h := (by cases h)
  settled _ := rfl
  turning j l rest checked h := (by cases h)
  extracted j l h := (by cases h)
  committed l h := (by cases h)
  permitted p hp := (by cases hp)
  flown := List.nil_subset _
  changed := List.nil_subset _
  waiting w hw := (by cases hw)
  worked w hw := (by cases hw)
  sound := rfl
  replaced j h := (by cases h)

variable {s : UpgradeSystem} {j : ℕ} {changes runs rest : List ℕ} {queued applied : List (ℕ × ℕ)}

theorem Attempt.idle_of_not_engaged {a : Attempt} (h : a.engaged = false) :
    a ≠ .draining ∧ a.fencing = false ∧ a.settled = false ∧
      (∀ l rest checked, a ≠ .turning l rest checked) ∧ ∀ l, a ≠ .extracted l := by
  cases a <;> simp_all [Attempt.engaged,Attempt.fencing,Attempt.settled]

theorem Inv.move (h : Inv s) (j : ℕ) (a : Attempt) (phase : UpgradeRequestPhase)
    (handed : Option Handed) (hrunning : s.replaced = none)
    (honly : ∀ i, (s.attempts i).engaged = true → i = j)
    (hdraining : phase = .draining ↔ a = .draining)
    (hfence : phase = .sealed ↔ a.fencing = true ∨ handed.isSome = true)
    (hclosed : phase = .sealed → s.permits = [])
    (hsettled : a.settled = true ∨ handed.isSome = true → s.flying = [])
    (hturning : ∀ l rest checked, a = .turning l rest checked → Reads s.changes s.runs s.queued s.applied l rest)
    (hextracted : ∀ l, a = .extracted l → handed = some l)
    (hcommitted : ∀ l, handed = some l → Reads s.changes s.runs s.queued s.applied l [] ∧ a.fencing = false) :
    Inv { (s.setAttempt j a).setPhase phase with committed := handed } := by
  have hother : ∀ i, i ≠ j → (s.attempts i).engaged = false := fun i hi => by
    cases hengaged : (s.attempts i).engaged with
    | false => rfl
    | true => exact absurd (honly i hengaged) hi
  have hself : Function.update s.attempts j a j = a := Function.update_self ..
  have hrest : ∀ i, i ≠ j → Function.update s.attempts j a i = s.attempts i := fun i hi =>
    Function.update_of_ne hi ..
  have hat : ∀ i, i ≠ j → (Function.update s.attempts j a i).engaged = false := fun i hi => by
    rw [hrest i hi]
    exact hother i hi
  refine { h with
    sole := fun i k hi hk => ?_
    draining := ?_
    fence := ?_
    closed := hclosed
    settled := ?_
    turning := fun i l rest checked hi => ?_
    extracted := fun i l hi => ?_
    committed := fun l hl => ?_
    replaced := fun i hi => absurd (hi.symm.trans hrunning) (by simp) }
  · by_cases hij : i = j
    · by_cases hkj : k = j
      · exact hij.trans hkj.symm
      · exact absurd hk (by simp [setAttempt,setPhase,hat k hkj])
    · exact absurd hi (by simp [setAttempt,setPhase,hat i hij])
  · show phase = .draining ↔ ∃ i, Function.update s.attempts j a i = .draining
    rw [hdraining]
    constructor
    · exact fun ha => ⟨j,hself.trans ha⟩
    · rintro ⟨i,hi⟩
      by_cases hij : i = j
      · subst hij
        exact hself.symm.trans hi
      · exact absurd hi (Attempt.idle_of_not_engaged (hat i hij)).1
  · show phase = .sealed ↔
      (∃ i, (Function.update s.attempts j a i).fencing = true) ∨ handed.isSome = true
    rw [hfence]
    apply or_congr_left
    constructor
    · exact fun ha => ⟨j,by rw [hself]; exact ha⟩
    · rintro ⟨i,hi⟩
      by_cases hij : i = j
      · subst hij
        rwa [hself] at hi
      · rw [(Attempt.idle_of_not_engaged (hat i hij)).2.1] at hi
        cases hi
  · rintro (⟨i,hi⟩ | hhanded)
    · have hi' : (Function.update s.attempts j a i).settled = true := hi
      by_cases hij : i = j
      · rw [hij,hself] at hi'
        exact hsettled (.inl hi')
      · rw [(Attempt.idle_of_not_engaged (hat i hij)).2.2.1] at hi'
        cases hi'
    · exact hsettled (.inr hhanded)
  · by_cases hij : i = j
    · subst hij
      exact hturning l rest checked (hself.symm.trans hi)
    · exact absurd hi ((Attempt.idle_of_not_engaged (hat i hij)).2.2.2.1 l rest checked)
  · by_cases hij : i = j
    · subst hij
      exact hextracted l (hself.symm.trans hi)
    · exact absurd hi ((Attempt.idle_of_not_engaged (hat i hij)).2.2.2.2 l)
  · refine ⟨(hcommitted l hl).1,fun i => ?_⟩
    show (Function.update s.attempts j a i).fencing = false
    by_cases hij : i = j
    · rw [hij,hself]
      exact (hcommitted l hl).2
    · exact (Attempt.idle_of_not_engaged (hat i hij)).2.1

/-- An attempt that never came to the gate, or has left it, changes nothing there. -/
theorem Inv.aside (h : Inv s) (hj : (s.attempts j).engaged = false) {a : Attempt}
    (ha : a.engaged = false) : Inv (s.setAttempt j a) := by
  have hsame : ∀ i, (Function.update s.attempts j a i).engaged = (s.attempts i).engaged := fun i => by
    by_cases hij : i = j
    · subst hij
      rw [Function.update_self,ha,hj]
    · rw [Function.update_of_ne hij]
  have hrest : ∀ i, (s.attempts i).engaged = true → Function.update s.attempts j a i = s.attempts i :=
    fun i hi => Function.update_of_ne (fun hij => by simp [hij,hj] at hi) ..
  have hat : ∀ i, (Function.update s.attempts j a i).engaged = false ∨
      Function.update s.attempts j a i = s.attempts i := fun i => by
    cases hi : (s.attempts i).engaged with
    | false => exact .inl ((hsame i).trans hi)
    | true => exact .inr (hrest i hi)
  have hiff : ∀ P : Attempt → Prop, (∀ b, b.engaged = false → ¬ P b) →
      ((∃ i, P (Function.update s.attempts j a i)) ↔ ∃ i, P (s.attempts i)) := by
    intro P hP
    constructor
    · rintro ⟨i,hi⟩
      rcases hat i with hnot | heq
      · exact absurd hi (hP _ hnot)
      · exact ⟨i,heq ▸ hi⟩
    · rintro ⟨i,hi⟩
      cases hengaged : (s.attempts i).engaged with
      | false => exact absurd hi (hP _ hengaged)
      | true => exact ⟨i,(hrest i hengaged).symm ▸ hi⟩
  exact { h with
    sole := fun i k hi hk => h.sole i k ((hsame i).symm.trans hi) ((hsame k).symm.trans hk)
    draining := h.draining.trans
      (hiff (· = .draining) fun b hb => (Attempt.idle_of_not_engaged hb).1).symm
    fence := h.fence.trans (or_congr_left
      (hiff (·.fencing = true) fun b hb => by simp [(Attempt.idle_of_not_engaged hb).2.1]).symm)
    settled := fun hsettled => h.settled (hsettled.imp_left
      (hiff (·.settled = true) fun b hb => by simp [(Attempt.idle_of_not_engaged hb).2.2.1]).mp)
    turning := fun i l rest checked hi => by
      rcases hat i with hnot | heq
      · exact absurd hi ((Attempt.idle_of_not_engaged hnot).2.2.2.1 l rest checked)
      · exact h.turning i l rest checked (heq.symm.trans hi)
    extracted := fun i l hi => by
      rcases hat i with hnot | heq
      · exact absurd hi ((Attempt.idle_of_not_engaged hnot).2.2.2.2 l)
      · exact h.extracted i l (heq.symm.trans hi)
    committed := fun l hl => ⟨(h.committed l hl).1,fun i => by
      rcases hat i with hnot | heq
      · exact (Attempt.idle_of_not_engaged hnot).2.1
      · exact (congrArg Attempt.fencing heq).trans ((h.committed l hl).2 i)⟩ }

theorem Inv.arrive (h : Inv s) : Inv s.arrive := by
  unfold UpgradeSystem.arrive UpgradeRequestGate.admit
  cases hphase : s.gate.phase with
  | openPhase =>
    exact { h with
      active := by simp [h.active]
      draining := by simpa [hphase] using h.draining
      fence := by simpa [hphase] using h.fence
      closed := fun hsealed => (by simp at hsealed)
      permitted := fun p hp hexecutes => by
        rcases List.mem_append.mp hp with hold | hnew
        · exact List.mem_append_left _ (h.permitted p hold hexecutes)
        · simp [List.mem_singleton.mp hnew]
      flown := List.Subset.trans h.flown (List.subset_append_left _ _)
      changed := List.Subset.trans h.changed (List.subset_append_left _ _)
      waiting := fun w hw => (h.waiting w hw).imp_right (List.mem_append_left _)
      worked := fun w hw => (h.worked w hw).imp_right (List.mem_append_left _) }
  | draining =>
    exact { h with
      active := by simp [h.active]
      draining := by simpa [hphase] using h.draining
      fence := by simpa [hphase] using h.fence
      closed := fun hsealed => (by simp at hsealed)
      permitted := fun p hp hexecutes => by
        rcases List.mem_append.mp hp with hold | hnew
        · exact h.permitted p hold hexecutes
        · simp only [List.mem_singleton] at hnew
          simp [hnew] at hexecutes }
  | sealed => exact { h with }

/-- While an attempt holds the fence, or one has committed it, nobody has a permit. -/
theorem Inv.no_permits (h : Inv s) (hfence : (∃ j, (s.attempts j).fencing = true) ∨
    s.committed.isSome = true) : s.permits = [] := h.closed (h.fence.mpr hfence)

theorem Inv.settled_fence (h : Inv s) (hsettled : (∃ j, (s.attempts j).settled = true) ∨
    s.committed.isSome = true) : (∃ j, (s.attempts j).fencing = true) ∨
    s.committed.isSome = true := by
  rcases hsettled with ⟨j,hj⟩ | hcommitted
  · cases hattempt : s.attempts j with
    | quiet => exact .inl ⟨j,by rw [hattempt]; rfl⟩
    | turning l rest checked => exact .inl ⟨j,by rw [hattempt]; rfl⟩
    | extracted l => exact .inr (by rw [h.extracted j l hattempt]; rfl)
    | _ => simp [hattempt,Attempt.settled] at hj
  · exact .inr hcommitted

theorem Inv.launch (h : Inv s) (request : ℕ) : Inv (s.launch request) := by
  unfold UpgradeSystem.launch
  split
  · rename_i hpermit
    exact { h with
      flights := by simp [h.flights]
      settled := fun hsettled => by
        rw [h.no_permits (h.settled_fence hsettled)] at hpermit
        exact absurd hpermit List.not_mem_nil
      flown := fun i hi => by
        rcases List.mem_append.mp hi with hold | hnew
        · exact h.flown hold
        · rw [List.mem_singleton.mp hnew]
          exact h.permitted _ hpermit rfl }
  · exact h

/-- Behind the creations nobody has a permit or a flight. -/
theorem Inv.no_change (h : Inv s) (hsettled : (∃ j, (s.attempts j).settled = true) ∨
    s.committed.isSome = true) (request : ℕ) :
    ¬(⟨request,true⟩ ∈ s.permits ∨ request ∈ s.flying) := by
  rw [h.no_permits (h.settled_fence hsettled),h.settled hsettled]
  simp

theorem Inv.change (h : Inv s) (request : ℕ) (run : Option ℕ) : Inv (s.change request run) := by
  unfold UpgradeSystem.change
  split
  · rename_i hbusy
    have hno : ¬ ((∃ j, (s.attempts j).settled = true) ∨ s.committed.isSome = true) :=
      fun hsettled => h.no_change hsettled request hbusy
    exact { h with
      turning := fun j l rest checked hj => absurd (.inl ⟨j,by rw [hj]; rfl⟩) hno
      committed := fun l hl => absurd (.inr (by rw [hl]; rfl)) hno
      changed := fun i hi => by
        rcases List.mem_append.mp hi with hold | hnew
        · exact h.changed hold
        · rw [List.mem_singleton.mp hnew]
          rcases hbusy with hpermit | hflying
          · exact h.permitted _ hpermit rfl
          · exact h.flown hflying
      waiting := fun w hw => (h.waiting w hw).imp_left (List.mem_append_left _)
      worked := fun w hw => (h.worked w hw).imp_left (List.mem_append_left _) }
  · exact h

theorem Inv.enqueue (h : Inv s) (request run : ℕ) : Inv (s.enqueue request run) := by
  unfold UpgradeSystem.enqueue
  split
  · rename_i hpermit
    have hno : ¬ ((∃ j, (s.attempts j).settled = true) ∨ s.committed.isSome = true) :=
      fun hsettled => h.no_change hsettled request (.inl hpermit.1)
    exact { h with
      turning := fun j l rest checked hj => absurd (.inl ⟨j,by rw [hj]; rfl⟩) hno
      committed := fun l hl => absurd (.inr (by rw [hl]; rfl)) hno
      waiting := fun w hw => by
        rcases List.mem_append.mp hw with hold | hnew
        · exact h.waiting w hold
        · rw [List.mem_singleton.mp hnew]
          exact ⟨hpermit.2,h.permitted _ hpermit.1 rfl⟩ }
  · exact h

variable {handed : Handed}

/-- Work that is done for a Run is none of what was read before. -/
theorem Reads.apply (h : Reads changes runs queued applied handed rest) {w : ℕ × ℕ}
    (hw : w ∈ queued) : Reads changes runs (queued.erase w) (applied ++ [w]) handed rest where
  registry := h.registry
  runs := h.runs
  controls p hp := by
    obtain ⟨happlied,hqueued⟩ := h.controls p hp
    refine ⟨?_,fun v hv => hqueued v (List.mem_of_mem_erase hv)⟩
    have hother : ¬w.1 = p.1 := hqueued w hw
    rw [happlied]
    simp [appliedTo,List.filter_append,hother]

theorem Reads.discard (h : Reads changes runs queued applied handed rest) (w : ℕ × ℕ) :
    Reads changes runs (queued.erase w) applied handed rest where
  registry := h.registry
  runs := h.runs
  controls p hp := (h.controls p hp).imp_right fun hqueued v hv =>
    hqueued v (List.mem_of_mem_erase hv)

section

variable (h : Inv s)
include h

theorem Inv.apply (run request : ℕ) : Inv (s.apply run request) := by
  unfold UpgradeSystem.apply
  split
  · rename_i hqueued
    exact { h with
      turning := fun j l rest checked hj => (h.turning j l rest checked hj).apply hqueued
      committed := fun l hl => (h.committed l hl).imp_left fun hreads => hreads.apply hqueued
      waiting := fun w hw => h.waiting w (List.mem_of_mem_erase hw)
      worked := fun w hw => by
        rcases List.mem_append.mp hw with hold | hnew
        · exact h.worked w hold
        · rw [List.mem_singleton.mp hnew]
          exact h.waiting _ hqueued }
  · exact h

theorem Inv.discard (run request : ℕ) : Inv (s.discard run request) :=
  { h with
    turning := fun j l rest checked hj => (h.turning j l rest checked hj).discard _
    committed := fun l hl => (h.committed l hl).imp_left fun hreads => hreads.discard _
    waiting := fun w hw => h.waiting w (List.mem_of_mem_erase hw) }

theorem Inv.land (request : ℕ) : Inv (s.land request) := by
  unfold UpgradeSystem.land
  split
  · rename_i hflying
    have hsome : s.creationFlights ≠ 0 := by
      rw [h.flights]
      exact fun hzero => by simp [List.length_eq_zero_iff.mp hzero] at hflying
    rw [if_neg hsome]
    exact { h with
      flights := by rw [h.flights,List.length_erase_of_mem hflying]
      settled := fun hsettled => by simp [h.settled hsettled]
      flown := List.Subset.trans List.erase_subset h.flown }
  · exact h

theorem Inv.release (request : ℕ) : Inv (s.release request) := by
  unfold UpgradeSystem.release
  split
  · rename_i hheld
    obtain ⟨p,hp,hrequest⟩ := List.any_eq_true.mp hheld
    have hsome : s.gate.active ≠ 0 := by
      rw [h.active]
      exact fun hzero => by simp [List.length_eq_zero_iff.mp hzero] at hp
    rw [if_neg hsome]
    exact { h with
      active := by rw [h.active,List.length_eraseP_of_mem hp hrequest]
      closed := fun hsealed => by simp [h.closed hsealed]
      permitted := fun q hq => h.permitted q (List.eraseP_subset hq) }
  · exact h

/-- The attempt that holds the fence gives up, and the gate is open again. -/
theorem Inv.dropFence (hrunning : s.replaced = none) (hj : (s.attempts j).fencing = true)
    (message : String) : Inv (s.dropFence j message) := by
  have hsealed : s.gate.phase = .sealed := h.fence.mpr (.inl ⟨j,hj⟩)
  have hnone : s.committed = none := by
    cases hcommitted : s.committed with
    | none => rfl
    | some l =>
      rw [(h.committed l hcommitted).2 j] at hj
      cases hj
  have hengaged : (s.attempts j).engaged = true := by
    by_contra hnot
    rw [(Attempt.idle_of_not_engaged (by simpa using hnot)).2.1] at hj
    cases hj
  rw [UpgradeSystem.dropFence,if_pos hsealed]
  have hmove := h.move j (.beforeExtract message) .openPhase none hrunning
    (fun i hi => h.sole i j hi hengaged) (by simp) (by simp [Attempt.fencing]) (by simp)
    (by simp [Attempt.settled]) (by simp) (by simp) (by simp)
  rw [← hnone] at hmove
  exact hmove

/-- A turn of the drain, by the only attempt that is at the gate. -/
theorem Inv.drainTurn (hrunning : s.replaced = none)
    (honly : ∀ i, (s.attempts i).engaged = true → i = j) (hnone : s.committed = none)
    (expired : Bool) : Inv ((s.setPhase .draining).drainTurn j expired) := by
  unfold UpgradeSystem.drainTurn
  split
  · split
    · have hmove := h.move j (.beforeExtract ("timed out waiting for " ++
        toString s.gate.active ++ " admitted request(s) to finish")) .openPhase none hrunning honly
        (by simp) (by simp [Attempt.fencing]) (by simp) (by simp [Attempt.settled]) (by simp)
        (by simp) (by simp)
      rw [← hnone] at hmove
      exact hmove
    · have hmove := h.move j .draining .draining none hrunning honly (by simp)
        (by simp [Attempt.fencing]) (by simp) (by simp [Attempt.settled]) (by simp) (by simp)
        (by simp)
      rw [← hnone] at hmove
      exact hmove
  · rename_i hactive
    have hempty : s.permits = [] := by
      rw [← List.length_eq_zero_iff,← h.active]
      exact not_ne_iff.mp hactive
    have hmove := h.move j .fenced .sealed none hrunning honly (by simp)
      (by simp [Attempt.fencing]) (fun _ => hempty) (by simp [Attempt.settled]) (by simp) (by simp)
      (by simp)
    rw [← hnone] at hmove
    exact hmove

/-- Nobody has committed while an attempt waits for the requests. -/
theorem Inv.uncommitted (hphase : s.gate.phase ≠ .sealed) : s.committed = none := by
  cases hcommitted : s.committed with
  | none => rfl
  | some l => exact absurd (h.fence.mpr (.inr (by rw [hcommitted]; rfl))) hphase

theorem Inv.none_engaged (hphase : s.gate.phase = .openPhase) (i : ℕ) :
    (s.attempts i).engaged = false := by
  have hfence : ¬ ((∃ j, (s.attempts j).fencing = true) ∨ s.committed.isSome = true) := fun hfence =>
    absurd (h.fence.mpr hfence) (by simp [hphase])
  cases hattempt : s.attempts i with
  | draining => exact absurd (h.draining.mpr ⟨i,hattempt⟩) (by simp [hphase])
  | fenced => exact absurd (.inl ⟨i,by rw [hattempt]; rfl⟩) hfence
  | quiet => exact absurd (.inl ⟨i,by rw [hattempt]; rfl⟩) hfence
  | turning l rest checked => exact absurd (.inl ⟨i,by rw [hattempt]; rfl⟩) hfence
  | extracted l => exact absurd (.inr (by rw [h.extracted i l hattempt]; rfl)) hfence
  | _ => rfl

theorem Inv.begin (hrunning : s.replaced = none) (j : ℕ) (error : Option String) (expired : Bool) :
    Inv (s.beginAttempt j error expired) := by
  unfold UpgradeSystem.beginAttempt
  split
  · exact h
  · rename_i hidle
    have hj : (s.attempts j).engaged = false := by
      rw [not_ne_iff.mp hidle]
      rfl
    split
    · exact h.aside hj rfl
    · cases error with
      | some message => exact h.aside hj rfl
      | none =>
        dsimp only
        split
        · exact h.aside hj rfl
        · rename_i hopen
          have hphase := not_ne_iff.mp hopen
          have hnone := h.uncommitted (by simp [hphase])
          apply h.drainTurn hrunning _ hnone
          intro i hi
          rw [h.none_engaged hphase i] at hi
          cases hi

theorem Inv.wake (hrunning : s.replaced = none) (hj : s.attempts j = .draining) (expired : Bool) :
    Inv (s.drainTurn j expired) := by
  have hphase : s.gate.phase = .draining := h.draining.mpr ⟨j,hj⟩
  have hsame : s.setPhase .draining = s := by
    rw [UpgradeSystem.setPhase,← hphase]
  rw [← hsame]
  refine h.drainTurn hrunning (fun i hi => h.sole i j hi (by rw [hj]; rfl))
    (h.uncommitted (by simp [hphase])) expired

/-- The attempt that holds the fence goes on behind it. -/
theorem Inv.advance (hrunning : s.replaced = none) (hj : (s.attempts j).fencing = true)
    {a : Attempt} (ha : a.fencing = true) (hflying : s.flying = [])
    (hturning : ∀ l rest checked, a = .turning l rest checked →
      Reads s.changes s.runs s.queued s.applied l rest) : Inv (s.setAttempt j a) := by
  have hengaged : (s.attempts j).engaged = true := by
    by_contra hnot
    rw [(Attempt.idle_of_not_engaged (by simpa using hnot)).2.1] at hj
    cases hj
  have hsealed : s.gate.phase = .sealed := h.fence.mpr (.inl ⟨j,hj⟩)
  have hnone : s.committed = none := by
    cases hcommitted : s.committed with
    | none => rfl
    | some l =>
      rw [(h.committed l hcommitted).2 j] at hj
      cases hj
  have hmove := h.move j a .sealed none hrunning (fun i hi => h.sole i j hi hengaged)
    (by simpa using fun heq => by simp [heq,Attempt.fencing] at ha) (by simp [ha])
    (fun _ => h.closed hsealed) (fun _ => hflying) hturning
    (fun l heq => by simp [heq,Attempt.fencing] at ha) (by simp)
  rw [← hnone,← hsealed] at hmove
  exact hmove

theorem Inv.settle (hrunning : s.replaced = none) (j : ℕ) (error : Option String) (expired : Bool) :
    Inv (s.settle j error expired) := by
  unfold UpgradeSystem.settle
  split
  · rename_i hj
    have hfencing : (s.attempts j).fencing = true := by
      rw [hj]
      rfl
    split
    · exact h.dropFence hrunning hfencing _
    · split
      · rename_i hflights
        apply h.advance hrunning hfencing rfl
        · rw [← List.length_eq_zero_iff,← h.flights]
          exact hflights
        · exact fun l rest checked heq => (by cases heq)
      · split
        · exact h.dropFence hrunning hfencing _
        · exact h
  · exact h

theorem Inv.snapshot (hrunning : s.replaced = none) (j : ℕ) (error : Option String) :
    Inv (s.snapshot j error) := by
  unfold UpgradeSystem.snapshot
  split
  · rename_i hj
    have hfencing : (s.attempts j).fencing = true := by
      rw [hj]
      rfl
    split
    · exact h.dropFence hrunning hfencing _
    · refine h.advance hrunning hfencing rfl (h.settled (.inl ⟨j,by rw [hj]; rfl⟩)) ?_
      intro l rest checked heq
      cases heq
      exact ⟨rfl,fun run hrun => .inl hrun,fun p hp => absurd hp List.not_mem_nil⟩
  · exact h

end

/-- The control of one more Run is read, and nothing is left in its queue. -/
theorem Reads.inspect {run : ℕ} (h : Reads changes runs queued applied handed (run::rest))
    (hquiet : queued.any (·.1 = run) = false) : Reads changes runs queued applied
      { handed with controls := handed.controls ++ [(run,appliedTo applied run)] } rest where
  registry := h.registry
  runs other hother := by
    rcases h.runs other hother with hin | ⟨p,hp,hkey⟩
    · rcases List.mem_cons.mp hin with rfl | hlater
      · exact .inr ⟨_,List.mem_append_right _ (List.mem_singleton_self _),rfl⟩
      · exact .inl hlater
    · exact .inr ⟨p,List.mem_append_left _ hp,hkey⟩
  controls p hp := by
    rcases List.mem_append.mp hp with hold | hnew
    · exact h.controls p hold
    · rw [List.mem_singleton.mp hnew]
      refine ⟨rfl,fun w hw heq => ?_⟩
      rw [List.any_eq_false] at hquiet
      exact hquiet w hw (by simpa using heq)

section

variable (h : Inv s) (hrunning : s.replaced = none) (j : ℕ)
include h hrunning

theorem Inv.inspect (error : Option String) :
    Inv (s.inspect j error) := by
  unfold UpgradeSystem.inspect
  split
  · rename_i handed run rest checked hj
    have hfencing : (s.attempts j).fencing = true := by
      rw [hj]
      rfl
    split
    · exact h.dropFence hrunning hfencing _
    · split
      · exact h.dropFence hrunning hfencing _
      · rename_i hquiet
        refine h.advance hrunning hfencing rfl (h.settled (.inl ⟨j,by rw [hj]; rfl⟩)) ?_
        intro l rest checked heq
        cases heq
        exact (h.turning j _ _ _ hj).inspect (Bool.eq_false_iff.mpr hquiet)
  · exact h

theorem Inv.check : Inv (s.check j) := by
  unfold UpgradeSystem.check
  split
  · rename_i handed rest checked hj
    have hfencing : (s.attempts j).fencing = true := by
      rw [hj]
      rfl
    split
    · exact h.dropFence hrunning hfencing _
    · refine h.advance hrunning hfencing rfl (h.settled (.inl ⟨j,by rw [hj]; rfl⟩)) ?_
      intro l rest checked heq
      cases heq
      exact h.turning j _ _ _ hj
  · exact h

theorem Inv.extract (error : Option String) :
    Inv (s.extract j error) := by
  unfold UpgradeSystem.extract
  split
  · rename_i handed hj
    have hfencing : (s.attempts j).fencing = true := by
      rw [hj]
      rfl
    have hsealed : s.gate.phase = .sealed := h.fence.mpr (.inl ⟨j,hfencing⟩)
    split
    · exact h.dropFence hrunning hfencing _
    · have hmove := h.move j (.extracted handed) .sealed (some handed) hrunning
        (fun i hi => h.sole i j hi (by rw [hj]; rfl)) (by simp) (by simp)
        (fun _ => h.closed hsealed) (fun _ => h.settled (.inl ⟨j,by rw [hj]; rfl⟩)) (by simp)
        (by simp) (fun l hl => ⟨by cases hl; exact h.turning j _ _ _ hj,rfl⟩)
      rw [← hsealed] at hmove
      exact hmove
  · exact h

theorem Inv.finish (error : Option String) :
    Inv (s.finish j error) := by
  unfold UpgradeSystem.finish
  split
  · rename_i handed hj
    have hcommitted := h.extracted j handed hj
    have hsealed : s.gate.phase = .sealed := h.fence.mpr (.inr (by rw [hcommitted]; rfl))
    have hends : ∀ message, Inv (s.setAttempt j (.afterExtract message)) := fun message => by
      have hmove := h.move j (.afterExtract message) .sealed s.committed hrunning
        (fun i hi => h.sole i j hi (by rw [hj]; rfl)) (by simp) (by simp [hcommitted])
        (fun _ => h.closed hsealed) (fun _ => h.settled (.inr (by rw [hcommitted]; rfl)))
        (by simp) (by simp) (fun l hl => ⟨(h.committed l hl).1,rfl⟩)
      rw [← hsealed] at hmove
      exact hmove
    split
    · exact hends _
    · split
      · exact hends _
      · rename_i hcancelled
        exact { h with
          replaced := fun i hi => by
            cases hi
            exact ⟨by simpa using hcancelled,by rw [hcommitted]; rfl⟩ }
  · exact h

end

theorem Inv.step (h : Inv s) (e : UpgradeEvent) : Inv (s.step e) := by
  unfold UpgradeSystem.step
  split
  · exact h
  · rename_i hreplaced
    have hrunning : s.replaced = none := by simpa using hreplaced
    cases e with
    | arrive => exact h.arrive
    | launch request => exact h.launch request
    | change request run => exact h.change request run
    | enqueue request run => exact h.enqueue request run
    | apply run request => exact h.apply run request
    | discard run request => exact h.discard run request
    | land request => exact h.land request
    | release request => exact h.release request
    | begin j error expired => exact h.begin hrunning j error expired
    | wake j expired =>
      dsimp only
      split
      · rename_i hj
        exact h.wake hrunning hj expired
      · exact h
    | settle j error expired => exact h.settle hrunning j error expired
    | snapshot j error => exact h.snapshot hrunning j error
    | inspect j error => exact h.inspect hrunning j error
    | check j => exact h.check hrunning j
    | extract j error => exact h.extract hrunning j error
    | finish j error => exact h.finish hrunning j error
    | cancel j =>
      exact { h with replaced := fun i hi => absurd (hi.symm.trans hrunning) (by simp) }

theorem Inv.phase_open (h : Inv s) : s.gate.phase = .openPhase ↔
    (∀ j, (s.attempts j).engaged = false) ∧ s.committed = none := by
  constructor
  · exact fun hphase => ⟨h.none_engaged hphase,h.uncommitted (by simp [hphase])⟩
  · rintro ⟨hidle,hnone⟩
    cases hphase : s.gate.phase with
    | openPhase => rfl
    | draining =>
      obtain ⟨j,hj⟩ := h.draining.mp hphase
      exact absurd hj (Attempt.idle_of_not_engaged (hidle j)).1
    | sealed =>
      rcases h.fence.mp hphase with ⟨j,hj⟩ | hcommitted
      · rw [(Attempt.idle_of_not_engaged (hidle j)).2.1] at hj
        cases hj
      · rw [hnone] at hcommitted
        cases hcommitted

/-- Whoever has committed has read the control of every Run, and no work is left. -/
theorem Inv.no_work (h : Inv s) {l : Handed} (hl : s.committed = some l) : s.queued = [] := by
  have hreads := (h.committed l hl).1
  rw [List.eq_nil_iff_forall_not_mem]
  intro w hw
  rcases hreads.runs w.1 (h.waiting w hw).1 with hin | ⟨p,hp,hkey⟩
  · exact List.not_mem_nil hin
  · exact (hreads.controls p hp).2 w hw hkey.symm

/-- What was handed over, and all that it was read from. -/
def Frozen (s s' : UpgradeSystem) : Prop :=
  s'.committed = s.committed ∧ s'.changes = s.changes ∧ s'.runs = s.runs ∧ s'.applied = s.applied

theorem Frozen.dropFence (s : UpgradeSystem) (j : ℕ) (message : String) :
    Frozen s (s.dropFence j message) := by
  unfold UpgradeSystem.dropFence
  split <;> exact ⟨rfl,rfl,rfl,rfl⟩

theorem Frozen.drainTurn (s : UpgradeSystem) (j : ℕ) (expired : Bool) :
    Frozen s (s.drainTurn j expired) := by
  unfold UpgradeSystem.drainTurn
  split
  · split <;> exact ⟨rfl,rfl,rfl,rfl⟩
  · exact ⟨rfl,rfl,rfl,rfl⟩

theorem Frozen.refl (s : UpgradeSystem) : Frozen s s := ⟨rfl,rfl,rfl,rfl⟩

theorem Frozen.beginAttempt (s : UpgradeSystem) (j : ℕ) (error : Option String) (expired : Bool) :
    Frozen s (s.beginAttempt j error expired) := by
  unfold UpgradeSystem.beginAttempt
  split
  · exact .refl s
  · split
    · exact .refl s
    · cases error with
      | some message => exact .refl s
      | none =>
        dsimp only
        split
        · exact .refl s
        · exact Frozen.drainTurn (s.setPhase .draining) j expired

theorem Frozen.settle (s : UpgradeSystem) (j : ℕ) (error : Option String) (expired : Bool) :
    Frozen s (s.settle j error expired) := by
  unfold UpgradeSystem.settle
  split
  · split
    · exact .dropFence s j _
    · split
      · exact .refl s
      · split
        · exact .dropFence s j _
        · exact .refl s
  · exact .refl s

theorem Frozen.snapshot (s : UpgradeSystem) (j : ℕ) (error : Option String) :
    Frozen s (s.snapshot j error) := by
  unfold UpgradeSystem.snapshot
  split
  · split
    · exact .dropFence s j _
    · exact .refl s
  · exact .refl s

theorem Frozen.inspect (s : UpgradeSystem) (j : ℕ) (error : Option String) :
    Frozen s (s.inspect j error) := by
  unfold UpgradeSystem.inspect
  split
  · split
    · exact .dropFence s j _
    · split
      · exact .dropFence s j _
      · exact .refl s
  · exact .refl s

theorem Frozen.check (s : UpgradeSystem) (j : ℕ) : Frozen s (s.check j) := by
  unfold UpgradeSystem.check
  split
  · split
    · exact .dropFence s j _
    · exact .refl s
  · exact .refl s

/-- What has been handed over is not taken back, and nothing changes behind it. -/
theorem Inv.frozen (h : Inv s) {l : Handed} (hl : s.committed = some l) (e : UpgradeEvent) :
    Frozen s (s.step e) := by
  have hsome : s.committed.isSome = true := by
    rw [hl]
    rfl
  have hfencing := (h.committed l hl).2
  unfold UpgradeSystem.step
  split
  · exact .refl s
  · cases e with
    | arrive =>
      dsimp only [UpgradeSystem.arrive]
      split <;> exact .refl s
    | launch request =>
      dsimp only [UpgradeSystem.launch]
      split <;> exact .refl s
    | change request run =>
      dsimp only [UpgradeSystem.change]
      rw [if_neg (h.no_change (.inr hsome) request)]
      exact .refl s
    | enqueue request run =>
      dsimp only [UpgradeSystem.enqueue]
      split <;> exact .refl s
    | apply run request =>
      dsimp only [UpgradeSystem.apply]
      rw [if_neg (by rw [h.no_work hl]; exact List.not_mem_nil)]
      exact .refl s
    | discard run request => exact .refl s
    | land request =>
      dsimp only [UpgradeSystem.land]
      split
      · split <;> exact .refl s
      · exact .refl s
    | release request =>
      dsimp only [UpgradeSystem.release]
      split
      · split <;> exact .refl s
      · exact .refl s
    | begin j error expired => exact .beginAttempt s j error expired
    | wake j expired =>
      dsimp only
      split
      · exact .drainTurn s j expired
      · exact .refl s
    | settle j error expired => exact .settle s j error expired
    | snapshot j error => exact .snapshot s j error
    | inspect j error => exact .inspect s j error
    | check j => exact .check s j
    | extract j error =>
      dsimp only [UpgradeSystem.extract]
      split
      · rename_i handed hj
        have hno := hfencing j
        rw [hj] at hno
        cases hno
      · exact .refl s
    | finish j error =>
      dsimp only [UpgradeSystem.finish]
      split
      · split
        · exact .refl s
        · split <;> exact .refl s
      · exact .refl s
    | cancel j => exact .refl s

end UpgradeSystem

open UpgradeSystem

/-- Whatever requests, creations, queued work, upgrade attempts, time limits and
cancellations do in between: the counts of the gate are the permits and creations that are
held and never underflow; at most one attempt is at the gate, and the gate is open exactly
when none is and none has committed, so that an attempt that fails before the extraction
leaves it open; all changes and all work are those of admitted requests; an attempt that has
read the registry holds every change of it and, for each Run whose control it has read, all
work done there, and nothing more can be changed or done; an attempt that extracts has read
every Run and left no work in any queue, and after it no request is admitted and nothing
changes ever again; and a cancelled attempt does not replace the image. -/
theorem upgrade_hands_over_changes (es fs : List UpgradeEvent) :
    let s := Machine.run UpgradeSystem.step UpgradeSystem.start es
    let t := Machine.run UpgradeSystem.step s fs
    s.panicked = false ∧ s.gate.active = s.permits.length ∧
    s.creationFlights = s.flying.length ∧
    (∀ i j, (s.attempts i).engaged = true → (s.attempts j).engaged = true → i = j) ∧
    (s.gate.phase = .openPhase ↔ (∀ j, (s.attempts j).engaged = false) ∧ s.committed = none) ∧
    s.changes ⊆ s.admitted ∧
    (∀ w ∈ s.queued ++ s.applied, w.1 ∈ s.runs ∧ w.2 ∈ s.admitted) ∧
    (∀ j, (s.attempts j).fencing = true → s.permits = []) ∧
    (∀ j l rest checked, s.attempts j = .turning l rest checked → s.permits = [] ∧
      s.flying = [] ∧ l.registry = s.changes ∧
      ∀ p ∈ l.controls, p.2 = appliedTo s.applied p.1 ∧ ∀ w ∈ s.queued, w.1 ≠ p.1) ∧
    (∀ l, s.committed = some l → l.registry = s.changes ∧
      (∀ run ∈ s.runs, (run,appliedTo s.applied run) ∈ l.controls) ∧ t.committed = some l ∧
      t.changes = s.changes ∧ t.runs = s.runs ∧ t.applied = s.applied ∧ t.permits = [] ∧
      t.flying = [] ∧ t.queued = [] ∧ t.gate.phase = .sealed) ∧
    ∀ j, s.replaced = some j → s.cancelled j = false ∧ s.committed.isSome = true := by
  intro s t
  have hs : Inv s := Machine.run_invariant (fun _ e h => h.step e) Inv.start es
  refine ⟨hs.sound,hs.active,hs.flights,hs.sole,hs.phase_open,hs.changed,?_,?_,?_,?_,hs.replaced⟩
  · intro w hw
    rcases List.mem_append.mp hw with hqueued | happlied
    · exact hs.waiting w hqueued
    · exact hs.worked w happlied
  · exact fun j hj => hs.no_permits (.inl ⟨j,hj⟩)
  · intro j l rest checked hj
    have hreads := hs.turning j l rest checked hj
    exact ⟨hs.no_permits (.inl ⟨j,by rw [hj]; rfl⟩),hs.settled (.inl ⟨j,by rw [hj]; rfl⟩),
      hreads.registry,hreads.controls⟩
  · intro l hl
    have hstep : ∀ u e, Inv u ∧ Frozen s u → Inv (u.step e) ∧ Frozen s (u.step e) := by
      rintro u e ⟨hu,hcommitted,hchanges,hruns,happlied⟩
      obtain ⟨hcommitted',hchanges',hruns',happlied'⟩ := hu.frozen (hcommitted.trans hl) e
      exact ⟨hu.step e,hcommitted'.trans hcommitted,hchanges'.trans hchanges,
        hruns'.trans hruns,happlied'.trans happlied⟩
    obtain ⟨ht,hcommitted,hchanges,hruns,happlied⟩ : Inv t ∧ Frozen s t :=
      Machine.run_invariant hstep ⟨hs,rfl,rfl,rfl,rfl⟩ fs
    have htaken : t.committed = some l := hcommitted.trans hl
    have hsome : t.committed.isSome = true := by
      rw [htaken]
      rfl
    have hreads := (hs.committed l hl).1
    refine ⟨hreads.registry,fun run hrun => ?_,htaken,hchanges,hruns,happlied,
      ht.no_permits (.inr hsome),ht.settled (.inr hsome),ht.no_work htaken,
      ht.fence.mpr (.inr hsome)⟩
    rcases hreads.runs run hrun with hin | ⟨p,hp,rfl⟩
    · exact absurd hin List.not_mem_nil
    · rw [← (hreads.controls p hp).1]
      exact hp

/-- An Input whose client has gone stays queued behind the sealed gate: the first turn of the
owner gives up on it, and the next attempt hands over what it has done. -/
example : (Machine.run UpgradeSystem.step UpgradeSystem.start
    [.arrive,.launch 0,.release 0,.change 0 (some 5),.land 0,.arrive,.enqueue 1 5,.release 1,
      .begin 7 none false,.settle 7 none false,.snapshot 7 none,.inspect 7 none,.apply 5 1,
      .begin 8 none false,.settle 8 none false,.snapshot 8 none,.inspect 8 none,.check 8,
      .extract 8 none,.finish 8 none]).committed = some ⟨[0],[(5,[1])]⟩ := rfl

end Upgrade
end Ctxmux
