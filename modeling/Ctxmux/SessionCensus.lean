import Ctxmux.Machine
import Ctxmux.Worklist

/-!
# The processes of one session

A Run owns the kernel session of its first process. The daemon counts the members of a
session by descending the tree of the leader and of its own children, and passes over every
child outside the session. The kernel is a table of processes, the newest first.
-/

namespace Ctxmux
namespace Native

abbrev Pid := ℕ

structure Process where
  pid : Pid
  parent : Pid
  session : Pid
  subreaper : Bool
  zombie : Bool
deriving DecidableEq,Repr

abbrev Kernel := List Process

/-- The process that adopts where no ancestor does. -/
def initPid : Pid := 1

namespace Kernel

def find (k : Kernel) (pid : Pid) : Option Process := k.find? (·.pid = pid)

def pids (k : Kernel) : List Pid := k.map (·.pid)

/-- `getsid`; a zombie still has its session. -/
def getsid (k : Kernel) (pid : Pid) : Option Pid := (k.find pid).map (·.session)

/-- The pids that `/proc/<pid>/task/*/children` lists. -/
def children (k : Kernel) (pid : Pid) : List Pid := (k.filter (·.parent = pid)).map (·.pid)

/-- A pid is free when no process has it and no session is named by it. -/
def Free (k : Kernel) (pid : Pid) : Prop := ∀ q ∈ k, q.pid ≠ pid ∧ q.session ≠ pid

instance (k : Kernel) (pid : Pid) : Decidable (k.Free pid) :=
  inferInstanceAs (Decidable (∀ q ∈ k, q.pid ≠ pid ∧ q.session ≠ pid))

/-- The nearest ancestor, from `parent` on, that adopts the children of its descendants. -/
def adopter : Kernel → Pid → Pid
  | [], _ => initPid
  | q::older, parent =>
    if q.pid = parent then if q.subreaper then q.pid else adopter older q.parent
    else adopter older parent

end Kernel

/-- What processes do, the daemon's own children among them. -/
inductive KernelEvent where
  | fork (parent child : Pid)
  | cloneParent (caller child : Pid)
  | setsid (pid : Pid)
  | setSubreaper (pid : Pid) (on : Bool)
  | exit (pid : Pid)
  | wait (pid : Pid)
deriving DecidableEq,Repr

namespace Kernel

def spawn (k : Kernel) (child parent session : Pid) : Kernel :=
  if k.Free child ∧ child ≠ initPid then ⟨child,parent,session,false,false⟩::k else k

def update (k : Kernel) (pid : Pid) (f : Process → Process) : Kernel :=
  k.map fun q => if q.pid = pid then f q else q

/-- A process that ends stays as a zombie; its children get the nearest adopter. -/
def exit (k : Kernel) (q : Process) : Kernel :=
  k.map fun r => { r with
    parent := if r.parent = q.pid then k.adopter q.parent else r.parent
    zombie := r.zombie || r.pid == q.pid }

/-- The status of a zombie is taken, and the process is gone. -/
def remove (k : Kernel) (pid : Pid) : Kernel := k.filter (·.pid ≠ pid)

/-- One step of the kernel; the daemon neither ends nor leaves its session, and takes the
status of its own children itself. -/
def step (daemon : Pid) (k : Kernel) (e : KernelEvent) : Kernel :=
  match e with
  | .fork parent child =>
    match k.find parent with
    | some q => if q.zombie then k else k.spawn child parent q.session
    | none => k
  | .cloneParent caller child =>
    match k.find caller with
    | some q => if q.zombie then k else k.spawn child q.parent q.session
    | none => k
  | .setsid pid =>
    match k.find pid with
    | some q =>
      if q.zombie ∨ pid = daemon then k else k.update pid fun r => { r with session := pid }
    | none => k
  | .setSubreaper pid on =>
    if pid = daemon then k else k.update pid fun r => { r with subreaper := on }
  | .exit pid =>
    match k.find pid with
    | some q => if q.zombie ∨ pid = daemon then k else k.exit q
    | none => k
  | .wait pid =>
    match k.find pid with
    | some q => if q.zombie ∧ q.parent ≠ daemon then k.remove pid else k
    | none => k

/-- `in_session`. -/
def inSession (k : Kernel) (pid session : Pid) : Bool := k.getsid pid = some session

/-- `process_ids`. -/
def processIds (k : Kernel) : List Pid := k.pids

def isChildSubreaper (k : Kernel) (daemon : Pid) : Bool := (k.find daemon).any (·.subreaper)

/-- The walk descends into children of the session other than the leader. -/
def tree (k : Kernel) (leader session : Pid) : Worklist.Graph Pid where
  next := k.children
  keep pid := decide (pid ≠ leader) && k.inSession pid session
  nodes := k.pids
  kept pid h := by
    simp only [Bool.and_eq_true,inSession,getsid,find,decide_eq_true_eq,Option.map_eq_some_iff] at h
    obtain ⟨-,q,hq,-⟩ := h
    have hpid : q.pid = pid := by simpa using List.find?_some hq
    exact List.mem_map.mpr ⟨q,List.mem_of_find?_eq_some hq,hpid⟩

def sessionCandidates (k : Kernel) (daemon leader : Pid) : List Pid :=
  if k.isChildSubreaper daemon then
    match k.getsid leader with
    | none => k.processIds
    | some session => (k.tree leader session).search (k.children daemon) [] [leader]
  else k.processIds

/-- The daemon takes the statuses of the candidates that ended as its own children. -/
def reapInheritedOrphans (k : Kernel) (daemon leader : Pid) : List Pid → Kernel
  | [] => k
  | candidate::candidates =>
    if candidate ≠ leader ∧ k.getsid candidate = some leader ∧
        (k.find candidate).any (fun q => q.zombie && q.parent == daemon) then
      (k.remove candidate).reapInheritedOrphans daemon leader candidates
    else k.reapInheritedOrphans daemon leader candidates

def classifyMembers (k : Kernel) (leader : Pid) (includeLeader : Bool) (ids : List Pid) :
    List Pid :=
  ids.filter fun pid => k.getsid pid = some leader ∧ (includeLeader ∨ pid ≠ leader)

/-- `members`: the candidates are taken, the orphans among them are reaped, and those that
still are in the session are counted. -/
def members (k : Kernel) (daemon leader : Pid) (includeLeader : Bool) : List Pid × Kernel :=
  let candidates := k.sessionCandidates daemon leader
  let reaped := k.reapInheritedOrphans daemon leader candidates
  (reaped.classifyMembers leader includeLeader candidates,reaped)

variable {k : Kernel} {daemon leader pid : Pid}

theorem mem_of_find {q : Process} (h : k.find pid = some q) : q ∈ k ∧ q.pid = pid :=
  ⟨List.mem_of_find?_eq_some h,by simpa using List.find?_some h⟩

theorem find_of_mem (hk : k.pids.Nodup) {q : Process} (hq : q ∈ k) : k.find q.pid = some q := by
  induction k with
  | nil => exact absurd hq List.not_mem_nil
  | cons r k ih =>
    simp only [pids,List.map_cons,List.nodup_cons] at hk
    rcases List.mem_cons.mp hq with rfl | hmem
    · simp [find]
    · have hne : r.pid ≠ q.pid := fun heq => hk.1 (heq ▸ List.mem_map_of_mem hmem)
      simpa [find,hne] using ih hk.2 hmem

theorem eq_of_pid (hk : k.pids.Nodup) {q r : Process} (hq : q ∈ k) (hr : r ∈ k)
    (h : q.pid = r.pid) : q = r := by
  have hfind := find_of_mem hk hq
  rw [h,find_of_mem hk hr] at hfind
  exact (Option.some.inj hfind).symm

theorem getsid_iff (hk : k.pids.Nodup) {session : Pid} :
    k.getsid pid = some session ↔ ∃ q ∈ k, q.pid = pid ∧ q.session = session := by
  constructor
  · intro h
    obtain ⟨q,hq,hsession⟩ := Option.map_eq_some_iff.mp h
    obtain ⟨hmem,hpid⟩ := mem_of_find hq
    exact ⟨q,hmem,hpid,hsession⟩
  · rintro ⟨q,hmem,rfl,rfl⟩
    simp [getsid,find_of_mem hk hmem]

theorem mem_children {parent : Pid} :
    pid ∈ k.children parent ↔ ∃ q ∈ k, q.parent = parent ∧ q.pid = pid := by
  simp [children,and_assoc]

/-- A member of the session that the walk comes to: the leader, and what hangs on it or on
the daemon through members only. -/
def Linked (k : Kernel) (daemon leader pid : Pid) : Prop :=
  ∃ s, (s = leader ∨ s ∈ k.children daemon ∧ (k.tree leader leader).keep s = true) ∧
    (k.tree leader leader).Reach s pid

theorem keep_iff {leader session : Pid} : (k.tree leader session).keep pid = true ↔
    pid ≠ leader ∧ k.getsid pid = some session := by
  simp [tree,inSession]

theorem linked_leader : k.Linked daemon leader leader := ⟨leader,.inl rfl,.refl⟩

theorem Linked.of_daemon (hparent : pid ∈ k.children daemon)
    (hsession : k.getsid pid = some leader) : k.Linked daemon leader pid := by
  by_cases hleader : pid = leader
  · subst hleader
    exact linked_leader
  · exact ⟨pid,.inr ⟨hparent,keep_iff.mpr ⟨hleader,hsession⟩⟩,.refl⟩

theorem Linked.child {parent : Pid} (h : k.Linked daemon leader parent)
    (hparent : pid ∈ k.children parent) (hsession : k.getsid pid = some leader) :
    k.Linked daemon leader pid := by
  by_cases hleader : pid = leader
  · subst hleader
    exact linked_leader
  · obtain ⟨s,hs,hreach⟩ := h
    exact ⟨s,hs,hreach.tail ⟨hparent,keep_iff.mpr ⟨hleader,hsession⟩⟩⟩

/-- The walk finds the linked members and no other process. -/
theorem mem_sessionCandidates (hsubreaper : k.isChildSubreaper daemon = true)
    (hleader : k.getsid leader = some leader) :
    pid ∈ k.sessionCandidates daemon leader ↔ k.Linked daemon leader pid := by
  simp only [sessionCandidates,hsubreaper,hleader,if_true]
  exact (k.tree leader leader).mem_search

theorem sessionCandidates_nodup (hk : k.pids.Nodup) :
    (k.sessionCandidates daemon leader).Nodup := by
  unfold sessionCandidates
  split
  · split
    · exact hk
    · exact Worklist.Graph.search_nodup _ _ _ _ (by simp)
  · exact hk

theorem mem_classifyMembers {includeLeader : Bool} {ids : List Pid} :
    pid ∈ k.classifyMembers leader includeLeader ids ↔
      pid ∈ ids ∧ k.getsid pid = some leader ∧ (includeLeader = true ∨ pid ≠ leader) := by
  simp [classifyMembers]

theorem classifyMembers_nodup {ids : List Pid} (h : ids.Nodup) (includeLeader : Bool) :
    (k.classifyMembers leader includeLeader ids).Nodup := h.filter _

theorem mem_hostMembers {includeLeader : Bool} :
    pid ∈ k.classifyMembers leader includeLeader k.processIds ↔
      k.getsid pid = some leader ∧ (includeLeader = true ∨ pid ≠ leader) := by
  rw [mem_classifyMembers,and_iff_right_iff_imp]
  rintro ⟨hsession,-⟩
  obtain ⟨q,hq,-⟩ := Option.map_eq_some_iff.mp hsession
  obtain ⟨hmem,rfl⟩ := mem_of_find hq
  exact List.mem_map_of_mem hmem

end Kernel
end Native
end Ctxmux
