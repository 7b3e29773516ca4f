import Ctxmux.SessionRuns

/-!
# A census among moving processes

A census is many system calls, and processes fork, end and move between any two of them.
Here each call is a step of its own: the children of one process are read, one child is
looked up, one candidate is checked, one status is waited for. A member that is born or
gets another parent behind the reader may be missed; when none does, a census that ends has
seen every member.
-/

namespace Ctxmux
namespace Native

open Kernel

/-- Where a census stands. `expanded` and `pending` are the candidates before and from the
cursor on; between its check and its `waitpid` a candidate is kept as it was `seen`. -/
inductive Census where
  | expanding (session : Pid) (expanded pending frontier : List Pid)
  | filtering (session : Pid) (expanded pending frontier : List Pid)
  | reaping (candidates rest : List Pid)
  | waiting (candidates rest : List Pid) (seen : Process)
  | classifying (rest members : List Pid)
  | counted (members : List Pid)
deriving DecidableEq,Repr

/-- A status that was taken, with the process as it was last looked at. -/
structure Taken where
  seen : Process
  process : Process
deriving DecidableEq,Repr

namespace Census

/-- `session_candidates` up to the first turn of its loop. -/
def start (k : Kernel) (daemon leader : Pid) : Census :=
  if k.isChildSubreaper daemon then
    match k.getsid leader with
    | none => .reaping k.processIds k.processIds
    | some session => .expanding session [] [leader] (k.children daemon)
  else .reaping k.processIds k.processIds

/-- The next call of a census that does not count the leader. -/
def next (k : Kernel) (leader : Pid) : Census → Census
  | .expanding session expanded (pid::pending) frontier =>
    .filtering session (expanded ++ [pid]) pending (frontier ++ k.children pid)
  | .expanding _ expanded [] _ => .reaping expanded expanded
  | .filtering session expanded pending (child::frontier) =>
    if child ≠ leader ∧ k.inSession child session ∧ child ∉ expanded ++ pending then
      .filtering session expanded (pending ++ [child]) frontier
    else .filtering session expanded pending frontier
  | .filtering session expanded pending [] => .expanding session expanded pending []
  | .reaping candidates (candidate::rest) =>
    if candidate = leader then .reaping candidates rest
    else
      match k.find candidate with
      | some q =>
        if q.session = leader then .waiting candidates rest q else .reaping candidates rest
      | none => .reaping candidates rest
  | .reaping candidates [] => .classifying candidates []
  | .waiting candidates rest _ => .reaping candidates rest
  | .classifying (candidate::rest) members =>
    if k.getsid candidate = some leader ∧ candidate ≠ leader then
      .classifying rest (members ++ [candidate])
    else .classifying rest members
  | .classifying [] members => .counted members
  | .counted members => .counted members

/-- The status that the next call takes: that of a child of the daemon which has ended. -/
def takes (k : Kernel) (daemon : Pid) : Census → Option Taken
  | .waiting _ _ seen =>
    ((k.find seen.pid).filter fun q => q.zombie && q.parent == daemon).map (⟨seen,·⟩)
  | _ => none

/-- The calls that may fail with an error of their own. -/
def fallible : Census → Bool
  | .reaping _ _ | .waiting _ _ _ | .classifying _ _ => true
  | _ => false

variable {daemon leader : Pid} {k : Kernel} {c : Census} {t : Taken}

theorem takes_iff : c.takes k daemon = some t ↔ ∃ candidates rest, c = .waiting candidates rest t.seen ∧
    k.find t.seen.pid = some t.process ∧ t.process.zombie = true ∧ t.process.parent = daemon := by
  cases c with
  | waiting candidates rest seen =>
    simp only [takes,Option.map_eq_some_iff,Option.filter_eq_some_iff,Bool.and_eq_true,beq_iff_eq]
    constructor
    · rintro ⟨q,⟨hfind,hended⟩,rfl⟩
      exact ⟨candidates,rest,rfl,hfind,hended⟩
    · rintro ⟨_,_,heq,hfind,hended⟩
      cases heq
      exact ⟨t.process,⟨hfind,hended⟩,rfl⟩
  | _ => simp [takes]

/-- The candidate that is waited for was a member other than the leader. -/
def Asked (leader : Pid) : Census → Prop
  | .waiting _ _ seen => seen.session = leader ∧ seen.pid ≠ leader
  | _ => True

theorem asked_start : Asked leader (start k daemon leader) := by
  unfold start
  split
  · split <;> trivial
  · trivial

theorem asked_next (k : Kernel) (c : Census) : Asked leader (c.next k leader) := by
  cases c with
  | expanding session expanded pending frontier => cases pending <;> trivial
  | filtering session expanded pending frontier =>
    cases frontier with
    | nil => trivial
    | cons child frontier =>
      rw [next]
      split <;> trivial
  | reaping candidates rest =>
    cases rest with
    | nil => trivial
    | cons candidate rest =>
      rw [next]
      split
      · trivial
      · rename_i hne
        split
        · rename_i q hfind
          obtain ⟨-,rfl⟩ := mem_of_find hfind
          split
          · rename_i hsession
            exact ⟨hsession,hne⟩
          · trivial
        · trivial
  | waiting candidates rest seen => trivial
  | classifying rest members =>
    cases rest with
    | nil => trivial
    | cons candidate rest =>
      rw [next]
      split <;> trivial
  | counted members => trivial

/-- A member of the session other than its leader. -/
def Member (leader : Pid) (q : Process) : Prop := q.session = leader ∧ q.pid ≠ leader

instance (leader : Pid) (q : Process) : Decidable (Member leader q) :=
  inferInstanceAs (Decidable (q.session = leader ∧ q.pid ≠ leader))

/-- The children of the daemon and of the expanded candidates were read, and what was read
and is a member waits to be looked up or is a candidate. -/
structure Read (daemon leader : Pid) (k : Kernel) (session : Pid)
    (expanded pending frontier : List Pid) : Prop where
  session : session = leader
  rooted : leader ∈ expanded ++ pending
  closed : ∀ q ∈ k, Member leader q → q.parent = daemon ∨ q.parent ∈ expanded →
    q.pid ∈ expanded ++ pending ∨ q.pid ∈ frontier

/-- What a census has seen of the members. -/
def Sees (daemon leader : Pid) (k : Kernel) : Census → Prop
  | .expanding session expanded pending frontier =>
    Read daemon leader k session expanded pending frontier ∧ (pending = [] → frontier = [])
  | .filtering session expanded pending frontier =>
    Read daemon leader k session expanded pending frontier
  | .reaping candidates _ => ∀ q ∈ k, Member leader q → q.pid ∈ candidates
  | .waiting candidates _ _ => ∀ q ∈ k, Member leader q → q.pid ∈ candidates
  | .classifying rest members => ∀ q ∈ k, Member leader q → q.pid ∈ rest ∨ q.pid ∈ members
  | .counted members => ∀ q ∈ k, Member leader q → q.pid ∈ members

/-- No member is new, and none has another parent. -/
def Still (leader : Pid) (k k' : Kernel) : Prop :=
  ∀ r ∈ k', Member leader r → ∃ q ∈ k, Member leader q ∧ q.pid = r.pid ∧ q.parent = r.parent

instance (leader : Pid) (k k' : Kernel) : Decidable (Still leader k k') :=
  inferInstanceAs (Decidable
    (∀ r ∈ k', Member leader r → ∃ q ∈ k, Member leader q ∧ q.pid = r.pid ∧ q.parent = r.parent))

/-- Members may end or leave while a census is under way. -/
theorem Sees.still {k' : Kernel} (h : Sees daemon leader k c) (hstill : Still leader k k') :
    Sees daemon leader k' c := by
  have hread : ∀ {session : Pid} {expanded pending frontier : List Pid},
      Read daemon leader k session expanded pending frontier →
      Read daemon leader k' session expanded pending frontier := fun hr =>
    { hr with
      closed := fun r hmem hmember hparent => by
        obtain ⟨q,hq,hmember',hpid,hsame⟩ := hstill r hmem hmember
        rw [← hpid]
        exact hr.closed q hq hmember' (hsame ▸ hparent) }
  have hcandidate : ∀ p : Pid → Prop, (∀ q ∈ k, Member leader q → p q.pid) →
      ∀ r ∈ k', Member leader r → p r.pid := fun p hp r hmem hmember => by
    obtain ⟨q,hq,hmember',hpid,-⟩ := hstill r hmem hmember
    exact hpid ▸ hp q hq hmember'
  cases c with
  | expanding session expanded pending frontier => exact ⟨hread h.1,h.2⟩
  | filtering session expanded pending frontier => exact hread h
  | reaping candidates rest => exact hcandidate (· ∈ candidates) h
  | waiting candidates rest seen => exact hcandidate (· ∈ candidates) h
  | classifying rest members => exact hcandidate (fun pid => pid ∈ rest ∨ pid ∈ members) h
  | counted members => exact hcandidate (· ∈ members) h

/-- A walk that comes to its end has found every member. -/
theorem Read.found (hk : k.pids.Nodup) (hrooted : Rooted daemon leader k) {session : Pid}
    {expanded : List Pid} (h : Read daemon leader k session expanded [] []) {q : Process}
    (hq : q ∈ k) (hmember : Member leader q) : q.pid ∈ expanded := by
  have hclosed : ∀ r ∈ k, Member leader r → r.parent = daemon ∨ r.parent ∈ expanded →
      r.pid ∈ expanded := fun r hr hmember hparent => by
    have hmem := h.closed r hr hmember hparent
    simpa using hmem
  have hleader : leader ∈ expanded := by simpa using h.rooted
  have hedge : ∀ {parent pid : Pid}, pid ∈ k.children parent →
      (k.tree leader leader).keep pid = true → (parent = daemon ∨ parent ∈ expanded) →
      pid ∈ expanded := fun hchild hkeep hparent => by
    obtain ⟨hne,hsid⟩ := keep_iff.mp hkeep
    obtain ⟨r,hr,rfl,rfl⟩ := mem_children.mp hchild
    obtain ⟨r',hr',hpid,hsession⟩ := (getsid_iff hk).mp hsid
    obtain rfl := eq_of_pid hk hr' hr hpid
    exact hclosed r' hr ⟨hsession,hne⟩ hparent
  obtain ⟨s,hs,hreach⟩ := hrooted.linked_of_getsid hk
    ((getsid_iff hk).mpr ⟨q,hq,rfl,hmember.1⟩)
  generalize q.pid = pid at hreach
  induction hreach with
  | refl =>
    rcases hs with rfl | ⟨hchild,hkeep⟩
    · exact hleader
    · exact hedge hchild hkeep (.inl rfl)
  | tail _ hstep ih => exact hedge hstep.1 hstep.2 (.inr ih)

theorem sees_start (h : Held daemon leader k) : Sees daemon leader k (start k daemon leader) := by
  rw [start,if_pos h.subreaper,h.getsid_leader]
  refine ⟨⟨rfl,List.mem_singleton_self _,fun q hq _ hparent => .inr ?_⟩,fun hnil => (by cases hnil)⟩
  rcases hparent with hdaemon | hnone
  · exact mem_children.mpr ⟨q,hq,hdaemon,rfl⟩
  · exact absurd hnone List.not_mem_nil

theorem Sees.next (hk : k.pids.Nodup) (hrooted : Rooted daemon leader k)
    (h : Sees daemon leader k c) : Sees daemon leader k (c.next k leader) := by
  cases c with
  | expanding session expanded pending frontier =>
    obtain ⟨hread,hempty⟩ := h
    cases pending with
    | nil =>
      rw [hempty rfl] at hread
      exact fun q hq hmember => hread.found hk hrooted hq hmember
    | cons pid pending =>
      refine ⟨hread.session,by simpa using hread.rooted,fun q hq hmember hparent => ?_⟩
      have hold : q.parent = daemon ∨ q.parent ∈ expanded →
          q.pid ∈ expanded ++ [pid] ++ pending ∨ q.pid ∈ frontier ++ k.children pid := fun hp => by
        rcases hread.closed q hq hmember hp with hin | hin
        · exact .inl (by simpa using hin)
        · exact .inr (List.mem_append_left _ hin)
      rcases hparent with hdaemon | hin
      · exact hold (.inl hdaemon)
      · rcases List.mem_append.mp hin with hbefore | hthis
        · exact hold (.inr hbefore)
        · have hchild : q.pid ∈ k.children pid :=
            mem_children.mpr ⟨q,hq,List.mem_singleton.mp hthis,rfl⟩
          exact .inr (List.mem_append_right _ hchild)
  | filtering session expanded pending frontier =>
    cases frontier with
    | nil => exact ⟨h,fun _ => rfl⟩
    | cons child frontier =>
      rw [Census.next]
      split
      · refine ⟨h.session,by simpa [← List.append_assoc] using Or.inl h.rooted,
          fun q hq hmember hparent => ?_⟩
        rcases h.closed q hq hmember hparent with hin | hin
        · exact .inl (by rw [← List.append_assoc]; exact List.mem_append_left _ hin)
        · rcases List.mem_cons.mp hin with rfl | hlater
          · exact .inl (by simp)
          · exact .inr hlater
      · rename_i hpassed
        refine ⟨h.session,h.rooted,fun q hq hmember hparent => ?_⟩
        rcases h.closed q hq hmember hparent with hin | hin
        · exact .inl hin
        · rcases List.mem_cons.mp hin with rfl | hlater
          · -- a member is passed over only as a candidate that is known
            left
            by_contra hnew
            refine hpassed ⟨hmember.2,?_,hnew⟩
            rw [h.session]
            simpa [inSession] using (getsid_iff hk).mpr ⟨q,hq,rfl,hmember.1⟩
          · exact .inr hlater
  | reaping candidates rest =>
    cases rest with
    | nil => exact fun q hq hmember => .inl (h q hq hmember)
    | cons candidate rest =>
      rw [Census.next]
      split
      · exact h
      · split
        · split <;> exact h
        · exact h
  | waiting candidates rest seen => exact h
  | classifying rest members =>
    cases rest with
    | nil => exact fun q hq hmember => (h q hq hmember).resolve_left List.not_mem_nil
    | cons candidate rest =>
      rw [Census.next]
      split
      · intro q hq hmember
        rcases h q hq hmember with hin | hin
        · rcases List.mem_cons.mp hin with rfl | hlater
          · exact .inr (by simp)
          · exact .inl hlater
        · exact .inr (List.mem_append_left _ hin)
      · rename_i hgone
        intro q hq hmember
        rcases h q hq hmember with hin | hin
        · rcases List.mem_cons.mp hin with rfl | hlater
          · exact absurd ⟨(getsid_iff hk).mpr ⟨q,hq,rfl,hmember.1⟩,hmember.2⟩ hgone
          · exact .inl hlater
        · exact .inr hin
  | counted members => exact h

end Census

end Native
end Ctxmux
