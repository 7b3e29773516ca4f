import Mathlib.Data.List.Perm.Subperm
import Ctxmux.SessionTree

/-!
# What a census counts, whatever the processes do

The runs of the kernel, with a census of the daemon at any point of them: what is kept by
each step, and what each census counts and reaps. Here a census is one step, in which no
process moves; the daemon's waits for children outside the session are no events.
-/

namespace Ctxmux
namespace Native
namespace Kernel

variable {daemon leader : Pid} {k : Kernel} {q : Process}

theorem mem_spawn {child parent session : Pid} (h : q ∈ k.spawn child parent session) :
    q ∈ k ∨ q = ⟨child,parent,session,false,false⟩ ∧ k.Free child := by
  unfold spawn at h
  split at h
  · rename_i hfree
    rcases List.mem_cons.mp h with rfl | hmem
    · exact .inr ⟨rfl,hfree.1⟩
    · exact .inl hmem
  · exact .inl h

theorem subset_spawn {child parent session : Pid} : k ⊆ k.spawn child parent session := by
  unfold spawn
  split
  · exact List.subset_cons_self _ _
  · exact List.Subset.refl _

theorem Held.spawn (h : Held daemon leader k) (child parent session : Pid) :
    Held daemon leader (k.spawn child parent session) where
  nodup := by
    unfold Kernel.spawn
    split
    · rename_i hfree
      simp only [pids,List.map_cons,List.nodup_cons]
      refine ⟨fun hmem => ?_,h.nodup⟩
      obtain ⟨q,hq,hpid⟩ := List.mem_map.mp hmem
      exact (hfree.1 q hq).1 hpid
    · exact h.nodup
  leads := by
    obtain ⟨q,hq,hleader⟩ := h.leads
    exact ⟨q,subset_spawn hq,hleader⟩
  serves := by
    obtain ⟨d,hd,hdaemon⟩ := h.serves
    exact ⟨d,subset_spawn hd,hdaemon⟩

theorem Rooted.spawn (h : Rooted daemon leader k) {child parent session : Pid}
    (htied : session = leader → ∃ r ∈ k, r.pid = parent ∧ Good daemon leader r) :
    Rooted daemon leader (k.spawn child parent session) := by
  unfold Kernel.spawn
  split
  · exact ⟨htied,h⟩
  · exact h

theorem pids_map {f : Process → Process} (hf : ∀ q, (f q).pid = q.pid) :
    pids (k.map f) = k.pids := by
  simp [pids,hf]

theorem Held.map (h : Held daemon leader k) {f : Process → Process} (hf : ∀ q, (f q).pid = q.pid)
    (hleader : ∀ q ∈ k, q.pid = leader → q.session = leader → q.parent = daemon →
      (f q).session = leader ∧ (f q).parent = daemon)
    (hdaemon : ∀ d ∈ k, d.pid = daemon → d.zombie = false → d.subreaper = true →
      (f d).session = d.session ∧ (f d).zombie = false ∧ (f d).subreaper = true) :
    Held daemon leader (k.map f) where
  nodup := by
    rw [pids_map hf]
    exact h.nodup
  leads := by
    obtain ⟨q,hq,hpid,hsession,hparent⟩ := h.leads
    exact ⟨f q,List.mem_map_of_mem hq,(hf q).trans hpid,hleader q hq hpid hsession hparent⟩
  serves := by
    obtain ⟨d,hd,hpid,hother,hzombie,hsubreaper⟩ := h.serves
    obtain ⟨hsession,hstays⟩ := hdaemon d hd hpid hzombie hsubreaper
    exact ⟨f d,List.mem_map_of_mem hd,(hf d).trans hpid,hsession ▸ hother,hstays⟩

theorem Held.filter (h : Held daemon leader k) {p : Process → Bool}
    (hleader : ∀ q ∈ k, q.pid = leader → q.parent = daemon → p q = true)
    (hdaemon : ∀ q ∈ k, q.zombie = false → p q = true) : Held daemon leader (k.filter p) where
  nodup := h.nodup.sublist (List.filter_sublist.map _)
  leads := by
    obtain ⟨q,hq,hpid,hsession,hparent⟩ := h.leads
    exact ⟨q,List.mem_filter.mpr ⟨hq,hleader q hq hpid hparent⟩,hpid,hsession,hparent⟩
  serves := by
    obtain ⟨d,hd,hpid,hother,hzombie,hsubreaper⟩ := h.serves
    exact ⟨d,List.mem_filter.mpr ⟨hd,hdaemon d hd hzombie⟩,hpid,hother,hzombie,hsubreaper⟩

theorem Held.remove (h : Held daemon leader k) (hq : q ∈ k) (hzombie : q.zombie = true)
    (hparent : q.parent ≠ daemon) :
    Held daemon leader (k.remove q.pid) := by
  apply h.filter
  · intro r hr hleader hdaemon
    have hne : r.pid ≠ q.pid := fun heq => hparent (eq_of_pid h.nodup hr hq heq ▸ hdaemon)
    simp [hne]
  · intro r hr hlive
    have hne : r.pid ≠ q.pid := fun heq => by
      rw [eq_of_pid h.nodup hr hq heq,hzombie] at hlive
      cases hlive
    simp [hne]

theorem Rooted.remove (hk : k.pids.Nodup) (h : Rooted daemon leader k) (hq : q ∈ k)
    (hzombie : q.zombie = true) : Rooted daemon leader (k.remove q.pid) := by
  apply h.filter
  intro r hr hlive
  have hne : r.pid ≠ q.pid := fun heq => by
    rw [eq_of_pid hk hr hq heq,hzombie] at hlive
    cases hlive
  simp [hne]

theorem Held.step (h : Held daemon leader k) (e : KernelEvent) :
    Held daemon leader (k.step daemon e) := by
  cases e with
  | fork parent child =>
    dsimp only [Kernel.step]
    split
    · split
      · exact h
      · exact h.spawn _ _ _
    · exact h
  | cloneParent caller child =>
    dsimp only [Kernel.step]
    split
    · split
      · exact h
      · exact h.spawn _ _ _
    · exact h
  | setsid pid =>
    dsimp only [Kernel.step]
    split
    · split
      · exact h
      · rename_i hgoes
        have hne : pid ≠ daemon := fun heq => hgoes (.inr heq)
        apply h.map
        · intro q
          split <;> rfl
        · intro q _ hpid hsession hparent
          by_cases hq : q.pid = pid
          · simp [hq.symm,hpid,hparent]
          · simp [hq,hsession,hparent]
        · intro d _ hpid hzombie hsubreaper
          have hd : d.pid ≠ pid := fun heq => hne (heq.symm.trans hpid)
          simp [hd,hzombie,hsubreaper]
    · exact h
  | setSubreaper pid on =>
    dsimp only [Kernel.step]
    split
    · exact h
    · rename_i hne
      apply h.map
      · intro q
        split <;> rfl
      · intro q _ _ hsession hparent
        by_cases hq : q.pid = pid <;> simp [hq,hsession,hparent]
      · intro d _ hpid hzombie hsubreaper
        have hd : d.pid ≠ pid := fun heq => hne (heq.symm.trans hpid)
        simp [hd,hzombie,hsubreaper]
  | exit pid =>
    dsimp only [Kernel.step]
    split
    · rename_i q hfind
      split
      · exact h
      · rename_i hgoes
        have hne : q.pid ≠ daemon := fun heq => hgoes (.inr ((mem_of_find hfind).2 ▸ heq))
        apply h.map
        · exact fun _ => rfl
        · intro r _ _ hsession hparent
          have hstays : r.parent ≠ q.pid := fun heq => hne (heq.symm.trans hparent)
          exact ⟨hsession,by rw [if_neg hstays,hparent]⟩
        · intro d _ hpid hzombie hsubreaper
          have hd : d.pid ≠ q.pid := fun heq => hne (heq.symm.trans hpid)
          exact ⟨rfl,by simp [hzombie,hd],hsubreaper⟩
    · exact h
  | wait pid =>
    dsimp only [Kernel.step]
    split
    · rename_i q hfind
      obtain ⟨hq,rfl⟩ := mem_of_find hfind
      split
      · rename_i hgone
        exact h.remove hq hgone.1 hgone.2
      · exact h
    · exact h

/-- A process that leaves the session with a child in it. -/
def Deserts (leader : Pid) (k : Kernel) (pid : Pid) : Prop :=
  pid ≠ leader ∧ k.getsid pid = some leader ∧ ∃ q ∈ k, q.parent = pid ∧ q.session = leader

instance (leader : Pid) (k : Kernel) (pid : Pid) : Decidable (Deserts leader k pid) :=
  inferInstanceAs (Decidable
    (pid ≠ leader ∧ k.getsid pid = some leader ∧ ∃ q ∈ k, q.parent = pid ∧ q.session = leader))

/-- Nobody deserts in this step. -/
def Stays (leader : Pid) (k : Kernel) : KernelEvent → Prop
  | .setsid pid => ¬ Deserts leader k pid
  | _ => True

instance (leader : Pid) (k : Kernel) : (e : KernelEvent) → Decidable (Stays leader k e)
  | .setsid pid => inferInstanceAs (Decidable (¬ Deserts leader k pid))
  | .fork _ _ => inferInstanceAs (Decidable True)
  | .cloneParent _ _ => inferInstanceAs (Decidable True)
  | .setSubreaper _ _ => inferInstanceAs (Decidable True)
  | .exit _ => inferInstanceAs (Decidable True)
  | .wait _ => inferInstanceAs (Decidable True)

theorem Rooted.step (hheld : Held daemon leader k) (h : Rooted daemon leader k) (e : KernelEvent)
    (hstays : Stays leader k e) : Rooted daemon leader (k.step daemon e) := by
  cases e with
  | fork parent child =>
    dsimp only [Kernel.step]
    split
    · rename_i q hfind
      obtain ⟨hq,rfl⟩ := mem_of_find hfind
      split
      · exact h
      · rename_i hlive
        exact h.spawn fun hsession => ⟨q,hq,rfl,by simpa using hlive,.inr hsession⟩
    · exact h
  | cloneParent caller child =>
    dsimp only [Kernel.step]
    split
    · rename_i q hfind
      obtain ⟨hq,rfl⟩ := mem_of_find hfind
      split
      · exact h
      · exact h.spawn fun hsession => h.tied hq hsession
    · exact h
  | setsid pid =>
    dsimp only [Kernel.step]
    split
    · rename_i p hfind
      obtain ⟨hp,rfl⟩ := mem_of_find hfind
      split
      · exact h
      · rename_i hgoes
        by_cases hleader : p.pid = leader
        · -- the leader has its own session already
          obtain ⟨l,hl,hlpid,hlsession,-⟩ := hheld.leads
          have hsame : k.update p.pid (fun r => { r with session := p.pid }) = k := by
            refine (List.map_congr_left fun q hq => ?_).trans (List.map_id k)
            by_cases heq : q.pid = p.pid
            · obtain rfl := eq_of_pid hheld.nodup hl hq (by rw [hlpid,heq,hleader])
              rw [if_pos heq,← heq,hlpid,← hlsession]
              rfl
            · rw [if_neg heq]
              rfl
          rwa [hsame]
        · have hother : p.pid ≠ daemon := fun heq => hgoes (.inr heq)
          apply h.map
          · intro q hq
            by_cases heq : q.pid = p.pid
            · simp [heq,hleader] at hq
            · simpa [heq] using hq
          · intro q hq r hr hsession _ hparent hgood
            by_cases heq : r.pid = p.pid
            · -- then `q` is a child that the process leaves behind
              have hmember : r.session = leader := by
                rcases hgood.2 with ⟨hd,-⟩ | hmember
                · exact absurd (heq.symm.trans hd) hother
                · exact hmember
              refine absurd ⟨hleader,?_,q,hq,?_,hsession⟩ hstays
              · exact (getsid_iff hheld.nodup).mpr ⟨r,hr,heq,hmember⟩
              · exact hparent.symm.trans heq
            · simpa [heq] using hgood
    · exact h
  | setSubreaper pid on =>
    dsimp only [Kernel.step]
    split
    · exact h
    · rename_i hne
      apply h.map
      · intro q hq
        by_cases heq : q.pid = pid
        · simpa [heq] using hq
        · simpa [heq] using hq
      · intro q _ r _ _ _ _ hgood
        by_cases heq : r.pid = pid
        · have hdaemon : r.pid ≠ daemon := fun hd => hne (heq.symm.trans hd)
          refine ⟨by simp [heq],by simpa [heq] using hgood.1,.inr ?_⟩
          rcases hgood.2 with ⟨hd,-⟩ | hsession
          · exact absurd hd hdaemon
          · simpa [heq] using hsession
        · simpa [heq] using hgood
  | exit pid =>
    dsimp only [Kernel.step]
    split
    · rename_i q hfind
      obtain ⟨hq,rfl⟩ := mem_of_find hfind
      split
      · exact h
      · rename_i hgoes
        exact h.exit hheld.nodup hq fun heq => hgoes (.inr heq)
    · exact h
  | wait pid =>
    dsimp only [Kernel.step]
    split
    · rename_i q hfind
      obtain ⟨hq,rfl⟩ := mem_of_find hfind
      split
      · rename_i hgone
        exact h.remove hheld.nodup hq hgone.1
      · exact h
    · exact h

/-- A member that ended as a child of the daemon, which nobody else waits for. -/
def orphaned (daemon leader : Pid) (q : Process) : Bool :=
  decide (q.pid ≠ leader) && decide (q.session = leader) && q.zombie && q.parent == daemon

theorem orphaned_iff : orphaned daemon leader q = true ↔
    q.pid ≠ leader ∧ q.session = leader ∧ q.zombie = true ∧ q.parent = daemon := by
  simp [orphaned,and_assoc]

/-- A census takes the statuses of the orphaned members among its candidates, and no other. -/
theorem reapInheritedOrphans_eq (hk : k.pids.Nodup) (candidates : List Pid) :
    k.reapInheritedOrphans daemon leader candidates =
      k.filter fun q => !(orphaned daemon leader q && candidates.contains q.pid) := by
  induction candidates generalizing k with
  | nil => simp [reapInheritedOrphans]
  | cons candidate candidates ih =>
    have hreaped : (candidate ≠ leader ∧ k.getsid candidate = some leader ∧
        (k.find candidate).any (fun q => q.zombie && q.parent == daemon) = true) ↔
        ∃ q ∈ k, q.pid = candidate ∧ orphaned daemon leader q = true := by
      constructor
      · rintro ⟨hne,hsession,hany⟩
        obtain ⟨q,hq,rfl,hsid⟩ := (getsid_iff hk).mp hsession
        rw [find_of_mem hk hq] at hany
        simp only [Option.any_some,Bool.and_eq_true,beq_iff_eq] at hany
        exact ⟨q,hq,rfl,orphaned_iff.mpr ⟨hne,hsid,hany⟩⟩
      · rintro ⟨q,hq,rfl,horphan⟩
        obtain ⟨hne,hsid,hzombie,hparent⟩ := orphaned_iff.mp horphan
        exact ⟨hne,(getsid_iff hk).mpr ⟨q,hq,rfl,hsid⟩,by simp [find_of_mem hk hq,hzombie,hparent]⟩
    rw [reapInheritedOrphans]
    by_cases hcase : ∃ q ∈ k, q.pid = candidate ∧ orphaned daemon leader q = true
    · obtain ⟨q,hq,rfl,horphan⟩ := hcase
      have hrest : (k.remove q.pid).pids.Nodup := hk.sublist (List.filter_sublist.map _)
      rw [if_pos (hreaped.mpr ⟨q,hq,rfl,horphan⟩),ih hrest,remove,List.filter_filter]
      apply List.filter_congr
      intro r hr
      by_cases heq : r.pid = q.pid
      · obtain rfl := eq_of_pid hk hr hq heq
        simp [horphan]
      · simp [heq]
    · rw [if_neg (mt hreaped.mp hcase),ih hk]
      apply List.filter_congr
      intro r hr
      by_cases heq : r.pid = candidate
      · have hnot : orphaned daemon leader r = false := by
          by_contra hyes
          exact hcase ⟨r,hr,heq,by simpa using hyes⟩
        simp [hnot]
      · simp [heq]

theorem Held.reaped (h : Held daemon leader k) (candidates : List Pid) :
    Held daemon leader (k.reapInheritedOrphans daemon leader candidates) := by
  rw [reapInheritedOrphans_eq h.nodup]
  apply h.filter
  · intro q _ hleader _
    simp [orphaned,hleader]
  · intro q _ hlive
    simp [orphaned,hlive]

theorem Rooted.reaped (hk : k.pids.Nodup) (h : Rooted daemon leader k) (candidates : List Pid) :
    Rooted daemon leader (k.reapInheritedOrphans daemon leader candidates) := by
  rw [reapInheritedOrphans_eq hk]
  apply h.filter
  intro q _ hlive
  simp [orphaned,hlive]

/-- What a census counts: the linked members that it has not reaped. -/
theorem mem_members (h : Held daemon leader k) {includeLeader : Bool} {pid : Pid} :
    pid ∈ (k.members daemon leader includeLeader).1 ↔ k.Linked daemon leader pid ∧
      (k.members daemon leader includeLeader).2.getsid pid = some leader ∧
      (includeLeader = true ∨ pid ≠ leader) := by
  rw [members,mem_classifyMembers,mem_sessionCandidates h.subreaper h.getsid_leader]

theorem Rooted.linked_of_getsid (hk : k.pids.Nodup) (h : Rooted daemon leader k) {pid : Pid}
    (hsession : k.getsid pid = some leader) : k.Linked daemon leader pid := by
  obtain ⟨q,hq,rfl,hmember⟩ := (getsid_iff hk).mp hsession
  exact Rooted.linked hk [] k rfl h q hq hmember

end Kernel

/-- The processes take their steps, and the daemon takes a census. -/
inductive CensusEvent where
  | kernel (e : KernelEvent)
  | census

open Kernel

def censusStep (daemon leader : Pid) (k : Kernel) : CensusEvent → Kernel
  | .kernel e => k.step daemon e
  | .census => (k.members daemon leader true).2

def CensusStays (leader : Pid) (k : Kernel) : CensusEvent → Prop
  | .kernel e => Stays leader k e
  | .census => True

instance (leader : Pid) (k : Kernel) : (e : CensusEvent) → Decidable (CensusStays leader k e)
  | .kernel e => inferInstanceAs (Decidable (Stays leader k e))
  | .census => inferInstanceAs (Decidable True)

/-- A Run has just been spawned: its leader is the newest process, a child of the daemon in
a session of its own. -/
def Spawned (daemon leader : Pid) (k : Kernel) : Prop :=
  ∃ older : Kernel, k = ⟨leader,daemon,leader,false,false⟩::older ∧ older.Free leader ∧
    older.pids.Nodup ∧ ∃ d ∈ older, d.pid = daemon ∧ d.zombie = false ∧ d.subreaper = true

variable {daemon leader : Pid} {k : Kernel}

theorem Spawned.held (h : Spawned daemon leader k) : Held daemon leader k := by
  obtain ⟨older,rfl,hfree,hnodup,d,hd,hdaemon,hlive,hsubreaper⟩ := h
  refine ⟨?_,⟨_,List.mem_cons_self,rfl,rfl,rfl⟩,
    ⟨d,List.mem_cons_of_mem _ hd,hdaemon,(hfree d hd).2,hlive,hsubreaper⟩⟩
  simp only [pids,List.map_cons,List.nodup_cons]
  refine ⟨fun hmem => ?_,hnodup⟩
  obtain ⟨q,hq,hpid⟩ := List.mem_map.mp hmem
  exact (hfree q hq).1 hpid

theorem Spawned.rooted (h : Spawned daemon leader k) : Rooted daemon leader k := by
  obtain ⟨older,rfl,hfree,-,d,hd,hdaemon,hlive,hsubreaper⟩ := h
  refine ⟨fun _ => ⟨d,hd,hdaemon,hlive,.inl ⟨hdaemon,hsubreaper⟩⟩,?_⟩
  clear hd
  induction older with
  | nil => trivial
  | cons q older ih =>
    refine ⟨fun hsession => absurd hsession (hfree q List.mem_cons_self).2,?_⟩
    exact ih fun r hr => hfree r (List.mem_cons_of_mem _ hr)

theorem Kernel.Held.censusStep (h : Held daemon leader k) (e : CensusEvent) :
    Held daemon leader (censusStep daemon leader k e) := by
  cases e with
  | kernel e => exact h.step e
  | census => exact h.reaped _

theorem Kernel.Rooted.censusStep (hheld : Held daemon leader k) (h : Rooted daemon leader k)
    (e : CensusEvent) (hstays : CensusStays leader k e) :
    Rooted daemon leader (censusStep daemon leader k e) := by
  cases e with
  | kernel e => exact h.step hheld e hstays
  | census => exact h.reaped hheld.nodup _

/-- A census at any point of any run counts each linked member of the session once and no
other process, and takes no status but those of linked members that ended as children of the
daemon, never the leader's. In a run in which no process leaves the session with a child in
it that is the count of the whole host, and every such status is taken. -/
theorem session_census (daemon leader : Pid) (k₀ : Kernel) (h : Spawned daemon leader k₀)
    (es : List CensusEvent) :
    let k := Machine.run (censusStep daemon leader) k₀ es
    let after := (k.members daemon leader true).2
    (∀ includeLeader, (k.members daemon leader includeLeader).1.Nodup ∧
      ∀ pid, pid ∈ (k.members daemon leader includeLeader).1 ↔ k.Linked daemon leader pid ∧
        after.getsid pid = some leader ∧ (includeLeader = true ∨ pid ≠ leader)) ∧
    (∀ q, q ∈ after ↔ q ∈ k ∧ ¬ (k.Linked daemon leader q.pid ∧ q.pid ≠ leader ∧
      q.session = leader ∧ q.zombie = true ∧ q.parent = daemon)) ∧
    (Machine.Along (censusStep daemon leader) (CensusStays leader) k₀ es →
      (∀ includeLeader, (k.members daemon leader includeLeader).1.Perm
        (after.classifyMembers leader includeLeader after.processIds)) ∧
      ∀ q, q ∈ after ↔ q ∈ k ∧ ¬ (q.pid ≠ leader ∧ q.session = leader ∧ q.zombie = true ∧
        q.parent = daemon)) := by
  intro k after
  have hheld : Held daemon leader k :=
    Machine.run_invariant (fun _ e h => h.censusStep e) h.held es
  have hcounted : ∀ includeLeader, (k.members daemon leader includeLeader).1.Nodup :=
    classifyMembers_nodup (sessionCandidates_nodup hheld.nodup)
  have hafter : ∀ q, q ∈ after ↔ q ∈ k ∧ ¬ (k.Linked daemon leader q.pid ∧ q.pid ≠ leader ∧
      q.session = leader ∧ q.zombie = true ∧ q.parent = daemon) := by
    intro q
    show q ∈ k.reapInheritedOrphans daemon leader _ ↔ _
    rw [reapInheritedOrphans_eq hheld.nodup,List.mem_filter]
    simp only [Bool.not_eq_true',← Bool.not_eq_true,Bool.and_eq_true,List.contains_iff_mem,
      mem_sessionCandidates hheld.subreaper hheld.getsid_leader,orphaned_iff]
    tauto
  refine ⟨fun includeLeader => ⟨hcounted includeLeader,fun pid => mem_members hheld⟩,hafter,?_⟩
  intro hstays
  have hstep : ∀ k e, Held daemon leader k ∧ Rooted daemon leader k → CensusStays leader k e →
      Held daemon leader (censusStep daemon leader k e) ∧
        Rooted daemon leader (censusStep daemon leader k e) :=
    fun k e h hstay => ⟨h.1.censusStep e,h.2.censusStep h.1 e hstay⟩
  have hrooted := Machine.run_invariant_along hstep ⟨h.held,h.rooted⟩ hstays
  have hlinked := fun pid (hsession : k.getsid pid = some leader) =>
    hrooted.2.linked_of_getsid hheld.nodup hsession
  have hnodup : after.pids.Nodup := (hheld.reaped _).nodup
  have hkept : ∀ pid, after.getsid pid = some leader → k.Linked daemon leader pid := by
    intro pid hsession
    obtain ⟨q,hq,hpid,hmember⟩ := (getsid_iff hnodup).mp hsession
    exact hlinked pid ((getsid_iff hheld.nodup).mpr ⟨q,((hafter q).mp hq).1,hpid,hmember⟩)
  have hids : after.processIds.Nodup := hnodup
  constructor
  · intro includeLeader
    refine (List.perm_ext_iff_of_nodup (hcounted includeLeader)
      (classifyMembers_nodup hids includeLeader)).mpr fun pid => ?_
    rw [mem_members hheld,mem_hostMembers]
    exact ⟨fun hcount => hcount.2,fun hcount => ⟨hkept pid hcount.1,hcount⟩⟩
  · intro q
    rw [hafter]
    constructor
    · rintro ⟨hq,hnot⟩
      exact ⟨hq,fun horphan => hnot
        ⟨hlinked _ ((getsid_iff hheld.nodup).mpr ⟨q,hq,rfl,horphan.2.1⟩),horphan⟩⟩
    · rintro ⟨hq,hnot⟩
      exact ⟨hq,fun horphan => hnot horphan.2⟩

/-- The daemon and the leader that it has spawned. -/
def justSpawned : Kernel := [⟨20,10,20,false,false⟩,⟨10,1,10,true,false⟩]

theorem justSpawned_spawned : Spawned 10 20 justSpawned :=
  ⟨[⟨10,1,10,true,false⟩],rfl,by decide,by decide,_,List.mem_singleton_self _,rfl,rfl,rfl⟩

/-- A grandchild outlives its parent and the leader. -/
def orphanedRun : List CensusEvent :=
  [.kernel (.fork 20 21),.kernel (.fork 21 22),.kernel (.exit 21),.kernel (.exit 20)]

theorem session_census_orphaned :
    let k := Machine.run (censusStep 10 20) justSpawned orphanedRun
    let after := (k.members 10 20 true).2
    after.classifyMembers 20 false after.processIds = [22] ∧
      (k.members 10 20 false).1.Perm (after.classifyMembers 20 false after.processIds) := by
  intro k after
  have hk : k = [⟨22,10,20,false,false⟩,⟨21,10,20,false,true⟩,⟨20,10,20,false,true⟩,
      ⟨10,1,10,true,false⟩] := by decide
  have hafter : after = [⟨22,10,20,false,false⟩,⟨20,10,20,false,true⟩,⟨10,1,10,true,false⟩] := by
    simp only [after,hk]
    simp [members,sessionCandidates,isChildSubreaper,find,getsid,Worklist.Graph.search,tree,
      children,Worklist.Graph.fresh,Worklist.unseen,inSession,reapInheritedOrphans,remove]
  refine ⟨?_,((session_census 10 20 justSpawned justSpawned_spawned orphanedRun).2.2
    (by decide)).1 false⟩
  rw [hafter]
  decide

/-- A process leaves the session with a child in it, and the leader ends: the host has a
member of the session, and the census counts none. -/
theorem session_census_deserted :
    let k := Machine.run (censusStep 10 20) justSpawned
      [.kernel (.fork 20 21),.kernel (.fork 21 22),.kernel (.setsid 21),.kernel (.exit 20)]
    k.classifyMembers 20 false k.processIds = [22] ∧ (k.members 10 20 false).1 = [] := by
  intro k
  have hk : k = [⟨22,21,20,false,false⟩,⟨21,10,21,false,false⟩,⟨20,10,20,false,true⟩,
      ⟨10,1,10,true,false⟩] := by decide
  rw [hk]
  constructor
  · decide
  · simp [members,sessionCandidates,isChildSubreaper,find,getsid,Worklist.Graph.search,tree,
      children,Worklist.Graph.fresh,Worklist.unseen,inSession,reapInheritedOrphans,
      classifyMembers]

end Native
end Ctxmux
