import Ctxmux.SessionCensus

/-!
# The census of a session that keeps its tree

A process that leaves the session takes its later children with it, but not those it has
already. As long as no process leaves with a child still in the session, every member hangs
on the leader or on the daemon, whoever dies and whoever adopts.
-/

namespace Ctxmux
namespace Native
namespace Kernel

/-- A live process that a member of the session can hang on. -/
def Good (daemon leader : Pid) (r : Process) : Prop :=
  r.zombie = false ∧ (r.pid = daemon ∧ r.subreaper = true ∨ r.session = leader)

def Tied (daemon leader : Pid) (q : Process) (older : Kernel) : Prop :=
  q.session = leader → ∃ r ∈ older, r.pid = q.parent ∧ Good daemon leader r

/-- Every member of the session has an older parent that is a member or the daemon. -/
def Rooted (daemon leader : Pid) : Kernel → Prop
  | [] => True
  | q::older => Tied daemon leader q older ∧ Rooted daemon leader older

/-- The leader stands as a child of the daemon and names its session; the daemon is
outside the session and adopts. -/
structure Held (daemon leader : Pid) (k : Kernel) : Prop where
  nodup : k.pids.Nodup
  leads : ∃ q ∈ k, q.pid = leader ∧ q.session = leader ∧ q.parent = daemon
  serves : ∃ d ∈ k, d.pid = daemon ∧ d.session ≠ leader ∧ d.zombie = false ∧ d.subreaper = true

variable {daemon leader : Pid} {k : Kernel}

theorem Held.getsid_leader (h : Held daemon leader k) : k.getsid leader = some leader := by
  obtain ⟨q,hq,hpid,hsession,-⟩ := h.leads
  exact (getsid_iff h.nodup).mpr ⟨q,hq,hpid,hsession⟩

theorem Held.subreaper (h : Held daemon leader k) : k.isChildSubreaper daemon = true := by
  obtain ⟨d,hd,rfl,-,-,hsubreaper⟩ := h.serves
  simp [isChildSubreaper,find_of_mem h.nodup hd,hsubreaper]

/-- Members that have an older parent among members are linked. -/
theorem Rooted.linked (hk : k.pids.Nodup) (newer older : Kernel) (hsplit : k = newer ++ older)
    (h : Rooted daemon leader older) :
    ∀ q ∈ older, q.session = leader → k.Linked daemon leader q.pid := by
  induction older generalizing newer with
  | nil => exact fun q hq => absurd hq List.not_mem_nil
  | cons p older ih =>
    have hold : ∀ q ∈ older, q.session = leader → k.Linked daemon leader q.pid :=
      ih (newer ++ [p]) (by simp [hsplit]) h.2
    intro q hq hsession
    rcases List.mem_cons.mp hq with rfl | hmem
    · obtain ⟨r,hr,hparent,-,hgood⟩ := h.1 hsession
      have hchild : q.pid ∈ k.children r.pid :=
        mem_children.mpr ⟨q,by simp [hsplit],hparent.symm,rfl⟩
      have hsid : k.getsid q.pid = some leader :=
        (getsid_iff hk).mpr ⟨q,by simp [hsplit],rfl,hsession⟩
      rcases hgood with ⟨hdaemon,-⟩ | hmember
      · exact .of_daemon (hdaemon ▸ hchild) hsid
      · exact (hold r hr hmember).child hchild hsid
    · exact hold q hmem hsession

theorem Rooted.tied (h : Rooted daemon leader k) {q : Process} (hq : q ∈ k)
    (hsession : q.session = leader) : ∃ r ∈ k, r.pid = q.parent ∧ Good daemon leader r := by
  induction k with
  | nil => exact absurd hq List.not_mem_nil
  | cons p older ih =>
    rcases List.mem_cons.mp hq with rfl | hmem
    · obtain ⟨r,hr,hgood⟩ := h.1 hsession
      exact ⟨r,List.mem_cons_of_mem _ hr,hgood⟩
    · obtain ⟨r,hr,hgood⟩ := ih h.2 hmem
      exact ⟨r,List.mem_cons_of_mem _ hr,hgood⟩

/-- A change of every entry keeps the tree when it brings no process into the session and
keeps what members hang on. -/
theorem Rooted.map (h : Rooted daemon leader k) {f : Process → Process}
    (hsession : ∀ q, (f q).session = leader → q.session = leader ∧ (f q).parent = q.parent)
    (hgood : ∀ q ∈ k, ∀ r ∈ k, q.session = leader → (f q).session = leader →
      r.pid = q.parent → Good daemon leader r → (f r).pid = r.pid ∧ Good daemon leader (f r)) :
    Rooted daemon leader (k.map f) := by
  induction k with
  | nil => trivial
  | cons p older ih =>
    refine ⟨fun hp => ?_,ih h.2 fun q hq r hr =>
      hgood q (List.mem_cons_of_mem _ hq) r (List.mem_cons_of_mem _ hr)⟩
    obtain ⟨hold,hparent⟩ := hsession p hp
    obtain ⟨r,hr,hpid,hr'⟩ := h.1 hold
    obtain ⟨hsame,hstays⟩ :=
      hgood p List.mem_cons_self r (List.mem_cons_of_mem _ hr) hold hp hpid hr'
    exact ⟨f r,List.mem_map_of_mem hr,by rw [hsame,hparent,hpid],hstays⟩

theorem Rooted.filter (h : Rooted daemon leader k) {p : Process → Bool}
    (hp : ∀ q ∈ k, q.zombie = false → p q = true) : Rooted daemon leader (k.filter p) := by
  induction k with
  | nil => trivial
  | cons q older ih =>
    have hold := ih h.2 fun r hr => hp r (List.mem_cons_of_mem _ hr)
    by_cases hq : p q = true
    · rw [List.filter_cons_of_pos hq]
      refine ⟨fun hsession => ?_,hold⟩
      obtain ⟨r,hr,hpid,hgood⟩ := h.1 hsession
      exact ⟨r,List.mem_filter.mpr ⟨hr,hp r (List.mem_cons_of_mem _ hr) hgood.1⟩,hpid,hgood⟩
    · rwa [List.filter_cons_of_neg hq]

theorem adopter_append {newer older : Kernel} {parent : Pid}
    (h : ∀ q ∈ newer, q.pid ≠ parent) :
    adopter (newer ++ older) parent = adopter older parent := by
  induction newer with
  | nil => rfl
  | cons q newer ih =>
    have hq : q.pid ≠ parent := h q List.mem_cons_self
    simp only [List.cons_append,adopter,if_neg hq]
    exact ih fun r hr => h r (List.mem_cons_of_mem _ hr)

/-- From a process that members may hang on the climb ends at one that they may hang on. -/
theorem Rooted.climbs (hk : k.pids.Nodup) (h : Rooted daemon leader k) {r : Process}
    (hr : r ∈ k) (hgood : Good daemon leader r) :
    ∃ a ∈ k, a.pid = k.adopter r.pid ∧ Good daemon leader a := by
  induction k generalizing r with
  | nil => exact absurd hr List.not_mem_nil
  | cons q older ih =>
    simp only [pids,List.map_cons,List.nodup_cons] at hk
    rcases List.mem_cons.mp hr with rfl | hmem
    · by_cases hsubreaper : r.subreaper = true
      · exact ⟨r,List.mem_cons_self,by simp [adopter,hsubreaper],hgood⟩
      · have hsession : r.session = leader := by
          rcases hgood.2 with ⟨-,hyes⟩ | hsession
          · exact absurd hyes hsubreaper
          · exact hsession
        obtain ⟨p,hp,hparent,hgood'⟩ := h.1 hsession
        obtain ⟨a,ha,hadopter,hgood''⟩ := ih hk.2 h.2 hp hgood'
        refine ⟨a,List.mem_cons_of_mem _ ha,?_,hgood''⟩
        simp [adopter,hsubreaper,hadopter,hparent]
    · have hne : q.pid ≠ r.pid := fun heq => hk.1 (heq ▸ List.mem_map_of_mem hmem)
      obtain ⟨a,ha,hadopter,hgood'⟩ := ih hk.2 h.2 hmem hgood
      exact ⟨a,List.mem_cons_of_mem _ ha,by simp [adopter,hne,hadopter],hgood'⟩

/-- The adopter of a member's children is one that members may hang on, and not itself. -/
theorem Rooted.adopted (hk : k.pids.Nodup) (h : Rooted daemon leader k) {p : Process}
    (hp : p ∈ k) (hsession : p.session = leader) :
    ∃ a ∈ k, a.pid = k.adopter p.parent ∧ a.pid ≠ p.pid ∧ Good daemon leader a := by
  induction k with
  | nil => exact absurd hp List.not_mem_nil
  | cons q older ih =>
    simp only [pids,List.map_cons,List.nodup_cons] at hk
    have hlift : (∃ r ∈ older, r.pid = p.parent) →
        adopter (q::older) p.parent = adopter older p.parent := by
      rintro ⟨r,hr,hpid⟩
      have hne : q.pid ≠ p.parent := fun heq =>
        hk.1 (heq ▸ hpid ▸ List.mem_map_of_mem hr)
      simp [adopter,hne]
    rcases List.mem_cons.mp hp with rfl | hmem
    · obtain ⟨r,hr,hparent,hgood⟩ := h.1 hsession
      obtain ⟨a,ha,hadopter,hgood'⟩ := h.2.climbs hk.2 hr hgood
      refine ⟨a,List.mem_cons_of_mem _ ha,?_,fun heq => ?_,hgood'⟩
      · rw [hlift ⟨r,hr,hparent⟩,hadopter,hparent]
      · exact hk.1 (heq ▸ List.mem_map_of_mem ha)
    · obtain ⟨r,hr,hparent,-⟩ := h.2.tied hmem hsession
      obtain ⟨a,ha,hadopter,hne,hgood⟩ := ih hk.2 h.2 hmem
      exact ⟨a,List.mem_cons_of_mem _ ha,by rw [hlift ⟨r,hr,hparent⟩,hadopter],hne,hgood⟩

/-- When a process ends, its children that are members hang on its adopter. -/
theorem Rooted.exit (hk : k.pids.Nodup) (h : Rooted daemon leader k) {p : Process} (hp : p ∈ k)
    (hdaemon : p.pid ≠ daemon) : Rooted daemon leader (k.exit p) := by
  suffices hsuffix : ∀ newer older, k = newer ++ older → Rooted daemon leader older →
      Rooted daemon leader (older.map fun r => { r with
        parent := if r.parent = p.pid then k.adopter p.parent else r.parent
        zombie := r.zombie || r.pid == p.pid }) from hsuffix [] k rfl h
  intro newer older hsplit hrooted
  induction older generalizing newer with
  | nil => trivial
  | cons q older ih =>
    refine ⟨fun hsession => ?_,ih (newer ++ [q]) (by simp [hsplit]) hrooted.2⟩
    obtain ⟨r,hr,hparent,hgood⟩ := hrooted.1 hsession
    have hnodup : (pids (newer ++ q::older)).Nodup := hsplit ▸ hk
    have holder : (pids older).Nodup := by
      simp only [pids,List.map_append,List.map_cons,List.nodup_append,List.nodup_cons] at hnodup
      exact hnodup.2.1.2
    have hstays : ∀ a ∈ older, a.pid ≠ p.pid → Good daemon leader a →
        ∃ b ∈ older.map fun r => { r with
          parent := if r.parent = p.pid then k.adopter p.parent else r.parent
          zombie := r.zombie || r.pid == p.pid },
          b.pid = a.pid ∧ Good daemon leader b := fun a ha hne hgood =>
      ⟨_,List.mem_map_of_mem ha,rfl,by simpa [hgood.1] using hne,hgood.2⟩
    by_cases hchild : q.parent = p.pid
    · -- `q` hung on the process that ends, which then is the member `r`
      obtain rfl : r = p := eq_of_pid hk (by simp [hsplit,hr]) hp (hparent.trans hchild)
      have hmember : r.session = leader := by
        rcases hgood.2 with ⟨heq,-⟩ | hmember
        · exact absurd heq hdaemon
        · exact hmember
      obtain ⟨a,ha,hadopter,hne,hgood'⟩ := hrooted.2.adopted holder hr hmember
      obtain ⟨g,hg,hgrand,-⟩ := hrooted.2.tied hr hmember
      have hwhole : k.adopter r.parent = adopter older r.parent := by
        have happend : k = (newer ++ [q]) ++ older := by simp [hsplit]
        rw [happend]
        apply adopter_append
        intro s hs heq
        have hdisjoint : (pids ((newer ++ [q]) ++ older)).Nodup := happend ▸ hk
        rw [pids,List.map_append,List.nodup_append] at hdisjoint
        exact hdisjoint.2.2 s.pid (List.mem_map_of_mem hs) g.pid (List.mem_map_of_mem hg)
          (heq.trans hgrand.symm)
      obtain ⟨b,hb,hpid,hgood''⟩ := hstays a ha hne hgood'
      refine ⟨b,hb,?_,hgood''⟩
      simp only [hchild,if_true]
      rw [hpid,hadopter,hwhole]
    · obtain ⟨b,hb,hpid,hgood'⟩ := hstays r hr (fun heq => hchild (hparent.symm.trans heq)) hgood
      refine ⟨b,hb,?_,hgood'⟩
      simp only [if_neg hchild]
      rw [hpid,hparent]

end Kernel
end Native
end Ctxmux
