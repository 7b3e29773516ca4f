import Ctxmux.CommandTable

/-!
# Command correlation

The invariant of a connection that ties the command table to the writer queue and
the result channels. Ids grow along the queue and the next id is past all of them,
the cancelled ones apart; a channel is either waiting in the table or has its one
resolution.
-/

namespace Ctxmux
namespace Client

namespace AttachmentState

/-- The id can no longer be allocated. -/
def Spent (s : AttachmentState) (id : ℕ) : Prop :=
  id < s.nextCommandId ∨ id = u32Max ∧ s.nextCommandId = u32Max ∧ s.fence.isSome

/-- The id is the last one that was allocated. -/
def Frontier (s : AttachmentState) (id : ℕ) : Prop :=
  id < u32Max ∧ s.nextCommandId = id+1 ∨
    id = u32Max ∧ s.nextCommandId = u32Max ∧ s.fence.isSome

variable {s s' : AttachmentState} {id : ℕ}

theorem Spent.mono (h : s.Spent id) (hnext : s'.nextCommandId = s.nextCommandId)
    (hfence : s.fence.isSome → s'.fence.isSome) : s'.Spent id := by
  rcases h with h | ⟨hid,hmax,hf⟩
  · left
    omega
  · exact Or.inr ⟨hid,hnext.trans hmax,hfence hf⟩

theorem Frontier.mono (h : s.Frontier id) (hnext : s'.nextCommandId = s.nextCommandId)
    (hfence : s.fence.isSome → s'.fence.isSome) : s'.Frontier id := by
  rcases h with ⟨hid,hlast⟩ | ⟨hid,hmax,hf⟩
  · exact Or.inl ⟨hid,hnext.trans hlast⟩
  · exact Or.inr ⟨hid,hnext.trans hmax,hfence hf⟩

theorem Frontier.spent (h : s.Frontier id) : s.Spent id := by
  rcases h with ⟨hid,hlast⟩ | h
  · left
    omega
  · exact Or.inr h

/-- Without a fence the ids below the counter are the spent ones. -/
theorem Spent.lt (h : s.Spent id) (hfence : s.fence = none) : id < s.nextCommandId := by
  rcases h with h | ⟨-,-,hf⟩
  · exact h
  · simp [hfence] at hf

theorem Spent.registered (h : s.Spent id) (hfence : s.fence = none) (kind : PendingKind)
    (resultTx : ℕ) : (s.registered kind resultTx).Spent id := by
  have hlt := h.lt hfence
  left
  show id < if s.nextCommandId = u32Max then s.nextCommandId else s.nextCommandId+1
  split <;> omega

theorem frontier_registered (hs : s.nextCommandId ≤ u32Max) (kind : PendingKind)
    (resultTx : ℕ) : (s.registered kind resultTx).Frontier s.nextCommandId := by
  by_cases hmax : s.nextCommandId = u32Max
  · right
    refine ⟨hmax,?_,?_⟩
    · simp [AttachmentState.registered,hmax]
    · simp [AttachmentState.registered,hmax]
  · left
    refine ⟨by omega,?_⟩
    simp [AttachmentState.registered,hmax]

end AttachmentState

def controls (commands : List WriterCommand) : List (ℕ × ℕ) :=
  commands.filterMap fun
    | .control id resultTx => some (id,resultTx)
    | .detach => none

theorem controls_append (xs ys : List WriterCommand) :
    controls (xs ++ ys) = controls xs ++ controls ys := List.filterMap_append

namespace Connection

/-- The channels on which a resolution was sent. -/
def resolved (c : Connection) : List ℕ := c.resolutions.map Prod.fst

/-- The channels of the calls that returned without queueing their command. -/
def refused (c : Connection) : List ℕ := c.refusals.map Prod.fst

def Waiting (c : Connection) (id resultTx : ℕ) : Prop :=
  ∃ p, c.state.pending.lookup id = some p ∧ p.resultTx = resultTx

structure Correlated (c : Connection) : Prop where
  funded : c.state.Funded
  increasing : c.admitted.Pairwise fun a b => a.1 < b.1 ∧ a.2 < b.2
  spent : ∀ e ∈ c.admitted, 1 ≤ e.1 ∧ c.state.Spent e.1 ∧ e.2 < c.calls
  issuing : ∀ t id, c.issue = .registered t id →
    1 ≤ id ∧ c.state.Frontier id ∧ t < c.calls ∧ ∀ e ∈ c.admitted, e.1 < id ∧ e.2 < t
  held : ∀ t id, c.issue = .registered t id → c.Waiting id t ∨ t ∈ c.resolved
  known : ∀ id p, c.state.pending.lookup id = some p →
    ((id,p.resultTx) ∈ c.admitted ∨ c.issue = .registered p.resultTx id) ∧
      p.resultTx ∉ c.resolved
  settled : ∀ e ∈ c.admitted, c.Waiting e.1 e.2 ∨ e.2 ∈ c.resolved
  once : c.resolved.Nodup
  below : ∀ t ∈ c.resolved, t < c.calls
  refusedApart : ∀ t ∈ c.refused,
    t < c.calls ∧ (∀ e ∈ c.admitted, e.2 ≠ t) ∧ ∀ id, c.issue ≠ .registered t id
  closingApart : ∀ t, c.issue = .closing t → t < c.calls ∧ ∀ e ∈ c.admitted, e.2 ≠ t
  written : (controls (c.wire ++ c.queue)).Sublist c.admitted

theorem correlated_initial : initial.Correlated where
  funded := funded_default
  increasing := List.Pairwise.nil
  spent := fun _ he => (nomatch he)
  issuing := fun _ _ h => (nomatch h)
  held := fun _ _ h => (nomatch h)
  known := fun _ _ h => (nomatch h)
  settled := fun _ he => (nomatch he)
  once := List.nodup_nil
  below := fun _ h => (nomatch h)
  refusedApart := fun _ h => (nomatch h)
  closingApart := fun _ h => (nomatch h)
  written := List.Sublist.refl _

variable {c : Connection} {t id : ℕ}

section

variable (h : c.Correlated)
include h

theorem Correlated.waiting_lt {p : PendingCommand} (hp : c.state.pending.lookup id = some p) :
    p.resultTx < c.calls := by
  rcases (h.known id p hp).1 with hadmitted | hissue
  · exact (h.spent _ hadmitted).2.2
  · exact (h.issuing _ _ hissue).2.2.1

theorem Correlated.id_of_admitted {a b : ℕ × ℕ} (ha : a ∈ c.admitted) (hb : b ∈ c.admitted)
    (ht : a.2 = b.2) : a.1 = b.1 := by
  have hpairs : c.admitted.Pairwise fun x y => x.2 = y.2 → x.1 = y.1 := by
    apply h.increasing.imp
    intro x y hxy heq
    omega
  have hflip : c.admitted.Pairwise (flip fun x y => x.2 = y.2 → x.1 = y.1) := by
    apply h.increasing.imp
    intro x y hxy heq
    omega
  exact hpairs.forall_of_forall_of_flip (fun _ _ _ => rfl) hflip ha hb ht

theorem Correlated.id_of_waiting {id' : ℕ} {p p' : PendingCommand}
    (hp : c.state.pending.lookup id = some p) (hp' : c.state.pending.lookup id' = some p')
    (ht : p.resultTx = p'.resultTx) : id = id' := by
  rcases (h.known id p hp).1 with ha | hi
  · rcases (h.known id' p' hp').1 with ha' | hi'
    · exact h.id_of_admitted ha ha' ht
    · have := ((h.issuing _ _ hi').2.2.2 _ ha).2
      dsimp only at this
      omega
  · rcases (h.known id' p' hp').1 with ha' | hi'
    · have := ((h.issuing _ _ hi).2.2.2 _ ha').2
      dsimp only at this
      omega
    · rw [hi] at hi'
      injection hi'

theorem Correlated.next_fresh (hidle : c.issue = .idle) (hfence : c.state.fence = none) :
    c.state.pending.lookup c.state.nextCommandId = none := by
  cases hp : c.state.pending.lookup c.state.nextCommandId with
  | none => rfl
  | some p =>
    rcases (h.known _ p hp).1 with hadmitted | hissue
    · have := (h.spent _ hadmitted).2.1.lt hfence
      exact absurd this (lt_irrefl _)
    · rw [hidle] at hissue
      cases hissue

theorem Correlated.issueCommand (kind : PendingKind) :
    (c.issueCommand kind).Correlated := by
  unfold Connection.issueCommand
  split
  · exact h
  · exact h
  next hidle =>
  have hgrow : ∀ n, n < c.calls → n < c.calls+1 := fun n hn => by omega
  split
  · next error _ =>
    refine { h with spent := ?_, issuing := ?_, below := ?_, refusedApart := ?_, closingApart := ?_ }
    · intro e he
      have := h.spent e he
      exact ⟨this.1,this.2.1,hgrow _ this.2.2⟩
    · intro t id hi
      have := h.issuing t id hi
      exact ⟨this.1,this.2.1,hgrow _ this.2.2.1,this.2.2.2⟩
    · exact fun t ht => hgrow _ (h.below t ht)
    · intro t ht
      have ht' : t ∈ c.refused ∨ t = c.calls := by simpa [refused] using ht
      rcases ht' with ht' | rfl
      · have := h.refusedApart t ht'
        exact ⟨hgrow _ this.1,this.2⟩
      · refine ⟨by simp,fun e he => ?_,fun id hi => ?_⟩
        · exact Nat.ne_of_lt (h.spent e he).2.2
        · have hi' : c.issue = .registered c.calls id := hi
          rw [hidle] at hi'
          cases hi'
    · intro t ht
      have := h.closingApart t ht
      exact ⟨hgrow _ this.1,this.2⟩
  · next id state hreg =>
    obtain ⟨hrefusal,rfl,rfl⟩ := registerCommand_eq_ok hreg
    have hfence := (AttachmentState.of_refusal_none hrefusal).2.1
    have hfresh := h.next_fresh hidle hfence
    have hbelow : ∀ e ∈ c.admitted, e.1 < c.state.nextCommandId :=
      fun e he => (h.spent e he).2.1.lt hfence
    have hold : ∀ id, id ≠ c.state.nextCommandId →
        (c.state.registered kind c.calls).pending.lookup id = c.state.pending.lookup id :=
      fun id hid => AList.lookup_insert_ne hid
    have hnew : (c.state.registered kind c.calls).pending.lookup c.state.nextCommandId =
        some ⟨kind,c.calls⟩ := AList.lookup_insert _
    constructor
    · exact h.funded.registered c.calls hrefusal hfresh
    · exact h.increasing
    · intro e he
      have := h.spent e he
      exact ⟨this.1,this.2.1.registered hfence kind c.calls,hgrow _ this.2.2⟩
    · intro t id hi
      cases hi
      refine ⟨h.funded.idPositive,
        AttachmentState.frontier_registered h.funded.idBounded kind c.calls,by simp,?_⟩
      exact fun e he => ⟨hbelow e he,(h.spent e he).2.2⟩
    · intro t id hi
      cases hi
      exact Or.inl ⟨_,hnew,rfl⟩
    · intro id p hp
      dsimp only at hp
      by_cases hid : id = c.state.nextCommandId
      · subst hid
        rw [hnew] at hp
        cases hp
        exact ⟨Or.inr rfl,fun hmem => lt_irrefl _ (h.below _ hmem)⟩
      · rw [hold id hid] at hp
        obtain ⟨hwhere,hres⟩ := h.known id p hp
        rw [hidle] at hwhere
        rcases hwhere with hwhere | hwhere
        · exact ⟨Or.inl hwhere,hres⟩
        · cases hwhere
    · intro e he
      rcases h.settled e he with ⟨p,hp,ht⟩ | hres
      · refine Or.inl ⟨p,?_,ht⟩
        exact (hold e.1 (Nat.ne_of_lt (hbelow e he))).trans hp
      · exact Or.inr hres
    · exact h.once
    · exact fun t ht => hgrow _ (h.below t ht)
    · intro t ht
      obtain ⟨hlt,hapart,-⟩ := h.refusedApart t ht
      refine ⟨hgrow _ hlt,hapart,fun id hi => ?_⟩
      cases hi
      exact lt_irrefl _ hlt
    · exact fun t ht => (nomatch ht)
    · exact h.written

/-- A call that gives its command up: the command leaves the table with its id, unless
its result had already been taken. -/
theorem Correlated.cancelled (hi : c.issue = .registered t id) {phase : IssuePhase}
    (hphase : phase = .idle ∨ phase = .closing t) :
    Correlated { c with state := cancelUnsentCommand c.state id, issue := phase } := by
  obtain ⟨hpos,hfrontier,hlt,hadmitted⟩ := h.issuing t id hi
  have hmax : id ≤ u32Max := by
    rcases hfrontier with ⟨hid,-⟩ | ⟨hid,-⟩ <;> omega
  have hnotRegistered : ∀ t' id', phase ≠ .registered t' id' := by
    intro t' id' heq
    rcases hphase with hphase | hphase
    · rw [hphase] at heq
      cases heq
    · rw [hphase] at heq
      cases heq
  have hlookup : ∀ id', id' ≠ id →
      (cancelUnsentCommand c.state id).pending.lookup id' = c.state.pending.lookup id' := by
    intro id' hne
    unfold cancelUnsentCommand
    split
    · rfl
    · split
      · simpa using AList.lookup_erase_ne hne
      · simpa using AList.lookup_erase_ne hne
  have hgone : (cancelUnsentCommand c.state id).pending.lookup id = none := by
    unfold cancelUnsentCommand
    split
    · next hnone => exact hnone
    · split
      · simp
      · simp
  have hspent : ∀ e ∈ c.admitted, (cancelUnsentCommand c.state id).Spent e.1 := by
    intro e he
    have hbefore := (hadmitted e he).1
    unfold cancelUnsentCommand
    split
    · exact (h.spent e he).2.1
    · split
      · next hid =>
        left
        rcases hfrontier with ⟨hne,-⟩ | ⟨-,hnext,-⟩
        · omega
        · simp
          omega
      · exact Or.inl hbefore
  have hne : ∀ e ∈ c.admitted, e.1 ≠ id := fun e he => Nat.ne_of_lt (hadmitted e he).1
  constructor
  · exact h.funded.cancelled ⟨hpos,hmax⟩
  · exact h.increasing
  · intro e he
    exact ⟨(h.spent e he).1,hspent e he,(h.spent e he).2.2⟩
  · intro t' id' heq
    exact absurd heq (hnotRegistered t' id')
  · intro t' id' heq
    exact absurd heq (hnotRegistered t' id')
  · intro id' p hp
    dsimp only at hp
    by_cases hid : id' = id
    · rw [hid,hgone] at hp
      cases hp
    · rw [hlookup id' hid] at hp
      obtain ⟨hwhere,hres⟩ := h.known id' p hp
      refine ⟨Or.inl ?_,hres⟩
      rcases hwhere with hwhere | hwhere
      · exact hwhere
      · rw [hi] at hwhere
        cases hwhere
        exact absurd rfl hid
  · intro e he
    rcases h.settled e he with ⟨p,hp,ht⟩ | hres
    · exact Or.inl ⟨p,(hlookup e.1 (hne e he)).trans hp,ht⟩
    · exact Or.inr hres
  · exact h.once
  · exact h.below
  · intro t' ht'
    obtain ⟨hlt',hapart,-⟩ := h.refusedApart t' ht'
    exact ⟨hlt',hapart,hnotRegistered t'⟩
  · intro t' heq
    have hphase' : phase = .closing t' := heq
    rcases hphase with hphase | hphase
    · rw [hphase] at hphase'
      cases hphase'
    · rw [hphase] at hphase'
      cases hphase'
      exact ⟨hlt,fun e he => Nat.ne_of_lt (hadmitted e he).2⟩
  · exact h.written

theorem Correlated.returned (hlt : t < c.calls) (hapart : ∀ e ∈ c.admitted, e.2 ≠ t)
    (hissue : ∀ id, c.issue ≠ .registered t id) (error : ClientError) :
    Correlated { c with refusals := c.refusals ++ [(t,error)] } := by
  refine { h with refusedApart := ?_ }
  intro t' ht'
  have hmem : t' ∈ c.refused ∨ t' = t := by simpa [refused] using ht'
  rcases hmem with hmem | rfl
  · exact h.refusedApart t' hmem
  · exact ⟨hlt,hapart,hissue⟩

theorem Correlated.refuse (hi : c.issue = .registered t id) (error : ClientError) :
    (c.refuse t id error).Correlated := by
  obtain ⟨-,-,hlt,hadmitted⟩ := h.issuing t id hi
  have hcancelled := h.cancelled hi (Or.inl rfl)
  exact hcancelled.returned hlt (fun e he => Nat.ne_of_lt (hadmitted e he).2)
    (fun id' heq => (nomatch heq)) error

theorem Correlated.encodeFailed : c.encodeFailed.Correlated := by
  unfold Connection.encodeFailed
  split
  · next t id hi => exact h.refuse hi _
  · exact h
  · exact h

theorem Correlated.trySend : c.trySend.Correlated := by
  unfold Connection.trySend
  split
  · exact h
  · exact h
  next t id hi =>
  split
  · exact h.cancelled hi (Or.inr rfl)
  split
  · exact h.refuse hi _
  obtain ⟨hpos,hfrontier,hlt,hadmitted⟩ := h.issuing t id hi
  constructor
  · exact h.funded
  · rw [List.pairwise_append]
    refine ⟨h.increasing,List.pairwise_singleton _ _,?_⟩
    intro a ha b hb
    rw [List.mem_singleton] at hb
    subst hb
    exact hadmitted a ha
  · intro e he
    rcases List.mem_append.mp he with he | he
    · exact h.spent e he
    · rw [List.mem_singleton] at he
      subst he
      exact ⟨hpos,hfrontier.spent,hlt⟩
  · exact fun t' id' heq => (nomatch heq)
  · exact fun t' id' heq => (nomatch heq)
  · intro id' p hp
    obtain ⟨hwhere,hres⟩ := h.known id' p hp
    refine ⟨Or.inl ?_,hres⟩
    rcases hwhere with hwhere | hwhere
    · exact List.mem_append_left _ hwhere
    · rw [hi] at hwhere
      cases hwhere
      exact List.mem_append_right _ (List.mem_singleton.mpr rfl)
  · intro e he
    rcases List.mem_append.mp he with he | he
    · exact h.settled e he
    · rw [List.mem_singleton] at he
      subst he
      exact h.held t id hi
  · exact h.once
  · exact h.below
  · intro t' ht'
    obtain ⟨hlt',hapart,hissue⟩ := h.refusedApart t' ht'
    refine ⟨hlt',fun e he => ?_,fun id' heq => (nomatch heq)⟩
    rcases List.mem_append.mp he with he | he
    · exact hapart e he
    · rw [List.mem_singleton] at he
      subst he
      intro heq
      cases heq
      exact hissue id hi
  · exact fun t' heq => (nomatch heq)
  · show (controls (c.wire ++ (c.queue ++ [.control id t]))).Sublist (c.admitted ++ [(id,t)])
    rw [← List.append_assoc,controls_append]
    exact h.written.append (List.Sublist.refl _)

end

end Connection
end Client
end Ctxmux
