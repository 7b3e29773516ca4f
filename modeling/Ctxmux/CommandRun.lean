import Ctxmux.CommandCorrelation

/-!
# Command correlation over whole runs

The remaining steps of a connection (results, detach, termination, the writer) keep
the correlation invariant, so every run keeps it; from it follow the guarantees that
the attachment makes to its callers.
-/

namespace Ctxmux
namespace Client
namespace Connection

variable {c : Connection} {t id : ℕ}

/-- A result settles the one channel that waits for it. -/
theorem Correlated.resolved_command (h : c.Correlated) {p : PendingCommand}
    (hp : c.state.pending.lookup id = some p) (r : PendingResolution) :
    Correlated { c with
      state := c.state.removed id p
      resolutions := c.resolutions ++ [(p.resultTx,r)] } := by
  have hlookup : ∀ id', id' ≠ id →
      (c.state.removed id p).pending.lookup id' = c.state.pending.lookup id' := by
    intro id' hne
    rw [AttachmentState.removed_pending]
    exact AList.lookup_erase_ne hne
  have hgone : (c.state.removed id p).pending.lookup id = none := by simp
  have hmem : ∀ t, t ∈ (c.resolutions ++ [(p.resultTx,r)]).map Prod.fst ↔
      t ∈ c.resolved ∨ t = p.resultTx := by
    intro t
    simp [resolved]
  have hkeep : ∀ id' t', c.Waiting id' t' →
      (∃ q, (c.state.removed id p).pending.lookup id' = some q ∧ q.resultTx = t') ∨
        t' = p.resultTx := by
    rintro id' t' ⟨q,hq,ht⟩
    by_cases hid : id' = id
    · right
      rw [hid,hp] at hq
      cases hq
      exact ht.symm
    · exact Or.inl ⟨q,(hlookup id' hid).trans hq,ht⟩
  have hmove : ∀ id' t', (c.Waiting id' t' ∨ t' ∈ c.resolved) →
      (∃ q, (c.state.removed id p).pending.lookup id' = some q ∧ q.resultTx = t') ∨
        t' ∈ (c.resolutions ++ [(p.resultTx,r)]).map Prod.fst := by
    intro id' t' hw
    rcases hw with hw | hw
    · rcases hkeep id' t' hw with hw | hw
      · exact Or.inl hw
      · exact Or.inr ((hmem t').mpr (Or.inr hw))
    · exact Or.inr ((hmem t').mpr (Or.inl hw))
  refine { h with
    funded := h.funded.removed hp
    spent := ?_, issuing := ?_, held := ?_, known := ?_, settled := ?_, once := ?_, below := ?_ }
  · intro e he
    obtain ⟨hpos,hspent,hlt⟩ := h.spent e he
    exact ⟨hpos,hspent.mono (by simp) (by simp),hlt⟩
  · intro t' id' hi
    obtain ⟨hpos,hfrontier,hlt⟩ := h.issuing t' id' hi
    exact ⟨hpos,hfrontier.mono (by simp) (by simp),hlt⟩
  · exact fun t' id' hi => hmove id' t' (h.held t' id' hi)
  · intro id' q hq
    dsimp only at hq
    by_cases hid : id' = id
    · rw [hid,hgone] at hq
      cases hq
    · rw [hlookup id' hid] at hq
      obtain ⟨hwhere,hres⟩ := h.known id' q hq
      refine ⟨hwhere,fun hq' => ?_⟩
      rcases (hmem _).mp hq' with hq' | hq'
      · exact hres hq'
      · exact hid (h.id_of_waiting hq hp hq')
  · exact fun e he => hmove e.1 e.2 (h.settled e he)
  · have hnot := (h.known id p hp).2
    show ((c.resolutions ++ [(p.resultTx,r)]).map Prod.fst).Nodup
    rw [List.map_append,List.map_singleton,List.nodup_append]
    refine ⟨h.once,List.nodup_singleton _,?_⟩
    intro a ha b hb heq
    rw [List.mem_singleton] at hb
    rw [heq,hb] at ha
    exact hnot ha
  · intro t' ht'
    rcases (hmem t').mp ht' with ht' | rfl
    · exact h.below t' ht'
    · exact h.waiting_lt hp

theorem Correlated.commandResult (h : c.Correlated) (id : ℕ) (outcome : ControlOutcome) :
    (c.commandResult id outcome).Correlated := by
  unfold Connection.commandResult
  split
  · exact h
  split
  · exact { h with }
  next state resultTx r hr =>
  obtain ⟨p,hp,-,rfl,rfl⟩ := resolveCommand_eq_ok hr
  exact h.resolved_command hp r

theorem Correlated.fenced (h : c.Correlated) {s : AttachmentState} (hfunded : s.Funded)
    (hnext : s.nextCommandId = c.state.nextCommandId) (hfence : s.fence.isSome)
    (hpending : s.pending = c.state.pending) : Correlated { c with state := s } := by
  refine { h with
    funded := hfunded
    spent := ?_, issuing := ?_, held := ?_, known := ?_, settled := ?_ }
  · intro e he
    obtain ⟨hpos,hspent,hlt⟩ := h.spent e he
    exact ⟨hpos,hspent.mono hnext (fun _ => hfence),hlt⟩
  · intro t' id' hi
    obtain ⟨hpos,hfrontier,hlt⟩ := h.issuing t' id' hi
    exact ⟨hpos,hfrontier.mono hnext (fun _ => hfence),hlt⟩
  · intro t' id' hi
    have := h.held t' id' hi
    unfold Waiting at this ⊢
    rw [← hpending] at this
    exact this
  · intro id' q hq
    dsimp only at hq
    rw [hpending] at hq
    exact h.known id' q hq
  · intro e he
    have := h.settled e he
    unfold Waiting at this ⊢
    rw [← hpending] at this
    exact this

theorem Correlated.detachedFrame (h : c.Correlated) : c.detachedFrame.Correlated := by
  unfold Connection.detachedFrame
  split
  · exact h
  split
  · exact { h with }
  next state hs =>
  have hfunded := h.funded.finishDetach hs
  obtain ⟨-,-,rfl⟩ := AttachmentState.finishDetach_eq_ok hs
  have hfenced := h.fenced hfunded rfl rfl rfl
  exact { hfenced with }

theorem Correlated.beginDetach (h : c.Correlated) : (c.step .beginDetach).Correlated := by
  unfold Connection.step
  dsimp only
  split
  · exact h
  next state hs =>
  have hfunded := h.funded.beginDetach hs
  unfold Client.beginDetach at hs
  split at hs
  · cases hs
  cases hs
  exact h.fenced hfunded rfl rfl rfl

theorem Correlated.terminateWith (h : c.Correlated) (reason : AttachmentUnknownReason) :
    (c.terminateWith reason).Correlated := by
  unfold Connection.terminateWith terminate
  split
  · simp only [List.map_nil,List.append_nil]
    exact h
  have hmem : ∀ t, t ∈ (c.resolutions ++ (c.state.pending.entries.map
      fun entry => entry.2.resultTx).map fun t => (t,PendingResolution.unknown reason)).map
        Prod.fst ↔ t ∈ c.resolved ∨ ∃ id, c.Waiting id t := by
    intro t
    simp only [List.map_append,List.map_map,List.mem_append,List.mem_map,resolved]
    apply or_congr Iff.rfl
    constructor
    · rintro ⟨entry,hentry,ht⟩
      exact ⟨entry.1,entry.2,AList.mem_lookup_iff.mpr hentry,ht⟩
    · rintro ⟨id,p,hp,ht⟩
      exact ⟨⟨id,p⟩,AList.mem_lookup_iff.mp hp,ht⟩
  have hmove : ∀ id' t', (c.Waiting id' t' ∨ t' ∈ c.resolved) →
      t' ∈ (c.resolutions ++ (c.state.pending.entries.map
        fun entry => entry.2.resultTx).map fun t => (t,PendingResolution.unknown reason)).map
          Prod.fst := by
    intro id' t' hw
    rcases hw with hw | hw
    · exact (hmem t').mpr (Or.inr ⟨id',hw⟩)
    · exact (hmem t').mpr (Or.inl hw)
  refine { h with
    funded := ⟨rfl,rfl,Nat.zero_le _,Nat.zero_le _,Nat.zero_le _,h.funded.idPositive,
      h.funded.idBounded,fun _ => rfl⟩
    spent := ?_, issuing := ?_, held := ?_, known := ?_, settled := ?_, once := ?_, below := ?_ }
  · intro e he
    obtain ⟨hpos,hspent,hlt⟩ := h.spent e he
    exact ⟨hpos,hspent.mono rfl (fun _ => rfl),hlt⟩
  · intro t' id' hi
    obtain ⟨hpos,hfrontier,hlt⟩ := h.issuing t' id' hi
    exact ⟨hpos,hfrontier.mono rfl (fun _ => rfl),hlt⟩
  · exact fun t' id' hi => Or.inr (hmove id' t' (h.held t' id' hi))
  · exact fun id' q hq => (nomatch hq)
  · exact fun e he => Or.inr (hmove e.1 e.2 (h.settled e he))
  · show List.Nodup (List.map Prod.fst (c.resolutions ++ _))
    rw [List.map_append,List.map_map,List.map_map,List.nodup_append]
    refine ⟨h.once,?_,?_⟩
    · apply List.Nodup.map_on _ c.state.pending.nodupKeys.nodup
      intro x hx y hy heq
      have hx' := AList.mem_lookup_iff.mpr hx
      have hy' := AList.mem_lookup_iff.mpr hy
      have hid := h.id_of_waiting hx' hy' heq
      obtain ⟨xi,xp⟩ := x
      obtain ⟨yi,yp⟩ := y
      dsimp only at hid hx' hy'
      subst hid
      have hxy : xp = yp := Option.some.inj ((Option.mem_def.mp hx').symm.trans hy')
      rw [hxy]
    · intro a ha b hb heq
      obtain ⟨entry,hentry,rfl⟩ := List.mem_map.mp hb
      have hw := AList.mem_lookup_iff.mpr hentry
      apply (h.known entry.1 entry.2 hw).2
      rw [heq] at ha
      exact ha
  · intro t' ht'
    rcases (hmem t').mp ht' with ht' | ⟨id,p,hp,rfl⟩
    · exact h.below t' ht'
    · exact h.waiting_lt hp

@[simp] theorem terminateWith_issue (c : Connection) (reason : AttachmentUnknownReason) :
    (c.terminateWith reason).issue = c.issue := rfl

theorem Correlated.terminateClosed (h : c.Correlated) : c.terminateClosed.Correlated := by
  unfold Connection.terminateClosed
  split
  · next t hi =>
    obtain ⟨hlt,hapart⟩ := h.closingApart t hi
    have hterminated := h.terminateWith .transportTerminated
    have hidle : Correlated { c.terminateWith .transportTerminated with issue := .idle } := by
      refine { hterminated with
        issuing := fun _ _ heq => (nomatch heq)
        held := fun _ _ heq => (nomatch heq)
        known := ?_, refusedApart := ?_
        closingApart := fun _ heq => (nomatch heq) }
      · intro id' q hq
        obtain ⟨hwhere,hres⟩ := hterminated.known id' q hq
        refine ⟨Or.inl ?_,hres⟩
        rcases hwhere with hwhere | hwhere
        · exact hwhere
        · rw [terminateWith_issue,hi] at hwhere
          cases hwhere
      · intro t' ht'
        obtain ⟨hlt',hapart',-⟩ := hterminated.refusedApart t' ht'
        exact ⟨hlt',hapart',fun _ heq => (nomatch heq)⟩
    exact hidle.returned hlt hapart (fun _ heq => (nomatch heq)) _
  · exact h
  · exact h

theorem Correlated.write (h : c.Correlated) : c.write.Correlated := by
  unfold Connection.write
  split
  · exact h
  next command queue hqueue =>
  refine { h with written := ?_ }
  have := h.written
  rw [hqueue] at this
  simpa using this

theorem Correlated.writeFailed (h : c.Correlated) : c.writeFailed.Correlated := by
  unfold Connection.writeFailed
  split
  · exact h
  next command queue hqueue =>
  have hterminated := h.terminateWith .transportTerminated
  refine { hterminated with written := ?_ }
  apply List.Sublist.trans _ h.written
  rw [hqueue,controls_append,controls_append]
  apply List.Sublist.append (List.Sublist.refl _)
  exact (List.sublist_cons_self command queue).filterMap _

theorem Correlated.step (h : c.Correlated) (e : Event) : (c.step e).Correlated := by
  cases e with
  | issue kind => exact h.issueCommand kind
  | encodeFailed => exact h.encodeFailed
  | trySend => exact h.trySend
  | terminateClosed => exact h.terminateClosed
  | abandon resultTx =>
    show (c.abandon resultTx).Correlated
    unfold Connection.abandon
    split
    · split
      · exact h
      · exact { h with }
    · split
      · exact h
      · exact { h with }
    · exact { h with }
  | observationLost => exact { h with }
  | commandResult id outcome => exact h.commandResult id outcome
  | detachedFrame => exact h.detachedFrame
  | otherViolation =>
    unfold Connection.step
    dsimp only
    split
    · exact { h with }
    · exact h
  | readerTerminates =>
    show c.readerTerminates.Correlated
    unfold Connection.readerTerminates
    split
    · have hterminated := h.terminateWith .protocolViolation
      exact { hterminated with }
    · exact h
  | beginDetach => exact h.beginDetach
  | queueDetach =>
    show c.queueDetach.Correlated
    unfold Connection.queueDetach
    split
    · refine { h with written := ?_ }
      show (controls (c.wire ++ (c.queue ++ [.detach]))).Sublist c.admitted
      rw [← List.append_assoc,controls_append]
      simpa [controls] using h.written
    · exact h
  | write => exact h.write
  | writeFailed => exact h.writeFailed
  | writerGone =>
    refine { h with written := ?_ }
    apply List.Sublist.trans _ h.written
    rw [controls_append,controls_append]
    exact List.Sublist.append (List.Sublist.refl _) (List.nil_sublist _)
  | terminate reason => exact h.terminateWith reason

theorem Correlated.run (h : c.Correlated) (es : List Event) : (c.run es).Correlated :=
  Machine.run_invariant (fun _ e hc => hc.step e) h es

/-- What no step takes back, and what a reader that stopped no longer causes: its
channels receive only the unknown resolution of a termination. -/
structure Later (c d : Connection) : Prop where
  refusals : c.refusals <+: d.refusals
  admitted : c.admitted <+: d.admitted
  ended : c.state.ended.isSome → d.state.ended.isSome
  unheard : c.reader ≠ .reading → d.reader ≠ .reading ∧ ∃ added,
    d.resolutions = c.resolutions ++ added ∧
      (∀ r ∈ added, ∃ reason, r.2 = .unknown reason) ∧ (added ≠ [] → d.state.ended.isSome)

theorem Later.quiet {d : Connection} (hrefusals : c.refusals <+: d.refusals)
    (hadmitted : c.admitted <+: d.admitted)
    (hended : c.state.ended.isSome → d.state.ended.isSome)
    (hreader : c.reader ≠ .reading → d.reader ≠ .reading ∧ d.resolutions = c.resolutions) :
    Later c d := by
  refine ⟨hrefusals,hadmitted,hended,fun hc => ?_⟩
  obtain ⟨hd,hsame⟩ := hreader hc
  exact ⟨hd,[],by simp [hsame],fun _ hr => (nomatch hr),fun hne => absurd rfl hne⟩

theorem Later.refl (c : Connection) : Later c c :=
  Later.quiet (List.prefix_refl _) (List.prefix_refl _) id fun hc => ⟨hc,rfl⟩

theorem Later.trans {d e : Connection} (h : Later c d) (h' : Later d e) : Later c e := by
  refine ⟨h.refusals.trans h'.refusals,h.admitted.trans h'.admitted,
    fun hc => h'.ended (h.ended hc),fun hc => ?_⟩
  obtain ⟨hd,added,hadded,hunknown,hended⟩ := h.unheard hc
  obtain ⟨he,added',hadded',hunknown',hended'⟩ := h'.unheard hd
  refine ⟨he,added ++ added',?_,?_,?_⟩
  · rw [hadded',hadded,List.append_assoc]
  · intro r hr
    rcases List.mem_append.mp hr with hr | hr
    · exact hunknown r hr
    · exact hunknown' r hr
  · intro hne
    by_cases hempty : added = []
    · apply hended'
      intro hempty'
      rw [hempty,hempty'] at hne
      exact hne rfl
    · exact h'.ended (hended hempty)

theorem terminate_ended (s : AttachmentState) : (terminate s).1.ended.isSome := by
  unfold terminate
  split
  · next h => exact h
  · rfl

theorem Later.terminated {d : Connection} {reason : AttachmentUnknownReason}
    (hrefusals : c.refusals <+: d.refusals) (hadmitted : d.admitted = c.admitted)
    (hstate : d.state = (terminate c.state).1) (hreader : c.reader ≠ .reading → d.reader ≠ .reading)
    (hresolutions : d.resolutions = (c.terminateWith reason).resolutions) : Later c d := by
  have hended : d.state.ended.isSome := by
    rw [hstate]
    exact terminate_ended c.state
  refine ⟨hrefusals,by rw [hadmitted],fun _ => hended,fun hc => ?_⟩
  refine ⟨hreader hc,_,hresolutions,?_,fun _ => hended⟩
  intro r hr
  obtain ⟨t,-,rfl⟩ := List.mem_map.mp hr
  exact ⟨reason,rfl⟩

theorem cancelUnsentCommand_ended (s : AttachmentState) (id : ℕ) :
    (cancelUnsentCommand s id).ended = s.ended := by
  unfold cancelUnsentCommand
  split
  · rfl
  · split <;> simp

theorem cancelUnsentCommand_detaching (s : AttachmentState) (id : ℕ) :
    (cancelUnsentCommand s id).detaching = s.detaching := by
  unfold cancelUnsentCommand
  split
  · rfl
  · split <;> simp

section

variable (c : Connection)

theorem later_refuse (t id : ℕ) (error : ClientError) :
    Later c (c.refuse t id error) := by
  refine Later.quiet (List.prefix_append _ _) (List.prefix_refl _) (fun hc => ?_) fun hc => ⟨hc,rfl⟩
  show (cancelUnsentCommand c.state id).ended.isSome
  rw [cancelUnsentCommand_ended]
  exact hc

theorem later_issueCommand (kind : PendingKind) :
    Later c (c.issueCommand kind) := by
  unfold Connection.issueCommand
  split
  · exact Later.refl c
  · exact Later.refl c
  split
  · exact Later.quiet (List.prefix_append _ _) (List.prefix_refl _) id fun hc => ⟨hc,rfl⟩
  · next hreg =>
    obtain ⟨-,-,rfl⟩ := registerCommand_eq_ok hreg
    exact Later.quiet (List.prefix_refl _) (List.prefix_refl _) id fun hc => ⟨hc,rfl⟩

theorem later_trySend : Later c c.trySend := by
  unfold Connection.trySend
  split
  · exact Later.refl c
  · exact Later.refl c
  split
  · refine Later.quiet (List.prefix_refl _) (List.prefix_refl _) (fun hc => ?_) fun hc => ⟨hc,rfl⟩
    dsimp only
    rw [cancelUnsentCommand_ended]
    exact hc
  split
  · exact later_refuse c _ _ _
  · exact Later.quiet (List.prefix_refl _) (List.prefix_append _ _) id fun hc => ⟨hc,rfl⟩

theorem later_abandon (t : ℕ) : Later c (c.abandon t) := by
  have hadded : Later c { c with abandoned := c.abandoned ++ [t] } :=
    Later.quiet (List.prefix_refl _) (List.prefix_refl _) id fun hc => ⟨hc,rfl⟩
  unfold Connection.abandon
  split
  · split
    · exact Later.refl c
    · exact hadded
  · split
    · exact Later.refl c
    · exact hadded
  · exact hadded

theorem later_commandResult (id : ℕ) (outcome : ControlOutcome) :
    Later c (c.commandResult id outcome) := by
  unfold Connection.commandResult
  split
  · exact Later.refl c
  next hreading =>
  have hreading' : ¬c.reader ≠ .reading := hreading
  split
  · exact Later.quiet (List.prefix_refl _) (List.prefix_refl _) (fun hc => hc)
      fun hc => absurd hc hreading'
  · next hr =>
    obtain ⟨p,-,-,rfl,-⟩ := resolveCommand_eq_ok hr
    refine ⟨List.prefix_refl _,List.prefix_refl _,fun hc => ?_,fun hc => absurd hc hreading'⟩
    simpa using hc

theorem later_detachedFrame : Later c c.detachedFrame := by
  unfold Connection.detachedFrame
  split
  · exact Later.refl c
  next hreading =>
  have hreading' : ¬c.reader ≠ .reading := hreading
  split
  · exact Later.quiet (List.prefix_refl _) (List.prefix_refl _) id fun hc => absurd hc hreading'
  · next hs =>
    obtain ⟨-,-,rfl⟩ := AttachmentState.finishDetach_eq_ok hs
    exact Later.quiet (List.prefix_refl _) (List.prefix_refl _) (fun _ => rfl)
      fun hc => absurd hc hreading'

theorem later_beginDetach : Later c (c.step .beginDetach) := by
  unfold Connection.step Client.beginDetach
  by_cases hc : c.state.ended.isSome
  · simp only [hc,if_true]
    exact Later.refl c
  · simp only [hc]
    exact Later.quiet (List.prefix_refl _) (List.prefix_refl _) id fun hc => ⟨hc,rfl⟩

theorem later_step (e : Event) : Later c (c.step e) := by
  cases e with
  | issue kind => exact later_issueCommand c kind
  | encodeFailed =>
    show Later c c.encodeFailed
    unfold Connection.encodeFailed
    split
    · exact later_refuse c _ _ _
    · exact Later.refl c
    · exact Later.refl c
  | trySend => exact later_trySend c
  | terminateClosed =>
    show Later c c.terminateClosed
    unfold Connection.terminateClosed
    split
    · exact Later.terminated (List.prefix_append _ _) rfl rfl id rfl
    · exact Later.refl c
    · exact Later.refl c
  | abandon resultTx => exact later_abandon c resultTx
  | observationLost =>
    exact Later.quiet (List.prefix_refl _) (List.prefix_refl _) id fun hc => ⟨hc,rfl⟩
  | commandResult id outcome => exact later_commandResult c id outcome
  | detachedFrame => exact later_detachedFrame c
  | otherViolation =>
    unfold Connection.step
    dsimp only
    split
    · next hreading =>
      exact Later.quiet (List.prefix_refl _) (List.prefix_refl _) id fun hc => absurd hreading hc
    · exact Later.refl c
  | readerTerminates =>
    show Later c c.readerTerminates
    unfold Connection.readerTerminates
    split
    · exact Later.terminated (List.prefix_refl _) rfl rfl (fun _ => by simp) rfl
    · exact Later.refl c
  | beginDetach => exact later_beginDetach c
  | queueDetach =>
    show Later c c.queueDetach
    unfold Connection.queueDetach
    split
    · exact Later.quiet (List.prefix_refl _) (List.prefix_refl _) id fun hc => ⟨hc,rfl⟩
    · exact Later.refl c
  | write =>
    show Later c c.write
    unfold Connection.write
    split
    · exact Later.refl c
    · exact Later.quiet (List.prefix_refl _) (List.prefix_refl _) id fun hc => ⟨hc,rfl⟩
  | writeFailed =>
    show Later c c.writeFailed
    unfold Connection.writeFailed
    split
    · exact Later.refl c
    · exact Later.terminated (List.prefix_refl _) rfl rfl id rfl
  | writerGone =>
    exact Later.quiet (List.prefix_refl _) (List.prefix_refl _) id fun hc => ⟨hc,rfl⟩
  | terminate reason => exact Later.terminated (List.prefix_refl _) rfl rfl id rfl

theorem later_run (es : List Event) : Later c (c.run es) := by
  apply Machine.run_invariant _ (Later.refl c)
  intro d e h
  exact h.trans (later_step d e)

end

section Detaching

variable (c : Connection)

theorem terminateWith_detaching (reason : AttachmentUnknownReason) :
    (c.terminateWith reason).state.detaching = c.state.detaching := by
  unfold terminateWith terminate
  dsimp only
  split <;> rfl

theorem refuse_detaching (t id : ℕ) (error : ClientError) :
    (c.refuse t id error).state.detaching = c.state.detaching :=
  cancelUnsentCommand_detaching c.state id

theorem issueCommand_detaching (kind : PendingKind) :
    (c.issueCommand kind).state.detaching = c.state.detaching := by
  unfold issueCommand
  split
  · rfl
  · rfl
  dsimp only
  split
  · rfl
  · next hreg =>
    obtain ⟨-,-,rfl⟩ := registerCommand_eq_ok hreg
    rfl

theorem encodeFailed_detaching : c.encodeFailed.state.detaching = c.state.detaching := by
  unfold encodeFailed
  split
  · exact c.refuse_detaching _ _ _
  · rfl
  · rfl

theorem trySend_detaching : c.trySend.state.detaching = c.state.detaching := by
  unfold trySend
  split
  · rfl
  · rfl
  split
  · exact cancelUnsentCommand_detaching _ _
  split
  · exact c.refuse_detaching _ _ _
  · rfl

theorem terminateClosed_detaching : c.terminateClosed.state.detaching = c.state.detaching := by
  unfold terminateClosed
  split
  · exact c.terminateWith_detaching .transportTerminated
  · rfl
  · rfl

theorem abandon_detaching (t : ℕ) : (c.abandon t).state.detaching = c.state.detaching := by
  unfold abandon
  split
  · split <;> rfl
  · split <;> rfl
  · rfl

theorem commandResult_detaching (id : ℕ) (outcome : ControlOutcome) :
    (c.commandResult id outcome).state.detaching = c.state.detaching := by
  unfold commandResult
  split
  · rfl
  split
  · rfl
  · next hr =>
    obtain ⟨p,-,-,rfl,-⟩ := resolveCommand_eq_ok hr
    simp

theorem detachedFrame_detaching : c.detachedFrame.state.detaching = c.state.detaching := by
  unfold detachedFrame
  split
  · rfl
  split
  · rfl
  · next hs =>
    obtain ⟨-,-,rfl⟩ := AttachmentState.finishDetach_eq_ok hs
    rfl

theorem readerTerminates_detaching :
    c.readerTerminates.state.detaching = c.state.detaching := by
  unfold readerTerminates
  split
  · exact c.terminateWith_detaching .protocolViolation
  · rfl

theorem queueDetach_detaching : c.queueDetach.state.detaching = c.state.detaching := by
  unfold queueDetach
  split <;> rfl

theorem write_detaching : c.write.state.detaching = c.state.detaching := by
  unfold write
  split <;> rfl

theorem writeFailed_detaching : c.writeFailed.state.detaching = c.state.detaching := by
  unfold writeFailed
  split
  · rfl
  · exact c.terminateWith_detaching .transportTerminated

/-- Only `begin_detach` marks the attachment as detaching. -/
theorem step_detaching {e : Event} (h : e ≠ .beginDetach) :
    (c.step e).state.detaching = c.state.detaching := by
  cases e with
  | beginDetach => exact absurd rfl h
  | issue kind => exact c.issueCommand_detaching kind
  | encodeFailed => exact c.encodeFailed_detaching
  | trySend => exact c.trySend_detaching
  | terminateClosed => exact c.terminateClosed_detaching
  | abandon t => exact c.abandon_detaching t
  | observationLost => rfl
  | commandResult id outcome => exact c.commandResult_detaching id outcome
  | detachedFrame => exact c.detachedFrame_detaching
  | otherViolation =>
    unfold step
    dsimp only
    split <;> rfl
  | readerTerminates => exact c.readerTerminates_detaching
  | queueDetach => exact c.queueDetach_detaching
  | write => exact c.write_detaching
  | writeFailed => exact c.writeFailed_detaching
  | writerGone => rfl
  | terminate reason => exact c.terminateWith_detaching reason

end Detaching

theorem detaching_run {es : List Event} (h : (c.run es).state.detaching = true) :
    c.state.detaching = true ∨ .beginDetach ∈ es := by
  induction es generalizing c with
  | nil => exact Or.inl h
  | cons e es ih =>
    rcases ih h with hstep | hmem
    · by_cases he : e = .beginDetach
      · exact Or.inr (he ▸ List.mem_cons_self)
      · rw [c.step_detaching he] at hstep
        exact Or.inl hstep
    · exact Or.inr (List.mem_cons_of_mem _ hmem)

/-- The correlation that the attachment keeps for its callers, in one state of a run
that took the given steps. -/
structure Keeps (es : List Event) (c : Connection) : Prop where
  wireIncreasing : (controls c.wire).Pairwise fun a b => a.1 < b.1
  wireAdmitted : ∀ e ∈ controls c.wire, e ∈ c.admitted ∧ 1 ≤ e.1 ∧ e.1 ≤ u32Max
  resolvedOnce : ∀ e ∈ c.admitted,
    c.Waiting e.1 e.2 ∧ c.resolved.count e.2 = 0 ∧ c.state.ended = none ∨
      ¬c.Waiting e.1 e.2 ∧ c.resolved.count e.2 = 1
  cancelledUnsent : ∀ t ∈ c.refused, ∀ fs, ∀ e ∈ controls (c.run fs).wire, e.2 ≠ t
  inputs : c.state.pendingInputs = MapTotals.total PendingCommand.inputs c.state.pending
  bytes : c.state.pendingInputBytes = MapTotals.total PendingCommand.bytes c.state.pending
  capacity : ∀ id p, c.state.pending.lookup id = some p →
    p.inputs ≤ c.state.pendingInputs ∧ p.bytes ≤ c.state.pendingInputBytes
  commandLimit : c.state.pending.entries.length ≤ 64
  inputLimit : c.state.pendingInputs ≤ 32
  byteLimit : c.state.pendingInputBytes ≤ 1024*1024
  invalidResult : ∀ id p outcome message, c.reader = .reading →
    c.state.pending.lookup id = some p → resolveCommand c.state id outcome = .error message →
      ∀ fs, (id,p.resultTx) ∈ ((c.step (.commandResult id outcome)).run fs).admitted →
        ((c.step (.commandResult id outcome)).run fs).Waiting id p.resultTx ∨
          ((c.step (.commandResult id outcome)).run fs).state.ended.isSome ∧ ∃ reason,
            (p.resultTx,.unknown reason) ∈
              ((c.step (.commandResult id outcome)).run fs).resolutions
  detachAccepted : ∀ s, finishDetach c.state = .ok s → .beginDetach ∈ es ∧ c.state.pending = ∅

theorem Correlated.resolvedOnce (h : c.Correlated) {e : ℕ × ℕ} (he : e ∈ c.admitted) :
    c.Waiting e.1 e.2 ∧ c.resolved.count e.2 = 0 ∧ c.state.ended = none ∨
      ¬c.Waiting e.1 e.2 ∧ c.resolved.count e.2 = 1 := by
  by_cases hw : c.Waiting e.1 e.2
  · left
    refine ⟨hw,?_,?_⟩
    · obtain ⟨p,hp,ht⟩ := hw
      rw [List.count_eq_zero,← ht]
      exact (h.known e.1 p hp).2
    · obtain ⟨p,hp,-⟩ := hw
      cases hended : c.state.ended with
      | none => rfl
      | some ending =>
        have hempty := h.funded.ended (by simp [hended])
        rw [hempty] at hp
        cases hp
  · right
    refine ⟨hw,?_⟩
    rcases h.settled e he with hw' | hres
    · exact absurd hw' hw
    · exact List.count_eq_one_of_mem h.once hres

/-- A result that does not fit its command leaves it to the termination that follows. -/
theorem Correlated.invalidResult (h : c.Correlated) {p : PendingCommand} {outcome : ControlOutcome}
    {message : String} (hreading : c.reader = .reading)
    (hp : c.state.pending.lookup id = some p)
    (hr : resolveCommand c.state id outcome = .error message) (fs : List Event)
    (hadmitted : (id,p.resultTx) ∈ ((c.step (.commandResult id outcome)).run fs).admitted) :
    ((c.step (.commandResult id outcome)).run fs).Waiting id p.resultTx ∨
      ((c.step (.commandResult id outcome)).run fs).state.ended.isSome ∧ ∃ reason,
        (p.resultTx,.unknown reason) ∈
          ((c.step (.commandResult id outcome)).run fs).resolutions := by
  have hstep : c.step (.commandResult id outcome) = { c with reader := .violated } := by
    show c.commandResult id outcome = _
    unfold Connection.commandResult
    simp [hreading,hr]
  rw [hstep] at hadmitted ⊢
  have hviolated : Correlated { c with reader := .violated } := { h with }
  rcases (hviolated.run fs).settled _ hadmitted with hw | hres
  · exact Or.inl hw
  right
  have hlater := later_run { c with reader := .violated } fs
  obtain ⟨-,added,hadded,hunknown,hended⟩ := hlater.unheard (by simp)
  obtain ⟨⟨t,r⟩,hmem,ht⟩ := List.mem_map.mp hres
  dsimp only at ht
  subst ht
  have hmem' := hmem
  rw [hadded] at hmem'
  rcases List.mem_append.mp hmem' with hold | hnew
  · have hnot := (h.known id p hp).2
    exact absurd (List.mem_map.mpr ⟨_,hold,rfl⟩) hnot
  · obtain ⟨reason,hreason⟩ := hunknown _ hnew
    dsimp only at hreason
    subst hreason
    exact ⟨hended (List.ne_nil_of_mem hnew),reason,hmem⟩

theorem Correlated.onWire (h : c.Correlated) {e : ℕ × ℕ} (he : e ∈ controls c.wire) :
    e ∈ c.admitted := by
  apply h.written.subset
  rw [controls_append]
  exact List.mem_append_left _ he

theorem commands_correlated (es : List Event) : Keeps es (initial.run es) := by
  have h := correlated_initial.run es
  constructor
  · have hsub : (controls (initial.run es).wire).Sublist (initial.run es).admitted := by
      apply List.Sublist.trans _ h.written
      rw [controls_append]
      exact List.sublist_append_left _ _
    exact (h.increasing.sublist hsub).imp fun hab => hab.1
  · intro e he
    have hadmitted := h.onWire he
    obtain ⟨hpos,hspent,-⟩ := h.spent e hadmitted
    refine ⟨hadmitted,hpos,?_⟩
    have hbound := h.funded.idBounded
    rcases hspent with hlt | ⟨heq,-⟩ <;> omega
  · exact fun e he => h.resolvedOnce he
  · intro t ht fs e he
    have hlater := later_run (initial.run es) fs
    have ht' : t ∈ ((initial.run es).run fs).refused := (hlater.refusals.map Prod.fst).subset ht
    have hfs := h.run fs
    exact (hfs.refusedApart t ht').2.1 e (hfs.onWire he)
  · exact h.funded.inputs
  · exact h.funded.bytes
  · exact fun id p hp => h.funded.covers hp
  · exact h.funded.commandLimit
  · exact h.funded.inputLimit
  · exact h.funded.byteLimit
  · intro id p outcome message hreading hp hr fs hadmitted
    exact h.invalidResult hreading hp hr fs hadmitted
  · intro s hs
    obtain ⟨hdetaching,hempty,-⟩ := AttachmentState.finishDetach_eq_ok hs
    refine ⟨?_,hempty⟩
    rcases detaching_run hdetaching with hstart | hmem
    · cases hstart
    · exact hmem

end Connection
end Client
end Ctxmux
