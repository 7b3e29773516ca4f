import Ctxmux.GeometryChain

/-!
# Geometry that an attachment loses

A receive passes the publications up to the envelope that it takes. It is honest about
the geometry when every resize among them that the client does not hold is sent, is
followed by a later one, is covered by a gap with the geometry cause, or ends the
attachment. The loop compares the count of published resizes with the revision of the
client, which is the same only where every confirmed resize was published.
-/

namespace Ctxmux
namespace Attachment

open Journal (Kept)

/-- A frame that makes up for a resize of this revision. -/
def Covers (r : ℕ) : RunEvent → Prop
  | .resized _ _ r' => r ≤ r'
  | .gap _ causes => causes.geometryLag = true
  | _ => False

instance (r : ℕ) : DecidablePred (Covers r)
  | .resized _ _ r' => inferInstanceAs (Decidable (r ≤ r'))
  | .gap _ causes => inferInstanceAs (Decidable (causes.geometryLag = true))
  | .output _ => inferInstanceAs (Decidable False)
  | .serviceChanged _ => inferInstanceAs (Decidable False)
  | .exited => inferInstanceAs (Decidable False)
  | .interrupted => inferInstanceAs (Decidable False)
  | .tmux => inferInstanceAs (Decidable False)
  | .observationDiscontinuity => inferInstanceAs (Decidable False)

/-- The envelope that a receive of the streaming client takes, and its position. -/
def System.taken (s : System) (client : Client) : Option (ℕ × LiveRunEvent) :=
  if client.phase ≠ .streaming then none
  else
    match s.events.journal.position? client.reader with
    | none => none
    | some position =>
      match (s.events.journal.tryRecv LiveRunEvent.isOutput client.reader position).2 with
      | .event envelope => some (position,envelope)
      | _ => none

/-- The publications that a receive passes. -/
def System.passing (s : System) (client : Client) : List Publication :=
  match s.taken client with
  | none => []
  | some (position,_) => (s.published.take (position+1)).drop client.passed

/-- The attachment is closed, or has ended with the Run. -/
def System.ended (s : System) : Bool :=
  s.client.all fun client => client.phase ≠ .subscribed ∧ client.phase ≠ .streaming

/-- No resize is passed in silence. -/
def Signals (s : System) : Event → Prop
  | .receive authoritative busy =>
    ∀ client ∈ s.client, ∀ x ∈ s.passing client, ∀ size through r,
      x.event = .resized size through r → client.sent.sentResizeRevision < r →
        (∃ frame ∈ (s.receive authoritative busy).2, Covers r frame) ∨
          (s.receive authoritative busy).1.ended = true
  | _ => True

/-- The envelope makes the loop compare cursors. -/
def Recovers (client : Client) (envelope : LiveRunEvent) : Prop :=
  client.receiverLagged = true ∨ envelope.published = .snapshotNeeded

/-- The recovery or the envelope itself ends the attachment. -/
def Ends (client : Client) (envelope : LiveRunEvent) (authoritative : Authoritative) : Prop :=
  lostObservation client.liveCursor (retainedBoundary envelope) = true ∨
  (lostTerminal client.liveCursor (retainedBoundary envelope) = true ∧
    authoritative.terminal.isSome = true) ∨
  ∃ event ∈ envelope.event, event.isTerminal = true

/-- The envelope itself brings geometry that the client does not have. -/
def BringsResize (client : Client) (envelope : LiveRunEvent) : Prop :=
  ∃ size through r, envelope.event = some (.resized size through r) ∧
    client.sent.sentResizeRevision < r

/-- The client's revision lies in the window of the resizes that were never published. -/
def Blind (s : System) (client : Client) (envelope : LiveRunEvent) : Prop :=
  (retainedBoundary envelope).resizeRevision ≤ client.sent.sentResizeRevision ∧
    client.sent.sentResizeRevision < (retainedBoundary envelope).resizeRevision+s.unpublished

/-- A recovery that goes on without geometry of its own does not happen in the blind
window. -/
def Sighted (s : System) : Event → Prop
  | .receive authoritative _ =>
    ∀ client ∈ s.client, ∀ position envelope, s.taken client = some (position,envelope) →
      Recovers client envelope →
      Ends client envelope authoritative ∨ BringsResize client envelope ∨ ¬Blind s client envelope
  | _ => True

section Recovery

variable (authoritative : Authoritative) (delivered retained : LiveEventCursor) (sent : Fences)

theorem recover_sentResize :
    (recoverLaggedDelivery authoritative delivered retained sent).2.1.sentResizeRevision =
      sent.sentResizeRevision := by
  unfold recoverLaggedDelivery
  split
  · rfl
  · simp only
    split <;> split <;> rfl

theorem recover_proceed :
    (recoverLaggedDelivery authoritative delivered retained sent).2.2 = .proceed ↔
      ¬(lostObservation delivered retained = true ∨
        (lostTerminal delivered retained = true ∧ authoritative.terminal.isSome = true)) := by
  unfold recoverLaggedDelivery
  split
  · rename_i hlost
    cases authoritative.terminal <;> simp [hlost]
  · rename_i hlost
    cases authoritative.terminal with
    | none => simp [hlost]
    | some state =>
      simp only [hlost,Bool.false_eq_true,false_or,Option.isSome_some,and_true]
      split <;> simp_all

theorem lagGap_geometry :
    ∃ latest causes, (lagGap authoritative delivered retained sent).1 = .gap latest causes ∧
      causes.geometryLag = lostResize retained sent := by
  refine ⟨_,_,rfl,?_⟩
  unfold OutputGapCauses.union GapCauseRevisions.since
  cases lostResize retained sent <;> rfl

/-- The gap of a recovery covers the geometry exactly when the count shows a loss. -/
theorem recover_covers (r : ℕ) :
    (∃ frame ∈ (recoverLaggedDelivery authoritative delivered retained sent).1, Covers r frame) ↔
      lostObservation delivered retained = false ∧ lostResize retained sent = true := by
  obtain ⟨latest,causes,hgap,hgeometry⟩ := lagGap_geometry authoritative delivered retained sent
  unfold recoverLaggedDelivery
  split
  · rename_i hlost
    simp [hlost,Covers]
  · rename_i hlost
    have hkept : lostObservation delivered retained = false := by simpa using hlost
    have hservice : ∀ revision, ¬Covers r (.serviceChanged revision) := fun _ h => h
    simp only [hkept,true_and]
    by_cases hreported : (lostOutputMarker delivered retained || lostOutputBytes retained sent
        || lostResize retained sent) = true
    · simp only [if_pos hreported,hgap]
      split <;> simp [Covers,hgeometry]
    · simp only [if_neg hreported]
      have hnone : lostResize retained sent = false := by
        simp only [Bool.or_eq_true,not_or] at hreported
        simpa using hreported.2
      split <;> simp [Covers,hnone]

end Recovery

section Acceptance

variable (client : Client) (envelope : LiveRunEvent) (busy : Bool)

theorem endWith_fields (event : RunEvent) :
    (client.endWith event busy).1.sent = client.sent ∧
      (client.endWith event busy).1.phase ≠ .streaming ∧
      (client.endWith event busy).1.phase ≠ .subscribed ∧
      (client.endWith event busy).1.reader = client.reader ∧
      (client.endWith event busy).1.passed = client.passed ∧
      (client.endWith event busy).1.receiverLagged = client.receiverLagged := by
  unfold Client.endWith
  split <;> simp

theorem accept_fields :
    (client.accept envelope busy).1.reader = client.reader ∧
      (client.accept envelope busy).1.passed = client.passed ∧
      (client.accept envelope busy).1.receiverLagged = client.receiverLagged := by
  unfold Client.accept
  cases envelope.event with
  | none => exact ⟨rfl,rfl,rfl⟩
  | some event =>
    simp only
    unfold Client.deliver Client.endWith
    cases event <;> simp only <;> (try split) <;> simp

theorem accept_phase :
    (client.accept envelope busy).1.phase =
      if ∃ event ∈ envelope.event, event.isTerminal = true then
        (if busy then .held else .finished) else client.phase := by
  unfold Client.accept
  cases envelope.event with
  | none => simp
  | some event =>
    simp only [Option.mem_def,Option.some.injEq,exists_eq_left']
    unfold Client.deliver Client.endWith
    cases event <;> simp only [RunEvent.isTerminal] <;> (try split) <;> simp_all

theorem accept_sentResize :
    (client.accept envelope busy).1.sent.sentResizeRevision =
      match envelope.event with
      | some (.resized _ _ r) => max client.sent.sentResizeRevision r
      | _ => client.sent.sentResizeRevision := by
  unfold Client.accept
  cases envelope.event with
  | none => rfl
  | some event =>
    simp only
    unfold Client.deliver Client.endWith
    cases event <;> simp only <;> (try split) <;> simp <;> omega

theorem accept_covers (r : ℕ) :
    (∃ frame ∈ (client.accept envelope busy).2, Covers r frame) ↔
      (∃ event ∈ envelope.event, event.reportsGeometry = true) ∨
        ∃ size through r', envelope.event = some (.resized size through r') ∧
          client.sent.sentResizeRevision < r' ∧ r ≤ r' := by
  unfold Client.accept
  cases envelope.event with
  | none => simp
  | some event =>
    simp only
    unfold Client.deliver Client.endWith
    cases event <;> simp only [RunEvent.reportsGeometry] <;> (try split) <;> simp_all [Covers]

end Acceptance

variable {s : System} {client : Client} {position : ℕ} {x : Publication}
  {authoritative : Authoritative} {busy : Bool}

theorem Inv.received (h : Inv s) {p : ℕ} (hp : s.events.journal.position? client.reader = some p) :
    (∃ n, (s.events.journal.tryRecv LiveRunEvent.isOutput client.reader p).2 = .lagged n ∧
      p ≤ s.events.journal.base ∧
      (s.events.journal.tryRecv LiveRunEvent.isOutput client.reader p).1.position? client.reader =
        some s.events.journal.base) ∨
    ((s.events.journal.tryRecv LiveRunEvent.isOutput client.reader p).2 = .empty ∧
      (s.events.journal.tryRecv LiveRunEvent.isOutput client.reader p).1 = s.events.journal) ∨
    ∃ x, s.published[p]? = some x ∧
      (s.events.journal.tryRecv LiveRunEvent.isOutput client.reader p).2 = .event x.envelope ∧
      (s.events.journal.tryRecv LiveRunEvent.isOutput client.reader p).1.position? client.reader =
        some (p+1) := by
  rcases h.kept.received LiveRunEvent.isOutput h.opened hp with hlagged | hempty | ⟨e,he,hevent,hnext⟩
  · exact .inl hlagged
  · exact .inr (.inl hempty)
  · rw [List.getElem?_map] at he
    obtain ⟨x,hx,rfl⟩ := Option.map_eq_some_iff.mp he
    exact .inr (.inr ⟨x,hx,hevent,hnext⟩)

/-- A receive of a streaming client takes the publication at its position. -/
structure Takes (s : System) (client : Client) (position : ℕ) (x : Publication) : Prop where
  streaming : client.phase = .streaming
  place : s.events.journal.position? client.reader = some position
  publication : s.published[position]? = some x
  result : (s.events.journal.tryRecv LiveRunEvent.isOutput client.reader position).2 =
    .event x.envelope
  next : (s.events.journal.tryRecv LiveRunEvent.isOutput client.reader position).1.position?
    client.reader = some (position+1)

theorem Inv.takes (h : Inv s) {envelope : LiveRunEvent}
    (htaken : s.taken client = some (position,envelope)) :
    ∃ x, Takes s client position x ∧ x.envelope = envelope := by
  unfold System.taken at htaken
  split at htaken
  · cases htaken
  · rename_i hphase
    split at htaken
    · cases htaken
    · rename_i p hp
      split at htaken
      · rename_i envelope' hresult
        cases htaken
        rcases h.received hp with ⟨n,hlagged,-,-⟩ | ⟨hempty,-⟩ | ⟨x,hx,hevent,hnext⟩
        · rw [hlagged] at hresult
          cases hresult
        · rw [hempty] at hresult
          cases hresult
        · rw [hevent] at hresult
          cases hresult
          exact ⟨x,⟨by simpa using hphase,hp,hx,hevent,hnext⟩,rfl⟩
      · cases htaken

theorem Takes.taken (h : Takes s client position x) :
    s.taken client = some (position,x.envelope) := by
  unfold System.taken
  rw [if_neg (not_not_intro h.streaming),h.place]
  simp only [h.result]

/-- What lies between the client and the envelope that it takes. -/
theorem Takes.passing (h : Takes s client position x) (ht : Tracks s client) :
    ∃ skipped, s.passing client = skipped ++ [x] ∧
      s.published.drop client.passed = skipped ++ x::s.published.drop (position+1) ∧
      (client.receiverLagged = false → skipped = []) := by
  obtain ⟨p,hp,hle,hexact⟩ := ht.position
  rw [h.place] at hp
  cases hp
  obtain ⟨hlt,hx⟩ := List.getElem?_eq_some_iff.mp h.publication
  refine ⟨(s.published.take position).drop client.passed,?_,?_,fun hnot => ?_⟩
  · unfold System.passing
    rw [h.taken]
    simp only
    rw [List.take_add_one,h.publication,Option.toList_some,
      List.drop_append_of_le_length (by rw [List.length_take]; omega)]
  · have hsplit : s.published = s.published.take position ++ x::s.published.drop (position+1) := by
      rw [← hx,← List.drop_eq_getElem_cons hlt,List.take_append_drop]
    have hdrop := congrArg (List.drop client.passed) hsplit
    rw [List.drop_append_of_le_length (by rw [List.length_take]; omega)] at hdrop
    exact hdrop
  · rw [← hexact hnot]
    simp

section Handling

variable (client : Client) (envelope : LiveRunEvent) (position : ℕ)
  (authoritative : Authoritative) (busy : Bool)

/-- The client in which a recovery that goes on leaves the loop. -/
def Client.recovered : Client :=
  { client with
    passed := position+1
    receiverLagged := false
    sent := (recoverLaggedDelivery authoritative client.liveCursor (retainedBoundary envelope)
      client.sent).2.1 }

theorem handle_plain (h : ¬Recovers client envelope) :
    client.handle envelope position authoritative busy =
      Client.accept { client with passed := position+1 } envelope busy := by
  unfold Recovers at h
  unfold Client.handle
  rw [if_neg (by simpa using h)]

theorem handle_proceed (h : Recovers client envelope)
    (hproceed : (recoverLaggedDelivery authoritative client.liveCursor (retainedBoundary envelope)
      client.sent).2.2 = .proceed) :
    client.handle envelope position authoritative busy =
      (((client.recovered envelope position authoritative).accept envelope busy).1,
        (recoverLaggedDelivery authoritative client.liveCursor (retainedBoundary envelope)
          client.sent).1 ++
          ((client.recovered envelope position authoritative).accept envelope busy).2) := by
  unfold Recovers at h
  unfold Client.handle
  rw [if_pos (by simpa using h)]
  simp only [hproceed]
  rfl

theorem handle_stops (h : Recovers client envelope)
    (hstops : (recoverLaggedDelivery authoritative client.liveCursor (retainedBoundary envelope)
      client.sent).2.2 ≠ .proceed) :
    (client.handle envelope position authoritative busy).1.phase ≠ .streaming ∧
      (client.handle envelope position authoritative busy).1.phase ≠ .subscribed ∧
      (client.handle envelope position authoritative busy).1.reader = client.reader ∧
      (client.handle envelope position authoritative busy).1.passed = position+1 ∧
      (client.handle envelope position authoritative busy).1.receiverLagged = false := by
  unfold Recovers at h
  unfold Client.handle
  rw [if_pos (by simpa using h)]
  simp only
  split
  · simp
  · rename_i event hevent
    obtain ⟨-,hstreaming,hsubscribed,hreader,hpassed,hlagged⟩ := endWith_fields
      (client.recovered envelope position authoritative) busy event
    exact ⟨hstreaming,hsubscribed,hreader,hpassed,hlagged⟩
  · rename_i hproceed
    exact absurd hproceed hstops

theorem handle_fields :
    (client.handle envelope position authoritative busy).1.reader = client.reader ∧
      (client.handle envelope position authoritative busy).1.passed = position+1 ∧
      (client.handle envelope position authoritative busy).1.receiverLagged = false := by
  by_cases hrecovers : Recovers client envelope
  · by_cases hproceed : (recoverLaggedDelivery authoritative client.liveCursor
      (retainedBoundary envelope) client.sent).2.2 = .proceed
    · rw [handle_proceed client envelope position authoritative busy hrecovers hproceed]
      exact accept_fields (client.recovered envelope position authoritative) envelope busy
    · obtain ⟨-,-,hfields⟩ :=
        handle_stops client envelope position authoritative busy hrecovers hproceed
      exact hfields
  · rw [handle_plain client envelope position authoritative busy hrecovers]
    obtain ⟨hreader,hpassed,hlagged⟩ :=
      accept_fields { client with passed := position+1 } envelope busy
    refine ⟨hreader,hpassed,hlagged.trans ?_⟩
    unfold Recovers at hrecovers
    simpa using (not_or.mp hrecovers).1

/-- The stream goes on unless the recovery or the envelope ends it. -/
theorem handle_phase (h : client.phase = .streaming) :
    (client.handle envelope position authoritative busy).1.phase ≠ .subscribed ∧
      ((client.handle envelope position authoritative busy).1.phase = .streaming ↔
        ¬((Recovers client envelope ∧
          (lostObservation client.liveCursor (retainedBoundary envelope) = true ∨
            (lostTerminal client.liveCursor (retainedBoundary envelope) = true ∧
              authoritative.terminal.isSome = true))) ∨
          ∃ event ∈ envelope.event, event.isTerminal = true)) := by
  by_cases hrecovers : Recovers client envelope
  · by_cases hproceed : (recoverLaggedDelivery authoritative client.liveCursor
      (retainedBoundary envelope) client.sent).2.2 = .proceed
    · rw [handle_proceed client envelope position authoritative busy hrecovers hproceed]
      simp only [accept_phase,Client.recovered,h]
      have hgoes := (recover_proceed authoritative client.liveCursor (retainedBoundary envelope)
        client.sent).mp hproceed
      split
      · rename_i hterminal
        exact ⟨by split <;> simp,iff_of_false (by split <;> simp) (not_not_intro (.inr hterminal))⟩
      · rename_i hterminal
        refine ⟨by simp,iff_of_true rfl ?_⟩
        rintro (⟨-,hends⟩ | hends)
        · exact hgoes hends
        · exact hterminal hends
    · obtain ⟨hstreaming,hsubscribed,-⟩ :=
        handle_stops client envelope position authoritative busy hrecovers hproceed
      refine ⟨hsubscribed,iff_of_false hstreaming (not_not_intro (.inl ⟨hrecovers,?_⟩))⟩
      by_contra hgoes
      exact hproceed ((recover_proceed authoritative client.liveCursor (retainedBoundary envelope)
        client.sent).mpr hgoes)
  · rw [handle_plain client envelope position authoritative busy hrecovers]
    simp only [accept_phase,h]
    split
    · rename_i hterminal
      exact ⟨by split <;> simp,iff_of_false (by split <;> simp) (not_not_intro (.inr hterminal))⟩
    · rename_i hterminal
      refine ⟨by simp,iff_of_true rfl ?_⟩
      rintro (⟨hr,-⟩ | hends)
      · exact hrecovers hr
      · exact hterminal hends

theorem handle_sentResize
    (hstreaming : (client.handle envelope position authoritative busy).1.phase = .streaming) :
    (client.handle envelope position authoritative busy).1.sent.sentResizeRevision =
      match envelope.event with
      | some (.resized _ _ r) => max client.sent.sentResizeRevision r
      | _ => client.sent.sentResizeRevision := by
  by_cases hrecovers : Recovers client envelope
  · by_cases hproceed : (recoverLaggedDelivery authoritative client.liveCursor
      (retainedBoundary envelope) client.sent).2.2 = .proceed
    · rw [handle_proceed client envelope position authoritative busy hrecovers hproceed,
        accept_sentResize]
      simp only [Client.recovered,recover_sentResize]
    · exact absurd hstreaming
        (handle_stops client envelope position authoritative busy hrecovers hproceed).1
  · rw [handle_plain client envelope position authoritative busy hrecovers,accept_sentResize]

/-- The frames of a receive that goes on cover a resize when the count shows a loss or
when the envelope brings geometry of its own. -/
theorem handle_covers (r : ℕ)
    (hproceed : Recovers client envelope → (recoverLaggedDelivery authoritative client.liveCursor
      (retainedBoundary envelope) client.sent).2.2 = .proceed) :
    (∃ frame ∈ (client.handle envelope position authoritative busy).2, Covers r frame) ↔
      (Recovers client envelope ∧ lostResize (retainedBoundary envelope) client.sent = true) ∨
      (∃ event ∈ envelope.event, event.reportsGeometry = true) ∨
        ∃ size through r', envelope.event = some (.resized size through r') ∧
          client.sent.sentResizeRevision < r' ∧ r ≤ r' := by
  by_cases hrecovers : Recovers client envelope
  · have hgoes := (recover_proceed authoritative client.liveCursor (retainedBoundary envelope)
      client.sent).mp (hproceed hrecovers)
    have hkept : lostObservation client.liveCursor (retainedBoundary envelope) = false := by
      simpa using (not_or.mp hgoes).1
    have hrecovery := recover_covers authoritative client.liveCursor (retainedBoundary envelope)
      client.sent r
    have haccept := accept_covers (client.recovered envelope position authoritative) envelope busy r
    simp only [hkept,true_and] at hrecovery
    simp only [Client.recovered,recover_sentResize] at haccept
    rw [handle_proceed client envelope position authoritative busy hrecovers (hproceed hrecovers)]
    simp only [List.mem_append,or_and_right,exists_or,hrecovers,true_and]
    rw [hrecovery]
    exact or_congr_right haccept
  · rw [handle_plain client envelope position authoritative busy hrecovers,accept_covers]
    simp [hrecovers]

end Handling

theorem Takes.receive (h : Takes s client position x) (hclient : s.client = some client) :
    s.receive authoritative busy =
      ({ s with
        events := { s.events with
          journal := (s.events.journal.tryRecv LiveRunEvent.isOutput client.reader position).1 }
        client := some (client.handle x.envelope position authoritative busy).1 },
        (client.handle x.envelope position authoritative busy).2) := by
  unfold System.receive
  rw [hclient]
  simp only [h.streaming,ne_eq,not_true_eq_false,if_false,h.place,h.result]

theorem Takes.ended (h : Takes s client position x) (hclient : s.client = some client) :
    (s.receive authoritative busy).1.ended = true ↔
      (client.handle x.envelope position authoritative busy).1.phase ≠ .streaming := by
  have hphase := (handle_phase client x.envelope position authoritative busy h.streaming).1
  rw [h.receive hclient]
  simp [System.ended,hphase]

/-- The boundary of a recovery in the counts of the chain. -/
theorem boundary_le {u c : ℕ} {skipped : List Publication}
    (hskipped : Chain u c skipped x.envelope.before.resizeRevision)
    (hx : Stamped u x.envelope.before.resizeRevision x) :
    c ≤ (retainedBoundary x.envelope).resizeRevision := by
  have hle := hskipped.le
  have hafter := hx.after
  unfold retainedBoundary
  split
  · split at hafter <;> omega
  · exact hle

/-- After the step the client holds the geometry or the count shows that it does not. -/
theorem held_after {u c sent : ℕ} {skipped : List Publication}
    (hskipped : Chain u c skipped x.envelope.before.resizeRevision)
    (hx : Stamped u x.envelope.before.resizeRevision x)
    (hheld : c+u ≤ client.sent.sentResizeRevision ∨ client.sent.sentResizeRevision < c)
    (hplain : ¬Recovers client x.envelope → skipped = [])
    (hsighted : Recovers client x.envelope → BringsResize client x.envelope ∨
      ¬((retainedBoundary x.envelope).resizeRevision ≤ client.sent.sentResizeRevision ∧
        client.sent.sentResizeRevision < (retainedBoundary x.envelope).resizeRevision+u))
    (hsent : sent = match x.envelope.event with
      | some (.resized _ _ r) => max client.sent.sentResizeRevision r
      | _ => client.sent.sentResizeRevision) :
    x.envelope.after.resizeRevision+u ≤ sent ∨ sent < x.envelope.after.resizeRevision := by
  have hafter := hx.after
  by_cases hneeded : x.envelope.published = .snapshotNeeded
  · have hevent : x.envelope.event = none := by simp [LiveRunEvent.event,hneeded]
    rw [hevent] at hsent
    rcases hsighted (.inr hneeded) with ⟨size,through,r,hr,-⟩ | hnot
    · rw [hevent] at hr
      cases hr
    · simp only [retainedBoundary,if_pos hneeded] at hnot
      simp only at hsent
      omega
  · cases hresized : x.event.isResized with
    | true =>
      have hfunded : x.envelope.published = .funded x.event :=
        (hx.carried hresized).resolve_right hneeded
      have hevent : x.envelope.event = some x.event := by simp [LiveRunEvent.event,hfunded]
      cases hkind : x.event with
      | resized size through r =>
        have hrevision := hx.revision size through r hkind
        rw [hkind] at hevent
        rw [hresized,if_pos rfl] at hafter
        rw [hevent] at hsent
        simp only at hsent
        left
        omega
      | _ =>
        rw [hkind] at hresized
        cases hresized
    | false =>
      have hevent := hx.plain hresized
      rw [hresized] at hafter
      simp only [Bool.false_eq_true,if_false] at hafter
      have hsame : sent = client.sent.sentResizeRevision := by
        rw [hsent]
        split
        · rename_i hr
          have := hevent _ hr
          cases this
        · rfl
      by_cases hrecovers : Recovers client x.envelope
      · rcases hsighted hrecovers with ⟨size,through,r,hr,-⟩ | hnot
        · have := hevent _ hr
          cases this
        · simp only [retainedBoundary,if_neg hneeded] at hnot
          omega
      · have hnone := hplain hrecovers
        subst hnone
        have hc : c = x.envelope.before.resizeRevision := hskipped
        omega

/-- The publications between the client and its envelope, as a chain. -/
theorem Takes.chain (h : Takes s client position x) (ht : Tracks s client) :
    ∃ c skipped, s.passing client = skipped ++ [x] ∧
      Chain s.unpublished c skipped x.envelope.before.resizeRevision ∧
      Stamped s.unpublished x.envelope.before.resizeRevision x ∧
      Chain s.unpublished x.envelope.after.resizeRevision (s.published.drop (position+1))
        s.events.cursor.resizeRevision ∧
      (c+s.unpublished ≤ client.sent.sentResizeRevision ∨ client.sent.sentResizeRevision < c) ∧
      (client.receiverLagged = false → skipped = []) := by
  obtain ⟨c,hchain,hheld⟩ := ht.chain
  obtain ⟨skipped,hpassing,hdrop,hnone⟩ := h.passing ht
  rw [hdrop] at hchain
  obtain ⟨hskipped,hx,hlater⟩ := hchain.split
  exact ⟨c,skipped,hpassing,hskipped,hx,hlater,hheld h.streaming,hnone⟩

theorem not_recovers {envelope : LiveRunEvent} (h : ¬Recovers client envelope) :
    client.receiverLagged = false := by
  unfold Recovers at h
  simpa using (not_or.mp h).1

theorem Takes.inv (h : Takes s client position x) (hs : Inv s) (hclient : s.client = some client)
    (hsighted : Sighted s (.receive authoritative busy)) :
    Inv (s.receive authoritative busy).1 := by
  have htracked := hs.tracked client hclient
  obtain ⟨c,skipped,-,hskipped,hx,hlater,hheld,hnone⟩ := h.chain htracked
  obtain ⟨p',-,hkept,hclosed,-,-,-⟩ := hs.kept.tryRecv LiveRunEvent.isOutput h.place
  obtain ⟨hreader,hpassed,hlagged⟩ :=
    handle_fields client x.envelope position authoritative busy
  rw [h.receive hclient]
  refine ⟨hkept,hclosed.trans hs.opened,hs.terminal,hs.resizing,hs.counted,fun client' hclient' => ?_⟩
  cases hclient'
  refine ⟨⟨position+1,?_,hpassed.le,fun _ => hpassed.symm⟩,x.envelope.after.resizeRevision,?_,
    fun hstreaming => ?_⟩
  · rw [hreader]
    exact h.next
  · rw [hpassed]
    exact hlater
  · have hgoes := ((handle_phase client x.envelope position authoritative busy h.streaming).2).mp
      hstreaming
    refine held_after hskipped hx hheld (fun hr => hnone (not_recovers hr)) (fun hr => ?_)
      (handle_sentResize client x.envelope position authoritative busy hstreaming)
    rcases hsighted client hclient position x.envelope h.taken hr with hends | hbrings | hnot
    · refine absurd ?_ hgoes
      rcases hends with hends | hends | hends
      · exact .inl ⟨hr,.inl hends⟩
      · exact .inl ⟨hr,.inr hends⟩
      · exact .inr hends
    · exact .inl hbrings
    · exact .inr hnot

theorem Inv.receive (h : Inv s) (hsighted : Sighted s (.receive authoritative busy)) :
    Inv (s.receive authoritative busy).1 := by
  cases hclient : s.client with
  | none =>
    unfold System.receive
    rw [hclient]
    exact h
  | some client =>
    have htracked := h.tracked client hclient
    by_cases hphase : client.phase = .streaming
    · obtain ⟨p,hp,hle,-⟩ := htracked.position
      rcases h.received hp with ⟨n,hlagged,hbase,hposition⟩ | ⟨hempty,hsame⟩ | ⟨x,hx,hevent,hnext⟩
      · obtain ⟨p',-,hkept,hclosed,-,-,-⟩ := h.kept.tryRecv LiveRunEvent.isOutput hp
        unfold System.receive
        rw [hclient]
        simp only [hphase,ne_eq,not_true_eq_false,if_false,hp,hlagged]
        refine ⟨hkept,hclosed.trans h.opened,h.terminal,h.resizing,h.counted,
          fun client' hclient' => ?_⟩
        cases hclient'
        obtain ⟨c,hchain,hheld⟩ := htracked.chain
        exact ⟨⟨_,hposition,hle.trans hbase,(fun hnot => by cases hnot)⟩,c,hchain,
          fun _ => hheld hphase⟩
      · unfold System.receive
        rw [hclient]
        simp only [hphase,ne_eq,not_true_eq_false,if_false,hp,hempty,hsame]
        rw [← hclient]
        exact h
      · exact Takes.inv ⟨hphase,hp,hx,hevent,hnext⟩ h hclient hsighted
    · unfold System.receive
      rw [hclient]
      simp only [if_pos hphase]
      exact h

theorem inv_step (h : Inv s) {e : Event} (hsighted : Sighted s e) : Inv (s.step e) := by
  cases e with
  | append bytes =>
    show Inv (if s.resizing.isSome then s
      else { s with log := { s.log with latestOutputBytes := s.log.latestOutputBytes+bytes } })
    split
    · exact h
    · exact ⟨h.kept,h.opened,h.terminal,h.resizing,h.counted,fun client hclient =>
        (h.tracked client hclient).of_fields rfl rfl rfl rfl⟩
  | faultTerminal =>
    show Inv (if s.resizing.isSome then s else { s with log := { s.log with terminal := none } })
    split
    · exact h
    · exact ⟨h.kept,h.opened,by simp,h.resizing,h.counted,fun client hclient =>
        (h.tracked client hclient).of_fields rfl rfl rfl rfl⟩
  | resize size fault => exact h.resize size fault
  | publishResized grow refusals => exact h.publishResized grow refusals
  | publish event grow refusals => exact h.publish event grow refusals
  | subscribeOther grow => exact h.subscribeOther grow
  | receiveOther reader => exact h.receiveOther reader
  | dropOther reader => exact h.dropOther reader
  | detachOther =>
    exact ⟨h.kept,h.opened,h.terminal,h.resizing,h.counted,fun client hclient =>
      (h.tracked client hclient).of_fields rfl rfl rfl rfl⟩
  | takeSender => exact h.takeSender
  | attach grow => exact h.attach grow
  | snapshot authoritative => exact h.snapshot authoritative
  | receive authoritative busy => exact h.receive hsighted
  | detach => exact h.detach

/-- A resize that was funded is carried by its envelope. -/
theorem Stamped.carries {u c : ℕ} (h : Stamped u c x) (hneeded : x.envelope.published ≠ .snapshotNeeded)
    {size : TerminalSize} {through r : ℕ} (hr : x.event = .resized size through r) :
    x.envelope.event = some (.resized size through r) := by
  have hfunded := (h.carried (by rw [hr]; rfl)).resolve_right hneeded
  simp [LiveRunEvent.event,hfunded,hr]

/-- The geometry of an envelope is the revision of its count. -/
theorem Stamped.brings {u c : ℕ} (h : Stamped u c x) {size : TerminalSize} {through r : ℕ}
    (hr : x.envelope.event = some (.resized size through r)) :
    r = x.envelope.after.resizeRevision+u := by
  have hafter := h.after
  cases hresized : x.event.isResized with
  | false =>
    have := h.plain hresized _ hr
    cases this
  | true =>
    rw [hresized,if_pos rfl] at hafter
    rcases h.carried hresized with hfunded | hneeded
    · rw [LiveRunEvent.event,hfunded] at hr
      have := h.revision size through r (Option.some.inj hr)
      omega
    · rw [LiveRunEvent.event,hneeded] at hr
      cases hr

section Iff

variable (h : Takes s client position x) (hs : Inv s) (hclient : s.client = some client)
include h hs hclient

/-- A blind recovery that goes on passes a resize in silence. -/
theorem Takes.silent (hgoes : ¬Ends client x.envelope authoritative)
    (hplain : ¬BringsResize client x.envelope) (hblind : Blind s client x.envelope) :
    ∃ y ∈ s.passing client, ∃ size through r, y.event = .resized size through r ∧
      client.sent.sentResizeRevision < r ∧
      ¬((∃ frame ∈ (s.receive authoritative busy).2, Covers r frame) ∨
        (s.receive authoritative busy).1.ended = true) := by
  obtain ⟨c,skipped,hpassing,hskipped,hx,-,hheld,-⟩ := h.chain (hs.tracked client hclient)
  have hboundary := boundary_le hskipped hx
  obtain ⟨hlow,hhigh⟩ := hblind
  have hlast : ∃ y ∈ skipped ++ [x], ∃ size through,
      y.event = .resized size through ((retainedBoundary x.envelope).resizeRevision+s.unpublished) := by
    by_cases hneeded : x.envelope.published = .snapshotNeeded
    · have hwhole := hskipped.append hx
      simp only [retainedBoundary,if_pos hneeded] at hboundary hlow hhigh ⊢
      exact hwhole.last (by omega)
    · simp only [retainedBoundary,if_neg hneeded] at hboundary hlow hhigh ⊢
      obtain ⟨y,hy,hevent⟩ := hskipped.last (by omega)
      exact ⟨y,List.mem_append_left _ hy,hevent⟩
  obtain ⟨y,hy,size,through,hevent⟩ := hlast
  refine ⟨y,hpassing ▸ hy,size,through,_,hevent,hhigh,?_⟩
  rw [h.ended hclient,h.receive hclient]
  rintro (hcovered | hended)
  · rw [handle_covers client x.envelope position authoritative busy _ fun _ =>
      (recover_proceed _ _ _ _).mpr fun hlost => hgoes (by
        rcases hlost with hlost | hlost
        · exact .inl hlost
        · exact .inr (.inl hlost))] at hcovered
    rcases hcovered with ⟨-,hlost⟩ | ⟨event,hin,hgeometry⟩ | ⟨size',through',r',hin,hlt,-⟩
    · simp only [lostResize,decide_eq_true_eq] at hlost
      omega
    · rw [hx.shared event hin] at hgeometry
      cases hgeometry
    · exact hplain ⟨size',through',r',hin,hlt⟩
  · refine hended ((handle_phase client x.envelope position authoritative busy h.streaming).2.mpr ?_)
    rintro (⟨-,hends | hends⟩ | hends)
    · exact hgoes (.inl hends)
    · exact hgoes (.inr (.inl hends))
    · exact hgoes (.inr (.inr hends))

/-- Outside of the blind window every resize is accounted for. -/
theorem Takes.honest (hsighted : Recovers client x.envelope → Ends client x.envelope authoritative ∨
      BringsResize client x.envelope ∨ ¬Blind s client x.envelope)
    {y : Publication} (hy : y ∈ s.passing client) {size : TerminalSize} {through r : ℕ}
    (hevent : y.event = .resized size through r) (hlt : client.sent.sentResizeRevision < r) :
    (∃ frame ∈ (s.receive authoritative busy).2, Covers r frame) ∨
      (s.receive authoritative busy).1.ended = true := by
  obtain ⟨c,skipped,hpassing,hskipped,hx,-,-,hnone⟩ := h.chain (hs.tracked client hclient)
  rw [hpassing] at hy
  have hwhole := (hskipped.append hx).revision_le hy hevent
  rw [h.ended hclient,h.receive hclient]
  by_cases hgoes : (client.handle x.envelope position authoritative busy).1.phase = .streaming
  · left
    have hphase := (handle_phase client x.envelope position authoritative busy h.streaming).2.mp hgoes
    have hproceed : Recovers client x.envelope → (recoverLaggedDelivery authoritative
        client.liveCursor (retainedBoundary x.envelope) client.sent).2.2 = .proceed := fun hr =>
      (recover_proceed _ _ _ _).mpr fun hlost => hphase (.inl ⟨hr,hlost⟩)
    rw [handle_covers client x.envelope position authoritative busy r hproceed]
    have hcarried : y = x → x.envelope.published ≠ .snapshotNeeded →
        ∃ size through r', x.envelope.event = some (.resized size through r') ∧
          client.sent.sentResizeRevision < r' ∧ r ≤ r' := by
      rintro rfl hneeded
      exact ⟨size,through,r,hx.carries hneeded hevent,hlt,le_rfl⟩
    by_cases hr : Recovers client x.envelope
    · rcases hsighted hr with hends | ⟨size',through',r',hin,hlt'⟩ | hnot
      · refine absurd ?_ hphase
        rcases hends with hends | hends | hends
        · exact .inl ⟨hr,.inl hends⟩
        · exact .inl ⟨hr,.inr hends⟩
        · exact .inr hends
      · have hbrings := hx.brings hin
        exact .inr (.inr ⟨size',through',r',hin,hlt',by omega⟩)
      · by_cases hlost : client.sent.sentResizeRevision < (retainedBoundary x.envelope).resizeRevision
        · exact .inl ⟨hr,by simpa [lostResize] using hlost⟩
        · have hcovered : (retainedBoundary x.envelope).resizeRevision+s.unpublished ≤
              client.sent.sentResizeRevision := by
            unfold Blind at hnot
            omega
          by_cases hneeded : x.envelope.published = .snapshotNeeded
          · simp only [retainedBoundary,if_pos hneeded] at hcovered
            omega
          · simp only [retainedBoundary,if_neg hneeded] at hcovered
            rcases List.mem_append.mp hy with hin | hin
            · have := hskipped.revision_le hin hevent
              omega
            · exact .inr (.inr (hcarried (List.mem_singleton.mp hin) hneeded))
    · have hempty := hnone (not_recovers hr)
      subst hempty
      have hneeded : x.envelope.published ≠ .snapshotNeeded := fun heq => hr (.inr heq)
      exact .inr (.inr (hcarried (List.mem_singleton.mp hy) hneeded))
  · exact .inr hgoes

end Iff

/-- In a state that a run has reached without a blind recovery, a step is honest exactly
when it is not blind. -/
theorem signals_iff_sighted (h : Inv s) (e : Event) : Signals s e ↔ Sighted s e := by
  cases e with
  | receive authoritative busy =>
    constructor
    · intro hsignals client hclient position envelope htaken hr
      obtain ⟨x,htakes,rfl⟩ := h.takes htaken
      by_contra hnot
      push Not at hnot
      obtain ⟨hgoes,hplain,hblind⟩ := hnot
      obtain ⟨y,hy,size,through,r,hevent,hlt,hsilent⟩ : ∃ y ∈ s.passing client, ∃ size through r,
          y.event = .resized size through r ∧ client.sent.sentResizeRevision < r ∧
          ¬((∃ frame ∈ (s.receive authoritative busy).2, Covers r frame) ∨
            (s.receive authoritative busy).1.ended = true) :=
        htakes.silent h hclient hgoes hplain hblind
      exact hsilent (hsignals client hclient y hy size through r hevent hlt)
    · intro hsighted client hclient y hy size through r hevent hlt
      cases htaken : s.taken client with
      | none =>
        rw [System.passing,htaken] at hy
        cases hy
      | some taken =>
        obtain ⟨position,envelope⟩ := taken
        obtain ⟨x,htakes,rfl⟩ := h.takes htaken
        exact htakes.honest h hclient (hsighted client hclient position x.envelope htaken) hy hevent hlt
  | _ => exact Iff.rfl

/-- A run passes no resize in silence exactly when none of its recoveries is blind. -/
theorem geometry_signalled_iff (latestOutputBytes : ℕ) (checkpoint : Option ℕ) (events : List Event) :
    Machine.Along System.step Signals (System.start latestOutputBytes checkpoint) events ↔
      Machine.Along System.step Sighted (System.start latestOutputBytes checkpoint) events :=
  Machine.along_iff_along (I := Inv) (fun _ _ hs hsighted => inv_step hs hsighted)
    (fun _ e hs => signals_iff_sighted hs e) (inv_start latestOutputBytes checkpoint) events

/-- One resize while nobody is attached, an attachment, and one resize whose event cannot
be funded. -/
def unattachedResize : List Event :=
  [.resize ⟨24,80⟩ false,.attach (some 0),.snapshot ⟨none,0,none⟩,.resize ⟨30,100⟩ false,
    .publishResized none none,.receive ⟨none,0,none⟩ false]

/-- The client holds revision one and passes revision two; it is sent nothing, and the
attachment streams on. -/
theorem unattached_resize_hides_geometry :
    ¬Machine.Along System.step Signals (System.start 0 none) unattachedResize ∧
    (Machine.run System.step (System.start 0 none) unattachedResize).client.map
      (fun client => (client.sent.sentResizeRevision,client.phase)) = some (1,.streaming) ∧
    (Machine.run System.step (System.start 0 none) unattachedResize).log.resizeRevision = 2 := by
  refine ⟨fun h => ?_,by decide,by decide⟩
  obtain ⟨-,-,-,-,-,hsignals,-⟩ := h
  have hcovered := hsignals _ rfl _ (List.mem_singleton.mpr rfl) ⟨30,100⟩ 0 2 rfl (by decide)
  exact absurd hcovered (by decide)

end Attachment
end Ctxmux
