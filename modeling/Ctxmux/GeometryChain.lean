import Ctxmux.AttachmentLoop
import Ctxmux.PublishedEvents

/-!
# Counting the published resizes

The cursor of the publisher counts the resizes that it published, the log counts those
that were confirmed. The difference stays as it is while an attachment exists, so that
the revision of a published resize is its count in the cursor plus this difference.
-/

namespace Ctxmux
namespace Attachment

open Journal (Kept)

/-- The stamps of a publication when `c` resizes were published before it and `u` never. -/
structure Stamped (u c : ℕ) (x : Publication) : Prop where
  before : x.envelope.before.resizeRevision = c
  after : x.envelope.after.resizeRevision = if x.event.isResized then c+1 else c
  revision : ∀ size through r, x.event = .resized size through r → r = c+1+u
  carried : x.event.isResized = true →
    x.envelope.published = .funded x.event ∨ x.envelope.published = .snapshotNeeded
  plain : x.event.isResized = false → ∀ e ∈ x.envelope.event, e.isResized = false
  shared : ∀ e ∈ x.envelope.event, e.reportsGeometry = false

/-- Consecutive publications take the count from `c` to `c'`. -/
def Chain (u : ℕ) : ℕ → List Publication → ℕ → Prop
  | c, [], c' => c = c'
  | c, x::xs, c' => Stamped u c x ∧ Chain u x.envelope.after.resizeRevision xs c'

variable {u c c' : ℕ} {x : Publication} {xs ys : List Publication} {event : RunEvent}

namespace Chain

theorem append (h : Chain u c xs c') (hx : Stamped u c' x) :
    Chain u c (xs ++ [x]) x.envelope.after.resizeRevision := by
  induction xs generalizing c with
  | nil =>
    cases h
    exact ⟨hx,rfl⟩
  | cons y ys ih => exact ⟨h.1,ih h.2⟩

theorem split (h : Chain u c (xs ++ x::ys) c') :
    Chain u c xs x.envelope.before.resizeRevision ∧
      Stamped u x.envelope.before.resizeRevision x ∧
      Chain u x.envelope.after.resizeRevision ys c' := by
  induction xs generalizing c with
  | nil =>
    obtain ⟨hx,hys⟩ := h
    have hbefore := hx.before
    subst hbefore
    exact ⟨rfl,hx,hys⟩
  | cons y zs ih =>
    obtain ⟨hzs,hx,hys⟩ := ih h.2
    exact ⟨⟨h.1,hzs⟩,hx,hys⟩

theorem le (h : Chain u c xs c') : c ≤ c' := by
  induction xs generalizing c with
  | nil => exact h.le
  | cons y ys ih =>
    have hrest := ih h.2
    have hafter := h.1.after
    split at hafter <;> omega

/-- The revisions of the published resizes lie above the first count. -/
theorem revision_le (h : Chain u c xs c') (hx : x ∈ xs) {size : TerminalSize} {through r : ℕ}
    (hr : x.event = .resized size through r) : c+u < r ∧ r ≤ c'+u := by
  induction xs generalizing c with
  | nil => cases hx
  | cons y ys ih =>
    have hafter := h.1.after
    have hle := h.2.le
    rcases List.mem_cons.mp hx with rfl | hin
    · have hrevision := h.1.revision size through r hr
      rw [hr] at hafter
      simp only [RunEvent.isResized,if_true] at hafter
      omega
    · obtain ⟨hlow,hhigh⟩ := ih h.2 hin
      refine ⟨?_,hhigh⟩
      split at hafter <;> omega

/-- The last resize has the revision of the last count. -/
theorem last (h : Chain u c xs c') (hlt : c < c') :
    ∃ x ∈ xs, ∃ size through, x.event = .resized size through (c'+u) := by
  induction xs generalizing c with
  | nil => exact absurd h.symm hlt.ne'
  | cons y ys ih =>
    obtain ⟨hy,hys⟩ := h
    by_cases hrest : y.envelope.after.resizeRevision < c'
    · obtain ⟨x,hx,hevent⟩ := ih hys hrest
      exact ⟨x,List.mem_cons_of_mem y hx,hevent⟩
    · have heq : y.envelope.after.resizeRevision = c' := le_antisymm hys.le (not_lt.mp hrest)
      have hafter := hy.after
      cases hevent : y.event with
      | resized size through r =>
        have hrevision := hy.revision size through r hevent
        rw [hevent] at hafter
        simp only [RunEvent.isResized,if_true] at hafter
        refine ⟨y,by simp,size,through,?_⟩
        rw [hevent]
        congr 1
        omega
      | _ =>
        rw [hevent] at hafter
        simp only [RunEvent.isResized,Bool.false_eq_true,if_false] at hafter
        omega

end Chain

@[simp] theorem record_resizeRevision (cursor : LiveEventCursor) (event : RunEvent) :
    (cursor.record event).resizeRevision =
      if event.isResized then cursor.resizeRevision+1 else cursor.resizeRevision := by
  cases event <;> rfl

@[simp] theorem unfunded_isResized (event : RunEvent) : event.unfunded.isResized = event.isResized := by
  cases event <;> rfl

theorem unfunded_resized (h : event.isResized = true) : event.unfunded = event := by
  cases event with
  | resized size through r => rfl
  | _ => cases h

theorem marker_resized (h : event.isResized = true) :
    event.marker = .snapshotNeeded := by
  cases event with
  | resized size through r => rfl
  | _ => cases h

theorem marker_event {before after : LiveEventCursor} :
    ∀ e ∈ (⟨event.marker,before,after⟩ : LiveRunEvent).event, e.isResized = false := by
  intro e he
  cases event <;> cases he <;> rfl

theorem unfunded_reportsGeometry (h : event.reportsGeometry = false) :
    event.unfunded.reportsGeometry = false := by
  cases event with
  | gap latest causes => exact h
  | _ => rfl

theorem marker_reportsGeometry (h : event.reportsGeometry = false) {before after : LiveEventCursor}
    :
    ∀ e ∈ (⟨event.marker,before,after⟩ : LiveRunEvent).event, e.reportsGeometry = false := by
  intro e he
  cases event with
  | gap latest causes =>
    cases he
    exact h
  | _ => cases he <;> rfl

/-- What the publisher does to a journal that a receiver needs. -/
theorem publish_cases {s s' : LiveEvents} {history : List LiveRunEvent} {grow refusals : Option ℕ}
    {publication : Option Publication} (hkept : Kept history s.journal)
    (hopen : s.journal.closed = false) (hshared : event.reportsGeometry = false)
    (h : s.publish event grow refusals = some (s',publication)) :
    (s.journal.receiverCount = 0 ∧ s' = { s with cursor := s.cursor.record event } ∧
      publication = none) ∨
    ∃ envelope, publication = some ⟨event,envelope⟩ ∧ s'.cursor = envelope.after ∧
      Kept (history ++ [envelope]) s'.journal ∧ s'.journal.readers = s.journal.readers ∧
      s'.journal.closed = false ∧
      envelope.before.resizeRevision = s.cursor.resizeRevision ∧
      envelope.after.resizeRevision =
        (if event.isResized then s.cursor.resizeRevision+1 else s.cursor.resizeRevision) ∧
      (event.isResized = true →
        envelope.published = .funded event ∨ envelope.published = .snapshotNeeded) ∧
      (event.isResized = false → ∀ e ∈ envelope.event, e.isResized = false) ∧
      ∀ e ∈ envelope.event, e.reportsGeometry = false := by
  rcases publish_carried hkept hopen h with hnobody | ⟨envelope,hsome,hcursor,hkept',hreaders,hclosed,hcarried⟩
  · exact .inl hnobody
  · have hbefore : envelope.before.resizeRevision = s.cursor.resizeRevision := by
      rcases hcarried.before with heq | heq <;> rw [heq]
      rfl
    refine .inr ⟨envelope,hsome,hcursor,hkept',hreaders,hclosed,hbefore,?_,?_,?_,?_⟩
    · rcases hcarried.payload with ⟨-,hafter⟩ | ⟨-,hafter⟩ <;>
        rw [hafter,record_resizeRevision,hbefore]
      rw [unfunded_isResized]
    · intro hresized
      rcases hcarried.payload with ⟨hpublished,-⟩ | ⟨hpublished,-⟩
      · exact .inl hpublished
      · rw [hpublished,unfunded_resized hresized]
        exact .inr (marker_resized hresized)
    · intro hplain
      rcases hcarried.payload with ⟨hpublished,-⟩ | ⟨hpublished,-⟩
      · intro e he
        rw [LiveRunEvent.event,hpublished] at he
        cases he
        exact hplain
      · have hmarker : envelope = ⟨event.unfunded.marker,envelope.before,envelope.after⟩ := by
          rw [← hpublished]
        rw [hmarker]
        exact marker_event
    · rcases hcarried.payload with ⟨hpublished,-⟩ | ⟨hpublished,-⟩
      · intro e he
        rw [LiveRunEvent.event,hpublished] at he
        cases he
        exact hshared
      · have hmarker : envelope = ⟨event.unfunded.marker,envelope.before,envelope.after⟩ := by
          rw [← hpublished]
        rw [hmarker]
        exact marker_reportsGeometry (unfunded_reportsGeometry hshared)

namespace System

/-- The confirmed resizes that were never published: those of a recovered checkpoint and
those confirmed while nobody was attached. -/
def unpublished (s : System) : ℕ :=
  s.log.resizeRevision-(if s.resizing.isSome then 1 else 0)-s.events.cursor.resizeRevision

end System

/-- The client has come to a position of the journal, and it holds the geometry of that
position unless the count alone shows that it does not. -/
structure Tracks (s : System) (client : Client) : Prop where
  position : ∃ p, s.events.journal.position? client.reader = some p ∧ client.passed ≤ p ∧
    (client.receiverLagged = false → p = client.passed)
  chain : ∃ c, Chain s.unpublished c (s.published.drop client.passed)
      s.events.cursor.resizeRevision ∧
    (client.phase = .streaming → c+s.unpublished ≤ client.sent.sentResizeRevision ∨
      client.sent.sentResizeRevision < c)

structure Inv (s : System) : Prop where
  kept : Kept (s.published.map (·.envelope)) s.events.journal
  opened : s.events.journal.closed = false
  terminal : ∀ r ∈ s.log.terminal, r = s.log.resizeRevision
  resizing : ∀ e ∈ s.resizing, ∃ size through, e = .resized size through s.log.resizeRevision
  counted : s.events.cursor.resizeRevision+(if s.resizing.isSome then 1 else 0) ≤
    s.log.resizeRevision
  tracked : ∀ client ∈ s.client, Tracks s client

theorem Inv.unpublished_add {s : System} (h : Inv s) :
    s.unpublished+s.events.cursor.resizeRevision+(if s.resizing.isSome then 1 else 0) =
      s.log.resizeRevision := by
  have hcounted := h.counted
  unfold System.unpublished
  omega

theorem Tracks.passed_le {s : System} {client : Client} (h : Tracks s client) (hs : Inv s) :
    client.passed ≤ s.published.length := by
  obtain ⟨p,hp,hle,-⟩ := h.position
  have hposition := hs.kept.positions p (List.mem_of_getElem? (Option.join_eq_some_iff.mp hp))
  have hnext := hs.kept.next
  rw [List.length_map] at hnext
  omega

theorem Tracks.receiver {s : System} {client : Client} (h : Tracks s client) (hs : Inv s) :
    s.events.journal.receiverCount ≠ 0 := by
  obtain ⟨p,hp,-,-⟩ := h.position
  rw [hs.kept.count]
  exact (List.countP_pos_iff.mpr
    ⟨some p,List.mem_of_getElem? (Option.join_eq_some_iff.mp hp),rfl⟩).ne'

/-- The client is tracked by the fields that it depends on. -/
theorem Tracks.of_fields {s s' : System} {client : Client} (h : Tracks s client)
    (hposition : s'.events.journal.position? client.reader =
      s.events.journal.position? client.reader)
    (hpublished : s'.published = s.published) (hcursor : s'.events.cursor = s.events.cursor)
    (hunpublished : s'.unpublished = s.unpublished) : Tracks s' client := by
  refine ⟨?_,?_⟩
  · rw [hposition]
    exact h.position
  · rw [hpublished,hcursor,hunpublished]
    exact h.chain

theorem inv_start (latestOutputBytes : ℕ) (checkpoint : Option ℕ) :
    Inv (System.start latestOutputBytes checkpoint) := by
  refine ⟨Journal.Live.kept_start.journal,rfl,?_,by simp [System.start],?_,by simp [System.start]⟩
  · cases checkpoint <;> simp [System.start,OutputLog.recoverTerminal]
  · simp [System.start,LiveEvents.new,LiveEventCursor.zero]

/-- A resize counts one revision, and its event carries it. -/
theorem resizeTerminal_spec {log : OutputLog} (h : ∀ r ∈ log.terminal, r = log.resizeRevision)
    (size : TerminalSize) (fault : Bool) :
    (log.resizeTerminal size fault).1.resizeRevision = log.resizeRevision+1 ∧
      (∀ r ∈ (log.resizeTerminal size fault).1.terminal, r = log.resizeRevision+1) ∧
      (log.resizeTerminal size fault).2 =
        .resized size log.latestOutputBytes (log.resizeRevision+1) := by
  unfold OutputLog.resizeTerminal
  cases hterminal : log.terminal with
  | none => simp
  | some revision =>
    have heq := h revision (by simp [hterminal])
    cases fault <;> simp [heq]

section Steps

variable {s : System} (h : Inv s)
include h

theorem Inv.resize (size : TerminalSize) (fault : Bool) : Inv (s.resize size fault) := by
  obtain ⟨hrevision,hterminal,hevent⟩ := resizeTerminal_spec h.terminal size fault
  have hcounted := h.counted
  unfold System.resize
  split
  · exact h
  · rename_i hidle
    have hnone : s.resizing = none := by simpa using hidle
    rw [hnone] at hcounted
    simp only [Option.isSome_none,Bool.false_eq_true,if_false,Nat.add_zero] at hcounted
    simp only
    split
    · rename_i hunattached
      refine ⟨h.kept,h.opened,?_,by simp [hnone],?_,fun client hclient => ?_⟩
      · rw [hrevision]
        exact hterminal
      · simp only [hnone,Option.isSome_none,Bool.false_eq_true,if_false]
        omega
      · have hin : s.client = some client := hclient
        simp [System.attachments,hin] at hunattached
    · refine ⟨h.kept,h.opened,?_,?_,?_,fun client hclient => ?_⟩
      · rw [hrevision]
        exact hterminal
      · intro e he
        cases he
        rw [hevent,hrevision]
        exact ⟨size,_,rfl⟩
      · simp only [Option.isSome_some,if_true,hrevision]
        omega
      · refine (h.tracked client hclient).of_fields rfl rfl rfl ?_
        simp only [System.unpublished,hnone,hrevision,Option.isSome_some,Option.isSome_none,if_true,
          Bool.false_eq_true,if_false]
        omega

/-- Publishing keeps everything but the count of a resize, which the caller settles. -/
theorem Inv.publishing {grow refusals : Option ℕ} {s' : System}
    (hpublish : s.publishing event grow refusals = some s') {resizing : Option RunEvent}
    (hresizing : ∀ e ∈ resizing, ∃ size through, e = .resized size through s.log.resizeRevision)
    (hcount : (if event.isResized then 1 else 0)+(if resizing.isSome then 1 else 0) =
      (if s.resizing.isSome then 1 else 0))
    (hevent : ∀ size through r, event = .resized size through r → r = s.log.resizeRevision)
    (hshared : event.reportsGeometry = false) : Inv { s' with resizing := resizing } := by
  have hadd := h.unpublished_add
  unfold System.publishing at hpublish
  cases hresult : s.events.publish event grow refusals with
  | none =>
    rw [hresult] at hpublish
    cases hpublish
  | some result =>
    obtain ⟨events,publication⟩ := result
    rw [hresult] at hpublish
    cases hpublish
    rcases publish_cases h.kept h.opened hshared hresult with ⟨hnobody,rfl,rfl⟩ |
      ⟨envelope,rfl,hcursor,hkept,hreaders,hopen,hbefore,hafter,hcarried,hplain,hgeometry⟩
    · refine ⟨by simpa using h.kept,h.opened,h.terminal,hresizing,?_,fun client hclient => ?_⟩
      · simp only [record_resizeRevision]
        have hcounted := h.counted
        split at hcount <;> simp_all
        omega
      · exact absurd hnobody ((h.tracked client hclient).receiver h)
    · have hunpublished : System.unpublished
          { s with
            events := events
            published := s.published ++ [⟨event,envelope⟩]
            resizing := resizing } = s.unpublished := by
        simp only [System.unpublished,hcursor,hafter] at hadd ⊢
        split at hcount <;> simp_all
        omega
      show Inv { s with
        events := events
        published := s.published ++ [⟨event,envelope⟩]
        resizing := resizing }
      refine ⟨by simpa using hkept,hopen,h.terminal,hresizing,?_,fun client hclient => ?_⟩
      · simp only [hcursor,hafter]
        have hcounted := h.counted
        split at hcount <;> simp_all
        omega
      · have htracked := h.tracked client hclient
        obtain ⟨c,hchain,hheld⟩ := htracked.chain
        have hstamped : Stamped s.unpublished s.events.cursor.resizeRevision ⟨event,envelope⟩ := by
          refine ⟨hbefore,hafter,fun size through r hr => ?_,hcarried,hplain,hgeometry⟩
          have hlatest := hevent size through r hr
          subst hr
          simp only [RunEvent.isResized,if_true] at hcount
          by_cases hpending : s.resizing.isSome = true
          · rw [if_pos hpending] at hadd
            omega
          · rw [if_neg hpending] at hcount
            omega
        refine ⟨?_,c,?_,?_⟩
        · obtain ⟨p,hp,hle,hexact⟩ := htracked.position
          refine ⟨p,?_,hle,hexact⟩
          simpa [Journal.State.position?,hreaders] using hp
        · rw [hunpublished]
          simp only
          rw [List.drop_append_of_le_length (htracked.passed_le h),hcursor]
          exact hchain.append hstamped
        · rw [hunpublished]
          exact hheld

theorem Inv.publishResized (grow refusals : Option ℕ) : Inv (s.step (.publishResized grow refusals)) := by
  unfold System.step
  simp only
  split
  · exact h
  · rename_i event hevent
    split
    · exact h
    · rename_i s' hpublish
      obtain ⟨size,through,rfl⟩ := h.resizing event hevent
      refine h.publishing hpublish (by simp) (by simp [hevent,RunEvent.isResized]) ?_ rfl
      intro size' through' r hr
      cases hr
      rfl

theorem Inv.publish (event : RunEvent) (grow refusals : Option ℕ) :
    Inv (s.step (.publish event grow refusals)) := by
  unfold System.step
  simp only
  split
  · exact h
  · rename_i hguard
    obtain ⟨hplain,hshared⟩ : event.isResized = false ∧ event.reportsGeometry = false := by
      simpa using hguard
    cases hpublish : s.publishing event grow refusals with
    | none => exact h
    | some s' =>
      have hsame : s'.resizing = s.resizing := by
        unfold System.publishing at hpublish
        split at hpublish
        · cases hpublish
        · cases hpublish
          rfl
      have hinv := h.publishing hpublish h.resizing (by simp [hplain]) (fun size through r hr => by
        rw [hr] at hplain
        cases hplain) hshared
      rw [← hsame] at hinv
      exact hinv

theorem Inv.journal {journal : Journal.State LiveRunEvent} {others : ℕ}
    (hkept : Kept (s.published.map (·.envelope)) journal) (hclosed : journal.closed = false)
    (hours : ∀ client ∈ s.client, ∀ p, s.events.journal.position? client.reader = some p →
      journal.position? client.reader = some p) :
    Inv { s with events := { s.events with journal := journal }, others := others } := by
  refine ⟨hkept,hclosed,h.terminal,h.resizing,h.counted,fun client hclient => ?_⟩
  have htracked := h.tracked client hclient
  obtain ⟨p,hp,-,-⟩ := htracked.position
  refine htracked.of_fields ?_ rfl rfl rfl
  rw [hp]
  exact hours client hclient p hp

theorem Inv.subscribeOther (grow : Option ℕ) : Inv (s.step (.subscribeOther grow)) := by
  unfold System.step
  simp only
  split
  · exact h
  · rename_i reader journal hsubscribe
    obtain ⟨hkept,-,hclosed,-,-,hothers⟩ := h.kept.subscribe hsubscribe
    exact h.journal hkept hclosed fun client _ p hp => hothers client.reader p hp

theorem Inv.withOther (reader : ℕ)
    {f : Journal.State LiveRunEvent → ℕ → Journal.State LiveRunEvent}
    (hf : ∀ position, s.events.journal.position? reader = some position →
      Kept (s.published.map (·.envelope)) (f s.events.journal position) ∧
      (f s.events.journal position).closed = s.events.journal.closed ∧
      ∀ other p, other ≠ reader → s.events.journal.position? other = some p →
        (f s.events.journal position).position? other = some p) :
    Inv (s.withOther reader f) := by
  unfold System.withOther
  split
  · exact h
  · rename_i hours
    split
    · exact h
    · rename_i position hposition
      obtain ⟨hkept,hclosed,hothers⟩ := hf position hposition
      refine h.journal hkept (hclosed.trans h.opened) fun client hclient p hp =>
        hothers client.reader p ?_ hp
      rintro rfl
      have hclient : s.client = some client := hclient
      simp [System.ours,hclient] at hours

theorem Inv.receiveOther (reader : ℕ) : Inv (s.step (.receiveOther reader)) := by
  show Inv (s.withOther reader fun journal position =>
    (journal.tryRecv LiveRunEvent.isOutput reader position).1)
  refine h.withOther reader fun position hposition => ?_
  obtain ⟨p',-,hkept,hclosed,-,hothers,-⟩ := h.kept.tryRecv LiveRunEvent.isOutput hposition
  exact ⟨hkept,hclosed,fun other p hne hp => (hothers other hne).trans hp⟩

theorem Inv.dropOther (reader : ℕ) : Inv (s.step (.dropOther reader)) := by
  show Inv (s.withOther reader fun journal _ => journal.dropReceiver LiveRunEvent.isOutput reader)
  refine h.withOther reader fun position hposition => ?_
  obtain ⟨hkept,hclosed,-,hothers⟩ := h.kept.dropReceiver LiveRunEvent.isOutput hposition
  exact ⟨hkept,hclosed,hothers⟩

theorem Inv.takeSender : Inv (s.step .takeSender) := by
  show Inv (if s.attachments = 0 then
    { s with events := { s.events with journal := .new }, published := [] } else s)
  split
  · rename_i hunattached
    refine ⟨Journal.Live.kept_start.journal,rfl,h.terminal,h.resizing,h.counted,
      fun client hclient => ?_⟩
    have hin : s.client = some client := hclient
    simp [System.attachments,hin] at hunattached
  · exact h

/-- A receiver is registered behind everything that was published. -/
theorem Inv.attach (grow : Option ℕ) : Inv (s.attach grow) := by
  unfold System.attach
  split
  · rename_i reader journal hnone hsubscribe
    obtain ⟨hkept,hposition,hclosed,-,-,-⟩ := h.kept.subscribe hsubscribe
    refine ⟨hkept,hclosed,h.terminal,h.resizing,h.counted,fun client hclient => ?_⟩
    cases hclient
    refine ⟨⟨s.events.journal.next,hposition,le_rfl,fun _ => rfl⟩,s.events.cursor.resizeRevision,?_,
      fun hphase => by cases hphase⟩
    have hnext := h.kept.next
    rw [List.length_map] at hnext
    rw [hnext,List.drop_length]
    rfl
  · exact h

/-- The header holds the geometry of everything published so far. -/
theorem Inv.snapshot (authoritative : Authoritative) : Inv (s.snapshot authoritative) := by
  unfold System.snapshot
  split
  · rename_i client hclient hidle
    split
    · refine ⟨h.kept,h.opened,h.terminal,h.resizing,h.counted,fun client' hclient' => ?_⟩
      cases hclient'
      have htracked := h.tracked client hclient
      obtain ⟨c,hchain,-⟩ := htracked.chain
      refine ⟨htracked.position,c,hchain,fun _ => .inl ?_⟩
      have hadd := h.unpublished_add
      rw [hidle] at hadd
      have hle := hchain.le
      have hsame : System.unpublished { s with client := some { client with
        sent := ⟨s.log.latestOutputBytes,authoritative.nativeService.getD 0,s.log.resizeRevision⟩
        phase := if authoritative.terminal.isSome then .finished else .streaming } } =
          s.unpublished := rfl
      rw [hsame]
      simp only [Option.isSome_none,Bool.false_eq_true,if_false] at hadd ⊢
      omega
    · exact h
  · exact h

theorem Inv.detach : Inv (s.step .detach) := by
  simp only [System.step]
  split
  · exact h
  · rename_i client hclient
    obtain ⟨p,hp,-,-⟩ := (h.tracked client hclient).position
    obtain ⟨hkept,hclosed,-,-⟩ := h.kept.dropReceiver LiveRunEvent.isOutput hp
    exact ⟨hkept,hclosed.trans h.opened,h.terminal,h.resizing,h.counted,by simp⟩

end Steps

end Attachment
end Ctxmux
