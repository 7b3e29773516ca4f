import Ctxmux.InboxEffects

/-!
# The inbox is honest

The invariant of every run: what was returned and what is still held present the
accepted events up to the first one that the view could not keep, and behind them come
at most one marker, the error and the end.
-/

namespace Ctxmux
namespace Client

open EventInboxState

/-- The accepted events before the first one that the view could not keep. -/
def retainedLog (log : List Accepted) : List Accepted := log.takeWhile Accepted.retained

variable {log : List Accepted}

theorem retainedLog_of_all (h : ∀ a ∈ log, a.retained = true) :
    retainedLog log = log := by
  have hpos : (log ++ []).takeWhile Accepted.retained = log ++ [].takeWhile Accepted.retained :=
    List.takeWhile_append_of_pos h
  simpa [retainedLog] using hpos

theorem retainedLog_snoc_lost (h : ∃ a ∈ log, a.retained = false) (a : Accepted) :
    retainedLog (log ++ [a]) = retainedLog log := by
  unfold retainedLog
  induction log with
  | nil =>
    obtain ⟨b,hb,-⟩ := h
    cases hb
  | cons b log ih =>
    rw [List.cons_append,List.takeWhile_cons,List.takeWhile_cons]
    split
    · next hb =>
      obtain ⟨c,hc,hlost⟩ := h
      rcases List.mem_cons.mp hc with rfl | hc
      · rw [hb] at hlost
        cases hlost
      · rw [ih ⟨c,hc,hlost⟩]
    · rfl

namespace EventInboxState

/-- What the reads returned after the last event that the view held: the first call of
`close` decides how an observation that nothing cut short ends. -/
inductive Ending (l : AttachmentEventLimits) (closes : List (Option InboxError))
    (s : EventInboxState) : List NextResult → Prop
  | watching (h : s.localObservation = .available) (herror : s.error = closes.head?.join) :
      Ending l closes s []
  | ended (h : s.localObservation = .available) (hclosed : s.closed = true) (hheld : s.held = [])
      (herror : s.error = none) (hcloses : closes.head? = some none) (n : ℕ) :
      Ending l closes s (List.replicate n .ended)
  | failed (h : s.localObservation = .available) (hclosed : s.closed = true) (hheld : s.held = [])
      (herror : s.error = none) (error : InboxError) (hcloses : closes.head? = some (some error))
      (n : ℕ) : Ending l closes s (.error error::List.replicate n .ended)
  | lost (h : s.localObservation = .lostMarkerPending) (hclosed : s.closed = true)
      (hterminal : s.terminal = none) (herror : s.error = some (lossError l)) :
      Ending l closes s []
  | marked (h : s.localObservation = .lostMarkerDelivered) (hclosed : s.closed = true)
      (hheld : s.held = []) (herror : s.error = some (lossError l)) :
      Ending l closes s [.event .observationDiscontinuity]
  | reported (h : s.localObservation = .lostMarkerDelivered) (hclosed : s.closed = true)
      (hheld : s.held = []) (herror : s.error = none) (n : ℕ) :
      Ending l closes s
        (.event .observationDiscontinuity::.error (lossError l)::List.replicate n .ended)

end EventInboxState

namespace Inbox

structure Sound (l : AttachmentEventLimits) (b : Inbox) : Prop where
  funded : Funded l b.state
  sawTerminal : b.state.sawTerminal = true ↔ ∃ a ∈ b.accepted, a.event.isTerminal = true
  sawDiscontinuity : b.state.sawObservationDiscontinuity = true ↔
    ∃ a ∈ b.accepted, a.event.isDiscontinuity = true
  terminalLast : ∀ before a after, b.accepted = before ++ a::after →
    a.event.isTerminal = true → after = []
  terminalSlot : b.state.terminal.isSome → b.state.sawTerminal = true
  available : b.state.localObservation = .available ↔ ∀ a ∈ b.accepted, a.retained = true
  closed : b.state.localObservation = .available → (b.state.closed = true ↔ b.closes ≠ [])
  errorClosed : b.state.error.isSome → b.state.closed = true
  order : ∃ shown tail, b.returned = shown.map .event ++ tail ∧
    Presents (shown ++ b.state.held) (retainedLog b.accepted) ∧ Ending l b.closes b.state tail

variable {l : AttachmentEventLimits} {b : Inbox} {s' : EventInboxState} {allocates fits : Bool}
  {event : RunEvent}

theorem sound_initial (l : AttachmentEventLimits) : Sound l initial where
  funded := funded_initial l
  sawTerminal := by simp [initial,EventInboxState.initial]
  sawDiscontinuity := by simp [initial,EventInboxState.initial]
  terminalLast := fun before a after h _ => by
    have := congrArg List.length h
    simp [Inbox.initial] at this
  terminalSlot := fun h => (by cases h)
  available := ⟨fun _ _ ha => (by cases ha),fun _ => rfl⟩
  closed := fun _ => by simp [initial,EventInboxState.initial]
  errorClosed := fun h => (by cases h)
  order := ⟨[],[],rfl,presents_nil,.watching rfl rfl⟩

/-- The held events go on presenting the log when the view takes one more event. -/
theorem presents_effect {s : EventInboxState} {a : Accepted} (h : Effect l s a s')
    {shown : List RunEvent} (hp : Presents (shown ++ s.held) log) (ha : a.retained = true) :
    Presents (shown ++ s'.held) (log ++ [a]) := by
  cases h with
  | shown hfits hgap hheld hsame =>
    rw [hheld,← List.append_assoc]
    apply hp.snoc
    obtain ⟨event,fits⟩ := a
    dsimp only at hfits hgap ⊢
    rw [hfits]
    exact .same hgap
  | opened hm hheld hsame =>
    rw [hheld,← List.append_assoc]
    exact hp.snoc (covers_gap_one hm)
  | widened hm front latest causes hbefore hheld hsame =>
    rw [hbefore,← List.append_assoc] at hp
    obtain ⟨before,block,rfl,hbefore',hcovers⟩ := hp.last
    rw [hheld,← List.append_assoc,List.append_assoc before]
    exact hbefore'.snoc (hcovers.merge hm)
  | replaced front previous next ha' hprogress hbefore hheld hsame =>
    subst ha'
    rw [hbefore,← List.append_assoc] at hp
    obtain ⟨before,block,rfl,hbefore',hcovers⟩ := hp.last
    rw [hheld,← List.append_assoc,List.append_assoc before]
    exact hbefore'.snoc (.progress hcovers hprogress)
  | lost hlost hheld hobservation hclosed herror hterminal =>
    rw [ha] at hlost
    cases hlost

theorem retained_of_effect {s : EventInboxState} {a : Accepted} (h : Effect l s a s') :
    a.retained = true ∧ Undisturbed s s' ∨
      a.retained = false ∧ s'.held = s.held ∧ s'.localObservation = .lostMarkerPending ∧
        s'.closed = true ∧ s'.error = some (lossError l) ∧ s'.terminal = none := by
  have hmerge : a.Mergeable → a.retained = true := by
    unfold Accepted.Mergeable Accepted.retained
    intro ha
    split at ha
    · rfl
    · rfl
    · exact ha.elim
  cases h with
  | shown hfits hgap hheld hsame =>
    left
    refine ⟨?_,hsame⟩
    unfold Accepted.retained
    split
    · rfl
    · rfl
    · exact hfits
  | opened hm hheld hsame => exact Or.inl ⟨hmerge hm,hsame⟩
  | widened hm front latest causes hbefore hheld hsame => exact Or.inl ⟨hmerge hm,hsame⟩
  | replaced front previous next ha hprogress hbefore hheld hsame =>
    subst ha
    exact Or.inl ⟨rfl,hsame⟩
  | lost hlost hheld hobservation hclosed herror hterminal =>
    exact Or.inr ⟨hlost,hheld,hobservation,hclosed,herror,hterminal⟩

theorem terminalLast_snoc (a : Accepted) (hnone : ∀ b ∈ log, b.event.isTerminal = false) :
    ∀ before b after, log ++ [a] = before ++ b::after → b.event.isTerminal = true → after = [] := by
  intro before b after hsplit hterminal
  rcases List.eq_nil_or_concat after with rfl | ⟨front,last,rfl⟩
  · rfl
  · rw [List.concat_eq_append,← List.cons_append,← List.append_assoc] at hsplit
    have hlog := (List.append_inj' hsplit rfl).1
    have hb : b ∈ log := by
      rw [hlog]
      simp
    rw [hnone b hb] at hterminal
    cases hterminal

/-- A flag that is raised by the events of one kind tells whether the log has one. -/
theorem flag_snoc {flag flag' : Bool} {kind : RunEvent → Bool}
    (h : flag = true ↔ ∃ a ∈ log, kind a.event = true) (a : Accepted)
    (hflag : flag' = (flag || kind a.event)) :
    flag' = true ↔ ∃ b ∈ log ++ [a], kind b.event = true := by
  rw [hflag,Bool.or_eq_true,h]
  constructor
  · rintro (⟨b,hb,hkind⟩ | hkind)
    · exact ⟨b,List.mem_append_left _ hb,hkind⟩
    · exact ⟨a,List.mem_append_right _ (List.mem_singleton.mpr rfl),hkind⟩
  · rintro ⟨b,hb,hkind⟩
    rcases List.mem_append.mp hb with hb | hb
    · exact Or.inl ⟨b,hb,hkind⟩
    · rw [List.mem_singleton] at hb
      exact Or.inr (hb ▸ hkind)

theorem Sound.noTerminal (h : Sound l b) (hsaw : b.state.sawTerminal = false) :
    ∀ a ∈ b.accepted, a.event.isTerminal = false := by
  intro a ha
  by_contra hne
  have := h.sawTerminal.mpr ⟨a,ha,by simpa using hne⟩
  rw [hsaw] at this
  cases this

theorem Sound.take (h : Sound l b) (hopen : b.state.closed = false)
    (havailable : b.state.localObservation = .available) (hsaw : b.state.sawTerminal = false)
    (hfunded : Funded l s') (heffect : Effect l b.state ⟨event,fits⟩ s')
    (hnoted : Noted b.state event s') :
    Sound l { b with state := s', accepted := b.accepted ++ [⟨event,fits⟩] } := by
  have hall := h.available.mp havailable
  have hcloses : b.closes = [] := by
    by_contra hne
    have := (h.closed havailable).mpr hne
    rw [hopen] at this
    cases this
  obtain ⟨shown,tail,hreturned,hpresents,hending⟩ := h.order
  have htail : tail = [] := by
    cases hending with
    | watching h => rfl
    | ended h hclosed => simp [hopen] at hclosed
    | failed h hclosed => simp [hopen] at hclosed
    | lost h => rfl
    | marked h hclosed => simp [hopen] at hclosed
    | reported h hclosed => simp [hopen] at hclosed
  subst htail
  rw [retainedLog_of_all hall] at hpresents
  have herror : b.state.error = none := by
    cases he : b.state.error with
    | none => rfl
    | some error =>
      have := h.errorClosed (by simp [he])
      rw [hopen] at this
      cases this
  have hsawLog := flag_snoc h.sawTerminal ⟨event,fits⟩ hnoted.sawTerminal
  have hseenLog := flag_snoc h.sawDiscontinuity ⟨event,fits⟩ hnoted.sawObservationDiscontinuity
  have hslot : s'.terminal.isSome → s'.sawTerminal = true := fun ht => by
    rw [hnoted.sawTerminal,hnoted.terminal ht,Bool.or_true]
  have hlast := terminalLast_snoc ⟨event,fits⟩ (h.noTerminal hsaw)
  rcases retained_of_effect heffect with ⟨hretained,hobservation,hclosed,hsame⟩ |
    ⟨hlost,hheld,hobservation,hclosed,hfailed,hterminal⟩
  · have hall' : ∀ a ∈ b.accepted ++ [⟨event,fits⟩], a.retained = true := by
      intro a ha
      rcases List.mem_append.mp ha with ha | ha
      · exact hall a ha
      · rw [List.mem_singleton] at ha
        rw [ha]
        exact hretained
    refine ⟨hfunded,hsawLog,hseenLog,hlast,hslot,?_,?_,?_,shown,[],hreturned,?_,?_⟩
    · exact ⟨fun _ => hall',fun _ => hobservation.trans havailable⟩
    · intro _
      dsimp only
      rw [hclosed]
      exact h.closed havailable
    · intro he
      dsimp only at he
      rw [hsame,herror] at he
      cases he
    · rw [retainedLog_of_all hall']
      exact presents_effect heffect hpresents hretained
    · refine .watching (hobservation.trans havailable) ?_
      rw [hsame,herror,hcloses]
      rfl
  · have hgone : s'.localObservation ≠ .available := by
      rw [hobservation]
      exact fun h => (by cases h)
    refine ⟨hfunded,hsawLog,hseenLog,hlast,hslot,?_,fun hav => absurd hav hgone,fun _ => hclosed,
      shown,[],hreturned,?_,?_⟩
    · constructor
      · exact fun hav => absurd hav hgone
      · intro hav
        have := hav ⟨event,fits⟩ (List.mem_append_right _ (List.mem_singleton.mpr rfl))
        rw [hlost] at this
        cases this
    · have hlog : retainedLog (b.accepted ++ [⟨event,fits⟩]) = b.accepted := by
        unfold retainedLog
        rw [List.takeWhile_append_of_pos hall,List.takeWhile_cons_of_neg (by simp [hlost])]
        simp
      rw [hlog,hheld]
      exact hpresents
    · exact .lost hobservation hclosed hterminal hfailed

/-- A lost view goes on checking the lifecycle and shows nothing more. -/
theorem Sound.takeLost (h : Sound l b) (hlost : b.state.localObservation ≠ .available)
    (hsaw : b.state.sawTerminal = false) (event : RunEvent) (fits : Bool) :
    Sound l { b with
      state := { b.state with
        sawTerminal := b.state.sawTerminal || event.isTerminal
        sawObservationDiscontinuity :=
          b.state.sawObservationDiscontinuity || event.isDiscontinuity }
      accepted := b.accepted ++ [⟨event,fits⟩] } := by
  have hexists : ∃ a ∈ b.accepted, a.retained = false := by
    by_contra hnone
    apply hlost
    rw [h.available]
    intro a ha
    by_contra hne
    exact hnone ⟨a,ha,by simpa using hne⟩
  obtain ⟨shown,tail,hreturned,hpresents,hending⟩ := h.order
  have hf := h.funded
  refine ⟨⟨hf.queued,hf.payload,hf.envelope,hf.limit,hf.slots⟩,
    flag_snoc h.sawTerminal ⟨event,fits⟩ rfl,flag_snoc h.sawDiscontinuity ⟨event,fits⟩ rfl,
    terminalLast_snoc _ (h.noTerminal hsaw),?_,?_,fun hav => absurd hav hlost,h.errorClosed,
    shown,tail,hreturned,?_,?_⟩
  · intro ht
    have := h.terminalSlot ht
    rw [hsaw] at this
    cases this
  · constructor
    · intro hav
      exact absurd hav hlost
    · intro hav
      obtain ⟨a,ha,hfalse⟩ := hexists
      have := hav a (List.mem_append_left _ ha)
      rw [hfalse] at this
      cases this
  · rw [retainedLog_snoc_lost hexists]
    exact hpresents
  · cases hending with
    | watching h => exact absurd h hlost
    | ended h => exact absurd h hlost
    | failed h => exact absurd h hlost
    | lost h hclosed hterminal herror => exact Ending.lost h hclosed hterminal herror
    | marked h hclosed hheld herror => exact Ending.marked h hclosed hheld herror
    | reported h hclosed hheld herror n =>
      apply Ending.reported
      · exact h
      · exact hclosed
      · exact hheld
      · exact herror

theorem Sound.push (h : Sound l b) (hpush : b.state.push l allocates event = .ok s') :
    Sound l { b with
      state := s'
      accepted := b.accepted ++ [⟨event,decide (b.state.Fits l allocates event)⟩] } := by
  unfold EventInboxState.push at hpush
  split at hpush
  · cases hpush
  next hlive =>
  split at hpush
  · cases hpush
  next hsaw =>
  rw [Bool.not_eq_true] at hsaw
  split at hpush
  · cases hpush
  split at hpush
  · next hlost =>
    cases hpush
    exact h.takeLost hlost hsaw event _
  next havailable =>
  have havailable' : b.state.localObservation = .available := by simpa using havailable
  have hopen : b.state.closed = false := by
    rw [← Bool.not_eq_true]
    exact fun hclosed => hlive ⟨hclosed,havailable'⟩
  have hnone : b.state.terminal = none := by
    cases ht : b.state.terminal with
    | none => rfl
    | some terminal =>
      have := h.terminalSlot (by simp [ht])
      rw [hsaw] at this
      cases this
  split at hpush
  · next hreplaced =>
    cases hpush
    exact h.take hopen havailable' hsaw (h.funded.replaceInputProgress hreplaced)
      (effect_replaceInputProgress hnone hreplaced) (noted_replaceInputProgress hnone hreplaced)
  · next hkept =>
    cases hpush
    have hadvances : ¬b.state.Advances event := by
      rw [advances_iff,hkept]
      exact Bool.false_ne_true
    exact h.take hopen havailable' hsaw (h.funded.accept hnone)
      (effect_accept h.funded hnone hadvances) (noted_accept hnone)

/-- A read that only shortens what is held keeps the lifecycle and the log. -/
structure Unread (s s' : EventInboxState) : Prop where
  sawTerminal : s'.sawTerminal = s.sawTerminal
  sawDiscontinuity : s'.sawObservationDiscontinuity = s.sawObservationDiscontinuity
  slot : s'.terminal.isSome → s.terminal.isSome
  noSlot : s.terminal = none → s'.terminal = none
  undisturbed : Undisturbed s s'

theorem Sound.readHeld (h : Sound l b) {rest : List RunEvent}
    (hheld : b.state.held = event::rest) (hfunded : Funded l s') (hrest : s'.held = rest)
    (hunread : Unread b.state s') :
    Sound l { b with state := s', returned := b.returned ++ [.event event] } := by
  obtain ⟨hobservation,hclosed,herror⟩ := hunread.undisturbed
  obtain ⟨shown,tail,hreturned,hpresents,hending⟩ := h.order
  have hne : b.state.held ≠ [] := by
    rw [hheld]
    exact List.cons_ne_nil _ _
  have htail : tail = [] ∧ Ending l b.closes s' [] := by
    cases hending with
    | watching h herror' =>
      exact ⟨rfl,.watching (hobservation.trans h) (herror.trans herror')⟩
    | ended h hclosed hempty => exact absurd hempty hne
    | failed h hclosed hempty => exact absurd hempty hne
    | lost h hclosed' hnone herror' =>
      exact ⟨rfl,.lost (hobservation.trans h) (hclosed.trans hclosed') (hunread.noSlot hnone)
        (herror.trans herror')⟩
    | marked h hclosed hempty => exact absurd hempty hne
    | reported h hclosed hempty => exact absurd hempty hne
  obtain ⟨rfl,hending'⟩ := htail
  refine ⟨hfunded,?_,?_,h.terminalLast,?_,?_,?_,?_,shown ++ [event],[],?_,?_,hending'⟩
  · dsimp only
    rw [hunread.sawTerminal]
    exact h.sawTerminal
  · dsimp only
    rw [hunread.sawDiscontinuity]
    exact h.sawDiscontinuity
  · intro ht
    dsimp only
    rw [hunread.sawTerminal]
    exact h.terminalSlot (hunread.slot ht)
  · dsimp only
    rw [hobservation]
    exact h.available
  · dsimp only
    rw [hobservation,hclosed]
    exact h.closed
  · intro he
    dsimp only at he ⊢
    rw [herror] at he
    rw [hclosed]
    exact h.errorClosed he
  · rw [hreturned]
    simp
  · dsimp only
    rw [hrest,List.append_assoc]
    rw [hheld] at hpresents
    exact hpresents

/-- The marker of a lost view follows everything that it held. -/
theorem Sound.readMarker (h : Sound l b) (hheld : b.state.held = b.state.terminal.toList)
    (hlost : b.state.localObservation = .lostMarkerPending)
    (hfunded : Funded l { b.state with localObservation := .lostMarkerDelivered }) :
    Sound l { b with
      state := { b.state with localObservation := .lostMarkerDelivered }
      returned := b.returned ++ [.event .observationDiscontinuity] } := by
  obtain ⟨shown,tail,hreturned,hpresents,hending⟩ := h.order
  cases hending with
  | watching h => simp [hlost] at h
  | ended h => simp [hlost] at h
  | failed h => simp [hlost] at h
  | marked h => simp [hlost] at h
  | reported h => simp [hlost] at h
  | lost _ hclosed hnone herror =>
    rw [hnone] at hheld
    refine ⟨hfunded,h.sawTerminal,h.sawDiscontinuity,h.terminalLast,h.terminalSlot,?_,
      fun hav => (by cases hav),h.errorClosed,
      shown,[.event .observationDiscontinuity],?_,hpresents,Ending.marked rfl hclosed hheld herror⟩
    · constructor
      · intro hav
        cases hav
      · intro hall
        have := h.available.mpr hall
        rw [hlost] at this
        cases this
    · rw [hreturned]
      simp

/-- The error of the attachment follows everything that the view held. -/
theorem Sound.readError (h : Sound l b) (hheld : b.state.held = [])
    (hpending : b.state.localObservation ≠ .lostMarkerPending) {error : InboxError}
    (herror : b.state.error = some error) (hfunded : Funded l { b.state with error := none }) :
    Sound l { b with
      state := { b.state with error := none }
      returned := b.returned ++ [.error error] } := by
  obtain ⟨shown,tail,hreturned,hpresents,hending⟩ := h.order
  have hclosed := h.errorClosed (by simp [herror])
  have hresult : ∃ tail', tail ++ [NextResult.error error] = tail' ∧
      Ending l b.closes { b.state with error := none } tail' := by
    cases hending with
    | watching h herror' =>
      have hcloses : b.closes.head? = some (some error) := by
        rw [herror] at herror'
        exact Option.join_eq_some_iff.mp herror'.symm
      refine ⟨_,rfl,?_⟩
      exact Ending.failed (s := { b.state with error := none }) h hclosed hheld rfl error hcloses 0
    | ended h hc he herror' => simp [herror] at herror'
    | failed h hc he herror' => simp [herror] at herror'
    | lost h => exact absurd h hpending
    | marked h hc he herror' =>
      rw [herror] at herror'
      cases herror'
      refine ⟨_,rfl,?_⟩
      exact Ending.reported (s := { b.state with error := none }) h hclosed hheld rfl 0
    | reported h hc he herror' => simp [herror] at herror'
  obtain ⟨tail',rfl,hending'⟩ := hresult
  refine ⟨hfunded,h.sawTerminal,h.sawDiscontinuity,h.terminalLast,h.terminalSlot,h.available,
    h.closed,fun he => (by cases he),shown,_,?_,hpresents,hending'⟩
  rw [hreturned,List.append_assoc]

theorem Sound.readEnded (h : Sound l b) (hheld : b.state.held = [])
    (hpending : b.state.localObservation ≠ .lostMarkerPending)
    (herror : b.state.error = none) (hclosed : b.state.closed = true) :
    Sound l { b with returned := b.returned ++ [.ended] } := by
  obtain ⟨shown,tail,hreturned,hpresents,hending⟩ := h.order
  have hresult : Ending l b.closes b.state (tail ++ [NextResult.ended]) := by
    cases hending with
    | watching havailable herror' =>
      have hcloses : b.closes.head? = some none := by
        have hne := (h.closed havailable).mp hclosed
        rw [herror] at herror'
        cases hlist : b.closes with
        | nil => exact absurd hlist hne
        | cons first more =>
          rw [hlist] at herror'
          exact congrArg some herror'.symm
      exact Ending.ended havailable hclosed hheld herror hcloses 1
    | ended h hc he herror' hcloses n =>
      rw [← List.replicate_succ']
      exact Ending.ended h hclosed hheld herror hcloses (n+1)
    | failed h hc he herror' error hcloses n =>
      rw [List.cons_append,← List.replicate_succ']
      exact Ending.failed h hclosed hheld herror error hcloses (n+1)
    | lost h => exact absurd h hpending
    | marked h hc he herror' => simp [herror] at herror'
    | reported h hc he herror' n =>
      rw [List.cons_append,List.cons_append,← List.replicate_succ']
      exact Ending.reported h hclosed hheld herror (n+1)
  refine ⟨h.funded,h.sawTerminal,h.sawDiscontinuity,h.terminalLast,h.terminalSlot,h.available,
    h.closed,h.errorClosed,shown,_,?_,hpresents,hresult⟩
  rw [hreturned,List.append_assoc]

theorem Sound.next (h : Sound l b) : Sound l (b.step l .next) := by
  have hfunded := h.funded.next
  show Sound l { b with state := b.state.next.2, returned := b.returned ++ b.state.next.1.toList }
  revert hfunded
  unfold EventInboxState.next
  split
  · next event queue hqueue =>
    intro hfunded
    apply h.readHeld _ hfunded rfl ⟨rfl,rfl,id,id,⟨rfl,rfl,rfl⟩⟩
    simp [held,hqueue,gapEvents]
  next hqueue =>
  split
  · next latest causes hgap =>
    intro hfunded
    apply h.readHeld _ hfunded rfl ⟨rfl,rfl,id,id,⟨rfl,rfl,rfl⟩⟩
    simp [held,hqueue,gapEvents,hgap]
  next hgap =>
  have hheld : b.state.held = b.state.terminal.toList := by
    simp [held,hqueue,gapEvents,hgap]
  split
  · next hlost =>
    intro hfunded
    exact h.readMarker hheld hlost hfunded
  next hpending =>
  split
  · next event hterminal =>
    intro hfunded
    rw [hterminal] at hheld
    apply h.readHeld hheld hfunded _
      ⟨rfl,rfl,fun ht => (by cases ht),fun _ => rfl,⟨rfl,rfl,rfl⟩⟩
    simp [held,hqueue,gapEvents,hgap]
  next hterminal =>
  rw [hterminal] at hheld
  split
  · next error herror =>
    intro hfunded
    exact h.readError hheld hpending herror hfunded
  next herror =>
  split
  · next hclosed =>
    intro _
    exact h.readEnded hheld hpending herror hclosed
  · intro _
    simpa using h

theorem Sound.close (h : Sound l b) (error : Option InboxError) :
    Sound l (b.step l (.close error)) := by
  have hfunded := h.funded.close error
  show Sound l { b with state := b.state.close error, closes := b.closes ++ [error] }
  revert hfunded
  unfold EventInboxState.close
  split
  · next hclosed =>
    intro hfunded
    obtain ⟨shown,tail,hreturned,hpresents,hending⟩ := h.order
    refine ⟨hfunded,h.sawTerminal,h.sawDiscontinuity,h.terminalLast,h.terminalSlot,h.available,
      fun _ => (by simp [hclosed]),h.errorClosed,shown,tail,hreturned,hpresents,?_⟩
    have hfirst : b.state.localObservation = .available →
        (b.closes ++ [error]).head? = b.closes.head? := by
      intro havailable
      have hne := (h.closed havailable).mp hclosed
      exact List.head?_append_of_ne_nil _ hne
    cases hending with
    | watching h herror => exact .watching h (by rw [hfirst h]; exact herror)
    | ended h hc hheld herror hcloses n =>
      exact .ended h hc hheld herror ((hfirst h).trans hcloses) n
    | failed h hc hheld herror error hcloses n =>
      exact .failed h hc hheld herror error ((hfirst h).trans hcloses) n
    | lost h hc hterminal herror => exact .lost h hc hterminal herror
    | marked h hc hheld herror => exact .marked h hc hheld herror
    | reported h hc hheld herror n => exact .reported h hc hheld herror n
  next hopen =>
  intro hfunded
  obtain ⟨shown,tail,hreturned,hpresents,hending⟩ := h.order
  refine ⟨hfunded,h.sawTerminal,h.sawDiscontinuity,h.terminalLast,h.terminalSlot,h.available,
    fun _ => (by simp),fun _ => rfl,shown,tail,hreturned,hpresents,?_⟩
  cases hending with
  | watching havailable =>
    have hcloses : b.closes = [] := by
      by_contra hne
      exact hopen ((h.closed havailable).mpr hne)
    refine .watching havailable ?_
    rw [hcloses]
    rfl
  | ended h hclosed => exact absurd hclosed hopen
  | failed h hclosed => exact absurd hclosed hopen
  | lost h hclosed => exact absurd hclosed hopen
  | marked h hclosed => exact absurd hclosed hopen
  | reported h hclosed => exact absurd hclosed hopen

theorem Sound.step (h : Sound l b) (e : InboxEvent) : Sound l (b.step l e) := by
  cases e with
  | push allocates event =>
    unfold Inbox.step
    dsimp only
    split
    · exact h
    · next hpush => exact h.push hpush
  | next => exact h.next
  | close error => exact h.close error

/-- The caller closed the view, before anything was lost. -/
def Closed (b : Inbox) : Prop := b.closes ≠ [] ∧ ∀ a ∈ b.accepted, a.retained = true

/-- No event of this kind may follow what the view took. -/
def Late (b : Inbox) (event : RunEvent) : Prop :=
  b.Closed ∨ (∃ a ∈ b.accepted, a.event.isTerminal = true) ∨
    (∃ a ∈ b.accepted, a.event.isDiscontinuity = true) ∧ event.isTerminal = false

/-- What the consumer may rely on in one state of an inbox. -/
structure Honest (l : AttachmentEventLimits) (b : Inbox) : Prop where
  order : ∃ shown tail, b.returned = shown.map .event ++ tail ∧
    Presents (shown ++ b.state.held) (retainedLog b.accepted) ∧ Ending l b.closes b.state tail ∧
    ∀ xs terminal ys, shown ++ b.state.held = xs ++ terminal::ys → terminal.isTerminal = true →
      ys = [] ∧ b.state.localObservation = .available
  lost : b.state.localObservation ≠ .available ↔ ∃ refused later,
    b.accepted = retainedLog b.accepted ++ refused::later ∧ refused.retained = false
  /-- An event is refused only for its place, and the view stays as it was. -/
  refusal : ∀ allocates event,
    (∃ state, b.state.push l allocates event = .ok state) ↔ ¬b.Late event
  /-- A read waits only while more may come. -/
  waits : b.state.next.1 = none ↔
    b.state.held = [] ∧ b.closes = [] ∧ b.state.localObservation = .available
  queuedBytes : b.state.queuedBytes = payloadOf b.state.queue ∧
    b.state.queuedBytes ≤ l.payloadBytes
  envelopeBytes :
    b.state.envelopePayloadBytes = envelopeOf b.state.queue+envelopeOf b.state.terminal.toList ∧
      l.inboxSize+b.state.capacity*l.eventSize+b.state.envelopePayloadBytes ≤ l.envelopeBytes

theorem Sound.late_iff (h : Sound l b) (allocates : Bool) (event : RunEvent) :
    (∃ state, b.state.push l allocates event = .ok state) ↔ ¬b.Late event := by
  have hclosed : (b.state.closed = true ∧ b.state.localObservation = .available) ↔ b.Closed := by
    constructor
    · rintro ⟨hclosed,havailable⟩
      exact ⟨(h.closed havailable).mp hclosed,h.available.mp havailable⟩
    · rintro ⟨hcloses,hall⟩
      have havailable := h.available.mpr hall
      exact ⟨(h.closed havailable).mpr hcloses,havailable⟩
  unfold Late
  rw [← hclosed,← h.sawTerminal,← h.sawDiscontinuity]
  unfold EventInboxState.push
  by_cases hover : b.state.closed = true ∧ b.state.localObservation = .available
  · simp [hover]
  · rw [if_neg hover]
    by_cases hsaw : b.state.sawTerminal = true
    · simp [hsaw]
    · rw [if_neg hsaw]
      by_cases hseen : b.state.sawObservationDiscontinuity = true ∧ event.isTerminal = false
      · simp [hseen]
      · rw [if_neg hseen]
        have hfree : ¬((b.state.closed = true ∧ b.state.localObservation = .available) ∨
            b.state.sawTerminal = true ∨
              b.state.sawObservationDiscontinuity = true ∧ event.isTerminal = false) := by
          rintro (h | h | h)
          · exact hover h
          · exact hsaw h
          · exact hseen h
        refine iff_of_true ?_ hfree
        split
        · exact ⟨_,rfl⟩
        · split
          · exact ⟨_,rfl⟩
          · exact ⟨_,rfl⟩

theorem Sound.waits (h : Sound l b) : b.state.next.1 = none ↔
    b.state.held = [] ∧ b.closes = [] ∧ b.state.localObservation = .available := by
  obtain ⟨shown,tail,-,-,hending⟩ := h.order
  have hgone : b.state.localObservation ≠ .available → b.state.closed = true := by
    intro hgone
    cases hending with
    | watching h => exact absurd h hgone
    | ended h hclosed => exact hclosed
    | failed h hclosed => exact hclosed
    | lost h hclosed => exact hclosed
    | marked h hclosed => exact hclosed
    | reported h hclosed => exact hclosed
  constructor
  · intro hnext
    unfold EventInboxState.next at hnext
    split at hnext
    · cases hnext
    next hqueue =>
    split at hnext
    · cases hnext
    next hgap =>
    split at hnext
    · cases hnext
    split at hnext
    · cases hnext
    next hterminal =>
    split at hnext
    · cases hnext
    split at hnext
    · cases hnext
    next hopen =>
    have havailable : b.state.localObservation = .available := by
      by_contra hne
      exact hopen (hgone hne)
    refine ⟨by simp [held,hqueue,gapEvents,hgap,hterminal],?_,havailable⟩
    by_contra hne
    exact hopen ((h.closed havailable).mpr hne)
  · rintro ⟨hheld,hcloses,havailable⟩
    have hopen : b.state.closed = false := by
      rw [← Bool.not_eq_true,h.closed havailable]
      exact not_not.mpr hcloses
    have herror : b.state.error = none := by
      cases herror : b.state.error with
      | none => rfl
      | some error =>
        have := h.errorClosed (by simp [herror])
        rw [hopen] at this
        cases this
    unfold held at hheld
    rw [List.append_eq_nil_iff,List.append_eq_nil_iff] at hheld
    obtain ⟨⟨hqueue,hgap⟩,hterminal⟩ := hheld
    have hgap' : b.state.pendingGap = none := by
      cases hpending : b.state.pendingGap with
      | none => rfl
      | some gap => simp [gapEvents,hpending] at hgap
    have hterminal' : b.state.terminal = none := by simpa using hterminal
    simp [EventInboxState.next,hqueue,hgap',havailable,hterminal',herror,hopen]

/-- The log splits at the first event that the view could not keep. -/
theorem retainedLog_split (log : List Accepted) :
    (∀ a ∈ log, a.retained = true) ∨
      ∃ refused later, log = retainedLog log ++ refused::later ∧ refused.retained = false := by
  have hsplit := List.takeWhile_append_dropWhile (p := Accepted.retained) (l := log)
  cases hdrop : log.dropWhile Accepted.retained with
  | nil =>
    left
    rw [hdrop,List.append_nil] at hsplit
    intro a ha
    rw [← hsplit] at ha
    exact List.all_eq_true.mp List.all_takeWhile a ha
  | cons refused later =>
    right
    refine ⟨refused,later,?_,?_⟩
    · rw [hdrop] at hsplit
      exact hsplit.symm
    · have hhead := List.head?_dropWhile_not Accepted.retained log
      rw [hdrop] at hhead
      simpa using hhead

theorem Sound.honest (h : Sound l b) : Honest l b := by
  have hlost : b.state.localObservation ≠ .available ↔ ∃ refused later,
      b.accepted = retainedLog b.accepted ++ refused::later ∧ refused.retained = false := by
    constructor
    · intro hne
      rcases retainedLog_split b.accepted with hall | hsplit
      · exact absurd (h.available.mpr hall) hne
      · exact hsplit
    · rintro ⟨refused,later,hlog,hfalse⟩ havailable
      have hmem : refused ∈ b.accepted := by
        rw [hlog]
        simp
      have := h.available.mp havailable refused hmem
      rw [hfalse] at this
      cases this
  obtain ⟨shown,tail,hreturned,hpresents,hending⟩ := h.order
  refine ⟨⟨shown,tail,hreturned,hpresents,hending,?_⟩,hlost,h.late_iff,h.waits,
    ⟨h.funded.queued,h.funded.payload⟩,⟨h.funded.envelope,h.funded.limit⟩⟩
  intro xs terminal ys hsplit hterminal
  rw [hsplit] at hpresents
  have hprefix : ∃ later, b.accepted = retainedLog b.accepted ++ later :=
    ⟨_,List.takeWhile_append_dropWhile.symm⟩
  obtain ⟨later,hlater⟩ := hprefix
  refine ⟨hpresents.terminal_last hterminal ?_,?_⟩
  · intro before a after hlog ha
    have hfull : b.accepted = before ++ a::(after ++ later) := by
      rw [hlater,hlog]
      simp
    have := h.terminalLast before a (after ++ later) hfull ha
    exact (List.append_eq_nil_iff.mp this).1
  · by_contra hne
    obtain ⟨refused,later',hlog,hfalse⟩ := hlost.mp hne
    obtain ⟨before,after,hterm⟩ := hpresents.terminal_mem hterminal
    have hfull : b.accepted = before ++ ⟨terminal,true⟩::(after ++ refused::later') := by
      rw [hlog,hterm]
      simp
    have := h.terminalLast _ _ _ hfull hterminal
    simp at this

theorem inbox_honest (l : AttachmentEventLimits) (es : List InboxEvent) :
    Honest l (initial.run l es) := by
  have hsound : Sound l (initial.run l es) :=
    Machine.run_invariant (fun _ e h => h.step e) (sound_initial l) es
  exact hsound.honest

/-- A view of three payload bytes and two slots. -/
def narrowView : AttachmentEventLimits where
  payloadBytes := 3
  envelopeBytes := 256
  inboxSize := 128
  eventSize := 64
  eventSize_pos := by decide
  inbox_funded := by decide

/-- Output of the given size, from the given byte on. -/
def outputOf (startByte bytes : ℕ) : RunEvent :=
  .output ⟨startByte,startByte+bytes,⟨List.replicate bytes 65,bytes,by simp⟩⟩

/-- The second output does not fit and becomes a gap, and the error of the first call of
`close` ends the reads. -/
theorem inbox_honest_narrow :
    Honest narrowView (initial.run narrowView
      [.push true (outputOf 0 3),.push true (outputOf 3 1),.close (some (.closedWith "eof")),
        .close none,.next,.next,.next,.next]) ∧
    (initial.run narrowView
      [.push true (outputOf 0 3),.push true (outputOf 3 1),.close (some (.closedWith "eof")),
        .close none,.next,.next,.next,.next]).returned =
      [.event (outputOf 0 3),.event (.gap 4 clientViewPressure),.error (.closedWith "eof"),.ended] :=
  ⟨inbox_honest _ _,by decide⟩

end Inbox
end Client
end Ctxmux
