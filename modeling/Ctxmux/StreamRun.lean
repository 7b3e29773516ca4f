import Ctxmux.StreamInvariant

/-!
# The Run beside its attachment

Every step of the Run and of the other attachments keeps the invariant: a chunk is pushed
behind all others, its publication goes to the end of the flow, and the end of the Run is
published behind all that had been published when the Run ended.
-/

namespace Ctxmux
namespace Viewer

open Attachment (RunEvent LiveEvents LiveRunEvent LiveEventCursor Publication Carried TerminalState
  terminalEvent publish_carried)
open Attachment.LiveEventCursor (Within)
open Durable (Byte OutputChunk)
open Output (OutputLog LogEvent LogOrigin Represents Stream)
open Journal (Kept)
open Tiling

theorem inv_start (perRunLimit : ℕ) (origin : LogOrigin) (terminal : Option TerminalState) :
    Inv (System.start perRunLimit origin terminal) := by
  refine ⟨Journal.Live.kept_start.journal,rfl,
    ⟨origin.stream,origin.blockLimit,origin.block_le,origin.represents⟩,
    ⟨origin.log.latestOutputBytes,?_⟩,?_,?_,?_,?_,?_⟩
  · exact tiles_nil.mpr rfl
  · simp [System.start]
  · cases terminal <;> exact ⟨rfl,by simp [System.start,System.settled],by simp [System.start]⟩
  · simp [Within,System.start,LiveEvents.new,LiveEventCursor.zero]
  · simp [System.start]
  · simp [System.start]

/-- The fields that an attachment depends on are the same. -/
theorem Evolves.same {s s' : System} (hpushed : s'.pushed = s.pushed)
    (hlatest : s'.log.latestOutputBytes = s.log.latestOutputBytes)
    (hfinal : ∀ f ∈ s.final, s'.final = some f) (hpublished : s'.published = s.published)
    (hsettled : s'.settled = s.settled) (hcursor : s'.events.cursor = s.events.cursor) :
    Evolves s s' where
  pushed := by rw [hpushed]; exact List.Subset.refl _
  fresh chunk hchunk := .inl (hpushed ▸ hchunk)
  latest := hlatest.ge
  final := hfinal
  news := ⟨[],by rw [hpublished,List.append_nil],hsettled.symm,hcursor.symm⟩

variable {s s' : System}

theorem Inv.receiver (h : Inv s) {v : View} (hv : v ∈ s.view) :
    s.events.journal.receiverCount ≠ 0 := by
  have hregistered : ∃ p, s.events.journal.position? v.client.reader = some p := by
    have hreceives := h.receives v hv
    unfold Receives at hreceives
    split at hreceives
    · exact ⟨_,hreceives.1⟩
    · exact ⟨_,hreceives.1⟩
    · obtain ⟨p,hp,-,-⟩ := hreceives
      exact ⟨p,hp⟩
  obtain ⟨p,hp⟩ := hregistered
  rw [h.kept.count]
  exact (List.countP_pos_iff.mpr
    ⟨some p,List.mem_of_getElem? (Option.join_eq_some_iff.mp hp),rfl⟩).ne'

theorem Inv.view_none (h : s.attachments = 0) : s.view = none := by
  cases hview : s.view with
  | none => rfl
  | some v => simp [System.attachments,hview] at h

/-- The attachment stays where it is while the Run moves on. -/
theorem Inv.evolves (h : Inv s) (he : Evolves s s') (hview : s'.view = s.view)
    (hposition : ∀ v ∈ s.view, s'.events.journal.position? v.client.reader =
      s.events.journal.position? v.client.reader) :
    (∀ v ∈ s'.view, Receives s' v) ∧ ∀ v ∈ s'.view, Placed s' v := by
  rw [hview]
  exact ⟨fun v hv => (h.receives v hv).evolves he (hposition v hv),
    fun v hv => (h.placed v hv).evolves he⟩

section Steps

variable (h : Inv s)
include h

theorem Inv.push (data : List Byte) (protectedFrom : ℕ) : Inv (s.push data protectedFrom) := by
  unfold System.push
  split
  · exact h
  · rename_i hidle
    have hnone : s.pushing = none := by simpa using hidle
    obtain ⟨stream,limit,hlimit,hlog⟩ := h.log
    obtain ⟨base,htiles⟩ := h.pushed
    cases hresult : s.log.pushProtected s.perRunLimit data protectedFrom with
    | none => exact h
    | some result =>
      have hok : data ≠ [] ∧ stream.head+data.length ≤ Output.u64Max := by
        by_contra hrefused
        have hbad : data = [] ∨ Output.u64Max < s.log.latestOutputBytes+data.length := by
          rw [hlog.head]
          by_cases hd : data = []
          · exact .inl hd
          · exact .inr (not_le.mp fun hle => hrefused ⟨hd,hle⟩)
        rw [OutputLog.pushProtected,if_pos hbad] at hresult
        cases hresult
      obtain ⟨freed,next,hpush,hnext,-⟩ := hlog.push s.perRunLimit hlimit hok.1 hok.2 protectedFrom
      rw [hpush] at hresult
      cases hresult
      have hlength := List.length_pos_of_ne_nil hok.1
      have hlatest : next.latestOutputBytes = s.log.latestOutputBytes+data.length := by
        rw [hnext.head,hlog.head]
        simp [Stream.head]
        omega
      have hsettled : s.settled = s.log.latestOutputBytes := by
        rw [System.settled,hnone]
        rfl
      have he : Evolves s { s with
          log := next
          pushed := s.pushed ++
            [⟨s.log.latestOutputBytes,s.log.latestOutputBytes+data.length,data⟩]
          pushing := some ⟨s.log.latestOutputBytes,s.log.latestOutputBytes+data.length,data⟩
          late := s.late || s.terminal.isSome } := by
        refine ⟨List.subset_append_left _ _,fun chunk hchunk => ?_,by simp only; omega,
          fun f hf => hf,[],by simp,hsettled,rfl⟩
        rcases List.mem_append.mp hchunk with hold | hnew
        · exact .inl hold
        · rw [List.mem_singleton.mp hnew]
          exact .inr le_rfl
      obtain ⟨hreceives,hplaced⟩ := h.evolves he rfl fun _ _ => rfl
      refine ⟨h.kept,h.opened,⟨_,limit,hlimit,hnext⟩,⟨base,?_⟩,?_,
        ⟨h.ended.isSome,fun f hf => ?_,fun hlate f hf => ?_⟩,?_,hreceives,hplaced⟩
      · simp only [hlatest]
        exact htiles.concat rfl (by simp only; omega)
      · intro chunk hchunk
        cases hchunk
        exact ⟨by simp,hlatest.symm⟩
      · exact hsettled ▸ h.ended.settled f hf
      · -- a Run that had ended makes the chunk a late one
        have hrunning : s.terminal.isSome = false := (Bool.or_eq_false_iff.mp hlate).2
        rw [← h.ended.isSome,Option.isSome_eq_false_iff,Option.isNone_iff_eq_none] at hrunning
        rw [show s.final = some f from hf] at hrunning
        cases hrunning
      · have hcursor := h.cursor
        rw [hsettled] at hcursor
        exact hcursor

/-- Publishing appends to the flow; the caller says what becomes of a pending push. -/
theorem Inv.publishing {event : RunEvent} {grow refusals : Option ℕ} {s' : System}
    (hpublish : s.publishing event grow refusals = some s') {pushing : Option OutputChunk}
    (hevent : ∀ envelope, Carried s.events.cursor event envelope →
      Published s.pushed s.final s.settled s.events.cursor ⟨event,envelope⟩)
    (hforward : s.settled ≤ position s.settled event)
    (hsettled : position s.settled event = pushing.elim s.log.latestOutputBytes (·.startByte))
    (hpushing : ∀ chunk ∈ pushing, chunk ∈ s.pushing) : Inv { s' with pushing := pushing } := by
  have hpending : ∀ chunk ∈ pushing, chunk ∈ s.pushed ∧
      chunk.endByte = s.log.latestOutputBytes := fun chunk hchunk =>
    h.pushing chunk (hpushing chunk hchunk)
  have hended : ∀ f ∈ s.final, f ≤ pushing.elim s.log.latestOutputBytes (·.startByte) :=
    fun f hf => (h.ended.settled f hf).trans (hforward.trans hsettled.le)
  unfold System.publishing at hpublish
  cases hresult : s.events.publish event grow refusals with
  | none =>
    rw [hresult] at hpublish
    cases hpublish
  | some result =>
    obtain ⟨events,publication⟩ := result
    rw [hresult] at hpublish
    cases hpublish
    rcases publish_carried h.kept h.opened hresult with ⟨hnobody,rfl,rfl⟩ |
      ⟨envelope,rfl,hcursor,hkept,hreaders,hopen,hcarried⟩
    · have hnoview : s.view = none := by
        cases hview : s.view with
        | none => rfl
        | some v => exact absurd hnobody (h.receiver (v := v) (by rw [hview]; rfl))
      have hplain : Carried s.events.cursor event
          ⟨.funded event,s.events.cursor,s.events.cursor.record event⟩ :=
        ⟨.inl rfl,.inl ⟨rfl,rfl⟩⟩
      have hwithin := (hevent _ hplain).within h.cursor
      refine ⟨by simpa using h.kept,h.opened,h.log,h.pushed,hpending,
        ⟨h.ended.isSome,hended,h.ended.latest⟩,?_,?_,?_⟩
      · simp only [System.settled]
        rw [← hsettled]
        exact hwithin
      · simp [hnoview]
      · simp [hnoview]
    · have hpublished := hevent envelope hcarried
      have he : Evolves s { s with
          events := events
          published := s.published ++ [⟨event,envelope⟩]
          pushing := pushing } := by
        refine ⟨List.Subset.refl _,fun chunk hchunk => .inl hchunk,le_rfl,fun f hf => hf,
          [⟨event,envelope⟩],rfl,?_⟩
        simp only [System.settled]
        rw [← hsettled,hcursor]
        exact ⟨hpublished,rfl,rfl⟩
      obtain ⟨hreceives,hplaced⟩ := h.evolves he rfl fun v _ => by
        simp only [Journal.State.position?,hreaders]
      refine ⟨by simpa using hkept,hopen,h.log,h.pushed,hpending,
        ⟨h.ended.isSome,hended,h.ended.latest⟩,?_,hreceives,hplaced⟩
      simp only [System.settled]
      rw [← hsettled]
      have hwithin := hpublished.within h.cursor
      rw [← hcursor] at hwithin
      exact hwithin

theorem Inv.publishOutput (grow refusals : Option ℕ) : Inv (s.publishOutput grow refusals) := by
  unfold System.publishOutput
  split
  · exact h
  · rename_i chunk hchunk
    split
    · exact h
    · rename_i s' hpublish
      obtain ⟨hmem,hend⟩ := h.pushing chunk hchunk
      obtain ⟨base,htiles⟩ := h.pushed
      have hlt := (htiles.mem_bounds hmem).2.1
      have hsettled : s.settled = chunk.startByte := by
        rw [System.settled,hchunk]
        rfl
      refine h.publishing hpublish (fun envelope hcarried => ?_) (hsettled ▸ hlt.le) hend nofun
      refine ⟨hcarried,fun endByte heq => ?_,nofun,nofun⟩
      cases heq
      rw [hsettled]
      exact ⟨chunk,hmem,rfl,rfl,hlt⟩

theorem Inv.publish {event : RunEvent} (hposition : position s.settled event = s.settled)
    (houtput : ∀ endByte, event ≠ .output endByte)
    (hgap : ∀ latest causes, event = .gap latest causes → latest ≤ s.settled)
    (hterminal : event.isTerminal = true → ∃ f ∈ s.final, f ≤ s.settled)
    (grow refusals : Option ℕ) :
    Inv ((s.publishing event grow refusals).getD s) := by
  cases hpublish : s.publishing event grow refusals with
  | none => exact h
  | some s' =>
    have hsame : s'.pushing = s.pushing := by
      unfold System.publishing at hpublish
      split at hpublish
      · cases hpublish
      · cases hpublish
        rfl
    have hinv := h.publishing hpublish
      (fun envelope hcarried => ⟨hcarried,fun endByte heq => absurd heq (houtput endByte),hgap,
        hterminal⟩) hposition.ge hposition fun chunk hchunk => hchunk
    rw [← hsame] at hinv
    exact hinv

theorem Inv.publishTerminal (grow refusals : Option ℕ) : Inv (s.publishTerminal grow refusals) := by
  unfold System.publishTerminal
  split
  · exact h
  · rename_i state hstate
    have hsome : s.final.isSome = true := by
      rw [h.ended.isSome,hstate]
      rfl
    obtain ⟨f,hf⟩ := Option.isSome_iff_exists.mp hsome
    have hfinal : ∃ f ∈ s.final, f ≤ s.settled := ⟨f,hf,h.ended.settled f hf⟩
    cases state with
    | exited =>
      show Inv ((s.publishing .exited grow refusals).getD s)
      exact h.publish rfl (by simp) (by simp) (fun _ => hfinal) grow refusals
    | interrupted =>
      show Inv ((s.publishing .interrupted grow refusals).getD s)
      exact h.publish rfl (by simp) (by simp) (fun _ => hfinal) grow refusals

theorem Inv.publishOther (event : RunEvent) (grow refusals : Option ℕ) :
    Inv (s.step (.publish event grow refusals)) := by
  unfold System.step
  cases event with
  | output endByte => exact h
  | gap latest causes => exact h
  | exited => exact h
  | interrupted => exact h
  | _ =>
    exact h.publish rfl (by simp) (by simp) (by simp [RunEvent.isTerminal]) grow refusals

theorem Inv.publishGap (latest : ℕ) (causes : Attachment.OutputGapCauses)
    (grow refusals : Option ℕ) : Inv (s.step (.publishGap latest causes grow refusals)) := by
  unfold System.step
  simp only
  split
  · exact h
  · rename_i hle
    refine h.publish rfl (by simp) (fun latest' causes' heq => ?_) (by simp [RunEvent.isTerminal])
      grow refusals
    cases heq
    exact not_lt.mp hle

/-- An operation on the hot window leaves the head where it is. -/
theorem Inv.effect {event : LogEvent} (hevent : ∀ stream : Stream, (stream.step event).head = stream.head) :
    Inv (s.effect event) := by
  unfold System.effect
  split
  · exact h
  · obtain ⟨stream,limit,hlimit,hlog⟩ := h.log
    have hnext := hlog.step s.perRunLimit hlimit event
    have hlatest : (s.log.step s.perRunLimit event).latestOutputBytes =
        s.log.latestOutputBytes := by
      rw [hnext.head,hevent,hlog.head]
    have hsettled : System.settled { s with log := s.log.step s.perRunLimit event } = s.settled := by
      simp only [System.settled,hlatest]
    have he : Evolves s { s with log := s.log.step s.perRunLimit event } :=
      .same rfl hlatest (fun f hf => hf) rfl hsettled rfl
    obtain ⟨hreceives,hplaced⟩ := h.evolves he rfl fun _ _ => rfl
    refine ⟨h.kept,h.opened,⟨_,limit,hlimit,hnext⟩,?_,?_,⟨h.ended.isSome,?_,?_⟩,?_,hreceives,
      hplaced⟩
    · simp only [hlatest]
      exact h.pushed
    · simp only [hlatest]
      exact h.pushing
    · rw [hsettled]
      exact h.ended.settled
    · simp only [hlatest]
      exact h.ended.latest
    · rw [hsettled]
      exact h.cursor

theorem Inv.terminate (state : TerminalState) : Inv (s.step (.terminate state)) := by
  unfold System.step
  simp only
  split
  · exact h
  · rename_i hrunning
    rw [← h.ended.isSome] at hrunning
    have hnone : s.final = none := by simpa using hrunning
    have he : Evolves s { s with
        terminal := some state, final := some s.settled, late := s.pushing.isSome } :=
      .same rfl rfl (by rw [hnone]; exact nofun) rfl rfl rfl
    obtain ⟨hreceives,hplaced⟩ := h.evolves he rfl fun _ _ => rfl
    refine ⟨h.kept,h.opened,h.log,h.pushed,h.pushing,⟨rfl,fun f hf => ?_,fun hlate f hf => ?_⟩,
      h.cursor,hreceives,hplaced⟩
    · cases hf
      exact le_rfl
    · cases hf
      have hidle : s.pushing = none := by simpa using hlate
      simp only [System.settled,hidle,Option.elim_none]

theorem Inv.journal {journal : Journal.State LiveRunEvent} {others : ℕ}
    (hkept : Kept (s.published.map (·.envelope)) journal) (hclosed : journal.closed = false)
    (hours : ∀ v ∈ s.view, journal.position? v.client.reader =
      s.events.journal.position? v.client.reader) :
    Inv { s with events := { s.events with journal := journal }, others := others } := by
  have he : Evolves s
      { s with events := { s.events with journal := journal }, others := others } :=
    .same rfl rfl (fun f hf => hf) rfl rfl rfl
  obtain ⟨hreceives,hplaced⟩ := h.evolves he rfl hours
  exact ⟨hkept,hclosed,h.log,h.pushed,h.pushing,⟨h.ended.isSome,h.ended.settled,h.ended.latest⟩,
    h.cursor,hreceives,hplaced⟩

end Steps

end Viewer
end Ctxmux
