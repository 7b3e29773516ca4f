import Ctxmux.StreamRun

/-!
# The honest output stream

The steps of the attachment itself, stage by stage: the snapshot joins the flow of
publications at the head of the Run, each page leaves the client where the next one
begins, and the live loop keeps it at the byte that it has to expect. A header that does
not describe its own page is the one way to leave this order.
-/

namespace Ctxmux
namespace Viewer

open Attachment (RunEvent LiveEvents LiveRunEvent LiveEventCursor OutputGapCauses Publication Client
  TerminalState terminalEvent)
open Attachment.LiveEventCursor (Within)
open Durable (Byte OutputChunk RunId Store StoreEvent Carries createdStore honestStep faithful_run
  sampleCodec)
open Output (OutputLog LogEvent LogOrigin Stream)
open Journal (Kept)
open Machine
open Tiling

variable {s : System} {v : View}

theorem Receives.registered (h : Receives s v) :
    ∃ p, s.events.journal.position? v.client.reader = some p := by
  unfold Receives at h
  split at h
  · exact ⟨_,h.1⟩
  · exact ⟨_,h.1⟩
  · obtain ⟨p,hp,-,-⟩ := h
    exact ⟨p,hp⟩

theorem Inv.settled_le (h : Inv s) : s.settled ≤ s.log.latestOutputBytes := by
  unfold System.settled
  cases hpushing : s.pushing with
  | none => exact le_rfl
  | some chunk =>
    obtain ⟨hmem,hend⟩ := h.pushing chunk hpushing
    obtain ⟨base,htiles⟩ := h.pushed
    have hlt := (htiles.mem_bounds hmem).2.1
    simp only [Option.elim_some]
    omega

theorem Inv.at_latest (h : Inv s) : At s s.log.latestOutputBytes := by
  obtain ⟨base,htiles⟩ := h.pushed
  exact ⟨boundary_latest htiles le_rfl,le_rfl⟩

/-- What had been published when the Run ended lies below its head. -/
theorem Inv.final_le (h : Inv s) (hsome : s.final.isSome = true) :
    ∃ f ∈ s.final, f ≤ s.log.latestOutputBytes := by
  obtain ⟨f,hf⟩ := Option.isSome_iff_exists.mp hsome
  exact ⟨f,hf,(h.ended.settled f hf).trans h.settled_le⟩

/-- The fences that were sent are not part of the flow. -/
theorem Passing.of_fields {client client' : Client} {a : ℕ} (h : Passing s client a)
    (hcursor : client'.liveCursor = client.liveCursor) (hpassed : client'.passed = client.passed) :
    Passing s client' a := by
  refine ⟨?_,?_,?_⟩
  · rw [hcursor,hpassed]
    exact h.flow
  · rw [hcursor]
    exact h.within
  · rw [hpassed]
    exact h.passed

section Others

variable (h : Inv s)
include h

theorem Inv.subscribeOther (grow : Option ℕ) : Inv (s.step (.subscribeOther grow)) := by
  unfold System.step
  simp only
  split
  · exact h
  · rename_i reader journal hsubscribe
    obtain ⟨hkept,-,hclosed,-,-,hothers⟩ := h.kept.subscribe hsubscribe
    refine h.journal hkept hclosed fun v hv => ?_
    obtain ⟨p,hp⟩ := (h.receives v hv).registered
    rw [hp]
    exact hothers _ p hp

theorem Inv.withOther (reader : ℕ)
    {f : Journal.State LiveRunEvent → ℕ → Journal.State LiveRunEvent}
    (hf : ∀ n, s.events.journal.position? reader = some n →
      Kept (s.published.map (·.envelope)) (f s.events.journal n) ∧
      (f s.events.journal n).closed = s.events.journal.closed ∧
      ∀ other p, other ≠ reader → s.events.journal.position? other = some p →
        (f s.events.journal n).position? other = some p) :
    Inv (s.withOther reader f) := by
  unfold System.withOther
  split
  · exact h
  · rename_i hours
    split
    · exact h
    · rename_i n hn
      obtain ⟨hkept,hclosed,hothers⟩ := hf n hn
      refine h.journal hkept (hclosed.trans h.opened) fun v hv => ?_
      obtain ⟨p,hp⟩ := (h.receives v hv).registered
      rw [hp]
      refine hothers _ p ?_ hp
      rintro rfl
      have hview : s.view = some v := hv
      simp [System.ours,hview] at hours

theorem Inv.receiveOther (reader : ℕ) : Inv (s.step (.receiveOther reader)) := by
  show Inv (s.withOther reader fun journal n =>
    (journal.tryRecv LiveRunEvent.isOutput reader n).1)
  refine h.withOther reader fun n hn => ?_
  obtain ⟨p',-,hkept,hclosed,-,hothers,-⟩ := h.kept.tryRecv LiveRunEvent.isOutput hn
  exact ⟨hkept,hclosed,fun other p hne hp => (hothers other hne).trans hp⟩

theorem Inv.dropOther (reader : ℕ) : Inv (s.step (.dropOther reader)) := by
  show Inv (s.withOther reader fun journal _ => journal.dropReceiver LiveRunEvent.isOutput reader)
  refine h.withOther reader fun n hn => ?_
  obtain ⟨hkept,hclosed,-,hothers⟩ := h.kept.dropReceiver LiveRunEvent.isOutput hn
  exact ⟨hkept,hclosed,hothers⟩

/-- Without an attachment the journal may go, and a push need not publish. -/
theorem Inv.unattached (hview : s.view = none) {events : LiveEvents} {published : List Publication}
    {pushing : Option OutputChunk} (hkept : Kept (published.map (·.envelope)) events.journal)
    (hclosed : events.journal.closed = false) (hcursor : events.cursor = s.events.cursor)
    (hpushing : ∀ chunk ∈ pushing, chunk ∈ s.pushing)
    (hsettled : s.settled ≤ pushing.elim s.log.latestOutputBytes (·.startByte)) :
    Inv { s with events := events, published := published, pushing := pushing } := by
  refine ⟨hkept,hclosed,h.log,h.pushed,fun chunk hchunk => h.pushing chunk (hpushing chunk hchunk),
    ⟨h.ended.isSome,fun f hf => (h.ended.settled f hf).trans hsettled,h.ended.latest⟩,
    ?_,by simp [hview],by simp [hview]⟩
  have hwithin := h.cursor.mono hsettled
  rw [← hcursor] at hwithin
  exact hwithin

theorem Inv.takeSender : Inv (s.step .takeSender) := by
  show Inv (if s.attachments = 0 then
    { s with events := { s.events with journal := .new }, published := [] } else s)
  split
  · rename_i hunattached
    exact h.unattached (Inv.view_none hunattached) Journal.Live.kept_start.journal rfl rfl
      (fun chunk hchunk => hchunk) le_rfl
  · exact h

theorem Inv.skipOutput : Inv (s.step .skipOutput) := by
  show Inv (if s.attachments = 0 then { s with pushing := none } else s)
  split
  · rename_i hunattached
    exact h.unattached (Inv.view_none hunattached) h.kept h.opened rfl nofun h.settled_le
  · exact h

end Others

section Stages

variable (h : Inv s)
include h

theorem Inv.viewing {f : View → View}
    (hf : ∀ v ∈ s.view, Receives s v → Placed s v → Receives s (f v) ∧ Placed s (f v)) :
    Inv (s.viewing f) := by
  have hmapped : ∀ w ∈ s.view.map f, Receives s w ∧ Placed s w := by
    intro w hw
    obtain ⟨v,hv,rfl⟩ := Option.map_eq_some_iff.mp hw
    exact hf v hv (h.receives v hv) (h.placed v hv)
  have he : Evolves s (s.viewing f) := .same rfl rfl (fun f hf => hf) rfl rfl rfl
  exact ⟨h.kept,h.opened,h.log,h.pushed,h.pushing,
    ⟨h.ended.isSome,h.ended.settled,h.ended.latest⟩,h.cursor,
    fun w hw => (hmapped w hw).1.evolves he rfl,
    fun w hw => (hmapped w hw).2.evolves he⟩

/-- A receiver is registered behind everything that was published. -/
theorem Inv.attach (afterByte : ℕ) (grow : Option ℕ) : Inv (s.attach afterByte grow) := by
  unfold System.attach
  split
  · rename_i reader journal hnone hsubscribe
    obtain ⟨hkept,hposition,hclosed,-,-,-⟩ := h.kept.subscribe hsubscribe
    have hnext := h.kept.next
    rw [List.length_map] at hnext
    refine ⟨hkept,hclosed,h.log,h.pushed,h.pushing,
      ⟨h.ended.isSome,h.ended.settled,h.ended.latest⟩,h.cursor,fun v hv => ?_,fun v hv => ?_⟩
    · cases hv
      exact ⟨s.events.journal.next,hposition,le_rfl,fun _ => rfl⟩
    · cases hv
      refine ⟨rfl,s.settled,?_,h.cursor,hnext.le⟩
      simp only [hnext,List.drop_length]
      exact ⟨rfl,rfl⟩
  · exact h

theorem Inv.info : Inv (s.step .info) := by
  show Inv (s.viewing fun v =>
    if v.stage = .subscribed then { v with stage := .informed s.terminal } else v)
  refine h.viewing fun v _ hreceives hplaced => ?_
  split
  · rename_i hstage
    rw [Receives,hstage] at hreceives
    rw [Placed,hstage] at hplaced
    obtain ⟨hframes,a,ha⟩ := hplaced
    refine ⟨hreceives,hframes,fun hsome => ?_,a,ha⟩
    rw [h.ended.isSome]
    exact hsome
  · exact ⟨hreceives,hplaced⟩

/-- The head of the snapshot is ahead of everything that was published. -/
theorem Inv.join (seed : Option ℕ) (serviceRevision resizeRevision : ℕ) :
    Inv (s.step (.join seed serviceRevision resizeRevision)) := by
  show Inv (s.viewing _)
  refine h.viewing fun v _ hreceives hplaced => ?_
  split
  · rename_i terminal hstage
    unfold System.join
    split
    · exact ⟨hreceives,hplaced⟩
    · rename_i hidle
      have hidle : s.pushing = none ∧ ∀ n ∈ seed, n ≤ s.log.latestOutputBytes := by
        simpa [Option.any_eq_false] using hidle
      rw [Receives,hstage] at hreceives
      rw [Placed,hstage] at hplaced
      obtain ⟨hframes,hterminal,a,ha⟩ := hplaced
      have hsettled : s.settled = s.log.latestOutputBytes := by
        rw [System.settled,hidle.1]
        rfl
      refine ⟨hreceives,hframes,⟨a,hsettled ▸ ha.flow.le,ha.of_fields rfl rfl⟩,h.at_latest,
        hidle.2,fun log hlog => (by cases hlog),fun hsome => h.final_le (hterminal hsome)⟩
  · exact ⟨hreceives,hplaced⟩

theorem Inv.readFloor : Inv (s.step .readFloor) := by
  show Inv (s.viewing s.readFloor)
  refine h.viewing fun v _ hreceives hplaced => ?_
  unfold System.readFloor
  split
  · exact ⟨hreceives,hplaced⟩
  · split
    · rename_i terminal seed head hstage
      rw [Receives,hstage] at hreceives
      rw [Placed,hstage] at hplaced
      obtain ⟨hframes,ha,hat,hseed,-,hterminal⟩ := hplaced
      refine ⟨hreceives,hframes,ha,hat,hseed,fun before hbefore => ?_,hterminal⟩
      cases hbefore
      exact hat.le
    · rename_i terminal seeded cursor hstage
      rw [Receives,hstage] at hreceives
      rw [Placed,hstage] at hplaced
      obtain ⟨hfollowed,hended,hlt,ha,hat,-,hterminal⟩ := hplaced
      refine ⟨hreceives,hfollowed,hended,hlt,ha,hat,fun before hbefore => ?_,hterminal⟩
      cases hbefore
      exact hat.le
    · exact ⟨hreceives,hplaced⟩

omit h in
/-- Behind a page, the replay goes on or the client stands at the head of its snapshot. -/
theorem placed_replayFrom {w : View} {terminal : Option TerminalState} {seeded : Bool} {cursor : ℕ}
    (hfollowed : w.followed = some cursor) (hended : w.ended = false)
    (hle : cursor ≤ w.client.sent.sentThroughByte)
    (hpassing : ∃ a ≤ w.client.sent.sentThroughByte, Passing s w.client a)
    (hat : At s w.client.sent.sentThroughByte)
    (hterminal : terminal.isSome = true → ∃ f ∈ s.final, f ≤ w.client.sent.sentThroughByte)
    (hposition : ∃ p, s.events.journal.position? w.client.reader = some p ∧ w.client.passed ≤ p ∧
      (w.client.receiverLagged = false → p = w.client.passed)) :
    Receives s (w.replayFrom terminal seeded cursor) ∧
      Placed s (w.replayFrom terminal seeded cursor) := by
  unfold View.replayFrom
  split
  · rename_i hlt
    exact ⟨hposition,hfollowed,hended,hlt,hpassing,hat,nofun,hterminal⟩
  · rename_i hdone
    have hcursor : cursor = w.client.sent.sentThroughByte := le_antisymm hle (not_lt.mp hdone)
    cases terminal with
    | some state => exact ⟨hposition,hcursor ▸ hfollowed,hended,hterminal rfl⟩
    | none =>
      obtain ⟨a,hbelow,ha⟩ := hpassing
      refine ⟨hposition,a,cursor,fun _ => ha.of_fields rfl rfl,hfollowed,?_,hat.boundary,hat.le,
        hended⟩
      show cursor = max w.client.sent.sentThroughByte a
      omega

theorem Inv.readPage (durable : Option StoredRun) (hfits : Fits s (.readPage durable)) :
    Inv (s.step (.readPage durable)) := by
  show Inv (s.viewing fun v => s.readPage v durable)
  obtain ⟨stream,limit,-,hlog⟩ := h.log
  refine h.viewing fun v hv hreceives hplaced => ?_
  have hview : s.view = some v := hv
  have hfits : s.fits (.readPage durable) = true := hfits
  simp only [System.fits,hview,Option.all_some] at hfits
  unfold System.readPage
  split
  · exact ⟨hreceives,hplaced⟩
  · split
    · rename_i terminal seed head before hstage
      rw [hstage] at hfits
      rw [Receives,hstage] at hreceives
      rw [Placed,hstage] at hplaced
      obtain ⟨hframes,⟨a,hle,ha⟩,hat,hseed,hbefore,hterminal⟩ := hplaced
      cases hpage : s.page durable before (seed.getD v.afterByte) head with
      | error error =>
        refine ⟨hreceives,v.afterByte,?_,fun hended => ?_⟩
        · simp [View.followed,View.send,hframes,follow,Frame.follow]
        · simp [View.ended,View.send,hframes,Frame.isTerminal] at hended
      | ok result =>
        cases result with
        | none =>
          refine ⟨by rw [Receives,hstage]; exact hreceives,?_⟩
          rw [Placed,hstage]
          exact ⟨hframes,⟨a,hle,ha⟩,hat,hseed,hbefore,hterminal⟩
        | some page =>
          simp only [hpage,decide_eq_true_eq] at hfits
          have hof := page_of hlog (hbefore before rfl) hat.le hpage
          obtain ⟨w,seeded,cursor,hopening,hfollowed,hended,hcursor,hclient,-⟩ :=
            View.opening_of terminal hframes hof hseed hfits
          simp only [hopening]
          have hthrough : w.client.sent.sentThroughByte = head := by rw [hclient]
          have hreader : w.client.reader = v.client.reader ∧ w.client.passed = v.client.passed ∧
              w.client.receiverLagged = v.client.receiverLagged ∧
              w.client.liveCursor = v.client.liveCursor := by
            rw [hclient]
            exact ⟨rfl,rfl,rfl,rfl⟩
          refine placed_replayFrom hfollowed hended (by rw [hthrough]; exact hcursor)
            ⟨a,by rw [hthrough]; exact hle,ha.of_fields hreader.2.2.2 hreader.2.1⟩
            (by rw [hthrough]; exact hat) (by rw [hthrough]; exact hterminal) ?_
          rw [hreader.1,hreader.2.1,hreader.2.2.1]
          exact hreceives
    · rename_i terminal seeded cursor before hstage
      rw [Receives,hstage] at hreceives
      rw [Placed,hstage] at hplaced
      obtain ⟨hfollowed,hended,hlt,⟨a,hle,ha⟩,hat,hbefore,hterminal⟩ := hplaced
      cases hpage : s.page durable before cursor v.client.sent.sentThroughByte with
      | error error =>
        refine ⟨hreceives,cursor,View.send_followed hfollowed _,fun hended' => ?_⟩
        have hsame : (v.send [.error (.storage error)]).ended = true := hended'
        rw [View.send_ended,hended] at hsame
        cases hsame
      | ok result =>
        cases result with
        | none =>
          refine ⟨by rw [Receives,hstage]; exact hreceives,?_⟩
          rw [Placed,hstage]
          exact ⟨hfollowed,hended,hlt,⟨a,hle,ha⟩,hat,hbefore,hterminal⟩
        | some page =>
          have hof := page_of hlog (hbefore before rfl) hat.le hpage
          rcases View.replayed_of terminal seeded hfollowed hended hlt hof with
            hevicted | ⟨w,next,hreplayed,hfollowed',hended',hnext,hclient,-⟩
          · simp only [hevicted]
            refine ⟨hreceives,cursor,View.send_followed hfollowed _,fun hended' => ?_⟩
            have hsame : (v.send [.error (.io tailEvicted)]).ended = true := hended'
            rw [View.send_ended,hended] at hsame
            cases hsame
          · simp only [hreplayed]
            rw [← hclient] at hnext hle ha hat hterminal hreceives
            exact placed_replayFrom hfollowed' hended' hnext ⟨a,hle,ha⟩ hat hterminal hreceives
    · exact ⟨hreceives,hplaced⟩

theorem Inv.receiving {journal : Journal.State LiveRunEvent} {w : View}
    (hkept : Kept (s.published.map (·.envelope)) journal) (hclosed : journal.closed = false)
    (hreceives : Receives { s with events := { s.events with journal := journal } } w)
    (hplaced : Placed s w) :
    Inv { s with events := { s.events with journal := journal }, view := some w } := by
  have he : Evolves s
      { s with events := { s.events with journal := journal }, view := some w } :=
    .same rfl rfl (fun f hf => hf) rfl rfl rfl
  refine ⟨hkept,hclosed,h.log,h.pushed,h.pushing,
    ⟨h.ended.isSome,h.ended.settled,h.ended.latest⟩,h.cursor,fun w' hw' => ?_,fun w' hw' => ?_⟩
  · cases hw'
    exact hreceives
  · cases hw'
    exact Placed.evolves he hplaced

theorem Inv.receive (hv : s.view = some v) : Inv (s.receive v) := by
  unfold System.receive
  split
  · exact h
  · rename_i hlive
    simp only [ne_eq,not_or,not_not] at hlive
    obtain ⟨hstage,hphase⟩ := hlive
    have hreceives := h.receives v hv
    have hplaced := h.placed v hv
    rw [Receives,hstage] at hreceives
    rw [Placed,hstage] at hplaced
    obtain ⟨p,hp,hpassed,hexact⟩ := hreceives
    rw [hp]
    obtain ⟨p',hp',hkept,hclosed,-,-,-⟩ := h.kept.tryRecv LiveRunEvent.isOutput hp
    rcases h.kept.received LiveRunEvent.isOutput h.opened hp with
      ⟨n,hresult,hbase,hnext⟩ | ⟨hresult,hsame⟩ | ⟨envelope,henvelope,hresult,hnext⟩
    · simp only [hresult]
      refine h.receiving hkept (hclosed.trans h.opened) ?_ ?_
      · rw [Receives]
        simp only [hstage]
        exact ⟨_,hnext,hpassed.trans hbase,nofun⟩
      · rw [Placed]
        simp only [hstage]
        obtain ⟨a,cursor,hpassing,hfollowed,hstanding⟩ := hplaced
        exact ⟨a,cursor,fun hstreaming => (hpassing hstreaming).of_fields rfl rfl,hfollowed,hstanding⟩
    · simp only [hresult,hsame]
      exact h
    · simp only [hresult]
      rw [List.getElem?_map] at henvelope
      obtain ⟨x,hx,rfl⟩ := Option.map_eq_some_iff.mp henvelope
      exact h.receiving hkept (hclosed.trans h.opened) ⟨hnext,hpassed,hexact,x,hx,rfl⟩
        ⟨hphase,hplaced⟩

/-- The publications up to a position that was reached lead no further than the Run. -/
theorem Inv.reached_le {client : Client} {a : ℕ} (ha : Passing s client a) (n : ℕ) :
    reached s client a n ≤ s.log.latestOutputBytes := by
  have hflow := ha.flow
  rw [← List.take_append_drop (n+1-client.passed) (s.published.drop client.passed)] at hflow
  obtain ⟨m,k,htaken,hrest⟩ := hflow.split
  rw [reached,htaken.reach_eq]
  exact hrest.le.trans h.settled_le

theorem Inv.observe : Inv (s.step .observe) := by
  show Inv (s.viewing _)
  refine h.viewing fun v _ hreceives hplaced => ?_
  split
  · rename_i envelope n hstage
    rw [Receives,hstage] at hreceives
    rw [Placed,hstage] at hplaced
    obtain ⟨hposition,hpassed,hexact,x,hx,henvelope⟩ := hreceives
    obtain ⟨hphase,a,cursor,hpassing,hfollowed,hstanding⟩ := hplaced
    rw [Standing,hphase] at hstanding
    obtain ⟨rfl,hboundary,hle,hquiet⟩ := hstanding
    have ha := hpassing hphase
    obtain ⟨hlt,-⟩ := List.getElem?_eq_some_iff.mp hx
    exact ⟨⟨hposition,hpassed,hexact,x,hx,henvelope⟩,hphase,hquiet,⟨hpassed,hlt⟩,h.at_latest,
      hboundary,hle,a,ha,hfollowed,h.reached_le ha n⟩
  · exact ⟨hreceives,hplaced⟩

omit h in
/-- The publications before the envelope in hand, the envelope and the rest. -/
theorem split_at {client : Client} {n : ℕ} {x : Publication} (hpassed : client.passed ≤ n)
    (hx : s.published[n]? = some x) :
    s.published.drop client.passed =
        (s.published.drop client.passed).take (n-client.passed) ++ x::s.published.drop (n+1) ∧
      (s.published.drop client.passed).take (n+1-client.passed) =
        (s.published.drop client.passed).take (n-client.passed) ++ [x] := by
  have hget : (s.published.drop client.passed)[n-client.passed]? = some x := by
    rw [List.getElem?_drop,Nat.add_sub_cancel' hpassed]
    exact hx
  obtain ⟨hlt,heq⟩ := List.getElem?_eq_some_iff.mp hget
  have hnext : n+1-client.passed = n-client.passed+1 := by omega
  constructor
  · have hrest : (s.published.drop client.passed).drop (n-client.passed) =
        x::s.published.drop (n+1) := by
      rw [List.drop_eq_getElem_cons hlt,heq,List.drop_drop]
      congr 2
      omega
    rw [← hrest,List.take_append_drop]
  · rw [hnext,List.take_add_one,hget]
    rfl

theorem Inv.handle (nativeService : Option ℕ) (busy : Bool) :
    Inv (s.step (.handle nativeService busy)) := by
  show Inv (s.viewing fun v => s.handle v nativeService busy)
  refine h.viewing fun v _ hreceives hplaced => ?_
  unfold System.handle
  split
  · rename_i envelope n head hstage
    rw [Receives,hstage] at hreceives
    rw [Placed,hstage] at hplaced
    obtain ⟨hposition,hpassed,hexact,x,hx,rfl⟩ := hreceives
    obtain ⟨hphase,hended,⟨-,hlt⟩,hat,hboundary,hle,a,ha,hfollowed,hreached⟩ := hplaced
    obtain ⟨hsplit,htaken⟩ := split_at hpassed hx
    obtain ⟨base,htiles⟩ := h.pushed
    have hflow := ha.flow
    rw [hsplit] at hflow
    obtain ⟨m,k,hlost,hx',hrest⟩ := hflow.split
    have hreach : position m x.event ≤ head := by
      rw [reached,htaken,(hlost.concat hx').reach_eq] at hreached
      exact hreached
    have hnone : v.client.receiverLagged = false →
        (s.published.drop v.client.passed).take (n-v.client.passed) = [] := fun hfalse => by
      rw [hexact hfalse,Nat.sub_self,List.take_zero]
    obtain ⟨cursor,hcursor,hstanding⟩ := handle_standing htiles hphase hboundary hle hat.boundary
      hat.le hlost hx' hnone ha.within hreach v.afterByte n s.terminal nativeService busy
    obtain ⟨hreader,hnext,hlagged,hlive⟩ := handle_fields v.client x.envelope n
      ⟨s.terminal,head,nativeService⟩ busy
    generalize v.client.handle x.envelope n ⟨s.terminal,head,nativeService⟩ busy = out at *
    obtain ⟨client,events⟩ := out
    simp only at hcursor hstanding hreader hnext hlagged hlive ⊢
    refine ⟨?_,position m x.event,cursor,fun hstreaming => ?_,?_,hstanding.after hended⟩
    · refine ⟨n+1,?_,hnext.le,fun _ => hnext.symm⟩
      show s.events.journal.position? client.reader = _
      rw [hreader]
      exact hposition
    · refine ⟨?_,?_,?_⟩
      · show Flow _ _ _ client.liveCursor (s.published.drop client.passed) _ _
        rw [hlive hstreaming,hnext]
        exact hrest
      · show Within _ client.liveCursor
        rw [hlive hstreaming]
        exact hx'.within (hlost.within ha.within)
      · show client.passed ≤ _
        rw [hnext]
        exact hlt
    · exact (View.send_followed hfollowed _).trans hcursor
  · exact ⟨hreceives,hplaced⟩

theorem Inv.release : Inv (s.step .release) := by
  show Inv (s.viewing s.release)
  refine h.viewing fun v _ hreceives hplaced => ?_
  unfold System.release
  split
  · rename_i state hstage hheld hterminal
    rw [Receives,hstage] at hreceives
    rw [Placed,hstage] at hplaced
    obtain ⟨a,cursor,-,hfollowed,hstanding⟩ := hplaced
    rw [Standing,hheld] at hstanding
    rw [Receives,Placed]
    simp only [View.send,hstage]
    refine ⟨hreceives,a,cursor,fun hs => (by cases hs),?_,fun _ => ?_⟩
    · refine (View.send_followed hfollowed [.event (terminalEvent state)]).trans ?_
      cases state <;> rfl
    · exact hstanding.2.conclude (by cases state <;> rfl)
  · exact ⟨hreceives,hplaced⟩

omit h in
/-- The last frames of an attachment to a Run that had ended. -/
theorem follow_finish (pushed : List OutputChunk) (afterByte cursor through : ℕ)
    (terminal : TerminalState) (liveCursor cursorAfter : LiveEventCursor) :
    ∃ before frame last, (finishTerminalSnapshot terminal liveCursor cursorAfter through).map
        (liveFrame pushed) = before ++ [frame] ∧ frame.isTerminal = true ∧
      follow afterByte cursor (before ++ [frame]) = some last ∧ cursor ≤ last := by
  have hterminal : liveFrame pushed (terminalEvent terminal) = .event (terminalEvent terminal) ∧
      (terminalEvent terminal).isTerminal = true := by cases terminal <;> exact ⟨rfl,rfl⟩
  unfold finishTerminalSnapshot
  split
  · refine ⟨[.event .observationDiscontinuity],_,cursor,rfl,?_,?_,le_rfl⟩
    · rw [hterminal.1]
      exact hterminal.2
    · cases terminal <;> rfl
  · split
    · refine ⟨[_],_,max cursor (max cursorAfter.outputBytes
        cursorAfter.latestOutputDiscontinuityByte),rfl,?_,?_,le_max_left _ _⟩
      · rw [hterminal.1]
        exact hterminal.2
      · cases terminal <;> rfl
    · refine ⟨[],_,cursor,rfl,?_,?_,le_rfl⟩
      · rw [hterminal.1]
        exact hterminal.2
      · cases terminal <;> rfl

theorem Inv.finish : Inv (s.step .finish) := by
  show Inv (s.viewing s.finish)
  refine h.viewing fun v _ hreceives hplaced => ?_
  unfold System.finish
  split
  · rename_i terminal hstage
    rw [Receives,hstage] at hreceives
    rw [Placed,hstage] at hplaced
    obtain ⟨hfollowed,-,f,hf,hlow⟩ := hplaced
    obtain ⟨before,frame,last,hsplit,hterminal,hlast,hle⟩ :=
      follow_finish s.pushed v.afterByte v.client.sent.sentThroughByte
        v.client.sent.sentThroughByte terminal v.client.liveCursor s.events.cursor
    rw [hsplit]
    refine ⟨hreceives,last,(View.send_followed hfollowed _).trans hlast,fun _ => ?_⟩
    have hcovered : Covered s.final last before := .inl ⟨f,hf,hlow.trans hle⟩
    exact (hcovered.conclude hterminal).after
  · exact ⟨hreceives,hplaced⟩

theorem Inv.detach : Inv (s.step .detach) := by
  unfold System.step
  simp only
  split
  · exact h
  · rename_i v hv
    obtain ⟨p,hp⟩ := (h.receives v hv).registered
    obtain ⟨hkept,hclosed,-,-⟩ := h.kept.dropReceiver LiveRunEvent.isOutput hp
    exact ⟨hkept,hclosed.trans h.opened,h.log,h.pushed,h.pushing,
      ⟨h.ended.isSome,h.ended.settled,h.ended.latest⟩,h.cursor,by simp,by simp⟩

theorem Inv.step {e : Event} (hfits : Fits s e) : Inv (s.step e) := by
  cases e with
  | push data protectedFrom => exact h.push data protectedFrom
  | publishOutput grow refusals => exact h.publishOutput grow refusals
  | skipOutput => exact h.skipOutput
  | reclaim dropAtLeast maximum => exact h.effect fun stream => rfl
  | markSourceGap => exact h.effect fun stream => rfl
  | publishGap latest causes grow refusals => exact h.publishGap latest causes grow refusals
  | publish event grow refusals => exact h.publishOther event grow refusals
  | terminate state => exact h.terminate state
  | publishTerminal grow refusals => exact h.publishTerminal grow refusals
  | subscribeOther grow => exact h.subscribeOther grow
  | receiveOther reader => exact h.receiveOther reader
  | dropOther reader => exact h.dropOther reader
  | detachOther => exact h.journal h.kept h.opened fun _ _ => rfl
  | takeSender => exact h.takeSender
  | attach afterByte grow => exact h.attach afterByte grow
  | info => exact h.info
  | join seed serviceRevision resizeRevision => exact h.join seed serviceRevision resizeRevision
  | readFloor => exact h.readFloor
  | readPage durable => exact h.readPage durable hfits
  | receive =>
    cases hv : s.view with
    | none =>
      simp only [System.step,hv]
      exact h
    | some v =>
      simp only [System.step,hv]
      exact h.receive hv
  | observe => exact h.observe
  | handle nativeService busy => exact h.handle nativeService busy
  | release => exact h.release
  | finish => exact h.finish
  | detach => exact h.detach

omit h in
theorem Placed.concluded (h : Placed s v) :
    ∃ cursor, v.followed = some cursor ∧ (v.ended = true → Concluded s.final cursor v.frames) := by
  have hquiet : ∀ {cursor : ℕ}, v.followed = some cursor → v.ended = false →
      ∃ cursor, v.followed = some cursor ∧
        (v.ended = true → Concluded s.final cursor v.frames) := fun hfollowed hended =>
    ⟨_,hfollowed,fun htrue => (by rw [hended] at htrue; cases htrue)⟩
  have hstart : v.frames = [] → ∃ cursor, v.followed = some cursor ∧
      (v.ended = true → Concluded s.final cursor v.frames) := fun hframes => by
    have hfollowed : v.followed = some v.afterByte := by rw [View.followed,hframes]; rfl
    exact hquiet hfollowed (by rw [View.ended,hframes]; rfl)
  have hlive : Live s v → ∃ cursor, v.followed = some cursor ∧
      (v.ended = true → Concluded s.final cursor v.frames) := by
    rintro ⟨a,cursor,-,hfollowed,hstanding⟩
    unfold Standing at hstanding
    split at hstanding
    · exact hstanding.elim
    · exact hquiet hfollowed hstanding.2.2.2
    · exact hquiet hfollowed hstanding.1
    · exact hquiet hfollowed hstanding
    · exact ⟨cursor,hfollowed,hstanding⟩
  unfold Placed at h
  split at h
  · exact hstart h.1
  · exact hstart h.1
  · exact hstart h.1
  · exact hquiet h.1 h.2.1
  · exact hquiet h.1 h.2.1
  · exact hlive h
  · exact hlive h.2
  · obtain ⟨-,hended,-,-,-,-,a,-,hfollowed,-⟩ := h
    exact hquiet hfollowed hended
  · exact h

/-- The client has the output of a Run whose end it has seen. -/
theorem Inv.honest : s.Honest := by
  intro v hv
  obtain ⟨cursor,hfollowed,hconcluded⟩ := (h.placed v hv).concluded
  refine ⟨cursor,hfollowed,fun hended => ?_⟩
  obtain ⟨hlast,hcovered⟩ := hconcluded hended
  refine ⟨hlast,hcovered.imp ?_ id⟩
  rintro ⟨f,hf,hle⟩
  exact ⟨⟨f,hf,hle⟩,fun hlate => h.ended.latest hlate f hf ▸ hle⟩

end Stages

/-- In every run whose headers describe their pages, each output frame begins where the
client stands, and an attachment that ends with the Run has covered what was published
before the Run ended, which is all of its output if none came late, or its client was told
just before that observations were lost. -/
theorem attachment_stream_honest (perRunLimit : ℕ) (origin : LogOrigin)
    (terminal : Option TerminalState) (events : List Event)
    (hfits : Along System.step Fits (System.start perRunLimit origin terminal) events) :
    Always System.step System.Honest (System.start perRunLimit origin terminal) events :=
  always_of_invariant_along (fun _ _ hs he => hs.step he) (fun _ hs => hs.honest)
    (inv_start perRunLimit origin terminal) hfits

/-- Subscribe, take the snapshot and read its first page from the hot log. -/
def attaching (afterByte : ℕ) (seed : Option ℕ) (between : List Event) : List Event :=
  [.attach afterByte (some 0),.info,.join seed 0 0] ++ between ++ [.readFloor,.readPage none]

/-- Push and publish one chunk whose event is funded. -/
def recording (data : List Byte) : List Event :=
  [.push data 0,.publishOutput (some 0) (some 0)]

/-- Take one envelope and deliver it. -/
def delivering : List Event := [.receive,.observe,.handle none false]

/-- A replay below a reclaimed window, a pressured chunk, a lag and the end of the Run. -/
def pressedRun : List Event :=
  [.push [1,2,3,4] 0,.skipOutput,.reclaim 1 1] ++ attaching 0 none [] ++
    recording [5] ++ delivering ++ [.push [6] 0,.publishOutput (some 0) none] ++
    recording [7] ++ [.terminate .exited,.publishTerminal (some 0) (some 1)] ++
    [.receive] ++ delivering ++ delivering

/-- The bytes 1, 2, 3 and so on. -/
def countedBytes (_ : RunId) (n : ℕ) : Byte := UInt8.ofNat (n+1)

def storedId : RunId := ⟨"0198f3c2-6f00-7c00-8a00-000000000003"⟩

theorem carries_counted : Carries (countedBytes storedId) ⟨[⟨0,4,[1,2,3,4]⟩],0,4,false⟩ := by
  intro chunk hchunk
  rw [List.mem_singleton.mp hchunk]
  rfl

theorem storedEpoch_parses :
    sampleCodec.parseUuid "5e0c1a52-3f3e-4d9e-9d66-1f6f1c1b2a10" = true :=
  rfl

/-- A Run is started, and its first four bytes are committed. -/
def storedEvents : List { e : StoreEvent sampleCodec // e.Honest countedBytes } :=
  [⟨.start ⟨"5e0c1a52-3f3e-4d9e-9d66-1f6f1c1b2a10",storedEpoch_parses⟩
      "0198f3c2-6f00-7c00-8a00-000000000004" storedId "\x7b\"program\":\"sh\"\x7d" none [],trivial⟩,
    ⟨.append storedId ⟨[⟨0,4,[1,2,3,4]⟩],0,4,false⟩ 4096,carries_counted⟩]

def storedStore : Store :=
  run (honestStep sampleCodec countedBytes) (createdStore "a.bin") storedEvents

theorem storedStore_runs : storedStore.db.runs ≠ [] := by
  decide +kernel

def storedRun : StoredRun where
  codec := sampleCodec
  streams := countedBytes
  store := storedStore
  row := storedStore.db.runs.head storedStore_runs
  wellFormed := (faithful_run (by decide) storedEvents).1
  faithful := (faithful_run (by decide) storedEvents).2
  stored := List.head_mem storedStore_runs

/-- A replay whose first page is durable and whose second is hot, and the end of the Run. -/
def durableRun : List Event :=
  [.push [1,2,3,4] 4,.skipOutput,.reclaim 2 2,.attach 0 (some 0),.info,.join none 0 0,.readFloor,
    .readPage (some storedRun),.readFloor,.readPage (some storedRun)] ++ recording [5] ++
    delivering ++ [.terminate .exited,.publishTerminal (some 0) (some 0)] ++ delivering

theorem attachment_stream_honest_pressed :
    (Along System.step Fits (System.start 100 .new none) pressedRun ∧
    ((run System.step (System.start 100 .new none) pressedRun).view.any fun v =>
      v.ended && v.followed == some 7) = true ∧
    Always System.step System.Honest (System.start 100 .new none) pressedRun) ∧
    Along System.step Fits (System.start 100 .new none) durableRun ∧
    ((run System.step (System.start 100 .new none) durableRun).view.any fun v =>
      v.frames == [.attached none ⟨0,4,false⟩,.output ⟨0,2,[1,2]⟩,.output ⟨2,4,[3,4]⟩,
        .output ⟨4,5,[5]⟩,.event .exited]) = true ∧
    Always System.step System.Honest (System.start 100 .new none) durableRun :=
  ⟨⟨by decide +kernel,by decide +kernel,
      attachment_stream_honest 100 .new none pressedRun (by decide +kernel)⟩,
    by decide +kernel,by decide +kernel,
    attachment_stream_honest 100 .new none durableRun (by decide +kernel)⟩

/-- A paused source, and a journal that loses its output, its observation and its gap before
the attachment looks: the client learns of lost observations only. -/
def observationLostRun : List Event :=
  attaching 0 none [] ++ recording [1] ++
    [.markSourceGap,.publish .tmux (some 0) (some 0),
      .publishGap 1 { OutputGapCauses.none with sourceDiscontinuity := true } (some 0) (some 0),
      .terminate .interrupted,.publishTerminal (some 0) (some 3),.receive] ++ delivering

/-- A tmux reader that outlives the drain timeout pushes a byte when the Run is over. -/
def lateOutputRun : List Event :=
  attaching 0 none [] ++ [.terminate .interrupted,.publishTerminal (some 0) (some 0)] ++
    recording [1] ++ delivering

/-- A client that asks for bytes beyond the head is sent those at the head. -/
def beyondHeadRun : List Event := attaching 5 none [] ++ recording [1] ++ delivering

/-- The window leaves the head of the snapshot behind before the first page is read. -/
def windowAboveHeadRun : List Event :=
  [.push [1,2] 0,.skipOutput] ++ attaching 0 none (recording [3] ++ [.reclaim 3 3]) ++ delivering

/-- The tail of a terminal seed is reclaimed before the first page is read, and the page goes
out from the window, below the byte that the client asked for. -/
def withdrawnSeedRun : List Event :=
  [.push [1,2,3,4,5,6] 0,.skipOutput] ++ attaching 4 (some 2) [.reclaim 3 3]

/-- The stream is not honest without exception. -/
theorem attachment_stream_exceptions :
    ¬(run System.step (System.start 100 .new none) observationLostRun).GapHonest ∧
    ¬(run System.step (System.start 100 .new none) lateOutputRun).GapHonest ∧
    ¬(run System.step (System.start 100 .new none) beyondHeadRun).GapHonest ∧
    ¬(run System.step (System.start 100 .new none) windowAboveHeadRun).GapHonest ∧
    ¬(run System.step (System.start 100 .new none) withdrawnSeedRun).GapHonest := by
  decide +kernel

end Viewer
end Ctxmux
