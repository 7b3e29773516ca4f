import Ctxmux.SdkAttachmentOffer
import Ctxmux.Tiling

/-!
# Delivery and recovery of an SDK attachment

Over every sequence of offered events and calls the caller receives the accepted events in
their order, with gaps in the place of what was merged. The accounts are exact, and a gap
reports no cursor behind which a byte is missing.
-/

namespace Ctxmux
namespace SdkView

open Attachment (OutputGapCauses)
open Durable (Byte OutputChunk)
open Stretches (Presents presents_nil)
open Machine

variable {Body : Type} {p : ViewResources Body} {chunks : List OutputChunk} {requested : ℕ}

/-- Every byte from the requested cursor up to both cursors is in the chunks. -/
structure Within (chunks : List OutputChunk) (requested : ℕ) (deliveredThroughByte : Option ℕ)
    (recoveryAfterByte : ℕ) : Prop where
  recovery : Covered chunks requested recoveryAfterByte
  delivered : ∀ through, deliveredThroughByte = some through → Covered chunks requested through

theorem Within.advance {c : Cursor}
    (h : Within chunks requested c.deliveredThroughByte c.recoveryAfterByte)
    (event : AttachmentEvent Body) :
    Within (chunks ++ outputs [event]) requested (c.advance event).deliveredThroughByte
      (c.advance event).recoveryAfterByte := by
  have hsame : Within (chunks ++ outputs [event]) requested c.deliveredThroughByte
      c.recoveryAfterByte :=
    ⟨h.recovery.mono _,fun through hthrough => (h.delivered through hthrough).mono _⟩
  unfold Cursor.advance
  cases event with
  | gap event => exact hsame
  | plain event =>
    cases event with
    | exited body => exact hsame
    | interrupted body => exact hsame
    | observationDiscontinuity => exact hsame
    | sessionRenamed name => exact hsame
    | other body => exact hsame
    | output chunk =>
      dsimp only
      split
      · exact hsame
      split
      · exact hsame
      rename_i _ hstart
      have houtputs : outputs [(.plain (.output chunk) : AttachmentEvent Body)] = [chunk] := rfl
      rw [houtputs]
      refine ⟨h.recovery.extend (not_lt.mp hstart) le_rfl,?_⟩
      intro through hthrough
      cases hthrough
      cases hdelivered : c.deliveredThroughByte with
      | none =>
        apply h.recovery.extend (not_lt.mp hstart)
        simp
      | some delivered =>
        intro byte hfirst hlast
        by_cases hbyte : byte < delivered
        · exact (h.delivered delivered hdelivered).mono _ byte hfirst hbyte
        · apply h.recovery.extend (not_lt.mp hstart) le_rfl byte hfirst
          simp only [Option.getD_some] at hlast
          omega

theorem outputs_append (xs ys : List (AttachmentEvent Body)) :
    outputs (xs ++ ys) = outputs xs ++ outputs ys := List.filterMap_append

/-- A gap that was received reports no cursor behind which a byte is missing. -/
def Reports (chunks : List OutputChunk) (requested : ℕ) (received : List (AttachmentEvent Body)) :
    Prop :=
  ∀ before gap after, received = before ++ .gap gap::after →
    Within (chunks ++ outputs before) requested gap.observation.deliveredThroughByte
      gap.observation.recoveryAfterByte

theorem Reports.snoc {received : List (AttachmentEvent Body)}
    (h : Reports chunks requested received) {event : AttachmentEvent Body}
    (hgap : ∀ gap, event = .gap gap → Within (chunks ++ outputs received) requested
      gap.observation.deliveredThroughByte gap.observation.recoveryAfterByte) :
    Reports chunks requested (received ++ [event]) := by
  intro before gap after hsplit
  rcases List.eq_nil_or_concat after with rfl | ⟨after,last,rfl⟩
  · obtain ⟨rfl,hevent⟩ := List.append_inj' hsplit rfl
    exact hgap gap (List.singleton_inj.mp hevent)
  · rw [List.concat_eq_append,← List.cons_append,← List.append_assoc] at hsplit
    obtain ⟨hreceived,_⟩ := List.append_inj' hsplit rfl
    exact h before gap after hreceived

namespace Session

/-- The log splits into what was received or is retained and what was lost. -/
def Presented (s : Session Body) : Prop :=
  ∃ kept lost, s.log = kept ++ lost ∧ Presents Covers (s.received ++ s.view.shown) kept ∧
    (∀ a ∈ kept, a.placed = true) ∧ (∀ a, lost.head? = some a → a.placed = false) ∧
      (lost = [] ↔ s.view.viewError = none)

structure Sound (p : ViewResources Body) (chunks : List OutputChunk) (requested : ℕ)
    (s : Session Body) : Prop where
  view : s.view.Sound p
  presented : s.Presented
  terminal : ∀ event ∈ s.received, event.isTerminal = true → s.view.eventStreamEnded = true
  last : ∀ event ∈ s.received.dropLast, event.isTerminal = false
  concluded : ∀ a ∈ s.answers, a.isOver = true → s.view.retained = [] ∧ s.view.settled = true
  order : s.answers.Pairwise fun a b => a.isOver = true → b.event = none
  ended : .ended ∈ s.answers → s.view.viewError = none
  failed : ∀ path message, .failed (.invalidFrame path message) ∈ s.answers → s.view.closed = true
  cursor : Within (chunks ++ outputs s.received) requested s.view.cursor.deliveredThroughByte
    s.view.cursor.recoveryAfterByte
  reports : Reports chunks requested s.received

theorem received_append (view : View Body) (log : List (Offered Body)) (answers more : List (Answer Body)) :
    received ⟨view,log,answers ++ more⟩ = received ⟨view,log,answers⟩ ++ more.filterMap Answer.event :=
  List.filterMap_append

theorem isTerminal_presented (v : View Body) (now : ℕ) (event : AttachmentEvent Body) :
    (v.presented now event).isTerminal = event.isTerminal := by
  cases event <;> rfl

theorem outputs_presented (v : View Body) (now : ℕ) (event : AttachmentEvent Body) :
    outputs [v.presented now event] = outputs [event] := by
  cases event <;> rfl

variable {event : RunEvent Body} {s : Session Body} {v' : View Body} {a : Offered Body}
  {log : List (Offered Body)}

/-- One more event is received by a session that has not come to its end. -/
theorem Sound.deliver (h : s.Sound p chunks requested) (hlive : s.view.eventStreamEnded = false)
    (hover : ∀ a ∈ s.answers, a.isOver = false) {event : AttachmentEvent Body} {now : ℕ}
    (hview : v'.Sound p) (hcursor : v'.cursor = s.view.cursor.advance event)
    (hended : v'.eventStreamEnded = event.isTerminal)
    (hpresented : Presented ⟨v',log,s.answers ++ [.delivered (v'.presented now event)]⟩) :
    Sound p chunks requested ⟨v',log,s.answers ++ [.delivered (v'.presented now event)]⟩ := by
  have hreceived : received ⟨v',log,s.answers ++ [.delivered (v'.presented now event)]⟩ =
      s.received ++ [v'.presented now event] := received_append v' log s.answers _
  have hplain : ∀ event ∈ s.received, event.isTerminal = false := by
    intro other hother
    by_contra hterminal
    exact absurd (hlive.symm.trans (h.terminal other hother (Bool.not_eq_false _ ▸ hterminal)))
      (by simp)
  have hadvanced := h.cursor.advance event
  rw [← hcursor] at hadvanced
  exact {
    view := hview
    presented := hpresented
    terminal := by
      rw [hreceived]
      intro other hother hterminal
      rcases List.mem_append.mp hother with hold | hnew
      · exact absurd ((hplain other hold).symm.trans hterminal) (by simp)
      · rw [List.mem_singleton.mp hnew,isTerminal_presented] at hterminal
        exact hended.trans hterminal
    last := by
      rw [hreceived,List.dropLast_concat]
      exact hplain
    concluded := by
      intro a ha hisOver
      rcases List.mem_append.mp ha with hold | hnew
      · exact absurd ((hover a hold).symm.trans hisOver) (by simp)
      · cases List.mem_singleton.mp hnew
        cases hisOver
    order := by
      rw [List.pairwise_append]
      refine ⟨h.order,List.pairwise_singleton _ _,?_⟩
      intro a ha b _ hisOver
      exact absurd ((hover a ha).symm.trans hisOver) (by simp)
    ended := by
      intro hmem
      rcases List.mem_append.mp hmem with hold | hnew
      · exact absurd (hover _ hold) (by simp [Answer.isOver])
      · simp at hnew
    failed := by
      intro path message hmem
      rcases List.mem_append.mp hmem with hold | hnew
      · exact absurd (hover _ hold) (by simp [Answer.isOver])
      · simp at hnew
    cursor := by
      rw [hreceived,outputs_append,outputs_presented,← List.append_assoc]
      exact hadvanced
    reports := by
      rw [hreceived]
      apply h.reports.snoc
      intro gap hgap
      cases event with
      | plain event => cases hgap
      | gap event =>
        have hsame : v'.cursor.deliveredThroughByte = s.view.cursor.deliveredThroughByte ∧
            v'.cursor.recoveryAfterByte = s.view.cursor.recoveryAfterByte := by
          rw [hcursor]
          exact ⟨rfl,rfl⟩
        have hobserved := h.cursor
        rw [← hsame.1,← hsame.2] at hobserved
        cases hgap
        exact hobserved }

/-- A session whose answers are as before, or end with one that delivers nothing. -/
theorem Sound.answer (h : s.Sound p chunks requested) {answer : Option (Answer Body)}
    (hview : v'.Sound p) (hcursor : v'.cursor = s.view.cursor)
    (hended : s.view.eventStreamEnded = true → v'.eventStreamEnded = true)
    (hretained : s.view.retained = [] → s.view.settled = true →
      v'.retained = [] ∧ v'.settled = true) (hviewError : .ended ∈ s.answers → v'.viewError = none)
    (hclosed : s.view.closed = true → v'.closed = true)
    (hnone : ∀ a, answer = some a → a.event = none)
    (hconcluded : ∀ a, answer = some a → a.isOver = true → v'.retained = [] ∧ v'.settled = true)
    (hend : answer = some .ended → v'.viewError = none)
    (hfailed : ∀ path message, answer = some (.failed (.invalidFrame path message)) →
      v'.closed = true)
    (hpresented : ∀ answers, answers.filterMap Answer.event = s.received →
      Presented ⟨v',log,answers⟩) :
    Sound p chunks requested ⟨v',log,s.answers ++ answer.toList⟩ := by
  have hevents : answer.toList.filterMap Answer.event = [] := by
    cases answer with
    | none => rfl
    | some a => simp [hnone a rfl]
  have hreceived : received ⟨v',log,s.answers ++ answer.toList⟩ = s.received := by
    rw [received_append,hevents,List.append_nil]
    rfl
  have hcases : ∀ a, a ∈ s.answers ++ answer.toList → a ∈ s.answers ∨ answer = some a := by
    intro a ha
    rcases List.mem_append.mp ha with hold | hnew
    · exact .inl hold
    · exact .inr (Option.mem_toList.mp hnew)
  exact {
    view := hview
    presented := hpresented _ hreceived
    terminal := by
      rw [hreceived]
      intro event hevent hterminal
      exact hended (h.terminal event hevent hterminal)
    last := by
      rw [hreceived]
      exact h.last
    concluded := by
      intro a ha hisOver
      rcases hcases a ha with hold | hnew
      · obtain ⟨hempty,hsettled⟩ := h.concluded a hold hisOver
        exact hretained hempty hsettled
      · exact hconcluded a hnew hisOver
    order := by
      rw [List.pairwise_append]
      refine ⟨h.order,?_,?_⟩
      · cases answer with
        | none => exact .nil
        | some a => exact List.pairwise_singleton _ _
      · intro a _ b hb _
        exact hnone b (Option.mem_toList.mp hb)
    ended := by
      intro hmem
      rcases hcases _ hmem with hold | hnew
      · exact hviewError hold
      · exact hend hnew
    failed := by
      intro path message hmem
      rcases hcases _ hmem with hold | hnew
      · exact hclosed (h.failed path message hold)
      · exact hfailed path message hnew
    cursor := by
      rw [hreceived,hcursor]
      exact h.cursor
    reports := by
      rw [hreceived]
      exact h.reports }

theorem Presented.keep (h : s.Presented) {answers : List (Answer Body)}
    (hshown : v'.retained = s.view.retained) (hview : v'.viewError = s.view.viewError)
    (hanswers : answers.filterMap Answer.event = s.received) : Presented ⟨v',s.log,answers⟩ := by
  obtain ⟨kept,lost,hlog,hpresents,hkept,hlost,hlost'⟩ := h
  refine ⟨kept,lost,hlog,?_,hkept,hlost,by rw [hlost',hview]⟩
  unfold received View.shown
  rw [hanswers,hshown]
  exact hpresents

theorem Sound.next (h : s.Sound p chunks requested) (now : ℕ) :
    (s.step p (.next now)).Sound p chunks requested := by
  simp only [step]
  cases hretained : s.view.retained with
  | cons q rest =>
    obtain ⟨v',hnext,htaken⟩ := h.view.nextEvent_taken hretained now
    have hlive := (h.view.waiter_false hretained).2
    have hover : ∀ a ∈ s.answers, a.isOver = false := by
      intro a ha
      by_contra hisOver
      have hempty := (h.concluded a ha (Bool.not_eq_false _ ▸ hisOver)).1
      rw [hretained] at hempty
      cases hempty
    rw [hnext]
    refine h.deliver hlive hover htaken.sound htaken.cursor htaken.ended ?_
    obtain ⟨kept,lost,hlog,hpresents,hkept,hlost,hview⟩ := h.presented
    refine ⟨kept,lost,hlog,?_,hkept,hlost,by rw [hview,htaken.viewError]⟩
    rw [received_append]
    simp only [View.shown,hretained,htaken.retained,List.map_cons] at hpresents ⊢
    have hsame : ∀ block : List (Offered Body), Covers q.event block →
        Covers (v'.presented now q.event) block := fun _ hblock => hblock.presented
    have hreplaced := hpresents.replace hsame
    rw [List.append_assoc]
    exact hreplaced
  | nil =>
    rw [View.nextEvent_empty hretained]
    cases hsettled : s.view.settled with
    | true =>
      refine h.answer h.view rfl id (fun hempty hsettled => ⟨hempty,hsettled⟩) h.ended id ?_ ?_ ?_ ?_ ?_
      · intro a ha
        cases ha
        unfold View.endAnswer
        cases s.view.eventError.or (s.view.viewError.map .unavailable) <;> rfl
      · intro a _ _
        exact ⟨hretained,hsettled⟩
      · intro hend
        exact s.view.endAnswer_ended (Option.some.inj hend)
      · intro path message hfailed
        exact h.view.endAnswer_failed (Option.some.inj hfailed)
      · intro answers hanswers
        exact h.presented.keep rfl rfl hanswers
    | false =>
      cases hwaiter : s.view.eventWaiter with
      | true =>
        rw [if_neg Bool.false_ne_true,if_pos rfl]
        refine h.answer h.view rfl id (fun hempty hsettled => ⟨hempty,hsettled⟩) h.ended id ?_ ?_
          ?_ ?_ ?_
        · intro a ha
          cases ha
          rfl
        · intro a ha hisOver
          cases ha
          cases hisOver
        · intro ha
          cases ha
        · intro path message ha
          cases ha
        · intro answers hanswers
          exact h.presented.keep rfl rfl hanswers
      | false =>
        rw [if_neg Bool.false_ne_true,if_neg Bool.false_ne_true]
        refine h.answer (h.view.waitFor hretained hsettled) rfl id
          (fun hempty hsettled => ⟨hempty,hsettled⟩) h.ended id ?_ ?_ ?_ ?_ ?_
        · intro a ha
          cases ha
        · intro a ha
          cases ha
        · intro ha
          cases ha
        · intro path message ha
          cases ha
        · intro answers hanswers
          exact h.presented.keep rfl rfl hanswers

/-- Where an event keeps the order, no call has found the end unless the observation is
lost. -/
theorem Sound.live (h : s.Sound p chunks requested) (hopen : s.view.closed = false)
    (horder : s.view.eventOrder event = none) :
    s.view.eventStreamEnded = false ∧ s.view.settled = s.view.viewError.isSome := by
  obtain ⟨hunseen,_⟩ := View.eventOrder_eq_none horder
  have hended : s.view.eventStreamEnded = false := by
    by_contra hend
    exact absurd (hunseen.symm.trans (h.view.ended (Bool.not_eq_false _ ▸ hend)).1) (by simp)
  refine ⟨hended,?_⟩
  unfold View.settled
  rw [← h.view.failed,hopen,hended,Bool.false_or,Bool.or_false,Bool.or_false]

theorem Sound.unconcluded (h : s.Sound p chunks requested) (hopen : s.view.closed = false)
    (horder : s.view.eventOrder event = none) (hview : s.view.viewError = none) :
    ∀ a ∈ s.answers, a.isOver = false := by
  intro a ha
  by_contra hisOver
  have hsettled := (h.concluded a ha (Bool.not_eq_false _ ▸ hisOver)).2
  rw [(h.live hopen horder).2,hview] at hsettled
  cases hsettled

theorem Presented.kept_all (h : s.Presented) (hview : s.view.viewError = none) :
    Presents Covers (s.received ++ s.view.shown) s.log ∧ ∀ a ∈ s.log, a.placed = true := by
  obtain ⟨kept,lost,hlog,hpresents,hkept,_,hlost⟩ := h
  rw [hlost.mpr hview,List.append_nil] at hlog
  rw [hlog]
  exact ⟨hpresents,hkept⟩

theorem presented_of_all (hpresents : Presents Covers (s.received ++ s.view.shown) s.log)
    (hkept : ∀ a ∈ s.log, a.placed = true) (hview : s.view.viewError = none) : s.Presented :=
  ⟨s.log,[],(List.append_nil _).symm,hpresents,hkept,by simp,by simp [hview]⟩

theorem forall_placed_snoc (h : ∀ a ∈ log, a.placed = true) (ha : a.placed = true) :
    ∀ b ∈ log ++ [a], b.placed = true := by
  intro b hb
  rcases List.mem_append.mp hb with hold | hnew
  · exact h b hold
  · rw [List.mem_singleton.mp hnew]
    exact ha

/-- A refused event ends the stream behind what is retained. -/
theorem Sound.refuse (h : s.Sound p chunks requested) {answer : Option (Answer Body)}
    (hresult : View.Refused p s.view v' answer) :
    Sound p chunks requested ⟨v',s.log,s.answers ++ answer.toList⟩ := by
  have hsettled : v'.settled = true := by
    unfold View.settled
    rw [hresult.closed,Bool.or_true]
  refine h.answer hresult.sound hresult.cursor (fun hend => hresult.ended.trans hend)
    (fun hempty _ => ⟨hresult.retained.trans hempty,hsettled⟩)
    (fun hmem => hresult.viewError.trans (h.ended hmem)) (fun _ => hresult.closed) ?_ ?_ ?_ ?_ ?_
  · intro a ha
    obtain ⟨_,path,message,rfl⟩ := hresult.answer a ha
    rfl
  · intro a ha _
    exact ⟨hresult.retained.trans (hresult.answer a ha).1,hsettled⟩
  · intro ha
    obtain ⟨_,path,message,hfailed⟩ := hresult.answer _ ha
    cases hfailed
  · intro path message _
    exact hresult.closed
  · intro answers hanswers
    exact h.presented.keep hresult.retained hresult.viewError hanswers

theorem Presented.lose (h : s.Presented)
    (hreason : s.view.viewError.isSome = true ∨ a.placed = false) {answers : List (Answer Body)}
    (hshown : v'.retained = s.view.retained) (hview : v'.viewError.isSome = true)
    (hanswers : answers.filterMap Answer.event = s.received) :
    Presented ⟨v',s.log ++ [a],answers⟩ := by
  obtain ⟨kept,lost,hlog,hpresents,hkept,hhead,hnone⟩ := h
  refine ⟨kept,lost ++ [a],by rw [hlog,List.append_assoc],?_,hkept,?_,?_⟩
  · unfold received View.shown
    rw [hanswers,hshown]
    exact hpresents
  · intro b hb
    cases hlost : lost with
    | cons first rest =>
      rw [hlost] at hb hhead
      exact hhead b hb
    | nil =>
      rw [hlost] at hb
      cases hb
      rcases hreason with hunavailable | hplace
      · rw [hnone.mp hlost] at hunavailable
        cases hunavailable
      · exact hplace
  · constructor
    · intro hnil
      simp at hnil
    · intro hviewError
      rw [hviewError] at hview
      cases hview

section

variable (h : s.Sound p chunks requested) (hopen : s.view.closed = false)
  (horder : s.view.eventOrder event = none)
include h hopen horder

theorem Sound.lose (hreason : s.view.viewError.isSome = true ∨ a.placed = false)
    {answer : Option (Answer Body)} (hresult : View.Lost p s.view v' answer) :
    Sound p chunks requested ⟨v',s.log ++ [a],s.answers ++ answer.toList⟩ := by
  obtain ⟨hlive,hsettled⟩ := h.live hopen horder
  have hlost : v'.settled = true := by
    unfold View.settled
    rw [hresult.viewError,Bool.or_true,Bool.true_or,Bool.true_or]
  rw [hresult.answer]
  refine h.answer hresult.sound hresult.cursor
    (fun hend => absurd (hlive.symm.trans hend) (by simp))
    (fun hempty _ => ⟨hresult.retained.trans hempty,hlost⟩) ?_
    (fun hclose => absurd (hopen.symm.trans hclose) (by simp)) ?_ ?_ ?_ ?_ ?_
  · intro hmem
    have hnone := h.ended hmem
    have hover := (h.concluded _ hmem rfl).2
    rw [hsettled,hnone] at hover
    cases hover
  · intro a ha
    cases ha
  · intro a ha
    cases ha
  · intro ha
    cases ha
  · intro path message ha
    cases ha
  · intro answers hanswers
    exact h.presented.lose hreason hresult.retained hresult.viewError hanswers

theorem Sound.place (havailable : s.view.viewError = none) (hplace : a.placed = true)
    {answer : Option (Answer Body)} (hresult : View.Placed p s.view a v' answer) :
    Sound p chunks requested ⟨v',s.log ++ [a],s.answers ++ answer.toList⟩ := by
  obtain ⟨hlive,hsettled⟩ := h.live hopen horder
  obtain ⟨hpresents,hkept⟩ := h.presented.kept_all havailable
  rw [hresult.answer]
  refine h.answer hresult.sound hresult.cursor
    (fun hend => absurd (hlive.symm.trans hend) (by simp))
    (fun _ hsettles => ?_) (fun _ => hresult.viewError)
    (fun hclose => absurd (hopen.symm.trans hclose) (by simp)) ?_ ?_ ?_ ?_ ?_
  · rw [hsettled,havailable] at hsettles
    cases hsettles
  · intro a ha
    cases ha
  · intro a ha
    cases ha
  · intro ha
    cases ha
  · intro path message ha
    cases ha
  · intro answers hanswers
    refine presented_of_all ?_ (forall_placed_snoc hkept hplace) hresult.viewError
    unfold received
    rw [hanswers]
    exact hresult.grows _ _ hpresents

theorem Sound.hand (havailable : s.view.viewError = none) (hplace : a.placed = true) {now : ℕ}
    {answer : Option (Answer Body)} (hresult : View.Handed p s.view now a v' answer) :
    Sound p chunks requested ⟨v',s.log ++ [a],s.answers ++ answer.toList⟩ := by
  obtain ⟨delivered,hanswer,hcursor,hterminal,hcovers⟩ := hresult.delivered
  obtain ⟨hpresents,hkept⟩ := h.presented.kept_all havailable
  rw [hanswer]
  refine h.deliver (h.live hopen horder).1 (h.unconcluded hopen horder havailable)
    hresult.sound hcursor (hresult.ended.trans hterminal.symm) ?_
  refine presented_of_all ?_ (forall_placed_snoc hkept hplace) hresult.viewError
  rw [received_append]
  simp only [View.shown,hresult.before,hresult.retained,List.map_nil,List.append_nil] at hpresents ⊢
  exact hpresents.snoc hcovers.presented

end

/-- What an offer makes of a session that is not closed. -/
theorem step_offer (hopen : s.view.closed = false) (now : ℕ) (event : RunEvent Body) :
    s.step p (.offer now event) =
      ⟨(s.view.offerEvent p now event).1,
        if (s.view.eventOrder event).isSome then s.log else s.log ++ [s.view.offered p now event],
        s.answers ++ (s.view.offerEvent p now event).2.toList⟩ := by
  simp only [step,hopen,Bool.false_eq_true,if_false]

theorem Sound.offer (h : s.Sound p chunks requested) (now : ℕ) (event : RunEvent Body) :
    (s.step p (.offer now event)).Sound p chunks requested := by
  cases hclosed : s.view.closed with
  | true =>
    simp only [step,hclosed,if_true]
    exact h
  | false =>
    rw [step_offer hclosed]
    cases h.view.offerEvent hclosed now event with
    | refused horder hresult =>
      rw [if_pos horder]
      exact h.refuse hresult
    | lost horder _ hreason hresult =>
      rw [horder,if_neg (by simp)]
      exact h.lose hclosed horder hreason hresult
    | placed horder _ havailable hplace hresult =>
      rw [horder,if_neg (by simp)]
      exact h.place hclosed horder havailable hplace hresult
    | handed horder havailable hplace hresult =>
      rw [horder,if_neg (by simp)]
      exact h.hand hclosed horder havailable hplace hresult

theorem Sound.step (h : s.Sound p chunks requested) (e : Action Body) :
    (s.step p e).Sound p chunks requested := by
  cases e with
  | offer now event => exact h.offer now event
  | next now => exact h.next now

end Session

/-- The chunks of a snapshot are contiguous from a byte at or before the cursor. -/
def CoversCursor (chunks : List OutputChunk) (requested : ℕ) : Prop :=
  ∃ first last, Tiling.Tiles OutputChunk.startByte OutputChunk.endByte first chunks last ∧
    (chunks ≠ [] → first ≤ requested)

theorem covered_of_tiles {first last : ℕ}
    (h : Tiling.Tiles OutputChunk.startByte OutputChunk.endByte first chunks last) :
    Covered chunks first last := by
  induction chunks generalizing first with
  | nil =>
    intro byte hfirst hlast
    have hequal : first = last := h
    omega
  | cons chunk chunks ih =>
    obtain ⟨hstart,hlt,hrest⟩ := h
    intro byte hfirst hlast
    by_cases hbyte : byte < chunk.endByte
    · exact ⟨chunk,List.mem_cons_self,by omega,hbyte⟩
    · obtain ⟨other,hother,hinside⟩ := ih hrest byte (by omega) hlast
      exact ⟨other,List.mem_cons_of_mem _ hother,hinside⟩

theorem tiles_getLast {first last : ℕ} {chunk : OutputChunk}
    (h : Tiling.Tiles OutputChunk.startByte OutputChunk.endByte first chunks last)
    (hlast : chunks.getLast? = some chunk) : chunk.endByte = last := by
  obtain ⟨front,rfl⟩ := List.getLast?_eq_some_iff.mp hlast
  obtain ⟨middle,_,htail⟩ := Tiling.Tiles.append.mp h
  exact htail.2.2

theorem CoversCursor.within (h : CoversCursor chunks requested) :
    Within chunks requested (View.new chunks requested : View Body).cursor.deliveredThroughByte
      (View.new chunks requested : View Body).cursor.recoveryAfterByte := by
  obtain ⟨first,last,htiles,hfirst⟩ := h
  unfold View.new View.cursor
  cases hlast : chunks.getLast? with
  | none =>
    refine ⟨?_,nofun⟩
    intro byte hfrom hto
    simp only [Option.map_none,Option.getD_none] at hto
    omega
  | some chunk =>
    have hne : chunks ≠ [] := by
      rintro rfl
      cases hlast
    have hend := tiles_getLast htiles hlast
    have hcovered : Covered chunks requested chunk.endByte := by
      rw [hend]
      intro byte hfrom hto
      exact covered_of_tiles htiles byte ((hfirst hne).trans hfrom) hto
    refine ⟨hcovered,?_⟩
    intro through hthrough
    cases hthrough
    exact hcovered

theorem AttachmentEvent.isGap_of_isTerminal {event : AttachmentEvent Body}
    (h : event.isTerminal = true) : event.isGap = false := by
  cases event with
  | plain event => rfl
  | gap event => cases h

/-- No two gaps are next to each other in what is retained. -/
theorem View.Sound.spaced_shown {v : View Body} (h : v.Sound p) :
    v.shown.IsChain fun a b => ¬(a.isGap = true ∧ b.isGap = true) := by
  unfold View.shown View.retained
  rw [List.isChain_map]
  apply List.IsChain.append
  · apply List.IsChain.append h.spaced
    · cases v.pendingOutputGap with
      | none => exact .nil
      | some gap => exact .singleton _
    · intro q hq gap _ hgaps
      exact absurd ((h.last q hq).symm.trans hgaps.1) (by simp)
  · cases v.terminalEvent with
    | none => exact .nil
    | some terminal => exact .singleton _
  · intro q _ terminal hterminal hgaps
    cases hslot : v.terminalEvent with
    | none =>
      rw [hslot] at hterminal
      cases hterminal
    | some other =>
      rw [hslot] at hterminal
      cases hterminal
      exact absurd ((AttachmentEvent.isGap_of_isTerminal (h.terminal _ hslot).1).symm.trans hgaps.2)
        (by simp)

namespace Session

theorem sound_start (p : ViewResources Body) (h : CoversCursor chunks requested) :
    (start chunks requested : Session Body).Sound p chunks
      requested where
  view := View.sound_new p chunks requested
  presented := ⟨[],[],rfl,presents_nil,by simp,by simp,by simp [start,View.new]⟩
  terminal := by simp [start,received]
  last := by simp [start,received]
  concluded := by simp [start]
  order := .nil
  ended := by simp [start]
  failed := by simp [start]
  cursor := by
    have hwithin := @CoversCursor.within Body _ _ h
    simpa [start,received,outputs] using hwithin
  reports := by
    intro before gap after hsplit
    simp [start,received] at hsplit

/-- What a call finds on a view whose stream has failed: first what is retained. -/
def FollowedBy (s : Session Body) (error : StreamError) : Prop :=
  ∀ now, (s.view.nextEvent now).2 = some (match s.view.retained with
    | [] => .failed error
    | q::_ => .delivered ((s.view.nextEvent now).1.presented now q.event))

/-- The call that waits is answered by the next event: with the event, or with the error that
closes the attachment. -/
def Answers (p : ViewResources Body) (s : Session Body) : Prop :=
  ∀ now event, ∃ answer,
    (s.step p (.offer now event)).answers = s.answers ++ [answer] ∧
      ((s.view.eventOrder event = none ∧ ∃ delivered, answer = .delivered delivered ∧
          Covers delivered [s.view.offered p now event]) ∨
        ((s.view.eventOrder event).isSome = true ∧
          (s.step p (.offer now event)).view.closed = true ∧
          ∃ error, (s.step p (.offer now event)).view.eventError = some error ∧
            answer = .failed error))

/-- A call takes the first of what is retained. -/
def Delivers (s : Session Body) : Prop :=
  ∀ q rest, s.view.retained = q::rest → ∀ now, ∃ v',
    s.view.nextEvent now = (v',some (.delivered (v'.presented now q.event))) ∧ v'.retained = rest

/-- The view is what its purpose asks for. -/
structure Faithful (p : ViewResources Body) (chunks : List OutputChunk) (requested : ℕ)
    (s : Session Body) : Prop where
  presented : s.Presented
  spaced : s.view.shown.IsChain fun a b => ¬(a.isGap = true ∧ b.isGap = true)
  last : ∀ event ∈ s.received.dropLast, event.isTerminal = false
  order : s.answers.Pairwise fun a b => a.isOver = true → b.event = none
  delivers : s.Delivers
  answered : s.view.eventWaiter = true → s.Answers p
  unavailable : ∀ error, s.view.viewError = some error → s.view.closed = false →
    .ended ∉ s.answers ∧ (∀ path message, .failed (.invalidFrame path message) ∉ s.answers) ∧
      s.FollowedBy (.unavailable error)
  violated : s.view.closed = true → ∃ error, s.view.eventError = some error ∧ s.FollowedBy error
  payload : s.view.queuedEventBytes = ((s.view.retained.map QueuedEvent.bytes).sum : ℕ) ∧
    0 ≤ s.view.queuedEventBytes ∧ s.view.queuedEventBytes ≤ p.payloadBytes
  envelope : s.view.queuedEnvelopeBytes = ((s.view.retained.map QueuedEvent.envelopeBytes).sum : ℕ) ∧
    0 ≤ s.view.queuedEnvelopeBytes ∧ s.view.queuedEnvelopeBytes ≤ p.envelopeBytes
  reports : Reports chunks requested s.received

theorem followedBy_of_settled {s : Session Body} (h : s.view.Sound p)
    (hsettled : s.view.settled = true) {error : StreamError}
    (herror : s.view.endAnswer = .failed error) : s.FollowedBy error := by
  intro now
  cases hretained : s.view.retained with
  | nil => rw [View.nextEvent_empty hretained,hsettled,if_pos rfl,herror]
  | cons q rest =>
    obtain ⟨v',hnext,_⟩ := h.nextEvent_taken hretained now
    rw [hnext]

theorem Sound.delivers {s : Session Body} (h : s.Sound p chunks requested) : s.Delivers := by
  intro q rest hretained now
  obtain ⟨v',hnext,htaken⟩ := h.view.nextEvent_taken hretained now
  exact ⟨v',hnext,htaken.retained⟩

theorem Sound.answers {s : Session Body} (h : s.Sound p chunks requested)
    (hwait : s.view.eventWaiter = true) : s.Answers p := by
  intro now event
  have hopen : s.view.closed = false := by
    have hsettled := (h.view.waiting hwait).2
    simp only [View.settled,Bool.or_eq_false_iff] at hsettled
    exact hsettled.2
  rw [step_offer hopen]
  cases h.view.offerEvent hopen now event with
  | refused horder hresult =>
    obtain ⟨error,herror,hanswer⟩ := hresult.waited hwait
    refine ⟨_,by rw [hanswer]; rfl,.inr ⟨horder,hresult.closed,error,herror,rfl⟩⟩
  | lost horder hidle hreason hresult =>
    rw [hwait] at hidle
    cases hidle
  | placed horder hidle havailable hplace hresult =>
    rw [hwait] at hidle
    cases hidle
  | handed horder havailable hplace hresult =>
    obtain ⟨delivered,hanswer,_,_,hcovers⟩ := hresult.delivered
    exact ⟨_,by rw [hanswer]; rfl,.inl ⟨horder,_,rfl,hcovers.presented⟩⟩

theorem faithful_of_sound {s : Session Body} (h : s.Sound p chunks requested) :
    s.Faithful p chunks requested where
  presented := h.presented
  spaced := h.view.spaced_shown
  last := h.last
  order := h.order
  delivers := h.delivers
  answered := h.answers
  unavailable := by
    intro error herror hopen
    have hevent : s.view.eventError = none := by
      have hfailed := h.view.failed
      rw [hopen] at hfailed
      simpa using hfailed.symm
    refine ⟨?_,?_,?_⟩
    · intro hmem
      rw [h.ended hmem] at herror
      cases herror
    · intro path message hmem
      exact absurd (hopen.symm.trans (h.failed path message hmem)) (by simp)
    · apply followedBy_of_settled h.view
      · simp [View.settled,herror]
      · simp [View.endAnswer,hevent,herror]
  violated := by
    intro hclosed
    have hfailed := h.view.failed
    rw [hclosed] at hfailed
    obtain ⟨error,herror⟩ := Option.isSome_iff_exists.mp hfailed.symm
    refine ⟨error,herror,followedBy_of_settled h.view ?_ ?_⟩
    · simp [View.settled,hclosed]
    · simp [View.endAnswer,herror]
  payload := ⟨h.view.payload,by rw [h.view.payload]; exact Int.natCast_nonneg _,h.view.payload_le⟩
  envelope :=
    ⟨h.view.envelope,by rw [h.view.envelope]; exact Int.natCast_nonneg _,h.view.envelope_le⟩
  reports := h.reports

/-- An offered event keeps the order of the stream. -/
def Orderly (s : Session Body) : Action Body → Prop
  | .offer _ event => s.view.eventOrder event = none
  | .next _ => True

theorem closed_step {s : Session Body} (h : s.Sound p chunks requested)
    (hopen : s.view.closed = false) {e : Action Body} (he : s.Orderly e) :
    (s.step p e).view.closed = false := by
  cases e with
  | next now =>
    simp only [step]
    cases hretained : s.view.retained with
    | cons q rest =>
      obtain ⟨v',hnext,htaken⟩ := h.view.nextEvent_taken hretained now
      rw [hnext]
      exact htaken.closed.trans hopen
    | nil =>
      rw [View.nextEvent_empty hretained]
      split
      · exact hopen
      · split
        · exact hopen
        · exact hopen
  | offer now event =>
    rw [step_offer hopen]
    cases h.view.offerEvent hopen now event with
    | refused horder hresult =>
      have hnone : s.view.eventOrder event = none := he
      rw [hnone] at horder
      cases horder
    | lost horder hidle hreason hresult => exact hresult.closed.trans hopen
    | placed horder hidle havailable hplace hresult => exact hresult.closed.trans hopen
    | handed horder havailable hplace hresult => exact hresult.closed.trans hopen

/-- Over every sequence of offered events and calls the view is faithful; as long as the
events keep the order of the stream, it is not closed. -/
theorem view_faithful (p : ViewResources Body) {chunks : List OutputChunk} {requested : ℕ}
    (hcovers : CoversCursor chunks requested) (es : List (Action Body)) :
    (run (step p) (start chunks requested) es).Faithful p chunks requested ∧
      (Along (step p) Orderly (start chunks requested) es →
        (run (step p) (start chunks requested) es).view.closed = false) := by
  have hstart := sound_start p hcovers
  constructor
  · exact faithful_of_sound (run_invariant (fun s e h => h.step e) hstart es)
  · intro halong
    have hinvariant : (run (step p) (start chunks requested) es).Sound p chunks requested ∧
        (run (step p) (start chunks requested) es).view.closed = false := by
      apply run_invariant_along (I := fun s : Session Body =>
        s.Sound p chunks requested ∧ s.view.closed = false) _ ⟨hstart,rfl⟩ halong
      intro s e h he
      exact ⟨h.1.step e,closed_step h.1 h.2 he⟩
    exact hinvariant.2

/-- Three bytes of payload; every envelope has ten. -/
def smallView : ViewResources Unit := ⟨3,40,fun _ => 10⟩

/-- The third chunk does not fit and becomes a gap before the exit. -/
def pressedActions : List (Action Unit) :=
  [.next 0,.offer 1 (.plain (.output ⟨2,3,[97]⟩)),.offer 2 (.plain (.output ⟨3,5,[98,99]⟩)),
    .offer 3 (.plain (.output ⟨5,8,[100,101,102]⟩)),.offer 4 (.plain (.exited ())),.next 5,.next 6,
    .next 7,.next 8]

theorem view_faithful_pressed :
    (run (step smallView) (start [⟨0,2,[104,105]⟩] 0) pressedActions).Faithful smallView
        [⟨0,2,[104,105]⟩] 0 ∧
      (run (step smallView) (start [⟨0,2,[104,105]⟩] 0) pressedActions).view.closed = false :=
  have hcovers : CoversCursor [⟨0,2,[104,105]⟩] 0 := ⟨0,2,by decide,by decide⟩
  ⟨(view_faithful smallView hcovers pressedActions).1,by decide +kernel⟩

/-- After the observation was lost, an event behind the terminal one is the error that the
caller sees. -/
theorem unavailable_violated :
    ∃ s : Session Unit, s = run (step ⟨0,0,fun _ => 10⟩) (start [] 0)
        [.offer 0 (.plain (.other ())),.offer 1 (.plain (.exited ())),
          .offer 2 (.plain (.other ()))] ∧
      s.view.viewError.isSome = true ∧ s.view.retained = [] ∧
      (s.view.nextEvent 3).2 = some (.failed (.invalidFrame "$frame.event"
        "attachment delivered an event after terminal state")) :=
  ⟨_,rfl,by decide +kernel,by decide +kernel,by decide +kernel⟩

end Session
end SdkView
end Ctxmux
