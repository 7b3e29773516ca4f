import Ctxmux.StreamDelivery
import Ctxmux.OutputRun

/-!
# Paged replay and the client's cursor

A page begins at the cursor of the replay, or where the window it was read from begins.
Each turn of the loop tells the client about the difference and leaves it at the end of
the page; a page without a chunk means that nothing below the head is left.
-/

namespace Ctxmux
namespace Viewer

open Attachment (TerminalState)
open Durable (OutputChunk OutputReplay loadReplayPage_ok)
open Output (OutputLog Represents Stream)
open Terminal (attachmentReplayPage)
open Tiling

/-- A page that was asked for from `after` up to `through`. -/
structure PageOf (after through : ℕ) (page : OutputReplay) : Prop where
  latest : page.latestOutputBytes = through
  tiles : ∃ stop, Tiles OutputChunk.startByte OutputChunk.endByte
    (max after page.firstAvailableByte) page.chunks stop ∧
    stop ≤ max (max after page.firstAvailableByte) through
  empty : page.chunks = [] → through ≤ max after page.firstAvailableByte

section Page

variable {s : System} {stream : Stream} {limit after through : ℕ} {before : OutputLog}
  {durable : Option StoredRun} {page : OutputReplay}

theorem hotPage_of (h : Represents stream limit s.log) (hlatest : through ≤ s.log.latestOutputBytes)
    (hpage : s.log.replayPage after through = some page) : PageOf after through page := by
  obtain ⟨page',hsome,hcovers⟩ := h.replayPage after through
  rw [hpage] at hsome
  cases hsome
  have hfields : page.firstAvailableByte = s.log.firstAvailableByte ∧
      page.latestOutputBytes = min through s.log.latestOutputBytes := by
    unfold OutputLog.replayPage at hpage
    obtain ⟨pieces,-,heq⟩ := Option.bind_eq_some_iff.mp hpage
    cases heq
    exact ⟨rfl,rfl⟩
  rw [← hfields.1] at hcovers
  refine ⟨by rw [hfields.2]; omega,⟨_,hcovers.tiles,by omega⟩,fun hnil => ?_⟩
  have hstop := hcovers.tiles.eq_nil_iff.mp hnil
  omega

theorem durablePage_of {page : OutputReplay}
    (hstored : durablePage durable before after through = .ok (some page))
    (hbefore : through ≤ before.latestOutputBytes) (hne : page.chunks ≠ []) :
    PageOf after through { page with latestOutputBytes := through } := by
  unfold durablePage at hstored
  cases durable with
  | none => cases hstored
  | some stored =>
    simp only at hstored
    split at hstored
    · obtain ⟨page',hpage,hfirst,-,hpaged⟩ := loadReplayPage_ok stored.wellFormed stored.faithful
        stored.stored after
        (min before.firstAvailableByte (min before.latestOutputBytes through))
      rw [StoredRun.readReplayPage,hpage] at hstored
      cases hstored
      rw [← hfirst] at hpaged
      refine ⟨rfl,⟨_,hpaged.tiles,?_⟩,fun hnil => absurd hnil hne⟩
      simp only
      omega
    · cases hstored

/-- Whatever the page was read from, it is the one that was asked for. -/
theorem page_of (h : Represents stream limit s.log) (hbefore : through ≤ before.latestOutputBytes)
    (hlatest : through ≤ s.log.latestOutputBytes)
    (hpage : s.page durable before after through = .ok (some page)) : PageOf after through page := by
  have hhead : min before.latestOutputBytes through = through := min_eq_right hbefore
  unfold System.page at hpage
  cases hstored : durablePage durable before after through with
  | error error =>
    rw [hstored] at hpage
    cases hpage
  | ok stored =>
    rw [hstored] at hpage
    have hsome : attachmentReplayPage before s.log after through stored = some page := by
      simpa using hpage
    unfold attachmentReplayPage at hsome
    rw [hhead] at hsome
    cases stored with
    | none => exact hotPage_of h hlatest hsome
    | some durable =>
      simp only at hsome
      split at hsome
      · rename_i hread
        cases hsome
        exact durablePage_of hstored hbefore hread.2
      · exact hotPage_of h hlatest hsome

end Page

theorem PageOf.next {after through : ℕ} {page : OutputReplay} (h : PageOf after through page)
    (d : ℕ) : Tiles OutputChunk.startByte OutputChunk.endByte (max after page.firstAvailableByte)
      page.chunks ((page.chunks.getLast?).elim (max after page.firstAvailableByte) (·.endByte)) ∧
    (page.chunks ≠ [] → (page.chunks.getLast?).elim d (·.endByte) =
      (page.chunks.getLast?).elim (max after page.firstAvailableByte) (·.endByte) ∧
      max after page.firstAvailableByte < through ∧
      max after page.firstAvailableByte < (page.chunks.getLast?).elim d (·.endByte) ∧
      (page.chunks.getLast?).elim d (·.endByte) ≤ through) := by
  obtain ⟨stop,htiles,hstop⟩ := h.tiles
  rcases List.eq_nil_or_concat' page.chunks with hnil | ⟨front,tail,htail⟩
  · rw [hnil]
    exact ⟨rfl,fun hne => absurd rfl hne⟩
  · rw [htail] at htiles ⊢
    have hne : ¬max after page.firstAvailableByte = stop := fun heq => by
      have := htiles.eq_nil_iff.mpr heq
      simp at this
    have hle := htiles.le
    obtain ⟨middle,hfront,hstart,hlt,hend⟩ := Tiles.append.mp htiles
    have hend : tail.endByte = stop := hend
    simp only [List.getLast?_append,List.getLast?_singleton,Option.some_or,Option.elim_some]
    rw [hend]
    exact ⟨htiles,fun _ => ⟨trivial,by omega,by omega,by omega⟩⟩

theorem outputs_quiet (chunks : List OutputChunk) :
    (chunks.map Frame.output).any Frame.isTerminal = false := by
  rw [List.any_eq_false]
  intro frame hframe
  obtain ⟨chunk,-,rfl⟩ := List.mem_map.mp hframe
  exact Bool.false_ne_true

namespace View

variable {v : View} {page : OutputReplay}

theorem send_followed {cursor : ℕ} (h : v.followed = some cursor) (frames : List Frame) :
    (v.send frames).followed = follow v.afterByte cursor frames := by
  have h' : follow v.afterByte v.afterByte v.frames = some cursor := h
  show follow v.afterByte v.afterByte (v.frames ++ frames) = _
  rw [follow_append,h']
  rfl

theorem send_ended (frames : List Frame) :
    (v.send frames).ended = (v.ended || frames.any Frame.isTerminal) := List.any_append

/-- The header and the first page leave the client at the cursor of the replay. -/
theorem opening_of (terminal : Option TerminalState) {seed : Option ℕ} {head : ℕ} (hframes : v.frames = [])
    (hpage : PageOf (seed.getD v.afterByte) head page) (hseed : ∀ n ∈ seed, n ≤ head)
    (hfits : HeaderFits v.afterByte seed head page.firstAvailableByte) :
    ∃ (w : View) (seeded : Bool) (cursor : ℕ), v.opening terminal seed page = w.replayFrom terminal seeded cursor ∧
      w.followed = some cursor ∧ w.ended = false ∧ cursor ≤ head ∧
      w.client =
        { v.client with sent := { v.client.sent with sentThroughByte := head } } ∧
      w.stage = v.stage := by
  have hstart : max ((seed.filter (page.firstAvailableByte ≤ ·)).getD v.afterByte)
      page.firstAvailableByte = max (seed.getD v.afterByte) page.firstAvailableByte ∧
      max (seed.getD v.afterByte) page.firstAvailableByte ≤ head := by
    obtain ⟨hfirst,hmatch⟩ := hfits
    cases seed with
    | none => exact ⟨rfl,max_le hmatch hfirst⟩
    | some n =>
      have hn := hseed n rfl
      simp only at hmatch
      by_cases hkept : page.firstAvailableByte ≤ n
      · have hsame : (some n).filter (page.firstAvailableByte ≤ ·) = some n := by simp [hkept]
        rw [hsame]
        exact ⟨rfl,max_le hn hfirst⟩
      · have hnone : (some n).filter (page.firstAvailableByte ≤ ·) = none := by
          simpa using hkept
        rw [hnone]
        simp only [Option.getD_none,Option.getD_some]
        omega
  obtain ⟨htiles,hnext⟩ :=
    hpage.next (max ((seed.filter (page.firstAvailableByte ≤ ·)).getD v.afterByte)
      page.firstAvailableByte)
  have hcursor : (page.chunks.getLast?).elim
      (max ((seed.filter (page.firstAvailableByte ≤ ·)).getD v.afterByte) page.firstAvailableByte)
      (·.endByte) = (page.chunks.getLast?).elim
        (max (seed.getD v.afterByte) page.firstAvailableByte) (·.endByte) := by
    rw [hstart.1]
  refine ⟨_,_,_,rfl,?_,?_,?_,?_,rfl⟩
  · rw [hcursor]
    simp only [followed,send,hframes,List.nil_append,follow,Frame.follow,Option.bind_eq_bind,
      Option.bind_some,hstart.1]
    exact follow_outputs htiles
  · rw [send_ended]
    simp only [ended,hframes,List.any_nil,Bool.false_or,List.any_cons,Frame.isTerminal]
    exact outputs_quiet page.chunks
  · by_cases hnil : page.chunks = []
    · rw [hnil]
      exact hstart.1.le.trans hstart.2
    · exact (hnext hnil).2.2.2
  · simp only [send,hpage.latest]

/-- A turn of the loop, unless the tail of a seed is gone. -/
theorem replayed_of (terminal : Option TerminalState) (seeded : Bool) {cursor : ℕ} (hfollowed : v.followed = some cursor)
    (hended : v.ended = false) (hlt : cursor < v.client.sent.sentThroughByte)
    (hpage : PageOf cursor v.client.sent.sentThroughByte page) :
    v.replayed terminal seeded cursor page =
        { v.send [.error (.io tailEvicted)] with stage := .closed } ∨
    ∃ (w : View) (next : ℕ), v.replayed terminal seeded cursor page = w.replayFrom terminal seeded next ∧
      w.followed = some next ∧ w.ended = false ∧ next ≤ v.client.sent.sentThroughByte ∧
      w.client = v.client ∧ w.stage = v.stage := by
  obtain ⟨htiles,hnext⟩ := hpage.next v.client.sent.sentThroughByte
  unfold replayed
  simp only
  by_cases hgone : (decide (cursor < page.firstAvailableByte) && seeded) = true
  · exact .inl (by rw [if_pos hgone])
  · right
    rw [if_neg hgone]
    -- the client behind the window frame, if there is one
    have hwindow : ∃ w : View, (if decide (cursor < page.firstAvailableByte) = true then
          v.send [.replayWindow (min page.firstAvailableByte v.client.sent.sentThroughByte)
            v.client.sent.sentThroughByte]
          else v) = w ∧ w.followed = some (max cursor
            (min page.firstAvailableByte v.client.sent.sentThroughByte)) ∧ w.ended = false ∧
        w.client = v.client ∧ w.stage = v.stage := by
      split
      · exact ⟨_,rfl,send_followed hfollowed _,by rw [send_ended,hended]; rfl,rfl,rfl⟩
      · rename_i hlow
        simp only [decide_eq_true_eq,not_lt] at hlow
        refine ⟨v,rfl,?_,hended,rfl,rfl⟩
        rw [hfollowed]
        congr 1
        omega
    obtain ⟨w,hw,hfollowed',hended',hclient,hstage⟩ := hwindow
    rw [hw]
    by_cases hnil : page.chunks = []
    · have hempty := hpage.empty hnil
      have hlast : (page.chunks.getLast?).elim v.client.sent.sentThroughByte (·.endByte) =
          v.client.sent.sentThroughByte := by rw [hnil]; rfl
      rw [if_neg (by rw [hlast]; omega),hlast,hnil]
      refine ⟨_,_,rfl,?_,by rw [send_ended,hended']; rfl,le_rfl,hclient,hstage⟩
      rw [send_followed hfollowed']
      simp only [List.map_nil,follow]
      congr 1
      omega
    · obtain ⟨hsame,hbelow,hmoved,hle⟩ := hnext hnil
      rw [if_neg (by omega)]
      refine ⟨_,_,rfl,?_,?_,hle,hclient,hstage⟩
      · have hstand : max cursor (min page.firstAvailableByte v.client.sent.sentThroughByte) =
            max cursor page.firstAvailableByte := by omega
        rw [send_followed hfollowed',hstand,hsame]
        exact follow_outputs htiles
      · rw [send_ended,hended',outputs_quiet]
        rfl

end View

end Viewer
end Ctxmux
