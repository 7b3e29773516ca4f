import Ctxmux.StreamReplay

/-!
# What holds while an attachment streams

For each stage of an attachment, where its client stands and what the publications that it
has yet to pass lead to. Whatever the Run does meanwhile extends the flow of publications
and leaves this as it is.
-/

namespace Ctxmux
namespace Viewer

open Attachment (RunEvent LiveEvents LiveRunEvent LiveEventCursor Publication Client TerminalState
  terminalEvent publish_carried)
open Attachment.LiveEventCursor (Within)
open Durable (OutputChunk)
open Output (OutputLog Represents)
open Journal (Kept)
open Tiling

/-- A byte between two chunks of the Run. -/
structure At (s : System) (n : ℕ) : Prop where
  boundary : Boundary s.pushed n
  le : n ≤ s.log.latestOutputBytes

/-- The publications that the client has yet to pass lead on from byte `a`. -/
structure Passing (s : System) (client : Client) (a : ℕ) : Prop where
  flow : Flow s.pushed s.final a client.liveCursor (s.published.drop client.passed) s.settled
    s.events.cursor
  within : Within a client.liveCursor
  passed : client.passed ≤ s.published.length

/-- The byte that the publications up to position `n` lead to. -/
def reached (s : System) (client : Client) (a n : ℕ) : ℕ :=
  ((s.published.drop client.passed).take (n+1-client.passed)).foldl
    (fun a x => position a x.event) a

/-- The receiver of the attachment stands where its client has come to. -/
def Receives (s : System) (v : View) : Prop :=
  match v.stage with
  | .received envelope n | .observed envelope n _ =>
    s.events.journal.position? v.client.reader = some (n+1) ∧ v.client.passed ≤ n ∧
      (v.client.receiverLagged = false → n = v.client.passed) ∧
      ∃ x, s.published[n]? = some x ∧ x.envelope = envelope
  | _ =>
    ∃ p, s.events.journal.position? v.client.reader = some p ∧ v.client.passed ≤ p ∧
      (v.client.receiverLagged = false → p = v.client.passed)

/-- A client that receives live events, or has stopped to. -/
def Live (s : System) (v : View) : Prop :=
  ∃ a cursor, (v.client.phase = .streaming → Passing s v.client a) ∧ v.followed = some cursor ∧
    Standing s.pushed s.final s.log.latestOutputBytes a v.client cursor v.frames

/-- Where the client stands in each stage. -/
def Placed (s : System) (v : View) : Prop :=
  match v.stage with
  | .subscribed => v.frames = [] ∧ ∃ a, Passing s v.client a
  | .informed terminal => v.frames = [] ∧ (terminal.isSome = true → s.final.isSome = true) ∧
      ∃ a, Passing s v.client a
  | .joined terminal seed head floored => v.frames = [] ∧ (∃ a ≤ head, Passing s v.client a) ∧
      At s head ∧ (∀ n ∈ seed, n ≤ head) ∧
      (∀ before ∈ floored, head ≤ before.latestOutputBytes) ∧
      (terminal.isSome = true → ∃ f ∈ s.final, f ≤ head)
  | .replaying terminal _ cursor floored => v.followed = some cursor ∧ v.ended = false ∧
      cursor < v.client.sent.sentThroughByte ∧
      (∃ a ≤ v.client.sent.sentThroughByte, Passing s v.client a) ∧
      At s v.client.sent.sentThroughByte ∧
      (∀ before ∈ floored, v.client.sent.sentThroughByte ≤ before.latestOutputBytes) ∧
      (terminal.isSome = true → ∃ f ∈ s.final, f ≤ v.client.sent.sentThroughByte)
  | .finishing _ => v.followed = some v.client.sent.sentThroughByte ∧ v.ended = false ∧
      ∃ f ∈ s.final, f ≤ v.client.sent.sentThroughByte
  | .live => Live s v
  | .received _ _ => v.client.phase = .streaming ∧ Live s v
  | .observed _ n head => v.client.phase = .streaming ∧ v.ended = false ∧
      (v.client.passed ≤ n ∧ n < s.published.length) ∧ At s head ∧
      Boundary s.pushed v.client.sent.sentThroughByte ∧ v.client.sent.sentThroughByte ≤ head ∧
      ∃ a, Passing s v.client a ∧ v.followed = some (max v.client.sent.sentThroughByte a) ∧
        reached s v.client a n ≤ head
  | .closed => ∃ cursor, v.followed = some cursor ∧
      (v.ended = true → Concluded s.final cursor v.frames)

/-- What the Run may do while an attachment looks on. -/
structure Evolves (s s' : System) : Prop where
  pushed : s.pushed ⊆ s'.pushed
  fresh : ∀ chunk ∈ s'.pushed, chunk ∈ s.pushed ∨ s.log.latestOutputBytes ≤ chunk.startByte
  latest : s.log.latestOutputBytes ≤ s'.log.latestOutputBytes
  final : ∀ f ∈ s.final, s'.final = some f
  news : ∃ xs, s'.published = s.published ++ xs ∧
    Flow s'.pushed s'.final s.settled s.events.cursor xs s'.settled s'.events.cursor

section Evolves

variable {s s' : System} (he : Evolves s s') {client : Client} {frames : List Frame}
include he

theorem At.evolves {n : ℕ} (h : At s n) : At s' n where
  boundary chunk hchunk := by
    rcases he.fresh chunk hchunk with hold | hnew
    · exact h.boundary chunk hold
    · exact .inr (h.le.trans hnew)
  le := h.le.trans he.latest

theorem Passing.evolves {a : ℕ} (h : Passing s client a) : Passing s' client a := by
  obtain ⟨xs,hpublished,hflow⟩ := he.news
  refine ⟨?_,h.within,?_⟩
  · rw [hpublished,List.drop_append_of_le_length h.passed]
    exact (h.flow.mono he.pushed he.final).append hflow
  · rw [hpublished,List.length_append]
    exact h.passed.trans (Nat.le_add_right _ _)

theorem final_evolves {n : ℕ} (h : ∃ f ∈ s.final, f ≤ n) : ∃ f ∈ s'.final, f ≤ n := by
  obtain ⟨f,hf,hle⟩ := h
  exact ⟨f,he.final f hf,hle⟩

theorem Covered.evolves {cursor : ℕ} (h : Covered s.final cursor frames) :
    Covered s'.final cursor frames :=
  h.imp (final_evolves he) id

theorem Concluded.evolves {cursor : ℕ} (h : Concluded s.final cursor frames) :
    Concluded s'.final cursor frames :=
  ⟨h.1,h.2.evolves he⟩

theorem Standing.evolves {a cursor : ℕ}
    (h : Standing s.pushed s.final s.log.latestOutputBytes a client cursor frames) :
    Standing s'.pushed s'.final s'.log.latestOutputBytes a client cursor frames := by
  unfold Standing at h ⊢
  split at h
  · exact h
  · obtain ⟨hcursor,hboundary,hle,hquiet⟩ := h
    have hat := At.evolves he ⟨hboundary,hle⟩
    exact ⟨hcursor,hat.boundary,hat.le,hquiet⟩
  · exact ⟨h.1,h.2.evolves he⟩
  · exact h
  · exact fun hended => (h hended).evolves he

theorem Live.evolves {v : View} (h : Live s v) : Live s' v := by
  obtain ⟨a,cursor,hpassing,hfollowed,hstanding⟩ := h
  exact ⟨a,cursor,fun hphase => (hpassing hphase).evolves he,hfollowed,hstanding.evolves he⟩

theorem published_evolves {n : ℕ} {x : Publication} (h : s.published[n]? = some x) :
    s'.published[n]? = some x := by
  obtain ⟨xs,hpublished,-⟩ := he.news
  obtain ⟨hlt,-⟩ := List.getElem?_eq_some_iff.mp h
  rw [hpublished,List.getElem?_append_left hlt]
  exact h

theorem reached_evolves {a n : ℕ} (hpassed : client.passed ≤ n) (hn : n < s.published.length) :
    reached s' client a n = reached s client a n := by
  obtain ⟨xs,hpublished,-⟩ := he.news
  have hle : client.passed ≤ s.published.length := hpassed.trans hn.le
  have hlength : n+1-client.passed ≤ (s.published.drop client.passed).length := by
    rw [List.length_drop]
    omega
  rw [reached,reached,hpublished,List.drop_append_of_le_length hle,
    List.take_append_of_le_length hlength]

theorem Receives.evolves {v : View}
    (hposition : s'.events.journal.position? v.client.reader =
      s.events.journal.position? v.client.reader) (h : Receives s v) : Receives s' v := by
  unfold Receives at h ⊢
  rw [hposition]
  split at h
  · obtain ⟨hp,hpassed,hexact,x,hx,henvelope⟩ := h
    exact ⟨hp,hpassed,hexact,x,published_evolves he hx,henvelope⟩
  · obtain ⟨hp,hpassed,hexact,x,hx,henvelope⟩ := h
    exact ⟨hp,hpassed,hexact,x,published_evolves he hx,henvelope⟩
  · exact h

/-- The Run moves on, and the client stays where it is. -/
theorem Placed.evolves {v : View} (h : Placed s v) : Placed s' v := by
  unfold Placed at h ⊢
  split at h
  · obtain ⟨hframes,a,ha⟩ := h
    exact ⟨hframes,a,ha.evolves he⟩
  · obtain ⟨hframes,hterminal,a,ha⟩ := h
    refine ⟨hframes,fun hsome => ?_,a,ha.evolves he⟩
    obtain ⟨f,hf⟩ := Option.isSome_iff_exists.mp (hterminal hsome)
    rw [he.final f hf]
    rfl
  · obtain ⟨hframes,⟨a,hle,ha⟩,hat,hseed,hfloored,hterminal⟩ := h
    exact ⟨hframes,⟨a,hle,ha.evolves he⟩,hat.evolves he,hseed,hfloored,
      fun hsome => final_evolves he (hterminal hsome)⟩
  · obtain ⟨hfollowed,hended,hlt,⟨a,hle,ha⟩,hat,hfloored,hterminal⟩ := h
    exact ⟨hfollowed,hended,hlt,⟨a,hle,ha.evolves he⟩,hat.evolves he,hfloored,
      fun hsome => final_evolves he (hterminal hsome)⟩
  · exact ⟨h.1,h.2.1,final_evolves he h.2.2⟩
  · exact h.evolves he
  · exact ⟨h.1,h.2.evolves he⟩
  · obtain ⟨hphase,hended,⟨hpassed,hn⟩,hat,hboundary,hle,a,ha,hfollowed,hreached⟩ := h
    obtain ⟨xs,hpublished,-⟩ := he.news
    have hsent := At.evolves he ⟨hboundary,hle.trans hat.le⟩
    refine ⟨hphase,hended,⟨hpassed,?_⟩,hat.evolves he,hsent.boundary,hle,a,ha.evolves he,hfollowed,?_⟩
    · rw [hpublished,List.length_append]
      exact hn.trans_le (Nat.le_add_right _ _)
    · rw [reached_evolves he hpassed hn]
      exact hreached
  · obtain ⟨cursor,hfollowed,hcovered⟩ := h
    exact ⟨cursor,hfollowed,fun hended => (hcovered hended).evolves he⟩

end Evolves

/-- What was published when the Run ended is all of its output, but for late chunks. -/
structure Ended (s : System) : Prop where
  isSome : s.final.isSome = s.terminal.isSome
  settled : ∀ f ∈ s.final, f ≤ s.settled
  latest : s.late = false → ∀ f ∈ s.final, s.log.latestOutputBytes = f

/-- The invariant of the Run with its attachment. -/
structure Inv (s : System) : Prop where
  kept : Kept (s.published.map (·.envelope)) s.events.journal
  opened : s.events.journal.closed = false
  log : ∃ stream limit, Output.replayCacheBlockBytes ≤ limit ∧ Represents stream limit s.log
  pushed : ∃ base, Tiles OutputChunk.startByte OutputChunk.endByte base s.pushed
    s.log.latestOutputBytes
  pushing : ∀ chunk ∈ s.pushing, chunk ∈ s.pushed ∧ chunk.endByte = s.log.latestOutputBytes
  ended : Ended s
  cursor : Within s.settled s.events.cursor
  receives : ∀ v ∈ s.view, Receives s v
  placed : ∀ v ∈ s.view, Placed s v

end Viewer
end Ctxmux
