import Ctxmux.AttachmentStream
import Ctxmux.PublishedEvents

/-!
# The flow of published output

The publications that an attachment has yet to pass move the stream from one byte to
another and the cursor of the publisher with it. What a lag hides is a part of this flow:
if no discontinuity was counted in it, its output lies below the bytes that were counted.
-/

namespace Ctxmux
namespace Viewer

open Attachment (RunEvent LiveRunEvent LiveEventCursor Publication Carried)
open Attachment.LiveEventCursor (Behind Within)
open Durable (OutputChunk)
open Tiling

/-- The byte up to which the stream is published behind an event. -/
def position (a : ℕ) : RunEvent → ℕ
  | .output endByte => endByte
  | _ => a

/-- A publication that finds the stream at `a` and the cursor at `c`. `final` is what had been
published of a Run that has ended. -/
structure Published (pushed : List OutputChunk) (final : Option ℕ) (a : ℕ) (c : LiveEventCursor)
    (x : Publication) : Prop where
  carried : Carried c x.event x.envelope
  output : ∀ endByte, x.event = .output endByte →
    ∃ chunk ∈ pushed, chunk.startByte = a ∧ chunk.endByte = endByte ∧ a < endByte
  gap : ∀ latest causes, x.event = .gap latest causes → latest ≤ a
  terminal : x.event.isTerminal = true → ∃ f ∈ final, f ≤ a

/-- Publications that take the stream from `a` to `b` and the cursor from `c` to `d`. -/
def Flow (pushed : List OutputChunk) (final : Option ℕ) :
    ℕ → LiveEventCursor → List Publication → ℕ → LiveEventCursor → Prop
  | a, c, [], b, d => a = b ∧ c = d
  | a, c, x::xs, b, d => Published pushed final a c x ∧
      Flow pushed final (position a x.event) x.envelope.after xs b d

variable {pushed pushed' : List OutputChunk} {final final' : Option ℕ} {a b n : ℕ}
  {c d : LiveEventCursor} {x : Publication} {xs ys : List Publication}

namespace Published

theorem le_position (h : Published pushed final a c x) : a ≤ position a x.event := by
  cases hevent : x.event with
  | output endByte =>
    obtain ⟨chunk,-,-,-,hlt⟩ := h.output endByte hevent
    exact hlt.le
  | _ => exact le_rfl

theorem mono (h : Published pushed final a c x) (hsub : pushed ⊆ pushed')
    (hfinal : ∀ f ∈ final, final' = some f) : Published pushed' final' a c x where
  carried := h.carried
  output endByte hevent := by
    obtain ⟨chunk,hchunk,hends⟩ := h.output endByte hevent
    exact ⟨chunk,hsub hchunk,hends⟩
  gap := h.gap
  terminal hevent := by
    obtain ⟨f,hf,hle⟩ := h.terminal hevent
    exact ⟨f,hfinal f hf,hle⟩

theorem within (h : Published pushed final a c x) (hc : Within a c) :
    Within (position a x.event) x.envelope.after := by
  have hbefore := h.carried.within_before hc
  have hle := h.le_position
  cases hevent : x.event with
  | output endByte =>
    rw [hevent] at hle
    have hlow : Within endByte x.envelope.before := hbefore.mono hle
    rcases h.carried.payload with ⟨-,heq⟩ | ⟨-,heq⟩ <;> rw [heq,hevent]
    · exact ⟨max_le hlow.1 le_rfl,hlow.2⟩
    · exact ⟨hlow.1,le_rfl⟩
  | gap latest causes =>
    have hlatest := h.gap latest causes hevent
    rcases h.carried.payload with ⟨-,heq⟩ | ⟨-,heq⟩ <;> rw [heq,hevent] <;>
      exact ⟨hbefore.1,hlatest⟩
  | _ =>
    rcases h.carried.payload with ⟨-,heq⟩ | ⟨-,heq⟩ <;> rw [heq,hevent] <;> exact hbefore

end Published

namespace Flow

theorem append {e : ℕ} {k : LiveEventCursor} (h : Flow pushed final a c xs b d)
    (hys : Flow pushed final b d ys e k) : Flow pushed final a c (xs ++ ys) e k := by
  induction xs generalizing a c with
  | nil =>
    obtain ⟨rfl,rfl⟩ := h
    exact hys
  | cons y zs ih => exact ⟨h.1,ih h.2⟩

theorem concat (h : Flow pushed final a c xs b d) (hx : Published pushed final b d x) :
    Flow pushed final a c (xs ++ [x]) (position b x.event) x.envelope.after :=
  h.append ⟨hx,rfl,rfl⟩

theorem split (h : Flow pushed final a c (xs ++ ys) b d) :
    ∃ m k, Flow pushed final a c xs m k ∧ Flow pushed final m k ys b d := by
  induction xs generalizing a c with
  | nil => exact ⟨a,c,⟨rfl,rfl⟩,h⟩
  | cons y zs ih =>
    obtain ⟨m,k,hzs,hys⟩ := ih h.2
    exact ⟨m,k,⟨h.1,hzs⟩,hys⟩

section

variable (h : Flow pushed final a c xs b d)
include h

theorem le : a ≤ b := by
  induction xs generalizing a c with
  | nil => exact h.1.le
  | cons y ys ih => exact h.1.le_position.trans (ih h.2)

theorem mono (hsub : pushed ⊆ pushed') (hfinal : ∀ f ∈ final, final' = some f) :
    Flow pushed' final' a c xs b d := by
  induction xs generalizing a c with
  | nil => exact h
  | cons y ys ih => exact ⟨h.1.mono hsub hfinal,ih h.2⟩

theorem behind : c.Behind d := by
  induction xs generalizing a c with
  | nil => exact h.2 ▸ .refl c
  | cons y ys ih => exact h.1.carried.behind_after.trans (ih h.2)

theorem within (hc : Within a c) : Within b d := by
  induction xs generalizing a c with
  | nil =>
    obtain ⟨rfl,rfl⟩ := h
    exact hc
  | cons y ys ih => exact ih h.2 (h.1.within hc)

/-- Without a counted discontinuity, what was lost are counted bytes. -/
theorem quiet (hquiet : d.outputDiscontinuityRevision ≤ c.outputDiscontinuityRevision)
    (hbytes : d.outputBytes ≤ n) : b ≤ max n a := by
  induction xs generalizing a c with
  | nil => exact h.1 ▸ le_max_right n a
  | cons y ys ih =>
    obtain ⟨hy,hys⟩ := h
    have hbehind := hys.behind
    have hcount := hy.carried.behind_after.outputDiscontinuityRevision
    have hrest := ih hys (hquiet.trans hcount)
    cases hevent : y.event with
    | output endByte =>
      rw [hevent] at hrest
      have hcarried := hy.carried
      rw [hevent] at hcarried
      have hrest' : b ≤ max n endByte := hrest
      rcases hcarried.output with ⟨-,hle⟩ | ⟨-,hlt⟩
      · have hle' := hle.trans (hbehind.outputBytes.trans hbytes)
        exact hrest'.trans (max_le (le_max_left n a) (hle'.trans (le_max_left n a)))
      · have hmore := hbehind.outputDiscontinuityRevision
        omega
    | _ =>
      rw [hevent] at hrest
      exact hrest

/-- The end of the Run was published behind what had been published when it ended. -/
theorem ended (hlt : c.terminalRevision < d.terminalRevision) :
    ∃ f ∈ final, f ≤ b := by
  induction xs generalizing a c with
  | nil =>
    obtain ⟨-,rfl⟩ := h
    exact absurd hlt (lt_irrefl _)
  | cons y ys ih =>
    obtain ⟨hy,hys⟩ := h
    by_cases hterminal : y.event.isTerminal = true
    · obtain ⟨f,hf,hle⟩ := hy.terminal hterminal
      exact ⟨f,hf,hle.trans (hy.le_position.trans hys.le)⟩
    · have hsame := hy.carried.terminalRevision (by simpa using hterminal)
      exact ih hys (by rw [hsame]; exact hlt)

/-- The byte that publications lead to is decided by their events. -/
theorem reach_eq :
    xs.foldl (fun a x => position a x.event) a = b := by
  induction xs generalizing a c with
  | nil => exact h.1
  | cons y ys ih => exact ih h.2

end

end Flow

/-- A byte that lies inside no pushed chunk. -/
def Boundary (pushed : List OutputChunk) (n : ℕ) : Prop :=
  ∀ chunk ∈ pushed, chunk.endByte ≤ n ∨ n ≤ chunk.startByte

/-- The chunks of a tiling are told apart by their ends. -/
theorem find?_of_tiles {first last : ℕ}
    (h : Tiles OutputChunk.startByte OutputChunk.endByte first pushed last) {chunk : OutputChunk}
    (hchunk : chunk ∈ pushed) : pushed.find? (·.endByte = chunk.endByte) = some chunk := by
  induction pushed generalizing first with
  | nil => cases hchunk
  | cons other chunks ih =>
    rcases List.mem_cons.mp hchunk with rfl | hin
    · exact List.find?_cons_of_pos (by simp)
    · obtain ⟨-,-,hrest⟩ := h
      have hlow := hrest.mem_bounds hin
      rw [List.find?_cons_of_neg (by simp only [decide_eq_true_eq]; omega)]
      exact ih hrest hin

end Viewer
end Ctxmux
