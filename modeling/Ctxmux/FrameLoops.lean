import Mathlib.Data.List.Basic
import Mathlib.Tactic.Common

/-!
# Loops that receive frames

A reader takes frames from the front of a list and leaves the rest, whether it succeeds
or fails. The two loops of this kind are a `while` with its condition in front and a
`loop` that its body leaves. Two readers are alike when they leave the same rest and
both fail or both succeed.
-/

namespace Ctxmux
namespace Frames

variable {φ σ τ ε δ α β α' β' : Type} {R : α → β → Prop} {more : σ → Bool}

/-- What a reader returns and the frames that it leaves. -/
abbrev Received (φ ε α : Type) := Except ε α×List φ

/-- The reader that goes on with the frames that the first one left. -/
def next (r : Received φ ε α) (k : α → List φ → Received φ ε β) : Received φ ε β :=
  match r with
  | (.ok a,rest) => k a rest
  | (.error e,rest) => (.error e,rest)

theorem next_next {γ : Type} (r : Received φ ε α) (k : α → List φ → Received φ ε β)
    (l : β → List φ → Received φ ε γ) :
    next (next r k) l = next r fun a rest => next (k a rest) l := by
  obtain ⟨value,rest⟩ := r
  cases value <;> rfl

theorem next_eq_ok {r : Received φ ε α} {k : α → List φ → Received φ ε β} {b : β}
    (h : (next r k).1 = .ok b) : ∃ a, r.1 = .ok a ∧ (k a r.2).1 = .ok b := by
  obtain ⟨value,rest⟩ := r
  cases value with
  | ok a => exact ⟨a,rfl,h⟩
  | error e => cases h

theorem next_rest {r : Received φ ε α} {k : α → List φ → Received φ ε β}
    (h : ∀ a rest, (k a rest).2 = rest) : (next r k).2 = r.2 := by
  obtain ⟨value,rest⟩ := r
  cases value with
  | ok a => exact h a rest
  | error e => rfl

/-- A loop that receives a frame as long as the condition holds. -/
def whileReceive (more : σ → Bool) (body : σ → φ → Except ε σ) (closed : ε) :
    σ → List φ → Received φ ε σ
  | s, [] => if more s then (.error closed,[]) else (.ok s,[])
  | s, frame::frames =>
    if more s then
      match body s frame with
      | .ok s' => whileReceive more body closed s' frames
      | .error e => (.error e,frames)
    else (.ok s,frame::frames)

/-- A loop that receives frames until its body says that it is complete. -/
def loopReceive (body : σ → φ → Except ε (σ×Bool)) (closed : ε) : σ → List φ → Received φ ε σ
  | _, [] => (.error closed,[])
  | s, frame::frames =>
    match body s frame with
    | .ok (s',true) => (.ok s',frames)
    | .ok (s',false) => loopReceive body closed s' frames
    | .error e => (.error e,frames)

/-- Both fail, or both succeed with related values. -/
inductive Both (R : α → β → Prop) : Except ε α → Except δ β → Prop
  | ok {a : α} {b : β} (related : R a b) : Both R (.ok a) (.ok b)
  | error (e : ε) (d : δ) : Both R (.error e) (.error d)

/-- Two readers that leave the same rest. -/
structure Alike (R : α → β → Prop) (x : Received φ ε α) (y : Received φ δ β) : Prop where
  rest : x.2 = y.2
  both : Both R x.1 y.1

theorem Alike.value {a : α} {b : β} (h : R a b) (rest : List φ) :
    Alike R ((.ok a,rest) : Received φ ε α) ((.ok b,rest) : Received φ δ β) :=
  ⟨rfl,.ok h⟩

theorem Alike.failure (e : ε) (d : δ) (rest : List φ) :
    Alike R ((.error e,rest) : Received φ ε α) ((.error d,rest) : Received φ δ β) :=
  ⟨rfl,.error e d⟩

theorem Alike.next {S : α' → β' → Prop} {x : Received φ ε α} {y : Received φ δ β}
    {k : α → List φ → Received φ ε α'} {l : β → List φ → Received φ δ β'} (h : Alike R x y)
    (hnext : ∀ a b rest, R a b → Alike S (k a rest) (l b rest)) :
    Alike S (Frames.next x k) (Frames.next y l) := by
  obtain ⟨hrest,hboth⟩ := h
  obtain ⟨x,rest⟩ := x
  obtain ⟨y,rest'⟩ := y
  subst hrest
  cases hboth with
  | ok hrelated => exact hnext _ _ _ hrelated
  | error e d => exact Alike.failure e d rest

/-- Two loops whose conditions agree and whose bodies are alike are alike. -/
theorem Alike.whileReceive {R : σ → τ → Prop} {more' : τ → Bool} {body : σ → φ → Except ε σ}
    {body' : τ → φ → Except δ τ} (hmore : ∀ s t, R s t → more s = more' t)
    (hbody : ∀ s t frame, R s t → more s = true → Both R (body s frame) (body' t frame))
    (closed : ε) (closed' : δ) {s : σ} {t : τ} (h : R s t) (frames : List φ) :
    Alike R (Frames.whileReceive more body closed s frames)
      (Frames.whileReceive more' body' closed' t frames) := by
  induction frames generalizing s t with
  | nil =>
    unfold Frames.whileReceive
    rw [← hmore s t h]
    cases more s with
    | true => exact Alike.failure _ _ _
    | false => exact Alike.value h _
  | cons frame frames ih =>
    unfold Frames.whileReceive
    rw [← hmore s t h]
    cases hcondition : more s with
    | false => exact Alike.value h _
    | true =>
      have hstep := hbody s t frame h hcondition
      cases hs : body s frame <;> cases ht : body' t frame <;> rw [hs,ht] at hstep
      · exact Alike.failure _ _ _
      · cases hstep
      · cases hstep
      · cases hstep with
        | ok hrelated => exact ih hrelated

/-- A `loop` whose body is complete exactly where a condition ends is a `while`. -/
theorem loopReceive_eq {body : σ → φ → Except ε (σ×Bool)}
    (hcomplete : ∀ s frame s' complete, more s = true → body s frame = .ok (s',complete) →
      complete = !more s') (closed : ε) {s : σ} (h : more s = true) (frames : List φ) :
    loopReceive body closed s frames =
      whileReceive more (fun s frame => (body s frame).map Prod.fst) closed s frames := by
  induction frames generalizing s with
  | nil => simp only [loopReceive,whileReceive,h,if_true]
  | cons frame frames ih =>
    simp only [loopReceive,whileReceive,h,if_true]
    cases hbody : body s frame with
    | error e => rfl
    | ok value =>
      obtain ⟨s',complete⟩ := value
      have hflag := hcomplete s frame s' complete h hbody
      cases complete with
      | true =>
        have hends : more s' = false := by simpa using hflag.symm
        cases frames with
        | nil => simp only [Except.map,whileReceive,hends]; rfl
        | cons other frames => simp only [Except.map,whileReceive,hends]; rfl
      | false =>
        have hgoes : more s' = true := by simpa using hflag.symm
        exact ih hgoes

/-- What the body keeps over the frames that it has taken holds where the loop ends. -/
theorem whileReceive_kept {body : σ → φ → Except ε σ} {I : List φ → σ → Prop}
    (hstep : ∀ seen s frame s', I seen s → more s = true → body s frame = .ok s' →
      I (seen ++ [frame]) s') (closed : ε) {seen : List φ} {s : σ} (h : I seen s) (frames : List φ)
    :
    ∃ taken, frames = taken ++ (whileReceive more body closed s frames).2 ∧
      ∀ s', (whileReceive more body closed s frames).1 = .ok s' →
        I (seen ++ taken) s' ∧ more s' = false := by
  induction frames generalizing seen s with
  | nil =>
    refine ⟨[],?_⟩
    cases hmore : more s with
    | true => simp [whileReceive,hmore]
    | false =>
      simp only [whileReceive,hmore,List.append_nil,List.nil_append]
      refine ⟨rfl,?_⟩
      intro s' hs'
      cases hs'
      exact ⟨h,hmore⟩
  | cons frame frames ih =>
    cases hmore : more s with
    | false =>
      refine ⟨[],?_⟩
      simp only [whileReceive,hmore,List.append_nil,List.nil_append]
      refine ⟨rfl,?_⟩
      intro s' hs'
      cases hs'
      exact ⟨h,hmore⟩
    | true =>
      simp only [whileReceive,hmore,if_true]
      cases hbody : body s frame with
      | error e => exact ⟨[frame],rfl,fun s' hs' => by cases hs'⟩
      | ok s₁ =>
        obtain ⟨taken,hframes,hkept⟩ := ih (hstep seen s frame s₁ h hmore hbody)
        refine ⟨frame::taken,by rw [List.cons_append,← hframes],?_⟩
        intro s' hs'
        have hend := hkept s' hs'
        rwa [List.append_assoc] at hend

end Frames
end Ctxmux
