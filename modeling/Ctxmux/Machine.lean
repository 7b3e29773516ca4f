import Mathlib.Tactic

/-!
# Event machines

A machine is a total step function on events; every choice of the environment
(a lost lock, a short write, a storage outcome) is part of the event. A run is
the fold of its events, and the rules below turn facts about one step into
facts about every state that a run visits.
-/

namespace Ctxmux
namespace Machine

variable {σ ε : Type*} {step : σ → ε → σ} {C : σ → ε → Prop} {I P : σ → Prop} {s : σ}

def run (step : σ → ε → σ) (s : σ) (es : List ε) : σ := es.foldl step s

@[simp] theorem run_cons (step : σ → ε → σ) (s : σ) (e : ε) (es : List ε) :
    run step s (e::es) = run step (step s e) es := rfl

theorem run_append (step : σ → ε → σ) (s : σ) (es fs : List ε) :
    run step s (es ++ fs) = run step (run step s es) fs := by
  simp [run,List.foldl_append]

/-- Every step is taken in a state in which it meets the side condition. -/
def Along (step : σ → ε → σ) (C : σ → ε → Prop) : σ → List ε → Prop
  | _, [] => True
  | s, e::es => C s e ∧ Along step C (step s e) es

/-- The property holds in the first state and in every state that a step reaches. -/
def Always (step : σ → ε → σ) (P : σ → Prop) : σ → List ε → Prop
  | s, [] => P s
  | s, e::es => P s ∧ Always step P (step s e) es

instance decidableAlong (step : σ → ε → σ) (C : σ → ε → Prop) [∀ s e, Decidable (C s e)] :
    (s : σ) → (es : List ε) → Decidable (Along step C s es)
  | _, [] => inferInstanceAs (Decidable True)
  | s, e::es =>
    have := decidableAlong step C (step s e) es
    inferInstanceAs (Decidable (C s e ∧ Along step C (step s e) es))

/-- An invariant of every admissible step is an invariant of every admissible run. -/
theorem run_invariant_along (hstep : ∀ s e, I s → C s e → I (step s e)) {es : List ε} (hs : I s)
    (hes : Along step C s es) : I (run step s es) := by
  induction es generalizing s with
  | nil => exact hs
  | cons e es ih => exact ih (hstep s e hs hes.1) hes.2

theorem run_invariant (hstep : ∀ s e, I s → I (step s e)) (hs : I s) (es : List ε) :
    I (run step s es) := by
  induction es generalizing s with
  | nil => exact hs
  | cons e es ih => exact ih (hstep s e hs)

theorem Always.head {es : List ε} (h : Always step P s es) : P s := by
  cases es with
  | nil => exact h
  | cons e es => exact h.1

/-- An invariant that gives the property gives it throughout. -/
theorem always_of_invariant (hstep : ∀ s e, I s → I (step s e)) (hP : ∀ s, I s → P s) (hs : I s)
    (es : List ε) :
    Always step P s es := by
  induction es generalizing s with
  | nil => exact hP s hs
  | cons e es ih => exact ⟨hP s hs,ih (hstep s e hs)⟩

/-- An invariant of every admissible step gives the property throughout an admissible run. -/
theorem always_of_invariant_along (hstep : ∀ s e, I s → C s e → I (step s e)) (hP : ∀ s, I s → P s)
    {es : List ε} (hs : I s) (hes : Along step C s es) :
    Always step P s es := by
  induction es generalizing s with
  | nil => exact hP s hs
  | cons e es ih => exact ⟨hP s hs,ih (hstep s e hs hes.1) hes.2⟩

/-- When a step keeps the property exactly under the side condition, the runs that
keep it throughout are exactly the runs whose steps all meet the side condition. -/
theorem always_iff_along (hinv : ∀ s e, I s → I (step s e))
    (hstep : ∀ s e, I s → P s → (P (step s e) ↔ C s e)) (hI : I s) (hP : P s) (es : List ε) :
    Always step P s es ↔ Along step C s es := by
  induction es generalizing s with
  | nil => simp [Always,Along,hP]
  | cons e es ih =>
    simp only [Always,Along,hP,true_and]
    constructor
    · intro h
      have hP' := h.head
      exact ⟨(hstep s e hI hP).mp hP',(ih (hinv s e hI) hP').mp h⟩
    · rintro ⟨hC,h⟩
      exact (ih (hinv s e hI) ((hstep s e hI hP).mpr hC)).mpr h

/-- Two side conditions that agree under an invariant which the second one keeps admit
the same runs. -/
theorem along_iff_along {D : σ → ε → Prop} (hinv : ∀ s e, I s → D s e → I (step s e))
    (hiff : ∀ s e, I s → (C s e ↔ D s e)) (hI : I s) (es : List ε) :
    Along step C s es ↔ Along step D s es := by
  induction es generalizing s with
  | nil => exact Iff.rfl
  | cons e es ih =>
    constructor
    · rintro ⟨hC,h⟩
      have hD := (hiff s e hI).mp hC
      exact ⟨hD,(ih (hinv s e hI hD)).mp h⟩
    · rintro ⟨hD,h⟩
      exact ⟨(hiff s e hI).mpr hD,(ih (hinv s e hI hD)).mpr h⟩

end Machine
end Ctxmux
