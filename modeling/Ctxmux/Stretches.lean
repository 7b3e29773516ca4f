import Mathlib.Data.List.Forall2

/-!
# Lists that stand for stretches of a log

Every element of one list stands for a stretch of the other, and the stretches are the
whole log in order.
-/

namespace Ctxmux
namespace Stretches

variable {α β : Type*} {Covers : α → List β → Prop} {xs : List α} {log : List β}

def Presents (Covers : α → List β → Prop) (shown : List α) (log : List β) : Prop :=
  ∃ blocks, List.Forall₂ Covers shown blocks ∧ blocks.flatten = log

theorem presents_nil : Presents Covers [] [] := ⟨[],List.Forall₂.nil,rfl⟩

theorem Presents.append {ys : List α} {log' : List β} (h : Presents Covers xs log)
    (h' : Presents Covers ys log') : Presents Covers (xs ++ ys) (log ++ log') := by
  obtain ⟨front,hfront,rfl⟩ := h
  obtain ⟨back,hback,rfl⟩ := h'
  exact ⟨front ++ back,List.rel_append hfront hback,List.flatten_append⟩

theorem Presents.snoc {x : α} {block : List β} (h : Presents Covers xs log) (hx : Covers x block) :
    Presents Covers (xs ++ [x]) (log ++ block) :=
  h.append ⟨[block],.cons hx .nil,by simp⟩

theorem Presents.split {ys : List α} (h : Presents Covers (xs ++ ys) log) :
    ∃ front back, log = front ++ back ∧ Presents Covers xs front ∧ Presents Covers ys back := by
  induction xs generalizing log with
  | nil => exact ⟨[],log,rfl,presents_nil,h⟩
  | cons x xs ih =>
    obtain ⟨blocks,hblocks,rfl⟩ := h
    cases hblocks with
    | cons hx hrest =>
      rename_i block rest
      obtain ⟨front,back,hsplit,⟨fronts,hfronts,rfl⟩,hback⟩ := ih ⟨rest,hrest,rfl⟩
      refine ⟨block ++ fronts.flatten,back,?_,⟨block::fronts,.cons hx hfronts,by simp⟩,hback⟩
      rw [List.flatten_cons,hsplit,List.append_assoc]

theorem Presents.single {x : α} (h : Presents Covers [x] log) : Covers x log := by
  obtain ⟨blocks,hblocks,rfl⟩ := h
  cases hblocks with
  | cons hx hnil =>
    cases hnil
    simpa using hx

theorem Presents.extend {x y : α} {block : List β} (h : Presents Covers (xs ++ [x]) log)
    (hgrow : ∀ front, Covers x front → Covers y (front ++ block)) :
    Presents Covers (xs ++ [y]) (log ++ block) := by
  obtain ⟨front,back,rfl,hfront,hback⟩ := h.split
  rw [List.append_assoc]
  exact hfront.snoc (hgrow back hback.single)

/-- An element that stands for the same stretches takes the place of another. -/
theorem Presents.replace {ys : List α} {x y : α} (h : Presents Covers (xs ++ x::ys) log)
    (hsame : ∀ block, Covers x block → Covers y block) :
    Presents Covers (xs ++ y::ys) log := by
  obtain ⟨front,back,rfl,hfront,blocks,hblocks,rfl⟩ := h.split
  cases hblocks with
  | cons hx hrest => exact hfront.append ⟨_,.cons (hsame _ hx) hrest,rfl⟩

end Stretches
end Ctxmux
