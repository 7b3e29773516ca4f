import Mathlib.Data.List.Sort
import Mathlib.Tactic

/-!
# The smallest elements of a list

A selection that puts one element into its sorted position, without fixing the order on
either side of it, finds the smallest elements once its front part is sorted.
-/

namespace Ctxmux
namespace Selection

variable {α : Type*} [LinearOrder α] {xs : List α}

def sorted (xs : List α) : List α := xs.mergeSort fun x y => decide (x ≤ y)

theorem sorted_perm (xs : List α) : (sorted xs).Perm xs := List.mergeSort_perm xs _

theorem sorted_pairwise (xs : List α) : (sorted xs).Pairwise (· ≤ ·) := by
  have h : (sorted xs).Pairwise fun x y => decide (x ≤ y) = true := by
    apply List.pairwise_mergeSort
    · simpa using fun a b c => le_trans
    · simpa using le_total
  simpa only [decide_eq_true_eq] using h

@[simp] theorem length_sorted (xs : List α) : (sorted xs).length = xs.length :=
  (sorted_perm xs).length_eq

@[simp] theorem mem_sorted {x : α} : x ∈ sorted xs ↔ x ∈ xs :=
  (sorted_perm xs).mem_iff

theorem eq_sorted {ys : List α} (hp : ys.Perm xs) (hs : ys.Pairwise (· ≤ ·)) :
    ys = sorted xs := by
  apply List.Perm.eq_of_pairwise _ hs (sorted_pairwise xs)
  · exact hp.trans (sorted_perm xs).symm
  · exact fun a b _ _ hab hba => le_antisymm hab hba

theorem sorted_congr {ys : List α} (h : xs.Perm ys) : sorted xs = sorted ys :=
  eq_sorted ((sorted_perm xs).trans h) (sorted_pairwise xs)

theorem sorted_strict (h : xs.Nodup) : (sorted xs).Pairwise (· < ·) := by
  have hnodup : (sorted xs).Nodup := (sorted_perm xs).nodup_iff.mpr h
  exact (sorted_pairwise xs).imp₂ (fun _ _ hle hne => lt_of_le_of_ne hle hne) hnodup

/-- Reorders a list so that the element at an index is the one that sorting would put there. -/
structure UnstableSelection (α : Type*) [LinearOrder α] where
  select : ℕ → List α → List α
  perm : ∀ n xs, (select n xs).Perm xs
  before : ∀ n xs pivot, (select n xs)[n]? = some pivot → ∀ x ∈ (select n xs).take n, x ≤ pivot
  after : ∀ n xs pivot, (select n xs)[n]? = some pivot → ∀ x ∈ (select n xs).drop n, pivot ≤ x

/-- Sorting the whole list is one such selection. -/
def UnstableSelection.full : UnstableSelection α where
  select _ xs := sorted xs
  perm _ xs := sorted_perm xs
  before n xs pivot hpivot x hx := by
    obtain ⟨hn,rfl⟩ := List.getElem?_eq_some_iff.mp hpivot
    obtain ⟨i,hi,rfl⟩ := List.mem_iff_getElem.mp hx
    rw [List.length_take] at hi
    rw [List.getElem_take]
    exact List.pairwise_iff_getElem.mp (sorted_pairwise xs) i n (by omega) hn (by omega)
  after n xs pivot hpivot x hx := by
    obtain ⟨hn,rfl⟩ := List.getElem?_eq_some_iff.mp hpivot
    rw [List.drop_eq_getElem_cons hn] at hx
    rcases List.mem_cons.mp hx with rfl | hx
    · exact le_rfl
    · have hpairs := (sorted_pairwise xs).sublist (List.drop_sublist n _)
      rw [List.drop_eq_getElem_cons hn] at hpairs
      exact List.rel_of_pairwise_cons hpairs hx

theorem UnstableSelection.separates (u : UnstableSelection α) {n : ℕ} (h : n < xs.length) {x y : α}
    (hx : x ∈ (u.select n xs).take (n+1)) (hy : y ∈ (u.select n xs).drop (n+1)) : x ≤ y := by
  have hn : n < (u.select n xs).length := by
    rw [(u.perm n xs).length_eq]
    exact h
  have hpivot : (u.select n xs)[n]? = some ((u.select n xs)[n]) := List.getElem?_eq_getElem hn
  have hyle : (u.select n xs)[n] ≤ y := by
    apply u.after n xs _ hpivot
    rw [List.drop_eq_getElem_cons hn]
    exact List.mem_cons_of_mem _ hy
  rw [List.take_succ_eq_append_getElem hn] at hx
  rcases List.mem_append.mp hx with hx | hx
  · exact (u.before n xs _ hpivot x hx).trans hyle
  · rw [List.mem_singleton.mp hx]
    exact hyle

/-- Sorting the front of a selection gives the front of the sorted list. -/
theorem UnstableSelection.sorted_take (u : UnstableSelection α) {n : ℕ} (h : n < xs.length) :
    sorted ((u.select n xs).take (n+1)) = (sorted xs).take (n+1) := by
  have hsplit : sorted ((u.select n xs).take (n+1)) ++ sorted ((u.select n xs).drop (n+1)) =
      sorted xs := by
    apply eq_sorted
    · have hparts := ((sorted_perm ((u.select n xs).take (n+1))).append
        (sorted_perm ((u.select n xs).drop (n+1))))
      rw [List.take_append_drop] at hparts
      exact hparts.trans (u.perm n xs)
    · rw [List.pairwise_append]
      refine ⟨sorted_pairwise _,sorted_pairwise _,?_⟩
      intro x hx y hy
      exact u.separates h (mem_sorted.mp hx) (mem_sorted.mp hy)
  have hlength : (sorted ((u.select n xs).take (n+1))).length = n+1 := by
    rw [length_sorted,List.length_take,(u.perm n xs).length_eq]
    omega
  rw [← hsplit]
  exact (List.take_left' hlength).symm

end Selection
end Ctxmux
