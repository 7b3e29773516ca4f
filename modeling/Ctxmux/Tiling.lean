import Mathlib.Data.List.Basic
import Mathlib.Data.List.Sort
import Mathlib.Tactic

/-!
# Tilings of a range

A list of items with a lower and an upper end tiles `[a,b)` when the items are
non-empty and each begins where the previous one ended. Byte ranges kept in a
table, a queue or a file are of this shape; the lemmas say how a tiling is
extended, cut from the front, searched and read back.
-/

namespace Ctxmux
namespace Tiling

variable {α β : Type*} {lo hi : α → ℕ} {a b : ℕ} {xs : List α}

def Tiles (lo hi : α → ℕ) : ℕ → List α → ℕ → Prop
  | a, [], b => a = b
  | a, x::xs, b => lo x = a ∧ lo x < hi x ∧ Tiles lo hi (hi x) xs b

@[simp] theorem tiles_nil : Tiles lo hi a [] b ↔ a = b := Iff.rfl

@[simp] theorem tiles_cons {x : α} :
    Tiles lo hi a (x::xs) b ↔ lo x = a ∧ lo x < hi x ∧ Tiles lo hi (hi x) xs b := Iff.rfl

instance decidableTiles (lo hi : α → ℕ) :
    (a : ℕ) → (xs : List α) → (b : ℕ) → Decidable (Tiles lo hi a xs b)
  | a, [], b => inferInstanceAs (Decidable (a = b))
  | a, x::xs, b =>
    have := decidableTiles lo hi (hi x) xs b
    inferInstanceAs (Decidable (lo x = a ∧ lo x < hi x ∧ Tiles lo hi (hi x) xs b))

namespace Tiles

theorem le (h : Tiles lo hi a xs b) : a ≤ b := by
  induction xs generalizing a with
  | nil => exact le_of_eq h
  | cons x xs ih =>
    obtain ⟨hx,hlt,ht⟩ := h
    have := ih ht
    omega

theorem append {ys : List α} :
    Tiles lo hi a (xs ++ ys) b ↔ ∃ m, Tiles lo hi a xs m ∧ Tiles lo hi m ys b := by
  induction xs generalizing a with
  | nil => simp
  | cons x xs ih =>
    simp only [List.cons_append,tiles_cons,ih]
    constructor
    · rintro ⟨hx,hlt,m,hm,ht⟩
      exact ⟨m,⟨hx,hlt,hm⟩,ht⟩
    · rintro ⟨m,⟨hx,hlt,hm⟩,ht⟩
      exact ⟨hx,hlt,m,hm,ht⟩

theorem concat {x : α} (h : Tiles lo hi a xs b) (hx : lo x = b) (hlt : lo x < hi x) :
    Tiles lo hi a (xs ++ [x]) (hi x) :=
  append.mpr ⟨b,h,hx,hlt,rfl⟩

theorem mem_bounds {x : α} (h : Tiles lo hi a xs b) (hx : x ∈ xs) :
    a ≤ lo x ∧ lo x < hi x ∧ hi x ≤ b := by
  induction xs generalizing a with
  | nil => simp at hx
  | cons y ys ih =>
    obtain ⟨hy,hlt,ht⟩ := h
    rcases List.mem_cons.mp hx with rfl | hx
    · exact ⟨le_of_eq hy.symm,hlt,ht.le⟩
    · have := ih ht hx
      omega

theorem eq_nil_iff (h : Tiles lo hi a xs b) : xs = [] ↔ a = b := by
  cases xs with
  | nil => simpa using h
  | cons x xs =>
    obtain ⟨hx,hlt,ht⟩ := h
    have := ht.le
    simp only [reduceCtorEq,false_iff]
    omega

theorem sum_length (h : Tiles lo hi a xs b) :
    (xs.map fun x => hi x - lo x).sum = b - a := by
  induction xs generalizing a with
  | nil => simp [tiles_nil.mp h]
  | cons x xs ih =>
    obtain ⟨hx,hlt,ht⟩ := h
    have := ht.le
    simp only [List.map_cons,List.sum_cons,ih ht]
    omega

theorem pairwise (h : Tiles lo hi a xs b) :
    xs.Pairwise fun x y => hi x ≤ lo y := by
  induction xs generalizing a with
  | nil => exact List.Pairwise.nil
  | cons x xs ih =>
    obtain ⟨_,_,ht⟩ := h
    exact List.Pairwise.cons (fun y hy => (ht.mem_bounds hy).1) (ih ht)

theorem pairwise_lt (h : Tiles lo hi a xs b) :
    xs.Pairwise fun x y => lo x < lo y := by
  induction xs generalizing a with
  | nil => exact List.Pairwise.nil
  | cons x xs ih =>
    obtain ⟨_,hlt,ht⟩ := h
    exact List.Pairwise.cons (fun y hy => lt_of_lt_of_le hlt (ht.mem_bounds hy).1) (ih ht)

theorem insertionSort_eq (h : Tiles lo hi a xs b) :
    xs.insertionSort (fun x y => lo x ≤ lo y) = xs :=
  List.Pairwise.insertionSort_eq (h.pairwise_lt.imp le_of_lt)

/-- Clip the item that crosses `c`, the others stay. -/
def clipAt (lo hi : α → ℕ) (clip : α → α) (c : ℕ) (x : α) : α :=
  if lo x < c ∧ c < hi x then clip x else x

theorem clipAt_of_le {clip : α → α} {c : ℕ} {x : α} (h : c ≤ lo x) :
    clipAt lo hi clip c x = x := if_neg (by omega)

/-- Cut the front at `c`: the item that crosses `c` is replaced by one that begins
there, and the items that end at or before `c` go. -/
theorem cut {c : ℕ} {clip : α → α} (h : Tiles lo hi a xs b) (hac : a ≤ c) (hcb : c ≤ b)
    (hclip : ∀ x ∈ xs, lo x < c → c < hi x → lo (clip x) = c ∧ hi (clip x) = hi x) :
    Tiles lo hi c ((xs.map (clipAt lo hi clip c)).filter fun x => c < hi x) b := by
  induction xs generalizing a with
  | nil =>
    have hab : a = b := h
    have hc : c = b := by omega
    simpa using hc
  | cons x xs ih =>
    obtain ⟨hx,hlt,ht⟩ := h
    by_cases hxc : c < hi x
    · have hfix : xs.map (clipAt lo hi clip c) = xs := by
        rw [List.map_congr_left (g := id) fun y hy => ?_,List.map_id]
        have := ht.mem_bounds hy
        exact clipAt_of_le (by omega)
      have hkeep : xs.filter (fun y => c < hi y) = xs := by
        refine List.filter_eq_self.mpr fun y hy => ?_
        have := ht.mem_bounds hy
        simp only [decide_eq_true_eq]
        omega
      have hhead : lo (clipAt lo hi clip c x) = c ∧ hi (clipAt lo hi clip c x) = hi x := by
        by_cases hcx : lo x < c
        · simpa [clipAt,hcx,hxc] using hclip x (by simp) hcx hxc
        · rw [clipAt_of_le (by omega)]
          omega
      rw [List.map_cons,hfix,List.filter_cons_of_pos (by simpa [hhead.2] using hxc),hkeep]
      refine ⟨hhead.1,by omega,?_⟩
      rw [hhead.2]
      exact ht
    · have hgone : clipAt lo hi clip c x = x := if_neg (by omega)
      rw [List.map_cons,hgone,List.filter_cons_of_neg (by simpa using hxc)]
      exact ih ht (by omega) fun y hy => hclip y (by simp [hy])

theorem eq_of_mem {p : ℕ} (h : Tiles lo hi a xs b) {x y : α} (hx : x ∈ xs) (hy : y ∈ xs)
    (hxp : lo x ≤ p ∧ p < hi x) (hyp : lo y ≤ p ∧ p < hi y) : x = y := by
  induction xs generalizing a with
  | nil => cases hx
  | cons z zs ih =>
    obtain ⟨_,_,ht⟩ := h
    rcases List.mem_cons.mp hx with rfl | hx'
    · rcases List.mem_cons.mp hy with rfl | hy'
      · rfl
      · have := ht.mem_bounds hy'
        omega
    · rcases List.mem_cons.mp hy with rfl | hy'
      · have := ht.mem_bounds hx'
        omega
      · exact ih ht hx' hy'

/-- The items that begin before `q` tile a range that reaches `q`. -/
theorem before {q : ℕ} (h : Tiles lo hi a xs b) (hqb : q ≤ b) :
    ∃ d, q ≤ d ∧ Tiles lo hi a (xs.filter fun x => lo x < q) d := by
  induction xs generalizing a with
  | nil => exact ⟨b,hqb,h⟩
  | cons x xs ih =>
    obtain ⟨hx,hlt,ht⟩ := h
    obtain ⟨d,hd,hxs⟩ := ih ht
    by_cases hxq : lo x < q
    · rw [List.filter_cons_of_pos (by simpa using hxq)]
      exact ⟨d,hd,hx,hlt,hxs⟩
    · have hnone : xs.filter (fun y => lo y < q) = [] := by
        refine List.filter_eq_nil_iff.mpr fun y hy => ?_
        have := ht.mem_bounds hy
        simp only [decide_eq_true_eq]
        omega
      rw [List.filter_cons_of_neg (by simpa using hxq),hnone]
      exact ⟨a,by omega,rfl⟩

/-- The items that end above `q` tile what is left from an item that reaches it. -/
theorem after {q : ℕ} (h : Tiles lo hi a xs b) (haq : a ≤ q) :
    ∃ d, a ≤ d ∧ d ≤ q ∧ Tiles lo hi d (xs.filter fun x => q < hi x) b := by
  induction xs generalizing a with
  | nil => exact ⟨a,le_rfl,haq,h⟩
  | cons x xs ih =>
    obtain ⟨hx,hlt,ht⟩ := h
    by_cases hxq : q < hi x
    · have hkeep : xs.filter (fun y => q < hi y) = xs := by
        refine List.filter_eq_self.mpr fun y hy => ?_
        have := ht.mem_bounds hy
        simp only [decide_eq_true_eq]
        omega
      rw [List.filter_cons_of_pos (by simpa using hxq),hkeep]
      exact ⟨a,le_rfl,haq,hx,hlt,ht⟩
    · obtain ⟨d,had,hdq,hd⟩ := ih ht (by omega)
      rw [List.filter_cons_of_neg (by simpa using hxq)]
      exact ⟨d,by omega,hdq,hd⟩

/-- The items that meet `[p,q)` tile a range around it. -/
theorem window {p q : ℕ} (h : Tiles lo hi a xs b) (hap : a ≤ p) (hpq : p < q) (hqb : q ≤ b) :
    ∃ c d, c ≤ p ∧ q ≤ d ∧ Tiles lo hi c (xs.filter fun x => p < hi x ∧ lo x < q) d := by
  induction xs generalizing a with
  | nil =>
    have hab : a = b := h
    omega
  | cons x xs ih =>
    obtain ⟨hx,hlt,ht⟩ := h
    by_cases hp : p < hi x
    · obtain ⟨d,hd,hxs⟩ := ht.before hqb
      have hrest : xs.filter (fun y => p < hi y ∧ lo y < q) = xs.filter fun y => lo y < q := by
        refine List.filter_congr fun y hy => ?_
        have := ht.mem_bounds hy
        simp only [decide_eq_decide,and_iff_right_iff_imp]
        omega
      rw [List.filter_cons_of_pos (by simp; omega),hrest]
      exact ⟨a,d,hap,hd,hx,hlt,hxs⟩
    · rw [List.filter_cons_of_neg (by simp; omega)]
      exact ih ht (by omega)

end Tiles

/-- The values of `f` on `[a,b)`. -/
def slice (f : ℕ → α) (a b : ℕ) : List α := (List.range' a (b-a)).map f

section Slice

variable {f : ℕ → α}

@[simp] theorem length_slice (a b : ℕ) : (slice f a b).length = b-a := by
  simp [slice]

theorem slice_of_le (h : b ≤ a) : slice f a b = [] := by
  simp [slice,Nat.sub_eq_zero_of_le h]

@[simp] theorem slice_self (a : ℕ) : slice f a a = [] := slice_of_le le_rfl

theorem slice_append {c : ℕ} (hab : a ≤ b) (hbc : b ≤ c) :
    slice f a b ++ slice f b c = slice f a c := by
  have hmid : b = a+(b-a) := by omega
  have hlen : c-a = b-a+(c-b) := by omega
  unfold slice
  rw [← List.map_append,hlen]
  nth_rewrite 2 [hmid]
  rw [List.range'_append_1]

theorem slice_congr {g : ℕ → α} (h : ∀ p, a ≤ p → p < b → f p = g p) :
    slice f a b = slice g a b := by
  unfold slice
  apply List.map_congr_left
  intro p hp
  have hrange := List.mem_range'_1.mp hp
  exact h p hrange.1 (by omega)

/-- A list is the slice of its own elements, counted from where it begins. -/
theorem slice_getD (xs : List α) (d : α) (a : ℕ) :
    slice (fun p => xs.getD (p-a) d) a (a+xs.length) = xs := by
  apply List.ext_getElem
  · simp
  · intro i hi hi'
    simp [slice,List.getD_eq_getElem?_getD,hi']

theorem drop_slice (a b k : ℕ) : (slice f a b).drop k = slice f (a+k) b := by
  unfold slice
  rw [← List.map_drop,List.drop_range']
  congr 2
  · omega
  · omega

theorem take_slice {k : ℕ} (h : a+k ≤ b) : (slice f a b).take k = slice f a (a+k) := by
  unfold slice
  rw [← List.map_take,List.take_range'_of_length_ge (by omega),Nat.add_sub_cancel_left]

/-- Items that tile a range and hold its values read back as the whole range. -/
theorem Tiles.flatMap_slice {data : β → List α} {lo hi : β → ℕ} {xs : List β}
    (h : Tiles lo hi a xs b) (hdata : ∀ x ∈ xs, data x = slice f (lo x) (hi x)) :
    xs.flatMap data = slice f a b := by
  induction xs generalizing a with
  | nil => rw [tiles_nil.mp h,slice_self,List.flatMap_nil]
  | cons x xs ih =>
    obtain ⟨hx,hlt,ht⟩ := h
    rw [List.flatMap_cons,hdata x (by simp),ih ht fun y hy => hdata y (by simp [hy]),
      slice_append hlt.le ht.le,hx]

end Slice
end Tiling
end Ctxmux
