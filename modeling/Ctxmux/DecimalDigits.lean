import Mathlib.Tactic

/-!
# Strings of decimal digits

The number that a string of digits spells, and how it changes when digits are appended,
cut off or trimmed.
-/

namespace Ctxmux
namespace Decimal

def digit (c : Char) : ℕ := c.toNat - '0'.toNat

def IsDigits (cs : List Char) : Prop := ∀ c ∈ cs, c.isDigit = true

instance (cs : List Char) : Decidable (IsDigits cs) :=
  decidable_of_iff (cs.all (·.isDigit) = true) List.all_eq_true

def spelled (cs : List Char) : ℕ := cs.foldl (fun n c => 10*n+digit c) 0

theorem digit_lt {c : Char} (h : c.isDigit = true) : digit c < 10 := by
  simp only [Char.isDigit,Bool.and_eq_true,decide_eq_true_eq] at h
  unfold digit
  have hle : c.toNat ≤ 57 := h.2
  have hzero : '0'.toNat = 48 := rfl
  omega

theorem digit_eq_zero {c : Char} (h : c.isDigit = true) : digit c = 0 ↔ c = '0' := by
  constructor
  · intro hd
    simp only [Char.isDigit,Bool.and_eq_true,decide_eq_true_eq] at h
    have hge : 48 ≤ c.toNat := h.1
    have hzero : '0'.toNat = 48 := rfl
    unfold digit at hd
    have heq : c.toNat = '0'.toNat := by omega
    exact Char.toNat_inj.mp heq
  · rintro rfl
    rfl

theorem foldl_spelled (cs : List Char) (n : ℕ) :
    cs.foldl (fun n c => 10*n+digit c) n = n*10^cs.length+spelled cs := by
  induction cs generalizing n with
  | nil => simp [spelled]
  | cons c cs ih =>
    rw [spelled,List.foldl_cons,List.foldl_cons,ih,ih,List.length_cons,pow_succ]
    ring

theorem spelled_append (xs ys : List Char) :
    spelled (xs ++ ys) = spelled xs*10^ys.length+spelled ys := by
  rw [spelled,List.foldl_append,foldl_spelled]
  rfl

theorem spelled_cons (c : Char) (cs : List Char) :
    spelled (c::cs) = digit c*10^cs.length+spelled cs := by
  rw [spelled,List.foldl_cons,foldl_spelled]
  simp

theorem spelled_lt {cs : List Char} (h : IsDigits cs) : spelled cs < 10^cs.length := by
  induction cs with
  | nil => simp [spelled]
  | cons c cs ih =>
    have hc := digit_lt (h c List.mem_cons_self)
    have hcs := ih fun x hx => h x (List.mem_cons_of_mem _ hx)
    rw [spelled_cons,List.length_cons,pow_succ]
    nlinarith [Nat.zero_le (spelled cs)]

theorem spelled_zero_iff {cs : List Char} (h : IsDigits cs) :
    spelled cs = 0 ↔ ∀ c ∈ cs, c = '0' := by
  induction cs with
  | nil => simp [spelled]
  | cons c cs ih =>
    have hcs := ih fun x hx => h x (List.mem_cons_of_mem _ hx)
    have hc := digit_eq_zero (h c List.mem_cons_self)
    rw [spelled_cons,List.forall_mem_cons,← hcs,← hc]
    have hpos : 0 < 10^cs.length := Nat.pow_pos (by decide)
    constructor
    · intro hsum
      obtain ⟨hmul,hrest⟩ := Nat.add_eq_zero_iff.mp hsum
      exact ⟨(Nat.mul_eq_zero.mp hmul).resolve_right hpos.ne',hrest⟩
    · rintro ⟨hdigit,hrest⟩
      rw [hdigit,hrest,Nat.zero_mul]

@[simp] theorem spelled_zeros (n : ℕ) : spelled (List.replicate n '0') = 0 := by
  apply (spelled_zero_iff _).mpr
  · exact fun c hc => List.eq_of_mem_replicate hc
  · intro c hc
    rw [List.eq_of_mem_replicate hc]
    rfl

/-- Without its leading zeros a digit string spells the same number. -/
def trimZeros (cs : List Char) : List Char := cs.dropWhile (· = '0')

@[simp] theorem spelled_trimZeros (cs : List Char) : spelled (trimZeros cs) = spelled cs := by
  induction cs with
  | nil => rfl
  | cons c cs ih =>
    unfold trimZeros at ih ⊢
    rw [List.dropWhile_cons]
    split
    · next hc =>
      rw [ih,spelled_cons,of_decide_eq_true hc]
      show spelled cs = 0*10^cs.length+spelled cs
      omega
    · rfl

theorem trimZeros_digits {cs : List Char} (h : IsDigits cs) : IsDigits (trimZeros cs) :=
  fun c hc => h c ((List.dropWhile_sublist _).subset hc)

theorem trimZeros_head {cs rest : List Char} {c : Char} (h : trimZeros cs = c::rest) :
    c ≠ '0' := by
  induction cs with
  | nil => cases h
  | cons d cs ih =>
    unfold trimZeros at h ih
    rw [List.dropWhile_cons] at h
    split at h
    · exact ih h
    · next hd =>
      cases h
      simpa using hd

/-- A trimmed string has as many digits as its number needs. -/
theorem le_spelled_trimZeros {cs : List Char} (h : IsDigits cs) (hpos : 0 < spelled cs) :
    0 < (trimZeros cs).length ∧ 10^((trimZeros cs).length-1) ≤ spelled cs := by
  rw [← spelled_trimZeros cs]
  have hdigits := trimZeros_digits h
  cases ht : trimZeros cs with
  | nil =>
    rw [← spelled_trimZeros cs,ht] at hpos
    exact absurd hpos (by decide)
  | cons c rest =>
    have hne : c ≠ '0' := trimZeros_head ht
    rw [ht] at hdigits
    have hc : 0 < digit c := by
      rw [Nat.pos_iff_ne_zero]
      exact fun hz => hne ((digit_eq_zero (hdigits c List.mem_cons_self)).mp hz)
    refine ⟨Nat.succ_pos _,?_⟩
    rw [spelled_cons,List.length_cons,Nat.add_sub_cancel]
    exact (Nat.le_mul_of_pos_left _ hc).trans (Nat.le_add_right _ _)

end Decimal
end Ctxmux
