import Mathlib.Tactic

/-!
# Code units of a text

The sixteen-bit code units of a text of characters. A text is known from its units: a
character beyond the basic plane begins with a unit that no other character begins with.
-/

namespace Ctxmux
namespace CodeUnits

abbrev CodeUnit := UInt16

def unitsOf (c : Char) : List CodeUnit :=
  if c.toNat < 0x10000 then [UInt16.ofNat c.toNat]
  else [UInt16.ofNat (0xD800+(c.toNat-0x10000)/1024),UInt16.ofNat (0xDC00+(c.toNat-0x10000)%1024)]

def encode (text : List Char) : List CodeUnit := text.flatMap unitsOf

@[simp] theorem encode_nil : encode [] = [] := rfl

theorem encode_cons (c : Char) (text : List Char) : encode (c::text) = unitsOf c ++ encode text :=
  List.flatMap_cons

theorem toNat_ranges (c : Char) : c.toNat < 0xD800 ∨ 0xE000 ≤ c.toNat ∧ c.toNat < 0x110000 := by
  have hvalid : c.toNat < 0xD800 ∨ 0xDFFF < c.toNat ∧ c.toNat < 0x110000 := c.valid
  omega

theorem ofNat_inj {a b : ℕ} (ha : a < 0x10000) (hb : b < 0x10000) :
    UInt16.ofNat a = UInt16.ofNat b ↔ a = b := by
  constructor
  · intro h
    have hnat := congrArg UInt16.toNat h
    rw [UInt16.toNat_ofNat',UInt16.toNat_ofNat'] at hnat
    omega
  · rintro rfl
    rfl

/-- The first character of a text is known from its units, and so is the rest. -/
theorem unitsOf_append {c d : Char} {xs ys : List CodeUnit}
    (h : unitsOf c ++ xs = unitsOf d ++ ys) : c = d ∧ xs = ys := by
  have hc := toNat_ranges c
  have hd := toNat_ranges d
  unfold unitsOf at h
  split at h <;> split at h
  · simp only [List.singleton_append,List.cons.injEq] at h
    have hsame := (ofNat_inj (by omega) (by omega)).mp h.1
    exact ⟨Char.toNat_inj.mp hsame,h.2⟩
  · simp only [List.cons_append,List.cons.injEq] at h
    have hsame := (ofNat_inj (by omega) (by omega)).mp h.1
    omega
  · simp only [List.cons_append,List.cons.injEq] at h
    have hsame := (ofNat_inj (by omega) (by omega)).mp h.1
    omega
  · simp only [List.cons_append,List.nil_append,List.cons.injEq] at h
    have hhigh := (ofNat_inj (by omega) (by omega)).mp h.1
    have hlow := (ofNat_inj (by omega) (by omega)).mp h.2.1
    have hsame : c.toNat = d.toNat := by omega
    exact ⟨Char.toNat_inj.mp hsame,h.2.2⟩

theorem encode_injective : Function.Injective encode := by
  intro xs
  induction xs with
  | nil =>
    intro ys h
    cases ys with
    | nil => rfl
    | cons d ys =>
      rw [encode_nil,encode_cons] at h
      unfold unitsOf at h
      split at h <;> simp at h
  | cons c xs ih =>
    intro ys h
    cases ys with
    | nil =>
      rw [encode_nil,encode_cons] at h
      unfold unitsOf at h
      split at h <;> simp at h
    | cons d ys =>
      rw [encode_cons,encode_cons] at h
      obtain ⟨rfl,hrest⟩ := unitsOf_append h
      rw [ih hrest]

end CodeUnits
end Ctxmux
