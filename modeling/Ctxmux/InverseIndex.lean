import Mathlib.Data.List.AList
import Mathlib.Tactic

/-!
# Inverse indexes

A table gives each owner at most one key, and an index leads from a key back to its
owner. The two are inverse when each can be read off the other; the rules say which
changes to the index keep up with a change to the table.
-/

namespace Ctxmux
namespace InverseIndex

variable {ι κ : Type} [DecidableEq ι] [DecidableEq κ]

def Inverse (index : AList fun _ : κ => ι) (keyOf : ι → Option κ) : Prop :=
  ∀ key owner, index.lookup key = some owner ↔ keyOf owner = some key

variable {index : AList fun _ : κ => ι} {keyOf : ι → Option κ} {key : κ} {owner : ι}

omit [DecidableEq ι] in
theorem inverse_empty : Inverse (∅ : AList fun _ : κ => ι) fun _ => none := fun key owner => by
  simp

namespace Inverse

omit [DecidableEq ι] in
theorem lookup (h : Inverse index keyOf) (hkey : keyOf owner = some key) :
    index.lookup key = some owner := (h key owner).mpr hkey

theorem erase (h : Inverse index keyOf) (hkey : keyOf owner = some key) :
    Inverse (index.erase key) (Function.update keyOf owner none) := by
  intro k i
  by_cases hi : i = owner
  · subst hi
    rw [Function.update_self]
    constructor
    · intro hk
      by_cases heq : k = key
      · rw [heq,AList.lookup_erase] at hk
        cases hk
      · rw [AList.lookup_erase_ne heq,h k i,hkey] at hk
        exact absurd (Option.some.inj hk).symm heq
    · intro hk
      cases hk
  · rw [Function.update_of_ne hi,← h k i]
    by_cases heq : k = key
    · rw [heq,AList.lookup_erase,h.lookup hkey]
      simp [Ne.symm hi]
    · rw [AList.lookup_erase_ne heq]

theorem forget (h : Inverse index keyOf) (hkey : keyOf owner = none) :
    Inverse index (Function.update keyOf owner none) := by
  rwa [← hkey,Function.update_eq_self]

theorem leave (h : Inverse index keyOf) (owner : ι) :
    Inverse ((keyOf owner).elim index fun key => index.erase key)
      (Function.update keyOf owner none) := by
  cases hkey : keyOf owner with
  | none => exact h.forget hkey
  | some key => exact h.erase hkey

theorem insert (h : Inverse index keyOf) (hkey : keyOf owner = none)
    (hfree : index.lookup key = none) :
    Inverse (index.insert key owner) (Function.update keyOf owner (some key)) := by
  intro k i
  by_cases heq : k = key
  · subst heq
    rw [AList.lookup_insert]
    by_cases hi : i = owner
    · subst hi
      simp
    · rw [Function.update_of_ne hi,← h k i,hfree]
      simp [Ne.symm hi]
  · rw [AList.lookup_insert_ne heq,h k i]
    by_cases hi : i = owner
    · subst hi
      rw [Function.update_self,hkey]
      simp [Ne.symm heq]
    · rw [Function.update_of_ne hi]

end Inverse
end InverseIndex
end Ctxmux
