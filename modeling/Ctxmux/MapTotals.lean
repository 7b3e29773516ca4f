import Mathlib.Data.List.AList
import Mathlib.Tactic

/-!
# Totals over finite maps

The sum of a measure over the values of a finite map, and how it follows the
insertion and the removal of one key. The number of entries is the total of the
constant measure.
-/

namespace Ctxmux
namespace MapTotals

variable {κ β : Type} [DecidableEq κ]

def total (f : β → ℕ) (m : AList fun _ : κ => β) : ℕ := (m.entries.map fun e => f e.2).sum

variable {f : β → ℕ} {m : AList fun _ : κ => β} {k : κ} {v : β}

omit [DecidableEq κ] in
@[simp] theorem total_empty (f : β → ℕ) : total f (∅ : AList fun _ : κ => β) = 0 := rfl

omit [DecidableEq κ] in
theorem entries_length (m : AList fun _ : κ => β) : m.entries.length = total (fun _ => 1) m := by
  unfold total
  induction m.entries with
  | nil => rfl
  | cons e es ih =>
    rw [List.length_cons,List.map_cons,List.sum_cons,ih]
    exact Nat.add_comm _ _

theorem sum_kerase {es : List (Sigma fun _ : κ => β)} (h : es.dlookup k = some v) :
    ((es.kerase k).map fun e => f e.2).sum+f v = (es.map fun e => f e.2).sum := by
  induction es with
  | nil => cases h
  | cons e es ih =>
    obtain ⟨k',v'⟩ := e
    by_cases hk : k = k'
    · subst hk
      rw [List.dlookup_cons_eq] at h
      cases h
      have hfront : List.kerase k (⟨k,v⟩::es) = es := List.kerase_cons_eq rfl
      rw [hfront,List.map_cons,List.sum_cons]
      exact Nat.add_comm _ _
    · rw [List.dlookup_cons_ne _ _ hk] at h
      have hback : List.kerase k (⟨k',v'⟩::es) = ⟨k',v'⟩::es.kerase k := List.kerase_cons_ne hk
      rw [hback,List.map_cons,List.map_cons,List.sum_cons,List.sum_cons]
      have := ih h
      omega

theorem total_erase (f : β → ℕ) (h : m.lookup k = some v) :
    total f (m.erase k)+f v = total f m := sum_kerase h

theorem le_total (f : β → ℕ) (h : m.lookup k = some v) : f v ≤ total f m := by
  have := total_erase f h
  omega

theorem total_insert (f : β → ℕ) (m : AList fun _ : κ => β) (k : κ) (v : β) :
    total f (m.insert k v) = f v+total f (m.erase k) := by
  show ((List.kinsert k v m.entries).map fun e => f e.2).sum = _
  rw [List.kinsert_def,List.map_cons,List.sum_cons]
  rfl

theorem total_insert_new (f : β → ℕ) (h : m.lookup k = none) (v : β) :
    total f (m.insert k v) = total f m+f v := by
  have hmem : k ∉ m.keys := AList.lookup_eq_none.mp h
  have herase : total f (m.erase k) = total f m := by
    show ((m.entries.kerase k).map fun e => f e.2).sum = _
    rw [List.kerase_of_notMem_keys hmem]
    rfl
  rw [total_insert,herase]
  omega

theorem total_insert_same (f : β → ℕ) (h : m.lookup k = some v) (v' : β) (hf : f v' = f v) :
    total f (m.insert k v') = total f m := by
  have := total_erase f h
  rw [total_insert,hf]
  omega

/-- The measure of the value under a key, if there is one. -/
def measureAt (f : β → ℕ) (m : AList fun _ : κ => β) (k : κ) : ℕ := (m.lookup k).elim 0 f

theorem total_eq_sum_keys (f : β → ℕ) (m : AList fun _ : κ => β) :
    total f m = (m.keys.map (measureAt f m)).sum := by
  simp only [total,AList.keys,List.keys,List.map_map]
  congr 1
  apply List.map_congr_left
  intro entry hentry
  have hlookup : m.lookup entry.1 = some entry.2 := AList.mem_lookup_iff.mpr hentry
  simp only [Function.comp_apply,measureAt,hlookup,Option.elim_some]

theorem sum_measureAt_le (f : β → ℕ) {ks : List κ} (h : ks.Nodup) :
    (ks.map (measureAt f m)).sum ≤ total f m := by
  induction ks generalizing m with
  | nil => exact Nat.zero_le _
  | cons k ks ih =>
    obtain ⟨hnot,hks⟩ := List.nodup_cons.mp h
    rw [List.map_cons,List.sum_cons]
    cases hk : m.lookup k with
    | none =>
      simp only [measureAt,hk,Option.elim_none,Nat.zero_add]
      exact ih hks
    | some v =>
      have hsame : ks.map (measureAt f (m.erase k)) = ks.map (measureAt f m) := by
        refine List.map_congr_left fun k' hk' => ?_
        have hne : k' ≠ k := fun heq => hnot (heq ▸ hk')
        simp only [measureAt,AList.lookup_erase_ne hne]
      have hrest := ih (m := m.erase k) hks
      have herase := total_erase f hk
      rw [hsame] at hrest
      simp only [measureAt,hk,Option.elim_some] at hrest ⊢
      omega

/-- The total depends only on the measures of the values. -/
theorem total_congr {f g : β → ℕ} {m m' : AList fun _ : κ => β}
    (h : ∀ k, (m'.lookup k).map g = (m.lookup k).map f) : total g m' = total f m := by
  have hkeys : m'.keys.Perm m.keys := by
    rw [List.perm_ext_iff_of_nodup m'.keys_nodup m.keys_nodup]
    intro k
    have hk := congrArg Option.isSome (h k)
    rw [Option.isSome_map,Option.isSome_map] at hk
    rw [← AList.mem_keys,← AList.mem_keys,← AList.lookup_isSome,← AList.lookup_isSome,hk]
  have hmeasure : measureAt g m' = measureAt f m := by
    funext k
    have hk := congrArg (Option.elim · 0 id) (h k)
    simpa only [measureAt,Option.elim_map,Function.id_comp] using hk
  rw [total_eq_sum_keys,total_eq_sum_keys,hmeasure]
  exact (hkeys.map _).sum_eq

end MapTotals
end Ctxmux
