import Mathlib.Data.Finset.Card
import Mathlib.Logic.Relation

/-!
# Searching a graph with one growing list

The list of what has been found is also the queue: a cursor walks it, and the successors of
the node under the cursor that are kept and not found yet are added at its end.
-/

namespace Ctxmux
namespace Worklist

variable {α : Type*} [DecidableEq α]

/-- What stands in `xs` and has not been seen, each once. -/
def unseen (seen : List α) : List α → List α
  | [] => []
  | x::xs => if x ∈ seen then unseen seen xs else x::unseen (seen ++ [x]) xs

@[simp] theorem mem_unseen {seen xs : List α} {a : α} : a ∈ unseen seen xs ↔ a ∈ xs ∧ a ∉ seen := by
  induction xs generalizing seen with
  | nil => simp [unseen]
  | cons x xs ih =>
    by_cases hx : x ∈ seen
    · simp only [unseen,if_pos hx,ih,List.mem_cons]
      constructor
      · rintro ⟨ha,hseen⟩
        exact ⟨.inr ha,hseen⟩
      · rintro ⟨rfl | ha,hseen⟩
        · exact absurd hx hseen
        · exact ⟨ha,hseen⟩
    · simp only [unseen,if_neg hx,List.mem_cons,ih,List.mem_append,List.not_mem_nil,or_false]
      by_cases hax : a = x
      · simp [hax,hx]
      · simp [hax]

theorem unseen_nodup (seen xs : List α) : (unseen seen xs).Nodup := by
  induction xs generalizing seen with
  | nil => exact List.nodup_nil
  | cons x xs ih =>
    by_cases hx : x ∈ seen
    · simpa only [unseen,if_pos hx] using ih seen
    · simp [unseen,if_neg hx,ih]

theorem append_unseen_nodup {seen : List α} (h : seen.Nodup) (xs : List α) :
    (seen ++ unseen seen xs).Nodup := by
  rw [List.nodup_append]
  refine ⟨h,unseen_nodup seen xs,fun a ha b hb => ?_⟩
  rintro rfl
  exact (mem_unseen.mp hb).2 ha

/-- A graph in which only some nodes count, and only finitely many. -/
structure Graph (α : Type*) where
  next : α → List α
  keep : α → Bool
  nodes : List α
  kept : ∀ a, keep a = true → a ∈ nodes

namespace Graph

variable (g : Graph α)

def fresh (found xs : List α) : List α := unseen found (xs.filter g.keep)

theorem mem_fresh {found xs : List α} {a : α} :
    a ∈ g.fresh found xs ↔ (a ∈ xs ∧ g.keep a = true) ∧ a ∉ found := by
  simp [fresh]

/-- How many nodes are still to be found. -/
def left (found : List α) : ℕ := (g.nodes.toFinset \ found.toFinset).card

theorem left_lt {found more : List α} (h : ∃ a ∈ more, a ∈ g.nodes ∧ a ∉ found) :
    g.left (found ++ more) < g.left found := by
  obtain ⟨a,hmore,hnode,hfound⟩ := h
  apply Finset.card_lt_card
  rw [Finset.ssubset_iff_of_subset]
  · exact ⟨a,by simp [hnode,hfound],by simp [hmore]⟩
  · intro b hb
    simp only [Finset.mem_sdiff,List.mem_toFinset,List.mem_append,not_or] at hb ⊢
    exact ⟨hb.1,hb.2.1⟩

/-- The search: `done` lies before the cursor, `todo` from it on; `frontier` is looked at
together with the first node. -/
def search (frontier done todo : List α) : List α :=
  match todo with
  | [] => done
  | a::todo =>
    search [] (done ++ [a]) (todo ++ g.fresh (done ++ a::todo) (frontier ++ g.next a))
termination_by (g.left (done ++ todo),todo.length)
decreasing_by
  cases hfresh : g.fresh (done ++ a::todo) (frontier ++ g.next a) with
  | nil =>
    rw [List.append_nil,List.append_assoc,List.singleton_append]
    exact Prod.Lex.right _ (Nat.lt_succ_self _)
  | cons b more =>
    apply Prod.Lex.left
    have hb : b ∈ g.fresh (done ++ a::todo) (frontier ++ g.next a) := by simp [hfresh]
    obtain ⟨⟨-,hkeep⟩,hnew⟩ := g.mem_fresh.mp hb
    have hlt : g.left ((done ++ a::todo) ++ b::more) < g.left (done ++ a::todo) :=
      g.left_lt ⟨b,by simp,g.kept b hkeep,hnew⟩
    simpa [List.append_assoc] using hlt

/-- One step along an edge to a node that counts. -/
def Edge (a b : α) : Prop := b ∈ g.next a ∧ g.keep b = true

def Reach (a b : α) : Prop := Relation.ReflTransGen g.Edge a b

theorem search_nodup (frontier done todo : List α) (h : (done ++ todo).Nodup) :
    (g.search frontier done todo).Nodup := by
  fun_induction g.search frontier done todo with
  | case1 frontier done => simpa using h
  | case2 frontier done a todo ih =>
    apply ih
    simpa [fresh] using append_unseen_nodup h ((frontier ++ g.next a).filter g.keep)

theorem found_subset_search (frontier done todo : List α) :
    done ++ todo ⊆ g.search frontier done todo := by
  fun_induction g.search frontier done todo with
  | case1 frontier done => simp
  | case2 frontier done a todo ih =>
    intro b hb
    apply ih
    simp only [List.mem_append,List.mem_cons,List.not_mem_nil,or_false] at hb ⊢
    tauto

theorem search_closed (frontier done todo : List α)
    (h : ∀ a ∈ done, ∀ b, g.Edge a b → b ∈ done ++ todo) :
    ∀ a ∈ g.search frontier done todo, ∀ b, g.Edge a b → b ∈ g.search frontier done todo := by
  fun_induction g.search frontier done todo with
  | case1 frontier done => simpa using h
  | case2 frontier done a todo ih =>
    apply ih
    intro c hc b hedge
    by_cases hfound : b ∈ done ++ a::todo
    · simp only [List.mem_append,List.mem_cons,List.not_mem_nil,or_false] at hfound ⊢
      tauto
    · rcases List.mem_append.mp hc with hdone | hlast
      · exact absurd (h c hdone b hedge) hfound
      · obtain rfl : c = a := by simpa using hlast
        have hfresh : b ∈ g.fresh (done ++ c::todo) (frontier ++ g.next c) :=
          g.mem_fresh.mpr ⟨⟨by simp [hedge.1],hedge.2⟩,hfound⟩
        simp [hfresh]

/-- Everything the search returns was there or is reached from where it began. -/
theorem search_sound (frontier done todo : List α) {p : α}
    (hp : p ∈ g.search frontier done todo) :
    p ∈ done ∨ ∃ s, (s ∈ todo ∨ s ∈ frontier ∧ g.keep s = true) ∧ g.Reach s p := by
  fun_induction g.search frontier done todo with
  | case1 frontier done => exact .inl hp
  | case2 frontier done a todo ih =>
    rcases ih hp with hdone | ⟨s,hs | ⟨hs,-⟩,hreach⟩
    · rcases List.mem_append.mp hdone with hdone | hlast
      · exact .inl hdone
      · obtain rfl : p = a := by simpa using hlast
        exact .inr ⟨p,.inl (by simp),.refl⟩
    · rcases List.mem_append.mp hs with htodo | hfresh
      · exact .inr ⟨s,.inl (by simp [htodo]),hreach⟩
      · obtain ⟨⟨hnext,hkeep⟩,-⟩ := g.mem_fresh.mp hfresh
        rcases List.mem_append.mp hnext with hfrontier | hnext
        · exact .inr ⟨s,.inr ⟨hfrontier,hkeep⟩,hreach⟩
        · exact .inr ⟨a,.inl (by simp),.head ⟨hnext,hkeep⟩ hreach⟩
    · exact absurd hs List.not_mem_nil

/-- A search from one node finds what is reached from it and from the frontier. -/
theorem mem_search {frontier : List α} {a p : α} :
    p ∈ g.search frontier [] [a] ↔
      ∃ s, (s = a ∨ s ∈ frontier ∧ g.keep s = true) ∧ g.Reach s p := by
  constructor
  · intro hp
    rcases g.search_sound frontier [] [a] hp with hnil | ⟨s,hs,hreach⟩
    · exact absurd hnil List.not_mem_nil
    · exact ⟨s,hs.imp_left List.mem_singleton.mp,hreach⟩
  · rintro ⟨s,hs,hreach⟩
    have hstart : s ∈ g.search frontier [] [a] := by
      rcases hs with rfl | ⟨hfrontier,hkeep⟩
      · exact g.found_subset_search frontier [] [s] (by simp)
      · by_cases hsa : s = a
        · subst hsa
          exact g.found_subset_search frontier [] [s] (by simp)
        · have hfresh : s ∈ g.fresh [a] (frontier ++ g.next a) :=
            g.mem_fresh.mpr ⟨⟨by simp [hfrontier],hkeep⟩,by simp [hsa]⟩
          rw [search]
          exact g.found_subset_search _ _ _ (by simp [hfresh])
    have hclosed := g.search_closed frontier [] [a] fun b hb => absurd hb List.not_mem_nil
    induction hreach with
    | refl => exact hstart
    | tail _ hedge ih => exact hclosed _ ih _ hedge

end Graph

end Worklist
end Ctxmux
