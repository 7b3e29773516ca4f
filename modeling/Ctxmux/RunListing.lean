import Ctxmux.PartialSelection
import Ctxmux.RegistryMachine
import Mathlib.Data.String.Basic
import Mathlib.Data.PNat.Defs

/-!
# Paged Run listing

One page of the registry, and the client that walks the pages. The registry keeps its Runs
in a hash map, so the order in which their ids are gathered is any order of its keys, and
between two pages it goes on as its owners like.
-/

namespace Ctxmux
namespace Registry

open Durable (RunId)
open Selection (UnstableSelection)

/-- Ids are ordered as their texts are. -/
instance : LinearOrder RunId :=
  LinearOrder.lift' RunId.text fun x y h => by
    cases x
    cases y
    exact congrArg RunId.mk h

/-- An iteration order of the hash map. -/
structure HashOrder where
  keys : Runs → List RunId
  perm : ∀ runs, (keys runs).Perm runs.keys

/-- The Runs in the order of their insertion. -/
def HashOrder.inserted : HashOrder := ⟨fun runs => runs.keys,fun runs => .refl runs.keys⟩

structure RunSummary where
  id : RunId
  deriving DecidableEq, Repr

def passes (after : Option RunId) (id : RunId) : Bool := after.all fun cursor => cursor < id

namespace RegistryState

variable (s : RegistryState)

def listSummariesAfter (order : HashOrder) (selection : UnstableSelection RunId)
    (after : Option RunId) (limit : ℕ) : List RunSummary × Bool :=
  let ids := (order.keys s.runs).filter (passes after)
  let lookahead := limit+1
  let ids := if lookahead < ids.length then (selection.select limit ids).take lookahead else ids
  let ids := Selection.sorted ids
  let hasMore := decide (limit < ids.length)
  let ids := ids.take limit
  (ids.filterMap fun id => (s.runs.lookup id).map fun _ => ⟨id⟩,hasMore)

/-- The page and the cursor to continue from. -/
def list (order : HashOrder) (selection : UnstableSelection RunId) (after : Option RunId)
    (limit : ℕ) : List RunSummary × Option RunId :=
  let (runs,hasMore) := s.listSummariesAfter order selection after limit
  (runs,if hasMore then runs.getLast?.map (·.id) else none)

/-- The ids above the cursor, in order. -/
def remaining (after : Option RunId) : List RunId :=
  Selection.sorted (s.runs.keys.filter (passes after))

variable {s}

theorem mem_remaining {after : Option RunId} {id : RunId} :
    id ∈ s.remaining after ↔ id ∈ s.runs ∧ passes after id = true := by
  simp [remaining,AList.mem_keys]

theorem remaining_strict (after : Option RunId) : (s.remaining after).Pairwise (· < ·) := by
  apply Selection.sorted_strict
  exact s.runs.keys_nodup.filter _

theorem gathered_eq (order : HashOrder) (selection : UnstableSelection RunId)
    (after : Option RunId) (limit : ℕ) :
    let ids := (order.keys s.runs).filter (passes after)
    (if limit+1 < ids.length then Selection.sorted ((selection.select limit ids).take (limit+1))
      else Selection.sorted ids) = (s.remaining after).take (limit+1) := by
  intro ids
  have hsorted : Selection.sorted ids = s.remaining after :=
    Selection.sorted_congr ((order.perm s.runs).filter _)
  split
  · next hmany =>
    rw [selection.sorted_take (by omega),hsorted]
  · next hfew =>
    rw [hsorted,List.take_of_length_le]
    rw [← hsorted,Selection.length_sorted]
    omega

theorem rows_eq {ids : List RunId} (h : ∀ id ∈ ids, id ∈ s.runs) :
    ids.filterMap (fun id => (s.runs.lookup id).map fun _ => RunSummary.mk id) =
      ids.map RunSummary.mk := by
  induction ids with
  | nil => rfl
  | cons id ids ih =>
    obtain ⟨entry,hentry⟩ := Option.isSome_iff_exists.mp
      (AList.lookup_isSome.mpr (h id List.mem_cons_self))
    rw [List.filterMap_cons,hentry,ih fun other hother => h other (List.mem_cons_of_mem _ hother)]
    rfl

/-- A page is the front of the sorted ids above the cursor, with more exactly if it does
not reach their end. -/
theorem listSummariesAfter_eq (order : HashOrder) (selection : UnstableSelection RunId)
    (after : Option RunId) (limit : ℕ) :
    s.listSummariesAfter order selection after limit =
      (((s.remaining after).take limit).map RunSummary.mk,
        decide (limit < (s.remaining after).length)) := by
  have hgathered := gathered_eq (s := s) order selection after limit
  unfold listSummariesAfter
  dsimp only at hgathered ⊢
  rw [apply_ite Selection.sorted,hgathered]
  rw [List.take_take,min_eq_left (Nat.le_succ limit),List.length_take]
  rw [rows_eq fun id hid => (mem_remaining.mp (List.mem_of_mem_take hid)).1]
  congr 1
  apply decide_eq_decide.mpr
  omega

end RegistryState
end Registry
end Ctxmux
