import Mathlib.Data.List.Basic
import Mathlib.Tactic.Common

/-!
# A queue in an array with a head index

Entries before the head are cleared and stay in the array until they are at least half of
it; then they are cut off. The queue is the list of the entries behind the head.
-/

namespace Ctxmux

/-- An array whose entries before the head are cleared and whose others are not. -/
structure ArrayQueue (α : Type) where
  slots : List (Option α)
  head : ℕ
  layout : ∃ queue : List α, slots = List.replicate head none ++ queue.map some

namespace ArrayQueue

variable {α : Type} {rest : List α}

def empty : ArrayQueue α := ⟨[],0,[],rfl⟩

def toList (q : ArrayQueue α) : List α := (q.slots.drop q.head).filterMap id

theorem slots_eq (q : ArrayQueue α) :
    q.slots = List.replicate q.head none ++ q.toList.map some := by
  obtain ⟨queue,hqueue⟩ := q.layout
  have hlist : q.toList = queue := by
    unfold toList
    rw [hqueue]
    simp
  rw [hlist]
  exact hqueue

variable {q : ArrayQueue α}

theorem toList_of_slots {queue : List α}
    (h : q.slots = List.replicate q.head none ++ queue.map some) : q.toList = queue := by
  unfold toList
  rw [h]
  simp

@[simp] theorem toList_empty : (empty : ArrayQueue α).toList = [] := rfl

def isEmpty (q : ArrayQueue α) : Bool := decide (q.head = q.slots.length)

theorem isEmpty_iff (q : ArrayQueue α) : q.isEmpty = true ↔ q.toList = [] := by
  have hslots := congrArg List.length q.slots_eq
  simp only [List.length_append,List.length_replicate,List.length_map] at hslots
  unfold isEmpty
  rw [decide_eq_true_eq,← List.length_eq_zero_iff]
  omega

def push (q : ArrayQueue α) (x : α) : ArrayQueue α where
  slots := q.slots ++ [some x]
  head := q.head
  layout := ⟨q.toList ++ [x],by rw [q.slots_eq]; simp⟩

@[simp] theorem toList_push (q : ArrayQueue α) (x : α) : (q.push x).toList = q.toList ++ [x] := by
  apply toList_of_slots
  change q.slots ++ [some x] = _
  conv_lhs => rw [q.slots_eq]
  simp [push]

/-- The cleared entries are cut off once they are at least half of the array. -/
def compact (slots : List (Option α)) (head : ℕ) : List (Option α)×ℕ :=
  if slots.length-head ≤ head then (slots.drop head,0) else (slots,head)

theorem set_head {head : ℕ} {x : α} :
    (List.replicate head none ++ (x::rest).map some).set head none =
      List.replicate (head+1) none ++ rest.map some := by
  rw [List.set_append_right _ _ (by simp),List.replicate_succ',List.append_assoc]
  simp

theorem compact_layout {slots : List (Option α)} {head : ℕ}
    (h : slots = List.replicate head none ++ rest.map some) :
    (compact slots head).1 = List.replicate (compact slots head).2 none ++ rest.map some := by
  unfold compact
  split
  · rw [h]
    simp
  · exact h

/-- Clear the entry at the head and go on to the next one. -/
def advance (q : ArrayQueue α) (x : α) (rest : List α) (h : q.toList = x::rest) : ArrayQueue α where
  slots := (compact (q.slots.set q.head none) (q.head+1)).1
  head := (compact (q.slots.set q.head none) (q.head+1)).2
  layout := ⟨rest,compact_layout (by conv_lhs => rw [q.slots_eq,h,set_head])⟩

@[simp] theorem toList_advance (q : ArrayQueue α) {x : α} (h : q.toList = x::rest) :
    (q.advance x rest h).toList = rest :=
  toList_of_slots (compact_layout (by conv_lhs => rw [q.slots_eq,h,set_head]))

/-- The entry at the head and the queue behind it. -/
def shift? (q : ArrayQueue α) : Option (α×ArrayQueue α) :=
  match h : q.toList with
  | [] => none
  | x::rest => some (x,q.advance x rest h)

/-- What is shifted is the entry of the array at the head. -/
theorem shift?_eq_slots (q : ArrayQueue α) : q.shift?.map Prod.fst = q.slots[q.head]?.join := by
  have hslots : q.slots[q.head]?.join = q.toList.head? := by
    rw [q.slots_eq,List.getElem?_append_right (by simp)]
    simp only [List.length_replicate,Nat.sub_self]
    cases q.toList <;> rfl
  rw [hslots]
  unfold shift?
  split
  · rename_i hnil
    rw [hnil]
    rfl
  · rename_i hcons
    exact (congrArg List.head? hcons).symm

theorem shift?_nil (h : q.toList = []) : q.shift? = none := by
  unfold shift?
  split
  · rfl
  · rename_i hcons
    rw [h] at hcons
    cases hcons

theorem shift?_cons {x : α} (h : q.toList = x::rest) :
    ∃ q', q.shift? = some (x,q') ∧ q'.toList = rest := by
  unfold shift?
  split
  · rename_i hnil
    rw [h] at hnil
    cases hnil
  · rename_i y ys hcons
    have hequal := h.symm.trans hcons
    cases hequal
    exact ⟨_,rfl,toList_advance q hcons⟩

end ArrayQueue
end Ctxmux
