import Ctxmux.JsonLines

/-!
# Lines of a byte stream

How the values of a stream follow its bytes: one complete line at the front, a stretch
that is already too long to become a line with a meaning, and the values that are still
to come when some decoded lines wait in front of the raw bytes.
-/

namespace Ctxmux
namespace Wire

open JsonLinesConnection (newline)

variable {α β : Type} {k : Codec α β} {bytes line : List UInt8}

theorem completeLines_cons (byte : UInt8) (bytes : List UInt8) :
    completeLines (byte::bytes) =
      if byte = newline then []::completeLines bytes
      else match completeLines bytes with
        | [] => []
        | line::lines => (byte::line)::lines := by
  unfold completeLines
  rw [splitLines]
  dsimp only
  split
  · rfl
  · split
    · next h => simp only [h]
    · next h => simp only [h]

theorem completeLines_line (h : newline ∉ line) (rest : List UInt8) :
    completeLines (line ++ newline::rest) = line::completeLines rest := by
  induction line with
  | nil => simp [completeLines_cons]
  | cons byte line ih =>
    rw [List.mem_cons,not_or] at h
    rw [List.cons_append,completeLines_cons,ih h.2,if_neg (Ne.symm h.1)]

/-- Without a newline, what follows can only lengthen the first line. -/
theorem completeLines_unfinished (h : newline ∉ bytes) (rest : List UInt8) :
    completeLines (bytes ++ rest) = match completeLines rest with
      | [] => []
      | line::lines => (bytes ++ line)::lines := by
  induction bytes with
  | nil =>
    rw [List.nil_append]
    cases completeLines rest with
    | nil => rfl
    | cons line lines => rfl
  | cons byte bytes ih =>
    rw [List.mem_cons,not_or] at h
    rw [List.cons_append,completeLines_cons,ih h.2,if_neg (Ne.symm h.1)]
    cases completeLines rest with
    | nil => rfl
    | cons line lines => rfl

theorem valuesOf_line (h : newline ∉ line) (rest : List UInt8) :
    valuesOf k (line ++ newline::rest) = match readLine k line with
      | none => []
      | some value => value::valuesOf k rest := by
  unfold valuesOf
  rw [completeLines_line h,readLines]
  all_goals cases readLine k line <;> rfl

/-- A stretch without a newline that is already too long carries nothing. -/
theorem valuesOf_oversized (h : newline ∉ bytes) (hlong : bytes.length > maxFrameBytes)
    (rest : List UInt8) :
    valuesOf k (bytes ++ rest) = [] := by
  unfold valuesOf
  rw [completeLines_unfinished h]
  cases completeLines rest with
  | nil => rfl
  | cons line lines =>
    have hline : readLine k (bytes ++ line) = none := by
      unfold readLine
      rw [if_pos]
      rw [List.length_append]
      omega
    rw [readLines,hline]

theorem valuesOf_unfinished (h : newline ∉ bytes) :
    valuesOf k bytes = [] := by
  have hlines := completeLines_unfinished h []
  rw [List.append_nil] at hlines
  unfold valuesOf
  rw [hlines]
  rfl

/-- The values to come when decoded lines wait in front of the raw bytes. -/
def valuesFrom (k : Codec α β) : List α → List UInt8 → List β
  | [], bytes => valuesOf k bytes
  | line::lines, bytes =>
    match k.parse line with
    | none => []
    | some value => value::valuesFrom k lines bytes

/-- Moving a line from the bytes to the decoded lines changes nothing. -/
theorem valuesFrom_decode (h : newline ∉ line) (hsize : line.length ≤ maxFrameBytes) {decoded : α}
    (hdecode : k.decode line = some decoded) (lines : List α) (rest : List UInt8) :
    valuesFrom k lines (line ++ newline::rest) = valuesFrom k (lines ++ [decoded]) rest := by
  induction lines with
  | nil =>
    show valuesOf k (line ++ newline::rest) = valuesFrom k [decoded] rest
    have hread : readLine k line = k.parse decoded := by
      unfold readLine
      rw [if_neg (by omega),hdecode]
      rfl
    rw [valuesOf_line h,hread]
    rfl
  | cons first lines ih =>
    rw [List.cons_append,valuesFrom,valuesFrom,ih]

theorem valuesFrom_of_none (h : valuesOf k bytes = []) (lines : List α) :
    valuesFrom k lines bytes = valuesFrom k lines [] := by
  induction lines with
  | nil => exact h
  | cons first lines ih => rw [valuesFrom,valuesFrom,ih]

theorem valuesFrom_of_bad {lines : List α} (h : ∃ line ∈ lines, k.parse line = none)
    (bytes : List UInt8) : valuesFrom k lines bytes = valuesFrom k lines [] := by
  induction lines with
  | nil =>
    obtain ⟨line,hmem,-⟩ := h
    cases hmem
  | cons first lines ih =>
    rw [valuesFrom,valuesFrom]
    cases hparse : k.parse first with
    | none => rfl
    | some value =>
      obtain ⟨line,hmem,hbad⟩ := h
      rcases List.mem_cons.mp hmem with rfl | hmem
      · rw [hparse] at hbad
        cases hbad
      · dsimp only
        rw [ih ⟨line,hmem,hbad⟩]

theorem findIdx?_newline {index : ℕ} (h : bytes.findIdx? (· == newline) = some index) :
    newline ∉ bytes.take index ∧ (bytes.take index).length = index ∧
      bytes = bytes.take index ++ newline::bytes.drop (index+1) := by
  obtain ⟨hlt,hat,hbefore⟩ := List.findIdx?_eq_some_iff_getElem.mp h
  have hat' : bytes[index] = newline := by simpa using hat
  refine ⟨?_,?_,?_⟩
  · intro hmem
    obtain ⟨i,hi,heq⟩ := List.mem_iff_getElem.mp hmem
    rw [List.length_take] at hi
    have := hbefore i (by omega)
    rw [List.getElem_take] at heq
    simp [heq] at this
  · rw [List.length_take]
    omega
  · rw [← hat',← List.drop_eq_getElem_cons hlt,List.take_append_drop]

theorem findIdx?_newline_none (h : bytes.findIdx? (· == newline) = none) : newline ∉ bytes := by
  rw [List.findIdx?_eq_none_iff] at h
  intro hmem
  have := h newline hmem
  simp at this

end Wire
end Ctxmux
