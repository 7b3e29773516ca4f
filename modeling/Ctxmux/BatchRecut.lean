import Ctxmux.PresentedAppend

/-!
# Batches that say the same

A batch presents, of every Run, the chunks of its entries one after the other. Another batch
that presents the same ranges with the same bytes, cut in any way and in any number of
entries, extends every Run alike: coalescing, grouping and dividing all recut a batch.
-/

namespace Ctxmux
namespace Durable

open Tiling

variable {limits : OutputLimits} {streams : RunId → ℕ → Byte} {s s' : Store} {row : RunRow}

namespace Entries

/-- The replays of one Run, in their order. -/
def replaysOf (batch : Entries) (id : RunId) : List OutputReplay :=
  (batch.filter (·.1 = id)).map (·.2)

def chunksOf (batch : Entries) (id : RunId) : List OutputChunk :=
  (batch.replaysOf id).flatMap (·.chunks)

/-- The flag that the last replay of the Run carries. -/
def truncatedOf (batch : Entries) (id : RunId) : Option Bool :=
  ((batch.replaysOf id).getLast?).map (·.truncated)

/-- A Run's row after the appends of the batch. -/
def extend (limit : ℕ) (batch : Entries) (row : RunRow) : RunRow :=
  (batch.replaysOf row.id).foldl (RunRow.extend limit) row

theorem replaysOf_append (xs ys : Entries) (id : RunId) :
    replaysOf (xs ++ ys) id = xs.replaysOf id ++ ys.replaysOf id := by
  simp [replaysOf]

theorem chunksOf_append (xs ys : Entries) (id : RunId) :
    chunksOf (xs ++ ys) id = xs.chunksOf id ++ ys.chunksOf id := by
  simp [chunksOf,replaysOf_append]

theorem truncatedOf_append (xs ys : Entries) (id : RunId) :
    truncatedOf (xs ++ ys) id = (ys.truncatedOf id).or (xs.truncatedOf id) := by
  simp only [truncatedOf,replaysOf_append,List.getLast?_append]
  cases (ys.replaysOf id).getLast? <;> rfl

theorem replaysOf_cons (item : RunId × OutputReplay) (batch : Entries) (id : RunId) :
    replaysOf (item::batch) id =
      if item.1 = id then item.2::batch.replaysOf id else batch.replaysOf id := by
  by_cases heq : item.1 = id <;> simp [replaysOf,heq]

theorem chunksOf_cons (item : RunId × OutputReplay) (batch : Entries) (id : RunId) :
    chunksOf (item::batch) id = (if item.1 = id then item.2.chunks else []) ++ batch.chunksOf id := by
  unfold chunksOf
  rw [replaysOf_cons]
  split <;> simp

theorem truncatedOf_cons (item : RunId × OutputReplay) (batch : Entries) (id : RunId) :
    truncatedOf (item::batch) id =
      (batch.truncatedOf id).or (if item.1 = id then some item.2.truncated else none) := by
  have hone : truncatedOf [item] id = if item.1 = id then some item.2.truncated else none := by
    by_cases heq : item.1 = id <;> simp [truncatedOf,replaysOf,heq]
  rw [← hone,← truncatedOf_append,List.singleton_append]

theorem truncatedOf_eq_none {batch : Entries} {id : RunId} :
    batch.truncatedOf id = none ↔ ∀ item ∈ batch, item.1 ≠ id := by
  simp [truncatedOf,replaysOf]

@[simp] theorem extend_id (limit : ℕ) (batch : Entries) (row : RunRow) :
    (batch.extend limit row).id = row.id := by
  have hfold : ∀ (replays : List OutputReplay) (r : RunRow),
      (replays.foldl (RunRow.extend limit) r).id = r.id := by
    intro replays
    induction replays with
    | nil => exact fun _ => rfl
    | cons replay replays ih => exact fun r => ih (r.extend limit replay)
  exact hfold _ row

theorem extend_append (limit : ℕ) (xs ys : Entries) (row : RunRow) :
    extend limit (xs ++ ys) row = ys.extend limit (xs.extend limit row) := by
  have hid := extend_id limit xs row
  unfold extend at hid ⊢
  rw [replaysOf_append,List.foldl_append,hid]

theorem extend_single (limit : ℕ) (id : RunId) (replay : OutputReplay) (row : RunRow) :
    extend limit [(id,replay)] row = if row.id = id then row.extend limit replay else row := by
  unfold extend
  rw [replaysOf_cons]
  by_cases heq : id = row.id
  · simp [heq,replaysOf]
  · simp [heq,Ne.symm heq,replaysOf]

end Entries

theorem foldl_extend (limit : ℕ) (row : RunRow) (replays : List OutputReplay) (last : OutputReplay) :
    (replays ++ [last]).foldl (RunRow.extend limit) row =
      row.extend limit { last with chunks := (replays ++ [last]).flatMap (·.chunks) } := by
  induction replays using List.reverseRecOn generalizing last with
  | nil => simp
  | append_singleton replays replay ih =>
    rw [List.foldl_append,ih,List.foldl_cons,List.foldl_nil,RunRow.extend_extend]
    simp

/-- Only where the chunks end and the flag of the last replay count. -/
theorem RunRow.extend_congr {limit : ℕ} {row : RunRow} {a b : OutputReplay}
    (hreach : reach row.durableOutputBytes a.chunks = reach row.durableOutputBytes b.chunks)
    (htruncated : a.truncated = b.truncated) : row.extend limit a = row.extend limit b := by
  unfold extend
  rw [hreach,htruncated]

section

variable (limit : ℕ) (batch : Entries) (row : RunRow)

/-- The appends of a batch extend a row as one replay of all its chunks. -/
theorem Entries.extend_eq :
    batch.extend limit row = match batch.truncatedOf row.id with
      | none => row
      | some truncated => row.extend limit ⟨batch.chunksOf row.id,0,0,truncated⟩ := by
  unfold extend truncatedOf chunksOf
  rcases List.eq_nil_or_concat (batch.replaysOf row.id) with hnil | ⟨replays,last,hlast⟩
  · rw [hnil]
    rfl
  · rw [hlast,List.concat_eq_append,foldl_extend]
    rw [List.getLast?_concat]
    exact RunRow.extend_congr rfl rfl

theorem Entries.extend_head :
    (batch.extend limit row).durableOutputBytes =
      reach row.durableOutputBytes (batch.chunksOf row.id) := by
  rw [extend_eq]
  cases h : batch.truncatedOf row.id with
  | none =>
    have hnone : batch.replaysOf row.id = [] := by
      simpa [truncatedOf] using h
    simp [chunksOf,hnone,reach]
  | some truncated => rfl

theorem Entries.extend_floor :
    row.durableFirstAvailableByte ≤ (batch.extend limit row).durableFirstAvailableByte ∧
      (batch.extend limit row).durableFirstAvailableByte ≤ max row.durableFirstAvailableByte
        ((batch.extend limit row).durableOutputBytes-limit) := by
  rw [extend_eq]
  cases batch.truncatedOf row.id with
  | none => exact ⟨le_rfl,le_max_left _ _⟩
  | some truncated => exact ⟨le_max_left _ _,le_rfl⟩

theorem Entries.extend_frame :
    batch.extend limit row = { row with
      durableFirstAvailableByte := (batch.extend limit row).durableFirstAvailableByte
      durableOutputBytes := (batch.extend limit row).durableOutputBytes
      replayBytes := (batch.extend limit row).replayBytes
      replayTruncated := (batch.extend limit row).replayTruncated } := by
  rw [extend_eq]
  cases batch.truncatedOf row.id <;> rfl

theorem Entries.extend_stateKind :
    (batch.extend limit row).stateKind = row.stateKind := by
  rw [extend_frame]

end

/-- The bytes that the batch adds to the Run. -/
def Entries.fresh (batch : Entries) (row : RunRow) : ℕ :=
  reach row.durableOutputBytes (batch.chunksOf row.id)-row.durableOutputBytes

/-- The bytes that the batch adds to the payload file. -/
def Entries.growth (batch : Entries) (runs : List RunRow) : ℕ := (runs.map batch.fresh).sum

theorem Entries.fresh_append (limit : ℕ) (xs ys : Entries) (row : RunRow) :
    fresh (xs ++ ys) row = xs.fresh row+ys.fresh (xs.extend limit row) := by
  have h₁ := le_reach row.durableOutputBytes (xs.chunksOf row.id)
  have h₂ := le_reach (reach row.durableOutputBytes (xs.chunksOf row.id)) (ys.chunksOf row.id)
  unfold fresh
  rw [chunksOf_append,reach_append,extend_head,extend_id]
  omega

theorem Entries.growth_append (limit : ℕ) (xs ys : Entries) (runs : List RunRow) :
    growth (xs ++ ys) runs = xs.growth runs+ys.growth (runs.map (xs.extend limit)) := by
  unfold growth
  rw [List.map_map,← List.sum_map_add]
  exact congrArg List.sum (List.map_congr_left fun row _ => fresh_append limit xs ys row)

/-- Every Run's part of `b` is its part of `a`, cut anew. -/
structure Recut (b a : Entries) : Prop where
  rendered : (∀ item ∈ a, item.2.firstAvailableByte = 0) → ∀ item ∈ b, item.2.firstAvailableByte = 0
  tiles : ∀ id first last,
    Tiles OutputChunk.startByte OutputChunk.endByte first (a.chunksOf id) last →
      (∀ chunk ∈ a.chunksOf id, chunk.data.length = chunk.endByte-chunk.startByte) →
      Tiles OutputChunk.startByte OutputChunk.endByte first (b.chunksOf id) last
  data : ∀ id stream, (∀ chunk ∈ a.chunksOf id,
      chunk.startByte < chunk.endByte ∧ chunk.data = slice stream chunk.startByte chunk.endByte) →
    ∀ chunk ∈ b.chunksOf id, chunk.data = slice stream chunk.startByte chunk.endByte
  truncated : ∀ id, b.truncatedOf id = a.truncatedOf id

namespace Recut

theorem refl (a : Entries) : Recut a a :=
  ⟨fun h => h,fun _ _ _ h _ => h,fun _ _ h chunk hc => (h chunk hc).2,fun _ => rfl⟩

theorem append {a b a' b' : Entries} (h : Recut b a) (h' : Recut b' a') :
    Recut (b ++ b') (a ++ a') where
  rendered hall item hitem := by
    rcases List.mem_append.mp hitem with hitem | hitem
    · exact h.rendered (fun x hx => hall x (List.mem_append_left _ hx)) item hitem
    · exact h'.rendered (fun x hx => hall x (List.mem_append_right _ hx)) item hitem
  tiles id first last ht hlength := by
    rw [Entries.chunksOf_append] at ht hlength ⊢
    obtain ⟨m,hfront,htail⟩ := Tiles.append.mp ht
    exact Tiles.append.mpr
      ⟨m,h.tiles id first m hfront fun c hc => hlength c (List.mem_append_left _ hc),
        h'.tiles id m last htail fun c hc => hlength c (List.mem_append_right _ hc)⟩
  data id stream hall chunk hc := by
    rw [Entries.chunksOf_append] at hall hc
    rcases List.mem_append.mp hc with hc | hc
    · exact h.data id stream (fun c hc => hall c (List.mem_append_left _ hc)) chunk hc
    · exact h'.data id stream (fun c hc => hall c (List.mem_append_right _ hc)) chunk hc
  truncated id := by
    rw [Entries.truncatedOf_append,Entries.truncatedOf_append,h.truncated,h'.truncated]

end Recut

/-- An entry cut into replays of the same Run. -/
structure Pieces (pieces : List OutputReplay) (replay : OutputReplay) : Prop where
  rendered : ∀ piece ∈ pieces, piece.firstAvailableByte = replay.firstAvailableByte
  tiles : ∀ first last, Tiles OutputChunk.startByte OutputChunk.endByte first replay.chunks last →
    (∀ chunk ∈ replay.chunks, chunk.data.length = chunk.endByte-chunk.startByte) →
    Tiles OutputChunk.startByte OutputChunk.endByte first (pieces.flatMap (·.chunks)) last
  data : ∀ stream : ℕ → Byte, (∀ chunk ∈ replay.chunks,
      chunk.startByte < chunk.endByte ∧ chunk.data = slice stream chunk.startByte chunk.endByte) →
    ∀ chunk ∈ pieces.flatMap (·.chunks), chunk.data = slice stream chunk.startByte chunk.endByte
  truncated : (pieces.getLast?).map (·.truncated) = some replay.truncated

namespace Entries

theorem replaysOf_pieces (id : RunId) (pieces : List OutputReplay) (other : RunId) :
    replaysOf (pieces.map (id,·)) other = if id = other then pieces else [] := by
  by_cases heq : id = other <;> simp [replaysOf,heq,List.filter_map,Function.comp_def]

theorem chunksOf_pieces (id : RunId) (pieces : List OutputReplay) (other : RunId) :
    chunksOf (pieces.map (id,·)) other = if id = other then pieces.flatMap (·.chunks) else [] := by
  unfold chunksOf
  rw [replaysOf_pieces]
  split <;> rfl

theorem chunksOf_single (id : RunId) (replay : OutputReplay) (other : RunId) :
    chunksOf [(id,replay)] other = if id = other then replay.chunks else [] := by
  rw [chunksOf_cons]
  simp [chunksOf,replaysOf]

theorem truncatedOf_pieces (id : RunId) (pieces : List OutputReplay) (other : RunId) :
    truncatedOf (pieces.map (id,·)) other =
      if id = other then (pieces.getLast?).map (·.truncated) else none := by
  unfold truncatedOf
  rw [replaysOf_pieces]
  split <;> rfl

theorem truncatedOf_single (id : RunId) (replay : OutputReplay) (other : RunId) :
    truncatedOf [(id,replay)] other = if id = other then some replay.truncated else none := by
  rw [truncatedOf_cons]
  simp [truncatedOf,replaysOf]

end Entries

theorem Pieces.recut {pieces : List OutputReplay} {replay : OutputReplay} (h : Pieces pieces replay)
    (id : RunId) : Recut (pieces.map (id,·)) [(id,replay)] where
  rendered hall item hitem := by
    obtain ⟨piece,hpiece,rfl⟩ := List.mem_map.mp hitem
    exact (h.rendered piece hpiece).trans (hall (id,replay) (by simp))
  tiles other first last ht hlength := by
    rw [Entries.chunksOf_single] at ht hlength
    rw [Entries.chunksOf_pieces]
    split_ifs at ht hlength ⊢
    · exact h.tiles first last ht hlength
    · exact ht
  data other stream hall chunk hc := by
    rw [Entries.chunksOf_single] at hall
    rw [Entries.chunksOf_pieces] at hc
    split_ifs at hall hc
    · exact h.data stream hall chunk hc
    · cases hc
  truncated other := by
    rw [Entries.truncatedOf_pieces,Entries.truncatedOf_single,h.truncated]

end Durable
end Ctxmux
