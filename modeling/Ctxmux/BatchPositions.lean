import Ctxmux.BatchGathered

/-!
# The positions of a batch

Every byte of a batch has its position in the stream of a Run, and the entries present these
positions in one order. Grouping and dividing keep the order, so what a call makes durable
before it stops is a front of it, across all Runs.
-/

namespace Ctxmux
namespace Durable

open Tiling

variable {id : RunId} {replay : OutputReplay} {batch done front tail xs ys : Entries}
  {chunks : List OutputChunk} {head first last : ℕ}

def positionsIn (chunks : List OutputChunk) : List ℕ :=
  chunks.flatMap fun chunk => List.range' chunk.startByte chunk.data.length

/-- The positions that the batch presents, in the order of its entries. -/
def Entries.positions (batch : Entries) : List (RunId × ℕ) :=
  batch.flatMap fun item => (positionsIn item.2.chunks).map (item.1,·)

theorem positionsIn_append (xs ys : List OutputChunk) :
    positionsIn (xs ++ ys) = positionsIn xs ++ positionsIn ys := by
  simp [positionsIn]

@[simp] theorem Entries.positions_nil : Entries.positions [] = [] := rfl

theorem Entries.positions_append (xs ys : Entries) :
    positions (xs ++ ys) = xs.positions ++ ys.positions := by
  simp [positions]

theorem Entries.positions_single (id : RunId) (replay : OutputReplay) :
    positions [(id,replay)] = (positionsIn replay.chunks).map (id,·) := by
  simp [positions]

theorem Entries.positions_pieces (id : RunId) (pieces : List OutputReplay) :
    positions (pieces.map (id,·)) = (positionsIn (pieces.flatMap (·.chunks))).map (id,·) := by
  induction pieces with
  | nil => rfl
  | cons piece pieces ih =>
    rw [List.map_cons,← List.singleton_append,positions_append,positions_single,ih,
      List.flatMap_cons,positionsIn_append,List.map_append]

theorem Entries.positions_of (batch : Entries) (id : RunId) :
    (batch.positions.filter (·.1 = id)).map (·.2) = positionsIn (batch.chunksOf id) := by
  induction batch with
  | nil => rfl
  | cons item batch ih =>
    rw [← List.singleton_append,positions_append,chunksOf_append,positionsIn_append,
      List.filter_append,List.map_append,ih,positions_single,chunksOf_single]
    by_cases heq : item.1 = id
    · simp [heq,List.filter_map,Function.comp_def]
    · simp [heq,List.filter_map,Function.comp_def,positionsIn]

theorem Entries.mem_positions {id : RunId} {p : ℕ} :
    (id,p) ∈ batch.positions ↔ p ∈ positionsIn (batch.chunksOf id) := by
  rw [← positions_of,List.mem_map]
  constructor
  · exact fun h => ⟨(id,p),List.mem_filter.mpr ⟨h,by simp⟩,rfl⟩
  · rintro ⟨⟨owner,q⟩,hmem,rfl⟩
    obtain ⟨hin,howner⟩ := List.mem_filter.mp hmem
    exact of_decide_eq_true howner ▸ hin

theorem mem_positionsIn {p : ℕ} : p ∈ positionsIn chunks ↔
    ∃ chunk ∈ chunks, chunk.startByte ≤ p ∧ p < chunk.startByte+chunk.data.length := by
  simp [positionsIn,List.mem_range'_1]

theorem positionsIn_tiles (ht : Tiles OutputChunk.startByte OutputChunk.endByte first chunks last)
    (hlength : ∀ chunk ∈ chunks, chunk.data.length = chunk.endByte-chunk.startByte) :
    positionsIn chunks = List.range' first (last-first) := by
  induction chunks generalizing first with
  | nil =>
    have hend : first = last := ht
    simp [positionsIn,hend]
  | cons chunk chunks ih =>
    obtain ⟨rfl,hlt,hrest⟩ := ht
    have hle := hrest.le
    have hsize := hlength chunk (by simp)
    rw [← List.singleton_append,positionsIn_append,ih hrest fun c hc => hlength c (by simp [hc]),
      show positionsIn [chunk] = List.range' chunk.startByte chunk.data.length by
        simp [positionsIn],hsize]
    have hstart : chunk.endByte = chunk.startByte+(chunk.endByte-chunk.startByte) := by omega
    calc List.range' chunk.startByte (chunk.endByte-chunk.startByte) ++
          List.range' chunk.endByte (last-chunk.endByte)
        = List.range' chunk.startByte (chunk.endByte-chunk.startByte) ++
          List.range' (chunk.startByte+(chunk.endByte-chunk.startByte))
            (last-chunk.endByte) := by rw [← hstart]
      _ = List.range' chunk.startByte (last-chunk.startByte) := by
        rw [List.range'_append_1]
        congr 1
        omega

theorem endByte_le_reach {chunk : OutputChunk} (head : ℕ) (h : chunk ∈ chunks) :
    chunk.endByte ≤ reach head chunks := by
  induction chunks generalizing head with
  | nil => cases h
  | cons c chunks ih =>
    rcases List.mem_cons.mp h with rfl | h
    · exact (le_max_right _ _).trans (le_reach _ chunks)
    · exact ih (max head c.endByte) h

theorem reach_le {bound : ℕ} (hhead : head ≤ bound)
    (h : ∀ chunk ∈ chunks, chunk.endByte ≤ bound) : reach head chunks ≤ bound := by
  induction chunks generalizing head with
  | nil => exact hhead
  | cons chunk chunks ih =>
    exact ih (max_le hhead (h chunk (by simp))) fun c hc => h c (by simp [hc])

theorem reducedOutput_positions (h : reducedOutput batch = .ok (front,tail)) :
    front.positions ++ tail.positions = batch.positions := by
  rw [← Entries.positions_append]
  cases reducedOutput_halved h with
  | entries many => rw [List.take_append_drop]
  | chunks many =>
    rw [Entries.positions_append,Entries.positions_single,Entries.positions_single,
      Entries.positions_single,← List.map_append,← positionsIn_append,List.take_append_drop]
  | @bytes id replay chunk only long =>
    have hhalves : List.range' chunk.startByte (chunk.data.length/2) ++
        List.range' (chunk.startByte+chunk.data.length/2)
          (chunk.data.length-chunk.data.length/2) =
        List.range' chunk.startByte chunk.data.length := by
      rw [List.range'_append_1]
      congr 1
      omega
    rw [Entries.positions_append,Entries.positions_single,Entries.positions_single,
      Entries.positions_single,← List.map_append,only]
    congr 1
    simp only [positionsIn,List.flatMap_cons,List.flatMap_nil,List.append_nil,
      List.length_take,List.length_drop]
    rw [Nat.min_eq_left (by omega),hhalves]

theorem piecesOf_positions (replay : OutputReplay) :
    positionsIn ((piecesOf replay).flatMap (·.chunks)) = positionsIn replay.chunks := by
  unfold piecesOf
  split
  · rename_i group groups hsplit
    rw [(partials_spec replay (group::groups)).1,(splitChunks_spec hsplit).1]
  · simp

theorem Entries.pieces_positions (batch : Entries) : batch.pieces.positions = batch.positions := by
  induction batch with
  | nil => rfl
  | cons item batch ih =>
    have hsplit : Entries.pieces (item::batch) =
        (piecesOf item.2).map (item.1,·) ++ Entries.pieces batch := by
      simp [pieces]
    rw [hsplit,positions_append,ih,positions_pieces,piecesOf_positions,← positions_single,
      ← positions_append,List.singleton_append]

/-- Chunks that are as long as their ranges say, and not empty. -/
def Entries.Shaped (batch : Entries) : Prop :=
  ∀ item ∈ batch, ∀ chunk ∈ item.2.chunks,
    chunk.startByte < chunk.endByte ∧ chunk.data.length = chunk.endByte-chunk.startByte

theorem Entries.Shaped.append (h : xs.Shaped) (h' : ys.Shaped) : (xs ++ ys : Entries).Shaped := by
  intro item hitem
  rcases List.mem_append.mp hitem with hitem | hitem
  · exact h item hitem
  · exact h' item hitem

theorem Entries.Shaped.chunksOf (h : batch.Shaped) (id : RunId) :
    ∀ chunk ∈ batch.chunksOf id,
      chunk.startByte < chunk.endByte ∧ chunk.data.length = chunk.endByte-chunk.startByte := by
  intro chunk hchunk
  obtain ⟨item,hitem,_,hin⟩ := Entries.mem_chunksOf.mp hchunk
  exact h item hitem chunk hin

/-- What a call has made durable of a batch: a front of its positions. -/
structure Front (done batch : Entries) : Prop where
  shaped : done.Shaped
  positions : done.positions <+: batch.positions

namespace Front

theorem nil (batch : Entries) : Front [] batch :=
  ⟨fun _ h => (by cases h),by simp⟩

theorem left (h : Front done xs) (ys : Entries) : Front done (xs ++ ys) := by
  refine ⟨h.shaped,?_⟩
  rw [Entries.positions_append]
  exact h.positions.trans (List.prefix_append _ _)

theorem right (hxs : xs.Shaped) (h : Front done ys) : Front (xs ++ done) (xs ++ ys) := by
  refine ⟨hxs.append h.shaped,?_⟩
  rw [Entries.positions_append,Entries.positions_append]
  exact (List.prefix_append_right_inj _).mpr h.positions

theorem congr (h : Front done xs) (hsame : xs.positions = batch.positions) : Front done batch :=
  ⟨h.shaped,hsame ▸ h.positions⟩

/-- Of every Run the durable positions come first, and those that are left begin where its
chunks end. -/
theorem of_run (h : Front done batch)
    (ht : Tiles OutputChunk.startByte OutputChunk.endByte first (batch.chunksOf id) last)
    (hlength : ∀ chunk ∈ batch.chunksOf id, chunk.data.length = chunk.endByte-chunk.startByte) :
    ∃ middle, first ≤ middle ∧ middle ≤ last ∧
      (∀ chunk ∈ done.chunksOf id, chunk.endByte ≤ middle) ∧
      ∀ rest, batch.positions = done.positions ++ rest → ∀ p, (id,p) ∈ rest → middle ≤ p := by
  obtain ⟨left,hleft⟩ := h.positions
  have hwhole := positionsIn_tiles ht hlength
  have hle := ht.le
  rw [← Entries.positions_of,← hleft,List.filter_append,List.map_append,
    Entries.positions_of] at hwhole
  obtain ⟨n,hn,hdone,hrest⟩ := List.range'_eq_append_iff.mp hwhole.symm
  refine ⟨first+n,by omega,by omega,?_,?_⟩
  · intro chunk hchunk
    obtain ⟨hlt,hsize⟩ := h.shaped.chunksOf id chunk hchunk
    have hlast : chunk.endByte-1 ∈ positionsIn (done.chunksOf id) :=
      mem_positionsIn.mpr ⟨chunk,hchunk,by omega,by omega⟩
    rw [hdone,List.mem_range'_1] at hlast
    omega
  · intro rest hsame p hp
    have hin : rest = left := List.append_cancel_left (hsame.symm.trans hleft.symm)
    have hmem : p ∈ (left.filter (·.1 = id)).map (·.2) :=
      List.mem_map.mpr ⟨(id,p),List.mem_filter.mpr ⟨hin ▸ hp,by simp⟩,rfl⟩
    rw [hrest,List.mem_range'_1] at hmem
    omega

end Front

end Durable
end Ctxmux
