import Ctxmux.BatchStaged

/-!
# The pieces of a transaction

A transaction that is over budget is divided into two that recut it, neither of them larger,
until what is left is one Run with at most a byte. The number of transactions is bounded by
the units of the batch.
-/

namespace Ctxmux
namespace Durable

open Tiling

variable {id : RunId} {replay : OutputReplay} {batch front tail : Entries}

/-- The units of a batch: its bytes, and one for an entry without any. -/
def Entries.units (batch : Entries) : ℕ := (batch.map fun item => max 1 (replayPayload item.2)).sum

theorem Entries.units_append (xs ys : Entries) : units (xs ++ ys) = xs.units+ys.units := by
  simp [units]

theorem Entries.payload_append (xs ys : Entries) : payload (xs ++ ys) = xs.payload+ys.payload := by
  simp [payload]

@[simp] theorem Entries.payload_single (id : RunId) (replay : OutputReplay) :
    payload [(id,replay)] = replayPayload replay := by
  simp [payload]

@[simp] theorem Entries.units_single (id : RunId) (replay : OutputReplay) :
    units [(id,replay)] = max 1 (replayPayload replay) := by
  simp [units]

theorem Entries.units_pos (h : batch ≠ []) : 0 < batch.units := by
  cases batch with
  | nil => exact absurd rfl h
  | cons item batch =>
    simp only [units,List.map_cons,List.sum_cons]
    omega

/-- Two replays that divide the chunks of one between them. -/
theorem pieces_chunks {xs ys : List OutputChunk} (hchunks : replay.chunks = xs ++ ys)
    (latest : ℕ) : Pieces [{ replay with chunks := xs, latestOutputBytes := latest },
      { replay with chunks := ys }] replay where
  rendered piece hpiece := by
    rcases List.mem_cons.mp hpiece with rfl | hpiece
    · rfl
    · rw [List.mem_singleton.mp hpiece]
  tiles first last ht _ := by
    rw [hchunks] at ht
    simpa using ht
  data stream hall chunk hc := by
    rw [hchunks] at hall
    exact (hall chunk (by simpa using hc)).2
  truncated := rfl

theorem pieces_bytes {chunk : OutputChunk} (hchunks : replay.chunks = [chunk])
    {half : ℕ} (hpos : 0 < half) (hlt : half < chunk.data.length) (latest : ℕ) :
    Pieces [{ replay with
        chunks := [⟨chunk.startByte,chunk.startByte+half,chunk.data.take half⟩]
        latestOutputBytes := latest },
      { replay with
        chunks := [⟨chunk.startByte+half,chunk.endByte,chunk.data.drop half⟩] }] replay where
  rendered piece hpiece := by
    rcases List.mem_cons.mp hpiece with rfl | hpiece
    · rfl
    · rw [List.mem_singleton.mp hpiece]
  tiles first last ht hlength := by
    rw [hchunks] at ht hlength
    obtain ⟨hstart,hle,hend⟩ := ht
    have hsize := hlength chunk (by simp)
    refine ⟨hstart,?_,rfl,?_,hend⟩
    · simp only
      omega
    · simp only
      omega
  data stream hall c hc := by
    rw [hchunks] at hall
    obtain ⟨hle,hdata⟩ := hall chunk (by simp)
    have hsize : chunk.data.length = chunk.endByte-chunk.startByte := by rw [hdata,length_slice]
    have hcases : c = ⟨chunk.startByte,chunk.startByte+half,chunk.data.take half⟩ ∨
        c = ⟨chunk.startByte+half,chunk.endByte,chunk.data.drop half⟩ := by
      simpa using hc
    rcases hcases with rfl | rfl
    · simp only
      rw [hdata,take_slice (by omega)]
    · simp only
      rw [hdata,drop_slice]
  truncated := rfl

/-- What the division of a batch is. -/
structure Divided (batch front tail : Entries) : Prop where
  recut : Recut (front ++ tail) batch
  front_ne : front ≠ []
  tail_ne : tail ≠ []
  payload : front.payload+tail.payload = batch.payload
  units : (∀ item ∈ batch, ∀ chunk ∈ item.2.chunks, chunk.data ≠ []) →
    front.units+tail.units = batch.units

theorem payload_pos {chunks : List OutputChunk} (hne : chunks ≠ [])
    (hfilled : ∀ chunk ∈ chunks, chunk.data ≠ []) : 0 < (chunks.map (·.data.length)).sum := by
  cases chunks with
  | nil => exact absurd rfl hne
  | cons chunk chunks =>
    have := List.length_pos_iff.mpr (hfilled chunk (by simp))
    simp only [List.map_cons,List.sum_cons]
    omega

theorem reducedOutput_divided (h : reducedOutput batch = .ok (front,tail)) :
    Divided batch front tail := by
  cases reducedOutput_halved h with
  | entries many =>
    have hwhole := List.take_append_drop (batch.length/2) batch
    refine ⟨?_,?_,?_,?_,fun _ => ?_⟩
    · rw [hwhole]
      exact Recut.refl batch
    · exact List.length_pos_iff.mp (by rw [List.length_take]; omega)
    · exact List.length_pos_iff.mp (by rw [List.length_drop]; omega)
    · rw [← Entries.payload_append,hwhole]
    · rw [← Entries.units_append,hwhole]
  | @chunks id replay many =>
    have hwhole := List.take_append_drop (replay.chunks.length/2) replay.chunks
    have hfront : replay.chunks.take (replay.chunks.length/2) ≠ [] :=
      List.length_pos_iff.mp (by rw [List.length_take]; omega)
    have htail : replay.chunks.drop (replay.chunks.length/2) ≠ [] :=
      List.length_pos_iff.mp (by rw [List.length_drop]; omega)
    have hpayload : ((replay.chunks.take (replay.chunks.length/2)).map (·.data.length)).sum+
        ((replay.chunks.drop (replay.chunks.length/2)).map (·.data.length)).sum =
        (replay.chunks.map (·.data.length)).sum := by
      rw [← List.sum_append,← List.map_append,hwhole]
    refine ⟨(pieces_chunks hwhole.symm _).recut id,by simp,by simp,by
      simp [replayPayload],fun hfilled => ?_⟩
    have h₁ := payload_pos hfront fun c hc => hfilled (id,replay) (by simp) c
      (List.mem_of_mem_take hc)
    have h₂ := payload_pos htail fun c hc => hfilled (id,replay) (by simp) c
      (List.mem_of_mem_drop hc)
    simp only [Entries.units_single,replayPayload]
    omega
  | @bytes id replay chunk only long =>
    refine ⟨(pieces_bytes only (by omega) (by omega) _).recut id,by simp,by simp,?_,fun _ => ?_⟩
    · simp only [Entries.payload_single,replayPayload,only,List.map_cons,List.map_nil,List.sum_cons,
        List.sum_nil,List.length_take,List.length_drop]
      omega
    · simp only [Entries.units_single,replayPayload,only,List.map_cons,List.map_nil,List.sum_cons,
        List.sum_nil,List.length_take,List.length_drop]
      omega

/-- What is not divided is one entry with at most a byte. -/
theorem reducedOutput_error {error : PersistenceError} (h : reducedOutput batch = .error error)
    (hne : batch ≠ []) : ∃ id replay, batch = [(id,replay)] ∧ replayPayload replay ≤ 1 := by
  unfold reducedOutput at h
  split at h
  · cases h
  · rename_i hlength
    split at h
    · exact absurd rfl hne
    · rename_i id replay rest
      obtain rfl := eq_nil_of_length hlength
      refine ⟨id,replay,rfl,?_⟩
      dsimp only at h
      split at h
      · cases h
      · rename_i hchunks
        split at h
        · cases h
        · rename_i hnone
          unfold replayPayload
          cases hlist : replay.chunks with
          | nil => simp
          | cons chunk more =>
            rw [hlist] at hchunks
            obtain rfl := eq_nil_of_length hchunks
            rw [hlist,List.head?_cons] at hnone
            simpa using Option.filter_eq_none_iff.mp hnone chunk rfl

end Durable
end Ctxmux
