import Ctxmux.BatchAppend

/-!
# Appends that present a Run's log

What a Run's row becomes when a replay is appended that begins inside the window or at the
head, agrees with the stream and leaves no hole: the head moves to the end of the chunks,
the limit cuts the floor, and what is durable already is only verified. The effect of
several replays is that of their chunks in one.
-/

namespace Ctxmux
namespace Durable

open Tiling

variable {limits : OutputLimits} {streams : RunId → ℕ → Byte} {id : RunId} {w : String}
  {s s' : Store} {row : RunRow} {replay : OutputReplay} {limit : ℕ}

/-- A Run's row after a replay whose chunks leave no hole. -/
def RunRow.extend (limit : ℕ) (row : RunRow) (replay : OutputReplay) : RunRow :=
  { row with
    durableFirstAvailableByte :=
      max row.durableFirstAvailableByte (reach row.durableOutputBytes replay.chunks-limit)
    durableOutputBytes := reach row.durableOutputBytes replay.chunks
    replayBytes := reach row.durableOutputBytes replay.chunks-
      max row.durableFirstAvailableByte (reach row.durableOutputBytes replay.chunks-limit)
    replayTruncated := replay.truncated || decide
      (0 < max row.durableFirstAvailableByte (reach row.durableOutputBytes replay.chunks-limit)) }

theorem le_reach (head : ℕ) (chunks : List OutputChunk) : head ≤ reach head chunks := by
  induction chunks generalizing head with
  | nil => exact le_rfl
  | cons chunk chunks ih => exact (le_max_left _ _).trans (ih _)

theorem reach_tiles {a b head : ℕ} {chunks : List OutputChunk}
    (ht : Tiles OutputChunk.startByte OutputChunk.endByte a chunks b) (ha : a ≤ head) :
    reach head chunks = max head b := by
  induction chunks generalizing a head with
  | nil =>
    have hab : a = b := ht
    show head = max head b
    omega
  | cons chunk chunks ih =>
    obtain ⟨_,hlt,hrest⟩ := ht
    have hle := hrest.le
    show reach (max head chunk.endByte) chunks = max head b
    rw [ih hrest (le_max_right _ _)]
    omega

/-- Two replays one after the other extend the row as one replay of all their chunks. -/
theorem RunRow.extend_extend (limit : ℕ) (row : RunRow) (first second : OutputReplay) :
    (row.extend limit first).extend limit second =
      row.extend limit { second with chunks := first.chunks ++ second.chunks } := by
  have hreach := reach_append row.durableOutputBytes first.chunks second.chunks
  have hle := le_reach (reach row.durableOutputBytes first.chunks) second.chunks
  have hfloor : max (max row.durableFirstAvailableByte
      (reach row.durableOutputBytes first.chunks-limit))
      (reach (reach row.durableOutputBytes first.chunks) second.chunks-limit) =
      max row.durableFirstAvailableByte
        (reach (reach row.durableOutputBytes first.chunks) second.chunks-limit) := by
    omega
  unfold extend
  simp only [hreach,hfloor]

/-- Chunks that begin inside the window or at the head, also after the limit has cut it, and
tile a range of the stream. -/
structure Presents (limit : ℕ) (stream : ℕ → Byte) (row : RunRow) (chunks : List OutputChunk) :
    Prop where
  tiles : ∃ first last, Tiles OutputChunk.startByte OutputChunk.endByte first chunks last ∧
    max row.durableFirstAvailableByte (row.durableOutputBytes-limit) ≤ first ∧
    first ≤ row.durableOutputBytes ∧ last ≤ i64Max
  data : ∀ chunk ∈ chunks, chunk.data = slice stream chunk.startByte chunk.endByte

theorem pruneRunReplayTo_exact {db db' : Database} {oldest head bytes oldest' bytes' : ℕ}
    {evicted : Bool} (hle : oldest ≤ head) (hb : bytes = head-oldest)
    (h : pruneRunReplayTo db id oldest bytes limit = .ok (db',oldest',bytes',evicted)) :
    oldest' = max oldest (head-limit) ∧ bytes' = head-max oldest (head-limit) := by
  unfold pruneRunReplayTo at h
  split at h
  · obtain ⟨_,rfl,rfl,_⟩ : db = db' ∧ oldest = oldest' ∧ bytes = bytes' ∧ false = evicted := by
      simpa using h
    constructor <;> omega
  · simp only at h
    split_ifs at h
    obtain ⟨_,rfl,rfl,_⟩ : db.cutFront id (oldest+(bytes-limit)) = db' ∧
        oldest+(bytes-limit) = oldest' ∧ bytes-(bytes-limit) = bytes' ∧ true = evicted := by
      simpa using h
    constructor <;> omega

/-- Every accepted append without a gap extends the row of its Run and leaves the others. -/
theorem append_extends {evicted : Bool} (hs : Sound s.db s.files)
    (hw : ∀ r ∈ s.db.runs, Window s.db r) (hname : validReplayFileName w = true)
    (hfirst : replay.firstAvailableByte = 0)
    (h : appendReplayWithStorage s w id replay limit = .ok (s',evicted)) :
    s'.db.runs = s.db.runs.map fun r => if r.id = id then r.extend limit replay else r := by
  obtain ⟨row,c₁,c₂,db,oldest,bytes,hrow,hfold,hflush,hprune,rfl⟩ := appendReplayWithStorage_eq_ok h
  obtain ⟨hmem,hid⟩ := Database.run?_mem hrow
  have hpacked := packed_start hs hw hname hrow
  obtain ⟨_,hreach⟩ := hpacked.contig_fold hfirst hfold
  obtain ⟨hp₁,_,hkept⟩ := hpacked.fold hfold
  obtain ⟨hp₂,hpending,hsame,hhead⟩ := hp₁.flush hflush
  have htiles := hp₂.tiles hpending
  have hruns := hp₂.pruned_runs hpending hprune
  have holdest : c₂.durableOldest = row.durableFirstAvailableByte := by
    rcases hkept with hkept | ⟨_,hjumped,hlt⟩
    · exact hsame.trans hkept
    · omega
  have hhead₂ : c₂.durableHead = reach row.durableOutputBytes replay.chunks := hhead.trans hreach
  obtain ⟨rfl,rfl⟩ := pruneRunReplayTo_exact htiles.le hp₂.bytes hprune
  rw [Database.updateRun_runs,hruns]
  refine List.map_congr_left fun r hr => ?_
  split
  · rename_i hrid
    obtain rfl := List.inj_on_of_nodup_map hs.ids hr hmem (hrid.trans hid.symm)
    rw [holdest,hhead₂]
    rfl
  · rfl

section Accepted

variable {s₀ : Store} {c : ReplayCursors} {chunk : OutputChunk}

theorem Packed.verified_ok (hp : Packed id w s₀ c) (hf : Faithful streams c.db c.files)
    (hpending : c.pending = []) (holdest : c.durableOldest ≤ chunk.startByte)
    (hlt : chunk.startByte < chunk.endByte) (hend : chunk.endByte ≤ c.durableHead)
    (hdata : chunk.data = slice (streams id) chunk.startByte chunk.endByte)
    (replay : OutputReplay) : applyReplayChunk id replay c chunk = .ok c := by
  have hbound := hp.bound
  have hlength : chunk.data.length = chunk.endByte-chunk.startByte := by rw [hdata,length_slice]
  have hrange : checkChunkRange id chunk = .ok () :=
    checkChunkRange_ok (by omega) (List.length_pos_iff.mp (by omega)) (by omega)
  have htiles : Tiles ChunkRow.startByte ChunkRow.endByte c.durableOldest (c.db.rowsOf id)
      c.durableHead := by
    simpa [hpending] using hp.packing.tiles
  have hflush : flushPendingRow id c = .ok c := if_pos hpending
  have hmatches := storedRangeMatches_ok hf hp.packing.sound htiles holdest hlt hend
  unfold applyReplayChunk applyAligned
  rw [ok_bind hrange,if_neg (by omega),ok_bind hrange,if_pos hend]
  unfold verifyChunk
  rw [if_neg (by omega),ok_bind hflush,hdata,ok_bind hmatches,if_pos rfl]

/-- The loop accepts chunks that begin inside the window: those below the head are found as
stored, and the rest continues the window. -/
theorem Packed.presented_ok {chunks : List OutputChunk} {first last : ℕ} (hp : Packed id w s₀ c)
    (hrun : ∃ r ∈ s₀.db.runs, r.id = id) (replay : OutputReplay)
    (hf : Faithful streams c.db c.files) (hpending : c.pending = [])
    (ht : Tiles OutputChunk.startByte OutputChunk.endByte first chunks last)
    (holdest : c.durableOldest ≤ first) (hfirst : first ≤ c.durableHead)
    (hdata : ∀ chunk ∈ chunks, chunk.data = slice (streams id) chunk.startByte chunk.endByte)
    (hbound : last ≤ i64Max)
    (hroom : (loopTail c).length+(reach c.durableHead chunks-c.durableHead) ≤ i64Max) :
    ∃ c', chunks.foldlM (applyReplayChunk id replay) c = .ok c' ∧
      (loopTail c').length = (loopTail c).length+(reach c.durableHead chunks-c.durableHead) := by
  induction chunks generalizing first with
  | nil => exact ⟨c,rfl,by simp [reach]⟩
  | cons chunk chunks ih =>
    have hreach := reach_tiles ht hfirst
    obtain ⟨rfl,hlt,hrest⟩ := ht
    by_cases hend : chunk.endByte ≤ c.durableHead
    · have happly := hp.verified_ok hf hpending holdest hlt hend (hdata chunk (by simp)) replay
      have hsame : reach c.durableHead (chunk::chunks) = reach c.durableHead chunks := by
        show reach (max c.durableHead chunk.endByte) chunks = _
        rw [max_eq_left hend]
      rw [List.foldlM_cons,ok_bind happly,hsame]
      exact ih hrest (by omega) hend (fun x hx => hdata x (by simp [hx])) (hsame ▸ hroom)
    · have hle := hrest.le
      have hcontinues : Continues (streams id) c.durableOldest c.durableHead (chunk::chunks) last := by
        refine ⟨⟨chunk.startByte,holdest,hfirst,rfl,hlt,hrest⟩,fun x hx => ?_,by omega,hdata⟩
        rcases List.mem_cons.mp hx with rfl | hx
        · omega
        · have := hrest.mem_bounds hx
          omega
      have hlast : reach c.durableHead (chunk::chunks) = last := by omega
      rw [hlast] at hroom ⊢
      obtain ⟨c',hfold,htail,_⟩ := hp.continue_ok hrun replay hf hpending hcontinues hbound hroom
      exact ⟨c',hfold,htail⟩

end Accepted

theorem Presents.carries {stream : ℕ → Byte} (h : Presents limit stream row replay.chunks) :
    Carries stream replay := by
  intro chunk hc
  obtain ⟨_,_,ht,_⟩ := h.tiles
  have hle := (ht.mem_bounds hc).2.1
  have hdata := h.data chunk hc
  have hlength := congrArg List.length hdata
  rw [length_slice] at hlength
  rw [hlength,Nat.add_sub_cancel' hle.le]
  exact hdata

/-- Tables and files that agree with each other and with the streams of the Runs. -/
structure Intact (streams : RunId → ℕ → Byte) (s : Store) : Prop where
  sound : Sound s.db s.files
  windows : ∀ r ∈ s.db.runs, Window s.db r
  named : validReplayFileName s.db.replayFile = true
  faithful : Faithful streams s.db s.files

/-- What an append of presented bytes leaves. -/
structure Grew (streams : RunId → ℕ → Byte) (s s' : Store) (bytes : ℕ) : Prop where
  intact : Intact streams s'
  file : s'.db.replayFile = s.db.replayFile
  length : s'.files.len s.db.replayFile = s.files.len s.db.replayFile+bytes

/-- An append that presents bytes of the stream is accepted. -/
theorem append_presented (h : Intact streams s) (hrow : s.db.run? id = some row)
    (hrunning : replay.chunks ≠ [] → row.stateKind = .running)
    (hfirst : replay.firstAvailableByte = 0) (hp : Presents limit (streams id) row replay.chunks)
    (hroom : s.files.len s.db.replayFile+
      (reach row.durableOutputBytes replay.chunks-row.durableOutputBytes) ≤ i64Max) :
    ∃ s' evicted, appendReplayWithStorage s s.db.replayFile id replay limit = .ok (s',evicted) ∧
      Grew streams s s' (reach row.durableOutputBytes replay.chunks-row.durableOutputBytes) ∧
      s'.db.runs = s.db.runs.map fun r => if r.id = id then r.extend limit replay else r := by
  obtain ⟨hs,hw,hname,hf⟩ := h
  obtain ⟨first,last,ht,hfloor,hhead,hbound⟩ := hp.tiles
  have hstart := packed_start hs hw hname hrow
  obtain ⟨hmem,hid⟩ := Database.run?_mem hrow
  have hrun : ∃ r ∈ s.db.runs, r.id = id := ⟨row,hmem,hid⟩
  obtain ⟨c₁,hfold,htail⟩ := hstart.presented_ok hrun replay hf rfl ht
    ((le_max_left _ _).trans hfloor) hhead hp.data hbound (by simpa [loopTail,Files.len] using hroom)
  obtain ⟨hp₁,_,_⟩ := hstart.fold hfold
  have hroom₁ : (loopTail c₁).length ≤ i64Max := by
    rw [htail]
    simpa [loopTail,Files.len] using hroom
  have hbefore := hp₁.room
  have hbound₁ := hp₁.bound
  obtain ⟨c₂,hflush⟩ := hp₁.packing.flush_ok hrun (by omega) hroom₁
  obtain ⟨hp₂,hpending,_,_⟩ := hp₁.flush hflush
  have htiles := hp₂.tiles hpending
  obtain ⟨⟨db,oldest,bytes,evicted⟩,hprune⟩ := pruneRunReplayTo_ok limit htiles hp₂.bytes hp₂.bound
  have hguard : ¬(row.stateKind ≠ .running ∧
      ∃ chunk ∈ replay.chunks, row.durableOutputBytes < chunk.endByte) := by
    rintro ⟨hstopped,chunk,hchunk,_⟩
    exact hstopped (hrunning (List.ne_nil_of_mem hchunk))
  have happend : ∃ s', appendReplayWithStorage s s.db.replayFile id replay limit =
      .ok (s',evicted) := by
    unfold appendReplayWithStorage
    rw [ok_bind (Database.selectRun_eq_ok.mpr hrow),if_neg hguard,ok_bind hfold,ok_bind hflush,
      ok_bind hprune]
    exact ⟨_,rfl⟩
  obtain ⟨s',happend⟩ := happend
  obtain ⟨hsound,hwindows,hfile,_⟩ := append_sound hs hw hname happend
  have hextends := append_extends hs hw hname hfirst happend
  obtain ⟨hfaithful,happended⟩ := append_faithful hs hw hname hf hp.carries happend
  have hmem' : row.extend limit replay ∈ s'.db.runs := by
    rw [hextends]
    exact List.mem_map.mpr ⟨row,hmem,if_pos hid⟩
  have hwritten : Appended (streams id) s.db.replayFile s.files s'.files replay row
      (row.extend limit replay) := by
    rcases happended row hmem _ hmem' rfl with ⟨hne,_⟩ | ⟨_,hwritten⟩
    · exact absurd hid hne
    · exact hwritten
  obtain ⟨payload,skipped,resumed,hgrown,hle₁,hle₂,hle₃,hpayload,hgap⟩ := hwritten
  have hwhole : skipped = resumed := by
    by_contra hne
    have := (hgap (by omega)).2.1
    omega
  refine ⟨s',evicted,happend,⟨⟨hsound,hwindows,hfile ▸ hname,hfaithful⟩,hfile,?_⟩,hextends⟩
  rw [hgrown.len,hpayload,hwhole,slice_append (by omega) hle₃,length_slice]
  rfl

end Durable
end Ctxmux
