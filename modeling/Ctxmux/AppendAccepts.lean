import Ctxmux.Finalize
import Ctxmux.ReplayPaging

/-!
# Appends that continue a Run are accepted

Output that begins inside the durable window, agrees with it and continues it without
a hole is never refused by the tables: the overlap is found as stored and every fresh
byte becomes part of a row.
-/

namespace Ctxmux
namespace Durable

open Tiling

variable {streams : RunId → ℕ → Byte} {id : RunId} {w : String} {s₀ : Store} {replay : OutputReplay}
  {chunk : OutputChunk} {c : ReplayCursors} {db : Database}

theorem readReplaySegment_ok {files : Files} {row : ChunkRow} (hf : Faithful streams db files)
    (hs : Sound db files) (hr : row ∈ db.chunks) {p q : ℕ} (hp : row.startByte ≤ p) (hpq : p ≤ q)
    (hq : q ≤ row.endByte) :
    readReplaySegment files row.dataFile (row.dataOffset+p-row.startByte) (q-p) =
      .ok (slice (streams row.runId) p q) := by
  have hlen := (hs.backed row hr).extent_le_len
  have hsized := hs.sized row hr
  obtain ⟨hname,content,hfile,_⟩ := hs.backed row hr
  unfold readReplaySegment
  rw [ok_bind (validateReplayFileName_of hname),ok_bind (validateStateFile_of hfile)]
  simp only
  rw [if_neg (by omega),hf.segment hs hr hp hq]

/-- The comparison loop over stored rows that hold the expected bytes. -/
theorem matchRows_ok {files : Files} {rows : List ChunkRow} {x d a b cursor : ℕ}
    (hf : Faithful streams db files) (hs : Sound db files)
    (hrows : ∀ row ∈ rows, row ∈ db.chunks ∧ row.runId = id)
    (ht : Tiles ChunkRow.startByte ChunkRow.endByte x rows d) (hd : b ≤ d) (ha : a ≤ cursor)
    (hcursor : b ≤ cursor ∨ (x ≤ cursor ∧ ∀ row ∈ rows, cursor < row.endByte)) :
    matchRows files a b (slice (streams id) a b) rows cursor = .ok true := by
  induction rows generalizing x cursor with
  | nil =>
    have hx : x = d := ht
    simp only [matchRows,Except.ok.injEq,decide_eq_true_eq]
    omega
  | cons row rows ih =>
    obtain ⟨rfl,hne,hrest⟩ := ht
    obtain ⟨hmem,rfl⟩ := hrows row (by simp)
    unfold matchRows
    split
    · rfl
    · rename_i hbefore
      obtain ⟨hstart,hafter⟩ := hcursor.resolve_left hbefore
      have hend := hafter row (by simp)
      have hthrough : cursor ≤ min row.endByte b := by omega
      rw [if_neg (by omega)]
      simp only
      rw [ok_bind (readReplaySegment_ok hf hs hmem hstart hthrough (by omega)),if_pos]
      · refine ih (fun r hr => hrows r (by simp [hr])) hrest (by omega) ?_
        by_cases hlast : b ≤ row.endByte
        · exact .inl (by omega)
        · refine .inr ⟨by omega,fun r hr => ?_⟩
          have := hrest.mem_bounds hr
          omega
      · rw [drop_slice,Nat.add_sub_cancel' ha,take_slice (by omega),Nat.add_sub_cancel' hthrough]

theorem storedRangeMatches_ok {files : Files} {oldest head a b : ℕ} (hf : Faithful streams db files)
    (hs : Sound db files)
    (ht : Tiles ChunkRow.startByte ChunkRow.endByte oldest (db.rowsOf id) head) (ha : oldest ≤ a)
    (hab : a < b) (hb : b ≤ head) :
    storedRangeMatches db files id a b (slice (streams id) a b) = .ok true := by
  unfold storedRangeMatches Database.rowsByStart
  rw [ht.insertionSort_eq]
  obtain ⟨x,d,hx,hd,hwindow⟩ := ht.window ha hab hb
  refine matchRows_ok hf hs (fun row hr => ?_) hwindow hd le_rfl (.inr ⟨hx,fun row hr => ?_⟩)
  · obtain ⟨hmem,_⟩ := List.mem_filter.mp hr
    obtain ⟨hmem,hid⟩ := List.mem_filter.mp hmem
    exact ⟨hmem,by simpa using hid⟩
  · have hmeets : a < row.endByte ∧ row.startByte < b := by
      simpa using (List.mem_filter.mp hr).2
    exact hmeets.1

theorem checkChunkRange_ok (hrange : chunk.startByte+chunk.data.length = chunk.endByte)
    (hne : chunk.data ≠ []) (hbound : chunk.endByte ≤ i64Max) : checkChunkRange id chunk = .ok () := by
  have hpos := List.length_pos_iff.mpr hne
  unfold checkChunkRange
  rw [if_neg (by omega),if_neg (by omega),if_neg (by omega)]

/-- A buffer that fits into the file and behind the rows of its Run becomes a row. -/
theorem Packing.flush_ok {stored : ℕ} (hp : Packing id w s₀ c stored)
    (hrun : ∃ r ∈ s₀.db.runs, r.id = id) (hbound : stored+c.pending.length ≤ i64Max)
    (hroom : (loopTail c).length ≤ i64Max) : ∃ c', flushPendingRow id c = .ok c' := by
  unfold flushPendingRow
  split
  · exact ⟨c,rfl⟩
  · rename_i hne
    have hpos := List.length_pos_iff.mpr hne
    have hstart := hp.begins hne
    have hlen : c.files.len c.writer+c.pending.length ≤ i64Max := by
      simpa [loopTail,Files.len] using hroom
    have hinsert : ∃ db, c.db.insertChunk id c.pendingStart (c.pendingStart+c.pending.length)
        c.writer (c.files.len c.writer) c.pending.length = .ok db := by
      unfold Database.insertChunk
      rw [if_pos]
      · exact ⟨_,rfl⟩
      · refine ⟨by omega,hpos,hp.runs ▸ hrun,fun row hr heq => ?_⟩
        have := hp.tiles.mem_bounds hr
        omega
    obtain ⟨db,hdb⟩ := hinsert
    rw [if_neg (by omega)]
    unfold writerAppend
    rw [if_neg (by omega)]
    exact ⟨_,ok_bind hdb⟩

theorem Packed.buffer_ok (hp : Packed id w s₀ c) (hrun : ∃ r ∈ s₀.db.runs, r.id = id)
    (hstart : chunk.startByte = c.durableHead)
    (hrange : chunk.startByte+chunk.data.length = chunk.endByte) (hbound : chunk.endByte ≤ i64Max)
    (hroom : (loopTail c).length+chunk.data.length ≤ i64Max) :
    ∃ c', bufferChunk id chunk c = .ok c' := by
  have hbegin := hp.beginStream_eq hstart
  have hextend := hp.extend hstart
  have hflush : ∃ c', flushFullRow id (extendPending chunk c) = .ok c' := by
    unfold flushFullRow
    split
    · have hroom' := hp.room
      refine hextend.flush_ok hrun ?_ ?_
      · simp only [extendPending,List.length_append]
        omega
      · simpa [loopTail,extendPending,Nat.add_assoc] using hroom
    · exact ⟨_,rfl⟩
  obtain ⟨c',hc'⟩ := hflush
  unfold bufferChunk
  rw [hbegin]
  exact ⟨_,ok_bind hc'⟩

theorem Packed.fresh_ok (hp : Packed id w s₀ c) (hrun : ∃ r ∈ s₀.db.runs, r.id = id)
    (replay : OutputReplay) (chunk : OutputChunk) (hstart : chunk.startByte = c.durableHead) (hne : chunk.data ≠ [])
    (hrange : chunk.startByte+chunk.data.length = chunk.endByte) (hbound : chunk.endByte ≤ i64Max)
    (hroom : (loopTail c).length+chunk.data.length ≤ i64Max) :
    ∃ c', applyAligned id replay chunk c = .ok c' ∧ loopTail c' = loopTail c ++ chunk.data := by
  obtain ⟨c',hc'⟩ := hp.buffer_ok hrun hstart hrange hbound hroom
  have hpos := List.length_pos_iff.mpr hne
  refine ⟨c',?_,(loopTail_buffer hc').2⟩
  unfold applyAligned jumpGap
  rw [ok_bind (checkChunkRange_ok hrange hne hbound),if_neg (by omega),if_pos hstart,ok_bind rfl,hc']

/-- A chunk that reaches from inside the window beyond the head: its stored part is found
as stored and the rest is buffered. -/
theorem Packed.reach_ok (hp : Packed id w s₀ c) (hrun : ∃ r ∈ s₀.db.runs, r.id = id)
    (replay : OutputReplay) (hf : Faithful streams c.db c.files) (hpending : c.pending = [])
    (holdest : c.durableOldest ≤ chunk.startByte) (hstart : chunk.startByte ≤ c.durableHead)
    (hend : c.durableHead < chunk.endByte)
    (hdata : chunk.data = slice (streams id) chunk.startByte chunk.endByte)
    (hbound : chunk.endByte ≤ i64Max)
    (hroom : (loopTail c).length+(chunk.endByte-c.durableHead) ≤ i64Max) :
    ∃ c', applyReplayChunk id replay c chunk = .ok c' ∧
      (loopTail c').length = (loopTail c).length+(chunk.endByte-c.durableHead) := by
  have hlength : chunk.data.length = chunk.endByte-chunk.startByte := by
    rw [hdata,length_slice]
  have hne : chunk.data ≠ [] := List.length_pos_iff.mp (by omega)
  unfold applyReplayChunk
  rw [ok_bind (checkChunkRange_ok (by omega) hne hbound)]
  split
  · rename_i hstraddle
    have hfront : applyAligned id replay ⟨chunk.startByte,c.durableHead,
        chunk.data.take (c.durableHead-chunk.startByte)⟩ c = .ok c := by
      have hverified : chunk.data.take (c.durableHead-chunk.startByte) =
          slice (streams id) chunk.startByte c.durableHead := by
        rw [hdata,take_slice (by omega),Nat.add_sub_cancel' hstart]
      have htiles : Tiles ChunkRow.startByte ChunkRow.endByte c.durableOldest (c.db.rowsOf id)
          c.durableHead := by
        simpa [hpending] using hp.packing.tiles
      have hflush : flushPendingRow id c = .ok c := if_pos hpending
      have hmatches := storedRangeMatches_ok hf hp.packing.sound htiles holdest hstraddle.1 le_rfl
      have hfrontne : slice (streams id) chunk.startByte c.durableHead ≠ [] :=
        List.length_pos_iff.mp (by rw [length_slice]; omega)
      unfold applyAligned
      rw [hverified,ok_bind (checkChunkRange_ok (by simp; omega) hfrontne (by simp; omega)),
        if_pos le_rfl]
      unfold verifyChunk
      rw [if_neg (by simp; omega),ok_bind hflush,ok_bind hmatches,if_pos rfl]
    rw [ok_bind hfront]
    have hrest : 0 < (chunk.data.drop (c.durableHead-chunk.startByte)).length := by
      rw [List.length_drop]
      omega
    obtain ⟨c',hc',htail⟩ := hp.fresh_ok hrun replay ⟨chunk.startByte+
      (c.durableHead-chunk.startByte),chunk.endByte,
      chunk.data.drop (c.durableHead-chunk.startByte)⟩ (by simp; omega)
      (List.length_pos_iff.mp hrest) (by simp; omega) hbound (by simp; omega)
    refine ⟨c',hc',?_⟩
    rw [htail,List.length_append,List.length_drop]
    omega
  · obtain ⟨c',hc',htail⟩ := hp.fresh_ok hrun replay chunk (by omega) hne (by omega) hbound
      (by omega)
    refine ⟨c',hc',?_⟩
    rw [htail,List.length_append]
    omega

/-- Chunks that follow the head one after the other are all buffered. -/
theorem Packed.follow_ok {chunks : List OutputChunk} {b : ℕ} (hp : Packed id w s₀ c)
    (hrun : ∃ r ∈ s₀.db.runs, r.id = id) (replay : OutputReplay)
    (ht : Tiles OutputChunk.startByte OutputChunk.endByte c.durableHead chunks b)
    (hlength : ∀ chunk ∈ chunks, chunk.data.length = chunk.endByte-chunk.startByte)
    (hbound : b ≤ i64Max) (hroom : (loopTail c).length+(b-c.durableHead) ≤ i64Max) :
    ∃ c', chunks.foldlM (applyReplayChunk id replay) c = .ok c' ∧
      (loopTail c').length = (loopTail c).length+(b-c.durableHead) ∧ c'.durableHead = b := by
  induction chunks generalizing c with
  | nil =>
    have hend : c.durableHead = b := ht
    exact ⟨c,rfl,by omega,hend⟩
  | cons chunk chunks ih =>
    obtain ⟨hstart,hlt,hrest⟩ := ht
    have hle := hrest.le
    have hsize := hlength chunk (by simp)
    have hne : chunk.data ≠ [] := List.length_pos_iff.mp (by omega)
    obtain ⟨c₁,hc₁,htail⟩ := hp.fresh_ok hrun replay chunk hstart hne (by omega) (by omega)
      (by omega)
    have happly : applyReplayChunk id replay c chunk = .ok c₁ := by
      unfold applyReplayChunk
      rw [ok_bind (checkChunkRange_ok (by omega) hne (by omega)),if_neg (by omega),hc₁]
    obtain ⟨hp₁,hhead₁,_⟩ := hp.apply happly
    have hhead : c₁.durableHead = chunk.endByte := by omega
    have htail' := congrArg List.length htail
    rw [List.length_append] at htail'
    obtain ⟨c',hc',hlen,hend⟩ := ih hp₁ (hhead ▸ hrest) (fun x hx => hlength x (by simp [hx]))
      (by omega)
    rw [List.foldlM_cons,ok_bind happly]
    exact ⟨c',hc',by omega,hend⟩

/-- Output that begins inside the window `[floor,head]` and continues it up to `latest`. -/
structure Continues (stream : ℕ → Byte) (floor head : ℕ) (chunks : List OutputChunk)
    (latest : ℕ) : Prop where
  tiles : ∃ first, floor ≤ first ∧ first ≤ head ∧
    Tiles OutputChunk.startByte OutputChunk.endByte first chunks latest
  missing : ∀ chunk ∈ chunks, head < chunk.endByte
  latest_ge : head ≤ latest
  data : ∀ chunk ∈ chunks, chunk.data = slice stream chunk.startByte chunk.endByte

/-- The loop of an append accepts output that continues the window. -/
theorem Packed.continue_ok {chunks : List OutputChunk} {latest : ℕ} (hp : Packed id w s₀ c)
    (hrun : ∃ r ∈ s₀.db.runs, r.id = id) (replay : OutputReplay)
    (hf : Faithful streams c.db c.files) (hpending : c.pending = [])
    (hc : Continues (streams id) c.durableOldest c.durableHead chunks latest)
    (hbound : latest ≤ i64Max)
    (hroom : (loopTail c).length+(latest-c.durableHead) ≤ i64Max) :
    ∃ c', chunks.foldlM (applyReplayChunk id replay) c = .ok c' ∧
      (loopTail c').length = (loopTail c).length+(latest-c.durableHead) ∧
      c'.durableHead = latest := by
  obtain ⟨first,hfloor,hfirst,ht⟩ := hc.tiles
  have hlatest := hc.latest_ge
  cases chunks with
  | nil =>
    have hend : first = latest := ht
    exact ⟨c,rfl,by omega,by omega⟩
  | cons chunk chunks =>
    obtain ⟨hstart,hlt,hrest⟩ := ht
    have hle := hrest.le
    have hmissing := hc.missing chunk (by simp)
    obtain ⟨c₁,happly,htail₁⟩ := hp.reach_ok hrun replay hf hpending (by omega) (by omega)
      hmissing (hc.data chunk (by simp)) (by omega) (by omega)
    obtain ⟨hp₁,hhead₁,_⟩ := hp.apply happly
    have hhead : c₁.durableHead = chunk.endByte := by omega
    have hlength : ∀ x ∈ chunks, x.data.length = x.endByte-x.startByte := fun x hx => by
      rw [hc.data x (by simp [hx]),length_slice]
    obtain ⟨c',hc',hlen,hend⟩ := hp₁.follow_ok hrun replay (hhead ▸ hrest) hlength hbound
      (by omega)
    rw [List.foldlM_cons,ok_bind happly]
    exact ⟨c',hc',by omega,hend⟩

theorem pruneRunReplayTo_ok {oldest head bytes : ℕ} (limit : ℕ)
    (ht : Tiles ChunkRow.startByte ChunkRow.endByte oldest (db.rowsOf id) head)
    (hb : bytes = head-oldest) (hbound : head ≤ i64Max) :
    ∃ result, pruneRunReplayTo db id oldest bytes limit = .ok result := by
  have hle := ht.le
  unfold pruneRunReplayTo
  split
  · exact ⟨_,rfl⟩
  · simp only
    rw [if_neg (by omega),if_neg]
    · exact ⟨_,rfl⟩
    · rintro ⟨⟨row,hrow,hstart,hend⟩,other,hother,hfront⟩
      have hbounds := ht.mem_bounds hother
      have hsame := ht.eq_of_mem hrow hother ⟨hstart.le,hend⟩ (by omega)
      rw [hsame] at hstart
      omega

theorem Database.run?_updateRun_self {f : RunRow → RunRow} (hid : ∀ row, (f row).id = row.id) :
    (db.updateRun id f).run? id = (db.run? id).map f := by
  rw [run?_updateRun hid]
  exact Option.map_congr fun row hrow => if_pos (run?_mem hrow).2

/-- An append of output that continues the window is accepted and moves the head to its end. -/
theorem append_accepts {s : Store} {row : RunRow} {latest : ℕ} (hs : Sound s.db s.files)
    (hw : ∀ r ∈ s.db.runs, Window s.db r) (hname : validReplayFileName w = true)
    (hf : Faithful streams s.db s.files) (hrow : s.db.run? id = some row)
    (hrunning : row.stateKind = .running) (replay : OutputReplay)
    (hc : Continues (streams id) row.durableFirstAvailableByte row.durableOutputBytes replay.chunks
      latest) (hbound : latest ≤ i64Max)
    (hroom : s.files.len w+(latest-row.durableOutputBytes) ≤ i64Max) (limit : ℕ) :
    ∃ s' evicted, appendReplayWithStorage s w id replay limit = .ok (s',evicted) ∧
      ∃ row', s'.db.run? id = some row' ∧ row'.durableOutputBytes = latest ∧
        row' = { row with
          durableFirstAvailableByte := row'.durableFirstAvailableByte
          durableOutputBytes := latest
          replayBytes := row'.replayBytes
          replayTruncated := row'.replayTruncated } := by
  have hstart := packed_start hs hw hname hrow
  obtain ⟨hmem,hid⟩ := Database.run?_mem hrow
  have hrun : ∃ r ∈ s.db.runs, r.id = id := ⟨row,hmem,hid⟩
  obtain ⟨c₁,hfold,htail,hhead⟩ := hstart.continue_ok hrun replay hf rfl hc hbound
    (by simpa [loopTail,Files.len] using hroom)
  obtain ⟨hp₁,_,_⟩ := hstart.fold hfold
  have hroom₁ : (loopTail c₁).length ≤ i64Max := by
    rw [htail]
    simpa [loopTail,Files.len] using hroom
  have hbefore := hp₁.room
  obtain ⟨c₂,hflush⟩ := hp₁.packing.flush_ok hrun (by omega) hroom₁
  obtain ⟨hp₂,hpending,_,hhead₂⟩ := hp₁.flush hflush
  have htiles := hp₂.tiles hpending
  obtain ⟨⟨db,oldest,bytes,evicted⟩,hprune⟩ := pruneRunReplayTo_ok limit htiles hp₂.bytes hp₂.bound
  have hruns := hp₂.pruned_runs hpending hprune
  have hrow' : db.run? id = some row := by
    unfold Database.run?
    rw [hruns]
    exact hrow
  let windowed : RunRow → RunRow := fun row =>
    { row with
      durableFirstAvailableByte := oldest
      durableOutputBytes := c₂.durableHead
      replayBytes := bytes
      replayTruncated := replay.truncated || decide (0 < oldest) }
  have happend : appendReplayWithStorage s w id replay limit =
      .ok (⟨db.updateRun id windowed,c₂.files⟩,evicted) := by
    unfold appendReplayWithStorage
    rw [ok_bind (Database.selectRun_eq_ok.mpr hrow),if_neg (by simp [hrunning]),ok_bind hfold,
      ok_bind hflush,ok_bind hprune]
  refine ⟨_,evicted,happend,windowed row,?_,hhead₂.trans hhead,?_⟩
  · have hself : (db.updateRun id windowed).run? id = (db.run? id).map windowed :=
      Database.run?_updateRun_self fun _ => rfl
    rw [hrow'] at hself
    exact hself
  · rw [← hhead,← hhead₂]

end Durable
end Ctxmux
