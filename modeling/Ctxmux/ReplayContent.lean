import Ctxmux.DurableStore

/-!
# The bytes of a durable replay

Each Run has a byte stream, and a replay carries its bytes at their true offsets.
Every extent of the store then holds the stream's bytes for its range, and an append
writes the bytes above the head once, in order, except those that a gap skips.
-/

namespace Ctxmux
namespace Durable

open Tiling

/-- The bytes of a replay are those of the stream, in any chunking. -/
def Carries (stream : ℕ → Byte) (replay : OutputReplay) : Prop :=
  ∀ chunk ∈ replay.chunks,
    chunk.data = slice stream chunk.startByte (chunk.startByte+chunk.data.length)

/-- Every extent holds the bytes that its Run produced for its range. -/
def Faithful (streams : RunId → ℕ → Byte) (db : Database) (files : Files) : Prop :=
  ∀ row ∈ db.chunks, extent files row = slice (streams row.runId) row.startByte row.endByte

variable {streams : RunId → ℕ → Byte} {db db' : Database}

theorem extent_trim (files : Files) (row : ChunkRow) (k : ℕ) :
    extent files (row.trim k) = (extent files row).drop k := by
  simp [extent,ChunkRow.trim,List.drop_take,List.drop_drop]

theorem Faithful.shrink {files : Files} (h : Faithful streams db files)
    (hs : Shrunk db.chunks db'.chunks) : Faithful streams db' files := by
  intro row' hr
  obtain ⟨row,hrow,k,_,rfl⟩ := hs.mem hr
  rw [extent_trim,h row hrow,drop_slice]
  rfl

theorem Faithful.mono {files : Files} (h : Faithful streams db files)
    (hsub : ∀ row ∈ db'.chunks, row ∈ db.chunks) : Faithful streams db' files := fun row hr =>
  h row (hsub row hr)

/-- What the loop of an append has carried from `before` up to `head`: its rows and its
buffer hold the stream's bytes, and the payload written so far followed by the buffer is
the stream from `before` on, less at most one gap that the replay proves unrecoverable. -/
structure Carried (streams : RunId → ℕ → Byte) (id : RunId) (w : String) (s₀ : Store)
    (replay : OutputReplay) (before : ℕ) (c : ReplayCursors) (head : ℕ) : Prop where
  name : validReplayFileName w = true
  writer : c.writer = w
  backed : ∀ row ∈ c.db.chunks, Backed c.files row
  faithful : Faithful streams c.db c.files
  begins : c.pending ≠ [] → c.pendingStart+c.pending.length = head
  pending : c.pending = slice (streams id) (head-c.pending.length) head
  written : ∃ payload skipped resumed, Grown w s₀.files c.files payload ∧
    before ≤ skipped ∧ skipped ≤ resumed ∧ resumed ≤ head ∧
    payload ++ c.pending = slice (streams id) before skipped ++ slice (streams id) resumed head ∧
    (skipped < resumed → replay.truncated = true ∧ resumed = replay.firstAvailableByte ∧
      resumed ≤ c.durableOldest)

variable {id : RunId} {w : String} {s₀ : Store} {replay : OutputReplay} {before head : ℕ}
  {c c' : ReplayCursors} {chunk : OutputChunk}

theorem Carried.flush (h : Carried streams id w s₀ replay before c head)
    (hok : flushPendingRow id c = .ok c') : Carried streams id w s₀ replay before c' head := by
  obtain ⟨db,files,rfl,hnil,hcons⟩ := flushPendingRow_eq_ok hok
  obtain ⟨payload,skipped,resumed,hgrown,hle₁,hle₂,hle₃,hpayload,hgap⟩ := h.written
  by_cases hpending : c.pending = []
  · obtain ⟨rfl,rfl⟩ := hnil hpending
    rw [hpending] at hpayload
    exact ⟨h.name,h.writer,h.backed,h.faithful,fun hne => absurd rfl hne,by simp,
      payload,skipped,resumed,hgrown,hle₁,hle₂,hle₃,hpayload,hgap⟩
  · obtain ⟨rfl,hdb⟩ := hcons hpending
    rw [h.writer] at hdb ⊢
    obtain ⟨_,_,_,rfl⟩ := Database.insertChunk_eq_ok hdb
    have hend := h.begins hpending
    have hstart : head-c.pending.length = c.pendingStart := by omega
    refine ⟨h.name,rfl,?_,?_,fun hne => absurd rfl hne,by simp,
      payload ++ c.pending,skipped,resumed,hgrown.write c.pending,hle₁,hle₂,hle₃,
      by simpa using hpayload,hgap⟩
    · intro row hr
      rcases List.mem_append.mp hr with hr | hr
      · exact (h.backed row hr).write w c.pending
      · rw [List.mem_singleton.mp hr]
        exact ⟨h.name,_,Files.write_self _ _ _,by simp [Files.len]⟩
    · intro row hr
      rcases List.mem_append.mp hr with hr | hr
      · rw [extent_grow (h.backed row hr),h.faithful row hr]
      · rw [List.mem_singleton.mp hr,hend,← hstart,← h.pending]
        simp [extent,Files.len]

theorem Carried.verify (h : Carried streams id w s₀ replay before c head)
    (hok : verifyChunk id chunk c = .ok c') : Carried streams id w s₀ replay before c' head := by
  unfold verifyChunk at hok
  split at hok
  · cases hok
  · obtain ⟨c₁,hflush,hrest⟩ := bind_eq_ok.mp hok
    obtain ⟨same,_,hrest⟩ := bind_eq_ok.mp hrest
    split at hrest
    · obtain rfl := Except.ok.inj hrest
      exact h.flush hflush
    · cases hrest

theorem flushPendingRow_cursors (hok : flushPendingRow id c = .ok c') :
    c'.durableHead = c.durableHead ∧ c'.durableOldest = c.durableOldest ∧ c'.pending = [] := by
  obtain ⟨db,files,rfl,_,_⟩ := flushPendingRow_eq_ok hok
  exact ⟨rfl,rfl,rfl⟩

theorem verifyChunk_head (hok : verifyChunk id chunk c = .ok c') :
    c'.durableHead = c.durableHead := by
  unfold verifyChunk at hok
  split at hok
  · cases hok
  · obtain ⟨c₁,hflush,hrest⟩ := bind_eq_ok.mp hok
    obtain ⟨same,_,hrest⟩ := bind_eq_ok.mp hrest
    split at hrest
    · obtain rfl := Except.ok.inj hrest
      exact (flushPendingRow_cursors hflush).1
    · cases hrest

theorem applyAligned_head (hok : applyAligned id replay chunk c = .ok c')
    (hbelow : chunk.endByte ≤ c.durableHead) : c'.durableHead = c.durableHead := by
  obtain ⟨_,_,hrest⟩ := bind_eq_ok.mp hok
  rw [if_pos hbelow] at hrest
  exact verifyChunk_head hrest

/-- A jump leaves behind the bytes from the head to the chunk, and only once. -/
theorem Carried.jump (h : Carried streams id w s₀ replay before c c.durableHead)
    (hok : jumpGap id replay chunk c = .ok c') (hstart : c.durableHead ≤ chunk.startByte) :
    Carried streams id w s₀ replay before c' chunk.startByte ∧
      c'.durableHead = chunk.startByte := by
  unfold jumpGap at hok
  split_ifs at hok with heq hgap
  · obtain rfl := Except.ok.inj hok
    rw [heq]
    exact ⟨h,rfl⟩
  · obtain ⟨c₁,hflush,hrest⟩ := bind_eq_ok.mp hok
    obtain ⟨hhead,holdest,hpending⟩ := flushPendingRow_cursors hflush
    have hflushed := h.flush hflush
    obtain rfl := Except.ok.inj hrest
    obtain ⟨payload,skipped,resumed,hgrown,hle₁,hle₂,hle₃,hpayload,hearlier⟩ := hflushed.written
    have hwhole : skipped = resumed := by
      by_contra hne
      have := (hearlier (by omega)).2.1
      have := hgap.2
      omega
    subst hwhole
    rw [hpending,List.append_nil,slice_append hle₁ hle₃] at hpayload
    have hsub : ∀ row ∈ (resetWindowTo c₁.db id chunk.startByte).1.chunks, row ∈ c₁.db.chunks :=
      fun row hr => (List.mem_filter.mp hr).1
    refine ⟨⟨hflushed.name,hflushed.writer,fun row hr => hflushed.backed row (hsub row hr),
      hflushed.faithful.mono hsub,fun hne => absurd hpending hne,?_,payload,c.durableHead,
      chunk.startByte,hgrown,hle₁.trans hle₃,hstart,le_rfl,?_,fun _ => ?_⟩,rfl⟩
    · rw [hpending]
      simp
    · rw [hpending,List.append_nil,slice_self,List.append_nil,hpayload]
    · exact ⟨by simpa using hgap.1,hgap.2,le_rfl⟩

/-- Extending the buffer by the immediate successor of the head. -/
theorem Carried.extend (h : Carried streams id w s₀ replay before c chunk.startByte)
    (hdata : chunk.data = slice (streams id) chunk.startByte chunk.endByte)
    (hle : chunk.startByte ≤ chunk.endByte) :
    Carried streams id w s₀ replay before (extendPending chunk c) chunk.endByte := by
  have hlength : chunk.data.length = chunk.endByte-chunk.startByte := by
    rw [hdata,length_slice]
  have hshort : c.pending.length ≤ chunk.startByte := by
    have := congrArg List.length h.pending
    rw [length_slice] at this
    omega
  obtain ⟨payload,skipped,resumed,hgrown,hle₁,hle₂,hle₃,hpayload,hgap⟩ := h.written
  refine ⟨h.name,h.writer,h.backed,h.faithful,fun _ => ?_,?_,payload,skipped,resumed,hgrown,hle₁,
    hle₂,hle₃.trans hle,?_,hgap⟩
  · simp only [extendPending,List.length_append]
    split
    · rename_i hnil
      rw [hnil,List.length_nil]
      omega
    · rename_i hne
      have := h.begins hne
      omega
  · have hfront : chunk.endByte-(c.pending.length+chunk.data.length) =
        chunk.startByte-c.pending.length := by omega
    simp only [extendPending,List.length_append]
    rw [hfront,← slice_append (by omega : chunk.startByte-c.pending.length ≤ chunk.startByte) hle,
      ← h.pending,← hdata]
  · simp only [extendPending]
    rw [← List.append_assoc,hpayload,hdata,List.append_assoc,slice_append hle₃ hle]

theorem Carried.flushFull (h : Carried streams id w s₀ replay before c head)
    (hok : flushFullRow id c = .ok c') : Carried streams id w s₀ replay before c' head := by
  unfold flushFullRow at hok
  split at hok
  · exact h.flush hok
  · obtain rfl := Except.ok.inj hok
    exact h

section

variable (h : Carried streams id w s₀ replay before c c.durableHead)
include h

theorem Carried.beginStream (hstart : chunk.startByte = c.durableHead) :
    Carried streams id w s₀ replay before (beginStream chunk c) chunk.startByte := by
  unfold Durable.beginStream
  rw [hstart]
  split
  · rename_i hzero
    obtain ⟨payload,skipped,resumed,hgrown,hle₁,hle₂,hle₃,hpayload,hgap⟩ := h.written
    exact ⟨h.name,h.writer,h.backed,h.faithful,h.begins,h.pending,payload,skipped,resumed,hgrown,
      hle₁,hle₂,hle₃,hpayload,fun hlt => by omega⟩
  · exact h

theorem Carried.buffer (hok : bufferChunk id chunk c = .ok c')
    (hstart : chunk.startByte = c.durableHead)
    (hdata : chunk.data = slice (streams id) chunk.startByte chunk.endByte)
    (hle : chunk.startByte ≤ chunk.endByte) :
    Carried streams id w s₀ replay before c' c'.durableHead := by
  obtain ⟨c₁,hflush,hrest⟩ := bind_eq_ok.mp hok
  have hfull := ((h.beginStream hstart).extend hdata hle).flushFull hflush
  obtain rfl := Except.ok.inj hrest
  exact ⟨hfull.name,hfull.writer,hfull.backed,hfull.faithful,hfull.begins,hfull.pending,
    hfull.written⟩

theorem Carried.aligned (hok : applyAligned id replay chunk c = .ok c')
    (hside : chunk.endByte ≤ c.durableHead ∨ c.durableHead ≤ chunk.startByte)
    (hdata : chunk.data = slice (streams id) chunk.startByte (chunk.startByte+chunk.data.length)) :
    Carried streams id w s₀ replay before c' c'.durableHead := by
  obtain ⟨_,hcheck,hrest⟩ := bind_eq_ok.mp hok
  obtain ⟨hrange,hne,_⟩ := checkChunkRange_eq_ok hcheck
  have hpos := List.length_pos_iff.mpr hne
  rw [hrange] at hdata
  split at hrest
  · have hverified := h.verify hrest
    rwa [verifyChunk_head hrest]
  · obtain ⟨c₁,hjump,hbuffer⟩ := bind_eq_ok.mp hrest
    obtain ⟨hjumped,hhead⟩ := h.jump hjump (by omega)
    exact (hhead ▸ hjumped).buffer hbuffer hhead.symm hdata (by omega)

theorem Carried.apply (hok : applyReplayChunk id replay c chunk = .ok c')
    (hdata : chunk.data = slice (streams id) chunk.startByte (chunk.startByte+chunk.data.length)) :
    Carried streams id w s₀ replay before c' c'.durableHead := by
  obtain ⟨_,hcheck,hrest⟩ := bind_eq_ok.mp hok
  obtain ⟨hrange,_,_⟩ := checkChunkRange_eq_ok hcheck
  split at hrest
  · rename_i hstraddle
    obtain ⟨c₁,hfront,hback⟩ := bind_eq_ok.mp hrest
    have hcut : c.durableHead-chunk.startByte ≤ chunk.data.length := by omega
    have hfirst := h.aligned hfront (.inl le_rfl) (by
      simp only [List.length_take,Nat.min_eq_left hcut]
      nth_rewrite 1 [hdata]
      exact take_slice (by omega))
    refine hfirst.aligned hback (.inr ?_) ?_
    · rw [applyAligned_head hfront le_rfl]
      simp only
      omega
    · simp only [List.length_drop]
      nth_rewrite 1 [hdata]
      rw [drop_slice]
      congr 1
      omega
  · exact h.aligned hrest (by omega) hdata

end

theorem Carried.fold {chunks : List OutputChunk}
    (h : Carried streams id w s₀ replay before c c.durableHead)
    (hok : chunks.foldlM (applyReplayChunk id replay) c = .ok c')
    (hdata : ∀ chunk ∈ chunks, chunk.data =
      slice (streams id) chunk.startByte (chunk.startByte+chunk.data.length)) :
    Carried streams id w s₀ replay before c' c'.durableHead := by
  induction chunks generalizing c with
  | nil =>
    obtain rfl := Except.ok.inj hok
    exact h
  | cons chunk chunks ih =>
    rw [List.foldlM_cons] at hok
    obtain ⟨c₁,happly,hrest⟩ := bind_eq_ok.mp hok
    exact ih (h.apply happly (hdata chunk (by simp))) hrest fun x hx => hdata x (by simp [hx])

/-- What an append of a replay adds: the payload file grew by the stream's bytes from the
old head to the new one, in order, less at most one gap that the replay proves
unrecoverable and that lies below the new floor. -/
def Appended (stream : ℕ → Byte) (writer : String) (files files' : Files) (replay : OutputReplay)
    (r r' : RunRow) : Prop :=
  ∃ payload skipped resumed, Grown writer files files' payload ∧
    r.durableOutputBytes ≤ skipped ∧ skipped ≤ resumed ∧ resumed ≤ r'.durableOutputBytes ∧
    payload = slice stream r.durableOutputBytes skipped ++
      slice stream resumed r'.durableOutputBytes ∧
    (skipped < resumed → replay.truncated = true ∧ resumed = replay.firstAvailableByte ∧
      resumed ≤ r'.durableFirstAvailableByte)

theorem append_faithful {s s' : Store} {limit : ℕ} {evicted : Bool} (hs : Sound s.db s.files)
    (hw : ∀ r ∈ s.db.runs, Window s.db r) (hname : validReplayFileName w = true)
    (hf : Faithful streams s.db s.files) (hcarries : Carries (streams id) replay)
    (h : appendReplayWithStorage s w id replay limit = .ok (s',evicted)) :
    Faithful streams s'.db s'.files ∧
      ∀ r ∈ s.db.runs, ∀ r' ∈ s'.db.runs, r'.id = r.id →
        (r.id ≠ id ∧ r' = r) ∨ (r.id = id ∧ Appended (streams id) w s.files s'.files replay r r') := by
  obtain ⟨row,c₁,c₂,db,oldest,bytes,hrow,hfold,hflush,hprune,rfl⟩ :=
    appendReplayWithStorage_eq_ok h
  obtain ⟨hmem,hid⟩ := Database.run?_mem hrow
  have hstart : Carried streams id w s replay row.durableOutputBytes
      { durableOldest := row.durableFirstAvailableByte, durableHead := row.durableOutputBytes,
        replayBytes := row.replayBytes, pending := [], pendingStart := 0, writer := w,
        db := s.db, files := s.files } row.durableOutputBytes :=
    ⟨hname,rfl,hs.backed,hf,fun hne => absurd rfl hne,by simp,[],row.durableOutputBytes,
      row.durableOutputBytes,Grown.refl w s.files,le_rfl,le_rfl,le_rfl,by simp,
      fun hlt => absurd hlt (lt_irrefl _)⟩
  have hcarried := (hstart.fold hfold hcarries).flush hflush
  obtain ⟨hhead,_,hpending⟩ := flushPendingRow_cursors hflush
  have hpacked := (packed_start hs hw hname hrow).fold hfold
  obtain ⟨hp₂,_,_,_⟩ := hpacked.1.flush hflush
  have htiles := hp₂.tiles hpending
  obtain ⟨hdb,_,_,hfloor⟩ := pruneRunReplayTo_spec htiles hp₂.bytes hprune
  have hcut : Faithful streams db c₂.files ∧ db.runs = c₂.db.runs := by
    rcases hdb with ⟨rfl,_⟩ | rfl
    · exact ⟨hcarried.faithful,rfl⟩
    · exact ⟨hcarried.faithful.shrink (cutFront_shrunk hp₂.packing.sound id oldest),rfl⟩
  refine ⟨fun chunk hc => hcut.1 chunk (by simpa using hc),fun r hr r' hr' hsame => ?_⟩
  have hruns := hcut.2.trans hp₂.packing.runs
  rcases Database.mem_updateRun hr' with ⟨hold,hne⟩ | ⟨old,hold,holdid,rfl⟩
  · rw [hruns] at hold
    obtain rfl := List.inj_on_of_nodup_map hs.ids hold hr hsame
    exact .inl ⟨hne,rfl⟩
  · rw [hruns] at hold
    obtain rfl := List.inj_on_of_nodup_map hs.ids hold hr hsame
    obtain rfl := List.inj_on_of_nodup_map hs.ids hold hmem (holdid.trans hid.symm)
    obtain ⟨payload,skipped,resumed,hgrown,hle₁,hle₂,hle₃,hpayload,hgap⟩ := hcarried.written
    rw [hpending,List.append_nil] at hpayload
    refine .inr ⟨hid,payload,skipped,resumed,hgrown,hle₁,hle₂,hhead ▸ hle₃,hhead ▸ hpayload,
      fun hlt => ?_⟩
    obtain ⟨htruncated,hfirst,hbelow⟩ := hgap hlt
    exact ⟨htruncated,hfirst,hbelow.trans hfloor⟩

/-- What every other writer does to bytes and heads: a row is a row of before, whole or
with its front cut, and reads the bytes it read; no Run's head moves but that of the Run
which is started. -/
structure Preserves (started : Option RunId) (s s' : Store) : Prop where
  bytes : ∀ row' ∈ s'.db.chunks, ∃ row ∈ s.db.chunks, ∃ k, row'.runId = row.runId ∧
    row'.startByte = row.startByte+k ∧ row'.endByte = row.endByte ∧
    extent s'.files row' = (extent s.files row).drop k
  heads : ∀ r' ∈ s'.db.runs, some r'.id = started ∨
    ∃ r ∈ s.db.runs, r.id = r'.id ∧ r.durableOutputBytes = r'.durableOutputBytes

namespace Preserves

variable {s s' s'' : Store} {started : Option RunId}

theorem trans (h : Preserves none s s') (h' : Preserves started s' s'') :
    Preserves started s s'' where
  bytes row'' hr := by
    obtain ⟨row',hr',j,hid',hstart',hend',hbytes'⟩ := h'.bytes row'' hr
    obtain ⟨row,hr,k,hid,hstart,hend,hbytes⟩ := h.bytes row' hr'
    refine ⟨row,hr,k+j,hid'.trans hid,by omega,hend'.trans hend,?_⟩
    rw [hbytes',hbytes,List.drop_drop]
  heads r'' hr := by
    rcases h'.heads r'' hr with hstarted | ⟨r',hr',hid',hhead'⟩
    · exact .inl hstarted
    · rcases h.heads r' hr' with hnone | ⟨r,hr,hid,hhead⟩
      · cases hnone
      · exact .inr ⟨r,hr,hid.trans hid',hhead.trans hhead'⟩

theorem faithful (h : Preserves started s s') (hf : Faithful streams s.db s.files) :
    Faithful streams s'.db s'.files := by
  intro row' hr'
  obtain ⟨row,hr,k,hid,hstart,hend,hbytes⟩ := h.bytes row' hr'
  rw [hbytes,hf row hr,drop_slice,hid,hstart,hend]

theorem head_eq (h : Preserves started s s') (hids : (s.db.runs.map (·.id)).Nodup) {r r' : RunRow}
    (hr : r ∈ s.db.runs) (hr' : r' ∈ s'.db.runs) (hid : r'.id = r.id) (hne : started ≠ some r.id) :
    r'.durableOutputBytes = r.durableOutputBytes := by
  rcases h.heads r' hr' with hstarted | ⟨old,hold,hsame,hhead⟩
  · exact absurd (hstarted.symm.trans (by rw [hid])) hne
  · obtain rfl := List.inj_on_of_nodup_map hids hold hr (hsame.trans hid)
    exact hhead.symm

/-- Rows of before under the same files, heads of before. -/
theorem of_rows (hchunks : ∀ row ∈ db.chunks, row ∈ s.db.chunks)
    (hruns : ∀ r' ∈ db.runs, some r'.id = started ∨
      ∃ r ∈ s.db.runs, r.id = r'.id ∧ r.durableOutputBytes = r'.durableOutputBytes) :
    Preserves started s ⟨db,s.files⟩ where
  bytes row hr := ⟨row,hchunks row hr,0,rfl,rfl,rfl,rfl⟩
  heads := hruns

theorem refl (s : Store) : Preserves none s s :=
  of_rows (fun _ hr => hr) fun r hr => .inr ⟨r,hr,rfl,rfl⟩

theorem of_files {files : Files}
    (hsame : ∀ row ∈ s.db.chunks, extent files row = extent s.files row) :
    Preserves none s ⟨s.db,files⟩ where
  bytes row hr := ⟨row,hr,0,rfl,rfl,rfl,hsame row hr⟩
  heads r hr := .inr ⟨r,hr,rfl,rfl⟩

theorem of_evicts (h : Evicts s.files s.db db) : Preserves none s ⟨db,s.files⟩ where
  bytes row' hr' := by
    obtain ⟨row,hr,k,_,rfl⟩ := h.retired.chunks.mem hr'
    exact ⟨row,hr,k,rfl,rfl,rfl,extent_trim s.files row k⟩
  heads r' hr' := by
    obtain ⟨r,hr,hrow⟩ := forall₂_mem_right h.retired.runs hr'
    exact .inr ⟨r,hr,by rw [hrow],by rw [hrow]⟩

theorem of_updateRun (id : RunId) {f : RunRow → RunRow}
    (hf : ∀ row, (f row).id = row.id ∧ (f row).durableOutputBytes = row.durableOutputBytes) :
    Preserves none s ⟨s.db.updateRun id f,s.files⟩ := by
  refine of_rows (fun row hr => by simpa using hr) fun r' hr' => .inr ?_
  rcases Database.mem_updateRun hr' with ⟨hr,_⟩ | ⟨r,hr,_,rfl⟩
  · exact ⟨r',hr,rfl,rfl⟩
  · exact ⟨r,hr,(hf r).1.symm,(hf r).2.symm⟩

theorem of_deleteRun (id : RunId) : Preserves none s ⟨s.db.deleteRun id,s.files⟩ := by
  refine of_rows (fun row hr => ?_) fun r' hr' => .inr ⟨r',?_,rfl,rfl⟩
  · unfold Database.deleteRun at hr
    split at hr
    · exact hr
    · exact (List.mem_filter.mp hr).1
  · rw [Database.deleteRun_runs] at hr'
    exact (List.mem_filter.mp hr').1

theorem of_deleteCandidates {candidates : List PersistentCandidate}
    {changed : PersistentCandidate → PersistenceError}
    (hok : candidates.foldlM (fun db c => deleteExact db c (changed c)) s.db = .ok db') :
    Preserves none s ⟨db',s.files⟩ := by
  induction candidates generalizing s with
  | nil =>
    obtain rfl := Except.ok.inj hok
    exact refl s
  | cons c cs ih =>
    rw [List.foldlM_cons] at hok
    obtain ⟨db,hdelete,hrest⟩ := bind_eq_ok.mp hok
    obtain rfl := deleteExact_eq_ok hdelete
    exact (of_deleteRun c.id).trans (ih (s := ⟨s.db.deleteRun c.id,s.files⟩) hrest)

theorem of_startupBatch {codec : Codec} {ids : List RunId}
    (hok : ids.foldlM (reconcileStartupRow codec) s.db = .ok db') :
    Preserves none s ⟨db',s.files⟩ := by
  induction ids generalizing s with
  | nil =>
    obtain rfl := Except.ok.inj hok
    exact refl s
  | cons id ids ih =>
    rw [List.foldlM_cons] at hok
    obtain ⟨db,hrow,hrest⟩ := bind_eq_ok.mp hok
    refine trans ?_ (ih (s := ⟨db,s.files⟩) hrest)
    unfold reconcileStartupRow at hrow
    split at hrow
    · split_ifs at hrow
      obtain rfl := Except.ok.inj hrow
      exact of_updateRun id fun _ => ⟨rfl,rfl⟩
    · cases hrow

theorem of_relocated (h : List.Forall₂ (Relocated s.files s'.files) s.db.chunks s'.db.chunks)
    (hruns : s'.db.runs = s.db.runs) : Preserves none s s' where
  bytes row' hr' := by
    obtain ⟨row,hr,hmoved⟩ := forall₂_mem_right h hr'
    exact ⟨row,hr,0,by rw [hmoved.same],by rw [hmoved.same,Nat.add_zero],by rw [hmoved.same],
      hmoved.bytes⟩
  heads r hr := .inr ⟨r,hruns ▸ hr,rfl,rfl⟩

end Preserves

variable {codec : Codec} {s s' : Store}

/-- The Run that a writer brings into the tables. -/
def StoreEvent.starts : StoreEvent codec → Option RunId
  | .start _ _ id _ _ _ => some id
  | _ => none

theorem preserves_start {epoch : { text : String // codec.parseUuid text = true }}
    {operationKey specJson : String} {id : RunId} {lineageJson : Option String}
    {candidates : List PersistentCandidate}
    (hok : applyExactReplacement s.db
      (prepareStart codec epoch operationKey id specJson lineageJson) candidates = .ok db') :
    Preserves (some id) s ⟨db',s.files⟩ := by
  obtain ⟨db,hdelete,hinsert⟩ := bind_eq_ok.mp hok
  refine (Preserves.of_deleteCandidates hdelete).trans ?_
  obtain ⟨_,_,rfl⟩ := Database.insertRun_eq_ok hinsert
  refine Preserves.of_rows (s := ⟨db,s.files⟩) (fun _ hr => hr) fun r' hr' => ?_
  rcases List.mem_append.mp hr' with hr | hr
  · exact .inr ⟨r',hr,rfl,rfl⟩
  · rw [List.mem_singleton.mp hr]
    exact .inl rfl

theorem WellFormed.preserves_publish (h : WellFormed codec s) {name : String}
    (hok : publishReplayFile s name = .ok s') : Preserves none s s' := by
  obtain ⟨_,_,hrest⟩ := bind_eq_ok.mp hok
  split at hrest
  · cases hrest
  · rename_i hfresh
    obtain rfl := Except.ok.inj hrest
    refine ⟨fun row hr => ⟨row,hr,0,rfl,rfl,rfl,?_⟩,fun r hr => .inr ⟨r,hr,rfl,rfl⟩⟩
    obtain ⟨_,content,hfile,_⟩ := h.sound.backed row hr
    have hne : row.dataFile ≠ name := by
      rintro heq
      rw [heq,hfresh] at hfile
      cases hfile
    simp [extent,Files.write_of_ne _ _ hne]

theorem extent_cutTail {row : ChunkRow} {name : String} {length : ℕ}
    (hle : row.dataFile = name → row.dataOffset+row.dataBytes ≤ length) :
    extent (s.files.write name (((s.files name).getD []).take length)) row =
      extent s.files row := by
  unfold extent
  by_cases heq : row.dataFile = name
  · have hend := hle heq
    rw [heq,Files.write_self,Option.getD_some,List.drop_take,List.take_take,
      Nat.min_eq_left (by omega)]
  · rw [Files.write_of_ne _ _ heq]

theorem WellFormed.preserves (h : WellFormed codec s) {e : StoreEvent codec}
    (hok : e.effect codec s = .ok s') (hne : ∀ id replay limit, e ≠ .append id replay limit) :
    Preserves e.starts s s' := by
  cases e with
  | start epoch operationKey id specJson lineageJson candidates =>
    obtain ⟨_,_,hrest⟩ := bind_eq_ok.mp hok
    obtain ⟨db,hdb,hrest⟩ := bind_eq_ok.mp hrest
    obtain rfl := Except.ok.inj hrest
    exact preserves_start hdb
  | append id replay replayLimit => exact absurd rfl (hne id replay replayLimit)
  | pruneGlobal replayLimit rows =>
    obtain ⟨⟨fits,db⟩,hprune,hrest⟩ := bind_eq_ok.mp hok
    obtain rfl := Except.ok.inj hrest
    exact .of_evicts (evicts_pruneGlobal h.sound h.windows hprune)
  | trimOldest replayLimit rows =>
    obtain ⟨⟨fits,db⟩,htrim,hrest⟩ := bind_eq_ok.mp hok
    obtain rfl := Except.ok.inj hrest
    exact .of_evicts (evicts_trimOldestRow h.sound h.windows htrim)
  | reclaimPrefix needed target rows =>
    obtain ⟨⟨found,db⟩,hreclaim,hrest⟩ := bind_eq_ok.mp hok
    obtain rfl := Except.ok.inj hrest
    exact .of_evicts (evicts_reclaimConfirmedPrefix h.sound h.windows hreclaim)
  | reclaimPages capacity rows =>
    obtain ⟨db,hreclaim,hrest⟩ := bind_eq_ok.mp hok
    obtain rfl := Except.ok.inj hrest
    exact .of_evicts (evicts_reclaimDatabasePages h.sound h.windows hreclaim)
  | settle terminal =>
    simp only [StoreEvent.effect] at hok
    split at hok
    · obtain ⟨db,hsettle,hrest⟩ := bind_eq_ok.mp hok
      obtain rfl := Except.ok.inj hrest
      obtain ⟨row,_,hupdate⟩ := bind_eq_ok.mp hsettle
      simp only at hupdate
      split at hupdate
      · cases hupdate
      · obtain rfl := Except.ok.inj hupdate
        exact .of_updateRun terminal.id fun _ => ⟨rfl,rfl⟩
    · obtain rfl := Except.ok.inj hok
      exact .refl s
  | remove candidate =>
    obtain ⟨db,hremove,hrest⟩ := bind_eq_ok.mp hok
    obtain rfl := Except.ok.inj hrest
    obtain rfl := deleteExact_eq_ok hremove
    exact .of_deleteRun candidate.id
  | publish name => exact h.preserves_publish hok
  | move source cursor rowLimit =>
    obtain ⟨moved,hmove,hrest⟩ := bind_eq_ok.mp hok
    obtain rfl := Except.ok.inj hrest
    cases moved with
    | none => exact .refl s
    | some next =>
      obtain ⟨_,hall,hdb,_⟩ := compactBatch_spec h.sound h.active.1 hmove
      exact .of_relocated hall (by rw [Option.map_some,Option.getD_some,hdb])
  | retire name =>
    simp only [StoreEvent.effect] at hok
    split at hok
    · obtain rfl := Except.ok.inj hok
      exact .refl s
    · rename_i hnot
      obtain rfl := Except.ok.inj hok
      refine .of_files fun row hr => ?_
      have hrow : row.dataFile ≠ name := fun heq => hnot (.inr ⟨row,hr,heq⟩)
      simp [extent,Files.remove_of_ne _ hrow]
  | startupBatch liveSet limit =>
    obtain ⟨db,hbatch,hrest⟩ := bind_eq_ok.mp hok
    obtain rfl := Except.ok.inj hrest
    exact .of_startupBatch hbatch
  | normalizeFiles =>
    obtain ⟨files,hfiles,hrest⟩ := bind_eq_ok.mp hok
    obtain rfl := Except.ok.inj hrest
    obtain rfl := normalizeReplayFiles_eq_ok hfiles
    exact .of_files (h.sound.normalized s.db.replayFile).2
  | reopen =>
    obtain rfl := Except.ok.inj hok
    exact .of_rows (fun _ hr => hr) fun r hr => .inr ⟨r,hr,rfl,rfl⟩
  | leaveTail bytes =>
    obtain rfl := Except.ok.inj hok
    exact .of_files fun row hr => extent_grow (h.sound.backed row hr) _ bytes
  | cutTail length =>
    simp only [StoreEvent.effect] at hok
    split at hok
    · rename_i hend
      obtain rfl := Except.ok.inj hok
      refine .of_files fun row hr => extent_cutTail fun heq => ?_
      exact (extent_le_referencedEnd hr).trans (heq ▸ hend)
    · obtain rfl := Except.ok.inj hok
      exact .refl s

/-- The replays of a writer carry the bytes of their Run's stream. -/
def StoreEvent.Honest (streams : RunId → ℕ → Byte) : StoreEvent codec → Prop
  | .append id replay _ => Carries (streams id) replay
  | _ => True

/-- How a writer may move the head of a Run: it stays, or an append of this Run put the
bytes in between into the active file. -/
def Advances (streams : RunId → ℕ → Byte) (s s' : Store) (e : StoreEvent codec) (r r' : RunRow) :
    Prop :=
  r'.durableOutputBytes = r.durableOutputBytes ∨
    ∃ replay limit, e = .append r.id replay limit ∧
      Appended (streams r.id) s.db.replayFile s.files s'.files replay r r'

theorem WellFormed.faithful_step (h : WellFormed codec s) {e : StoreEvent codec}
    (hf : Faithful streams s.db s.files) (hhonest : e.Honest streams) :
    Faithful streams (storeStep codec s e).db (storeStep codec s e).files ∧
      ∀ r ∈ s.db.runs, ∀ r' ∈ (storeStep codec s e).db.runs, r'.id = r.id → e.starts ≠ some r.id →
        Advances streams s (storeStep codec s e) e r r' := by
  unfold storeStep
  split
  · rename_i s' hok
    by_cases happend : ∃ id replay limit, e = .append id replay limit
    · obtain ⟨id,replay,limit,rfl⟩ := happend
      obtain ⟨⟨next,evicted⟩,hstored,hrest⟩ := bind_eq_ok.mp hok
      obtain rfl := Except.ok.inj hrest
      obtain ⟨hfaithful,hheads⟩ := append_faithful h.sound h.windows h.active.1 hf hhonest hstored
      refine ⟨hfaithful,fun r hr r' hr' hid _ => ?_⟩
      rcases hheads r hr r' hr' hid with ⟨_,rfl⟩ | ⟨rfl,happended⟩
      · exact .inl rfl
      · exact .inr ⟨replay,limit,rfl,happended⟩
    · push Not at happend
      have hkept := h.preserves hok happend
      exact ⟨hkept.faithful hf,fun r hr r' hr' hid hne =>
        .inl (hkept.head_eq h.sound.ids hr hr' hid hne)⟩
  · refine ⟨hf,fun r hr r' hr' hid _ => .inl ?_⟩
    rw [List.inj_on_of_nodup_map h.sound.ids hr' hr hid]

/-- A step of the store under a writer whose replays are honest. -/
def honestStep (codec : Codec) (streams : RunId → ℕ → Byte) (s : Store)
    (e : { e : StoreEvent codec // e.Honest streams }) : Store := storeStep codec s e

/-- In every committed state of a created store under honest writers, every extent holds
its Run's bytes. -/
theorem faithful_run {replayFile : String} (hname : validReplayFileName replayFile = true)
    (es : List { e : StoreEvent codec // e.Honest streams }) :
    let s := Machine.run (honestStep codec streams) (createdStore replayFile) es
    WellFormed codec s ∧ Faithful streams s.db s.files := by
  refine Machine.run_invariant (I := fun s => WellFormed codec s ∧ Faithful streams s.db s.files)
    (fun s e h => ⟨h.1.step e.1,(h.1.faithful_step h.2 e.2).1⟩) ?_ es
  exact ⟨wellFormed_created codec hname,fun row hr => absurd hr List.not_mem_nil⟩

end Durable
end Ctxmux
