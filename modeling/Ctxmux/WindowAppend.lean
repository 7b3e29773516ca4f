import Ctxmux.ReplayWindow

/-!
# Appends keep the window

The loop of an append over its chunks: between two chunks the rows of the Run tile
the range up to the buffered bytes, the buffer is the rest of the range, and the
tables of every other Run are untouched.
-/

namespace Ctxmux
namespace Durable

open Tiling

variable {db : Database} {id : RunId} {files : Files} {c c' : ReplayCursors} {w writer : String}
  {s₀ : Store} {chunk : OutputChunk} {replay : OutputReplay}

theorem Database.insertChunk_eq_ok {db' : Database} {a b n : ℕ} {file : String} {offset : ℕ}
    (h : db.insertChunk id a b file offset n = .ok db') :
    a < b ∧ 0 < n ∧ (∃ r ∈ db.runs, r.id = id) ∧
      db' = { db with
        chunks := db.chunks ++ [⟨db.nextOrdinal,id,a,b,file,offset,n⟩]
        nextOrdinal := db.nextOrdinal+1 } := by
  unfold insertChunk at h
  split at h
  · rename_i hc
    exact ⟨hc.1,hc.2.1,hc.2.2.1,(Except.ok.inj h).symm⟩
  · cases h

theorem writerAppend_eq_ok {files' : Files} {name : String} {data : List Byte} {offset : ℕ}
    (h : writerAppend files name data = .ok (files',offset)) :
    offset = files.len name ∧ files' = files.write name ((files name).getD [] ++ data) := by
  unfold writerAppend at h
  split at h
  · cases h
  · have hpair := Prod.mk.inj (Except.ok.inj h)
    exact ⟨hpair.2.symm,hpair.1.symm⟩

theorem Backed.write {row : ChunkRow} (h : Backed files row) (name : String) (data : List Byte) :
    Backed (files.write name ((files name).getD [] ++ data)) row := by
  obtain ⟨hname,content,hfile,hlen⟩ := h
  by_cases heq : row.dataFile = name
  · subst heq
    refine ⟨hname,(files row.dataFile).getD [] ++ data,Files.write_self _ _ _,?_⟩
    simp only [hfile,Option.getD_some,List.length_append]
    omega
  · exact ⟨hname,content,(Files.write_of_ne files _ heq).trans hfile,hlen⟩

theorem Backed.extent_le_len {row : ChunkRow} (h : Backed files row) :
    row.dataOffset+row.dataBytes ≤ files.len row.dataFile := by
  obtain ⟨_,content,hfile,hlen⟩ := h
  simpa [Files.len,hfile] using hlen

/-- The writer's file grew by `payload`, every other file is untouched. -/
structure Grown (writer : String) (files files' : Files) (payload : List Byte) : Prop where
  others : ∀ other, other ≠ writer → files' other = files other
  tail : (files' writer).getD [] = (files writer).getD [] ++ payload
  kept : (files writer).isSome → (files' writer).isSome

theorem Grown.refl (writer : String) (files : Files) : Grown writer files files [] :=
  ⟨fun _ _ => rfl,by simp,fun h => h⟩

theorem Grown.write {files' : Files} {payload : List Byte} (h : Grown writer files files' payload)
    (data : List Byte) :
    Grown writer files (files'.write writer ((files' writer).getD [] ++ data)) (payload ++ data) where
  others other hne := (Files.write_of_ne files' _ hne).trans (h.others other hne)
  tail := by simp [h.tail]
  kept _ := by simp

/-- A payload at the end of the writer's file and its row keep the tables sound. -/
theorem Sound.insert (h : Sound db files) {name : String} (hname : validReplayFileName name = true)
    {data : List Byte} (hdata : data ≠ []) (hid : ∃ r ∈ db.runs, r.id = id) (a : ℕ) :
    Sound { db with
        chunks := db.chunks ++
          [⟨db.nextOrdinal,id,a,a+data.length,name,files.len name,data.length⟩]
        nextOrdinal := db.nextOrdinal+1 }
      (files.write name ((files name).getD [] ++ data)) where
  ids := h.ids
  keys := h.keys
  accounting := h.accounting
  ordinals := by
    refine List.pairwise_append.mpr ⟨h.ordinals,List.pairwise_singleton _ _,?_⟩
    intro row hr new hn
    rw [List.mem_singleton.mp hn]
    exact h.fresh row hr
  fresh row hr := by
    rcases List.mem_append.mp hr with hr | hr
    · exact Nat.lt_succ_of_lt (h.fresh row hr)
    · rw [List.mem_singleton.mp hr]
      exact Nat.lt_succ_self _
  owned row hr := by
    rcases List.mem_append.mp hr with hr | hr
    · exact h.owned row hr
    · rw [List.mem_singleton.mp hr]
      exact hid
  filled row hr := by
    rcases List.mem_append.mp hr with hr | hr
    · exact h.filled row hr
    · rw [List.mem_singleton.mp hr]
      exact List.length_pos_iff.mpr hdata
  sized row hr := by
    rcases List.mem_append.mp hr with hr | hr
    · exact h.sized row hr
    · rw [List.mem_singleton.mp hr]
      simp
  apart := by
    refine List.pairwise_append.mpr ⟨h.apart,List.pairwise_singleton _ _,?_⟩
    intro row hr new hn hfile
    rw [List.mem_singleton.mp hn] at hfile ⊢
    have hle := (h.backed row hr).extent_le_len
    rw [show row.dataFile = name from hfile] at hle
    exact .inl hle
  backed row hr := by
    rcases List.mem_append.mp hr with hr | hr
    · exact (h.backed row hr).write name data
    · rw [List.mem_singleton.mp hr]
      refine ⟨hname,_,Files.write_self _ _ _,?_⟩
      simp [Files.len]

/-- The tables during an append to one Run: its rows end at `stored`, the buffer
begins there, and everything else is as at the beginning. -/
structure Packing (id : RunId) (w : String) (s₀ : Store) (c : ReplayCursors) (stored : ℕ) : Prop where
  sound : Sound c.db c.files
  name : validReplayFileName w = true
  writer : c.writer = w
  grown : ∃ payload, Grown w s₀.files c.files payload
  runs : c.db.runs = s₀.db.runs
  others : ∀ other, other ≠ id → c.db.rowsOf other = s₀.db.rowsOf other
  replayFile : c.db.replayFile = s₀.db.replayFile
  tiles : Tiles ChunkRow.startByte ChunkRow.endByte c.durableOldest (c.db.rowsOf id) stored
  begins : c.pending ≠ [] → c.pendingStart = stored

/-- A flush changes the tables and the file, and empties the buffer. -/
theorem flushPendingRow_eq_ok (h : flushPendingRow id c = .ok c') :
    ∃ db files, c' = { c with db := db, files := files, pending := [] } ∧
      (c.pending = [] → db = c.db ∧ files = c.files) ∧
      (c.pending ≠ [] → files = c.files.write c.writer ((c.files c.writer).getD [] ++ c.pending) ∧
        c.db.insertChunk id c.pendingStart (c.pendingStart+c.pending.length) c.writer
          (c.files.len c.writer) c.pending.length = .ok db) := by
  unfold flushPendingRow at h
  split at h
  · rename_i hnil
    obtain rfl := Except.ok.inj h
    exact ⟨c.db,c.files,by rw [← hnil],fun _ => ⟨rfl,rfl⟩,fun hne => absurd hnil hne⟩
  · rename_i hne
    split at h
    · cases h
    · obtain ⟨⟨files,offset⟩,hw,hrest⟩ := bind_eq_ok.mp h
      obtain ⟨hoffset,hfiles⟩ := writerAppend_eq_ok hw
      obtain ⟨db,hdb,hc⟩ := bind_eq_ok.mp hrest
      exact ⟨db,files,(Except.ok.inj hc).symm,fun hnil => absurd hnil hne,
        fun _ => ⟨hfiles,hoffset ▸ hdb⟩⟩

theorem Packing.flush {stored : ℕ} (hp : Packing id w s₀ c stored)
    (h : flushPendingRow id c = .ok c') :
    Packing id w s₀ c' (stored+c.pending.length) := by
  obtain ⟨db,files,rfl,hnil,hcons⟩ := flushPendingRow_eq_ok h
  by_cases hpending : c.pending = []
  · obtain ⟨rfl,rfl⟩ := hnil hpending
    exact ⟨hp.sound,hp.name,hp.writer,hp.grown,hp.runs,hp.others,hp.replayFile,
      by simpa [hpending] using hp.tiles,fun hne => absurd rfl hne⟩
  · obtain ⟨rfl,hdb⟩ := hcons hpending
    rw [hp.writer] at hdb ⊢
    obtain ⟨hlt,hpos,hid,rfl⟩ := Database.insertChunk_eq_ok hdb
    have hstart := hp.begins hpending
    obtain ⟨payload,hgrown⟩ := hp.grown
    refine ⟨hp.sound.insert hp.name hpending hid _,hp.name,rfl,
      ⟨_,hgrown.write c.pending⟩,hp.runs,?_,hp.replayFile,?_,fun hne => absurd rfl hne⟩
    · intro other hne
      rw [← hp.others other hne]
      simp [Database.rowsOf,List.filter_append,Ne.symm hne]
    · have hrows := hp.tiles.concat (x := ⟨c.db.nextOrdinal,id,c.pendingStart,
        c.pendingStart+c.pending.length,w,c.files.len w,c.pending.length⟩) hstart hlt
      simpa [Database.rowsOf,List.filter_append,hstart] using hrows

/-- Between two chunks: the rows end where the buffer begins, the buffer ends at the
head, and the byte count is the length of the window. -/
structure Packed (id : RunId) (w : String) (s₀ : Store) (c : ReplayCursors) : Prop where
  room : c.durableOldest+c.pending.length ≤ c.durableHead
  packing : Packing id w s₀ c (c.durableHead-c.pending.length)
  bytes : c.replayBytes = c.durableHead-c.durableOldest
  bound : c.durableHead ≤ i64Max

theorem Packed.flush (hp : Packed id w s₀ c) (h : flushPendingRow id c = .ok c') :
    Packed id w s₀ c' ∧ c'.pending = [] ∧ c'.durableOldest = c.durableOldest ∧
      c'.durableHead = c.durableHead := by
  have hrows := hp.packing.flush h
  obtain ⟨db,files,rfl,_,_⟩ := flushPendingRow_eq_ok h
  have hroom := hp.room
  have hstored : c.durableHead-c.pending.length+c.pending.length = c.durableHead := by omega
  rw [hstored] at hrows
  exact ⟨⟨by simpa using (by omega : c.durableOldest ≤ c.durableHead),by simpa using hrows,
    hp.bytes,hp.bound⟩,rfl,rfl,rfl⟩

theorem checkChunkRange_eq_ok (h : checkChunkRange id chunk = .ok ()) :
    chunk.startByte+chunk.data.length = chunk.endByte ∧ chunk.data ≠ [] ∧
      chunk.endByte ≤ i64Max := by
  unfold checkChunkRange at h
  split_ifs at h with hrange hstart hend
  refine ⟨by omega,?_,by omega⟩
  rintro hnil
  rw [hnil] at hrange
  simp only [List.length_nil] at hrange
  omega

theorem Packed.verify (hp : Packed id w s₀ c) (h : verifyChunk id chunk c = .ok c') :
    Packed id w s₀ c' ∧ c'.durableOldest = c.durableOldest ∧ c'.durableHead = c.durableHead := by
  unfold verifyChunk at h
  split at h
  · cases h
  · obtain ⟨c₁,hflush,hrest⟩ := bind_eq_ok.mp h
    obtain ⟨same,_,hrest⟩ := bind_eq_ok.mp hrest
    split at hrest
    · obtain rfl := Except.ok.inj hrest
      obtain ⟨hpacked,_,holdest,hhead⟩ := hp.flush hflush
      exact ⟨hpacked,holdest,hhead⟩
    · cases hrest

/-- Resetting the window above every row of the Run empties it. -/
theorem Packed.reset {floor : ℕ} (hp : Packed id w s₀ c) (hpending : c.pending = [])
    (hfloor : c.durableHead < floor) (hbound : floor ≤ i64Max) :
    Packed id w s₀ { c with
      db := (resetWindowTo c.db id floor).1
      replayBytes := (resetWindowTo c.db id floor).2
      durableOldest := floor
      durableHead := floor } := by
  have htiles : Tiles ChunkRow.startByte ChunkRow.endByte c.durableOldest (c.db.rowsOf id)
      c.durableHead := by
    simpa [hpending] using hp.packing.tiles
  have hgone : (resetWindowTo c.db id floor).1.rowsOf id = [] := by
    refine List.filter_eq_nil_iff.mpr fun row hr hid => ?_
    obtain ⟨hmem,hkept⟩ := List.mem_filter.mp hr
    have hrow : row ∈ c.db.rowsOf id := List.mem_filter.mpr ⟨hmem,hid⟩
    have hrange := htiles.mem_bounds hrow
    simp only [decide_eq_true_eq] at hid hkept
    exact hkept ⟨hid,by omega⟩
  have hcount : (resetWindowTo c.db id floor).2 = 0 := by
    have : (resetWindowTo c.db id floor).2 =
      (((resetWindowTo c.db id floor).1.rowsOf id).map (·.dataBytes)).sum := rfl
    rw [this,hgone]
    rfl
  refine ⟨by simp [hpending],⟨?_,hp.packing.name,hp.packing.writer,hp.packing.grown,hp.packing.runs,?_,
    hp.packing.replayFile,?_,?_⟩,by simp [hcount],hbound⟩
  · exact hp.packing.sound.shrink (Shrunk.filter hp.packing.sound.filled _)
  · intro other hne
    rw [← hp.packing.others other hne]
    simp only [Database.rowsOf,resetWindowTo,List.filter_filter]
    refine List.filter_congr fun row _ => ?_
    by_cases hrow : row.runId = other
    · simp [hrow,hne]
    · simp [hrow]
  · simp [hgone,hpending]
  · exact fun hne => absurd hpending hne

theorem Packed.jump (hp : Packed id w s₀ c) (h : jumpGap id replay chunk c = .ok c')
    (hstart : c.durableHead ≤ chunk.startByte) (hbound : chunk.startByte ≤ i64Max) :
    Packed id w s₀ c' ∧ c'.durableHead = chunk.startByte ∧
      (c' = c ∨ (replay.truncated = true ∧ chunk.startByte = replay.firstAvailableByte ∧
        c.durableHead < chunk.startByte ∧ c'.durableOldest = chunk.startByte)) := by
  unfold jumpGap at h
  split_ifs at h with heq hgap
  · obtain rfl := Except.ok.inj h
    exact ⟨hp,heq.symm,.inl rfl⟩
  · obtain ⟨c₁,hflush,hrest⟩ := bind_eq_ok.mp h
    obtain ⟨hpacked,hpending,_,hhead⟩ := hp.flush hflush
    obtain rfl := Except.ok.inj hrest
    have hlt : c₁.durableHead < chunk.startByte := by omega
    exact ⟨hpacked.reset hpending hlt hbound,rfl,
      .inr ⟨by simpa using hgap.1,hgap.2,by omega,rfl⟩⟩

theorem Packed.beginStream_eq (hp : Packed id w s₀ c) (hstart : chunk.startByte = c.durableHead) :
    beginStream chunk c = c := by
  have hroom := hp.room
  unfold beginStream
  split
  · rename_i hzero
    have holdest : chunk.startByte = c.durableOldest := by omega
    rw [holdest]
  · rfl

theorem Packing.flushFull {stored : ℕ} (hp : Packing id w s₀ c stored)
    (h : flushFullRow id c = .ok c') :
    c'.pending.length ≤ c.pending.length ∧
      Packing id w s₀ c' (stored+(c.pending.length-c'.pending.length)) ∧
      ∃ db files, c' = { c with db := db, files := files, pending := c'.pending } := by
  unfold flushFullRow at h
  split at h
  · have hrows := hp.flush h
    obtain ⟨db,files,rfl,_,_⟩ := flushPendingRow_eq_ok h
    exact ⟨by simp,by simpa using hrows,db,files,rfl⟩
  · obtain rfl := Except.ok.inj h
    exact ⟨le_rfl,by simpa using hp,c.db,c.files,rfl⟩

/-- The buffer may be extended by the immediate successor of the head. -/
theorem Packed.extend (hp : Packed id w s₀ c) (hstart : chunk.startByte = c.durableHead) :
    Packing id w s₀ (extendPending chunk c) (c.durableHead-c.pending.length) := by
  refine ⟨hp.packing.sound,hp.packing.name,hp.packing.writer,hp.packing.grown,hp.packing.runs,
    hp.packing.others,hp.packing.replayFile,hp.packing.tiles,fun _ => ?_⟩
  by_cases hnil : c.pending = []
  · simp [extendPending,hnil,hstart]
  · simpa [extendPending,hnil] using hp.packing.begins hnil

theorem Packed.buffer (hp : Packed id w s₀ c) (h : bufferChunk id chunk c = .ok c')
    (hstart : chunk.startByte = c.durableHead)
    (hrange : chunk.startByte+chunk.data.length = chunk.endByte) (hbound : chunk.endByte ≤ i64Max) :
    Packed id w s₀ c' ∧ c'.durableOldest = c.durableOldest ∧ c'.durableHead = chunk.endByte := by
  unfold bufferChunk at h
  rw [hp.beginStream_eq hstart] at h
  obtain ⟨c₁,hflush,hrest⟩ := bind_eq_ok.mp h
  have hroom := hp.room
  have hbytes := hp.bytes
  obtain ⟨hle,hrows,db,files,hc₁⟩ := (hp.extend hstart).flushFull hflush
  have hlength : (extendPending chunk c).pending.length = c.pending.length+chunk.data.length := by
    simp [extendPending]
  rw [hlength] at hle hrows
  obtain rfl := Except.ok.inj hrest
  have hfields : c₁.durableOldest = c.durableOldest ∧ c₁.replayBytes = c.replayBytes := by
    rw [hc₁]
    exact ⟨rfl,rfl⟩
  refine ⟨⟨?_,?_,?_,hbound⟩,hfields.1,rfl⟩
  · simp only [hfields.1]
    omega
  · have hstored : c.durableHead-c.pending.length+
        (c.pending.length+chunk.data.length-c₁.pending.length) =
        chunk.endByte-c₁.pending.length := by omega
    rw [hstored] at hrows
    exact ⟨hrows.sound,hrows.name,hrows.writer,hrows.grown,hrows.runs,hrows.others,hrows.replayFile,
      hrows.tiles,hrows.begins⟩
  · simp only [hfields.1,hfields.2]
    omega

/-- The floor stayed, or it jumped over a gap to the surviving front of a truncated log. -/
def FloorKept (replay : OutputReplay) (head oldest oldest' : ℕ) : Prop :=
  oldest' = oldest ∨
    (replay.truncated = true ∧ oldest' = replay.firstAvailableByte ∧ head < oldest')

theorem FloorKept.trans {head head' a b c : ℕ} (h₁ : FloorKept replay head a b)
    (h₂ : FloorKept replay head' b c) (hle : head ≤ head') :
    FloorKept replay head a c := by
  rcases h₂ with rfl | ⟨htr,hfirst,hlt⟩
  · exact h₁
  · exact .inr ⟨htr,hfirst,by omega⟩

/-- One aligned chunk keeps the window; the head never moves back, and the floor moves
only over a gap that the replay proves unrecoverable. -/
theorem Packed.aligned (hp : Packed id w s₀ c) (h : applyAligned id replay chunk c = .ok c')
    (hside : chunk.endByte ≤ c.durableHead ∨ c.durableHead ≤ chunk.startByte) :
    Packed id w s₀ c' ∧ c'.durableHead = max c.durableHead chunk.endByte ∧
      FloorKept replay c.durableHead c.durableOldest c'.durableOldest := by
  obtain ⟨_,hcheck,hrest⟩ := bind_eq_ok.mp h
  obtain ⟨hrange,hne,hbound⟩ := checkChunkRange_eq_ok hcheck
  have hpos := List.length_pos_iff.mpr hne
  split at hrest
  · rename_i hbelow
    obtain ⟨hpacked,holdest,hhead⟩ := hp.verify hrest
    exact ⟨hpacked,by rw [hhead,max_eq_left hbelow],.inl holdest⟩
  · rename_i habove
    have hstart : c.durableHead ≤ chunk.startByte := by omega
    obtain ⟨c₁,hjump,hbuffer⟩ := bind_eq_ok.mp hrest
    obtain ⟨hpacked,hhead,hfloor⟩ := hp.jump hjump hstart (by omega)
    obtain ⟨hpacked',holdest,hhead'⟩ := hpacked.buffer hbuffer hhead.symm hrange hbound
    refine ⟨hpacked',by rw [hhead',max_eq_right (by omega)],?_⟩
    rcases hfloor with rfl | ⟨htr,hfirst,hgap,hmoved⟩
    · exact .inl holdest
    · exact .inr ⟨htr,by rw [holdest,hmoved,hfirst],by omega⟩

theorem Packed.apply (hp : Packed id w s₀ c) (h : applyReplayChunk id replay c chunk = .ok c') :
    Packed id w s₀ c' ∧ c'.durableHead = max c.durableHead chunk.endByte ∧
      FloorKept replay c.durableHead c.durableOldest c'.durableOldest := by
  obtain ⟨_,_,hrest⟩ := bind_eq_ok.mp h
  split at hrest
  · rename_i hstraddle
    obtain ⟨c₁,hfront,hsuffix⟩ := bind_eq_ok.mp hrest
    obtain ⟨hp₁,hhead₁,hfloor₁⟩ := hp.aligned hfront (.inl le_rfl)
    rw [max_self] at hhead₁
    obtain ⟨hp₂,hhead₂,hfloor₂⟩ := hp₁.aligned hsuffix (.inr (by simp only; omega))
    refine ⟨hp₂,by rw [hhead₂,hhead₁],hfloor₁.trans hfloor₂ (le_of_eq hhead₁.symm)⟩
  · rename_i hside
    exact hp.aligned hrest (by omega)

theorem Packed.fold {chunks : List OutputChunk} (hp : Packed id w s₀ c)
    (h : chunks.foldlM (applyReplayChunk id replay) c = .ok c') :
    Packed id w s₀ c' ∧ c.durableHead ≤ c'.durableHead ∧
      FloorKept replay c.durableHead c.durableOldest c'.durableOldest := by
  induction chunks generalizing c with
  | nil =>
    obtain rfl := Except.ok.inj h
    exact ⟨hp,le_rfl,.inl rfl⟩
  | cons chunk chunks ih =>
    rw [List.foldlM_cons] at h
    obtain ⟨c₁,happly,hrest⟩ := bind_eq_ok.mp h
    obtain ⟨hp₁,hhead₁,hfloor₁⟩ := hp.apply happly
    obtain ⟨hp₂,hhead₂,hfloor₂⟩ := ih hp₁ hrest
    have hle : c.durableHead ≤ c₁.durableHead := by omega
    exact ⟨hp₂,by omega,hfloor₁.trans hfloor₂ hle⟩

/-- Rows of one Run under a row update that keeps the owner. -/
theorem filter_map_runId {rows : List ChunkRow} {f : ChunkRow → ChunkRow} (id : RunId)
    (hf : ∀ row, (f row).runId = row.runId) :
    (rows.map f).filter (·.runId = id) = (rows.filter (·.runId = id)).map f := by
  rw [List.filter_map]
  congr 1
  refine List.filter_congr fun row _ => ?_
  simp [hf]

theorem clipRow_runId (id : RunId) (front : ℕ) (row : ChunkRow) :
    (clipRow id front row).runId = row.runId := by
  unfold clipRow
  split <;> rfl

theorem cutFront_rowsOf_ne {other : RunId} (front : ℕ) (hne : other ≠ id) :
    (db.cutFront id front).rowsOf other = db.rowsOf other := by
  have hkeep : ∀ row ∈ (db.chunks.map (clipRow id front)).filter (·.runId = other),
      (decide ¬(row.runId = id ∧ row.endByte ≤ front)) = true := by
    intro row hr
    have hid : row.runId = other := by simpa using (List.mem_filter.mp hr).2
    simp [hid,hne]
  have hfix : ∀ row ∈ db.chunks.filter (·.runId = other), clipRow id front row = row := by
    intro row hr
    have hid : row.runId = other := by simpa using (List.mem_filter.mp hr).2
    simp [clipRow,hid,hne]
  calc (db.cutFront id front).rowsOf other
      = ((db.chunks.map (clipRow id front)).filter (·.runId = other)).filter
          fun row => decide ¬(row.runId = id ∧ row.endByte ≤ front) := List.filter_comm _ _ _
    _ = (db.chunks.map (clipRow id front)).filter (·.runId = other) :=
        List.filter_eq_self.mpr hkeep
    _ = (db.chunks.filter (·.runId = other)).map (clipRow id front) :=
        filter_map_runId other (clipRow_runId id front)
    _ = db.chunks.filter (·.runId = other) :=
        (List.map_congr_left hfix).trans (List.map_id' _)

theorem cutFront_rowsOf_self (db : Database) (id : RunId) (front : ℕ) :
    (db.cutFront id front).rowsOf id =
      ((db.rowsOf id).map (Tiles.clipAt ChunkRow.startByte ChunkRow.endByte (ChunkRow.clip front)
        front)).filter fun row => front < row.endByte := by
  have hclip : ∀ row ∈ db.rowsOf id, clipRow id front row =
      Tiles.clipAt ChunkRow.startByte ChunkRow.endByte (ChunkRow.clip front) front row := by
    intro row hr
    have hid : row.runId = id := by simpa using (List.mem_filter.mp hr).2
    simp [clipRow,Tiles.clipAt,hid]
  calc (db.cutFront id front).rowsOf id
      = ((db.chunks.map (clipRow id front)).filter (·.runId = id)).filter
          fun row => decide ¬(row.runId = id ∧ row.endByte ≤ front) := List.filter_comm _ _ _
    _ = ((db.chunks.map (clipRow id front)).filter (·.runId = id)).filter
          fun row => decide (front < row.endByte) := by
        refine List.filter_congr fun row hr => ?_
        have hid : row.runId = id := by simpa using (List.mem_filter.mp hr).2
        simp [hid]
    _ = ((db.rowsOf id).map (clipRow id front)).filter fun row => decide (front < row.endByte) := by
        rw [filter_map_runId id (clipRow_runId id front)]
        rfl
    _ = _ := by rw [List.map_congr_left hclip]
theorem cutFront_shrunk (hs : Sound db files) (id : RunId) (front : ℕ) :
    Shrunk db.chunks (db.cutFront id front).chunks := by
  have hsize : ∀ row ∈ db.chunks, row.runId = id ∧ row.startByte < front ∧ front < row.endByte →
      row.clip front = row.trim (front-row.startByte) ∧ front-row.startByte < row.dataBytes := by
    intro row hr hc
    have := hs.sized row hr
    exact ⟨ChunkRow.clip_eq_trim (by omega) this,by omega⟩
  have hmap := Shrunk.mapTrim hs.filled
    (fun row => row.runId = id ∧ row.startByte < front ∧ front < row.endByte)
    (fun row => front-row.startByte) fun row hr hc => (hsize row hr hc).2
  have hclipped : (db.chunks.map fun row =>
        if row.runId = id ∧ row.startByte < front ∧ front < row.endByte then
          row.trim (front-row.startByte) else row) = db.chunks.map (clipRow id front) := by
    refine List.map_congr_left fun row hr => ?_
    unfold clipRow
    split
    · rename_i hc
      exact (hsize row hr hc).1.symm
    · rfl
  rw [hclipped] at hmap
  exact hmap.trans (Shrunk.filter (fun row hr => (hs.shrink hmap).filled row hr) _)

/-- Pruning one Run cuts the front of its window and touches nothing else. -/
theorem pruneRunReplayTo_spec {db' : Database} {oldest head bytes limit oldest' bytes' : ℕ}
    {evicted : Bool} (ht : Tiles ChunkRow.startByte ChunkRow.endByte oldest (db.rowsOf id) head)
    (hb : bytes = head-oldest)
    (h : pruneRunReplayTo db id oldest bytes limit = .ok (db',oldest',bytes',evicted)) :
    (db' = db ∧ oldest' = oldest ∨ db' = db.cutFront id oldest') ∧
      Tiles ChunkRow.startByte ChunkRow.endByte oldest' (db'.rowsOf id) head ∧
      bytes' = head-oldest' ∧ oldest ≤ oldest' := by
  have hle := ht.le
  unfold pruneRunReplayTo at h
  split at h
  · obtain ⟨rfl,rfl,rfl,_⟩ : db = db' ∧ oldest = oldest' ∧ bytes = bytes' ∧ false = evicted := by
      simpa using h
    exact ⟨.inl ⟨rfl,rfl⟩,ht,hb,le_rfl⟩
  · simp only at h
    split_ifs at h
    obtain ⟨rfl,rfl,rfl,_⟩ : db.cutFront id (oldest+(bytes-limit)) = db' ∧
        oldest+(bytes-limit) = oldest' ∧ bytes-(bytes-limit) = bytes' ∧ true = evicted := by
      simpa using h
    refine ⟨.inr rfl,?_,by omega,by omega⟩
    rw [cutFront_rowsOf_self]
    exact ht.cut (by omega) (by omega) fun row _ _ _ => ⟨rfl,rfl⟩

theorem Packed.tiles (hp : Packed id w s₀ c) (hpending : c.pending = []) :
    Tiles ChunkRow.startByte ChunkRow.endByte c.durableOldest (c.db.rowsOf id) c.durableHead := by
  simpa [hpending] using hp.packing.tiles

theorem Packed.pruned_runs {limit oldest bytes : ℕ} {evicted : Bool} (hp : Packed id w s₀ c)
    (hpending : c.pending = [])
    (h : pruneRunReplayTo c.db id c.durableOldest c.replayBytes limit =
      .ok (db,oldest,bytes,evicted)) : db.runs = s₀.db.runs := by
  obtain ⟨hdb,_⟩ := pruneRunReplayTo_spec (hp.tiles hpending) hp.bytes h
  rcases hdb with ⟨rfl,_⟩ | rfl
  · exact hp.packing.runs
  · exact hp.packing.runs

theorem appendReplayWithStorage_eq_ok {s s' : Store} {limit : ℕ} {evicted : Bool}
    (h : appendReplayWithStorage s writer id replay limit = .ok (s',evicted)) :
    ∃ row c₁ c₂ db oldest bytes, s.db.run? id = some row ∧
      replay.chunks.foldlM (applyReplayChunk id replay)
        { durableOldest := row.durableFirstAvailableByte, durableHead := row.durableOutputBytes,
          replayBytes := row.replayBytes, pending := [], pendingStart := 0, writer := writer,
          db := s.db, files := s.files } = .ok c₁ ∧
      flushPendingRow id c₁ = .ok c₂ ∧
      pruneRunReplayTo c₂.db id c₂.durableOldest c₂.replayBytes limit =
        .ok (db,oldest,bytes,evicted) ∧
      s' = ⟨db.updateRun id fun row =>
        { row with
          durableFirstAvailableByte := oldest
          durableOutputBytes := c₂.durableHead
          replayBytes := bytes
          replayTruncated := replay.truncated || decide (0 < oldest) },c₂.files⟩ := by
  obtain ⟨row,hrow,hrest⟩ := bind_eq_ok.mp h
  split at hrest
  · cases hrest
  · obtain ⟨c₁,hfold,hrest⟩ := bind_eq_ok.mp hrest
    obtain ⟨c₂,hflush,hrest⟩ := bind_eq_ok.mp hrest
    obtain ⟨⟨db,oldest,bytes,ev⟩,hprune,hrest⟩ := bind_eq_ok.mp hrest
    obtain ⟨hstore,rfl⟩ := Prod.mk.inj (Except.ok.inj hrest)
    exact ⟨row,c₁,c₂,db,oldest,bytes,Database.selectRun_eq_ok.mp hrow,hfold,hflush,hprune,
      hstore.symm⟩

/-- The loop of an append begins with the window of its Run and an empty buffer. -/
theorem packed_start {s : Store} {row : RunRow} (hs : Sound s.db s.files)
    (hw : ∀ r ∈ s.db.runs, Window s.db r) (hname : validReplayFileName writer = true)
    (hrow : s.db.run? id = some row) :
    Packed id writer s
      { durableOldest := row.durableFirstAvailableByte, durableHead := row.durableOutputBytes,
        replayBytes := row.replayBytes, pending := [], pendingStart := 0, writer := writer,
        db := s.db, files := s.files } := by
  obtain ⟨hmem,hid⟩ := Database.run?_mem hrow
  have hwindow := hw row hmem
  exact ⟨by simpa using hwindow.tiles.le,
    ⟨hs,hname,rfl,⟨[],Grown.refl writer s.files⟩,rfl,fun _ _ => rfl,rfl,
      by simpa [hid] using hwindow.tiles,fun hne => absurd rfl hne⟩,
    hwindow.bytes,hwindow.bound⟩

/-- What an append leaves of the store: the payload file grew, the Run's rows tile its
new window and the rows of every other Run are untouched. -/
theorem append_sound {s s' : Store} {limit : ℕ} {evicted : Bool} (hs : Sound s.db s.files)
    (hw : ∀ r ∈ s.db.runs, Window s.db r) (hname : validReplayFileName writer = true)
    (h : appendReplayWithStorage s writer id replay limit = .ok (s',evicted)) :
    Sound s'.db s'.files ∧ (∀ r ∈ s'.db.runs, Window s'.db r) ∧
      s'.db.replayFile = s.db.replayFile ∧ (∃ payload, Grown writer s.files s'.files payload) ∧
      List.Forall₂ (fun r r' : RunRow => r.durableOutputBytes ≤ r'.durableOutputBytes ∧
        r' = { r with
          durableFirstAvailableByte := r'.durableFirstAvailableByte
          durableOutputBytes := r'.durableOutputBytes
          replayBytes := r'.replayBytes
          replayTruncated := r'.replayTruncated }) s.db.runs s'.db.runs := by
  obtain ⟨row,c₁,c₂,db,oldest,bytes,hrow,hfold,hflush,hprune,rfl⟩ :=
    appendReplayWithStorage_eq_ok h
  obtain ⟨hmem,hid⟩ := Database.run?_mem hrow
  obtain ⟨hp₁,hhead₁,_⟩ := (packed_start hs hw hname hrow).fold hfold
  obtain ⟨hp₂,hpending,_,hhead₂⟩ := hp₁.flush hflush
  have hpacking := hp₂.packing
  have htiles := hp₂.tiles hpending
  obtain ⟨hdb,htiles',hbytes',_⟩ := pruneRunReplayTo_spec htiles hp₂.bytes hprune
  have hcut : Sound db c₂.files ∧ db.runs = c₂.db.runs ∧ db.replayFile = c₂.db.replayFile ∧
      ∀ other, other ≠ id → db.rowsOf other = c₂.db.rowsOf other := by
    rcases hdb with ⟨rfl,_⟩ | rfl
    · exact ⟨hpacking.sound,rfl,rfl,fun _ _ => rfl⟩
    · exact ⟨hpacking.sound.shrink (cutFront_shrunk hpacking.sound id oldest),rfl,rfl,
        fun other hne => cutFront_rowsOf_ne oldest hne⟩
  obtain ⟨hsound,hruns,hfile,hothers⟩ := hcut
  refine ⟨hsound.updateRun id (fun _ => rfl) (fun _ => rfl),?_,?_,hpacking.grown,?_⟩
  · refine windows_updateRun hw (hruns.trans hpacking.runs)
      (fun other hne => (hothers other hne).trans (hpacking.others other hne)) ?_
    intro r _ hrid
    refine ⟨?_,hbytes',?_,hp₂.bound⟩
    · simpa [hrid] using htiles'
    · intro hpos
      simpa using Or.inr hpos
  · rw [Database.updateRun_replayFile,hfile,hpacking.replayFile]
  · rw [Database.updateRun_runs,hruns,hpacking.runs]
    refine List.forall₂_map_right_iff.mpr (List.forall₂_same.mpr fun r hr => ?_)
    split
    · rename_i hrid
      obtain rfl := List.inj_on_of_nodup_map hs.ids hr hmem (hrid.trans hid.symm)
      exact ⟨by rw [hhead₂]; exact hhead₁,rfl⟩
    · exact ⟨le_rfl,rfl⟩

end Durable
end Ctxmux
