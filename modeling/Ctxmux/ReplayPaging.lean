import Ctxmux.ReplayContent
import Ctxmux.ApplicationState

/-!
# Reading a durable replay in pages

A page is at most 64 KiB of a Run's retained bytes, cut from extents that may lie in
several files. A reader that resumes at the end of the last chunk gets every retained
byte of its range once.
-/

namespace Ctxmux
namespace Durable

open Tiling

def replayPageBytes : ℕ := 64*1024

/-- `seek` and `read_exact` on the file of an extent. -/
def readExact (files : Files) (name : String) (physical length : ℕ) :
    Except PersistenceError (List Byte) :=
  if files.len name < physical+length then .error (.io "replay" ⟨.other,none⟩)
  else .ok ((((files name).getD []).drop physical).take length)

/-- Extend the last chunk while it is contiguous and fits a page, else begin another. -/
def pushPiece (chunks : List OutputChunk) (cursor through : ℕ) (data : List Byte) :
    List OutputChunk :=
  match chunks.getLast? with
  | none => [⟨cursor,through,data⟩]
  | some tail =>
    if tail.endByte = cursor ∧ tail.data.length+data.length ≤ replayPageBytes then
      chunks.dropLast ++ [⟨tail.startByte,through,tail.data ++ data⟩]
    else chunks ++ [⟨cursor,through,data⟩]

/-- Read `[cursor,last)` of one extent. The saturation of `u64` is invisible here, as
`last` is a `u64` itself. -/
def readPieces (files : Files) (row : ChunkRow) (last cursor : ℕ) (chunks : List OutputChunk) :
    Except PersistenceError (List OutputChunk) :=
  if cursor < last then do
    let through := min last (cursor+replayPageBytes)
    let data ← readExact files row.dataFile (row.dataOffset+cursor-row.startByte) (through-cursor)
    readPieces files row last through (pushPiece chunks cursor through data)
  else .ok chunks
termination_by last-cursor
decreasing_by
  simp only [replayPageBytes]
  omega

/-- The file of the extent before is still open. -/
def openExtent (files : Files) (opened : Option String) (name : String) :
    Except PersistenceError Unit :=
  if opened = some name then .ok ()
  else do
    validateReplayFileName name
    validateStateFile files name

def loadExtent (files : Files) (fromByte toByte : ℕ) (acc : Option String × List OutputChunk)
    (row : ChunkRow) : Except PersistenceError (Option String × List OutputChunk) := do
  openExtent files acc.1 row.dataFile
  let chunks ← readPieces files row (min row.endByte toByte) (max row.startByte fromByte) acc.2
  .ok (some row.dataFile,chunks)

def loadReplayChunksRange (s : Store) (id : RunId) (fromByte toByte : ℕ) :
    Except PersistenceError (List OutputChunk) :=
  if toByte ≤ fromByte then .ok []
  else if i64Max < fromByte ∨ i64Max < toByte then
    .error (.resourcePressure "replay cursor exceeds SQLite range")
  else do
    let acc ← ((s.db.rowsByStart id).filter fun row =>
      fromByte < row.endByte ∧ row.startByte < toByte).foldlM
      (loadExtent s.files fromByte toByte) (none,[])
    .ok acc.2

/-- Whether a page after `after` misses bytes; the source gap is read only if it decides. -/
def pageTruncated (codec : Codec) (row : RunRow) (after : ℕ) : Except PersistenceError Bool :=
  if after < row.durableFirstAvailableByte then .ok true
  else do
    let gap ← sourceGapFact codec row.stateJson row.durableOutputBytes
    .ok (gap.any (after ≤ ·) ||
      (row.replayTruncated && decide (row.durableFirstAvailableByte = 0)))

def loadReplayPage (codec : Codec) (s : Store) (id : RunId) (after through : ℕ) :
    Except PersistenceError OutputReplay := do
  let row ← s.db.selectRun id
  let oldest := row.durableFirstAvailableByte
  let head := row.durableOutputBytes
  let fromByte := max after oldest
  let toByte := min (min through head) (fromByte+replayPageBytes)
  let chunks ← loadReplayChunksRange s id fromByte toByte
  let truncated ← pageTruncated codec row after
  .ok ⟨chunks,oldest,head,truncated⟩

/-- The loop of a reader: it resumes at the end of the last chunk and stops at `through`. -/
def replayPages (codec : Codec) (s : Store) (id : RunId) (cursor through : ℕ) :
    Except PersistenceError (List OutputChunk) :=
  if cursor < through then do
    let page ← loadReplayPage codec s id cursor through
    let next := (page.chunks.getLast?).elim through (·.endByte)
    if next ≤ cursor then .ok []
    else do
      let rest ← replayPages codec s id next through
      .ok (page.chunks ++ rest)
  else .ok []
termination_by through-cursor
decreasing_by omega

variable {streams : RunId → ℕ → Byte} {codec : Codec} {s : Store} {f : ℕ → Byte} {a : ℕ}
  {chunks : List OutputChunk} {row : ChunkRow} {r : RunRow}

/-- Chunks of at most a page that tile `[a,b)` and hold the stream's bytes. -/
structure Paged (f : ℕ → Byte) (a : ℕ) (chunks : List OutputChunk) (b : ℕ) : Prop where
  tiles : Tiles OutputChunk.startByte OutputChunk.endByte a chunks b
  data : ∀ chunk ∈ chunks, chunk.data = slice f chunk.startByte chunk.endByte
  small : ∀ chunk ∈ chunks, chunk.data.length ≤ replayPageBytes

theorem Paged.nil (a : ℕ) : Paged f a [] a := ⟨rfl,by simp,by simp⟩

theorem Paged.append {b c : ℕ} {xs ys : List OutputChunk} (hxs : Paged f a xs b)
    (hys : Paged f b ys c) : Paged f a (xs ++ ys) c where
  tiles := Tiles.append.mpr ⟨b,hxs.tiles,hys.tiles⟩
  data chunk hc := (List.mem_append.mp hc).elim (hxs.data chunk) (hys.data chunk)
  small chunk hc := (List.mem_append.mp hc).elim (hxs.small chunk) (hys.small chunk)

theorem Paged.single {b : ℕ} (hlt : a < b) (hsmall : b-a ≤ replayPageBytes) :
    Paged f a [⟨a,b,slice f a b⟩] b where
  tiles := ⟨rfl,hlt,rfl⟩
  data chunk hc := by
    rw [List.mem_singleton.mp hc]
  small chunk hc := by
    rw [List.mem_singleton.mp hc]
    simpa using hsmall

/-- A piece that continues the chunks keeps them paged, merged or not. -/
theorem Paged.pushPiece {cursor through : ℕ} (h : Paged f a chunks cursor) (hlt : cursor < through)
    (hsmall : through-cursor ≤ replayPageBytes) :
    Paged f a (pushPiece chunks cursor through (slice f cursor through)) through := by
  unfold Durable.pushPiece
  split
  · rename_i hnone
    obtain rfl := List.getLast?_eq_none_iff.mp hnone
    obtain rfl := tiles_nil.mp h.tiles
    exact .single hlt hsmall
  · rename_i tail hlast
    obtain ⟨front,rfl⟩ := List.getLast?_eq_some_iff.mp hlast
    split
    · rename_i hmerge
      obtain ⟨m,hfront,htail⟩ := Tiles.append.mp h.tiles
      obtain ⟨hstart,hne,hend⟩ := htail
      have hdata := h.data tail (by simp)
      have hjoined : tail.data ++ slice f cursor through = slice f tail.startByte through := by
        rw [hdata,hmerge.1]
        exact slice_append (by omega) hlt.le
      have hlength := congrArg List.length hjoined
      rw [List.length_append,length_slice,length_slice] at hlength
      rw [List.dropLast_concat,hjoined]
      refine Paged.append ⟨hfront,fun c hc => h.data c (by simp [hc]),
        fun c hc => h.small c (by simp [hc])⟩ ?_
      rw [← hstart]
      refine .single (by omega) ?_
      rw [length_slice] at hmerge
      omega
    · exact h.append (.single hlt hsmall)

/-- A part of an extent reads as that part of the stream. -/
theorem Faithful.segment {db : Database} {files : Files} (hf : Faithful streams db files)
    (hs : Sound db files) (hr : row ∈ db.chunks) {p q : ℕ} (hp : row.startByte ≤ p)
    (hq : q ≤ row.endByte) :
    (((files row.dataFile).getD []).drop (row.dataOffset+p-row.startByte)).take (q-p) =
      slice (streams row.runId) p q := by
  have hsized := hs.sized row hr
  have hwhole := hf row hr
  by_cases hpq : p ≤ q
  · have hpart : ((extent files row).drop (p-row.startByte)).take (q-p) =
        slice (streams row.runId) p q := by
      rw [hwhole,drop_slice,take_slice (by omega)]
      congr 1 <;> omega
    rw [← hpart,extent,List.drop_take,List.take_take,List.drop_drop,Nat.min_eq_left (by omega)]
    congr 2
    omega
  · rw [slice_of_le (by omega),Nat.sub_eq_zero_of_le (by omega),List.take_zero]

theorem readExact_ok (hf : Faithful streams s.db s.files) (hs : Sound s.db s.files)
    (hr : row ∈ s.db.chunks) {p q : ℕ} (hp : row.startByte ≤ p) (hpq : p ≤ q) (hq : q ≤ row.endByte)
    :
    readExact s.files row.dataFile (row.dataOffset+p-row.startByte) (q-p) =
      .ok (slice (streams row.runId) p q) := by
  have hlen := (hs.backed row hr).extent_le_len
  have hsized := hs.sized row hr
  unfold readExact
  rw [if_neg (by omega),hf.segment hs hr hp hq]

theorem readPieces_ok (hf : Faithful streams s.db s.files) (hs : Sound s.db s.files)
    (hr : row ∈ s.db.chunks) {last cursor : ℕ} (hp : row.startByte ≤ cursor) (hcl : cursor ≤ last)
    (hq : last ≤ row.endByte) (h : Paged (streams row.runId) a chunks cursor) :
    ∃ pieces, readPieces s.files row last cursor chunks = .ok pieces ∧
      Paged (streams row.runId) a pieces last := by
  induction hn : last-cursor using Nat.strong_induction_on generalizing cursor chunks with
  | _ n ih =>
    rw [readPieces]
    split
    · rename_i hlt
      have hpage : 0 < replayPageBytes := by decide
      have hthrough : cursor < min last (cursor+replayPageBytes) := by omega
      rw [ok_bind (readExact_ok hf hs hr hp hthrough.le (by omega))]
      refine ih (last-min last (cursor+replayPageBytes)) (by omega) (by omega) (by omega) ?_ rfl
      exact h.pushPiece hthrough (by omega)
    · obtain rfl : cursor = last := by omega
      exact ⟨chunks,rfl,h⟩

theorem openExtent_ok (hs : Sound s.db s.files) (hr : row ∈ s.db.chunks) (opened : Option String) :
    openExtent s.files opened row.dataFile = .ok () := by
  obtain ⟨hname,content,hfile,_⟩ := hs.backed row hr
  unfold openExtent
  split
  · rfl
  · rw [ok_bind (validateReplayFileName_of hname),validateStateFile_of hfile]

/-- The extents that meet the range, read one after the other. -/
theorem foldlM_loadExtent {id : RunId} {rows : List ChunkRow} {x d fromByte toByte : ℕ}
    (opened : Option String) (hf : Faithful streams s.db s.files) (hs : Sound s.db s.files)
    (hrows : ∀ row ∈ rows, row ∈ s.db.chunks ∧ row.runId = id)
    (hmeets : ∀ row ∈ rows, fromByte < row.endByte ∧ row.startByte < toByte)
    (ht : Tiles ChunkRow.startByte ChunkRow.endByte x rows d) (hlt : fromByte < toByte)
    (hd : toByte ≤ d) (h : Paged (streams id) fromByte chunks (min (max x fromByte) toByte)) :
    ∃ acc, rows.foldlM (loadExtent s.files fromByte toByte) (opened,chunks) = .ok acc ∧
      Paged (streams id) fromByte acc.2 toByte := by
  induction rows generalizing x opened chunks with
  | nil =>
    obtain rfl := tiles_nil.mp ht
    rw [Nat.min_eq_right (by omega)] at h
    exact ⟨_,rfl,h⟩
  | cons row rows ih =>
    obtain ⟨rfl,hne,hrest⟩ := ht
    obtain ⟨hmem,rfl⟩ := hrows row (by simp)
    obtain ⟨hend,hstart⟩ := hmeets row (by simp)
    rw [Nat.min_eq_left (by omega)] at h
    have hle : max row.startByte fromByte ≤ min row.endByte toByte := by omega
    obtain ⟨pieces,hpieces,hpaged⟩ := readPieces_ok hf hs hmem (by omega) hle (by omega) h
    have hstep : loadExtent s.files fromByte toByte (opened,chunks) row =
        .ok (some row.dataFile,pieces) := by
      unfold loadExtent
      rw [ok_bind (openExtent_ok hs hmem _),ok_bind hpieces]
    rw [List.foldlM_cons,ok_bind hstep]
    refine ih _ (fun r hr => hrows r (by simp [hr])) (fun r hr => hmeets r (by simp [hr])) hrest ?_
    rw [Nat.max_eq_left (by omega)]
    exact hpaged

theorem loadReplayChunksRange_ok (hf : Faithful streams s.db s.files) (hs : Sound s.db s.files)
    (hw : Window s.db r) {fromByte toByte : ℕ} (hfloor : r.durableFirstAvailableByte ≤ fromByte)
    (hhead : toByte ≤ r.durableOutputBytes) :
    ∃ chunks, loadReplayChunksRange s r.id fromByte toByte = .ok chunks ∧
      Paged (streams r.id) fromByte chunks (max fromByte toByte) := by
  have hbound := hw.bound
  unfold loadReplayChunksRange
  split
  · rename_i hle
    rw [Nat.max_eq_left hle]
    exact ⟨[],rfl,.nil fromByte⟩
  · rw [if_neg (by omega),hw.rowsByStart_eq,Nat.max_eq_right (by omega)]
    obtain ⟨c,d,hc,hd,ht⟩ := hw.tiles.window hfloor (by omega : fromByte < toByte) hhead
    have hrows : ∀ row ∈ (s.db.rowsOf r.id).filter fun row =>
        fromByte < row.endByte ∧ row.startByte < toByte,
        (row ∈ s.db.chunks ∧ row.runId = r.id) ∧
          fromByte < row.endByte ∧ row.startByte < toByte := by
      intro row hr
      obtain ⟨hmem,hmeets⟩ := List.mem_filter.mp hr
      obtain ⟨hmem,hid⟩ := List.mem_filter.mp hmem
      exact ⟨⟨hmem,by simpa using hid⟩,by simpa using hmeets⟩
    have hstart : Paged (streams r.id) fromByte [] (min (max c fromByte) toByte) := by
      rw [Nat.max_eq_right hc,Nat.min_eq_left (by omega)]
      exact .nil fromByte
    obtain ⟨acc,hfold,hpaged⟩ := foldlM_loadExtent none hf hs
      (fun row hr => (hrows row hr).1) (fun row hr => (hrows row hr).2) ht (by omega) hd hstart
    exact ⟨acc.2,by rw [ok_bind hfold],hpaged⟩

theorem pageTruncated_ok (h : Described codec r) (after : ℕ) :
    ∃ truncated, pageTruncated codec r after = .ok truncated := by
  obtain ⟨gap,hgap⟩ := sourceGapFact_ok h
  unfold pageTruncated
  split
  · exact ⟨true,rfl⟩
  · exact ⟨_,ok_bind hgap⟩

/-- One page holds the stream from its cursor on, up to a page. -/
theorem loadReplayPage_ok (h : WellFormed codec s) (hf : Faithful streams s.db s.files)
    (hr : r ∈ s.db.runs) (after through : ℕ) :
    ∃ page, loadReplayPage codec s r.id after through = .ok page ∧
      page.firstAvailableByte = r.durableFirstAvailableByte ∧
      page.latestOutputBytes = r.durableOutputBytes ∧
      Paged (streams r.id) (max after r.durableFirstAvailableByte) page.chunks
        (max (max after r.durableFirstAvailableByte)
          (min (min through r.durableOutputBytes)
            (max after r.durableFirstAvailableByte+replayPageBytes))) := by
  have hw := h.windows r hr
  have hrun : s.db.selectRun r.id = .ok r :=
    Database.selectRun_eq_ok.mpr (Database.run?_of_mem h.sound.ids hr)
  obtain ⟨chunks,hchunks,hpaged⟩ := loadReplayChunksRange_ok hf h.sound hw
    (le_max_right after r.durableFirstAvailableByte)
    ((min_le_left _ _).trans (min_le_right through r.durableOutputBytes) :
      min (min through r.durableOutputBytes)
        (max after r.durableFirstAvailableByte+replayPageBytes) ≤ r.durableOutputBytes)
  obtain ⟨truncated,htruncated⟩ := pageTruncated_ok (h.described r hr) after
  refine ⟨⟨chunks,r.durableFirstAvailableByte,r.durableOutputBytes,truncated⟩,?_,rfl,rfl,hpaged⟩
  unfold loadReplayPage
  rw [ok_bind hrun,ok_bind hchunks,ok_bind htruncated]

theorem Paged.getLast?_end {b : ℕ} (h : Paged f a chunks b) (hlt : a < b) (d : ℕ) :
    (chunks.getLast?).elim d (·.endByte) = b := by
  have hne : chunks ≠ [] := fun hnil => by
    have := h.tiles.eq_nil_iff.mp hnil
    omega
  obtain ⟨front,last,rfl⟩ := List.eq_nil_or_concat'  chunks |>.resolve_left hne
  obtain ⟨m,_,hlast⟩ := Tiles.append.mp h.tiles
  simpa using hlast.2.2

/-- The pages of a range, one after the other, hold the stream's retained bytes of it. -/
theorem replayPages_ok (h : WellFormed codec s) (hf : Faithful streams s.db s.files)
    (hr : r ∈ s.db.runs) (cursor through : ℕ) :
    ∃ chunks, replayPages codec s r.id cursor through = .ok chunks ∧
      Paged (streams r.id) (max cursor r.durableFirstAvailableByte) chunks
        (max (max cursor r.durableFirstAvailableByte) (min through r.durableOutputBytes)) := by
  induction hn : through-cursor using Nat.strong_induction_on generalizing cursor with
  | _ n ih =>
    rw [replayPages]
    split
    · rename_i hlt
      obtain ⟨page,hpage,_,_,hpaged⟩ := loadReplayPage_ok h hf hr cursor through
      have hsize : 0 < replayPageBytes := by decide
      have hcursor : cursor ≤ max cursor r.durableFirstAvailableByte := le_max_left _ _
      have hfloor : r.durableFirstAvailableByte ≤ max cursor r.durableFirstAvailableByte :=
        le_max_right _ _
      have hthrough : min through r.durableOutputBytes ≤ through := min_le_left _ _
      rw [ok_bind hpage]
      simp only
      generalize max cursor r.durableFirstAvailableByte = lo at *
      by_cases hempty : min through r.durableOutputBytes ≤ lo
      · obtain ⟨rest,hrest,hpages⟩ := ih (through-through) (by omega) through rfl
        have hnothing : min through r.durableOutputBytes ≤
            max through r.durableFirstAvailableByte := by omega
        rw [max_eq_left hnothing] at hpages
        rw [max_eq_left (by omega)] at hpaged
        rw [hpaged.tiles.eq_nil_iff.mpr rfl,List.getLast?_nil,Option.elim_none,if_neg (by omega),
          ok_bind hrest,hpages.tiles.eq_nil_iff.mpr rfl,max_eq_left hempty]
        exact ⟨[],rfl,.nil lo⟩
      · have hnext : lo < max lo
            (min (min through r.durableOutputBytes) (lo+replayPageBytes)) := by omega
        rw [hpaged.getLast?_end hnext through,if_neg (by omega)]
        have hfinal : max (max lo (min (min through r.durableOutputBytes) (lo+replayPageBytes)))
            (min through r.durableOutputBytes) = max lo (min through r.durableOutputBytes) := by
          omega
        obtain ⟨rest,hrest,hpages⟩ := ih
          (through-max lo (min (min through r.durableOutputBytes) (lo+replayPageBytes)))
          (by omega) _ rfl
        rw [max_eq_left (by omega : r.durableFirstAvailableByte ≤
          max lo (min (min through r.durableOutputBytes) (lo+replayPageBytes))),hfinal] at hpages
        rw [ok_bind hrest]
        exact ⟨page.chunks ++ rest,rfl,hpaged.append hpages⟩
    · refine ⟨[],rfl,?_⟩
      have hnothing : min through r.durableOutputBytes ≤
          max cursor r.durableFirstAvailableByte := by omega
      rw [max_eq_left hnothing]
      exact .nil _

/-- Under writers whose replays carry the streams' bytes at their true offsets: every extent
holds its Run's bytes; a head moves only by an append of its Run, over bytes that were
written or that a proven gap skipped below the new floor; and a reader that pages through a
range gets exactly the retained bytes of it. -/
theorem durable_replay_faithful (codec : Codec) (streams : RunId → ℕ → Byte)
    (replayFile : { name : String // validReplayFileName name = true })
    (es : List { e : StoreEvent codec // e.Honest streams })
    (e : { e : StoreEvent codec // e.Honest streams }) :
    let s := Machine.run (honestStep codec streams) (createdStore replayFile) es
    let s' := honestStep codec streams s e
    (∀ row ∈ s.db.chunks,
      extent s.files row = slice (streams row.runId) row.startByte row.endByte) ∧
    (∀ r ∈ s.db.runs, ∀ r' ∈ s'.db.runs, r'.id = r.id → e.1.starts ≠ some r.id →
      r.durableOutputBytes ≤ r'.durableOutputBytes ∧ Advances streams s s' e.1 r r') ∧
    ∀ r ∈ s.db.runs, ∀ cursor through, ∃ chunks,
      replayPages codec s r.id cursor through = .ok chunks ∧
      Tiles OutputChunk.startByte OutputChunk.endByte (max cursor r.durableFirstAvailableByte) chunks
        (max (max cursor r.durableFirstAvailableByte) (min through r.durableOutputBytes)) ∧
      (∀ chunk ∈ chunks, chunk.data = slice (streams r.id) chunk.startByte chunk.endByte ∧
        chunk.data.length ≤ replayPageBytes) ∧
      chunks.flatMap (·.data) = slice (streams r.id) (max cursor r.durableFirstAvailableByte)
        (min through r.durableOutputBytes) := by
  intro s s'
  obtain ⟨hwf,hf⟩ := faithful_run replayFile.2 es
  refine ⟨hf,fun r hr r' hr' hid hne => ?_,fun r hr cursor through => ?_⟩
  · have hadvance := (hwf.faithful_step hf e.2).2 r hr r' hr' hid hne
    refine ⟨?_,hadvance⟩
    rcases hadvance with heq | ⟨_,_,_,payload,skipped,resumed,_,hle₁,hle₂,hle₃,_⟩
    · exact heq.ge
    · omega
  · obtain ⟨chunks,hpages,hpaged⟩ := replayPages_ok hwf hf hr cursor through
    refine ⟨chunks,hpages,hpaged.tiles,fun c hc => ⟨hpaged.data c hc,hpaged.small c hc⟩,?_⟩
    rw [hpaged.tiles.flatMap_slice hpaged.data]
    rcases le_total (min through r.durableOutputBytes) (max cursor r.durableFirstAvailableByte)
      with hle | hle
    · rw [Nat.max_eq_left hle,slice_self,slice_of_le hle]
    · rw [Nat.max_eq_right hle]

end Durable
end Ctxmux
