import Ctxmux.ReplayCompaction

/-!
# Moves keep the window and the bytes

A coordinate batch changes where rows point and nothing else: the logical ranges
stay, and what a row reads from its new place is what it read from its old one.
-/

namespace Ctxmux
namespace Durable

open Tiling

/-- The bytes that a row points at. -/
def extent (files : Files) (row : ChunkRow) : List Byte :=
  (((files row.dataFile).getD []).drop row.dataOffset).take row.dataBytes

variable {files : Files} {row : ChunkRow} {db : Database} {source target : String}
  {content : List Byte} {rows : List ChunkRow}

theorem extent_grow (h : Backed files row) (name : String) (data : List Byte) :
    extent (files.write name ((files name).getD [] ++ data)) row = extent files row := by
  obtain ⟨_,content,hfile,hlen⟩ := h
  unfold extent
  by_cases heq : row.dataFile = name
  · subst heq
    rw [Files.write_self,Option.getD_some,hfile,Option.getD_some,
      List.drop_append_of_le_length (by omega),
      List.take_append_of_le_length (by rw [List.length_drop]; omega)]
  · rw [Files.write_of_ne files _ heq]

/-- Only the coordinates of a row changed, not what it stands for. -/
structure Relocated (files files' : Files) (row row' : ChunkRow) : Prop where
  same : row' = { row with dataFile := row'.dataFile, dataOffset := row'.dataOffset }
  bytes : extent files' row' = extent files row

theorem Relocated.trans {a b c : Files} {x y z : ChunkRow} (hxy : Relocated a b x y)
    (hyz : Relocated b c y z) : Relocated a c x z where
  same := by rw [hyz.same,hxy.same]
  bytes := hyz.bytes.trans hxy.bytes

theorem relocated_trans {a b c : Files} {xs ys zs : List ChunkRow}
    (hxy : List.Forall₂ (Relocated a b) xs ys) (hyz : List.Forall₂ (Relocated b c) ys zs) :
    List.Forall₂ (Relocated a c) xs zs :=
  forall₂_comp (R := Relocated a b) (S := Relocated b c) (fun _ _ _ h h' => h.trans h') hxy hyz

theorem tiles_relocated {rows' : List ChunkRow} {R : ChunkRow → ChunkRow → Prop}
    (hR : ∀ x y, R x y → y = { x with dataFile := y.dataFile, dataOffset := y.dataOffset })
    (h : List.Forall₂ R rows rows') (id : RunId) {a b : ℕ}
    (ht : Tiles ChunkRow.startByte ChunkRow.endByte a (rows.filter (·.runId = id)) b) :
    Tiles ChunkRow.startByte ChunkRow.endByte a (rows'.filter (·.runId = id)) b := by
  induction h generalizing a with
  | nil => exact ht
  | @cons x y xs ys hxy _ ih =>
    have hsame := hR x y hxy
    by_cases hid : x.runId = id
    · rw [List.filter_cons_of_pos (by simpa using hid)] at ht
      rw [List.filter_cons_of_pos (by rw [hsame]; simpa using hid)]
      obtain ⟨hstart,hlt,hrest⟩ := ht
      rw [hsame]
      exact ⟨hstart,hlt,ih hrest⟩
    · rw [List.filter_cons_of_neg (by simpa using hid)] at ht
      rw [List.filter_cons_of_neg (by rw [hsame]; simpa using hid)]
      exact ih ht

theorem windows_relocated {db' : Database} {files' : Files}
    (h : List.Forall₂ (Relocated files files') db.chunks db'.chunks) (hruns : db'.runs = db.runs)
    (hw : ∀ r ∈ db.runs, Window db r) : ∀ r ∈ db'.runs, Window db' r := by
  intro r hr
  rw [hruns] at hr
  have hwindow := hw r hr
  exact ⟨tiles_relocated (fun _ _ hxy => hxy.same) h r.id hwindow.tiles,hwindow.bytes,
    hwindow.truncated,hwindow.bound⟩

/-- Every extent in the target ends at or before `mark`. -/
def Marked (target : String) (mark : ℕ) (rows : List ChunkRow) : Prop :=
  ∀ row ∈ rows, row.dataFile = target → row.dataOffset+row.dataBytes ≤ mark

def moveTo (source target : String) (ordinal mark : ℕ) (row : ChunkRow) : ChunkRow :=
  if row.ordinal = ordinal ∧ row.dataFile = source then
    { row with dataFile := target, dataOffset := mark } else row

theorem moveTo_logical (source target : String) (ordinal mark : ℕ) (row : ChunkRow) :
    moveTo source target ordinal mark row =
      { row with
        dataFile := (moveTo source target ordinal mark row).dataFile
        dataOffset := (moveTo source target ordinal mark row).dataOffset } := by
  unfold moveTo
  split <;> rfl

theorem relocateRow_eq_ok {db' : Database} {move : ℕ × ℕ}
    (h : relocateRow source target db move = .ok db') :
    db' = { db with chunks := db.chunks.map (moveTo source target move.1 move.2) } := by
  unfold relocateRow at h
  split_ifs at h
  exact (Except.ok.inj h).symm

/-- Moving one row to fresh room behind every extent of the target. -/
theorem Sound.move (h : Sound db files) {mark : ℕ} (hrow : row ∈ db.chunks)
    (hsource : row.dataFile = source) (hname : validReplayFileName target = true)
    (hfile : files target = some content) (hroom : mark+row.dataBytes ≤ content.length)
    (hmark : Marked target mark db.chunks) :
    Sound { db with chunks := db.chunks.map (moveTo source target row.ordinal mark) } files ∧
      Marked target (mark+row.dataBytes)
        (db.chunks.map (moveTo source target row.ordinal mark)) := by
  have hmoved : ∀ r ∈ db.chunks, moveTo source target row.ordinal mark r = r ∨
      (r = row ∧ moveTo source target row.ordinal mark r =
        { row with dataFile := target, dataOffset := mark }) := by
    intro r hr
    unfold moveTo
    split
    · rename_i hc
      obtain rfl := h.ordinal_inj hr hrow hc.1
      exact .inr ⟨rfl,rfl⟩
    · exact .inl rfl
  have hfields : ∀ r, (moveTo source target row.ordinal mark r).ordinal = r.ordinal ∧
      (moveTo source target row.ordinal mark r).runId = r.runId ∧
      (moveTo source target row.ordinal mark r).dataBytes = r.dataBytes ∧
      (moveTo source target row.ordinal mark r).startByte = r.startByte ∧
      (moveTo source target row.ordinal mark r).endByte = r.endByte := by
    intro r
    rw [moveTo_logical]
    exact ⟨rfl,rfl,rfl,rfl,rfl⟩
  refine ⟨⟨h.ids,h.keys,h.accounting,?_,?_,?_,?_,?_,?_,?_⟩,?_⟩
  · refine List.pairwise_map.mpr (h.ordinals.imp fun hlt => ?_)
    rw [(hfields _).1,(hfields _).1]
    exact hlt
  · intro r' hr'
    obtain ⟨r,hr,rfl⟩ := List.mem_map.mp hr'
    rw [(hfields r).1]
    exact h.fresh r hr
  · intro r' hr'
    obtain ⟨r,hr,rfl⟩ := List.mem_map.mp hr'
    rw [(hfields r).2.1]
    exact h.owned r hr
  · intro r' hr'
    obtain ⟨r,hr,rfl⟩ := List.mem_map.mp hr'
    rw [(hfields r).2.2.1]
    exact h.filled r hr
  · intro r' hr'
    obtain ⟨r,hr,rfl⟩ := List.mem_map.mp hr'
    obtain ⟨_,_,hbytes,hstart,hend⟩ := hfields r
    rw [hbytes,hstart,hend]
    exact h.sized r hr
  · refine List.pairwise_map.mpr ((h.ordinals.and h.apart).imp_of_mem fun {x y} hx hy hxy => ?_)
    rcases hmoved x hx with hx' | ⟨rfl,hx'⟩
    · rcases hmoved y hy with hy' | ⟨rfl,hy'⟩
      · rw [hx',hy']
        exact hxy.2
      · rw [hx',hy']
        exact fun hfile => .inl (hmark x hx hfile)
    · rcases hmoved y hy with hy' | ⟨rfl,_⟩
      · rw [hx',hy']
        exact fun hfile => .inr (hmark y hy hfile.symm)
      · exact absurd hxy.1 (lt_irrefl _)
  · intro r' hr'
    obtain ⟨r,hr,rfl⟩ := List.mem_map.mp hr'
    rcases hmoved r hr with heq | ⟨rfl,heq⟩
    · rw [heq]
      exact h.backed r hr
    · rw [heq]
      exact ⟨hname,content,hfile,hroom⟩
  · intro r' hr' htarget
    obtain ⟨r,hr,rfl⟩ := List.mem_map.mp hr'
    rcases hmoved r hr with heq | ⟨rfl,heq⟩
    · rw [heq] at htarget ⊢
      have := hmark r hr htarget
      omega
    · rw [heq]

theorem copyRows_eq_ok {payload : List Byte} (h : copyRows content source (row::rows) = .ok payload)
    :
    ∃ rest, copyRows content source rows = .ok rest ∧
      payload = (content.drop row.dataOffset).take row.dataBytes ++ rest ∧
      row.dataOffset+row.dataBytes ≤ content.length := by
  unfold copyRows at h
  split_ifs at h with hshort
  obtain ⟨rest,hrest,hpayload⟩ := bind_eq_ok.mp h
  exact ⟨rest,hrest,(Except.ok.inj hpayload).symm,by omega⟩

/-- The coordinate updates of a batch, after its payload was appended to the target: the
payload of the rows still to move begins at `mark`, and every row that moves reads the
bytes it read before. -/
theorem relocate_batch {after : List Byte} {db' : Database} {mark : ℕ} (hs : Sound db files)
    (hname : validReplayFileName target = true) (htarget : files target = some after)
    (hmark : Marked target mark db.chunks) (hle : mark ≤ after.length)
    (hcopy : copyRows content source rows = .ok (after.drop mark))
    (hread : ∀ row ∈ rows, (content.drop row.dataOffset).take row.dataBytes = extent files row)
    (hmem : ∀ row ∈ rows, row ∈ db.chunks ∧ row.dataFile = source)
    (hdistinct : rows.Pairwise (·.ordinal < ·.ordinal))
    (h : (plannedMoves mark rows).foldlM (relocateRow source target) db = .ok db') :
    Sound db' files ∧ List.Forall₂ (Relocated files files) db.chunks db'.chunks ∧
      db' = { db with chunks := db'.chunks } := by
  induction rows generalizing db mark with
  | nil =>
    obtain rfl := Except.ok.inj h
    exact ⟨hs,List.forall₂_same.mpr fun _ _ => ⟨rfl,rfl⟩,rfl⟩
  | cons row rows ih =>
    rw [plannedMoves,List.foldlM_cons] at h
    obtain ⟨db₁,h₁,hrest⟩ := bind_eq_ok.mp h
    obtain ⟨payload,hcopy',hsplit,hinside⟩ := copyRows_eq_ok hcopy
    obtain ⟨hrow,hsource⟩ := hmem row (by simp)
    have hlength : ((content.drop row.dataOffset).take row.dataBytes).length = row.dataBytes := by
      rw [List.length_take,List.length_drop]
      omega
    have hroom : mark+row.dataBytes ≤ after.length := by
      have := congrArg List.length hsplit
      rw [List.length_drop,List.length_append,hlength] at this
      omega
    have hnew : after.drop (mark+row.dataBytes) = payload := by
      rw [← List.drop_drop,hsplit,← hlength]
      simp
    obtain ⟨hs₁,hmark₁⟩ := hs.move hrow hsource hname htarget hroom hmark
    have hdb₁ := relocateRow_eq_ok h₁
    have hstep : List.Forall₂ (Relocated files files) db.chunks
        (db.chunks.map (moveTo source target row.ordinal mark)) := by
      refine List.forall₂_map_right_iff.mpr (List.forall₂_same.mpr fun r hr => ?_)
      refine ⟨moveTo_logical _ _ _ _ _,?_⟩
      by_cases hc : r.ordinal = row.ordinal ∧ r.dataFile = source
      · obtain rfl := hs.ordinal_inj hr hrow hc.1
        have hplace : moveTo source target r.ordinal mark r =
            { r with dataFile := target, dataOffset := mark } := if_pos hc
        rw [hplace,← hread r (by simp)]
        simp only [extent,htarget,Option.getD_some,hsplit]
        rw [List.take_append_of_le_length (by omega)]
        exact List.take_of_length_le (by omega)
      · have hstays : moveTo source target row.ordinal mark r = r := if_neg hc
        rw [hstays]
    have hmem₁ : ∀ r ∈ rows, r ∈ db.chunks.map (moveTo source target row.ordinal mark) ∧
        r.dataFile = source := by
      intro r hr
      obtain ⟨hr',hfile⟩ := hmem r (by simp [hr])
      have hlt := (List.pairwise_cons.mp hdistinct).1 r hr
      refine ⟨List.mem_map.mpr ⟨r,hr',?_⟩,hfile⟩
      exact if_neg fun hc => by omega
    rw [hdb₁] at hrest
    obtain ⟨hs₂,hall,hdb⟩ := ih hs₁ hmark₁ hroom (hnew ▸ hcopy')
      (fun r hr => hread r (by simp [hr])) hmem₁ (List.pairwise_cons.mp hdistinct).2 hrest
    exact ⟨hs₂,relocated_trans hstep hall,hdb⟩

theorem batchRows_initial (used : ℕ) (rows : List ChunkRow) : batchRows used rows <+: rows := by
  induction rows generalizing used with
  | nil => simp [batchRows]
  | cons row rows ih =>
    unfold batchRows
    split
    · exact List.nil_prefix
    · simpa using ih _

theorem batchRows_sublist (db : Database) (source : String) (cursor : Option ℕ) (rowLimit : ℕ) :
    (batchRows 0 (sourceRows db source cursor rowLimit)).Sublist db.chunks :=
  ((batchRows_initial _ _).sublist.trans (List.take_sublist _ _)).trans List.filter_sublist

theorem compactBatch_spec {s s' : Store} {cursor : Option ℕ} {rowLimit last : ℕ}
    (hs : Sound s.db s.files) (hname : validReplayFileName target = true)
    (h : compactBatch s source target cursor rowLimit = .ok (some (s',last))) :
    Sound s'.db s'.files ∧ List.Forall₂ (Relocated s.files s'.files) s.db.chunks s'.db.chunks ∧
      s'.db = { s.db with chunks := s'.db.chunks } ∧
      ∃ payload, Grown target s.files s'.files payload := by
  unfold compactBatch at h
  simp only at h
  split at h
  · cases h
  · split at h
    · rename_i content before hsource htarget
      obtain ⟨payload,hcopy,hrest⟩ := bind_eq_ok.mp h
      split at hrest
      · cases hrest
      · obtain ⟨db,hmoves,hrest⟩ := bind_eq_ok.mp hrest
        obtain ⟨rfl,_⟩ := Prod.mk.inj (Option.some.inj (Except.ok.inj hrest))
        have hsub := batchRows_sublist s.db source cursor rowLimit
        have hgrow : before ++ payload = (s.files target).getD [] ++ payload := by rw [htarget]; rfl
        have hbacked : ∀ row ∈ s.db.chunks,
            Backed (s.files.write target (before ++ payload)) row := by
          intro row hr
          rw [hgrow]
          exact (hs.backed row hr).write target payload
        have hkept : ∀ row ∈ s.db.chunks,
            extent (s.files.write target (before ++ payload)) row = extent s.files row := by
          intro row hr
          rw [hgrow]
          exact extent_grow (hs.backed row hr) target payload
        have hs' : Sound s.db (s.files.write target (before ++ payload)) :=
          { hs with backed := hbacked }
        have hmem : ∀ row ∈ batchRows 0 (sourceRows s.db source cursor rowLimit),
            row ∈ s.db.chunks ∧ row.dataFile = source := by
          intro row hr
          have hin := List.mem_of_mem_take ((batchRows_initial _ _).subset hr)
          obtain ⟨hchunk,hfile⟩ := List.mem_filter.mp hin
          exact ⟨hchunk,by simpa using (of_decide_eq_true hfile).2⟩
        have hmark : Marked target before.length s.db.chunks := by
          intro row hr hfile
          have := (hs.backed row hr).extent_le_len
          simpa [Files.len,hfile,htarget] using this
        have hread : ∀ row ∈ batchRows 0 (sourceRows s.db source cursor rowLimit),
            (content.drop row.dataOffset).take row.dataBytes =
              extent (s.files.write target (before ++ payload)) row := by
          intro row hr
          obtain ⟨hchunk,hfile⟩ := hmem row hr
          rw [hkept row hchunk]
          simp [extent,hfile,hsource]
        have hcopied : copyRows content source (batchRows 0 (sourceRows s.db source cursor rowLimit)) =
            .ok ((before ++ payload).drop before.length) := by
          rw [hcopy,List.drop_left]
        obtain ⟨hsound,hall,hdb⟩ := relocate_batch hs' hname (Files.write_self _ _ _) hmark
          (by simp) hcopied hread hmem (hs.ordinals.sublist hsub) hmoves
        refine ⟨hsound,?_,hdb,payload,?_⟩
        · have hgrown : List.Forall₂
              (Relocated s.files (s.files.write target (before ++ payload)))
              s.db.chunks s.db.chunks :=
            List.forall₂_same.mpr fun row hr => ⟨rfl,hkept row hr⟩
          exact relocated_trans hgrown hall
        · rw [hgrow]
          simpa using (Grown.refl target s.files).write payload
    · cases h
    · cases h

theorem extent_le_referencedEnd (h : row ∈ db.chunks) :
    row.dataOffset+row.dataBytes ≤ referencedEnd db row.dataFile := by
  have hin : row.dataOffset+row.dataBytes ∈
      (db.chunks.filter (·.dataFile = row.dataFile)).map fun r => r.dataOffset+r.dataBytes :=
    List.mem_map.mpr ⟨row,List.mem_filter.mpr ⟨h,by simp⟩,rfl⟩
  unfold referencedEnd
  cases hmax : ((db.chunks.filter (·.dataFile = row.dataFile)).map
      fun r => r.dataOffset+r.dataBytes).max? with
  | none =>
    rw [List.max?_eq_none_iff.mp hmax] at hin
    cases hin
  | some m => exact (List.max?_eq_some_iff.mp hmax).2 _ hin

theorem normalizedFiles_of_row {active : String} (hr : row ∈ db.chunks)
    (hfile : files row.dataFile = some content) :
    normalizedFiles db active files row.dataFile =
      some (content.take (referencedEnd db row.dataFile)) := by
  unfold normalizedFiles
  rw [if_pos (.inr ⟨row,hr,rfl⟩),hfile]
  rfl

theorem normalizedFiles_active (db : Database) (active : String) (files : Files) :
    normalizedFiles db active files active =
      (files active).map (·.take (referencedEnd db active)) := if_pos (.inl rfl)

/-- Normalization leaves every referenced byte where it was. -/
theorem Sound.normalized (hs : Sound db files) (active : String) :
    Sound db (normalizedFiles db active files) ∧
      ∀ row ∈ db.chunks, extent (normalizedFiles db active files) row = extent files row := by
  refine ⟨{ hs with backed := fun row hr => ?_ },fun row hr => ?_⟩
  · obtain ⟨hname,content,hfile,hlen⟩ := hs.backed row hr
    refine ⟨hname,_,normalizedFiles_of_row hr hfile,?_⟩
    have := extent_le_referencedEnd hr
    rw [List.length_take]
    omega
  · obtain ⟨_,content,hfile,hlen⟩ := hs.backed row hr
    have hend := extent_le_referencedEnd hr
    unfold extent
    rw [normalizedFiles_of_row hr hfile,hfile,Option.getD_some,Option.getD_some,List.drop_take,
      List.take_take,min_eq_left (by omega)]

theorem normalizeReplayFiles_eq_ok {active : String} {files' : Files}
    (h : normalizeReplayFiles db active files = .ok files') :
    files' = normalizedFiles db active files := by
  obtain ⟨_,_,hrest⟩ := bind_eq_ok.mp h
  exact (Except.ok.inj hrest).symm

end Durable
end Ctxmux
