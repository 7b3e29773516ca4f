import Ctxmux.ReplayPrune

/-!
# Shedding keeps the window

A cut is always made at the first row of a Run, so that what is left is again one
contiguous range. Until its floor is moved the Run owes the bytes that were cut.
-/

namespace Ctxmux
namespace Durable

open Tiling

/-- The row is the oldest of its Run. -/
def Leads (db : Database) (row : ChunkRow) : Prop :=
  ∃ rest, db.rowsOf row.runId = row::rest

variable {db db' : Database} {row : ChunkRow} {files : Files} {rest : List ChunkRow}
  {debt : RunId → ℕ} {p : RunId → Bool}

theorem Leads.mem (h : Leads db row) : row ∈ db.chunks := by
  obtain ⟨rest,hrest⟩ := h
  have : row ∈ db.rowsOf row.runId := by simp [hrest]
  exact (List.mem_filter.mp this).1

theorem Sound.ordinal_inj (h : Sound db files) {x y : ChunkRow} (hx : x ∈ db.chunks)
    (hy : y ∈ db.chunks) (hxy : x.ordinal = y.ordinal) : x = y := by
  have hnodup : (db.chunks.map (·.ordinal)).Nodup :=
    List.pairwise_map.mpr (h.ordinals.imp fun hlt => Nat.ne_of_lt hlt)
  exact List.inj_on_of_nodup_map hnodup hx hy hxy

theorem Sound.lead_ordinal (h : Sound db files) {id : RunId} (hlead : db.rowsOf id = row::rest) :
    ∀ r ∈ rest, row.ordinal < r.ordinal := by
  have hpair : (db.rowsOf id).Pairwise (·.ordinal < ·.ordinal) := h.ordinals.filter _
  rw [hlead] at hpair
  exact (List.pairwise_cons.mp hpair).1

theorem Sound.other_ordinal (h : Sound db files) (hmem : row ∈ db.chunks) {other : RunId}
    (hne : other ≠ row.runId) :
    ∀ r ∈ db.rowsOf other, r.ordinal ≠ row.ordinal := by
  intro r hr heq
  obtain ⟨hr,hid⟩ := List.mem_filter.mp hr
  have hrow := h.ordinal_inj hr hmem heq
  subst hrow
  have hrun : r.runId = other := by simpa using hid
  exact hne hrun.symm

theorem deleteChunk_rowsOf (id : RunId) (ordinal : ℕ) :
    (db.deleteChunk ordinal).rowsOf id = (db.rowsOf id).filter (·.ordinal ≠ ordinal) :=
  List.filter_comm _ _ _

/-- The rows of every Run after a cut at the first row of one. -/
theorem shedChunk_spec {shed : ℕ} (hs : Sound db files) (hlead : db.rowsOf row.runId = row::rest)
    (h : shedChunk db row.ordinal row.dataBytes shed = .ok db') :
    Shrunk db.chunks db'.chunks ∧ db' = { db with chunks := db'.chunks } ∧
      (∀ other, other ≠ row.runId → db'.rowsOf other = db.rowsOf other) ∧
      ((shed = row.dataBytes ∧ db'.rowsOf row.runId = rest ∧ db' = db.deleteChunk row.ordinal) ∨
        (shed < row.dataBytes ∧ db'.rowsOf row.runId = row.trim shed::rest)) := by
  have hmem : row ∈ db.chunks := Leads.mem ⟨rest,hlead⟩
  have hlater := hs.lead_ordinal hlead
  have hother : ∀ other ≠ row.runId, ∀ r ∈ db.rowsOf other, r.ordinal ≠ row.ordinal :=
    fun _ hne => hs.other_ordinal hmem hne
  unfold shedChunk at h
  split at h
  · rename_i hall
    obtain rfl := Except.ok.inj h
    refine ⟨Shrunk.filter hs.filled _,rfl,?_,.inl ⟨hall,?_,rfl⟩⟩
    · intro other hne
      rw [deleteChunk_rowsOf]
      exact List.filter_eq_self.mpr fun r hr => by simpa using hother other hne r hr
    · rw [deleteChunk_rowsOf,hlead,List.filter_cons_of_neg (by simp)]
      exact List.filter_eq_self.mpr fun r hr => by simpa using Nat.ne_of_gt (hlater r hr)
  · unfold Database.trimChunk at h
    split_ifs at h with hcheck
    obtain rfl := Except.ok.inj h
    obtain ⟨hrange,hbytes,_⟩ := hcheck row hmem rfl
    have howner : ∀ r : ChunkRow,
        (if r.ordinal = row.ordinal then r.trim shed else r).runId = r.runId := by
      intro r
      split <;> rfl
    refine ⟨?_,rfl,?_,.inr ⟨hbytes,?_⟩⟩
    · exact Shrunk.mapTrim hs.filled (fun r => r.ordinal = row.ordinal) (fun _ => shed)
        fun r hr heq => (hcheck r hr heq).2.1
    · intro other hne
      refine (filter_map_runId other howner).trans ?_
      exact (List.map_congr_left fun r hr => if_neg (hother other hne r hr)).trans (List.map_id' _)
    · refine (filter_map_runId row.runId howner).trans ?_
      rw [show db.chunks.filter (·.runId = row.runId) = row::rest from hlead,List.map_cons,
        if_pos rfl]
      congr 1
      exact (List.map_congr_left fun r hr => if_neg (Nat.ne_of_gt (hlater r hr))).trans
        (List.map_id' _)

/-- Eviction of stored bytes: rows went or lost their front, and of a Run only its floor,
byte count and truncation mark changed. -/
structure Retired (db db' : Database) : Prop where
  chunks : Shrunk db.chunks db'.chunks
  runs : List.Forall₂ (fun r r' : RunRow => r' = { r with
    durableFirstAvailableByte := r'.durableFirstAvailableByte
    replayBytes := r'.replayBytes
    replayTruncated := r'.replayTruncated }) db.runs db'.runs
  nextOrdinal : db'.nextOrdinal = db.nextOrdinal
  replayFile : db'.replayFile = db.replayFile

theorem Retired.refl (h : Filled db.chunks) : Retired db db :=
  ⟨Shrunk.refl h,List.forall₂_same.mpr fun _ _ => rfl,rfl,rfl⟩

theorem Retired.trans {a b c : Database} (hab : Retired a b) (hbc : Retired b c) : Retired a c where
  chunks := hab.chunks.trans hbc.chunks
  runs := forall₂_comp (fun x y z hxy hyz => by rw [hyz,hxy]) hab.runs hbc.runs
  nextOrdinal := hbc.nextOrdinal.trans hab.nextOrdinal
  replayFile := hbc.replayFile.trans hab.replayFile

/-- Every Run's rows tile its range less the bytes it owes: those that were cut from its
front while its floor has not moved yet. -/
structure Owing (db : Database) (debt : RunId → ℕ) (row : RunRow) : Prop where
  tiles : Tiles ChunkRow.startByte ChunkRow.endByte (row.durableFirstAvailableByte+debt row.id)
    (db.rowsOf row.id) row.durableOutputBytes
  bytes : row.replayBytes = row.durableOutputBytes-row.durableFirstAvailableByte
  truncated : 0 < row.durableFirstAvailableByte → row.replayTruncated = true
  bound : row.durableOutputBytes ≤ i64Max

theorem owing_zero {row : RunRow} : Owing db (fun _ => 0) row ↔ Window db row :=
  ⟨fun h => ⟨h.tiles,h.bytes,h.truncated,h.bound⟩,fun h => ⟨h.tiles,h.bytes,h.truncated,h.bound⟩⟩

theorem Owing.congr {debt' : RunId → ℕ} {row : RunRow} (h : Owing db debt row)
    (hdebt : debt' row.id = debt row.id) : Owing db debt' row :=
  ⟨hdebt ▸ h.tiles,h.bytes,h.truncated,h.bound⟩

/-- A cut at the first row of a Run adds to what the Run owes. -/
theorem owing_shedChunk {shed : ℕ} (hs : Sound db files) (hw : ∀ r ∈ db.runs, Owing db debt r)
    (hlead : Leads db row) (h : shedChunk db row.ordinal row.dataBytes shed = .ok db') :
    Sound db' files ∧ Retired db db' ∧
      ∀ r ∈ db'.runs, Owing db' (Function.update debt row.runId (debt row.runId+shed)) r := by
  obtain ⟨rest,hlead⟩ := hlead
  obtain ⟨hshrunk,hdb,hothers,hself⟩ := shedChunk_spec hs hlead h
  have hruns : db'.runs = db.runs := by rw [hdb]
  have hsound : Sound db' files := by
    rw [hdb]
    exact hs.shrink hshrunk
  have hretired : Retired db db' :=
    ⟨hshrunk,by rw [hruns]; exact List.forall₂_same.mpr fun _ _ => rfl,by rw [hdb],by rw [hdb]⟩
  refine ⟨hsound,hretired,fun r hr => ?_⟩
  rw [hruns] at hr
  have hrow := hw r hr
  by_cases hid : r.id = row.runId
  · have htiles := hrow.tiles
    rw [hid,hlead] at htiles
    obtain ⟨hstart,hlt,hrest⟩ := htiles
    have hsize := hs.sized row (Leads.mem ⟨rest,hlead⟩)
    refine ⟨?_,hrow.bytes,hrow.truncated,hrow.bound⟩
    rw [hid,Function.update_self]
    rcases hself with ⟨hall,hrows,_⟩ | ⟨hpart,hrows⟩
    · rw [hrows]
      have hfront : r.durableFirstAvailableByte+(debt row.runId+shed) = row.endByte := by omega
      rw [hfront]
      exact hrest
    · rw [hrows]
      refine ⟨?_,?_,hrest⟩
      · simp only [ChunkRow.trim]
        omega
      · simp only [ChunkRow.trim]
        omega
  · refine ⟨?_,hrow.bytes,hrow.truncated,hrow.bound⟩
    rw [Function.update_of_ne hid,hothers r.id hid]
    exact hrow.tiles

theorem min?_startByte {a b : ℕ} {rows : List ChunkRow}
    (h : Tiles ChunkRow.startByte ChunkRow.endByte a rows b) :
    (rows.map (·.startByte)).min?.getD b = a := by
  cases rows with
  | nil => exact (tiles_nil.mp h).symm
  | cons row rest =>
    have hmin : ((row::rest).map (·.startByte)).min? = some a := by
      refine List.min?_eq_some_iff.mpr ⟨List.mem_map.mpr ⟨row,by simp,h.1⟩,?_⟩
      intro n hn
      obtain ⟨r,hr,rfl⟩ := List.mem_map.mp hn
      exact (h.mem_bounds hr).1
    rw [hmin]
    rfl

theorem owing_shedRunBytes {id : RunId} (hs : Sound db files) (hw : ∀ r ∈ db.runs, Owing db debt r)
    (h : shedRunBytes db id (debt id) = .ok db') :
    Sound db' files ∧ Retired db db' ∧ ∀ r ∈ db'.runs, Owing db' (Function.update debt id 0) r := by
  have hframe : ∀ {r : RunRow}, r ∈ db.runs → r.id ≠ id → Owing db (Function.update debt id 0) r :=
    fun hr hne => (hw _ hr).congr (Function.update_of_ne hne _ _)
  unfold shedRunBytes at h
  split at h
  · rename_i hnone
    obtain rfl := Except.ok.inj h
    exact ⟨hs,Retired.refl hs.filled,fun r hr => hframe hr (Database.run?_eq_none.mp hnone r hr)⟩
  · split at h
    · cases h
    · obtain rfl := Except.ok.inj h
      refine ⟨hs.updateRun id (fun _ => rfl) (fun _ => rfl),⟨?_,?_,by simp,by simp⟩,fun r hr => ?_⟩
      · simpa using Shrunk.refl hs.filled
      · rw [Database.updateRun_runs,List.forall₂_map_right_iff]
        refine List.forall₂_same.mpr fun r _ => ?_
        split <;> rfl
      rcases Database.mem_updateRun hr with ⟨hmem,hne⟩ | ⟨old,hmem,hid,rfl⟩
      · have hrow := hframe hmem hne
        exact ⟨by simpa using hrow.tiles,hrow.bytes,hrow.truncated,hrow.bound⟩
      · have hrow := hw old hmem
        have htiles := hrow.tiles
        rw [hid] at htiles
        have hfloor := min?_startByte htiles
        have hle := htiles.le
        have hbytes := hrow.bytes
        refine ⟨?_,?_,fun _ => rfl,hrow.bound⟩
        · simpa [hid,hfloor] using htiles
        · simp only [hfloor]
          omega

/-- A store whose tables are sound and whose windows are whole stays so, and what it
lost is retired replay. -/
structure Evicts (files : Files) (db db' : Database) : Prop where
  sound : Sound db' files
  windows : ∀ r ∈ db'.runs, Window db' r
  retired : Retired db db'

theorem Evicts.refl (hs : Sound db files) (hw : ∀ r ∈ db.runs, Window db r) : Evicts files db db :=
  ⟨hs,hw,Retired.refl hs.filled⟩

theorem Evicts.trans {a b c : Database} (hab : Evicts files a b) (hbc : Evicts files b c) :
    Evicts files a c :=
  ⟨hbc.sound,hbc.windows,hab.retired.trans hbc.retired⟩

/-- A cut at the first row of a Run followed by the move of its floor. -/
theorem evicts_shed {db₁ db₂ : Database} {shed : ℕ} (hs : Sound db files)
    (hw : ∀ r ∈ db.runs, Window db r) (hlead : Leads db row)
    (h₁ : shedChunk db row.ordinal row.dataBytes shed = .ok db₁)
    (h₂ : shedRunBytes db₁ row.runId shed = .ok db₂) : Evicts files db db₂ := by
  obtain ⟨hs₁,hr₁,hw₁⟩ := owing_shedChunk hs (fun r hr => owing_zero.mpr (hw r hr)) hlead h₁
  have hdebt : Function.update (fun _ => 0) row.runId (0+shed) row.runId = shed := by simp
  rw [← hdebt] at h₂
  obtain ⟨hs₂,hr₂,hw₂⟩ := owing_shedRunBytes hs₁ hw₁ h₂
  refine ⟨hs₂,fun r hr => owing_zero.mp ((hw₂ r hr).congr ?_),hr₁.trans hr₂⟩
  by_cases hid : r.id = row.runId <;> simp [hid]

theorem rowsOf_mem (h : row ∈ db.chunks) :
    row ∈ db.rowsOf row.runId := List.mem_filter.mpr ⟨h,by simp⟩

/-- The rows before a Run's first row belong to other Runs. -/
theorem rowsOf_split {id : RunId} {first : ChunkRow} (h : db.rowsOf id = first::rest) :
    ∃ before after, db.chunks = before ++ first::after ∧ (∀ x ∈ before, x.runId ≠ id) ∧
      rest = after.filter (·.runId = id) := by
  obtain ⟨before,after,hchunks,hbefore,_,hrest⟩ := List.filter_eq_cons_iff.mp h
  exact ⟨before,after,hchunks,fun x hx => by simpa using hbefore x hx,hrest.symm⟩

/-- A row leads its Run when it does not stand behind another one of it. -/
theorem Leads.of_first (hmem : row ∈ db.chunks)
    (h : ∀ first rest, db.rowsOf row.runId = first::rest → row ∉ rest) : Leads db row := by
  have hin := rowsOf_mem hmem
  cases hrows : db.rowsOf row.runId with
  | nil => simp [hrows] at hin
  | cons first rest =>
    rw [hrows] at hin
    rcases List.mem_cons.mp hin with rfl | hrest
    · exact ⟨rest,hrows⟩
    · exact absurd hrest (h first rest hrows)

theorem globalReplayCandidate_leads (hs : Sound db files) (hw : ∀ r ∈ db.runs, Window db r)
    (h : globalReplayCandidate db = some row) : Leads db row := by
  obtain ⟨_,before,after,hchunks,hbefore⟩ := List.find?_eq_some_iff_append.mp h
  have hmem : row ∈ db.chunks := by simp [hchunks]
  refine Leads.of_first hmem fun first rest hrows hin => ?_
  have hfirst : first ∈ db.chunks ∧ first.runId = row.runId := by
    have : first ∈ db.rowsOf row.runId := by simp [hrows]
    simpa using List.mem_filter.mp this
  have hordinal := hs.lead_ordinal hrows row hin
  have hstart : first.startByte < row.startByte := by
    obtain ⟨r,hr,hid⟩ := hs.owned row hmem
    have htiles := (hw r hr).tiles.pairwise_lt
    rw [hid,hrows] at htiles
    exact (List.pairwise_cons.mp htiles).1 row hin
  have hbehind : first ∈ before := by
    have hpair := hs.ordinals
    have hmem' := hfirst.1
    rw [hchunks] at hpair hmem'
    rcases List.mem_append.mp hmem' with hb | hb
    · exact hb
    · rcases List.mem_cons.mp hb with rfl | hb
      · omega
      · have := (List.pairwise_cons.mp (List.pairwise_append.mp hpair).2.1).1 first hb
        omega
  have hnot := hbefore first hbehind
  simp only [Bool.not_eq_true',List.any_eq_false,decide_eq_true_eq] at hnot
  exact hnot row hmem ⟨hfirst.2.symm,hstart⟩

theorem largestRow_leads (hs : Sound db files) (h : largestRow db = some row) : Leads db row := by
  have hmem : row ∈ db.chunks := List.argmax_mem h
  refine Leads.of_first hmem fun first rest hrows hin => ?_
  obtain ⟨before,after,hchunks,hbefore,hrest⟩ := rowsOf_split hrows
  have hfirst : first.runId = row.runId := by
    have : first ∈ db.rowsOf row.runId := by simp [hrows]
    simpa using (List.mem_filter.mp this).2
  have hindex : db.chunks.idxOf row ≤ db.chunks.idxOf first :=
    List.index_of_argmax h (by simp [hchunks]) (by rw [hfirst])
  have hne : first ≠ row := by
    rintro rfl
    exact lt_irrefl _ (hs.lead_ordinal hrows first hin)
  have hout : ∀ x : ChunkRow, x.runId = row.runId → x ∉ before := fun x hx hb => hbefore x hb hx
  rw [hchunks,List.idxOf_append_of_notMem (hout row rfl),
    List.idxOf_append_of_notMem (hout first hfirst),List.idxOf_cons_self,
    List.idxOf_cons_ne _ hne] at hindex
  omega

theorem evicts_trimOldestRow {limit rows : ℕ} {fits : Bool} (hs : Sound db files)
    (hw : ∀ r ∈ db.runs, Window db r) (h : trimOldestRow limit rows db = .ok (fits,db')) :
    Evicts files db db' := by
  induction rows generalizing db with
  | zero =>
    obtain ⟨_,rfl⟩ := Prod.mk.inj (Except.ok.inj h)
    exact Evicts.refl hs hw
  | succ rows ih =>
    unfold trimOldestRow at h
    split at h
    · obtain ⟨_,rfl⟩ := Prod.mk.inj (Except.ok.inj h)
      exact Evicts.refl hs hw
    · split at h
      · cases h
      · rename_i row hlargest
        simp only at h
        split at h
        · obtain ⟨_,rfl⟩ := Prod.mk.inj (Except.ok.inj h)
          exact Evicts.refl hs hw
        · obtain ⟨db₁,h₁,hrest⟩ := bind_eq_ok.mp h
          obtain ⟨db₂,h₂,hrest⟩ := bind_eq_ok.mp hrest
          have hstep := evicts_shed hs hw (largestRow_leads hs hlargest) h₁ h₂
          exact hstep.trans (ih hstep.sound hstep.windows hrest)

theorem evicts_pruneGlobal {limit rows : ℕ} {fits : Bool} (hs : Sound db files)
    (hw : ∀ r ∈ db.runs, Window db r)
    (h : pruneGlobalReplayWithRowFunding limit rows db = .ok (fits,db')) : Evicts files db db' := by
  induction rows generalizing db with
  | zero =>
    obtain ⟨_,rfl⟩ := Prod.mk.inj (Except.ok.inj h)
    exact Evicts.refl hs hw
  | succ rows ih =>
    unfold pruneGlobalReplayWithRowFunding at h
    split at h
    · obtain ⟨_,rfl⟩ := Prod.mk.inj (Except.ok.inj h)
      exact Evicts.refl hs hw
    · split at h
      · exact evicts_trimOldestRow hs hw h
      · rename_i row hcandidate
        obtain ⟨db₁,h₁,hrest⟩ := bind_eq_ok.mp h
        obtain ⟨db₂,h₂,hrest⟩ := bind_eq_ok.mp hrest
        have hstep := evicts_shed hs hw (globalReplayCandidate_leads hs hw hcandidate) h₁ h₂
        exact hstep.trans (ih hstep.sound hstep.windows hrest)

/-- All candidates but the last are retired whole. -/
def WholeButLast : List (ChunkRow × ℕ) → Prop
  | [] => True
  | c::cs => (cs ≠ [] → c.2 = c.1.dataBytes) ∧ WholeButLast cs

theorem wholeButLast_reclaimCandidates (needed : ℕ) (rows : List ChunkRow) :
    WholeButLast (reclaimCandidates needed rows) := by
  induction rows generalizing needed with
  | nil => trivial
  | cons row rows ih =>
    unfold reclaimCandidates
    split
    · trivial
    · refine ⟨fun hne => ?_,ih _⟩
      by_contra hpart
      simp only at hpart hne
      have hzero : needed-min needed row.dataBytes = 0 := by omega
      rw [hzero] at hne
      cases rows with
      | nil => exact hne rfl
      | cons r rs => exact hne (by simp [reclaimCandidates])

theorem reclaimCandidates_initial (needed : ℕ) (rows : List ChunkRow) :
    (reclaimCandidates needed rows).map (·.1) <+: rows := by
  induction rows generalizing needed with
  | nil => simp [reclaimCandidates]
  | cons row rows ih =>
    unfold reclaimCandidates
    split
    · exact List.nil_prefix
    · simpa using ih _

/-- The first row that a condition on the owner selects leads its Run. -/
theorem Leads.of_filter (h : db.chunks.filter (fun r => p r.runId) = row::rest) : Leads db row := by
  have hp : p row.runId = true := by
    have : row ∈ db.chunks.filter (fun r => p r.runId) := by simp [h]
    exact (List.mem_filter.mp this).2
  have hrows : db.rowsOf row.runId = (row::rest).filter (·.runId = row.runId) := by
    rw [← h,List.filter_filter]
    refine List.filter_congr fun r _ => ?_
    by_cases hr : r.runId = row.runId <;> simp [hr,hp]
  exact ⟨rest.filter (·.runId = row.runId),by rw [hrows,List.filter_cons_of_pos (by simp)]⟩

theorem retiredBytes_cons (c : ChunkRow × ℕ) (cs : List (ChunkRow × ℕ)) (id : RunId) :
    retiredBytes (c::cs) id = (if c.1.runId = id then c.2 else 0)+retiredBytes cs id := by
  unfold retiredBytes
  by_cases h : c.1.runId = id <;> simp [h]

theorem shedChunk_whole (db : Database) (row : ChunkRow) :
    shedChunk db row.ordinal row.dataBytes row.dataBytes = .ok (db.deleteChunk row.ordinal) :=
  if_pos rfl

theorem deleteChunk_filter (hs : Sound db files)
    (h : db.chunks.filter (fun r => p r.runId) = row::rest) :
    (db.deleteChunk row.ordinal).chunks.filter (fun r => p r.runId) = rest := by
  have hpair : (row::rest).Pairwise (·.ordinal < ·.ordinal) := h ▸ hs.ordinals.filter _
  have hdelete : (db.deleteChunk row.ordinal).chunks.filter (fun r => p r.runId) =
      (row::rest).filter (·.ordinal ≠ row.ordinal) := h ▸ List.filter_comm _ _ _
  rw [hdelete,List.filter_cons_of_neg (by simp)]
  refine List.filter_eq_self.mpr fun r hr => ?_
  simpa using Nat.ne_of_gt ((List.pairwise_cons.mp hpair).1 r hr)

/-- Retiring a prefix of the rows of the selected Runs, oldest first. -/
theorem owing_retire {candidates : List (ChunkRow × ℕ)} (hs : Sound db files)
    (hw : ∀ r ∈ db.runs, Owing db debt r) (hwhole : WholeButLast candidates)
    (hinitial : candidates.map (·.1) <+: db.chunks.filter fun r => p r.runId)
    (h : candidates.foldlM (fun db c => shedChunk db c.1.ordinal c.1.dataBytes c.2) db = .ok db') :
    Sound db' files ∧ Retired db db' ∧
      ∀ r ∈ db'.runs, Owing db' (fun id => debt id+retiredBytes candidates id) r := by
  induction candidates generalizing db debt with
  | nil =>
    obtain rfl := Except.ok.inj h
    exact ⟨hs,Retired.refl hs.filled,fun r hr => (hw r hr).congr (by simp [retiredBytes])⟩
  | cons c cs ih =>
    rw [List.foldlM_cons] at h
    obtain ⟨db₁,h₁,hrest⟩ := bind_eq_ok.mp h
    obtain ⟨rest,hrows⟩ := hinitial
    have hrows : db.chunks.filter (fun r => p r.runId) = c.1::(cs.map (·.1) ++ rest) := by
      simpa using hrows.symm
    have hlead : Leads db c.1 := Leads.of_filter hrows
    obtain ⟨hs₁,hr₁,hw₁⟩ := owing_shedChunk hs hw hlead h₁
    have hnext : cs.map (·.1) <+: db₁.chunks.filter fun r => p r.runId := by
      by_cases hlast : cs = []
      · simp [hlast]
      · rw [hwhole.1 hlast,shedChunk_whole] at h₁
        rw [← Except.ok.inj h₁,deleteChunk_filter hs hrows]
        exact List.prefix_append _ _
    obtain ⟨hs₂,hr₂,hw₂⟩ := ih hs₁ hw₁ hwhole.2 hnext hrest
    refine ⟨hs₂,hr₁.trans hr₂,fun r hr => (hw₂ r hr).congr ?_⟩
    rw [retiredBytes_cons]
    by_cases hid : r.id = c.1.runId
    · simp [hid]
      omega
    · simp [hid,Ne.symm hid]

/-- Moving every affected Run's floor settles all debts. -/
theorem owing_settle {files : Files} {db db' : Database} {ids : List RunId} {debt : RunId → ℕ}
    (hs : Sound db files) (hids : ids.Nodup) (hw : ∀ r ∈ db.runs, Owing db debt r)
    (h : ids.foldlM (fun db id => shedRunBytes db id (debt id)) db = .ok db') :
    Sound db' files ∧ Retired db db' ∧
      ∀ r ∈ db'.runs, Owing db' (fun id => if id ∈ ids then 0 else debt id) r := by
  suffices hgen : ∀ (ids : List RunId) (db : Database) (owed : RunId → ℕ), ids.Nodup →
      (∀ id ∈ ids, owed id = debt id) → Sound db files → (∀ r ∈ db.runs, Owing db owed r) →
      ids.foldlM (fun db id => shedRunBytes db id (debt id)) db = .ok db' →
      Sound db' files ∧ Retired db db' ∧
        ∀ r ∈ db'.runs, Owing db' (fun id => if id ∈ ids then 0 else owed id) r from
    hgen ids db debt hids (fun _ _ => rfl) hs hw h
  clear h hw hs hids ids db
  intro ids
  induction ids with
  | nil =>
    intro db owed _ _ hs hw h
    obtain rfl := Except.ok.inj h
    exact ⟨hs,Retired.refl hs.filled,by simpa using hw⟩
  | cons id ids ih =>
    intro db owed hnodup howed hs hw h
    rw [List.foldlM_cons] at h
    obtain ⟨db₁,h₁,hrest⟩ := bind_eq_ok.mp h
    rw [← howed id (by simp)] at h₁
    obtain ⟨hs₁,hr₁,hw₁⟩ := owing_shedRunBytes hs hw h₁
    obtain ⟨hnot,hnodup⟩ := List.nodup_cons.mp hnodup
    have howed₁ : ∀ other ∈ ids, Function.update owed id 0 other = debt other := by
      intro other hother
      have hne : other ≠ id := fun he => hnot (he ▸ hother)
      rw [Function.update_of_ne hne]
      exact howed other (by simp [hother])
    obtain ⟨hs₂,hr₂,hw₂⟩ := ih db₁ _ hnodup howed₁ hs₁ hw₁ hrest
    refine ⟨hs₂,hr₁.trans hr₂,fun r hr => (hw₂ r hr).congr ?_⟩
    by_cases hid : r.id = id
    · simp [hid,hnot]
    · simp [hid]

theorem evicts_applyRetirement {candidates : List (ChunkRow × ℕ)} (hs : Sound db files)
    (hw : ∀ r ∈ db.runs, Window db r) (hwhole : WholeButLast candidates)
    (hinitial : candidates.map (·.1) <+: db.chunks.filter fun r => p r.runId)
    (h : applyRetirement db candidates = .ok db') : Evicts files db db' := by
  obtain ⟨db₁,h₁,h₂⟩ := bind_eq_ok.mp h
  obtain ⟨hs₁,hr₁,hw₁⟩ := owing_retire hs (fun r hr => owing_zero.mpr (hw r hr)) hwhole hinitial h₁
  simp only [zero_add] at hw₁
  obtain ⟨hs₂,hr₂,hw₂⟩ := owing_settle hs₁ (List.nodup_dedup _) hw₁ h₂
  refine ⟨hs₂,fun r hr => owing_zero.mp ((hw₂ r hr).congr ?_),hr₁.trans hr₂⟩
  split
  · rfl
  · rename_i hnot
    have hnone : candidates.filter (·.1.runId = r.id) = [] := by
      refine List.filter_eq_nil_iff.mpr fun c hc hid => hnot ?_
      exact List.mem_dedup.mpr (List.mem_map.mpr ⟨c,hc,by simpa using hid⟩)
    simp [retiredBytes,hnone]

theorem evicts_reclaimConfirmedPrefix {needed rows : ℕ} {target : Option RunId} {found : Bool}
    (hs : Sound db files) (hw : ∀ r ∈ db.runs, Window db r)
    (h : reclaimConfirmedPrefix db needed target rows = .ok (found,db')) :
    Evicts files db db' := by
  unfold reclaimConfirmedPrefix at h
  simp only at h
  split at h
  · obtain ⟨_,rfl⟩ := Prod.mk.inj (Except.ok.inj h)
    exact Evicts.refl hs hw
  · obtain ⟨db₁,h₁,hrest⟩ := bind_eq_ok.mp h
    obtain ⟨_,rfl⟩ := Prod.mk.inj (Except.ok.inj hrest)
    exact evicts_applyRetirement (p := fun id => target.all (id = ·)) hs hw
      (wholeButLast_reclaimCandidates _ _)
      ((reclaimCandidates_initial _ _).trans (List.take_prefix _ _)) h₁

theorem wholeButLast_rows (rows : List ChunkRow) :
    WholeButLast (rows.map fun row => (row,row.dataBytes)) := by
  induction rows with
  | nil => trivial
  | cons row rows ih => exact ⟨fun _ => rfl,ih⟩

theorem evicts_reclaimDatabasePages {rows : ℕ} {capacity : PersistenceError} (hs : Sound db files)
    (hw : ∀ r ∈ db.runs, Window db r) (h : reclaimDatabasePages db capacity rows = .ok db') :
    Evicts files db db' := by
  unfold reclaimDatabasePages at h
  simp only at h
  split at h
  · cases h
  · refine evicts_applyRetirement (p := fun _ => true) hs hw (wholeButLast_rows _) ?_ h
    simpa [List.map_map,Function.comp_def] using List.take_prefix rows db.chunks

end Durable
end Ctxmux
