import Ctxmux.ReplayAppend

/-!
# The durable replay window

What the tables of a store keep: strictly increasing ordinals, rows owned by
existing Runs and sized by their ranges, pairwise disjoint extents inside their
files, accounting equal to the true totals, and for each Run a window of rows that
tiles `[durable_first_available_byte,durable_output_bytes)`.
-/

namespace Ctxmux
namespace Durable

open Tiling

theorem bind_eq_ok {α β : Type} {x : Except PersistenceError α}
    {f : α → Except PersistenceError β} {b : β} :
    x >>= f = .ok b ↔ ∃ a, x = .ok a ∧ f a = .ok b := by
  cases x with
  | error e => simp [bind,Except.bind]
  | ok a => simp [bind,Except.bind]

theorem forall₂_comp {α β γ : Type} {R : α → β → Prop} {S : β → γ → Prop} {T : α → γ → Prop}
    (hT : ∀ x y z, R x y → S y z → T x z) {xs : List α} {ys : List β} {zs : List γ}
    (hxy : List.Forall₂ R xs ys) (hyz : List.Forall₂ S ys zs) : List.Forall₂ T xs zs := by
  induction hxy generalizing zs with
  | nil =>
    cases hyz
    exact .nil
  | cons hr _ ih =>
    cases hyz with
    | cons hs hrest => exact .cons (hT _ _ _ hr hs) (ih hrest)

/-- `new` keeps some rows of `old`, each with its front cut by fewer bytes than it has. -/
inductive Shrunk : List ChunkRow → List ChunkRow → Prop where
  | nil : Shrunk [] []
  | drop (row : ChunkRow) {old new : List ChunkRow} : Shrunk old new → Shrunk (row::old) new
  | cut (row : ChunkRow) {k : ℕ} {old new : List ChunkRow} (hk : k < row.dataBytes) :
      Shrunk old new → Shrunk (row::old) (row.trim k::new)

theorem ChunkRow.trim_trim (row : ChunkRow) (j k : ℕ) :
    (row.trim j).trim k = row.trim (j+k) := by
  simp only [trim,ChunkRow.mk.injEq,true_and]
  omega

theorem ChunkRow.clip_eq_trim {row : ChunkRow} {front : ℕ} (hstart : row.startByte ≤ front)
    (hsize : row.dataBytes = row.endByte-row.startByte) :
    row.clip front = row.trim (front-row.startByte) := by
  simp only [clip,trim,ChunkRow.mk.injEq,true_and]
  omega

namespace Shrunk

theorem trans {a b c : List ChunkRow} (hab : Shrunk a b) (hbc : Shrunk b c) : Shrunk a c := by
  induction hab generalizing c with
  | nil => exact hbc
  | drop row _ ih => exact .drop row (ih hbc)
  | cut row hk _ ih =>
    rename_i k old new
    cases hbc with
    | drop _ h => exact .drop row (ih h)
    | cut _ hj h =>
      rw [ChunkRow.trim_trim]
      exact .cut row (by simp only [ChunkRow.trim] at hj; omega) (ih h)

theorem mem {old new : List ChunkRow} (h : Shrunk old new) {row' : ChunkRow} (hr : row' ∈ new) :
    ∃ row ∈ old, ∃ k < row.dataBytes, row' = row.trim k := by
  induction h with
  | nil => simp at hr
  | drop row _ ih =>
    obtain ⟨r,hr,h⟩ := ih hr
    exact ⟨r,by simp [hr],h⟩
  | @cut row k old new hk _ ih =>
    rcases List.mem_cons.mp hr with rfl | hr
    · exact ⟨row,by simp,k,hk,rfl⟩
    · obtain ⟨r,hr,h⟩ := ih hr
      exact ⟨r,by simp [hr],h⟩

theorem pairwise {R : ChunkRow → ChunkRow → Prop} {old new : List ChunkRow}
    (h : Shrunk old new) (hold : old.Pairwise R)
    (hR : ∀ x y j k, j < x.dataBytes → k < y.dataBytes → R x y → R (x.trim j) (y.trim k)) :
    new.Pairwise R := by
  induction h with
  | nil => exact List.Pairwise.nil
  | drop row _ ih => exact ih (List.pairwise_cons.mp hold).2
  | @cut row k old new hk h ih =>
    obtain ⟨hrow,hold⟩ := List.pairwise_cons.mp hold
    refine List.pairwise_cons.mpr ⟨fun y hy => ?_,ih hold⟩
    obtain ⟨x,hx,j,hj,rfl⟩ := h.mem hy
    exact hR row x k j hk hj (hrow x hx)

end Shrunk

/-- Every row is non-empty, a `CHECK` of the schema. -/
def Filled (rows : List ChunkRow) : Prop := ∀ row ∈ rows, 0 < row.dataBytes

theorem Shrunk.refl {rows : List ChunkRow} (h : Filled rows) : Shrunk rows rows := by
  induction rows with
  | nil => exact .nil
  | cons row rows ih =>
    exact .cut row (h row (by simp)) (ih fun r hr => h r (by simp [hr]))

theorem Shrunk.filter {rows : List ChunkRow} (h : Filled rows) (p : ChunkRow → Bool) :
    Shrunk rows (rows.filter p) := by
  induction rows with
  | nil => exact .nil
  | cons row rows ih =>
    have htail := ih fun r hr => h r (by simp [hr])
    by_cases hp : p row = true
    · rw [List.filter_cons_of_pos hp]
      exact .cut row (h row (by simp)) htail
    · rw [List.filter_cons_of_neg hp]
      exact .drop row htail

theorem Shrunk.mapTrim {rows : List ChunkRow} (h : Filled rows) (p : ChunkRow → Prop)
    [DecidablePred p] (k : ChunkRow → ℕ) (hk : ∀ row ∈ rows, p row → k row < row.dataBytes) :
    Shrunk rows (rows.map fun row => if p row then row.trim (k row) else row) := by
  induction rows with
  | nil => exact .nil
  | cons row rows ih =>
    have htail := ih (fun r hr => h r (by simp [hr])) fun r hr => hk r (by simp [hr])
    rw [List.map_cons]
    by_cases hp : p row
    · rw [if_pos hp]
      exact .cut row (hk row (by simp) hp) htail
    · rw [if_neg hp]
      exact .cut row (h row (by simp)) htail

/-- Two extents share no byte of a file. -/
def Apart (x y : ChunkRow) : Prop :=
  x.dataFile = y.dataFile →
    x.dataOffset+x.dataBytes ≤ y.dataOffset ∨ y.dataOffset+y.dataBytes ≤ x.dataOffset

/-- The extent of a row lies inside a file of the replay directory. -/
def Backed (files : Files) (row : ChunkRow) : Prop :=
  validReplayFileName row.dataFile = true ∧
    ∃ content, files row.dataFile = some content ∧ row.dataOffset+row.dataBytes ≤ content.length

/-- The facts about tables and files that hold between any two statements. -/
structure Sound (db : Database) (files : Files) : Prop where
  ids : (db.runs.map (·.id)).Nodup
  keys : (db.runs.map (·.creationKey)).Nodup
  accounting : db.accounting = Accounting.ofRuns db.runs
  ordinals : db.chunks.Pairwise (·.ordinal < ·.ordinal)
  fresh : ∀ row ∈ db.chunks, row.ordinal < db.nextOrdinal
  owned : ∀ row ∈ db.chunks, ∃ r ∈ db.runs, r.id = row.runId
  filled : Filled db.chunks
  sized : ∀ row ∈ db.chunks, row.dataBytes = row.endByte-row.startByte
  apart : db.chunks.Pairwise Apart
  backed : ∀ row ∈ db.chunks, Backed files row

/-- The rows of a Run tile its durable range, and its counters agree with them. -/
structure Window (db : Database) (row : RunRow) : Prop where
  tiles : Tiles ChunkRow.startByte ChunkRow.endByte row.durableFirstAvailableByte
    (db.rowsOf row.id) row.durableOutputBytes
  bytes : row.replayBytes = row.durableOutputBytes-row.durableFirstAvailableByte
  truncated : 0 < row.durableFirstAvailableByte → row.replayTruncated = true
  bound : row.durableOutputBytes ≤ i64Max

variable {db : Database}

theorem Sound.shrink {files : Files} (h : Sound db files) {new : List ChunkRow}
    (hs : Shrunk db.chunks new) :
    Sound { db with chunks := new } files where
  ids := h.ids
  keys := h.keys
  accounting := h.accounting
  ordinals := hs.pairwise h.ordinals fun _ _ _ _ _ _ hxy => hxy
  fresh row' hr := by
    obtain ⟨row,hrow,k,_,rfl⟩ := hs.mem hr
    exact h.fresh row hrow
  owned row' hr := by
    obtain ⟨row,hrow,k,_,rfl⟩ := hs.mem hr
    exact h.owned row hrow
  filled row' hr := by
    obtain ⟨row,hrow,k,hk,rfl⟩ := hs.mem hr
    simp only [ChunkRow.trim]
    omega
  sized row' hr := by
    obtain ⟨row,hrow,k,hk,rfl⟩ := hs.mem hr
    have := h.sized row hrow
    simp only [ChunkRow.trim]
    omega
  apart := hs.pairwise h.apart fun x y j k hj hk hxy hfile => by
    have := hxy hfile
    simp only [ChunkRow.trim]
    omega
  backed row' hr := by
    obtain ⟨row,hrow,k,hk,rfl⟩ := hs.mem hr
    obtain ⟨hname,content,hfile,hlen⟩ := h.backed row hrow
    refine ⟨hname,content,hfile,?_⟩
    simp only [ChunkRow.trim]
    omega

namespace Database

variable {id : RunId}

theorem run?_split {old : RunRow} (h : db.run? id = some old) :
    ∃ before after, db.runs = before ++ old::after ∧ old.id = id ∧
      ∀ r ∈ before, r.id ≠ id := by
  obtain ⟨hid,before,after,hruns,hbefore⟩ := List.find?_eq_some_iff_append.mp h
  exact ⟨before,after,hruns,by simpa using hid,by simpa using hbefore⟩

theorem run?_mem {old : RunRow} (h : db.run? id = some old) :
    old ∈ db.runs ∧ old.id = id := by
  obtain ⟨before,after,hruns,hid,_⟩ := run?_split h
  exact ⟨by simp [hruns],hid⟩

theorem run?_eq_none :
    db.run? id = none ↔ ∀ r ∈ db.runs, r.id ≠ id := by
  simp [run?]

theorem run?_of_mem {r : RunRow} (hids : (db.runs.map (·.id)).Nodup) (hr : r ∈ db.runs) :
    db.run? r.id = some r := by
  cases hrun : db.run? r.id with
  | none => exact absurd rfl (run?_eq_none.mp hrun r hr)
  | some old =>
    obtain ⟨hold,hid⟩ := run?_mem hrun
    rw [List.inj_on_of_nodup_map hids hold hr hid]

theorem selectRun_eq_ok {row : RunRow} :
    db.selectRun id = .ok row ↔ db.run? id = some row := by
  unfold selectRun
  cases db.run? id <;> simp

@[simp] theorem updateRun_chunks (db : Database) (id : RunId) (f : RunRow → RunRow) :
    (db.updateRun id f).chunks = db.chunks := by
  unfold updateRun
  cases db.run? id <;> rfl

@[simp] theorem updateRun_nextOrdinal (db : Database) (id : RunId) (f : RunRow → RunRow) :
    (db.updateRun id f).nextOrdinal = db.nextOrdinal := by
  unfold updateRun
  cases db.run? id <;> rfl

@[simp] theorem updateRun_replayFile (db : Database) (id : RunId) (f : RunRow → RunRow) :
    (db.updateRun id f).replayFile = db.replayFile := by
  unfold updateRun
  cases db.run? id <;> rfl

@[simp] theorem updateRun_rowsOf (db : Database) (id other : RunId) (f : RunRow → RunRow) :
    (db.updateRun id f).rowsOf other = db.rowsOf other := by
  simp [rowsOf]

theorem updateRun_runs (db : Database) (id : RunId) (f : RunRow → RunRow) :
    (db.updateRun id f).runs = db.runs.map fun row => if row.id = id then f row else row := by
  cases h : db.run? id with
  | none =>
    have hfix : ∀ row ∈ db.runs, (if row.id = id then f row else row) = row :=
      fun row hr => if_neg (run?_eq_none.mp h row hr)
    rw [List.map_congr_left hfix,List.map_id']
    simp [updateRun,h]
  | some old => simp [updateRun,h]

theorem run?_map {db db' : Database} {g : RunRow → RunRow} (hid : ∀ row, (g row).id = row.id)
    (hruns : db'.runs = db.runs.map g) (id : RunId) : db'.run? id = (db.run? id).map g := by
  unfold run?
  rw [hruns,List.find?_map]
  congr 2
  funext row
  simp [hid]

theorem run?_updateRun {db : Database} {id : RunId} {f : RunRow → RunRow}
    (hid : ∀ row, (f row).id = row.id) (other : RunId) :
    (db.updateRun id f).run? other =
      (db.run? other).map fun row => if row.id = id then f row else row :=
  run?_map (fun row => by split <;> simp [hid]) (updateRun_runs db id f) other

theorem mem_updateRun {f : RunRow → RunRow} {row' : RunRow} (h : row' ∈ (db.updateRun id f).runs) :
    (row' ∈ db.runs ∧ row'.id ≠ id) ∨ ∃ row ∈ db.runs, row.id = id ∧ row' = f row := by
  rw [updateRun_runs] at h
  obtain ⟨row,hr,rfl⟩ := List.mem_map.mp h
  by_cases hid : row.id = id
  · exact .inr ⟨row,hr,hid,if_pos hid⟩
  · rw [if_neg hid]
    exact .inl ⟨hr,hid⟩

theorem run?_split_nodup {old : RunRow} (hids : (db.runs.map (·.id)).Nodup)
    (h : db.run? id = some old) :
    ∃ before after, db.runs = before ++ old::after ∧ old.id = id ∧
      (∀ r ∈ before, r.id ≠ id) ∧ ∀ r ∈ after, r.id ≠ id := by
  obtain ⟨before,after,hruns,hid,hbefore⟩ := run?_split h
  refine ⟨before,after,hruns,hid,hbefore,fun r hr hrid => ?_⟩
  rw [hruns,List.map_append,List.map_cons] at hids
  have hnot := (List.nodup_cons.mp (List.nodup_append.mp hids).2.1).1
  exact hnot (List.mem_map.mpr ⟨r,hr,by rw [hrid,hid]⟩)

theorem updateRun_accounting {f : RunRow → RunRow} (hids : (db.runs.map (·.id)).Nodup)
    (hacc : db.accounting = Accounting.ofRuns db.runs) :
    (db.updateRun id f).accounting = Accounting.ofRuns (db.updateRun id f).runs := by
  cases h : db.run? id with
  | none => simpa [updateRun,h] using hacc
  | some old =>
    obtain ⟨before,after,hruns,hid,hbefore,hafter⟩ := run?_split_nodup hids h
    have hfix : ∀ l : List RunRow, (∀ r ∈ l, r.id ≠ id) →
        l.map (fun row => if row.id = id then f row else row) = l := fun l hl =>
      (List.map_congr_left fun r hr => if_neg (hl r hr)).trans (List.map_id' l)
    have hmap : (db.updateRun id f).runs = before ++ f old::after := by
      rw [updateRun_runs,hruns,List.map_append,List.map_cons,if_pos hid,hfix before hbefore,
        hfix after hafter]
    have hnew : (db.updateRun id f).accounting = db.accounting.update old (f old) := by
      simp [updateRun,h]
    rw [hnew,hmap,hacc,hruns]
    simp only [Accounting.update,Accounting.ofRuns,Accounting.occupied,List.length_append,
      List.length_cons,List.map_append,List.map_cons,List.sum_append,List.sum_cons,
      List.countP_append,List.countP_cons,decide_eq_true_eq,Accounting.mk.injEq,true_and]
    omega

theorem deleteRun_runs (db : Database) (id : RunId) :
    (db.deleteRun id).runs = db.runs.filter (·.id ≠ id) := by
  cases h : db.run? id with
  | none =>
    have hall : ∀ r ∈ db.runs, decide (r.id ≠ id) = true := fun r hr => by
      simpa using run?_eq_none.mp h r hr
    rw [List.filter_eq_self.mpr hall]
    simp [deleteRun,h]
  | some old => simp [deleteRun,h]

theorem deleteRun_accounting (hids : (db.runs.map (·.id)).Nodup)
    (hacc : db.accounting = Accounting.ofRuns db.runs) :
    (db.deleteRun id).accounting = Accounting.ofRuns (db.deleteRun id).runs := by
  cases h : db.run? id with
  | none => simpa [deleteRun,h] using hacc
  | some old =>
    obtain ⟨before,after,hruns,hid,hbefore,hafter⟩ := run?_split_nodup hids h
    have hfix : ∀ l : List RunRow, (∀ r ∈ l, r.id ≠ id) → l.filter (·.id ≠ id) = l := fun l hl =>
      List.filter_eq_self.mpr fun r hr => by simpa using hl r hr
    have hfilter : (db.deleteRun id).runs = before ++ after := by
      rw [deleteRun_runs,hruns,List.filter_append,List.filter_cons_of_neg (by simpa using hid),
        hfix before hbefore,hfix after hafter]
    have hnew : (db.deleteRun id).accounting = db.accounting.delete old := by
      simp [deleteRun,h]
    rw [hnew,hfilter,hacc,hruns]
    simp only [Accounting.delete,Accounting.ofRuns,Accounting.occupied,List.length_append,
      List.length_cons,List.map_append,List.map_cons,List.sum_append,List.sum_cons,
      List.countP_append,List.countP_cons,decide_eq_true_eq,Accounting.mk.injEq]
    omega

theorem insertRun_eq_ok {db' : Database} {row : RunRow} (h : db.insertRun row = .ok db') :
    (∀ r ∈ db.runs, r.id ≠ row.id) ∧ (∀ r ∈ db.runs, r.creationKey ≠ row.creationKey) ∧
      db' = { db with runs := db.runs ++ [row], accounting := db.accounting.insert row } := by
  unfold insertRun at h
  split_ifs at h with hc
  push Not at hc
  exact ⟨hc.1,hc.2,(Except.ok.inj h).symm⟩

theorem insert_accounting {runs : List RunRow} (row : RunRow) :
    (Accounting.ofRuns runs).insert row = Accounting.ofRuns (runs ++ [row]) := by
  simp [Accounting.insert,Accounting.ofRuns,Accounting.occupied,List.countP_append]

end Database

theorem Window.congr {db' : Database} {row : RunRow} (h : Window db row)
    (hrows : db'.rowsOf row.id = db.rowsOf row.id) : Window db' row where
  tiles := hrows ▸ h.tiles
  bytes := h.bytes
  truncated := h.truncated
  bound := h.bound

theorem Sound.updateRun {files : Files} (h : Sound db files) (id : RunId) {f : RunRow → RunRow}
    (hid : ∀ row, (f row).id = row.id) (hkey : ∀ row, (f row).creationKey = row.creationKey) :
    Sound (db.updateRun id f) files where
  ids := by
    have : (db.updateRun id f).runs.map (·.id) = db.runs.map (·.id) := by
      rw [Database.updateRun_runs,List.map_map]
      refine List.map_congr_left fun row _ => ?_
      simp only [Function.comp]
      split <;> simp [hid]
    rw [this]
    exact h.ids
  keys := by
    have : (db.updateRun id f).runs.map (·.creationKey) = db.runs.map (·.creationKey) := by
      rw [Database.updateRun_runs,List.map_map]
      refine List.map_congr_left fun row _ => ?_
      simp only [Function.comp]
      split <;> simp [hkey]
    rw [this]
    exact h.keys
  accounting := Database.updateRun_accounting h.ids h.accounting
  ordinals := by simpa using h.ordinals
  fresh := by simpa using h.fresh
  owned := by
    intro row hr
    obtain ⟨r,hrun,hrid⟩ := h.owned row (by simpa using hr)
    rw [Database.updateRun_runs]
    refine ⟨if r.id = id then f r else r,List.mem_map.mpr ⟨r,hrun,rfl⟩,?_⟩
    split <;> simp [hid,hrid]
  filled := by simpa using h.filled
  sized := by simpa using h.sized
  apart := by simpa using h.apart
  backed := by simpa using h.backed

theorem windows_updateRun {db' : Database} {id : RunId} {f : RunRow → RunRow}
    (hw : ∀ r ∈ db.runs, Window db r) (hruns : db'.runs = db.runs)
    (hframe : ∀ other, other ≠ id → db'.rowsOf other = db.rowsOf other)
    (hself : ∀ r ∈ db.runs, r.id = id → Window (db'.updateRun id f) (f r)) :
    ∀ r ∈ (db'.updateRun id f).runs, Window (db'.updateRun id f) r := by
  intro r hr
  rcases Database.mem_updateRun hr with ⟨hmem,hne⟩ | ⟨row,hmem,hid,rfl⟩
  · rw [hruns] at hmem
    exact (hw r hmem).congr (by rw [Database.updateRun_rowsOf,hframe r.id hne])
  · rw [hruns] at hmem
    exact hself row hmem hid

end Durable
end Ctxmux
